import OrtTunnel.Cli.Keys

namespace OrtTunnel.Cli
open BigEndian OrtTunnel.Core OrtTunnel.Net

-- One start of `ortd` or `ortc`, with the random bytes it draws and the fate of its writes.
inductive Command where
  | genKey (out : Path) (drawn : Drawn) (w₁ w₂ : KeyWrite)
  | genCert (out : Path) (drawn : Drawn) (certSeed : Arr 32) (w : CertWrites)
  | runServer (args : RunArgs) (seed : Arr 64)
  | runClient (clientKey : Option Path) (seed : Arr 32) (w : KeyWrite)

namespace Command

end Command

section Steps
variable {S : CipherSuite} (K : SeedKeys S) (R : Rcgen)

def step (disk : Disk) : Command → Disk
  | .genKey out drawn w₁ w₂ => (genKey K disk out drawn w₁ w₂).2
  | .genCert out drawn certSeed w => (genCert K R disk out drawn certSeed w).2
  | .runServer _ _ => disk
  | .runClient clientKey seed w => (loadClientConfig K disk clientKey seed w).2

def exec (disk : Disk) (commands : List Command) : Disk := commands.foldl (step K R) disk

end Steps

section Kept
variable {S : CipherSuite} {K : SeedKeys S} {R : Rcgen} {disk : Disk} {p dir : Path}

end Kept

section Identity
variable {S : CipherSuite} {K : SeedKeys S} {R : Rcgen} {disk : Disk} {dir : Path}

end Identity

def seedSuite : CipherSuite :=
  { plainSuite with
    KemSecret := Arr 64
    kemPublic := Subtype.val
    kemDecapsulate := fun sk ct => .ok (digest 32 (sk.val ++ ct)) }

def seedKeys : SeedKeys seedSuite where
  kemNew := fun seed => seed
  kemToBytes := fun secret => secret
  sigFromSeed := fun seed => seed
  sigToSeed := fun secret => secret

def keyed : Disk :=
  (genKey seedKeys (fun _ => none) ["cert"] ⟨fill 64 1,fill 32 2⟩ ⟨true,.done⟩ ⟨true,.done⟩).2

end OrtTunnel.Cli
