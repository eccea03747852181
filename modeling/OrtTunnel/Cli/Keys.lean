import OrtTunnel.Core.PlainSuite
import OrtTunnel.Core.Handshake.Client
import OrtTunnel.Core.Handshake.Server
import OrtTunnel.Net.Session

namespace OrtTunnel.Cli
open BigEndian OrtTunnel.Core OrtTunnel.Net

structure SeedKeys (S : CipherSuite) where
  kemNew : Arr 64 → S.KemSecret
  kemToBytes : S.KemSecret → Arr 64
  sigFromSeed : Arr 32 → S.SigSecret
  sigToSeed : S.SigSecret → Arr 32

-- The parts of `rcgen` that issue a certificate.
structure Rcgen where
  KeyPair : Type
  Params : Type
  generateFor : Arr 32 → Except String KeyPair
  newParams : List String → Except String Params
  selfSigned : Params → List (List ℕ × Bytes) → KeyPair → Except String Bytes
  serializeDer : KeyPair → Bytes

inductive CliError where
  | fs (context : List String)
  | core (context : List String) (e : Error)
  | rcgen (context : List String) (e : String)
  deriving DecidableEq

def CliError.context (what : String) : CliError → CliError
  | .fs context => .fs (what :: context)
  | .core context e => .core (what :: context) e
  | .rcgen context e => .rcgen (what :: context) e

abbrev Path := List String

def Path.display (p : Path) : String := String.intercalate "/" p

def Path.join (p : Path) (name : String) : Path := p ++ [name]

abbrev Disk := Path → Option Bytes

-- `std::fs::write` truncates before it writes, so a write that fails may leave a part of the file.
inductive Wrote where
  | done
  | refused
  | torn (n : ℕ)
  deriving DecidableEq

structure KeyWrite where
  madeDir : Bool
  wrote : Wrote
  deriving DecidableEq

namespace Disk

def set (disk : Disk) (p : Path) (bytes : Bytes) : Disk := Function.update disk p (some bytes)

def write (disk : Disk) (p : Path) (bytes : Bytes) : Wrote → Bool × Disk
  | .done => (true,disk.set p bytes)
  | .refused => (false,disk)
  | .torn n => (false,disk.set p (bytes.take n))

end Disk

abbrev Done (α : Type) := Except CliError α × Disk

-- The `?` of the source: what has been written stays when the rest is skipped.
def Done.andThen {α β : Type} (x : Done α) (f : α → Disk → Done β) : Done β :=
  match x with
  | (.error e,disk) => (.error e,disk)
  | (.ok a,disk) => f a disk

def writeKey (disk : Disk) (p : Path) (bytes : Bytes) (w : KeyWrite) : Done Unit :=
  let parent : Path := p.dropLast
  if parent ≠ [] ∧ w.madeDir = false then (.error (.fs ["creating " ++ parent.display]),disk) else
  match disk.write p bytes w.wrote with
  | (false,disk) => (.error (.fs ["writing key " ++ p.display]),disk)
  | (true,disk) => (.ok (),disk)

def kemKeyFile : String := "server_kem.key"
def signKeyFile : String := "server_sign.key"
def certFile : String := "cert.der"
def certSigningFile : String := "cert_signing.key"

def serverpkOidU64 : List ℕ := [1,3,6,1,4,1,58271,1,1]

section Suite
variable {S : CipherSuite} (K : SeedKeys S)

def kemSecretFromBytes (seed : Bytes) : Except Error S.KemSecret :=
  if h : seed.length = 64 then .ok (K.kemNew ⟨seed,h⟩)
  else .error (.invalidLength "ml-kem decapsulation seed" 64 seed.length)

def sigSecretFromBytes (seed : Bytes) : Except Error S.SigSecret :=
  if h : seed.length = 32 then .ok (K.sigFromSeed ⟨seed,h⟩)
  else .error (.invalidLength "ml-dsa signing seed" 32 seed.length)

-- The seeds are the random bytes that `kem_generate` and `sig_generate` draw.
structure Drawn where
  kem : Arr 64
  sig : Arr 32

def writeServerKeys (disk : Disk) (dir : Path) (drawn : Drawn) (w₁ w₂ : KeyWrite) :
    Done S.KemSecret :=
  let kem := K.kemNew drawn.kem
  let sign := K.sigFromSeed drawn.sig
  Done.andThen (writeKey disk (dir.join kemKeyFile) (K.kemToBytes kem).val w₁) fun _ disk =>
  Done.andThen (writeKey disk (dir.join signKeyFile) (K.sigToSeed sign).val w₂) fun _ disk =>
  (.ok kem,disk)

def genKey (disk : Disk) (out : Path) (drawn : Drawn) (w₁ w₂ : KeyWrite) : Done Bytes :=
  Done.andThen (writeServerKeys K disk out drawn w₁ w₂) fun kem disk => (.ok (S.kemPublic kem),disk)

def decodeKem (seed : Bytes) : Except CliError S.KemSecret :=
  match kemSecretFromBytes K seed with
  | .error e => .error (.core ["decode server KEM key"] e)
  | .ok kem => .ok kem

def loadOrMakeKem (disk : Disk) (dir : Path) (drawn : Drawn) (w₁ w₂ : KeyWrite) :
    Done S.KemSecret :=
  match disk (dir.join kemKeyFile) with
  | some seed => (decodeKem K seed,disk)
  | none => writeServerKeys K disk dir drawn w₁ w₂

structure CertWrites where
  kem : KeyWrite
  sign : KeyWrite
  cert : Wrote
  signing : KeyWrite

def issueCert (R : Rcgen) (certSeed : Arr 32) (serverPk : Bytes) :
    Except CliError (R.KeyPair × Bytes) :=
  match R.generateFor certSeed with
  | .error e => .error (.rcgen ["generate cert key"] e)
  | .ok keyPair =>
  match R.newParams ["ortd"] with
  | .error e => .error (.rcgen ["cert params"] e)
  | .ok params =>
  match R.selfSigned params [(serverpkOidU64,serverPk)] keyPair with
  | .error e => .error (.rcgen ["self-sign cert"] e)
  | .ok der => .ok (keyPair,der)

def writeCert (disk : Disk) (p : Path) (der : Bytes) (w : Wrote) : Done Unit :=
  match disk.write p der w with
  | (false,disk) => (.error (.fs ["write cert.der"]),disk)
  | (true,disk) => (.ok (),disk)

def genCert (R : Rcgen) (disk : Disk) (out : Path) (drawn : Drawn) (certSeed : Arr 32)
    (w : CertWrites) : Done Bytes :=
  Done.andThen (loadOrMakeKem K disk out drawn w.kem w.sign) fun kem disk =>
  Done.andThen (issueCert R certSeed (S.kemPublic kem),disk) fun issued disk =>
  Done.andThen (writeCert disk (out.join certFile) issued.2 w.cert) fun _ disk =>
  Done.andThen (writeKey disk (out.join certSigningFile) (R.serializeDer issued.1) w.signing)
    fun _ disk => (.ok (S.kemPublic kem),disk)

structure RunArgs where
  cert : Option Path
  windowMs : UInt64 := 2000
  skewMs : UInt64 := 1000

def clientConfig (secret : S.SigSecret) : ClientConfig S := ⟨secret,S.sigPublic secret⟩

def decodeClientKey (seed : Bytes) : Except CliError (ClientConfig S) :=
  match sigSecretFromBytes K seed with
  | .error e => .error (.core ["decode client signing key"] e)
  | .ok secret => .ok (clientConfig secret)

def loadClientConfig (disk : Disk) (clientKey : Option Path) (seed : Arr 32) (w : KeyWrite) :
    Done (ClientConfig S) :=
  let fresh := K.sigFromSeed seed
  match clientKey with
  | none => (.ok (clientConfig fresh),disk)
  | some p =>
    match disk p with
    | some bytes => (decodeClientKey K bytes,disk)
    | none =>
      Done.andThen (writeKey disk p (K.sigToSeed fresh).val w) fun _ disk =>
      (.ok (clientConfig fresh),disk)

end Suite

end OrtTunnel.Cli
