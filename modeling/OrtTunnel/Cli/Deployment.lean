import OrtTunnel.Cli.Certificates
import OrtTunnel.Core.SuiteV1
import OrtTunnel.Net.Connect

namespace OrtTunnel.Cli
open BigEndian Proto OrtTunnel.Core OrtTunnel.Net

section Loaded
variable {S : CipherSuite} {K : SeedKeys S} {X : X509} {disk : Disk}

end Loaded

def served (kem : Arr 64) : ServerConfig (v1 plainPrimitives) where
  kemSecret := kem
  serverPk := (v1 plainPrimitives).kemPublic kem
  certificate := 48 :: ((v1 plainPrimitives).kemPublic (fill 64 1) ++ [])
  windowMs := 2000
  skewMs := 1000

end OrtTunnel.Cli
