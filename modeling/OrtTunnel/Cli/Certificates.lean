import OrtTunnel.Cli.Provisioning

namespace OrtTunnel.Cli
open BigEndian OrtTunnel.Core OrtTunnel.Net

section Binding
variable {S : CipherSuite} {K : SeedKeys S} {R : Rcgen} {X : X509} {disk after : Disk} {dir : Path}
variable {drawn : Drawn} {certSeed : Arr 32} {w : CertWrites} {pk : Bytes}

end Binding

end OrtTunnel.Cli
