import OrtTunnel.Net.InjectiveAgreement
import OrtTunnel.Net.Truncation

namespace OrtTunnel.Net
open BigEndian Proto OrtTunnel.Core

section Prefix
variable {S : CipherSuite}

end Prefix

end OrtTunnel.Net
