import OrtTunnel.Library.BigEndian

namespace OrtTunnel.Core
open BigEndian

def ascii (s : String) : Bytes := s.toList.map fun c => UInt8.ofNat c.toNat

inductive Error where
  | invalidLength (what : String) (expected got : ℕ)
  | malformed (what : String)
  | badSignature
  | aeadFailure
  | unsupportedSuite (id : UInt16)
  | staleTimestamp
  | sourceIpMismatch
  | replayed
  | keyConfirmationMismatch
  | unexpectedMessage (state : String)
  deriving DecidableEq, Repr

def hexCode (id : UInt16) : String :=
  let digits := Nat.toDigits 16 id.toNat
  "0x" ++ String.ofList (List.replicate (4 - digits.length) '0' ++ digits)

def Error.message : Error → String
  | .invalidLength what expected got =>
    "invalid length for " ++ what ++ ": expected " ++ toString expected ++ ", got " ++ toString got
  | .malformed what => "malformed " ++ what
  | .badSignature => "signature verification failed"
  | .aeadFailure => "AEAD authentication failed"
  | .unsupportedSuite id => "unsupported cipher suite: " ++ hexCode id
  | .staleTimestamp => "stale or future timestamp (outside replay window)"
  | .sourceIpMismatch => "source ip mismatch"
  | .replayed => "replayed handshake"
  | .keyConfirmationMismatch => "key confirmation mismatch"
  | .unexpectedMessage state => "unexpected handshake message in state " ++ state

inductive SuiteId where
  | v1MlKem768MlDsa65
  deriving DecidableEq, Repr

namespace SuiteId

def code : SuiteId → UInt16
  | .v1MlKem768MlDsa65 => 0x0001

def fromCode (code : UInt16) : Option SuiteId :=
  match code with
  | 0x0001 => some .v1MlKem768MlDsa65
  | _ => none

@[simp] theorem fromCode_code (id : SuiteId) : fromCode id.code = some id := by
  cases id
  rfl

end SuiteId

abbrev sharedLen : ℕ := 32
abbrev nonceLen : ℕ := 12
abbrev tagLen : ℕ := 16
abbrev rLen : ℕ := 32

structure CipherSuite where
  id : SuiteId
  kemEkLen : ℕ
  kemCtLen : ℕ
  sigVkLen : ℕ
  sigLen : ℕ
  KemSecret : Type
  SigSecret : Type
  kemPublic : KemSecret → Bytes
  kemDecapsulate : KemSecret → Bytes → Except Error (Arr sharedLen)
  kemEncapsulate : Bytes → Arr rLen → Except Error (Bytes × Arr sharedLen)
  sigPublic : SigSecret → Bytes
  sigSign : SigSecret → Bytes → Bytes
  sigVerify : Bytes → Bytes → Bytes → Except Error Unit
  aeadSeal : Arr sharedLen → Arr nonceLen → Bytes → Bytes → Bytes
  aeadOpen : Arr sharedLen → Arr nonceLen → Bytes → Bytes → Except Error Bytes
  hkdf : Bytes → Bytes → Bytes → (n : ℕ) → Arr n
  hash256 : Bytes → Arr 32
  hash512 : Bytes → Arr 64
  -- BLAKE3's keyed XOF, which the entropy pool calls outside the trait.
  keyedXof : Arr 32 → Bytes → Arr nonceLen

namespace CipherSuite
variable (S : CipherSuite)

structure KemLaws : Prop where
  encapsulates : ∀ sk r, ∃ ct shared, S.kemEncapsulate (S.kemPublic sk) r = .ok (ct,shared)
  decapsulates : ∀ sk r ct shared, S.kemEncapsulate (S.kemPublic sk) r = .ok (ct,shared) →
    S.kemDecapsulate sk ct = .ok shared

structure SigLaws : Prop where
  verifies : ∀ sk msg, S.sigVerify (S.sigPublic sk) msg (S.sigSign sk msg) = .ok ()

structure AeadLaws : Prop where
  opens : ∀ key nonce aad pt, S.aeadOpen key nonce aad (S.aeadSeal key nonce aad pt) = .ok pt
  sealedLen : ∀ key nonce aad pt, (S.aeadSeal key nonce aad pt).length = pt.length + tagLen

structure LenLaws : Prop where
  ciphertext : ∀ ek r ct shared, S.kemEncapsulate ek r = .ok (ct,shared) → ct.length = S.kemCtLen
  encapsKey : ∀ sk, (S.kemPublic sk).length = S.kemEkLen
  verifyKey : ∀ sk, (S.sigPublic sk).length = S.sigVkLen
  signature : ∀ sk msg, (S.sigSign sk msg).length = S.sigLen
  fits16 : S.kemEkLen ≤ 65535 ∧ S.kemCtLen ≤ 65535 ∧ S.sigVkLen ≤ 65535 ∧ S.sigLen ≤ 65535

-- FIPS 203 and 204 fix these for the first suite.
structure V1Lengths : Prop where
  kemEk : S.kemEkLen = 1184
  kemCt : S.kemCtLen = 1088
  sigVk : S.sigVkLen = 1952
  sig : S.sigLen = 3309

variable {S}

theorem LenLaws.verifyKey_le (h : S.LenLaws) (sk : S.SigSecret) : (S.sigPublic sk).length ≤ 65535 := by
  rw [h.verifyKey]
  exact h.fits16.2.2.1

theorem LenLaws.encapsKey_le (h : S.LenLaws) (sk : S.KemSecret) : (S.kemPublic sk).length ≤ 65535 := by
  rw [h.encapsKey]
  exact h.fits16.1

end CipherSuite

end OrtTunnel.Core
