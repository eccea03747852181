import OrtTunnel.Core.PlainSuite

namespace OrtTunnel.Core
open BigEndian

def mlKem768Ek : ℕ := 1184
def mlKem768Ct : ℕ := 1088
def mlDsa65Vk : ℕ := 1952
def mlDsa65Sig : ℕ := 3309

-- What the first suite calls of `ml_kem`, `ml_dsa`, `aes_gcm`, `hkdf` and `blake3`.
structure Primitives where
  DecapsKey : Type
  EncapsKey : Type
  dkNew : Arr 64 → DecapsKey
  dkToBytes : DecapsKey → Arr 64
  encapsulationKey : DecapsKey → EncapsKey
  ekToBytes : EncapsKey → Arr mlKem768Ek
  ekNew : Arr mlKem768Ek → Option EncapsKey
  decapsulateSlice : DecapsKey → Bytes → Option (Arr sharedLen)
  encapsulateDeterministic : EncapsKey → Arr rLen → Arr mlKem768Ct × Arr sharedLen
  SigningKey : Type
  VerifyingKey : Type
  Signature : Type
  fromSeed : Arr 32 → SigningKey
  toSeed : SigningKey → Arr 32
  verifyingKey : SigningKey → VerifyingKey
  vkEncode : VerifyingKey → Arr mlDsa65Vk
  vkDecode : Arr mlDsa65Vk → VerifyingKey
  sign : SigningKey → Bytes → Signature
  sigEncode : Signature → Arr mlDsa65Sig
  sigDecode : Arr mlDsa65Sig → Option Signature
  verify : VerifyingKey → Bytes → Signature → Bool
  encrypt : Arr sharedLen → Arr nonceLen → Bytes → Bytes → Bytes
  decrypt : Arr sharedLen → Arr nonceLen → Bytes → Bytes → Option Bytes
  expand : Bytes → Bytes → Bytes → (n : ℕ) → Arr n
  hash : Bytes → Arr 32
  xof : Bytes → Arr 64
  keyedXof : Arr 32 → Bytes → Arr nonceLen

def tryFrom (n : ℕ) (b : Bytes) : Option (Arr n) := if h : b.length = n then some ⟨b,h⟩ else none

namespace V1
variable (P : Primitives)

def kemDecapsulate (secret : P.DecapsKey) (ct : Bytes) : Except Error (Arr sharedLen) :=
  if ct.length ≠ mlKem768Ct then
    .error (.invalidLength "ml-kem ciphertext" mlKem768Ct ct.length) else
  match P.decapsulateSlice secret ct with
  | none => .error (.malformed "ml-kem ciphertext")
  | some shared => .ok shared

def kemEncapsulate (ek : Bytes) (r : Arr rLen) : Except Error (Bytes × Arr sharedLen) :=
  match tryFrom mlKem768Ek ek with
  | none => .error (.invalidLength "ml-kem encapsulation key" mlKem768Ek ek.length)
  | some key =>
  match P.ekNew key with
  | none => .error (.malformed "ml-kem encapsulation key")
  | some ek =>
  let sent := P.encapsulateDeterministic ek r
  .ok (sent.1.val,sent.2)

def sigVerify (vk msg sig : Bytes) : Except Error Unit :=
  match tryFrom mlDsa65Vk vk with
  | none => .error (.invalidLength "ml-dsa verifying key" mlDsa65Vk vk.length)
  | some encVk =>
  match tryFrom mlDsa65Sig sig with
  | none => .error (.invalidLength "ml-dsa signature" mlDsa65Sig sig.length)
  | some encSig =>
  match P.sigDecode encSig with
  | none => .error .badSignature
  | some sig => if P.verify (P.vkDecode encVk) msg sig then .ok () else .error .badSignature

def aeadOpen (key : Arr sharedLen) (nonce : Arr nonceLen) (aad ct : Bytes) : Except Error Bytes :=
  match P.decrypt key nonce aad ct with
  | none => .error .aeadFailure
  | some pt => .ok pt

end V1

def v1 (P : Primitives) : CipherSuite where
  id := .v1MlKem768MlDsa65
  kemEkLen := mlKem768Ek
  kemCtLen := mlKem768Ct
  sigVkLen := mlDsa65Vk
  sigLen := mlDsa65Sig
  KemSecret := P.DecapsKey
  SigSecret := P.SigningKey
  kemPublic := fun secret => (P.ekToBytes (P.encapsulationKey secret)).val
  kemDecapsulate := V1.kemDecapsulate P
  kemEncapsulate := V1.kemEncapsulate P
  sigPublic := fun secret => (P.vkEncode (P.verifyingKey secret)).val
  sigSign := fun secret msg => (P.sigEncode (P.sign secret msg)).val
  sigVerify := V1.sigVerify P
  aeadSeal := P.encrypt
  aeadOpen := V1.aeadOpen P
  hkdf := P.expand
  hash256 := P.hash
  hash512 := P.xof
  keyedXof := P.keyedXof

section Lawful
variable {P : Primitives}

end Lawful

theorem length_widened {n m : ℕ} (h : n ≤ m) (a : Arr n) : (PlainSuite.pad m a.val).length = m := by
  have ha := a.property
  simp only [PlainSuite.pad,List.length_append,List.length_replicate]
  omega

theorem length_narrowed {n m : ℕ} (h : n ≤ m) (a : Arr m) : (a.val.take n).length = n := by
  simp [a.property,h]

def widen {n : ℕ} (m : ℕ) (h : n ≤ m) (a : Arr n) : Arr m := ⟨PlainSuite.pad m a.val,length_widened h a⟩

def narrow {m : ℕ} (n : ℕ) (h : n ≤ m) (a : Arr m) : Arr n := ⟨a.val.take n,length_narrowed h a⟩

-- Keys, ciphertexts and signatures of the right sizes without secrecy.
def plainPrimitives : Primitives where
  DecapsKey := Arr 64
  EncapsKey := Arr 64
  dkNew := fun seed => seed
  dkToBytes := fun dk => dk
  encapsulationKey := fun dk => dk
  ekToBytes := widen mlKem768Ek (by decide)
  ekNew := fun key => some (narrow 64 (by decide) key)
  decapsulateSlice := fun dk ct => some (digest sharedLen (dk.val ++ ct.take rLen))
  encapsulateDeterministic := fun ek r =>
    (widen mlKem768Ct (by decide) r,digest sharedLen (ek.val ++ r.val))
  SigningKey := Arr 32
  VerifyingKey := Arr 32
  Signature := Arr 32
  fromSeed := fun seed => seed
  toSeed := fun sk => sk
  verifyingKey := fun sk => sk
  vkEncode := widen mlDsa65Vk (by decide)
  vkDecode := narrow 32 (by decide)
  sign := fun sk msg => digest 32 (sk.val ++ msg)
  sigEncode := widen mlDsa65Sig (by decide)
  sigDecode := fun sig => some (narrow 32 (by decide) sig)
  verify := fun vk msg sig => decide (sig = digest 32 (vk.val ++ msg))
  encrypt := PlainSuite.aeadSeal
  decrypt := fun key nonce aad ct => (PlainSuite.aeadOpen key nonce aad ct).toOption
  expand := fun ikm salt info n => digest n (ikm ++ salt ++ info)
  hash := digest 32
  xof := digest 64
  keyedXof := plainSuite.keyedXof

end OrtTunnel.Core
