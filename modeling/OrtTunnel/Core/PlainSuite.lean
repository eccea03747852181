import OrtTunnel.Core.Suite

namespace OrtTunnel.Core
open BigEndian

-- A suite without secrecy that satisfies every law, for evaluating the model on concrete runs.
def digest (n : ℕ) (data : Bytes) : Arr n :=
  ⟨toBe n (data.foldl (fun h b => h * 257 + b.toNat + 1) 0),length_toBe n _⟩

def fill (n : ℕ) (b : UInt8) : Arr n := ⟨List.replicate n b,List.length_replicate⟩

namespace PlainSuite

def kemDecapsulate (sk : Arr 32) (ct : Bytes) : Except Error (Arr 32) :=
  if ct.length ≠ 32 then .error (.invalidLength "ml-kem ciphertext" 32 ct.length)
  else .ok (digest 32 (sk.val ++ ct))

def kemEncapsulate (ek : Bytes) (r : Arr 32) : Except Error (Bytes × Arr 32) :=
  if ek.length ≠ 32 then .error (.invalidLength "ml-kem encapsulation key" 32 ek.length)
  else .ok (r.val,digest 32 (ek ++ r.val))

def sigVerify (vk msg sig : Bytes) : Except Error Unit :=
  if vk.length ≠ 32 then .error (.invalidLength "ml-dsa verifying key" 32 vk.length)
  else if sig.length ≠ 32 then .error (.invalidLength "ml-dsa signature" 32 sig.length)
  else if sig = (digest 32 (vk ++ msg)).val then .ok () else .error .badSignature

def aeadTag (key : Arr 32) (nonce : Arr 12) (aad pt : Bytes) : Arr 16 :=
  digest 16 (key.val ++ nonce.val ++ aad ++ pt)

def aeadSeal (key : Arr 32) (nonce : Arr 12) (aad pt : Bytes) : Bytes :=
  pt ++ (aeadTag key nonce aad pt).val

def aeadOpen (key : Arr 32) (nonce : Arr 12) (aad ct : Bytes) : Except Error Bytes :=
  let pt := ct.take (ct.length - 16)
  if ct = aeadSeal key nonce aad pt then .ok pt else .error .aeadFailure

def pad (n : ℕ) (b : Bytes) : Bytes := b ++ List.replicate (n - b.length) 0

def paddedDecapsulate (sk : Arr 32) (ct : Bytes) : Except Error (Arr 32) :=
  if ct.length ≠ 1088 then .error (.invalidLength "ml-kem ciphertext" 1088 ct.length)
  else kemDecapsulate sk (ct.take 32)

def paddedEncapsulate (ek : Bytes) (r : Arr 32) : Except Error (Bytes × Arr 32) :=
  if ek.length ≠ 1184 then .error (.invalidLength "ml-kem encapsulation key" 1184 ek.length)
  else .ok (pad 1088 r.val,digest 32 (ek.take 32 ++ r.val))

def paddedVerify (vk msg sig : Bytes) : Except Error Unit :=
  if vk.length ≠ 1952 then .error (.invalidLength "ml-dsa verifying key" 1952 vk.length)
  else if sig.length ≠ 3309 then .error (.invalidLength "ml-dsa signature" 3309 sig.length)
  else sigVerify (vk.take 32) msg (sig.take 32)

end PlainSuite

def plainSuite : CipherSuite where
  id := .v1MlKem768MlDsa65
  kemEkLen := 32
  kemCtLen := 32
  sigVkLen := 32
  sigLen := 32
  KemSecret := Arr 32
  SigSecret := Arr 32
  kemPublic := Subtype.val
  kemDecapsulate := PlainSuite.kemDecapsulate
  kemEncapsulate := PlainSuite.kemEncapsulate
  sigPublic := Subtype.val
  sigSign := fun sk msg => (digest 32 (sk.val ++ msg)).val
  sigVerify := PlainSuite.sigVerify
  aeadSeal := PlainSuite.aeadSeal
  aeadOpen := PlainSuite.aeadOpen
  hkdf := fun ikm salt info n => digest n (ikm ++ salt ++ info)
  hash256 := digest 32
  hash512 := digest 64
  keyedXof := fun key input => ⟨toBe 12 (ofBe (key.val ++ input)),length_toBe 12 _⟩

theorem plainSuite_kem : plainSuite.KemLaws where
  encapsulates := by
    intro sk r
    exact ⟨r.val,digest 32 (sk.val ++ r.val),by
      simp [plainSuite,PlainSuite.kemEncapsulate,sk.property]⟩
  decapsulates := by
    intro sk r ct shared h
    simp only [plainSuite,PlainSuite.kemEncapsulate,sk.property] at h
    obtain ⟨rfl,rfl⟩ := Prod.mk.inj (Except.ok.inj h)
    simp [plainSuite,PlainSuite.kemDecapsulate,r.property]

theorem plainSuite_sig : plainSuite.SigLaws where
  verifies := by
    intro sk msg
    simp [plainSuite,PlainSuite.sigVerify,sk.property,(digest 32 (sk.val ++ msg)).property]

theorem plainSuite_aead : plainSuite.AeadLaws where
  opens := by
    intro key nonce aad pt
    have ht := (PlainSuite.aeadTag key nonce aad pt).property
    have hp : (PlainSuite.aeadSeal key nonce aad pt).take
        ((PlainSuite.aeadSeal key nonce aad pt).length - 16) = pt := by
      simp [PlainSuite.aeadSeal,ht]
    simp [plainSuite,PlainSuite.aeadOpen,hp]
  sealedLen := by
    intro key nonce aad pt
    simp [plainSuite,PlainSuite.aeadSeal,(PlainSuite.aeadTag key nonce aad pt).property]

theorem plainSuite_len : plainSuite.LenLaws where
  ciphertext := by
    intro ek r ct shared h
    simp only [plainSuite,PlainSuite.kemEncapsulate] at h
    split at h
    · cases h
    · obtain ⟨rfl,-⟩ := Prod.mk.inj (Except.ok.inj h)
      exact r.property
  encapsKey := Subtype.property
  verifyKey := Subtype.property
  signature := fun sk msg => (digest 32 (sk.val ++ msg)).property
  fits16 := by decide

-- The same suite with keys, ciphertexts and signatures of the first suite's lengths.
def paddedSuite : CipherSuite :=
  { plainSuite with
    kemEkLen := 1184
    kemCtLen := 1088
    sigVkLen := 1952
    sigLen := 3309
    kemPublic := fun sk => PlainSuite.pad 1184 sk.val
    kemDecapsulate := PlainSuite.paddedDecapsulate
    kemEncapsulate := PlainSuite.paddedEncapsulate
    sigPublic := fun sk => PlainSuite.pad 1952 sk.val
    sigSign := fun sk msg => PlainSuite.pad 3309 (digest 32 (sk.val ++ msg)).val
    sigVerify := PlainSuite.paddedVerify }

theorem PlainSuite.length_pad {n : ℕ} (b : Arr 32) (hn : 32 ≤ n) : (pad n b.val).length = n := by
  simp only [pad,List.length_append,List.length_replicate,b.property]
  omega

theorem PlainSuite.take_pad (n : ℕ) (b : Arr 32) : (pad n b.val).take 32 = b.val := by
  rw [pad,List.take_left' b.property]

theorem paddedSuite_kem : paddedSuite.KemLaws where
  encapsulates := by
    intro sk r
    have hlen := PlainSuite.length_pad sk (by decide : 32 ≤ 1184)
    exact ⟨_,_,by simp only [paddedSuite,PlainSuite.paddedEncapsulate,hlen]; rfl⟩
  decapsulates := by
    intro sk r ct shared h
    have hek := PlainSuite.length_pad sk (by decide : 32 ≤ 1184)
    have hct := PlainSuite.length_pad r (by decide : 32 ≤ 1088)
    have hsk : (PlainSuite.pad 1184 sk.val).take 32 = sk.val := PlainSuite.take_pad 1184 sk
    simp only [paddedSuite,PlainSuite.paddedEncapsulate,hek] at h
    obtain ⟨rfl,rfl⟩ := Prod.mk.inj (Except.ok.inj h)
    simp [paddedSuite,PlainSuite.paddedDecapsulate,PlainSuite.kemDecapsulate,hct,hsk,
      PlainSuite.take_pad,r.property]

theorem paddedSuite_sig : paddedSuite.SigLaws where
  verifies := by
    intro sk msg
    have hvk := PlainSuite.length_pad sk (by decide : 32 ≤ 1952)
    have hsig := PlainSuite.length_pad (digest 32 (sk.val ++ msg)) (by decide : 32 ≤ 3309)
    have hsk : (PlainSuite.pad 1952 sk.val).take 32 = sk.val := PlainSuite.take_pad 1952 sk
    simp only [paddedSuite,PlainSuite.paddedVerify,hvk,hsig,hsk,PlainSuite.take_pad]
    exact plainSuite_sig.verifies sk msg

theorem paddedSuite_aead : paddedSuite.AeadLaws where
  opens := plainSuite_aead.opens
  sealedLen := plainSuite_aead.sealedLen

theorem paddedSuite_len : paddedSuite.LenLaws where
  ciphertext := by
    intro ek r ct shared h
    simp only [paddedSuite,PlainSuite.paddedEncapsulate] at h
    split at h
    · cases h
    · obtain ⟨rfl,-⟩ := Prod.mk.inj (Except.ok.inj h)
      exact PlainSuite.length_pad r (by decide)
  encapsKey := fun sk => PlainSuite.length_pad sk (by decide)
  verifyKey := fun sk => PlainSuite.length_pad sk (by decide)
  signature := fun sk msg => PlainSuite.length_pad (digest 32 (sk.val ++ msg)) (by decide)
  fits16 := by decide

theorem paddedSuite_lengths : paddedSuite.V1Lengths := ⟨rfl,rfl,rfl,rfl⟩

theorem plainSuite_open_short (key : Arr 32) (nonce : Arr 12) (aad ct : Bytes)
    (h : ct.length < 16) : plainSuite.aeadOpen key nonce aad ct = .error .aeadFailure := by
  have hne : ct ≠ PlainSuite.aeadSeal key nonce aad (ct.take (ct.length - 16)) := by
    intro he
    have hl := congrArg List.length he
    have ht := (PlainSuite.aeadTag key nonce aad (ct.take (ct.length - 16))).property
    simp only [PlainSuite.aeadSeal,List.length_append,ht] at hl
    omega
  simp only [plainSuite,PlainSuite.aeadOpen]
  rw [if_neg hne]

end OrtTunnel.Core
