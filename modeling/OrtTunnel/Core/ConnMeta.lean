import OrtTunnel.Core.Suite

namespace OrtTunnel.Core
open BigEndian

def clientBindingLabel : Bytes := ascii "ORT-v1 connmeta"

structure ConnMeta where
  srcIp : Arr 16
  tsMillis : UInt64
  nonce : Arr 32
  deriving DecidableEq

def ConnMeta.canonical (cm : ConnMeta) : Arr 56 :=
  ⟨cm.srcIp.val ++ toBe 8 cm.tsMillis.toNat ++ cm.nonce.val,by
    simp [cm.srcIp.property,cm.nonce.property]⟩

def clientBindingMsg (S : CipherSuite) (cm : ConnMeta) (clientPk ciphertext encData : Bytes) : Bytes :=
  let ctHash := S.hash256 ciphertext
  let edHash := S.hash256 encData
  clientBindingLabel ++ cm.canonical.val ++ clientPk ++ ctHash.val ++ edHash.val

def signClientBinding (S : CipherSuite) (sk : S.SigSecret) (cm : ConnMeta)
    (clientPk ciphertext encData : Bytes) : Bytes :=
  S.sigSign sk (clientBindingMsg S cm clientPk ciphertext encData)

def verifyClientBinding (S : CipherSuite) (clientPk : Bytes) (cm : ConnMeta)
    (ciphertext encData sig : Bytes) : Except Error Unit :=
  let msg := clientBindingMsg S cm clientPk ciphertext encData
  match S.sigVerify clientPk msg sig with
  | .ok _ => .ok ()
  | .error _ => .error .badSignature

theorem ConnMeta.canonical_inj {cm cm' : ConnMeta}
    (h : cm.canonical.val = cm'.canonical.val) : cm = cm' := by
  obtain ⟨ip,ts,nonce⟩ := cm
  obtain ⟨ip',ts',nonce'⟩ := cm'
  simp only [ConnMeta.canonical] at h
  obtain ⟨hhead,hnonce⟩ := List.append_inj' h (by rw [nonce.property,nonce'.property])
  obtain ⟨hip,hts⟩ := List.append_inj hhead (by rw [ip.property,ip'.property])
  have hnat : ts.toNat = ts'.toNat := toBe_inj ts.toNat_lt ts'.toNat_lt hts
  rw [Subtype.ext hip,UInt64.toNat_inj.mp hnat,Subtype.ext hnonce]

-- The key in the middle has no length prefix; the fixed header and the two fixed digests
-- around it leave only one way to cut the message.
theorem clientBindingMsg_inj {S : CipherSuite} {cm cm' : ConnMeta} {pk pk' ct ct' ed ed' : Bytes}
    (h : clientBindingMsg S cm pk ct ed = clientBindingMsg S cm' pk' ct' ed') :
    cm = cm' ∧ pk = pk' ∧ S.hash256 ct = S.hash256 ct' ∧ S.hash256 ed = S.hash256 ed' := by
  simp only [clientBindingMsg] at h
  obtain ⟨h₁,hed⟩ := List.append_inj' h
    (by rw [(S.hash256 ed).property,(S.hash256 ed').property])
  obtain ⟨h₂,hct⟩ := List.append_inj' h₁
    (by rw [(S.hash256 ct).property,(S.hash256 ct').property])
  obtain ⟨h₃,hpk⟩ := List.append_inj h₂ (by
    simp only [List.length_append]
    rw [cm.canonical.property,cm'.canonical.property])
  exact ⟨ConnMeta.canonical_inj (List.append_cancel_left h₃),hpk,Subtype.ext hct,Subtype.ext hed⟩

theorem verifyClientBinding_ok_iff (S : CipherSuite) (pk : Bytes) (cm : ConnMeta)
    (ct ed sig : Bytes) :
    verifyClientBinding S pk cm ct ed sig = .ok () ↔
      S.sigVerify pk (clientBindingMsg S cm pk ct ed) sig = .ok () := by
  unfold verifyClientBinding
  cases hv : S.sigVerify pk (clientBindingMsg S cm pk ct ed) sig <;> simp [hv]

end OrtTunnel.Core
