import OrtTunnel.Proto.Codec

namespace OrtTunnel.Proto
open BigEndian

def maxFrame : ℕ := 1 <<< 20

def encodeFramed (body : Bytes) : Bytes := toBe 4 (UInt32.ofNat body.length).toNat ++ body

def parseLen (lenBuf : Arr 4) : Except ProtoError ℕ :=
  let n := (UInt32.ofNat (ofBe lenBuf.val)).toNat
  if n > maxFrame then .error (.frameTooLarge n) else .ok n

theorem parseLen_eq (lenBuf : Arr 4) :
    parseLen lenBuf = if ofBe lenBuf.val > maxFrame then .error (.frameTooLarge (ofBe lenBuf.val))
      else .ok (ofBe lenBuf.val) := by
  have hlt := ofBe_lt lenBuf.val
  rw [lenBuf.property] at hlt
  change ofBe lenBuf.val < 2 ^ 32 at hlt
  rw [parseLen,UInt32.toNat_ofNat',Nat.mod_eq_of_lt hlt]

theorem encodeFramed_eq {body : Bytes} (h : body.length ≤ maxFrame) :
    encodeFramed body = toBe 4 body.length ++ body := by
  have hm : maxFrame < 2 ^ 32 := by decide
  rw [encodeFramed,UInt32.toNat_ofNat',Nat.mod_eq_of_lt (by omega)]

theorem parseLen_toBe {body : Bytes} (h : body.length ≤ maxFrame) :
    parseLen ⟨toBe 4 body.length,length_toBe 4 _⟩ = .ok body.length := by
  have hm : maxFrame < 256 ^ 4 := by decide
  rw [parseLen_eq]
  simp only [ofBe_toBe]
  rw [Nat.mod_eq_of_lt (by omega),if_neg (by omega)]

theorem toBe_of_parseLen {lenBuf : Arr 4} {n : ℕ} (h : parseLen lenBuf = .ok n) :
    toBe 4 n = lenBuf.val ∧ n ≤ maxFrame := by
  rw [parseLen_eq] at h
  split at h
  · cases h
  · obtain rfl : ofBe lenBuf.val = n := Except.ok.inj h
    refine ⟨?_,by omega⟩
    have hb := toBe_ofBe lenBuf.val
    rwa [lenBuf.property] at hb

end OrtTunnel.Proto
