import OrtTunnel.Core.Suite

namespace OrtTunnel.Core

def saturatingAdd (a b : UInt64) : UInt64 := UInt64.ofNat (min (a.toNat + b.toNat) (2 ^ 64 - 1))

def saturatingSub (a b : UInt64) : UInt64 := UInt64.ofNat (a.toNat - b.toNat)

theorem toNat_saturatingAdd (a b : UInt64) :
    (saturatingAdd a b).toNat = min (a.toNat + b.toNat) (2 ^ 64 - 1) := by
  rw [saturatingAdd,UInt64.toNat_ofNat']
  omega

theorem toNat_saturatingSub (a b : UInt64) : (saturatingSub a b).toNat = a.toNat - b.toNat := by
  have ha := a.toNat_lt
  rw [saturatingSub,UInt64.toNat_ofNat']
  omega

def checkWindow (nowMs tsMs windowMs skewMs : UInt64) : Except Error Unit :=
  if tsMs > saturatingAdd nowMs skewMs then .error .staleTimestamp
  else if saturatingSub nowMs tsMs > windowMs then .error .staleTimestamp
  else .ok ()

theorem checkWindow_ok_iff (now ts window skew : UInt64) :
    checkWindow now ts window skew = .ok () ↔
      ts.toNat ≤ now.toNat + skew.toNat ∧ now.toNat ≤ ts.toNat + window.toNat := by
  have hts := ts.toNat_lt
  have ha := toNat_saturatingAdd now skew
  have hs := toNat_saturatingSub now ts
  unfold checkWindow
  simp only [gt_iff_lt,UInt64.lt_iff_toNat_lt,ha,hs]
  split_ifs with h₁ h₂
  · simp only [false_iff]
    omega
  · simp only [false_iff]
    omega
  · simp only [true_iff]
    omega

end OrtTunnel.Core
