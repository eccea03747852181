import Mathlib.Tactic

namespace BigEndian

abbrev Bytes := List UInt8

abbrev Arr (n : ℕ) := {bs : Bytes // bs.length = n}

def toBe : ℕ → ℕ → Bytes
  | 0, _ => []
  | k+1, v => toBe k (v / 256) ++ [UInt8.ofNat v]

def ofBe (bs : Bytes) : ℕ := bs.foldl (fun acc b => acc * 256 + b.toNat) 0

@[simp] theorem length_toBe (k v : ℕ) : (toBe k v).length = k := by
  induction k generalizing v with
  | zero => rfl
  | succ k ih => simp [toBe,ih]

@[simp] theorem ofBe_nil : ofBe [] = 0 := rfl

@[simp] theorem ofBe_append_singleton (bs : Bytes) (b : UInt8) :
    ofBe (bs ++ [b]) = ofBe bs * 256 + b.toNat := by
  simp [ofBe,List.foldl_append]

theorem ofBe_append (as bs : Bytes) : ofBe (as ++ bs) = ofBe as * 256 ^ bs.length + ofBe bs := by
  induction bs using List.reverseRecOn with
  | nil => simp
  | append_singleton bs b ih =>
    rw [← List.append_assoc,ofBe_append_singleton,ih,ofBe_append_singleton,List.length_append,
      List.length_singleton,pow_succ]
    ring

theorem ofBe_toBe (k v : ℕ) : ofBe (toBe k v) = v % 256 ^ k := by
  induction k generalizing v with
  | zero => simp [toBe,Nat.mod_one]
  | succ k ih =>
    have hmod : v % (256 * 256 ^ k) = v % 256 + 256 * (v / 256 % 256 ^ k) := Nat.mod_mul
    rw [toBe,ofBe_append_singleton,ih,pow_succ,Nat.mul_comm (256 ^ k),hmod,UInt8.toNat_ofNat']
    omega

theorem ofBe_lt (bs : Bytes) : ofBe bs < 256 ^ bs.length := by
  induction bs using List.reverseRecOn with
  | nil => simp
  | append_singleton bs b ih =>
    have hb := b.toNat_lt
    rw [ofBe_append_singleton,List.length_append,List.length_singleton,pow_succ]
    omega

theorem toBe_ofBe (bs : Bytes) : toBe bs.length (ofBe bs) = bs := by
  induction bs using List.reverseRecOn with
  | nil => rfl
  | append_singleton bs b ih =>
    have hb := b.toNat_lt
    have hdiv : (ofBe bs * 256 + b.toNat) / 256 = ofBe bs := by omega
    have hlow : UInt8.ofNat (ofBe bs * 256 + b.toNat) = b := by
      apply UInt8.toNat_inj.mp
      rw [UInt8.toNat_ofNat']
      omega
    rw [List.length_append,List.length_singleton,ofBe_append_singleton,toBe,hdiv,ih,hlow]

theorem toBe_inj {k v w : ℕ} (hv : v < 256 ^ k) (hw : w < 256 ^ k)
    (h : toBe k v = toBe k w) : v = w := by
  have he := congrArg ofBe h
  rwa [ofBe_toBe,ofBe_toBe,Nat.mod_eq_of_lt hv,Nat.mod_eq_of_lt hw] at he

end BigEndian
