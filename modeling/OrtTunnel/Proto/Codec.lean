import OrtTunnel.Library.BigEndian
import OrtTunnel.Library.Scanner

namespace OrtTunnel.Proto
open BigEndian Scanner

inductive ProtoError where
  | truncated
  | trailingBytes (n : ℕ)
  | unknownFrameType (t : UInt8)
  | frameTooLarge (n : ℕ)
  deriving DecidableEq, Repr

structure Writer where
  buf : Bytes

namespace Writer

def new : Writer := ⟨[]⟩

def intoBytes (w : Writer) : Bytes := w.buf

def u8 (w : Writer) (v : UInt8) : Writer := ⟨w.buf ++ [v]⟩

def u16 (w : Writer) (v : UInt16) : Writer := ⟨w.buf ++ toBe 2 v.toNat⟩

def u32 (w : Writer) (v : UInt32) : Writer := ⟨w.buf ++ toBe 4 v.toNat⟩

def u64 (w : Writer) (v : UInt64) : Writer := ⟨w.buf ++ toBe 8 v.toNat⟩

def raw (w : Writer) (b : Bytes) : Writer := ⟨w.buf ++ b⟩

-- `b.len() as u16` wraps; the `debug_assert!` is gone in a release build.
def bytes16 (w : Writer) (b : Bytes) : Writer := (w.u16 (UInt16.ofNat b.length)).raw b

def bytes32 (w : Writer) (b : Bytes) : Writer := (w.u32 (UInt32.ofNat b.length)).raw b

end Writer

def bytes16 (b : Bytes) : Bytes := toBe 2 (b.length % 2 ^ 16) ++ b

def bytes32 (b : Bytes) : Bytes := toBe 4 (b.length % 2 ^ 32) ++ b

@[simp] theorem length_bytes16 (b : Bytes) : (bytes16 b).length = b.length + 2 := by
  simp [bytes16,Nat.add_comm]

@[simp] theorem length_bytes32 (b : Bytes) : (bytes32 b).length = b.length + 4 := by
  simp [bytes32,Nat.add_comm]

namespace Writer
variable (w : Writer)

@[simp] theorem buf_new : new.buf = [] := rfl

@[simp] theorem buf_u8 (v : UInt8) : (w.u8 v).buf = w.buf ++ [v] := rfl

@[simp] theorem buf_u16 (v : UInt16) : (w.u16 v).buf = w.buf ++ toBe 2 v.toNat := rfl

@[simp] theorem buf_u64 (v : UInt64) : (w.u64 v).buf = w.buf ++ toBe 8 v.toNat := rfl

@[simp] theorem buf_raw (b : Bytes) : (w.raw b).buf = w.buf ++ b := rfl

@[simp] theorem buf_bytes16 (b : Bytes) : (w.bytes16 b).buf = w.buf ++ Proto.bytes16 b := by
  simp [Writer.bytes16,u16,raw,Proto.bytes16]

@[simp] theorem buf_bytes32 (b : Bytes) : (w.bytes32 b).buf = w.buf ++ Proto.bytes32 b := by
  simp [Writer.bytes32,u32,raw,Proto.bytes32]

end Writer

structure Reader where
  buf : Bytes
  pos : ℕ

-- A panicking read is kept apart from an `Err`.
inductive Fault where
  | proto (e : ProtoError)
  | panic
  deriving DecidableEq, Repr

abbrev ReadM (α : Type) := Scan Reader Fault α

def slice (buf : Bytes) (start stop : ℕ) : ReadM Bytes :=
  if start ≤ stop ∧ stop ≤ buf.length then pure ((buf.take stop).drop start) else throw .panic

def index (buf : Bytes) (i : ℕ) : ReadM UInt8 :=
  match buf[i]? with
  | some b => pure b
  | none => throw .panic

def copyFromSlice (n : ℕ) (buf : Bytes) : ReadM (Arr n) :=
  if h : buf.length = n then pure ⟨buf,h⟩ else throw .panic

namespace Reader

def new (buf : Bytes) : Reader := ⟨buf,0⟩

def remaining : ReadM ℕ := do
  let r ← get
  if r.pos ≤ r.buf.length then pure (r.buf.length - r.pos) else throw .panic

def take (n : ℕ) : ReadM Bytes := do
  let left ← remaining
  if left < n then throw (.proto .truncated) else
  let r ← get
  let s ← slice r.buf r.pos (r.pos + n)
  set { r with pos := r.pos + n }
  pure s

def u8 : ReadM UInt8 := do
  let b ← take 1
  index b 0

def u16 : ReadM UInt16 := do
  let b ← take 2
  let b₀ ← index b 0
  let b₁ ← index b 1
  pure (UInt16.ofNat (ofBe [b₀,b₁]))

def u32 : ReadM UInt32 := do
  let b ← take 4
  let b₀ ← index b 0
  let b₁ ← index b 1
  let b₂ ← index b 2
  let b₃ ← index b 3
  pure (UInt32.ofNat (ofBe [b₀,b₁,b₂,b₃]))

def u64 : ReadM UInt64 := do
  let b ← take 8
  let a ← copyFromSlice 8 b
  pure (UInt64.ofNat (ofBe a.val))

def raw (n : ℕ) : ReadM Bytes := take n

def array (n : ℕ) : ReadM (Arr n) := do
  let s ← take n
  copyFromSlice n s

def bytes16 : ReadM Bytes := do
  let n ← u16
  take n.toNat

def bytes32 : ReadM Bytes := do
  let n ← u32
  take n.toNat

def expectEnd : ReadM Unit := do
  let left ← remaining
  if left = 0 then pure () else throw (.proto (.trailingBytes left))

end Reader

def View (r : Reader) (l : Bytes) : Prop := r.pos ≤ r.buf.length ∧ r.buf.drop r.pos = l

theorem view_new (buf : Bytes) : View (Reader.new buf) buf := ⟨Nat.zero_le _,rfl⟩

theorem exec_remaining {r : Reader} {l : Bytes} (h : View r l) :
    exec Reader.remaining r = (.ok l.length,r) := by
  have hl : l.length = r.buf.length - r.pos := by rw [← h.2,List.length_drop]
  simp [Reader.remaining,exec_bind,h.1,hl]

theorem exec_take_short {r : Reader} {l : Bytes} (h : View r l) {n : ℕ} (hn : l.length < n) :
    exec (Reader.take n) r = (.error (.proto .truncated),r) := by
  rw [Reader.take,exec_bind_ok (exec_remaining h)]
  simp [hn]

theorem exec_take {r : Reader} {w t : Bytes} (h : View r (w ++ t)) :
    exec (Reader.take w.length) r = (.ok w,{ r with pos := r.pos + w.length }) := by
  have hl : (w ++ t).length = r.buf.length - r.pos := by rw [← h.2,List.length_drop]
  have hb := h.1
  simp only [List.length_append] at hl
  have hs : (r.buf.take (r.pos + w.length)).drop r.pos = w := by
    rw [List.drop_take,Nat.add_sub_cancel_left,h.2,List.take_left]
  have hr : r.pos + w.length ≤ r.buf.length := by omega
  rw [Reader.take,exec_bind_ok (exec_remaining h)]
  simp [exec_bind,exec_map,slice,hr,hs]

theorem view_take {r : Reader} {w t : Bytes} (h : View r (w ++ t)) :
    View { r with pos := r.pos + w.length } t := by
  have hl : (w ++ t).length = r.buf.length - r.pos := by rw [← h.2,List.length_drop]
  have hb := h.1
  simp only [List.length_append] at hl
  refine ⟨by simp only; omega,?_⟩
  rw [← List.drop_drop,h.2,List.drop_left]

theorem take_accepts {w : Bytes} {n : ℕ} (hn : w.length = n) :
    Accepts View (Reader.take n) w w := by
  subst hn
  exact fun r t h => ⟨_,exec_take h,view_take h⟩

theorem take_consumes (n : ℕ) :
    Consumes View (Reader.take n) (fun a w => w = a ∧ a.length = n) := by
  intro r l a r' hv he
  by_cases hn : l.length < n
  · simp [exec_take_short hv hn] at he
  · have hw : (l.take n).length = n := by rw [List.length_take]; omega
    have hv' : View r (l.take n ++ l.drop n) := by rwa [List.take_append_drop]
    have ht := exec_take hv'
    rw [hw,he] at ht
    simp only [Prod.mk.injEq,Except.ok.injEq] at ht
    obtain ⟨rfl,rfl⟩ := ht
    have hview := view_take hv'
    rw [hw] at hview
    exact ⟨l.take n,l.drop n,(List.take_append_drop n l).symm,hview,rfl,hw⟩

abbrev ReadsAs {α : Type} (m : ReadM α) (P : α → Bytes → Prop) : Prop :=
  Reads View (Fault.proto .truncated) m P

theorem exec_take_error {r r' : Reader} {l : Bytes} {n : ℕ} {e : Fault} (hv : View r l)
    (h : exec (Reader.take n) r = (.error e,r')) :
    e = .proto .truncated ∧ r' = r ∧ l.length < n := by
  by_cases hn : l.length < n
  · rw [exec_take_short hv hn] at h
    simp only [Prod.mk.injEq,Except.error.injEq] at h
    exact ⟨h.1.symm,h.2.symm,hn⟩
  · have hw : (l.take n).length = n := by rw [List.length_take]; omega
    have ht := exec_take (w := l.take n) (t := l.drop n) (by rwa [List.take_append_drop])
    rw [hw,h] at ht
    simp at ht

theorem proper_replicate {l : Bytes} {n : ℕ} (hn : l.length < n) :
    ∃ w : Bytes, w.length = n ∧ l <+: w ∧ l ≠ w := by
  refine ⟨l ++ List.replicate (n - l.length) 0,?_,List.prefix_append .., ?_⟩
  · rw [List.length_append,List.length_replicate]
    omega
  · intro h
    have hl := congrArg List.length h
    rw [List.length_append,List.length_replicate] at hl
    omega

theorem take_reads (n : ℕ) : ReadsAs (Reader.take n) (fun a w => w = a ∧ a.length = n) where
  consumes := take_consumes n
  starves := by
    intro r l e r' hv h
    obtain ⟨he,_,hn⟩ := exec_take_error hv h
    obtain ⟨w,hw,hpre,hne⟩ := proper_replicate hn
    exact ⟨he,w,w,⟨rfl,hw⟩,hpre,hne⟩
  inhabited := ⟨List.replicate n 0,_,rfl,List.length_replicate ..⟩

section Fixed

variable {α : Type} {n : ℕ} {f : Bytes → ReadM α} {g : (b : Bytes) → b.length = n → α}

theorem fixed_accepts (hf : ∀ b hb r, exec (f b) r = (.ok (g b hb),r))
    {w : Bytes} (hw : w.length = n) : Accepts View (Reader.take n >>= f) w (g w hw) := by
  intro r t h
  obtain ⟨r₁,h₁,hv⟩ := take_accepts hw r t h
  exact ⟨r₁,by rw [exec_bind_ok h₁,hf w hw],hv⟩

theorem fixed_reads (hf : ∀ b hb r, exec (f b) r = (.ok (g b hb),r)) :
    ReadsAs (Reader.take n >>= f) (fun a w => ∃ hw, a = g w hw) where
  consumes := by
    intro r l a r' hv he
    obtain ⟨b,r₁,hb,ha⟩ := exec_bind_eq_ok he
    obtain ⟨w,t,hl,hv₁,rfl,hw⟩ := take_consumes n r l b r₁ hv hb
    rw [hf w hw] at ha
    simp only [Prod.mk.injEq,Except.ok.injEq] at ha
    obtain ⟨rfl,rfl⟩ := ha
    exact ⟨w,t,hl,hv₁,hw,rfl⟩
  starves := by
    intro r l e r' hv h
    rw [exec_bind] at h
    rcases ht : exec (Reader.take n) r with ⟨x,r₁⟩
    rw [ht] at h
    cases x with
    | ok b =>
      obtain ⟨w,t,_,_,rfl,hw⟩ := take_consumes n r l b r₁ hv ht
      simp [hf w hw] at h
    | error e₁ =>
      simp only [Prod.mk.injEq,Except.error.injEq] at h
      obtain ⟨rfl,rfl⟩ := h
      obtain ⟨he,_,hn⟩ := exec_take_error hv ht
      obtain ⟨w,hw,hpre,hne⟩ := proper_replicate hn
      exact ⟨he,g w hw,w,⟨hw,rfl⟩,hpre,hne⟩
  inhabited := ⟨_,List.replicate n 0,List.length_replicate ..,rfl⟩

end Fixed

@[simp] theorem exec_index {b : Bytes} {i : ℕ} (h : i < b.length) (r : Reader) :
    exec (index b i) r = (.ok b[i],r) := by
  simp [index,h]

theorem exec_copyFromSlice {b : Bytes} {n : ℕ} (h : b.length = n) (r : Reader) :
    exec (copyFromSlice n b) r = (.ok ⟨b,h⟩,r) := by
  simp [copyFromSlice,h]

theorem u8_exec (b : Bytes) (hb : b.length = 1) (r : Reader) :
    exec (index b 0) r = (.ok (b.headD 0),r) := by
  obtain ⟨x,rfl⟩ := List.length_eq_one_iff.mp hb
  rfl

theorem u8_accepts (v : UInt8) : Accepts View Reader.u8 [v] v :=
  fixed_accepts u8_exec rfl

theorem u8_word {w : Bytes} (hw : w.length = 1) : w = [w.headD 0] := by
  obtain ⟨x,rfl⟩ := List.length_eq_one_iff.mp hw
  rfl

theorem u8_reads : ReadsAs Reader.u8 (fun v w => w = [v]) := by
  apply (fixed_reads u8_exec).mono
  rintro v w ⟨hw,rfl⟩
  exact u8_word hw

theorem u16_exec (b : Bytes) (hb : b.length = 2) (r : Reader) :
    exec (do
      let b₀ ← index b 0
      let b₁ ← index b 1
      pure (UInt16.ofNat (ofBe [b₀,b₁]))) r = (.ok (UInt16.ofNat (ofBe b)),r) := by
  obtain ⟨x,y,rfl⟩ := List.length_eq_two.mp hb
  rfl

theorem u16_accepts (v : UInt16) : Accepts View Reader.u16 (toBe 2 v.toNat) v := by
  have h : Accepts View Reader.u16 _ _ := fixed_accepts u16_exec (length_toBe 2 v.toNat)
  have hv : v.toNat < 256 ^ 2 := v.toNat_lt
  rwa [ofBe_toBe,Nat.mod_eq_of_lt hv,UInt16.ofNat_toNat] at h

theorem u16_word {w : Bytes} (hw : w.length = 2) :
    w = toBe 2 (UInt16.ofNat (ofBe w)).toNat := by
  have hlt : ofBe w < 2 ^ 16 := (hw ▸ ofBe_lt w : ofBe w < 256 ^ 2)
  rw [UInt16.toNat_ofNat',Nat.mod_eq_of_lt hlt,← hw,toBe_ofBe]

theorem u16_reads : ReadsAs Reader.u16 (fun v w => w = toBe 2 v.toNat) := by
  apply (fixed_reads u16_exec).mono
  rintro v w ⟨hw,rfl⟩
  exact u16_word hw

theorem u32_exec (b : Bytes) (hb : b.length = 4) (r : Reader) :
    exec (do
      let b₀ ← index b 0
      let b₁ ← index b 1
      let b₂ ← index b 2
      let b₃ ← index b 3
      pure (UInt32.ofNat (ofBe [b₀,b₁,b₂,b₃]))) r = (.ok (UInt32.ofNat (ofBe b)),r) := by
  match b, hb with
  | [x,y,z,u], _ => rfl

theorem u32_accepts (v : UInt32) : Accepts View Reader.u32 (toBe 4 v.toNat) v := by
  have h : Accepts View Reader.u32 _ _ := fixed_accepts u32_exec (length_toBe 4 v.toNat)
  have hv : v.toNat < 256 ^ 4 := v.toNat_lt
  rwa [ofBe_toBe,Nat.mod_eq_of_lt hv,UInt32.ofNat_toNat] at h

theorem u32_word {w : Bytes} (hw : w.length = 4) :
    w = toBe 4 (UInt32.ofNat (ofBe w)).toNat := by
  have hlt : ofBe w < 2 ^ 32 := (hw ▸ ofBe_lt w : ofBe w < 256 ^ 4)
  rw [UInt32.toNat_ofNat',Nat.mod_eq_of_lt hlt,← hw,toBe_ofBe]

theorem u32_reads : ReadsAs Reader.u32 (fun v w => w = toBe 4 v.toNat) := by
  apply (fixed_reads u32_exec).mono
  rintro v w ⟨hw,rfl⟩
  exact u32_word hw

theorem u64_exec (b : Bytes) (hb : b.length = 8) (r : Reader) :
    exec (do
      let a ← copyFromSlice 8 b
      pure (UInt64.ofNat (ofBe a.val))) r = (.ok (UInt64.ofNat (ofBe b)),r) := by
  rw [exec_bind_ok (exec_copyFromSlice hb r)]
  rfl

theorem u64_accepts (v : UInt64) : Accepts View Reader.u64 (toBe 8 v.toNat) v := by
  have h : Accepts View Reader.u64 _ _ := fixed_accepts u64_exec (length_toBe 8 v.toNat)
  have hv : v.toNat < 256 ^ 8 := v.toNat_lt
  rwa [ofBe_toBe,Nat.mod_eq_of_lt hv,UInt64.ofNat_toNat] at h

theorem u64_word {w : Bytes} (hw : w.length = 8) :
    w = toBe 8 (UInt64.ofNat (ofBe w)).toNat := by
  have hlt : ofBe w < 2 ^ 64 := (hw ▸ ofBe_lt w : ofBe w < 256 ^ 8)
  rw [UInt64.toNat_ofNat',Nat.mod_eq_of_lt hlt,← hw,toBe_ofBe]

theorem u64_reads : ReadsAs Reader.u64 (fun v w => w = toBe 8 v.toNat) := by
  apply (fixed_reads u64_exec).mono
  rintro v w ⟨hw,rfl⟩
  exact u64_word hw

theorem array_accepts {n : ℕ} (a : Arr n) : Accepts View (Reader.array n) a.val a :=
  fixed_accepts (fun _ hb r => exec_copyFromSlice hb r) a.property

theorem array_reads (n : ℕ) : ReadsAs (Reader.array n) (fun a w => w = a.val) := by
  apply (fixed_reads fun _ hb r => exec_copyFromSlice hb r).mono
  rintro a w ⟨hw,rfl⟩
  rfl

theorem bytes16_accepts {b : Bytes} (hb : b.length < 2 ^ 16) :
    Accepts View Reader.bytes16 (bytes16 b) b := by
  have hn : (UInt16.ofNat b.length).toNat = b.length % 2 ^ 16 := UInt16.toNat_ofNat' ..
  have hu := u16_accepts (UInt16.ofNat b.length)
  rw [hn] at hu
  exact hu.bind (take_accepts (by rw [hn,Nat.mod_eq_of_lt hb]))

theorem bytes16_word {n : UInt16} {b : Bytes} (hb : b.length = n.toNat) :
    toBe 2 n.toNat ++ b = bytes16 b ∧ b.length < 2 ^ 16 := by
  have hn := n.toNat_lt
  rw [← hb] at hn
  exact ⟨by rw [bytes16,Nat.mod_eq_of_lt hn,hb],hn⟩

theorem bytes16_reads :
    ReadsAs Reader.bytes16 (fun b w => w = bytes16 b ∧ b.length < 2 ^ 16) := by
  apply (u16_reads.bind fun n => take_reads n.toNat).mono
  rintro b w ⟨n,w₁,w₂,rfl,rfl,rfl,hb⟩
  exact bytes16_word hb

theorem bytes32_accepts {b : Bytes} (hb : b.length < 2 ^ 32) :
    Accepts View Reader.bytes32 (bytes32 b) b := by
  have hn : (UInt32.ofNat b.length).toNat = b.length % 2 ^ 32 := UInt32.toNat_ofNat' ..
  have hu := u32_accepts (UInt32.ofNat b.length)
  rw [hn] at hu
  exact hu.bind (take_accepts (by rw [hn,Nat.mod_eq_of_lt hb]))

theorem bytes32_word {n : UInt32} {b : Bytes} (hb : b.length = n.toNat) :
    toBe 4 n.toNat ++ b = bytes32 b ∧ b.length < 2 ^ 32 := by
  have hn := n.toNat_lt
  rw [← hb] at hn
  exact ⟨by rw [bytes32,Nat.mod_eq_of_lt hn,hb],hn⟩

theorem bytes32_reads :
    ReadsAs Reader.bytes32 (fun b w => w = bytes32 b ∧ b.length < 2 ^ 32) := by
  apply (u32_reads.bind fun n => take_reads n.toNat).mono
  rintro b w ⟨n,w₁,w₂,rfl,rfl,rfl,hb⟩
  exact bytes32_word hb

theorem exec_expectEnd {r : Reader} {l : Bytes} (h : View r l) :
    exec Reader.expectEnd r =
      (if l = [] then .ok () else .error (.proto (.trailingBytes l.length)),r) := by
  rw [Reader.expectEnd,exec_bind_ok (exec_remaining h)]
  by_cases hl : l = [] <;> simp [hl]

end OrtTunnel.Proto
