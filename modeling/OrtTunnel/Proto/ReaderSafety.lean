import OrtTunnel.Library.Machine
import OrtTunnel.Proto.Rejection

namespace OrtTunnel.Proto
open BigEndian Scanner

inductive ReadOp where
  | u8
  | u16
  | u32
  | u64
  | raw (n : ℕ)
  | array (n : ℕ)
  | bytes16
  | bytes32
  | remaining
  | expectEnd
  deriving DecidableEq, Repr

inductive Value where
  | u8 (v : UInt8)
  | u16 (v : UInt16)
  | u32 (v : UInt32)
  | u64 (v : UInt64)
  | bytes (b : Bytes)
  | count (n : ℕ)
  | done
  deriving DecidableEq

namespace ReadOp

def call : ReadOp → ReadM Value
  | .u8 => .u8 <$> Reader.u8
  | .u16 => .u16 <$> Reader.u16
  | .u32 => .u32 <$> Reader.u32
  | .u64 => .u64 <$> Reader.u64
  | .raw n => .bytes <$> Reader.raw n
  | .array n => (fun a => .bytes a.val) <$> Reader.array n
  | .bytes16 => .bytes <$> Reader.bytes16
  | .bytes32 => .bytes <$> Reader.bytes32
  | .remaining => .count <$> Reader.remaining
  | .expectEnd => (fun _ => .done) <$> Reader.expectEnd

def step (r : Reader) (op : ReadOp) : Except Fault Value × Reader := exec op.call r

def lengthField : ReadOp → ℕ
  | .bytes16 => 2
  | .bytes32 => 4
  | _ => 0

def Returns : ReadOp → Value → Bytes → Bytes → Prop
  | .u8, .u8 v, w, _ => w = [v]
  | .u16, .u16 v, w, _ => w = toBe 2 v.toNat
  | .u32, .u32 v, w, _ => w = toBe 4 v.toNat
  | .u64, .u64 v, w, _ => w = toBe 8 v.toNat
  | .raw n, .bytes b, w, _ => w = b ∧ b.length = n
  | .array n, .bytes b, w, _ => w = b ∧ b.length = n
  | .bytes16, .bytes b, w, _ => w = Proto.bytes16 b ∧ b.length < 2 ^ 16
  | .bytes32, .bytes b, w, _ => w = Proto.bytes32 b ∧ b.length < 2 ^ 32
  | .remaining, .count n, w, t => w = [] ∧ n = t.length
  | .expectEnd, .done, w, t => w = [] ∧ t = []
  | _, _, _, _ => False

end ReadOp

structure Safe {α : Type} (k : ℕ) (P : α → Bytes → Bytes → Prop) (r : Reader)
    (out : Except Fault α × Reader) : Prop where
  noPanic : out.1 ≠ .error .panic
  sameBuf : out.2.buf = r.buf
  forward : r.pos ≤ out.2.pos
  bounded : out.2.pos ≤ r.buf.length
  reads : ∀ a, out.1 = .ok a → ∃ w, out.2.pos = r.pos + w.length ∧
    r.buf.drop r.pos = w ++ r.buf.drop out.2.pos ∧ P a w (r.buf.drop out.2.pos)
  stays : ∀ e, out.1 = .error e → out.2.pos = r.pos ∨ out.2.pos = r.pos + k

namespace Safe

variable {α β : Type} {k : ℕ} {P : α → Bytes → Bytes → Prop} {r : Reader}
  {out : Except Fault α × Reader}

theorem error (h : r.pos ≤ r.buf.length) (e : ProtoError) :
    Safe k P r (.error (.proto e),r) where
  noPanic := by simp
  sameBuf := rfl
  forward := le_refl _
  bounded := h
  reads := by simp
  stays := fun _ _ => .inl rfl

theorem ok {a : α} {w t : Bytes} (hv : View r (w ++ t)) (hP : P a w t) :
    Safe k P r (.ok a,{ r with pos := r.pos + w.length }) := by
  obtain ⟨hb,ht⟩ := view_take hv
  refine ⟨by simp,rfl,Nat.le_add_right ..,hb,?_,by simp⟩
  intro b hab
  obtain rfl : a = b := Except.ok.inj hab
  simp only at ht ⊢
  exact ⟨w,rfl,by rw [ht,hv.2],by rwa [ht]⟩

theorem mono {Q : α → Bytes → Bytes → Prop} (h : Safe k P r out)
    (hPQ : ∀ a w t, P a w t → Q a w t) : Safe k Q r out where
  noPanic := h.noPanic
  sameBuf := h.sameBuf
  forward := h.forward
  bounded := h.bounded
  reads := by
    intro a ha
    obtain ⟨w,hp,hd,hP⟩ := h.reads a ha
    exact ⟨w,hp,hd,hPQ a w _ hP⟩
  stays := h.stays

theorem weaken (h : Safe 0 P r out) : Safe k P r out where
  noPanic := h.noPanic
  sameBuf := h.sameBuf
  forward := h.forward
  bounded := h.bounded
  reads := h.reads
  stays := fun e he => .inl ((h.stays e he).elim id id)

theorem pure (h : r.pos ≤ r.buf.length) (a : α) :
    Safe 0 (fun b w _ => b = a ∧ w = []) r (exec (Pure.pure a : ReadM α) r) := by
  have hv : View r ([] ++ r.buf.drop r.pos) := ⟨h,rfl⟩
  exact Safe.ok hv ⟨rfl,rfl⟩

-- `k` is where a failure of the second read leaves the position.
theorem bind {m : ReadM α} {f : α → ReadM β} {Q : α → β → Bytes → Bytes → Prop}
    (hm : Safe k P r (exec m r))
    (hf : ∀ a w t r', P a w t → r'.pos ≤ r'.buf.length → Safe 0 (Q a) r' (exec (f a) r'))
    (hk : ∀ a w t r' e, P a w t → (exec (f a) r').1 = .error e → w.length = k) :
    Safe k (fun b w t => ∃ a w₁ w₂, w = w₁ ++ w₂ ∧ P a w₁ (w₂ ++ t) ∧ Q a b w₂ t) r
      (exec (m >>= f) r) := by
  rw [exec_bind]
  rcases he : exec m r with ⟨x,r₁⟩
  rw [he] at hm
  cases x with
  | error e =>
    refine ⟨?_,hm.sameBuf,hm.forward,hm.bounded,by simp,fun _ _ => hm.stays e rfl⟩
    rintro ⟨rfl⟩
    exact hm.noPanic rfl
  | ok a =>
    obtain ⟨w₁,hp₁,hd₁,hP⟩ := hm.reads a rfl
    have hb : r₁.buf = r.buf := hm.sameBuf
    have hle : r₁.pos ≤ r₁.buf.length := by rw [hb]; exact hm.bounded
    have hs := hf a w₁ _ r₁ hP hle
    refine ⟨hs.noPanic,hs.sameBuf.trans hb,hm.forward.trans hs.forward,hb ▸ hs.bounded,?_,?_⟩
    · intro b hab
      obtain ⟨w₂,hp₂,hd₂,hQ⟩ := hs.reads b hab
      rw [hb] at hd₂ hQ
      simp only at hp₁ hd₁ hP ⊢
      refine ⟨w₁ ++ w₂,?_,?_,a,w₁,w₂,rfl,?_,hQ⟩
      · rw [hp₂,hp₁,List.length_append,Nat.add_assoc]
      · rw [hd₁,hd₂,List.append_assoc]
      · rwa [← hd₂]
    · intro e hae
      have hstay : (exec (f a) r₁).2.pos = r₁.pos := (hs.stays e hae).elim id id
      simp only at hp₁
      exact .inr (by rw [hstay,hp₁,hk a w₁ _ r₁ e hP hae])

theorem map {m : ReadM α} {g : α → β} {Q : β → Bytes → Bytes → Prop}
    (hm : Safe k P r (exec m r)) (hPQ : ∀ a w t, P a w t → Q (g a) w t) :
    Safe k Q r (exec (g <$> m) r) := by
  rw [map_eq_pure_bind]
  apply (hm.bind (f := fun a => Pure.pure (g a)) (fun a _ _ _ _ h => Safe.pure h (g a))
    (by simp)).mono
  rintro b w t ⟨a,w₁,w₂,rfl,hP,rfl,rfl⟩
  exact hPQ a _ t (by simpa using hP)

end Safe

section Operations

variable {r : Reader} (h : r.pos ≤ r.buf.length)
include h

theorem take_safe (n : ℕ) :
    Safe 0 (fun b w _ => w = b ∧ b.length = n) r (exec (Reader.take n) r) := by
  by_cases hn : (r.buf.drop r.pos).length < n
  · rw [exec_take_short ⟨h,rfl⟩ hn]
    exact Safe.error h _
  · have hl : ((r.buf.drop r.pos).take n).length = n := by rw [List.length_take]; omega
    have hv : View r ((r.buf.drop r.pos).take n ++ (r.buf.drop r.pos).drop n) :=
      ⟨h,(List.take_append_drop ..).symm⟩
    have ht := exec_take hv
    rw [hl] at ht
    rw [ht]
    nth_rewrite 3 [← hl]
    exact Safe.ok hv ⟨rfl,hl⟩

theorem fixed_safe {α : Type} {n : ℕ} {f : Bytes → ReadM α} {g : (b : Bytes) → b.length = n → α}
    (hf : ∀ b hb r, exec (f b) r = (.ok (g b hb),r)) :
    Safe 0 (fun a w _ => ∃ hw, a = g w hw) r (exec (Reader.take n >>= f) r) := by
  apply ((take_safe h n).bind (Q := fun b a w _ => (∃ hb, a = g b hb) ∧ w = []) ?_ ?_).mono
  · rintro a w t ⟨b,w₁,w₂,rfl,⟨rfl,_⟩,⟨hb,rfl⟩,rfl⟩
    exact ⟨by simpa using hb,by simp⟩
  · rintro b w t r' ⟨rfl,hb⟩ h'
    rw [hf w hb]
    have hv : View r' ([] ++ r'.buf.drop r'.pos) := ⟨h',rfl⟩
    exact Safe.ok hv ⟨⟨hb,rfl⟩,rfl⟩
  · rintro b w t r' e ⟨rfl,hb⟩ he
    simp [hf w hb] at he

theorem u8_safe : Safe 0 (fun v w _ => w = [v]) r (exec Reader.u8 r) := by
  apply (fixed_safe h u8_exec).mono
  rintro v w t ⟨hw,rfl⟩
  exact u8_word hw

theorem u16_safe : Safe 0 (fun v w _ => w = toBe 2 v.toNat) r (exec Reader.u16 r) := by
  apply (fixed_safe h u16_exec).mono
  rintro v w t ⟨hw,rfl⟩
  exact u16_word hw

theorem u32_safe : Safe 0 (fun v w _ => w = toBe 4 v.toNat) r (exec Reader.u32 r) := by
  apply (fixed_safe h u32_exec).mono
  rintro v w t ⟨hw,rfl⟩
  exact u32_word hw

theorem u64_safe : Safe 0 (fun v w _ => w = toBe 8 v.toNat) r (exec Reader.u64 r) := by
  apply (fixed_safe h u64_exec).mono
  rintro v w t ⟨hw,rfl⟩
  exact u64_word hw

theorem array_safe (n : ℕ) : Safe 0 (fun a w _ => w = a.val) r (exec (Reader.array n) r) := by
  apply (fixed_safe h fun _ hb r => exec_copyFromSlice hb r).mono
  rintro a w t ⟨hw,rfl⟩
  rfl

omit h in
theorem prefixed_safe {α : Type} {m : ReadM α} {c : α → ℕ} {k : ℕ} {e : α → Bytes}
    (hm : Safe 0 (fun a w _ => w = e a) r (exec m r)) (he : ∀ a, (e a).length = k) :
    Safe k (fun b w _ => ∃ a, w = e a ++ b ∧ b.length = c a) r
      (exec (m >>= fun a => Reader.take (c a)) r) := by
  apply (hm.weaken.bind (fun a _ _ r' _ h' => take_safe h' (c a)) ?_).mono
  · rintro b w t ⟨a,w₁,w₂,rfl,rfl,rfl,hb⟩
    exact ⟨a,rfl,hb⟩
  · rintro a w t r' _ rfl _
    exact he a

theorem bytes16_safe :
    Safe 2 (fun b w _ => w = bytes16 b ∧ b.length < 2 ^ 16) r (exec Reader.bytes16 r) := by
  apply (prefixed_safe (u16_safe h) fun _ => length_toBe 2 _).mono
  rintro b w t ⟨n,rfl,hb⟩
  exact bytes16_word hb

theorem bytes32_safe :
    Safe 4 (fun b w _ => w = bytes32 b ∧ b.length < 2 ^ 32) r (exec Reader.bytes32 r) := by
  apply (prefixed_safe (u32_safe h) fun _ => length_toBe 4 _).mono
  rintro b w t ⟨n,rfl,hb⟩
  exact bytes32_word hb

theorem remaining_safe :
    Safe 0 (fun n w t => w = [] ∧ n = t.length) r (exec Reader.remaining r) := by
  have hv : View r ([] ++ r.buf.drop r.pos) := ⟨h,rfl⟩
  rw [exec_remaining hv]
  exact Safe.ok hv ⟨rfl,rfl⟩

theorem expectEnd_safe :
    Safe 0 (fun _ w t => w = [] ∧ t = []) r (exec Reader.expectEnd r) := by
  have hv : View r ([] ++ r.buf.drop r.pos) := ⟨h,rfl⟩
  rw [exec_expectEnd hv]
  split
  · exact Safe.ok hv ⟨rfl,by assumption⟩
  · exact Safe.error h _

theorem step_safe (op : ReadOp) : Safe op.lengthField op.Returns r (op.step r) := by
  cases op with
  | u8 => exact (u8_safe h).map fun _ _ _ hw => hw
  | u16 => exact (u16_safe h).map fun _ _ _ hw => hw
  | u32 => exact (u32_safe h).map fun _ _ _ hw => hw
  | u64 => exact (u64_safe h).map fun _ _ _ hw => hw
  | raw n => exact (take_safe h n).map fun _ _ _ hw => hw
  | array n => exact (array_safe h n).map fun a _ _ hw => ⟨hw,a.property⟩
  | bytes16 => exact (bytes16_safe h).map fun _ _ _ hw => hw
  | bytes32 => exact (bytes32_safe h).map fun _ _ _ hw => hw
  | remaining => exact (remaining_safe h).map fun _ _ _ hw => hw
  | expectEnd => exact (expectEnd_safe h).map fun _ _ _ hw => hw

end Operations

theorem run_bounded (buf : Bytes) (ops : List ReadOp) :
    (Machine.run ReadOp.step (Reader.new buf) ops).2.buf = buf ∧
      (Machine.run ReadOp.step (Reader.new buf) ops).2.pos ≤ buf.length := by
  refine Machine.run_induction ReadOp.step (P := fun _ _ r => r.buf = buf ∧ r.pos ≤ buf.length)
    ⟨rfl,Nat.zero_le _⟩ ?_ ops
  rintro ops outs r op ⟨rfl,hr⟩
  have hs := step_safe hr op
  exact ⟨hs.sameBuf,hs.bounded⟩

def usizeAdd (limit a b : ℕ) : ReadM ℕ := if a + b < limit then pure (a + b) else throw .panic

-- `take` with both `usize` additions checked, for a `usize` of any width.
def Reader.takeChecked (limit n : ℕ) : ReadM Bytes := do
  let left ← remaining
  if left < n then throw (.proto .truncated) else
  let r ← get
  let stop ← usizeAdd limit r.pos n
  let s ← slice r.buf r.pos stop
  let pos ← usizeAdd limit r.pos n
  set { r with pos := pos }
  pure s

-- A sum that leaves `usize` is past the end of any slice the platform can hold.
theorem takeChecked_eq {limit : ℕ} {r : Reader} (hr : r.pos ≤ r.buf.length)
    (hl : r.buf.length < limit) (n : ℕ) :
    exec (Reader.takeChecked limit n) r = exec (Reader.take n) r := by
  have hv : View r (r.buf.drop r.pos) := ⟨hr,rfl⟩
  have hlen : (r.buf.drop r.pos).length = r.buf.length - r.pos := List.length_drop ..
  rw [Reader.takeChecked,Reader.take,exec_bind_ok (exec_remaining hv),
    exec_bind_ok (exec_remaining hv)]
  by_cases hn : (r.buf.drop r.pos).length < n
  · rw [if_pos hn,if_pos hn]
  · have hadd : r.pos + n < limit := by omega
    rw [if_neg hn,if_neg hn]
    simp [exec_bind,usizeAdd,hadd]

theorem reader_never_panics (buf : Bytes) (ops : List ReadOp) (op : ReadOp) :
    Safe op.lengthField op.Returns (Machine.run ReadOp.step (Reader.new buf) ops).2
      (op.step (Machine.run ReadOp.step (Reader.new buf) ops).2) ∧
    (Machine.run ReadOp.step (Reader.new buf) ops).2.buf = buf ∧
    (Machine.run ReadOp.step (Reader.new buf) ops).2.pos ≤ buf.length ∧
    (∀ limit n, buf.length < limit →
      exec (Reader.takeChecked limit n) (Machine.run ReadOp.step (Reader.new buf) ops).2 =
        exec (Reader.take n) (Machine.run ReadOp.step (Reader.new buf) ops).2) ∧
    Frame.decode buf ≠ .error .panic := by
  obtain ⟨hbuf,hpos⟩ := run_bounded buf ops
  have hle : (Machine.run ReadOp.step (Reader.new buf) ops).2.pos ≤
      (Machine.run ReadOp.step (Reader.new buf) ops).2.buf.length := by rwa [hbuf]
  refine ⟨step_safe hle op,hbuf,hpos,?_,?_⟩
  · intro limit n hl
    exact takeChecked_eq hle (by rwa [hbuf]) n
  · intro h
    obtain he | ⟨v,he⟩ | ⟨k,he⟩ := Frame.decode_fault h <;> cases he

end OrtTunnel.Proto
