import OrtTunnel.Core.Time
import OrtTunnel.Library.WindowLog

namespace OrtTunnel.Core
open BigEndian WindowLog

def replayTag (S : CipherSuite) (nonce : Arr 32) (encData : Bytes) : Arr 32 :=
  S.hash256 (nonce.val ++ encData)

structure StrikeCache where
  windowMs : UInt64
  entries : AList (fun _ : Arr 32 => UInt64)
  lastEvict : UInt64

namespace StrikeCache

def new (windowMs : UInt64) : StrikeCache := ⟨windowMs,∅,0⟩

def evict (c : StrikeCache) (nowMs : UInt64) : StrikeCache :=
  let cutoff := saturatingSub nowMs c.windowMs
  { c with
    entries := c.entries.retain fun _ seen => decide (seen ≥ cutoff)
    lastEvict := nowMs }

def checkAndInsert (c : StrikeCache) (tag : Arr 32) (nowMs : UInt64) :
    Except Error Unit × StrikeCache :=
  let c := c.evict nowMs
  if (c.entries.lookup tag).isSome then (.error .replayed,c)
  else (.ok (),{ c with entries := c.entries.insert tag nowMs })

def len (c : StrikeCache) : ℕ := c.entries.entries.length

def look (c : StrikeCache) (tag : Arr 32) : Option ℕ := (c.entries.lookup tag).map UInt64.toNat

@[simp] theorem windowMs_evict (c : StrikeCache) (now : UInt64) :
    (c.evict now).windowMs = c.windowMs := rfl

@[simp] theorem lastEvict_evict (c : StrikeCache) (now : UInt64) : (c.evict now).lastEvict = now := rfl

@[simp] theorem windowMs_checkAndInsert (c : StrikeCache) (tag : Arr 32) (now : UInt64) :
    (c.checkAndInsert tag now).2.windowMs = c.windowMs := by
  simp only [checkAndInsert]
  split <;> rfl

@[simp] theorem lastEvict_checkAndInsert (c : StrikeCache) (tag : Arr 32) (now : UInt64) :
    (c.checkAndInsert tag now).2.lastEvict = now := by
  simp only [checkAndInsert]
  split <;> rfl

theorem look_evict (c : StrikeCache) (now : UInt64) (tag : Arr 32) :
    (c.evict now).look tag =
      (c.look tag).filter fun t => decide (now.toNat ≤ t + c.windowMs.toNat) := by
  have hcut := toNat_saturatingSub now c.windowMs
  rw [look,evict,AList.lookup_retain,look]
  cases c.entries.lookup tag with
  | none => rfl
  | some seen =>
    have hle : seen ≥ saturatingSub now c.windowMs ↔ now.toNat ≤ seen.toNat + c.windowMs.toNat := by
      rw [ge_iff_le,UInt64.le_iff_toNat_le,hcut]
      omega
    by_cases h : now.toNat ≤ seen.toNat + c.windowMs.toNat <;>
      simp [Option.filter,hle,h]

structure Refines (c : StrikeCache) (log : Log (Arr 32)) : Prop where
  holds : Holds c.windowMs.toNat log c.lastEvict.toNat c.look
  separated : Separated c.windowMs.toNat log
  past : ∀ e ∈ log, e.2 ≤ c.lastEvict.toNat

theorem refines_new (windowMs : UInt64) : (new windowMs).Refines [] :=
  ⟨fun a t => by simp [look,new],List.Pairwise.nil,by simp⟩

theorem refines_evict {c : StrikeCache} {log : Log (Arr 32)} (h : c.Refines log) {now : UInt64}
    (hle : c.lastEvict ≤ now) : (c.evict now).Refines log := by
  have hnat : c.lastEvict.toNat ≤ now.toNat := UInt64.le_iff_toNat_le.mp hle
  refine ⟨?_,h.separated,fun e he => (h.past e he).trans hnat⟩
  have hev := holds_evict h.holds hnat
  intro a t
  rw [look_evict]
  exact hev a t

theorem refines_insert {c : StrikeCache} {log : Log (Arr 32)} (h : c.Refines log) {tag : Arr 32}
    (hnone : c.look tag = none) :
    Refines ⟨c.windowMs,c.entries.insert tag c.lastEvict,c.lastEvict⟩
      ((tag,c.lastEvict.toNat) :: log) := by
  have hlook : look ⟨c.windowMs,c.entries.insert tag c.lastEvict,c.lastEvict⟩ =
      Function.update c.look tag (some c.lastEvict.toNat) := by
    funext a
    by_cases ha : a = tag
    · subst ha
      simp [look]
    · simp [look,ha,AList.lookup_insert_ne]
  refine ⟨?_,separated_insert h.separated ((holds_none_iff h.holds tag).mp hnone),?_⟩
  · rw [hlook]
    exact holds_insert h.holds hnone
  · intro e he
    rcases List.mem_cons.mp he with rfl | he
    · exact le_refl _
    · exact h.past e he

def LiveEntry (c : StrikeCache) (tag : Arr 32) (now : UInt64) : Prop :=
  ∃ seen, c.entries.lookup tag = some seen ∧ now.toNat ≤ seen.toNat + c.windowMs.toNat

theorem liveEntry_iff_look {c : StrikeCache} {tag : Arr 32} {now : UInt64} :
    c.LiveEntry tag now ↔ ∃ t, c.look tag = some t ∧ now.toNat ≤ t + c.windowMs.toNat := by
  constructor
  · rintro ⟨seen,hseen,hle⟩
    exact ⟨seen.toNat,by simp [look,hseen],hle⟩
  · rintro ⟨t,ht,hle⟩
    obtain ⟨seen,hseen,rfl⟩ := Option.map_eq_some_iff.mp ht
    exact ⟨seen,hseen,hle⟩

theorem liveEntry_evict {c : StrikeCache} {tag : Arr 32} {now later : UInt64} (h : now ≤ later) :
    (c.evict now).LiveEntry tag later ↔ c.LiveEntry tag later := by
  have hnat : now.toNat ≤ later.toNat := UInt64.le_iff_toNat_le.mp h
  simp only [liveEntry_iff_look,look_evict,windowMs_evict,Option.filter_eq_some_iff,
    decide_eq_true_eq]
  constructor
  · rintro ⟨t,⟨ht,_⟩,hle⟩
    exact ⟨t,ht,hle⟩
  · rintro ⟨t,ht,hle⟩
    exact ⟨t,⟨ht,hnat.trans hle⟩,hle⟩

theorem liveEntry_iff_mem {c : StrikeCache} {tag : Arr 32} {now : UInt64} :
    c.LiveEntry tag now ↔ ((c.evict now).entries.lookup tag).isSome := by
  rw [← liveEntry_evict (UInt64.le_refl now)]
  have hlook := look_evict c now tag
  cases hl : (c.evict now).entries.lookup tag with
  | none => simp [LiveEntry,hl]
  | some seen =>
    simp only [look,hl,Option.map_some] at hlook
    obtain ⟨_,hle⟩ := Option.filter_eq_some_iff.mp hlook.symm
    simpa [LiveEntry,hl] using hle

theorem checkAndInsert_live {c : StrikeCache} {tag : Arr 32} {now : UInt64}
    (h : c.LiveEntry tag now) : c.checkAndInsert tag now = (.error .replayed,c.evict now) := by
  simp [checkAndInsert,liveEntry_iff_mem.mp h]

theorem checkAndInsert_fresh {c : StrikeCache} {tag : Arr 32} {now : UInt64}
    (h : ¬ c.LiveEntry tag now) : c.checkAndInsert tag now =
      (.ok (),⟨c.windowMs,(c.evict now).entries.insert tag now,now⟩) := by
  rw [liveEntry_iff_mem] at h
  simp only [checkAndInsert,if_neg h]
  rfl

theorem liveEntry_checkAndInsert {c : StrikeCache} {tag tag' : Arr 32} {now later : UInt64}
    (h : now ≤ later) :
    (c.checkAndInsert tag now).2.LiveEntry tag' later ↔ c.LiveEntry tag' later ∨
      (tag' = tag ∧ ¬ c.LiveEntry tag now ∧ later.toNat ≤ now.toNat + c.windowMs.toNat) := by
  have hnat : now.toNat ≤ later.toNat := UInt64.le_iff_toNat_le.mp h
  by_cases hl : c.LiveEntry tag now
  · rw [checkAndInsert_live hl]
    simp [hl,liveEntry_evict h]
  · rw [checkAndInsert_fresh hl]
    by_cases ht : tag' = tag
    · subst ht
      have hgone : ¬ c.LiveEntry tag' later := by
        rintro ⟨seen,hseen,hle⟩
        exact hl ⟨seen,hseen,hnat.trans hle⟩
      have hown : LiveEntry ⟨c.windowMs,(c.evict now).entries.insert tag' now,now⟩ tag' later ↔
          later.toNat ≤ now.toNat + c.windowMs.toNat := by simp [LiveEntry]
      rw [hown]
      simp [hgone,hl]
    · rw [← @liveEntry_evict c tag' now later h]
      simp [LiveEntry,AList.lookup_insert_ne ht,ht]

theorem not_liveEntry_new (windowMs : UInt64) (tag : Arr 32) (now : UInt64) :
    ¬ (new windowMs).LiveEntry tag now := by
  rintro ⟨seen,hseen,-⟩
  simp [new] at hseen

theorem Refines.liveEntry_iff {c : StrikeCache} {log : Log (Arr 32)} (h : c.Refines log)
    (tag : Arr 32) {now : UInt64} (hle : c.lastEvict ≤ now) :
    c.LiveEntry tag now ↔ Live c.windowMs.toNat log tag now.toNat := by
  have hnat : c.lastEvict.toNat ≤ now.toNat := UInt64.le_iff_toNat_le.mp hle
  rw [liveEntry_iff_look]
  constructor
  · rintro ⟨t,ht,hlive⟩
    exact ⟨t,((h.holds tag t).mp ht).1,hlive⟩
  · rintro ⟨t,ht,hlive⟩
    exact ⟨t,(h.holds tag t).mpr ⟨ht,hnat.trans hlive⟩,hlive⟩

theorem checkAndInsert_cases {c : StrikeCache} {log : Log (Arr 32)} (h : c.Refines log)
    (tag : Arr 32) {now : UInt64} (hle : c.lastEvict ≤ now) :
    (Live c.windowMs.toNat log tag now.toNat ∧
      (c.checkAndInsert tag now).1 = .error .replayed ∧
      (c.checkAndInsert tag now).2.Refines log) ∨
    (¬ Live c.windowMs.toNat log tag now.toNat ∧
      (c.checkAndInsert tag now).1 = .ok () ∧
      (c.checkAndInsert tag now).2.Refines ((tag,now.toNat) :: log)) := by
  have hev := refines_evict h hle
  rw [← h.liveEntry_iff tag hle]
  by_cases hl : c.LiveEntry tag now
  · rw [checkAndInsert_live hl]
    exact Or.inl ⟨hl,rfl,hev⟩
  · rw [checkAndInsert_fresh hl]
    refine Or.inr ⟨hl,rfl,refines_insert hev ?_⟩
    rw [liveEntry_iff_mem,Option.not_isSome_iff_eq_none] at hl
    simp [look,hl]

end StrikeCache

end OrtTunnel.Core
