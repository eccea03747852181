import OrtTunnel.Core.PlainSuite
import OrtTunnel.Core.Replay
import OrtTunnel.Library.Machine

namespace OrtTunnel.Core
open BigEndian WindowLog

inductive CacheCall where
  | evict (now : UInt64)
  | checkAndInsert (tag : Arr 32) (now : UInt64)
  deriving DecidableEq

namespace CacheCall

def now : CacheCall → UInt64
  | .evict now => now
  | .checkAndInsert _ now => now

-- The answer beside the call that got it; `evict` has none to give.
def step (c : StrikeCache) (call : CacheCall) : (CacheCall × Except Error Unit) × StrikeCache :=
  match call with
  | .evict now => ((call,.ok ()),c.evict now)
  | .checkAndInsert tag now => ((call,(c.checkAndInsert tag now).1),(c.checkAndInsert tag now).2)

end CacheCall

def inserted : CacheCall × Except Error Unit → Option (Arr 32 × ℕ)
  | (.checkAndInsert tag now,.ok ()) => some (tag,now.toNat)
  | _ => none

def insertLog (answers : List (CacheCall × Except Error Unit)) : Log (Arr 32) :=
  answers.filterMap inserted

def CacheClock (calls : List CacheCall) : Prop := calls.Pairwise fun a b => a.now ≤ b.now

structure CacheInv (windowMs : UInt64) (calls : List CacheCall)
    (answers : List (CacheCall × Except Error Unit)) (c : StrikeCache) : Prop where
  window : c.windowMs = windowMs
  evicted : c.lastEvict = 0 ∨ ∃ b ∈ calls, c.lastEvict = b.now
  refines : c.Refines (insertLog answers).reverse

section Steps
variable {windowMs : UInt64} {calls : List CacheCall} {c : StrikeCache}
variable {answers : List (CacheCall × Except Error Unit)}

theorem CacheInv.lastEvict_le (h : CacheInv windowMs calls answers c) {now : UInt64}
    (hnow : ∀ b ∈ calls, b.now ≤ now) : c.lastEvict ≤ now := by
  rcases h.evicted with h0 | ⟨b,hb,hn⟩
  · rw [h0]
    exact UInt64.zero_le
  · rw [hn]
    exact hnow b hb

theorem insertLog_snoc (a : CacheCall × Except Error Unit) :
    (insertLog (answers ++ [a])).reverse = (inserted a).toList ++ (insertLog answers).reverse := by
  simp only [insertLog,List.filterMap_append,List.reverse_append]
  cases h : inserted a <;> simp [h]

theorem cacheInv_step (h : CacheInv windowMs calls answers c) (call : CacheCall)
    (hnow : ∀ b ∈ calls, b.now ≤ call.now) :
    CacheInv windowMs (calls ++ [call]) (answers ++ [(call.step c).1]) (call.step c).2 := by
  have hle := h.lastEvict_le hnow
  cases call with
  | evict now =>
    refine ⟨h.window,Or.inr ⟨.evict now,by simp,rfl⟩,?_⟩
    rw [insertLog_snoc]
    exact StrikeCache.refines_evict h.refines hle
  | checkAndInsert tag now =>
    change c.lastEvict ≤ now at hle
    refine ⟨?_,Or.inr ⟨.checkAndInsert tag now,by simp,?_⟩,?_⟩
    · simp [CacheCall.step,h.window]
    · simp [CacheCall.step,CacheCall.now]
    · rw [insertLog_snoc]
      rcases StrikeCache.checkAndInsert_cases h.refines tag hle with ⟨_,he,hr⟩ | ⟨_,he,hr⟩
      · simp only [CacheCall.step,he]
        exact hr
      · simp only [CacheCall.step,he]
        exact hr

end Steps

theorem cacheInv_run (windowMs : UInt64) {calls : List CacheCall} (hclock : CacheClock calls) :
    CacheInv windowMs calls (Machine.run CacheCall.step (StrikeCache.new windowMs) calls).1
      (Machine.run CacheCall.step (StrikeCache.new windowMs) calls).2 := by
  refine Machine.run_induction CacheCall.step
    (P := fun calls answers c => CacheClock calls → CacheInv windowMs calls answers c)
    (fun _ => ⟨rfl,Or.inl rfl,StrikeCache.refines_new windowMs⟩) ?_ calls hclock
  intro calls answers c call ih hok
  obtain ⟨hbefore,-,hnow⟩ := List.pairwise_append.mp hok
  exact cacheInv_step (ih hbefore) call fun b hb => hnow b hb call (by simp)

namespace StrikeCache
variable {c : StrikeCache} {log : Log (Arr 32)}

theorem Refines.lookup_iff (h : c.Refines log) (tag : Arr 32) (t : UInt64) :
    c.entries.lookup tag = some t ↔ (tag,t.toNat) ∈ log ∧
      c.lastEvict.toNat ≤ t.toNat + c.windowMs.toNat ∧
      ∀ u, (tag,u) ∈ log → c.lastEvict.toNat ≤ u + c.windowMs.toNat → u ≤ t.toNat := by
  have hlook : c.entries.lookup tag = some t ↔ c.look tag = some t.toNat := by
    cases hl : c.entries.lookup tag with
    | none => simp [look,hl]
    | some u => simp [look,hl,UInt64.toNat_inj]
  rw [hlook,h.holds tag t.toNat]
  constructor
  · rintro ⟨hm,hle⟩
    refine ⟨hm,hle,?_⟩
    intro u hu _
    exact separated_latest h.separated hm hu ((h.past _ hu).trans hle)
  · rintro ⟨hm,hle,-⟩
    exact ⟨hm,hle⟩

theorem Refines.len_le (h : c.Refines log) :
    c.len ≤ (log.filter fun e => c.lastEvict.toNat ≤ e.2 + c.windowMs.toNat).length := by
  have hkeys : (c.entries.entries.map fun e => (e.1,e.2.toNat)).Nodup := by
    apply List.Nodup.of_map Prod.fst
    rw [List.map_map]
    exact c.entries.nodupKeys
  have hsub : (c.entries.entries.map fun e => (e.1,e.2.toNat)) ⊆
      log.filter fun e => c.lastEvict.toNat ≤ e.2 + c.windowMs.toNat := by
    intro p hp
    obtain ⟨⟨tag,t⟩,he,rfl⟩ := List.mem_map.mp hp
    have hl : c.entries.lookup tag = some t := AList.mem_lookup_iff.mpr he
    obtain ⟨hm,hle,_⟩ := (h.lookup_iff tag t).mp hl
    exact List.mem_filter.mpr ⟨hm,by simpa using hle⟩
  have hle := (List.subperm_of_subset hkeys hsub).length_le
  rwa [List.length_map] at hle

end StrikeCache

theorem cache_refines_log (windowMs : UInt64) (calls : List CacheCall) (hclock : CacheClock calls)
    (c : StrikeCache) (log : Log (Arr 32))
    (hc : (Machine.run CacheCall.step (StrikeCache.new windowMs) calls).2 = c)
    (hlog : insertLog (Machine.run CacheCall.step (StrikeCache.new windowMs) calls).1 = log) :
    (∀ tag now, (∀ b ∈ calls, b.now ≤ now) →
      ((c.checkAndInsert tag now).1 = .ok () ↔
        ∀ t, (tag,t) ∈ log → ¬ now.toNat ≤ t + windowMs.toNat)) ∧
    (∀ tag t, c.entries.lookup tag = some t ↔ (tag,t.toNat) ∈ log ∧
      c.lastEvict.toNat ≤ t.toNat + windowMs.toNat ∧
      ∀ u, (tag,u) ∈ log → c.lastEvict.toNat ≤ u + windowMs.toNat → u ≤ t.toNat) ∧
    c.len ≤ (log.filter fun e => c.lastEvict.toNat ≤ e.2 + windowMs.toNat).length := by
  have h := cacheInv_run windowMs hclock
  rw [hc] at h
  have hwin := h.window
  have href : c.Refines log.reverse := by
    rw [← hlog]
    exact h.refines
  refine ⟨?_,?_,?_⟩
  · intro tag now hnow
    have hcases := StrikeCache.checkAndInsert_cases href tag (h.lastEvict_le hnow)
    rw [hwin] at hcases
    have hlive : Live windowMs.toNat log.reverse tag now.toNat ↔
        ∃ t, (tag,t) ∈ log ∧ now.toNat ≤ t + windowMs.toNat := by simp [Live]
    rw [hlive] at hcases
    rcases hcases with ⟨⟨t,hm,hle⟩,he,_⟩ | ⟨hno,he,_⟩
    · rw [he]
      exact ⟨fun habs => (by cases habs),fun hall => absurd hle (hall t hm)⟩
    · rw [he]
      exact ⟨fun _ t hm hle => hno ⟨t,hm,hle⟩,fun _ => rfl⟩
  · intro tag t
    rw [href.lookup_iff tag t,hwin]
    simp
  · have hlen := href.len_le
    rwa [hwin,List.filter_reverse,List.length_reverse] at hlen

def cacheSample : List CacheCall :=
  [.checkAndInsert (fill 32 1) 0,.checkAndInsert (fill 32 1) 5,.evict 8]

theorem cache_refines_log_sample :
    CacheClock cacheSample ∧
      ((Machine.run CacheCall.step (StrikeCache.new 10) cacheSample).2.checkAndInsert
        (fill 32 1) 11).1 = .ok () := by
  have hclock : CacheClock cacheSample := by
    simp [CacheClock,cacheSample,CacheCall.now]
  have hlog : insertLog (Machine.run CacheCall.step (StrikeCache.new 10) cacheSample).1 =
      [(fill 32 1,0)] := by decide +kernel
  refine ⟨hclock,((cache_refines_log 10 cacheSample hclock _ _ rfl hlog).1 (fill 32 1) 11
    (by simp [cacheSample,CacheCall.now])).mpr ?_⟩
  intro t ht
  obtain rfl : t = 0 := by simpa using ht
  decide

end OrtTunnel.Core
