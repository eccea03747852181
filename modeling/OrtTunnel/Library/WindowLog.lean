import Mathlib.Data.List.AList
import Mathlib.Tactic

namespace AList

variable {α β : Type} [DecidableEq α]

def retain (p : α → β → Bool) (m : AList (fun _ : α => β)) : AList (fun _ : α => β) :=
  ⟨m.entries.filter fun e => p e.1 e.2,m.nodupKeys.sublist List.filter_sublist⟩

theorem lookup_retain (p : α → β → Bool) (m : AList (fun _ : α => β)) (a : α) :
    (m.retain p).lookup a = (m.lookup a).filter (p a) := by
  ext b
  have hleft : b ∈ (m.retain p).lookup a ↔ Sigma.mk a b ∈ (m.retain p).entries := mem_lookup_iff
  have hright : b ∈ m.lookup a ↔ Sigma.mk a b ∈ m.entries := mem_lookup_iff
  simp only [Option.mem_def] at hleft hright
  rw [hleft,Option.filter_eq_some_iff,hright,retain,List.mem_filter]

end AList

namespace WindowLog

variable {α : Type} (w : ℕ)

abbrev Log (α : Type) := List (α × ℕ)

def Live (log : Log α) (a : α) (now : ℕ) : Prop := ∃ t, (a,t) ∈ log ∧ now ≤ t + w

def Separated (log : Log α) : Prop :=
  log.Pairwise fun later earlier => later.1 = earlier.1 → earlier.2 + w < later.2

def Holds (log : Log α) (evicted : ℕ) (look : α → Option ℕ) : Prop :=
  ∀ a t, look a = some t ↔ (a,t) ∈ log ∧ evicted ≤ t + w

variable {w} {log : Log α} {evicted now : ℕ} {look : α → Option ℕ}

theorem separated_insert {a : α} (h : Separated w log) (hn : ¬ Live w log a now) :
    Separated w ((a,now) :: log) := by
  refine List.pairwise_cons.mpr ⟨?_,h⟩
  rintro ⟨b,t⟩ hb rfl
  by_contra hlt
  exact hn ⟨t,hb,Nat.le_of_not_lt hlt⟩

theorem separated_latest (h : Separated w log) {a : α} {t u : ℕ} (ht : (a,t) ∈ log)
    (hu : (a,u) ∈ log) (hle : u ≤ t + w) : u ≤ t := by
  induction log with
  | nil => simp at ht
  | cons e log ih =>
    obtain ⟨hhead,htail⟩ := List.pairwise_cons.mp h
    rcases List.mem_cons.mp ht with ht' | ht'
    · rcases List.mem_cons.mp hu with hu' | hu'
      · rw [(Prod.mk.inj (hu'.trans ht'.symm)).2]
      · have hlt : u + w < e.2 := hhead (a,u) hu' (congrArg Prod.fst ht').symm
        rw [← ht'] at hlt
        simp only at hlt
        omega
    · rcases List.mem_cons.mp hu with hu' | hu'
      · have hlt : t + w < e.2 := hhead (a,t) ht' (congrArg Prod.fst hu').symm
        rw [← hu'] at hlt
        simp only at hlt
        omega
      · exact ih htail ht' hu'

theorem holds_evict (h : Holds w log evicted look) (hle : evicted ≤ now) :
    Holds w log now fun a => (look a).filter fun t => decide (now ≤ t + w) := by
  intro a t
  simp only [Option.filter_eq_some_iff,h a t,decide_eq_true_eq]
  constructor
  · rintro ⟨⟨hm,_⟩,hnow⟩
    exact ⟨hm,hnow⟩
  · rintro ⟨hm,hnow⟩
    exact ⟨⟨hm,hle.trans hnow⟩,hnow⟩

theorem holds_none_iff (h : Holds w log now look) (a : α) : look a = none ↔ ¬ Live w log a now := by
  rw [Option.eq_none_iff_forall_ne_some]
  constructor
  · rintro hnone ⟨t,hm,hle⟩
    exact hnone t ((h a t).mpr ⟨hm,hle⟩)
  · intro hn t ht
    exact hn ⟨t,(h a t).mp ht⟩

theorem holds_insert [DecidableEq α] {a : α} (h : Holds w log now look) (hnone : look a = none) :
    Holds w ((a,now) :: log) now (Function.update look a (some now)) := by
  intro b t
  by_cases hb : b = a
  · subst hb
    have hnot : ∀ u, (b,u) ∈ log → ¬ now ≤ u + w := fun u hu hle =>
      (holds_none_iff h b).mp hnone ⟨u,hu,hle⟩
    simp only [Function.update_self,Option.some.injEq,List.mem_cons,Prod.mk.injEq,true_and]
    constructor
    · rintro rfl
      exact ⟨Or.inl rfl,by omega⟩
    · rintro ⟨rfl | hm,hle⟩
      · rfl
      · exact absurd hle (hnot t hm)
  · rw [Function.update_of_ne hb,h b t]
    simp [hb]

theorem spaced_length {lo hi : ℕ} {ts : List ℕ} (h : ts.Pairwise fun a b => a + w < b)
    (hlo : ∀ t ∈ ts, lo ≤ t) (hhi : ∀ t ∈ ts, t ≤ hi) (hspan : lo ≤ hi) :
    ts.length ≤ 1 + (hi - lo) / (w + 1) := by
  induction ts generalizing lo with
  | nil => exact Nat.zero_le _
  | cons t ts ih =>
    obtain ⟨hnext,hrest⟩ := List.pairwise_cons.mp h
    cases ts with
    | nil => simp
    | cons u us =>
      have htu := hnext u (by simp)
      have ht := hlo t (by simp)
      have hu := hhi u (by simp)
      have hlen := @ih (t + w + 1) hrest (fun v hv => hnext v hv)
        (fun v hv => hhi v (by simp [hv])) (by omega)
      have hstep : (hi - (t + w + 1)) / (w + 1) + 1 ≤ (hi - lo) / (w + 1) := by
        rw [← Nat.add_div_right _ (Nat.succ_pos w)]
        exact Nat.div_le_div_right (by omega)
      rw [List.length_cons]
      omega

end WindowLog
