import Mathlib.Tactic

namespace Progress

variable {σ ι : Type} (step : σ → ι → σ) (own : ι → Prop)

-- `own` picks the events of the system itself; the others belong to its environment.
structure Ranked (Inv : σ → Prop) (rank : σ → ℕ) : Prop where
  keeps : ∀ s i, own i → Inv s → Inv (step s i)
  falls : ∀ s i, own i → Inv s → step s i = s ∨ rank (step s i) < rank s

def Stuck (s : σ) : Prop := ∀ i, own i → step s i = s

def Moving : σ → List ι → Prop
  | _, [] => True
  | s, i :: is => own i ∧ step s i ≠ s ∧ Moving (step s i) is

def Round (is : List ι) : Prop := ∀ i, i ∈ is ↔ own i

variable {step own} {Inv : σ → Prop} {rank : σ → ℕ} {s : σ}

theorem moving_length (h : Ranked step own Inv rank) {is : List ι} (hs : Inv s)
    (hm : Moving step own s is) : is.length + rank (is.foldl step s) ≤ rank s := by
  induction is generalizing s with
  | nil => simp
  | cons i is ih =>
    obtain ⟨hown,hne,hrest⟩ := hm
    have hle := ih (h.keeps s i hown hs) hrest
    rcases h.falls s i hown hs with heq | hlt
    · exact absurd heq hne
    · rw [List.foldl_cons,List.length_cons]
      omega

theorem foldl_stuck (h : Stuck step own s) {is : List ι} (hown : ∀ i ∈ is, own i) :
    is.foldl step s = s := by
  induction is with
  | nil => rfl
  | cons i is ih =>
    rw [List.foldl_cons,h i (hown i (by simp))]
    exact ih fun j hj => hown j (by simp [hj])

theorem foldl_keeps (h : Ranked step own Inv rank) {is : List ι} (hs : Inv s)
    (hown : ∀ i ∈ is, own i) : Inv (is.foldl step s) ∧ rank (is.foldl step s) ≤ rank s := by
  induction is generalizing s with
  | nil => exact ⟨hs,le_rfl⟩
  | cons i is ih =>
    have hi := hown i (by simp)
    obtain ⟨hinv,hle⟩ := ih (h.keeps s i hi hs) fun j hj => hown j (by simp [hj])
    refine ⟨hinv,hle.trans ?_⟩
    rcases h.falls s i hi hs with heq | hlt
    · rw [heq]
    · exact hlt.le

theorem foldl_falls (h : Ranked step own Inv rank) {is : List ι} {i : ι} (hs : Inv s)
    (hown : ∀ i ∈ is, own i) (hi : i ∈ is) (hmoves : step s i ≠ s) :
    rank (is.foldl step s) < rank s := by
  induction is generalizing s with
  | nil => cases hi
  | cons j is ih =>
    have hj := hown j (by simp)
    have hrest : ∀ k ∈ is, own k := fun k hk => hown k (by simp [hk])
    rw [List.foldl_cons]
    by_cases hstay : step s j = s
    · rw [hstay]
      rcases List.mem_cons.mp hi with rfl | hi
      · exact absurd hstay hmoves
      · exact ih hs hrest hi hmoves
    · have hlt := (h.falls s j hj hs).resolve_left hstay
      exact (foldl_keeps h (h.keeps s j hj hs) hrest).2.trans_lt hlt

theorem round_falls (h : Ranked step own Inv rank) {is : List ι} (hs : Inv s)
    (hround : Round own is) : Stuck step own s ∨ rank (is.foldl step s) < rank s := by
  by_cases hstuck : Stuck step own s
  · exact .inl hstuck
  · simp only [Stuck,not_forall] at hstuck
    obtain ⟨i,hi,hmoves⟩ := hstuck
    exact .inr (foldl_falls h hs (fun j hj => (hround j).mp hj) ((hround i).mpr hi) hmoves)

theorem rounds_stuck (h : Ranked step own Inv rank) {rounds : List (List ι)} (hs : Inv s)
    (hround : ∀ r ∈ rounds, Round own r) (hlen : rank s ≤ rounds.length) :
    Stuck step own (rounds.flatten.foldl step s) := by
  induction rounds generalizing s with
  | nil =>
    intro i hi
    rcases h.falls s i hi hs with heq | hlt
    · exact heq
    · simp only [List.length_nil] at hlen
      omega
  | cons r rounds ih =>
    have hr := hround r (by simp)
    have hrest : ∀ q ∈ rounds, Round own q := fun q hq => hround q (by simp [hq])
    rw [List.flatten_cons,List.foldl_append]
    rcases round_falls h hs hr with hstuck | hlt
    · rw [foldl_stuck hstuck fun i hi => (hr i).mp hi,foldl_stuck hstuck]
      · exact hstuck
      · intro i hi
        obtain ⟨q,hq,hmem⟩ := List.mem_flatten.mp hi
        exact (hrest q hq i).mp hmem
    · rw [List.length_cons] at hlen
      exact ih (foldl_keeps h hs fun i hi => (hr i).mp hi).1 hrest (by omega)

end Progress
