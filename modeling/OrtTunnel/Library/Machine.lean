import Mathlib.Tactic

namespace Machine

variable {σ ι ω : Type} (step : σ → ι → ω × σ)

def run : σ → List ι → List ω × σ
  | s, [] => ([],s)
  | s, i :: is => ((step s i).1 :: (run (step s i).2 is).1,(run (step s i).2 is).2)

theorem run_append (s : σ) (is js : List ι) :
    run step s (is ++ js) = ((run step s is).1 ++ (run step (run step s is).2 js).1,
      (run step (run step s is).2 js).2) := by
  induction is generalizing s with
  | nil => simp [run]
  | cons i is ih => simp [run,ih]

theorem length_run (s : σ) (is : List ι) : (run step s is).1.length = is.length := by
  induction is generalizing s with
  | nil => rfl
  | cons i is ih => simp [run,ih]

theorem run_snoc (s : σ) (is : List ι) (i : ι) :
    run step s (is ++ [i]) = ((run step s is).1 ++ [(step (run step s is).2 i).1],
      (step (run step s is).2 i).2) := by
  simp [run_append,run]

theorem run_induction {P : List ι → List ω → σ → Prop} {s : σ} (hnil : P [] [] s)
    (hstep : ∀ is os t i, P is os t → P (is ++ [i]) (os ++ [(step t i).1]) (step t i).2)
    (is : List ι) : P is (run step s is).1 (run step s is).2 := by
  induction is using List.reverseRecOn with
  | nil => exact hnil
  | append_singleton is i ih =>
    rw [run_snoc]
    exact hstep is _ _ i ih

section Components

variable {κ ρ : Type} [DecidableEq κ]

def project (key : ι → κ) (k : κ) (is : List ι) : List ι := is.filter fun i => key i = k

def outputsOn (key : ι → κ) (k : κ) : List ι → List ω → List ω
  | i :: is, o :: os => if key i = k then o :: outputsOn key k is os else outputsOn key k is os
  | _, _ => []

-- Every input acts on the one component of the state that its key names.
structure Local (key : ι → κ) (proj : σ → κ → ρ) (act : ρ → ι → ω × ρ) : Prop where
  out : ∀ s i, (step s i).1 = (act (proj s (key i)) i).1
  own : ∀ s i, proj (step s i).2 (key i) = (act (proj s (key i)) i).2
  frame : ∀ s i k, key i ≠ k → proj (step s i).2 k = proj s k

variable {step} {key : ι → κ} {proj : σ → κ → ρ} {act : ρ → ι → ω × ρ}

theorem run_component (h : Local step key proj act) (s : σ) (is : List ι) (k : κ) :
    outputsOn key k is (run step s is).1 = (run act (proj s k) (project key k is)).1 ∧
      proj (run step s is).2 k = (run act (proj s k) (project key k is)).2 := by
  induction is generalizing s with
  | nil => exact ⟨rfl,rfl⟩
  | cons i is ih =>
    obtain ⟨hout,hst⟩ := ih (step s i).2
    by_cases hk : key i = k
    · subst hk
      have hp : project key (key i) (i :: is) = i :: project key (key i) is := by simp [project]
      rw [h.own] at hout hst
      rw [hp,run,run,outputsOn,if_pos rfl,hout,hst,h.out]
      exact ⟨rfl,rfl⟩
    · have hp : project key k (i :: is) = project key k is := by simp [project,hk]
      rw [h.frame s i k hk] at hout hst
      rw [hp,run,outputsOn,if_neg hk]
      exact ⟨hout,hst⟩

theorem project_project (k : κ) (is : List ι) :
    project key k (project key k is) = project key k is := by
  simp [project]

theorem outputsOn_project (k : κ) (is : List ι) (os : List ω)
    (hl : os.length = (project key k is).length) : outputsOn key k (project key k is) os = os := by
  induction is generalizing os with
  | nil => 
    simp [project] at hl
    simp [hl,project,outputsOn]
  | cons i is ih =>
    by_cases hk : key i = k
    · have hp : project key k (i :: is) = i :: project key k is := by simp [project,hk]
      rw [hp] at hl ⊢
      cases os with
      | nil => simp at hl
      | cons o os => rw [outputsOn,if_pos hk,ih os (by simpa using hl)]
    · have hp : project key k (i :: is) = project key k is := by simp [project,hk]
      rw [hp] at hl ⊢
      exact ih os hl

theorem run_project (h : Local step key proj act) (s : σ) (is : List ι) (k : κ) :
    outputsOn key k is (run step s is).1 = (run step s (project key k is)).1 ∧
      proj (run step s is).2 k = proj (run step s (project key k is)).2 k := by
  obtain ⟨hout,hst⟩ := run_component h s is k
  obtain ⟨hout',hst'⟩ := run_component h s (project key k is) k
  rw [project_project] at hout' hst'
  rw [outputsOn_project k is _ (length_run ..)] at hout'
  exact ⟨hout.trans hout'.symm,hst.trans hst'.symm⟩

end Components

end Machine
