import OrtTunnel.Library.Machine

namespace Machine

variable {σ τ ι ω κ ρ : Type}

-- `R` is indexed by the inputs still to come, so it can carry what is promised about them.
theorem run_simulates {step : σ → ι → ω × σ} {act : τ → ι → ω × τ} {R : List ι → σ → τ → Prop}
    (hR : ∀ i is s t, R (i :: is) s t →
      (step s i).1 = (act t i).1 ∧ R is (step s i).2 (act t i).2)
    {is : List ι} {s : σ} {t : τ} (h : R is s t) : (run step s is).1 = (run act t is).1 := by
  induction is generalizing s t with
  | nil => rfl
  | cons i is ih =>
    obtain ⟨hout,hnext⟩ := hR i is s t h
    rw [run,run,hout,ih hnext]

section Cells
variable [DecidableEq κ] (key : ι → κ) (act : ρ → ι → ω × ρ)

def cells (s : κ → ρ) (i : ι) : ω × (κ → ρ) :=
  ((act (s (key i)) i).1,Function.update s (key i) (act (s (key i)) i).2)

theorem cells_local : Local (cells key act) key (fun s k => s k) act where
  out := fun _ _ => rfl
  own := fun _ _ => Function.update_self ..
  frame := fun _ _ _ hk => Function.update_of_ne (Ne.symm hk) ..

variable {key act} {step : σ → ι → ω × σ} {R : List ι → σ → (κ → ρ) → Prop}

theorem run_cell (hR : ∀ i is s t, R (i :: is) s t →
      (step s i).1 = (cells key act t i).1 ∧ R is (step s i).2 (cells key act t i).2)
    {is : List ι} {s : σ} {t : κ → ρ} (h : R is s t) (k : κ) :
    outputsOn key k is (run step s is).1 = (run act (t k) (project key k is)).1 := by
  rw [run_simulates hR h]
  exact (run_component (cells_local key act) t is k).1

end Cells

end Machine
