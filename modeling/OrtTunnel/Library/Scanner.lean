import Mathlib.Tactic

namespace Scanner

-- The state survives a failed scan, as a `&mut self` method leaves it.
abbrev Scan (σ ε α : Type) := ExceptT ε (StateM σ) α

variable {σ ε τ α β : Type}

def exec (m : Scan σ ε α) (s : σ) : Except ε α × σ := (ExceptT.run m) s

@[simp] theorem exec_pure (a : α) (s : σ) : exec (pure a : Scan σ ε α) s = (.ok a,s) := rfl

@[simp] theorem exec_throw (e : ε) (s : σ) : exec (throw e : Scan σ ε α) s = (.error e,s) := rfl

@[simp] theorem exec_get (s : σ) : exec (get : Scan σ ε σ) s = (.ok s,s) := rfl

@[simp] theorem exec_set (t s : σ) : exec (set t : Scan σ ε PUnit) s = (.ok ⟨⟩,t) := rfl

theorem exec_bind (m : Scan σ ε α) (f : α → Scan σ ε β) (s : σ) :
    exec (m >>= f) s = match exec m s with
      | (.ok a,t) => exec (f a) t
      | (.error e,t) => (.error e,t) := by
  change (match (ExceptT.run m) s with
      | (x,t) => (match x with
        | .ok a => ExceptT.run (f a)
        | .error e => pure (.error e) : StateM σ (Except ε β)) t) = _
  unfold exec
  rcases (ExceptT.run m) s with ⟨x,t⟩
  cases x <;> rfl

theorem exec_map (g : α → β) (m : Scan σ ε α) (s : σ) :
    exec (g <$> m) s = match exec m s with
      | (.ok a,t) => (.ok (g a),t)
      | (.error e,t) => (.error e,t) := by
  rw [map_eq_pure_bind,exec_bind]
  rfl

theorem exec_bind_ok {m : Scan σ ε α} {f : α → Scan σ ε β} {s t : σ} {a : α}
    (h : exec m s = (.ok a,t)) : exec (m >>= f) s = exec (f a) t := by
  rw [exec_bind,h]

theorem exec_bind_eq_ok {m : Scan σ ε α} {f : α → Scan σ ε β} {s u : σ} {b : β}
    (h : exec (m >>= f) s = (.ok b,u)) :
    ∃ a t, exec m s = (.ok a,t) ∧ exec (f a) t = (.ok b,u) := by
  rw [exec_bind] at h
  rcases hm : exec m s with ⟨x,t⟩
  rw [hm] at h
  cases x with
  | error e => simp at h
  | ok a => exact ⟨a,t,rfl,h⟩

section View

variable (View : σ → List τ → Prop)

def Accepts (m : Scan σ ε α) (w : List τ) (a : α) : Prop :=
  ∀ s t, View s (w ++ t) → ∃ s', exec m s = (.ok a,s') ∧ View s' t

def Consumes (m : Scan σ ε α) (P : α → List τ → Prop) : Prop :=
  ∀ s l a s', View s l → exec m s = (.ok a,s') → ∃ w t, l = w ++ t ∧ View s' t ∧ P a w

-- A failing read is one that a longer input would have completed.
structure Reads (e₀ : ε) (m : Scan σ ε α) (P : α → List τ → Prop) : Prop where
  consumes : Consumes View m P
  starves : ∀ s l e s', View s l → exec m s = (.error e,s') →
    e = e₀ ∧ ∃ a w, P a w ∧ l <+: w ∧ l ≠ w
  inhabited : ∃ a w, P a w

variable {View}

theorem Accepts.pure (a : α) : Accepts View (Pure.pure a : Scan σ ε α) [] a :=
  fun s _ h => ⟨s,rfl,h⟩

theorem Accepts.bind {m : Scan σ ε α} {f : α → Scan σ ε β} {w v : List τ} {a : α} {b : β}
    (hm : Accepts View m w a) (hf : Accepts View (f a) v b) :
    Accepts View (m >>= f) (w ++ v) b := by
  intro s t hs
  rw [List.append_assoc] at hs
  obtain ⟨s₁,h₁,hv₁⟩ := hm s (v ++ t) hs
  obtain ⟨s₂,h₂,hv₂⟩ := hf s₁ t hv₁
  exact ⟨s₂,by rw [exec_bind_ok h₁,h₂],hv₂⟩

theorem Accepts.map {m : Scan σ ε α} {w : List τ} {a : α} (hm : Accepts View m w a) (g : α → β) :
    Accepts View (m >>= fun x => Pure.pure (g x)) w (g a) := by
  have h : Accepts View (m >>= fun x => Pure.pure (g x)) (w ++ []) (g a) :=
    hm.bind (Accepts.pure (g a))
  rwa [List.append_nil] at h

theorem Consumes.pure (a : α) :
    Consumes View (Pure.pure a : Scan σ ε α) (fun b w => b = a ∧ w = []) := by
  intro s l b s' hv h
  simp only [exec_pure,Prod.mk.injEq,Except.ok.injEq] at h
  obtain ⟨rfl,rfl⟩ := h
  exact ⟨[],l,rfl,hv,rfl,rfl⟩

theorem Consumes.bind {m : Scan σ ε α} {f : α → Scan σ ε β}
    {P : α → List τ → Prop} {Q : α → β → List τ → Prop}
    (hm : Consumes View m P) (hf : ∀ a, Consumes View (f a) (Q a)) :
    Consumes View (m >>= f) (fun b w => ∃ a w₁ w₂, w = w₁ ++ w₂ ∧ P a w₁ ∧ Q a b w₂) := by
  intro s l b s' hv h
  obtain ⟨a,t,ha,hb⟩ := exec_bind_eq_ok h
  obtain ⟨w₁,l₁,rfl,hv₁,hP⟩ := hm s l a t hv ha
  obtain ⟨w₂,l₂,rfl,hv₂,hQ⟩ := hf a t l₁ b s' hv₁ hb
  exact ⟨w₁ ++ w₂,l₂,(List.append_assoc ..).symm,hv₂,a,w₁,w₂,rfl,hP,hQ⟩

theorem Consumes.mono {m : Scan σ ε α} {P Q : α → List τ → Prop}
    (hm : Consumes View m P) (h : ∀ a w, P a w → Q a w) : Consumes View m Q := by
  intro s l a s' hv he
  obtain ⟨w,t,hl,hv',hP⟩ := hm s l a s' hv he
  exact ⟨w,t,hl,hv',h a w hP⟩

theorem Reads.pure {e₀ : ε} (a : α) :
    Reads View e₀ (Pure.pure a : Scan σ ε α) (fun b w => b = a ∧ w = []) where
  consumes := Consumes.pure a
  starves := by
    intro s l e s' _ h
    simp at h
  inhabited := ⟨a,[],rfl,rfl⟩

theorem proper_append {l w v : List τ} (h : l <+: w) (hne : l ≠ w) :
    l <+: w ++ v ∧ l ≠ w ++ v := by
  refine ⟨h.trans (List.prefix_append w v),?_⟩
  rintro rfl
  exact hne (h.eq_of_length_le (by simp))

theorem Reads.bind {e₀ : ε} {m : Scan σ ε α} {f : α → Scan σ ε β}
    {P : α → List τ → Prop} {Q : α → β → List τ → Prop}
    (hm : Reads View e₀ m P) (hf : ∀ a, Reads View e₀ (f a) (Q a)) :
    Reads View e₀ (m >>= f) (fun b w => ∃ a w₁ w₂, w = w₁ ++ w₂ ∧ P a w₁ ∧ Q a b w₂) where
  consumes := hm.consumes.bind fun a => (hf a).consumes
  starves := by
    intro s l e s' hv h
    rw [exec_bind] at h
    rcases he : exec m s with ⟨x,t⟩
    rw [he] at h
    cases x with
    | error e₁ =>
      simp only [Prod.mk.injEq,Except.error.injEq] at h
      obtain ⟨rfl,rfl⟩ := h
      obtain ⟨rfl,a,w₁,hP,hpre,hne⟩ := hm.starves s l e₁ t hv he
      obtain ⟨b,w₂,hQ⟩ := (hf a).inhabited
      obtain ⟨hpre',hne'⟩ := proper_append (v := w₂) hpre hne
      exact ⟨rfl,b,w₁ ++ w₂,⟨a,w₁,w₂,rfl,hP,hQ⟩,hpre',hne'⟩
    | ok a =>
      obtain ⟨w₁,l₁,rfl,hv₁,hP⟩ := hm.consumes s l a t hv he
      obtain ⟨rfl,b,w₂,hQ,hpre,hne⟩ := (hf a).starves t l₁ e s' hv₁ h
      refine ⟨rfl,b,w₁ ++ w₂,⟨a,w₁,w₂,rfl,hP,hQ⟩,?_,?_⟩
      · exact (List.prefix_append_right_inj w₁).mpr hpre
      · intro heq
        exact hne (List.append_cancel_left heq)
  inhabited := by
    obtain ⟨a,w₁,hP⟩ := hm.inhabited
    obtain ⟨b,w₂,hQ⟩ := (hf a).inhabited
    exact ⟨b,w₁ ++ w₂,a,w₁,w₂,rfl,hP,hQ⟩

theorem Reads.mono {e₀ : ε} {m : Scan σ ε α} {P Q : α → List τ → Prop}
    (hm : Reads View e₀ m P) (h : ∀ a w, P a w → Q a w) : Reads View e₀ m Q where
  consumes := hm.consumes.mono h
  starves := by
    intro s l e s' hv he
    obtain ⟨heq,a,w,hP,hpre⟩ := hm.starves s l e s' hv he
    exact ⟨heq,a,w,h a w hP,hpre⟩
  inhabited := by
    obtain ⟨a,w,hP⟩ := hm.inhabited
    exact ⟨a,w,h a w hP⟩

theorem Reads.map {e₀ : ε} {m : Scan σ ε α} {g : α → β} {P : α → List τ → Prop}
    {Q : β → List τ → Prop} (hm : Reads View e₀ m P) (h : ∀ a w, P a w → Q (g a) w) :
    Reads View e₀ (m >>= fun x => Pure.pure (g x)) Q := by
  apply (hm.bind fun a => Reads.pure (g a)).mono
  rintro b w ⟨a,w₁,w₂,rfl,hP,rfl,rfl⟩
  rw [List.append_nil]
  exact h a w₁ hP

end View

end Scanner
