import OrtTunnel.Core.PlainSuite
import OrtTunnel.Net.Session

namespace OrtTunnel.Net
open BigEndian Proto OrtTunnel.Core

inductive Task where
  | accepted
  | opening (cached : Option Bytes)
  | opened (cached : Option Bytes) (outcome : ClientOutcome)
  | forwarding (outcome : ClientOutcome)
  | ended

structure ClientState where
  pin : Option Bytes
  task : ℕ → Task

inductive Action where
  | connectFails (i : ℕ)
  | readPin (i : ℕ)
  | opens (i : ℕ) (net : ClientNet)
  | locksPin (i : ℕ)

namespace ClientState

def start : ClientState := ⟨none,fun _ => .accepted⟩

def set (s : ClientState) (i : ℕ) (t : Task) : ClientState :=
  ⟨s.pin,Function.update s.task i t⟩

section Step
variable (S : CipherSuite) (X : X509) (ccfg : ClientConfig S) (verifier : ServerVerifier)
variable (force1rtt : Bool)

def step (s : ClientState) : Action → ClientState
  | .connectFails i =>
    match s.task i with
    | .accepted => s.set i .ended
    | _ => s
  | .readPin i =>
    match s.task i with
    | .accepted => s.set i (.opening s.pin)
    | _ => s
  | .opens i net =>
    match s.task i with
    | .opening cached =>
      match clientOpen S X ccfg verifier net cached force1rtt [] with
      | .ok outcome => s.set i (.opened cached outcome)
      | .error _ => s.set i .ended
    | _ => s
  | .locksPin i =>
    match s.task i with
    | .opened _ outcome =>
      ⟨if s.pin.isNone then some outcome.serverPk else s.pin,
        Function.update s.task i (.forwarding outcome)⟩
    | _ => s

def exec (actions : List Action) : ClientState :=
  actions.foldl (step S X ccfg verifier force1rtt) start

end Step

def Pinned (s : ClientState) : Prop :=
  ∀ i outcome, s.task i = .forwarding outcome → s.pin = some outcome.serverPk

def Raced (s : ClientState) (i : ℕ) : Prop :=
  ∃ outcome pin, s.task i = .opened none outcome ∧ s.pin = some pin ∧ pin ≠ outcome.serverPk

def TaskOk (pin : Option Bytes) : Task → Prop
  | .accepted => True
  | .opening cached => ∀ k, cached = some k → pin = some k
  | .opened cached outcome => ∀ k, cached = some k → pin = some k ∧ outcome.serverPk = k
  | .forwarding outcome => pin = some outcome.serverPk
  | .ended => True

def Inv (s : ClientState) : Prop := ∀ i, TaskOk s.pin (s.task i)

theorem inv_start : Inv start := fun _ => trivial

theorem Inv.pinned {s : ClientState} (h : Inv s) : Pinned s := by
  intro i outcome ht
  have hi := h i
  rw [ht] at hi
  exact hi

theorem task_set {P : Task → Prop} {s : ClientState} (h : ∀ j, P (s.task j)) {t : Task} (ht : P t)
    (i j : ℕ) : P ((s.set i t).task j) := by
  by_cases hj : j = i
  · subst hj
    simpa [set] using ht
  · simpa [set,Function.update_of_ne hj] using h j

theorem inv_set {s : ClientState} (h : Inv s) {i : ℕ} {t : Task} (ht : TaskOk s.pin t) :
    Inv (s.set i t) :=
  task_set h ht i

-- A first pin disturbs nobody: whoever holds a key has read it from a pin that was set.
theorem taskOk_first {k : Bytes} {t : Task} (h : TaskOk none t) : TaskOk (some k) t := by
  cases t with
  | accepted => trivial
  | opening cached =>
    intro l hl
    cases h l hl
  | opened cached outcome =>
    intro l hl
    cases (h l hl).1
  | forwarding outcome => cases h
  | ended => trivial

section Runs
variable {S : CipherSuite} {X : X509} {ccfg : ClientConfig S} {verifier : ServerVerifier}
variable {force1rtt : Bool}

theorem step_cases (s : ClientState) (a : Action) :
    step S X ccfg verifier force1rtt s a = s ∨
    (∃ i, step S X ccfg verifier force1rtt s a = s.set i .ended) ∨
    (∃ i, step S X ccfg verifier force1rtt s a = s.set i (.opening s.pin)) ∨
    (∃ i net cached outcome, a = .opens i net ∧ s.task i = .opening cached ∧
      clientOpen S X ccfg verifier net cached force1rtt [] = .ok outcome ∧
      step S X ccfg verifier force1rtt s a = s.set i (.opened cached outcome)) ∨
    ∃ i cached outcome, a = .locksPin i ∧ s.task i = .opened cached outcome ∧
      step S X ccfg verifier force1rtt s a =
        set ⟨if s.pin.isNone then some outcome.serverPk else s.pin,s.task⟩ i
          (.forwarding outcome) := by
  cases a with
  | connectFails i =>
    cases ht : s.task i with
    | accepted => exact Or.inr (Or.inl ⟨i,by simp only [step,ht]⟩)
    | _ => exact Or.inl (by simp only [step,ht])
  | readPin i =>
    cases ht : s.task i with
    | accepted => exact Or.inr (Or.inr (Or.inl ⟨i,by simp only [step,ht]⟩))
    | _ => exact Or.inl (by simp only [step,ht])
  | opens i net =>
    cases ht : s.task i with
    | opening cached =>
      cases ho : clientOpen S X ccfg verifier net cached force1rtt [] with
      | error e => exact Or.inr (Or.inl ⟨i,by simp only [step,ht,ho]⟩)
      | ok outcome =>
        exact Or.inr (Or.inr (Or.inr (Or.inl ⟨i,net,cached,outcome,rfl,ht,ho,by
          simp only [step,ht,ho]⟩)))
    | _ => exact Or.inl (by simp only [step,ht])
  | locksPin i =>
    cases ht : s.task i with
    | opened cached outcome =>
      exact Or.inr (Or.inr (Or.inr (Or.inr ⟨i,cached,outcome,rfl,ht,by simp only [step,ht,set]⟩)))
    | _ => exact Or.inl (by simp only [step,ht])

theorem inv_locksPin {s : ClientState} (h : Inv s) {i : ℕ} {cached : Option Bytes}
    {outcome : ClientOutcome} (ht : s.task i = .opened cached outcome) (hrace : ¬ Raced s i) :
    Inv (set ⟨if s.pin.isNone then some outcome.serverPk else s.pin,s.task⟩ i
      (.forwarding outcome)) := by
  have hi := h i
  rw [ht] at hi
  cases hp : s.pin with
  | none =>
    have hall : Inv ⟨some outcome.serverPk,s.task⟩ := fun j => by
      have hj := h j
      rw [hp] at hj
      exact taskOk_first hj
    exact inv_set hall rfl
  | some pin =>
    have hkey : pin = outcome.serverPk := by
      cases cached with
      | none =>
        by_contra hne
        exact hrace ⟨outcome,pin,ht,hp,hne⟩
      | some k =>
        obtain ⟨hk,hok⟩ := hi k rfl
        rw [hp,Option.some.injEq] at hk
        rw [hk,hok]
    have hset := inv_set h (i := i) (t := .forwarding outcome) (by rw [hp,hkey]; rfl)
    rw [set,hp] at hset
    exact hset

theorem inv_step {s : ClientState} (h : Inv s) (a : Action)
    (hrace : ∀ i, a = .locksPin i → ¬ Raced s i) :
    Inv (step S X ccfg verifier force1rtt s a) := by
  obtain hs | ⟨i,hs⟩ | ⟨i,hs⟩ | ⟨i,net,cached,outcome,rfl,ht,ho,hs⟩ |
    ⟨i,cached,outcome,rfl,ht,hs⟩ := @step_cases S X ccfg verifier force1rtt s a
  · rw [hs]
    exact h
  · rw [hs]
    exact inv_set h trivial
  · rw [hs]
    exact inv_set h fun k hk => hk
  · have hi := h i
    rw [ht] at hi
    rw [hs]
    refine inv_set h ?_
    rintro k rfl
    exact ⟨hi k rfl,clientOpen_pinned ho⟩
  · rw [hs]
    exact inv_locksPin h ht (hrace i rfl)

theorem exec_snoc (before : List Action) (a : Action) :
    exec S X ccfg verifier force1rtt (before ++ [a]) =
      step S X ccfg verifier force1rtt (exec S X ccfg verifier force1rtt before) a := by
  simp [exec]

theorem raced_unpinned {s : ClientState} {i : ℕ} (h : Raced s i) :
    ¬ Pinned (step S X ccfg verifier force1rtt s (.locksPin i)) := by
  obtain ⟨outcome,pin,ht,hp,hne⟩ := h
  intro hpinned
  have hi := hpinned i outcome (by simp [step,ht])
  simp only [step,ht,hp,Option.isNone_some] at hi
  exact hne (Option.some.inj hi)

end Runs

end ClientState

open ClientState

theorem tofu_pinned_iff (S : CipherSuite) (X : X509) (ccfg : ClientConfig S) (force1rtt : Bool)
    (actions : List Action) :
    (∀ before, before <+: actions → Pinned (exec S X ccfg .trustOnFirstUse force1rtt before)) ↔
      ∀ before i, before ++ [.locksPin i] <+: actions →
        ¬ Raced (exec S X ccfg .trustOnFirstUse force1rtt before) i := by
  constructor
  · intro h before i hpre hraced
    have hp := h _ hpre
    rw [exec_snoc] at hp
    exact raced_unpinned hraced hp
  · intro h before hpre
    suffices hinv : Inv (exec S X ccfg .trustOnFirstUse force1rtt before) from hinv.pinned
    induction before using List.reverseRecOn with
    | nil => exact inv_start
    | append_singleton before a ih =>
      rw [exec_snoc]
      refine inv_step (ih ((List.prefix_append _ _).trans hpre)) a ?_
      rintro i rfl
      exact h before i hpre

def noCerts : X509 := ⟨Unit,Unit,fun _ => .error "none",fun _ _ => false,fun _ => (),
  fun _ _ => .error "none",fun _ => []⟩

def helloNet (serverPk : Bytes) : ClientNet :=
  ⟨encodeFramed (Frame.serverHello 1 serverPk [] 0).encode,.ok (),.ok (),0,fill 16 9,1000,fill 32 3,
    fill 32 3⟩

def racingTasks : List Action :=
  [.readPin 0,.readPin 1,.opens 0 (helloNet (fill 32 7).val),.opens 1 (helloNet (fill 32 8).val),
    .locksPin 0,.locksPin 1]

def Task.serverPk : Task → Option Bytes
  | .forwarding outcome => some outcome.serverPk
  | _ => none

theorem racing_tasks_forward_two_keys :
    ¬ Pinned (exec plainSuite noCerts ⟨fill 32 1,(fill 32 1).val⟩ .trustOnFirstUse false
      racingTasks) := by
  have hpin : (exec plainSuite noCerts ⟨fill 32 1,(fill 32 1).val⟩ .trustOnFirstUse false
      racingTasks).pin = some (fill 32 7).val := by decide +kernel
  have hkey : ((exec plainSuite noCerts ⟨fill 32 1,(fill 32 1).val⟩ .trustOnFirstUse false
      racingTasks).task 1).serverPk = some (fill 32 8).val := by decide +kernel
  intro h
  cases ht : (exec plainSuite noCerts ⟨fill 32 1,(fill 32 1).val⟩ .trustOnFirstUse false
      racingTasks).task 1 with
  | forwarding outcome =>
    rw [ht,Task.serverPk] at hkey
    have hp := h 1 outcome ht
    rw [hpin,hkey] at hp
    exact absurd hp (by decide)
  | _ =>
    rw [ht] at hkey
    cases hkey

end OrtTunnel.Net
