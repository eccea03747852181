import Mathlib.Data.List.ReduceOption
import OrtTunnel.Core.Duplex

namespace OrtTunnel.Core
open BigEndian

section InFlight
variable (S : CipherSuite)

-- The sender's pool is the receiver's pool after sealing the records still on their way.
structure InFlight (s : Duplex) (d : Direction) (pts cts : List Bytes) : Prop where
  keys : s.encKey d.flip = s.encKey d
  path : Machine.run (DirPool.sealOne S (s.encKey d) d) (s.rx d) pts = (cts,s.tx d)

variable {S} {s : Duplex} {d : Direction} {pts cts : List Bytes}

theorem inFlight_start (r : RecordLayer) (d : Direction) : InFlight S ⟨r,r⟩ d [] [] := by
  refine ⟨?_,?_⟩
  · cases d <;> rfl
  · cases d <;> rfl

theorem inFlight_seals (h : InFlight S s d pts cts) (pt : Bytes) :
    InFlight S (Duplex.step S s (.seals d pt)).2 d (pts ++ [pt])
      (cts ++ [((s.sender d).seal S d pt).1]) := by
  refine ⟨by rw [Duplex.encKey_step,Duplex.encKey_step,h.keys],?_⟩
  rw [Duplex.encKey_step,Duplex.rx_seals,Machine.run_snoc,h.path,Duplex.tx_seals,RecordLayer.seal_eq]
  rfl

theorem inFlight_opens (hs : S.AeadLaws) {ct : Bytes} (h : InFlight S s d pts (ct :: cts)) :
    ∃ pt pts', pts = pt :: pts' ∧ ((s.receiver d).open S d ct).1 = .ok pt ∧
      InFlight S (Duplex.step S s (.opens d ct)).2 d pts' cts := by
  have hpath := h.path
  cases pts with
  | nil => simp [Machine.run] at hpath
  | cons pt pts' =>
    simp only [Machine.run,Prod.mk.injEq,List.cons.injEq] at hpath
    obtain ⟨⟨hct,hcts⟩,htx⟩ := hpath
    have hopen := DirPool.openOne_sealOne S (s.encKey d) d hs (s.rx d) pt
    rw [hct] at hopen
    refine ⟨pt,pts',rfl,?_,?_,?_⟩
    · rw [RecordLayer.open_eq]
      change ((s.rx d).openOne S (s.encKey d.flip) d ct).1 = .ok pt
      rw [h.keys,hopen]
    · rw [Duplex.encKey_step,Duplex.encKey_step,h.keys]
    · rw [Duplex.encKey_step,Duplex.rx_opens,Duplex.tx_opens,h.keys,hopen]
      exact Prod.ext hcts htx

theorem inFlight_flip_seals (h : InFlight S s d pts cts) (pt : Bytes) :
    InFlight S (Duplex.step S s (.seals d.flip pt)).2 d pts cts := by
  refine ⟨by rw [Duplex.encKey_step,Duplex.encKey_step,h.keys],?_⟩
  rw [Duplex.encKey_step,Duplex.rx_flip_seals,Duplex.tx_flip_seals]
  exact h.path

theorem inFlight_flip_opens (h : InFlight S s d pts cts) (ct : Bytes) :
    InFlight S (Duplex.step S s (.opens d.flip ct)).2 d pts cts := by
  refine ⟨by rw [Duplex.encKey_step,Duplex.encKey_step,h.keys],?_⟩
  rw [Duplex.encKey_step,Duplex.rx_flip_opens,Duplex.tx_flip_opens]
  exact h.path

end InFlight

structure Link where
  peers : Duplex
  queue : Direction → List Bytes

inductive Move where
  | sends (d : Direction) (pt : Bytes)
  | delivers (d : Direction)

namespace Link

def start (client server : RecordLayer) : Link := ⟨⟨client,server⟩,fun _ => []⟩

def step (S : CipherSuite) (l : Link) : Move → Option Observation × Link
  | .sends d pt =>
    let (o,peers) := Duplex.step S l.peers (.seals d pt)
    (some o,⟨peers,Function.update l.queue d (l.queue d ++ [((l.peers.sender d).seal S d pt).1])⟩)
  | .delivers d =>
    match l.queue d with
    | [] => (none,l)
    | ct :: cts =>
      let (o,peers) := Duplex.step S l.peers (.opens d ct)
      (some o,⟨peers,Function.update l.queue d cts⟩)

def observe (S : CipherSuite) (l : Link) (moves : List Move) : List Observation :=
  (Machine.run (step S) l moves).1.reduceOption

end Link

def RecordsOpen (S : CipherSuite) (client server : RecordLayer) : Prop :=
  ∀ moves d, ∃ opened waiting,
    sealedIn d ((Link.start client server).observe S moves) = opened ++ waiting ∧
      resultsIn d ((Link.start client server).observe S moves) = opened.map .ok ∧
      ((Machine.run (Link.step S) (Link.start client server) moves).2.queue d).length =
        waiting.length

structure LinkInv (S : CipherSuite) (os : List (Option Observation)) (l : Link) (d : Direction)
    (opened waiting : List Bytes) : Prop where
  inFlight : InFlight S l.peers d waiting (l.queue d)
  sealed : sealedIn d os.reduceOption = opened ++ waiting
  results : resultsIn d os.reduceOption = opened.map .ok

section Link
variable {S : CipherSuite} {os : List (Option Observation)} {l : Link} {d : Direction}
variable {opened waiting : List Bytes}

theorem linkInv_sends (h : LinkInv S os l d opened waiting) (pt : Bytes) :
    LinkInv S (os ++ [(Link.step S l (.sends d pt)).1]) (Link.step S l (.sends d pt)).2 d opened
      (waiting ++ [pt]) := by
  refine ⟨?_,?_,?_⟩
  · simpa [Link.step] using inFlight_seals h.inFlight pt
  · have hs := h.sealed
    simp only [sealedIn] at hs ⊢
    simp [Link.step,Duplex.step,List.reduceOption_append,hs]
  · have hr := h.results
    simp only [resultsIn] at hr ⊢
    simp [Link.step,Duplex.step,List.reduceOption_append,hr]

theorem linkInv_flip_sends (h : LinkInv S os l d opened waiting) (pt : Bytes) :
    LinkInv S (os ++ [(Link.step S l (.sends d.flip pt)).1]) (Link.step S l (.sends d.flip pt)).2 d
      opened waiting := by
  have hne := (Direction.flip_ne d).symm
  refine ⟨?_,?_,?_⟩
  · simpa [Link.step,Function.update_of_ne hne] using inFlight_flip_seals h.inFlight pt
  · have hs := h.sealed
    simp only [sealedIn] at hs ⊢
    simp [Link.step,Duplex.step,List.reduceOption_append,hs,hne.symm]
  · have hr := h.results
    simp only [resultsIn] at hr ⊢
    simp [Link.step,Duplex.step,List.reduceOption_append,hr]

theorem linkInv_idle {m : Move} (h : LinkInv S os l d opened waiting)
    (he : Link.step S l m = (none,l)) :
    LinkInv S (os ++ [(Link.step S l m).1]) (Link.step S l m).2 d opened waiting := by
  rw [he]
  exact ⟨h.inFlight,by simpa [List.reduceOption_append] using h.sealed,
    by simpa [List.reduceOption_append] using h.results⟩

theorem linkInv_delivers (hs : S.AeadLaws) (h : LinkInv S os l d opened waiting) :
    ∃ opened' waiting', LinkInv S (os ++ [(Link.step S l (.delivers d)).1])
      (Link.step S l (.delivers d)).2 d opened' waiting' := by
  cases hq : l.queue d with
  | nil => exact ⟨opened,waiting,linkInv_idle h (by simp [Link.step,hq])⟩
  | cons ct cts =>
    have hfly := h.inFlight
    rw [hq] at hfly
    obtain ⟨pt,waiting',rfl,hopen,hfly'⟩ := inFlight_opens hs hfly
    refine ⟨opened ++ [pt],waiting',?_,?_,?_⟩
    · simpa [Link.step,hq] using hfly'
    · have hsealed := h.sealed
      simp only [sealedIn] at hsealed ⊢
      simp [Link.step,hq,Duplex.step,List.reduceOption_append,hsealed]
    · have hr := h.results
      simp only [resultsIn] at hr ⊢
      simp [Link.step,hq,Duplex.step,List.reduceOption_append,hr,hopen]

theorem linkInv_flip_delivers (h : LinkInv S os l d opened waiting) :
    LinkInv S (os ++ [(Link.step S l (.delivers d.flip)).1]) (Link.step S l (.delivers d.flip)).2 d
      opened waiting := by
  have hne := (Direction.flip_ne d).symm
  cases hq : l.queue d.flip with
  | nil => exact linkInv_idle h (by simp [Link.step,hq])
  | cons ct cts =>
    refine ⟨?_,?_,?_⟩
    · simpa [Link.step,hq,Function.update_of_ne hne] using inFlight_flip_opens h.inFlight ct
    · have hs := h.sealed
      simp only [sealedIn] at hs ⊢
      simp [Link.step,hq,Duplex.step,List.reduceOption_append,hs]
    · have hr := h.results
      simp only [resultsIn] at hr ⊢
      simp [Link.step,hq,Duplex.step,List.reduceOption_append,hr,hne.symm]

theorem linkInv_step (hs : S.AeadLaws) (m : Move) (h : LinkInv S os l d opened waiting) :
    ∃ opened' waiting', LinkInv S (os ++ [(Link.step S l m).1]) (Link.step S l m).2 d opened'
      waiting' := by
  cases m with
  | sends f pt =>
    rcases Direction.eq_or_flip d f with rfl | rfl
    · exact ⟨_,_,linkInv_sends h pt⟩
    · exact ⟨_,_,linkInv_flip_sends h pt⟩
  | delivers f =>
    rcases Direction.eq_or_flip d f with rfl | rfl
    · exact linkInv_delivers hs h
    · exact ⟨_,_,linkInv_flip_delivers h⟩

end Link

theorem records_open (S : CipherSuite) (hs : S.AeadLaws) (r : RecordLayer) : RecordsOpen S r r := by
  intro moves d
  have hrun := Machine.run_induction (Link.step S)
    (P := fun _ os l => ∃ opened waiting, LinkInv S os l d opened waiting)
    (s := Link.start r r) ⟨[],[],inFlight_start r d,rfl,rfl⟩
    (fun _ os l m ⟨_,_,h⟩ => linkInv_step hs m h) moves
  obtain ⟨opened,waiting,h⟩ := hrun
  refine ⟨opened,waiting,h.sealed,h.results,?_⟩
  have hlen := Machine.length_run (DirPool.sealOne S
    ((Machine.run (Link.step S) (Link.start r r) moves).2.peers.encKey d) d)
    ((Machine.run (Link.step S) (Link.start r r) moves).2.peers.rx d) waiting
  rw [h.inFlight.path] at hlen
  exact hlen

end OrtTunnel.Core
