import OrtTunnel.Core.Handshake.Agreement
import OrtTunnel.Net.StrictPin

namespace OrtTunnel.Net
open BigEndian Proto OrtTunnel.Core

namespace ClientState

inductive Advances (S : CipherSuite) (X : X509) (ccfg : ClientConfig S) (verifier : ServerVerifier)
    (force1rtt : Bool) (pin : Option Bytes) (i : ℕ) : Action → Task → Task → Prop where
  | unreachable {a : Action} : Advances S X ccfg verifier force1rtt pin i a .accepted .ended
  | reads {a : Action} : Advances S X ccfg verifier force1rtt pin i a .accepted (.opening pin)
  | opens {cached : Option Bytes} {net : ClientNet} {outcome : ClientOutcome}
    (h : clientOpen S X ccfg verifier net cached force1rtt [] = .ok outcome) :
    Advances S X ccfg verifier force1rtt pin i (.opens i net) (.opening cached)
      (.opened cached outcome)
  | fails {a : Action} {cached : Option Bytes} :
    Advances S X ccfg verifier force1rtt pin i a (.opening cached) .ended
  | forwards {a : Action} {cached : Option Bytes} {outcome : ClientOutcome} :
    Advances S X ccfg verifier force1rtt pin i a (.opened cached outcome) (.forwarding outcome)

section Runs
variable {S : CipherSuite} {X : X509} {ccfg : ClientConfig S} {verifier : ServerVerifier}
variable {force1rtt : Bool} {s : ClientState}

theorem task_step (a : Action) (i : ℕ) :
    (step S X ccfg verifier force1rtt s a).task i = s.task i ∨
      Advances S X ccfg verifier force1rtt s.pin i a (s.task i)
        ((step S X ccfg verifier force1rtt s a).task i) := by
  have hset : ∀ {j : ℕ} {t : Task} {pin : Option Bytes},
      Advances S X ccfg verifier force1rtt s.pin j a (s.task j) t →
      (set ⟨pin,s.task⟩ j t).task i = s.task i ∨
        Advances S X ccfg verifier force1rtt s.pin i a (s.task i)
          ((set ⟨pin,s.task⟩ j t).task i) := by
    intro j t pin hadv
    by_cases hj : i = j
    · subst hj
      exact .inr (by simpa [set] using hadv)
    · exact .inl (by simp [set,Function.update_of_ne hj])
  cases a with
  | connectFails j =>
    cases ht : s.task j with
    | accepted =>
      simp only [step,ht]
      exact hset (by rw [ht]; exact .unreachable)
    | _ => exact .inl (by simp only [step,ht])
  | readPin j =>
    cases ht : s.task j with
    | accepted =>
      simp only [step,ht]
      exact hset (by rw [ht]; exact .reads)
    | _ => exact .inl (by simp only [step,ht])
  | opens j net =>
    cases ht : s.task j with
    | opening cached =>
      cases ho : clientOpen S X ccfg verifier net cached force1rtt [] with
      | error e =>
        simp only [step,ht,ho]
        exact hset (by rw [ht]; exact .fails)
      | ok outcome =>
        simp only [step,ht,ho]
        exact hset (by rw [ht]; exact .opens ho)
    | _ => exact .inl (by simp only [step,ht])
  | locksPin j =>
    cases ht : s.task j with
    | opened cached outcome =>
      simp only [step,ht]
      exact hset (by rw [ht]; exact .forwards)
    | _ => exact .inl (by simp only [step,ht])

end Runs

section Pinned
variable (S : CipherSuite) (X : X509) (ccfg : ClientConfig S) (verifier : ServerVerifier)
variable (force1rtt : Bool)

-- The step of the run at which connection `i` itself called `client_open`, on the network `net`.
structure OpenedAt (actions : List Action) (i : ℕ) (cached : Option Bytes) (net : ClientNet)
    (outcome : ClientOutcome) : Prop where
  step : ∃ before, before ++ [.opens i net] <+: actions ∧
    (exec S X ccfg verifier force1rtt before).task i = .opening cached
  result : clientOpen S X ccfg verifier net cached force1rtt [] = .ok outcome

structure Resumed (pin : Bytes) (net : ClientNet) (outcome : ClientOutcome) : Prop where
  key : outcome.serverPk = pin
  uses : UsesKey S ccfg outcome
  zeroRtt : force1rtt = false → outcome.conn.incoming = net.incoming ∧
    outcome.expectAck = some (outcome.conn.record.encKeyHash S) ∧
    ∃ payload est, buildPayload S ccfg pin net.srcIp net.now [] net.r net.nonce =
        .ok (payload,est) ∧ outcome.conn.record = est.record ∧
      outcome.conn.outgoing =
        encodeFramed (Frame.clientHelloZeroRtt S.id.code ccfg.clientPk payload).encode
  oneRtt : force1rtt = true → outcome.expectAck = none ∧ ∃ certificate,
    readServerHello net.incoming = .ok (pin,certificate,outcome.conn.incoming) ∧
      verifier.verify X net.checkedAt pin certificate = .ok ()

def Late (actions : List Action) (i : ℕ) (pin : Bytes) : Task → Prop
  | .opening cached => cached = some pin
  | .opened _ outcome => ∃ net, OpenedAt S X ccfg verifier force1rtt actions i (some pin) net outcome
  | .forwarding outcome =>
    ∃ net, OpenedAt S X ccfg verifier force1rtt actions i (some pin) net outcome
  | _ => True

variable {S X ccfg verifier force1rtt} {pin : Bytes} {actions more : List Action} {i : ℕ}

theorem resumed_of_open {net : ClientNet} {outcome : ClientOutcome}
    (h : clientOpen S X ccfg verifier net (some pin) force1rtt [] = .ok outcome) :
    Resumed S X ccfg verifier force1rtt pin net outcome := by
  cases force1rtt with
  | false =>
    refine ⟨clientOpen_pinned h,openZeroRtt_uses h,?_,fun hf => (by cases hf)⟩
    intro _
    obtain ⟨frame,est,hsent,-,rfl⟩ := openZeroRtt_ok h
    obtain ⟨payload,hb,rfl⟩ := clientZeroRtt_ok hsent
    exact ⟨rfl,by rw [expectedEkHash_buildPayload hb],payload,est,hb,rfl,rfl⟩
  | true =>
    refine ⟨clientOpen_pinned h,openOneRtt_uses h,fun hf => (by cases hf),?_⟩
    intro _
    obtain ⟨serverPk,certificate,rest,frame,est,-,hread,hverify,hpin,-,-,rfl⟩ := openOneRtt_ok h
    obtain rfl : pin = serverPk := by simpa using hpin
    exact ⟨rfl,certificate,hread,hverify⟩

theorem OpenedAt.mono {cached : Option Bytes} {net : ClientNet} {outcome : ClientOutcome}
    (h : OpenedAt S X ccfg verifier force1rtt actions i cached net outcome)
    (hpre : actions <+: more) : OpenedAt S X ccfg verifier force1rtt more i cached net outcome := by
  obtain ⟨before,hb,ht⟩ := h.step
  exact ⟨⟨before,hb.trans hpre,ht⟩,h.result⟩

theorem Late.mono {t : Task} (h : Late S X ccfg verifier force1rtt actions i pin t)
    (hpre : actions <+: more) : Late S X ccfg verifier force1rtt more i pin t := by
  cases t with
  | accepted => trivial
  | opening cached => exact h
  | opened cached outcome =>
    obtain ⟨net,hnet⟩ := h
    exact ⟨net,hnet.mono hpre⟩
  | forwarding outcome =>
    obtain ⟨net,hnet⟩ := h
    exact ⟨net,hnet.mono hpre⟩
  | ended => trivial

theorem late_advances {a : Action} {t t' : Task}
    (ht : (exec S X ccfg verifier force1rtt actions).task i = t)
    (h : Late S X ccfg verifier force1rtt actions i pin t)
    (ha : Advances S X ccfg verifier force1rtt (some pin) i a t t') :
    Late S X ccfg verifier force1rtt (actions ++ [a]) i pin t' := by
  cases ha with
  | unreachable => trivial
  | reads => rfl
  | @opens cached net outcome ho =>
    obtain rfl : cached = some pin := h
    exact ⟨net,⟨actions, List.prefix_rfl,ht⟩,ho⟩
  | fails => trivial
  | forwards =>
    obtain ⟨net,hnet⟩ := h
    exact ⟨net,hnet.mono (List.prefix_append _ _)⟩

theorem late_exec {before : List Action}
    (hpin : (exec S X ccfg verifier force1rtt before).pin = some pin)
    (hnew : (exec S X ccfg verifier force1rtt before).task i = .accepted) (later : List Action) :
    Late S X ccfg verifier force1rtt (before ++ later) i pin
      ((exec S X ccfg verifier force1rtt (before ++ later)).task i) := by
  induction later using List.reverseRecOn with
  | nil =>
    rw [List.append_nil,hnew]
    trivial
  | append_singleton later a ih =>
    rw [← List.append_assoc,exec_snoc]
    rcases @task_step S X ccfg verifier force1rtt
      (exec S X ccfg verifier force1rtt (before ++ later)) a i with hsame | hadv
    · rw [hsame]
      exact ih.mono (List.prefix_append _ _)
    · rw [pin_exec hpin later] at hadv
      exact late_advances rfl ih hadv

end Pinned

end ClientState

open ClientState

theorem no_downgrade (S : CipherSuite) (X : X509) (ccfg : ClientConfig S)
    (verifier : ServerVerifier) (force1rtt : Bool) (before later : List Action) (pin : Bytes)
    (hpin : (exec S X ccfg verifier force1rtt before).pin = some pin) (i : ℕ)
    (hnew : (exec S X ccfg verifier force1rtt before).task i = .accepted) (outcome : ClientOutcome)
    (hout : (exec S X ccfg verifier force1rtt (before ++ later)).task i = .forwarding outcome) :
    ∃ net, OpenedAt S X ccfg verifier force1rtt (before ++ later) i (some pin) net outcome ∧
      Resumed S X ccfg verifier force1rtt pin net outcome := by
  have h := late_exec hpin hnew later
  rw [hout] at h
  obtain ⟨net,hnet⟩ := h
  exact ⟨net,hnet,resumed_of_open hnet.result⟩

def firstPin : List Action := [.readPin 0,.opens 0 (helloNet (fill 32 7).val),.locksPin 0]

def secondOpen (key : UInt8) : List Action :=
  [.readPin 1,.opens 1 (helloNet (fill 32 key).val),.locksPin 1]

def pinnedRun (force1rtt : Bool) (actions : List Action) : ClientState :=
  exec plainSuite noCerts (plainClient 1) .trustOnFirstUse force1rtt actions

theorem Task.forwarding_of_key {t : Task} (h : t.serverPk.isSome = true) :
    ∃ outcome, t = .forwarding outcome := by
  cases t with
  | forwarding outcome => exact ⟨outcome,rfl⟩
  | _ => cases h

theorem no_downgrade_second :
    (∃ outcome, (pinnedRun false (firstPin ++ secondOpen 8)).task 1 = .forwarding outcome ∧
      outcome.serverPk = (fill 32 7).val ∧ outcome.expectAck.isSome) ∧
    ∃ outcome net certificate, (pinnedRun true (firstPin ++ secondOpen 7)).task 1 =
        .forwarding outcome ∧ .opens 1 net ∈ firstPin ++ secondOpen 7 ∧ outcome.expectAck = none ∧
      readServerHello net.incoming = .ok ((fill 32 7).val,certificate,outcome.conn.incoming) := by
  have hpin : ∀ force1rtt, (pinnedRun force1rtt firstPin).pin = some (fill 32 7).val := by
    decide +kernel
  have hall := fun force1rtt later => no_downgrade plainSuite noCerts (plainClient 1) .trustOnFirstUse
    force1rtt firstPin later _ (hpin force1rtt) 1 (by cases force1rtt <;> rfl)
  have hzero : ((pinnedRun false (firstPin ++ secondOpen 8)).task 1).serverPk.isSome = true := by
    decide +kernel
  have hone : ((pinnedRun true (firstPin ++ secondOpen 7)).task 1).serverPk.isSome = true := by
    decide +kernel
  obtain ⟨outcome,hout⟩ := Task.forwarding_of_key hzero
  obtain ⟨outcome',hout'⟩ := Task.forwarding_of_key hone
  obtain ⟨_,-,hresumed⟩ := hall false (secondOpen 8) outcome hout
  obtain ⟨net,hopened,hverified⟩ := hall true (secondOpen 7) outcome' hout'
  obtain ⟨before,hbefore,-⟩ := hopened.step
  obtain ⟨hack,certificate,hread,-⟩ := hverified.oneRtt rfl
  exact ⟨⟨outcome,hout,hresumed.key,by rw [(hresumed.zeroRtt rfl).2.1]; rfl⟩,
    outcome',net,certificate,hout',hbefore.subset (by simp),hack,hread⟩

end OrtTunnel.Net
