import OrtTunnel.Net.Run

namespace OrtTunnel.Net
open BigEndian Proto OrtTunnel.Core

namespace ClientState

section Strict
variable (S : CipherSuite) (X : X509) (ccfg : ClientConfig S) (verifier : ServerVerifier)
variable (force1rtt : Bool)

-- Some connection of the run went through the 1-RTT branch, and there the verifier accepted `pk`
-- with the certificate that came in the same frame.
def Verified (actions : List Action) (pk : Bytes) : Prop :=
  ∃ before i net cached certificate rest, before ++ [.opens i net] <+: actions ∧
    (exec S X ccfg verifier force1rtt before).task i = .opening cached ∧
    (cached = none ∨ force1rtt = true) ∧
    readServerHello net.incoming = .ok (pk,certificate,rest) ∧
    verifier.verify X net.checkedAt pk certificate = .ok ()

def UsesKey (outcome : ClientOutcome) : Prop :=
  ∃ srcIp now r nonce payload est,
    buildPayload S ccfg outcome.serverPk srcIp now [] r nonce = .ok (payload,est) ∧
      outcome.conn.record = est.record

def Trusted (actions : List Action) : Task → Prop
  | .accepted => True
  | .opening cached => ∀ k, cached = some k → Verified S X ccfg verifier force1rtt actions k
  | .opened _ outcome =>
    Verified S X ccfg verifier force1rtt actions outcome.serverPk ∧ UsesKey S ccfg outcome
  | .forwarding outcome =>
    Verified S X ccfg verifier force1rtt actions outcome.serverPk ∧ UsesKey S ccfg outcome
  | .ended => True

structure StrictInv (actions : List Action) (s : ClientState) : Prop where
  pinned : ∀ k, s.pin = some k → Verified S X ccfg verifier force1rtt actions k
  tasks : ∀ i, Trusted S X ccfg verifier force1rtt actions (s.task i)

variable {S X ccfg verifier force1rtt}
variable {actions more : List Action} {s : ClientState}

theorem Verified.mono {pk : Bytes} (h : Verified S X ccfg verifier force1rtt actions pk)
    (hpre : actions <+: more) : Verified S X ccfg verifier force1rtt more pk := by
  obtain ⟨before,i,net,cached,certificate,rest,hb,hrest⟩ := h
  exact ⟨before,i,net,cached,certificate,rest,hb.trans hpre,hrest⟩

theorem Trusted.mono {t : Task} (h : Trusted S X ccfg verifier force1rtt actions t)
    (hpre : actions <+: more) : Trusted S X ccfg verifier force1rtt more t := by
  cases t with
  | accepted => trivial
  | opening cached => exact fun k hk => (h k hk).mono hpre
  | opened cached outcome => exact ⟨h.1.mono hpre,h.2⟩
  | forwarding outcome => exact ⟨h.1.mono hpre,h.2⟩
  | ended => trivial

theorem StrictInv.mono (h : StrictInv S X ccfg verifier force1rtt actions s)
    (hpre : actions <+: more) : StrictInv S X ccfg verifier force1rtt more s :=
  ⟨fun k hk => (h.pinned k hk).mono hpre,fun i => (h.tasks i).mono hpre⟩

theorem strictInv_set (h : StrictInv S X ccfg verifier force1rtt actions s) {i : ℕ} {t : Task}
    (ht : Trusted S X ccfg verifier force1rtt actions t) :
    StrictInv S X ccfg verifier force1rtt actions (s.set i t) :=
  ⟨h.pinned,task_set h.tasks ht i⟩

theorem openZeroRtt_uses {net : ClientNet} {spk : Bytes} {outcome : ClientOutcome}
    (h : openZeroRtt S ccfg net spk [] = .ok outcome) : UsesKey S ccfg outcome := by
  obtain ⟨frame,est,hsent,-,rfl⟩ := openZeroRtt_ok h
  obtain ⟨payload,hb,-⟩ := clientZeroRtt_ok hsent
  exact ⟨net.srcIp,net.now,net.r,net.nonce,payload,est,hb,rfl⟩

theorem openOneRtt_uses {net : ClientNet} {cached : Option Bytes} {outcome : ClientOutcome}
    (h : openOneRtt S X ccfg verifier net cached [] = .ok outcome) : UsesKey S ccfg outcome := by
  obtain ⟨serverPk,certificate,rest,frame,est,-,-,-,-,hsent,-,rfl⟩ := openOneRtt_ok h
  obtain ⟨payload,hb,-⟩ := clientOneRttFinish_ok hsent
  exact ⟨net.srcIp,net.now,net.r,net.nonce,payload,est,hb,rfl⟩

theorem trusted_opens {i : ℕ} {net : ClientNet} {cached : Option Bytes} {outcome : ClientOutcome}
    (ht : (exec S X ccfg verifier force1rtt actions).task i = .opening cached)
    (hcached : ∀ k, cached = some k → Verified S X ccfg verifier force1rtt actions k)
    (ho : clientOpen S X ccfg verifier net cached force1rtt [] = .ok outcome) :
    Verified S X ccfg verifier force1rtt (actions ++ [.opens i net]) outcome.serverPk ∧
      UsesKey S ccfg outcome := by
  have hone : (cached = none ∨ force1rtt = true) →
      openOneRtt S X ccfg verifier net cached [] = .ok outcome →
      Verified S X ccfg verifier force1rtt (actions ++ [.opens i net]) outcome.serverPk ∧
        UsesKey S ccfg outcome := by
    intro hmode h
    refine ⟨?_,openOneRtt_uses h⟩
    obtain ⟨serverPk,certificate,rest,frame,est,-,hread,hverify,-,-,-,rfl⟩ := openOneRtt_ok h
    exact ⟨actions,i,net,cached,certificate,rest, List.prefix_rfl,ht,hmode,hread,hverify⟩
  cases cached with
  | none => exact hone (Or.inl rfl) ho
  | some k =>
    cases hforce : force1rtt with
    | true =>
      subst hforce
      exact hone (Or.inr rfl) ho
    | false =>
      subst hforce
      refine ⟨?_,openZeroRtt_uses ho⟩
      rw [clientOpen_pinned ho]
      exact (hcached k rfl).mono (List.prefix_append _ _)

theorem strictInv_step
    (h : StrictInv S X ccfg verifier force1rtt actions (exec S X ccfg verifier force1rtt actions))
    (a : Action) :
    StrictInv S X ccfg verifier force1rtt (actions ++ [a])
      (step S X ccfg verifier force1rtt (exec S X ccfg verifier force1rtt actions) a) := by
  have hnext := h.mono (List.prefix_append actions [a])
  obtain hs | ⟨i,hs⟩ | ⟨i,hs⟩ | ⟨i,net,cached,outcome,rfl,ht,ho,hs⟩ |
    ⟨i,cached,outcome,rfl,ht,hs⟩ := @step_cases S X ccfg verifier force1rtt
      (exec S X ccfg verifier force1rtt actions) a
  · rw [hs]
    exact hnext
  · rw [hs]
    exact strictInv_set hnext trivial
  · rw [hs]
    exact strictInv_set hnext hnext.pinned
  · have hi := h.tasks i
    rw [ht] at hi
    rw [hs]
    exact strictInv_set hnext (trusted_opens ht hi ho)
  · have hi := hnext.tasks i
    rw [ht] at hi
    have hset := strictInv_set hnext (i := i) (t := .forwarding outcome) hi
    rw [hs]
    refine ⟨?_,hset.tasks⟩
    intro k hk
    cases hp : (exec S X ccfg verifier force1rtt actions).pin with
    | none =>
      simp only [set,hp,Option.isNone_none,if_true,Option.some.injEq] at hk
      exact hk ▸ hi.1
    | some pin =>
      simp only [set,hp,Option.isNone_some] at hk
      exact hnext.pinned k (hp.trans hk)

theorem strictInv_exec (actions : List Action) :
    StrictInv S X ccfg verifier force1rtt actions (exec S X ccfg verifier force1rtt actions) := by
  induction actions using List.reverseRecOn with
  | nil => exact ⟨fun _ hk => (by cases hk),fun _ => trivial⟩
  | append_singleton actions a ih =>
    rw [exec_snoc]
    exact strictInv_step ih a

theorem pin_step {pin : Bytes} (h : s.pin = some pin) (a : Action) :
    (step S X ccfg verifier force1rtt s a).pin = some pin := by
  obtain hs | ⟨i,hs⟩ | ⟨i,hs⟩ | ⟨i,net,cached,outcome,rfl,ht,ho,hs⟩ |
    ⟨i,cached,outcome,rfl,ht,hs⟩ := @step_cases S X ccfg verifier force1rtt s a
  · rw [hs,h]
  · rw [hs,set,h]
  · rw [hs,set,h]
  · rw [hs,set,h]
  · simp [hs,set,h]

theorem pin_exec {pin : Bytes} (h : (exec S X ccfg verifier force1rtt actions).pin = some pin)
    (later : List Action) :
    (exec S X ccfg verifier force1rtt (actions ++ later)).pin = some pin := by
  induction later using List.reverseRecOn with
  | nil => simpa using h
  | append_singleton later a ih =>
    rw [← List.append_assoc,exec_snoc]
    exact pin_step ih a

end Strict

end ClientState

open ClientState

theorem strict_never_bypassed (S : CipherSuite) (X : X509) (ccfg : ClientConfig S)
    (ca : Option Bytes) (force1rtt : Bool) (actions : List Action) :
    (∀ i outcome, (exec S X ccfg (.strict ca) force1rtt actions).task i = .forwarding outcome →
      UsesKey S ccfg outcome ∧
        Verified S X ccfg (.strict ca) force1rtt actions outcome.serverPk) ∧
    ∀ pin, (exec S X ccfg (.strict ca) force1rtt actions).pin = some pin →
      Verified S X ccfg (.strict ca) force1rtt actions pin ∧
      ∀ later, (exec S X ccfg (.strict ca) force1rtt (actions ++ later)).pin = some pin := by
  have h := @strictInv_exec S X ccfg (.strict ca) force1rtt actions
  constructor
  · intro i outcome ht
    have hi := h.tasks i
    rw [ht] at hi
    exact ⟨hi.2,hi.1⟩
  · intro pin hp
    exact ⟨h.pinned pin hp,pin_exec hp⟩

end OrtTunnel.Net
