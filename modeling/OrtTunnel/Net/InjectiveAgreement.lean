import OrtTunnel.Core.Handshake.Authentication
import OrtTunnel.Core.Handshake.Bounds
import OrtTunnel.Net.Daemon

namespace OrtTunnel.Net
open BigEndian Proto OrtTunnel.Core

structure Agrees (S : CipherSuite) (scfg : ServerConfig S) (ccfg : ClientConfig S) (p : Peer)
    (s : Session) (out : ServerOutcome) (b : Build) : Prop where
  address : b.srcIp = ipToBytes p.ip
  timely : checkWindow s.call.now b.now scfg.windowMs scfg.skewMs = .ok ()
  ends : ∃ payload client, b.run S ccfg = .ok (payload,client) ∧
    SameFlight s.flight.payload payload ∧
    (b.serverPk = scfg.serverPk → out.conn.record = client.record ∧ out.earlyData = b.earlyData)

section Origin
variable {S : CipherSuite} {scfg : ServerConfig S} {ccfg : ClientConfig S} {builds : List Build}

theorem record_of_build (hk : S.KemLaws) (ha : S.AeadLaws) {b : Build} {p q : KemPayload}
    {client : ClientEstablished} {est : ServerEstablished} (hb : b.run S ccfg = .ok (q,client))
    (hkey : b.serverPk = S.kemPublic scfg.kemSecret) (hsame : SameFlight p q)
    (he : establish S scfg p = .ok est) : est = ⟨client.record,b.earlyData⟩ := by
  rw [Build.run,hkey] at hb
  rw [establish_congr hsame,establish_buildPayload hk ha hb] at he
  exact (Except.ok.inj he).symm

theorem run_fields {b : Build} {payload : KemPayload} {client : ClientEstablished}
    (h : b.run S ccfg = .ok (payload,client)) :
    payload.srcIp = b.srcIp ∧ payload.tsMillis = b.now := by
  obtain ⟨ct,shared,-,rfl,-⟩ := buildPayload_ok h
  exact ⟨rfl,rfl⟩

theorem HashInjective.mono {ps qs : List KemPayload} (h : HashInjective S qs) (hsub : ps ⊆ qs) :
    HashInjective S ps := by
  intro x hx y hy
  obtain ⟨p,hp,hxp⟩ := List.mem_flatMap.mp hx
  obtain ⟨q,hq,hyq⟩ := List.mem_flatMap.mp hy
  exact h x (List.mem_flatMap.mpr ⟨p,hsub hp,hxp⟩) y (List.mem_flatMap.mpr ⟨q,hsub hq,hyq⟩)

theorem vouched_origin {flights : List Flight} (hsig : OnlySigned S ccfg builds flights)
    {s : Session} (hv : Vouched S scfg s) (hflight : s.flight ∈ flights)
    (hclient : s.flight.clientPk = ccfg.clientPk)
    (hinj : HashInjective S (s.flight.payload :: sent S ccfg builds)) :
    ∃ b ∈ builds, ∃ payload client, b.run S ccfg = .ok (payload,client) ∧
      SameFlight s.flight.payload payload ∧ b.srcIp = s.call.peerIp ∧
      checkWindow s.call.now b.now scfg.windowMs scfg.skewMs = .ok () := by
  obtain ⟨hip,hwindow,hverify⟩ := (precheck_ok_iff S scfg _ _ _ _).mp hv.admitted
  obtain ⟨payload,hsent,hsame⟩ := sameFlight_of_signed hsig hflight hclient hinj hverify
  obtain ⟨b,hb,client,hrun⟩ := build_of_sent hsent
  obtain ⟨hsrc,hts⟩ := run_fields hrun
  refine ⟨b,hb,payload,client,hrun,hsame,?_,?_⟩
  · rw [← hsrc,← hsame.srcIp,hip]
  · rw [← hts,← hsame.tsMillis]
    exact hwindow

end Origin

def ownConnections (log : List (ℕ × Outcome)) (clientPk : Bytes) : Set ℕ :=
  { i | ∃ s, (i,s) ∈ sessionsBy log ∧ s.flight.clientPk = clientPk }

section Tasks
variable {S : CipherSuite} {scfg : ServerConfig S} {ccfg : ClientConfig S} {builds : List Build}
variable {peer : ℕ → Peer} {actions : List ServerAction}

variable (S scfg peer) in
def submitted (actions : List ServerAction) : List Flight :=
  (lockCalls S scfg peer actions).filterMap Call.flight

theorem session_unique {log : List (ℕ × Outcome)} (h : ((sessionsBy log).map Prod.fst).Nodup)
    {i : ℕ} {s r : Session} (hs : (i,s) ∈ sessionsBy log) (hr : (i,r) ∈ sessionsBy log) : s = r :=
  congrArg Prod.snd (List.inj_on_of_nodup_map h hs hr rfl)

theorem established_lockCalls :
    established S scfg (lockCalls S scfg peer actions) =
      (sessionsBy (lockLog S scfg peer actions)).map Prod.snd := by
  rw [established,lockCalls,(@daemonInv_run S scfg peer actions).serial]
  exact sessions_eq _

theorem mem_established {i : ℕ} {s : Session}
    (h : (i,s) ∈ sessionsBy (lockLog S scfg peer actions)) :
    s ∈ established S scfg (lockCalls S scfg peer actions) := by
  rw [established_lockCalls]
  exact List.mem_map.mpr ⟨_,h,rfl⟩

theorem mem_submitted (hclock : ClockOk (lockCalls S scfg peer actions)) {s : Session}
    (h : s ∈ established S scfg (lockCalls S scfg peer actions)) :
    s.flight ∈ submitted S scfg peer actions := by
  have hinv := runInv_serve S scfg hclock
  exact List.mem_filterMap.mpr
    ⟨s.call,hinv.ordered.subset (List.mem_map.mpr ⟨s,h,rfl⟩),(hinv.vouched s h).flight⟩

theorem agrees_of_origin (hk : S.KemLaws) (ha : S.AeadLaws)
    (hserver : scfg.serverPk = S.kemPublic scfg.kemSecret) {i : ℕ} {s : Session}
    {out : ServerOutcome} (hv : Vouched S scfg s)
    (hs : (i,s) ∈ sessionsBy (lockLog S scfg peer actions))
    (hout : (Daemon.run S scfg peer actions).2.task i = .forwarding out) {b : Build}
    {payload : KemPayload} {client : ClientEstablished} (hrun : b.run S ccfg = .ok (payload,client))
    (hsame : SameFlight s.flight.payload payload) (hip : b.srcIp = s.call.peerIp)
    (hwindow : checkWindow s.call.now b.now scfg.windowMs scfg.skewMs = .ok ()) :
    Agrees S scfg ccfg (peer i) s out b := by
  have hinv := @daemonInv_run S scfg peer actions
  have htask := hinv.tasks i
  rw [hout] at htask
  obtain ⟨r,hr,hest,hpeer⟩ := htask
  obtain rfl := session_unique hinv.once hs hr
  refine ⟨hip.trans hpeer,hwindow,payload,client,hrun,hsame,?_⟩
  intro hkey
  have hboth := record_of_build hk ha hrun (hkey.trans hserver) hsame hv.opened
  rw [hest] at hboth
  exact ServerEstablished.mk.inj hboth

-- `b` is the client call behind the session that connection `i` was served, if it was served one
-- for this client.
def OriginOf (S : CipherSuite) (scfg : ServerConfig S) (ccfg : ClientConfig S) (builds : List Build)
    (log : List (ℕ × Outcome)) (i : ℕ) (b : Build) : Prop :=
  ∀ s, (i,s) ∈ sessionsBy log → s.flight.clientPk = ccfg.clientPk →
    b ∈ builds ∧ ∃ payload client, b.run S ccfg = .ok (payload,client) ∧
      SameFlight s.flight.payload payload ∧ b.srcIp = s.call.peerIp ∧
      checkWindow s.call.now b.now scfg.windowMs scfg.skewMs = .ok ()

theorem originOf_exists (hsig : OnlySigned S ccfg builds (submitted S scfg peer actions))
    (hclock : ClockOk (lockCalls S scfg peer actions))
    (hinj : HashInjective S ((established S scfg (lockCalls S scfg peer actions)).map
      (fun s => s.flight.payload) ++ sent S ccfg builds)) (i : ℕ) :
    ∃ b, OriginOf S scfg ccfg builds (lockLog S scfg peer actions) i b := by
  have hinv := runInv_serve S scfg hclock
  have honce := (@daemonInv_run S scfg peer actions).once
  by_cases hi : i ∈ ownConnections (lockLog S scfg peer actions) ccfg.clientPk
  · obtain ⟨s,hs,hclient⟩ := hi
    have hmem := mem_established hs
    have hsub : s.flight.payload :: sent S ccfg builds ⊆
        (established S scfg (lockCalls S scfg peer actions)).map (fun s => s.flight.payload) ++
          sent S ccfg builds := by
      rw [List.cons_subset]
      exact ⟨List.mem_append_left _ (List.mem_map.mpr ⟨s,hmem,rfl⟩),List.subset_append_right _ _⟩
    obtain ⟨b,hb,hrest⟩ := vouched_origin hsig (hinv.vouched s hmem)
      (mem_submitted hclock hmem) hclient (HashInjective.mono hinj hsub)
    refine ⟨b,?_⟩
    intro r hr _
    rw [session_unique honce hr hs]
    exact ⟨hb,hrest⟩
  · refine ⟨⟨[],ipToBytes (peer i).ip,0,[],fill rLen 0,fill 32 0⟩,?_⟩
    intro s hs hclient
    exact absurd ⟨s,hs,hclient⟩ hi

theorem origin_card_le (hclock : ClockOk (lockCalls S scfg peer actions)) {b : Build}
    {I : Finset ℕ}
    (hI : ∀ i ∈ I, i ∈ ownConnections (lockLog S scfg peer actions) ccfg.clientPk ∧
      OriginOf S scfg ccfg builds (lockLog S scfg peer actions) i b) :
    I.card ≤ replayBound S scfg := by
  have honce := (@daemonInv_run S scfg peer actions).once
  let own := (sessionsBy (lockLog S scfg peer actions)).filter fun q => decide (q.1 ∈ I)
  have hcard : I.card ≤ (own.map Prod.snd).length := by
    have hsub : I ⊆ (own.map Prod.fst).toFinset := by
      intro i hi
      obtain ⟨⟨s,hs,-⟩,-⟩ := hI i hi
      rw [List.mem_toFinset]
      exact List.mem_map.mpr ⟨(i,s),List.mem_filter.mpr ⟨hs,by simpa using hi⟩,rfl⟩
    calc I.card ≤ (own.map Prod.fst).toFinset.card := Finset.card_le_card hsub
      _ ≤ (own.map Prod.fst).length := List.toFinset_card_le _
      _ = (own.map Prod.snd).length := by rw [List.length_map,List.length_map]
  have hown : ∀ s ∈ own.map Prod.snd, ∃ payload client, b.run S ccfg = .ok (payload,client) ∧
      SameFlight s.flight.payload payload := by
    intro s hs
    obtain ⟨⟨i,r⟩,hmem,rfl⟩ := List.mem_map.mp hs
    obtain ⟨hr,hi⟩ := List.mem_filter.mp hmem
    obtain ⟨⟨q,hq,hclient⟩,horigin⟩ := hI i (by simpa using hi)
    obtain rfl := session_unique honce hq hr
    obtain ⟨-,payload,client,hrun,hsame,-⟩ := horigin q hq hclient
    exact ⟨payload,client,hrun,hsame⟩
  have hsub : (own.map Prod.snd).Sublist (established S scfg (lockCalls S scfg peer actions)) := by
    rw [established_lockCalls]
    exact List.filter_sublist.map _
  refine hcard.trans ?_
  cases hrun : b.run S ccfg with
  | error e =>
    have hnil : own.map Prod.snd = [] := by
      rw [List.eq_nil_iff_forall_not_mem]
      intro s hs
      obtain ⟨payload,client,hok,-⟩ := hown s hs
      rw [hrun] at hok
      cases hok
    rw [hnil]
    exact Nat.zero_le _
  | ok pair =>
    refine @sessions_length_le S scfg _ hclock _ hsub (replayTag S pair.1.nonce pair.1.encData)
      pair.1.tsMillis ?_
    intro s hs
    obtain ⟨payload,client,hok,hsame⟩ := hown s hs
    rw [hrun] at hok
    obtain rfl := Except.ok.inj hok
    exact ⟨by rw [Flight.tag,hsame.nonce,hsame.encData],hsame.tsMillis⟩

end Tasks

theorem replayBound_zero_skew (S : CipherSuite) (scfg : ServerConfig S) (h : scfg.skewMs = 0) :
    replayBound S scfg = 1 := by
  rw [replayBound,h]
  exact congrArg (1 + ·) (Nat.div_eq_of_lt (Nat.lt_succ_self _))

theorem daemon_injective_agreement (S : CipherSuite) (hk : S.KemLaws) (ha : S.AeadLaws)
    (scfg : ServerConfig S) (hserver : scfg.serverPk = S.kemPublic scfg.kemSecret)
    (ccfg : ClientConfig S) (builds : List Build) (peer : ℕ → Peer) (actions : List ServerAction)
    (hsig : OnlySigned S ccfg builds (submitted S scfg peer actions))
    (hclock : ClockOk (lockCalls S scfg peer actions))
    (hinj : HashInjective S ((established S scfg (lockCalls S scfg peer actions)).map
      (fun s => s.flight.payload) ++ sent S ccfg builds)) :
    let log := lockLog S scfg peer actions
    ∃ origin : ℕ → Build,
      (∀ i s out, (i,s) ∈ sessionsBy log → s.flight.clientPk = ccfg.clientPk →
        (Daemon.run S scfg peer actions).2.task i = .forwarding out →
        origin i ∈ builds ∧ Agrees S scfg ccfg (peer i) s out (origin i)) ∧
      (∀ b (I : Finset ℕ), (∀ i ∈ I, i ∈ ownConnections log ccfg.clientPk ∧ origin i = b) →
        I.card ≤ replayBound S scfg) ∧
      (scfg.skewMs = 0 → Set.InjOn origin (ownConnections log ccfg.clientPk)) := by
  intro log
  choose origin horigin using originOf_exists hsig hclock hinj
  have hcard : ∀ b (I : Finset ℕ), (∀ i ∈ I, i ∈ ownConnections log ccfg.clientPk ∧ origin i = b) →
      I.card ≤ replayBound S scfg := by
    intro b I hI
    refine @origin_card_le S scfg ccfg builds peer actions hclock b I ?_
    intro i hi
    obtain ⟨hown,rfl⟩ := hI i hi
    exact ⟨hown,horigin i⟩
  refine ⟨origin,?_,hcard,?_⟩
  · intro i s out hs hclient hout
    obtain ⟨hb,payload,client,hrun,hsame,hip,hwindow⟩ := horigin i s hs hclient
    have hv := (runInv_serve S scfg hclock).vouched s (mem_established hs)
    exact ⟨hb,agrees_of_origin hk ha hserver hv hs hout hrun hsame hip hwindow⟩
  · intro hskew i hi j hj hij
    by_contra hne
    have hpair := hcard (origin j) {i,j} (by
      intro k hk
      rcases Finset.mem_insert.mp hk with rfl | hk
      · exact ⟨hi,hij⟩
      · obtain rfl := Finset.mem_singleton.mp hk
        exact ⟨hj,rfl⟩)
    rw [replayBound_zero_skew S scfg hskew,Finset.card_pair hne] at hpair
    omega

def redated : Frame → Frame
  | .clientHelloZeroRtt suiteId clientPk payload =>
    .clientHelloZeroRtt suiteId clientPk { payload with tsMillis := 1400 }
  | frame => frame

-- The hello of one client call, replayed and redated.
def replayedPeers : ℕ → Peer
  | 2 => ⟨.v6 (fill 16 9),encodeFramed (redated plainBuild.hello).encode⟩
  | _ => ⟨.v6 (fill 16 9),encodeFramed plainBuild.hello.encode⟩

def replayedTasks : List ServerAction :=
  [.reads 0,.reads 1,.reads 2,.locks 0 1500,.locks 1 1600,.locks 2 1600,.writes 0 (.ok ()),
    .writes 1 (.ok ()),.writes 2 (.ok ()),.connects 0 true,.connects 1 true,.connects 2 true]

theorem replayed_assumed :
    OnlySigned plainSuite (plainClient 1) [plainBuild]
      (submitted plainSuite (plainServer 2000 1000) replayedPeers replayedTasks) ∧
    ClockOk (lockCalls plainSuite (plainServer 2000 1000) replayedPeers replayedTasks) ∧
    HashInjective plainSuite ((established plainSuite (plainServer 2000 1000)
      (lockCalls plainSuite (plainServer 2000 1000) replayedPeers replayedTasks)).map
        (fun s => s.flight.payload) ++ sent plainSuite (plainClient 1) [plainBuild]) := by
  decide +kernel

theorem replayed_served : ∃ out s,
    (Daemon.run plainSuite (plainServer 2000 1000) replayedPeers replayedTasks).2.task 0 =
      .forwarding out ∧
    sessionsBy (lockLog plainSuite (plainServer 2000 1000) replayedPeers replayedTasks) = [(0,s)] ∧
    s.flight.clientPk = (plainClient 1).clientPk := by
  have hfirst : ((Daemon.run plainSuite (plainServer 2000 1000) replayedPeers replayedTasks).2.task
      0).forwards = true := by decide +kernel
  have hserved : (sessionsBy (lockLog plainSuite (plainServer 2000 1000) replayedPeers
      replayedTasks)).map (fun q => (q.1,q.2.flight.clientPk)) = [(0,(plainClient 1).clientPk)] := by
    decide +kernel
  obtain ⟨out,hout⟩ := ServerTask.forwards_iff.mp hfirst
  obtain ⟨⟨i,s⟩,hone,heq⟩ := List.map_eq_singleton_iff.mp hserved
  obtain ⟨rfl,hclient⟩ := Prod.mk.inj heq
  exact ⟨out,s,hout,hone,hclient⟩

theorem daemon_injective_agreement_replayed :
    (submitted plainSuite (plainServer 2000 1000) replayedPeers replayedTasks).length = 3 ∧
    ∃ out s, (Daemon.run plainSuite (plainServer 2000 1000) replayedPeers replayedTasks).2.task 0 =
        .forwarding out ∧
      sessionsBy (lockLog plainSuite (plainServer 2000 1000) replayedPeers replayedTasks) = [(0,s)] ∧
      out.earlyData = ascii "hi" := by
  obtain ⟨hsig,hclock,hinj⟩ := replayed_assumed
  obtain ⟨out,s,hout,hone,hclient⟩ := replayed_served
  obtain ⟨origin,hagrees,-,-⟩ := daemon_injective_agreement plainSuite plainSuite_kem plainSuite_aead
    (plainServer 2000 1000) rfl (plainClient 1) [plainBuild] replayedPeers replayedTasks hsig hclock
    hinj
  obtain ⟨hb,hends⟩ := hagrees 0 s out (by rw [hone]; simp) hclient hout
  obtain ⟨payload,client,-,-,hboth⟩ := hends.ends
  rw [List.mem_singleton.mp hb] at hboth
  exact ⟨by decide +kernel,out,s,hout,hone,(hboth rfl).2⟩

end OrtTunnel.Net
