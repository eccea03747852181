import OrtTunnel.Core.Duplex
import OrtTunnel.Net.Transparency

namespace OrtTunnel.Net
open BigEndian Proto OrtTunnel.Core

-- The network may replace whatever is in transit and end the stream at any moment.
inductive NetEvent where
  | moves (e : TunnelEvent)
  | tampers (d : Direction) (channel : Bytes) (shut : Bool)

def Lane.tamper (l : Lane) (channel : Bytes) (shut : Bool) : Lane :=
  ⟨l.consumed,l.up,channel,shut,l.down,l.written⟩

namespace Tunnel

def observed (S : CipherSuite) (t : Tunnel) : NetEvent → List Observation
  | .moves (.seals d) =>
    match (t.lane d).up with
    | .sealing chunk => [(t.peers.step S (.seals d chunk)).1]
    | _ => []
  | .moves (.opens d) =>
    match (t.lane d).down with
    | .opening ct => [(t.peers.step S (.opens d ct)).1]
    | _ => []
  | _ => []

def attackedStep (S : CipherSuite) (t : Tunnel) (e : NetEvent) : List Observation × Tunnel :=
  (t.observed S e,
    match e with
    | .moves m => t.step S m
    | .tampers d channel shut => t.setLane d ((t.lane d).tamper channel shut))

end Tunnel

section Established
variable (S : CipherSuite) (keys : SessionKeys) (nonce : Arr 32) (earlyData : Bytes)

def firstFlight : Bytes × RecordLayer :=
  (RecordLayer.new keys nonce).seal S .clientToServer earlyData

def handshakeEvents : List RecordCall :=
  [.seals .clientToServer earlyData,
    .opens .clientToServer (firstFlight S keys nonce earlyData).1]

def attackedRun (zeroRtt : Bool) (es : List NetEvent) : List Observation × Tunnel :=
  let forwarded := Machine.run (Tunnel.attackedStep S)
    (Tunnel.start S (firstFlight S keys nonce earlyData).2 earlyData zeroRtt) es
  ((Duplex.new keys nonce).observe S (handshakeEvents S keys nonce earlyData) ++
    forwarded.1.flatten,forwarded.2)

end Established

structure LaneAccount (early : Bytes) (obs : List Observation) (d : Direction) (l : Lane) : Prop where
  handed : l.written ++ l.down.plain = (deliveredIn d obs).flatten
  taken : early ++ l.consumed = (sealedIn d obs).flatten ++ l.up.plain

def Accounted (earlyData : Bytes) (obs : List Observation) (t : Tunnel) : Prop :=
  ∀ d, LaneAccount (earlyFor earlyData d) obs d (t.lane d)

section Logs
variable (d : Direction) (obs : List Observation)

theorem sealedIn_sealed (c : SealCall) :
    sealedIn d (obs ++ [.sealed c]) = sealedIn d obs ++ if c.dir = d then [c.pt] else [] := by
  by_cases h : c.dir = d <;> simp [sealedIn,h]

theorem sealedIn_opened (c : OpenCall) : sealedIn d (obs ++ [.opened c]) = sealedIn d obs := by
  simp [sealedIn]

theorem deliveredIn_sealed (c : SealCall) :
    deliveredIn d (obs ++ [.sealed c]) = deliveredIn d obs := by
  simp [deliveredIn,resultsIn]

theorem deliveredIn_opened (c : OpenCall) :
    deliveredIn d (obs ++ [.opened c]) =
      deliveredIn d obs ++ if c.dir = d then c.result.toOption.toList else [] := by
  by_cases h : c.dir = d
  · cases hr : c.result <;>
      simp [deliveredIn,resultsIn,List.filterMap_append,h,hr,Except.toOption]
  · simp [deliveredIn,resultsIn,h]

end Logs

section Lanes
variable {early : Bytes} {obs : List Observation} {d : Direction} {l l' : Lane}

theorem laneAccount_of_eq (h : LaneAccount early obs d l)
    (hw : l'.written ++ l'.down.plain = l.written ++ l.down.plain) (hc : l'.consumed = l.consumed)
    (hu : l'.up.plain = l.up.plain) : LaneAccount early obs d l' :=
  ⟨hw.trans h.handed,by rw [hc,hu,h.taken]⟩

theorem laneAccount_read (h : LaneAccount early obs d l) (hup : l.up = .reading) (chunk : Bytes) :
    LaneAccount early obs d (l.read chunk) := by
  have ht := h.taken
  rw [hup] at ht
  refine ⟨h.handed,?_⟩
  simp only [Lane.read,Up.plain,List.append_nil] at ht ⊢
  rw [← List.append_assoc,ht]

theorem laneAccount_push (h : LaneAccount early obs d l) : LaneAccount early obs d l.push := by
  unfold Lane.push
  split
  · rename_i hup
    exact laneAccount_of_eq h rfl rfl (by rw [hup]; rfl)
  · rename_i hup
    exact laneAccount_of_eq h rfl rfl (by rw [hup]; rfl)
  · rename_i hup
    exact laneAccount_of_eq h rfl rfl (by rw [hup]; rfl)
  · exact h

theorem laneAccount_pull (h : LaneAccount early obs d l) : LaneAccount early obs d l.pull := by
  unfold Lane.pull
  split
  · rename_i hdown _
    split_ifs
    · exact laneAccount_of_eq h (by rw [hdown]; rfl) rfl rfl
    · exact h
  · exact h

theorem plain_onBody (ack : Option (Arr 64)) (body : Bytes) : (onBody ack body).plain = [] := by
  unfold onBody
  split
  · split
    · rfl
    · split_ifs <;> rfl
    · rfl
  · split <;> rfl

theorem plain_onReadFrame (ack : Option (Arr 64)) (r : Except IoError (Option Bytes)) :
    (onReadFrame ack r).plain = [] := by
  unfold onReadFrame
  split
  · rfl
  · split_ifs <;> rfl
  · exact plain_onBody ack _

theorem laneAccount_take (h : LaneAccount early obs d l) : LaneAccount early obs d l.take := by
  unfold Lane.take
  split
  · rename_i ack got hdown
    split_ifs
    · exact h
    · refine laneAccount_of_eq h ?_ rfl rfl
      rw [hdown]
      exact congrArg (l.written ++ ·) (plain_onReadFrame ack _)
  · exact h

theorem laneAccount_write (h : LaneAccount early obs d l) : LaneAccount early obs d l.write := by
  unfold Lane.write
  split
  · rename_i hdown
    exact laneAccount_of_eq h (by rw [hdown]; simp [Down.plain]) rfl rfl
  · rename_i hdown
    exact laneAccount_of_eq h (by rw [hdown]; rfl) rfl rfl
  · rename_i hdown
    exact laneAccount_of_eq h (by rw [hdown]; simp [Down.plain]) rfl rfl
  · rename_i hdown
    exact laneAccount_of_eq h (by rw [hdown]; rfl) rfl rfl
  · exact h

theorem laneAccount_seal (h : LaneAccount early obs d l) {c : SealCall} (hdir : c.dir = d)
    (hup : l.up = .sealing c.pt) (bytes : Bytes) :
    LaneAccount early (obs ++ [.sealed c]) d (l.setUp (.sending bytes false)) := by
  have ht := h.taken
  rw [hup] at ht
  refine ⟨by rw [deliveredIn_sealed]; exact h.handed,?_⟩
  rw [sealedIn_sealed,if_pos hdir]
  simpa [Lane.setUp,Up.plain] using ht

theorem laneAccount_open (h : LaneAccount early obs d l) {c : OpenCall} (hdir : c.dir = d)
    (hdown : l.down = .opening c.ct) :
    LaneAccount early (obs ++ [.opened c]) d (l.setDown (onOpen c.result)) := by
  have hh := h.handed
  rw [hdown] at hh
  refine ⟨?_,by rw [sealedIn_opened]; exact h.taken⟩
  rw [deliveredIn_opened,if_pos hdir,List.flatten_append,← hh]
  cases hr : c.result <;> simp [Lane.setDown,onOpen,Down.plain,Except.toOption]

theorem laneAccount_other (h : LaneAccount early obs d l) {o : Observation}
    (ho : (∃ c : SealCall, o = .sealed c ∧ c.dir ≠ d) ∨ ∃ c : OpenCall, o = .opened c ∧ c.dir ≠ d) :
    LaneAccount early (obs ++ [o]) d l := by
  obtain ⟨c,rfl,hdir⟩ | ⟨c,rfl,hdir⟩ := ho
  · refine ⟨by rw [deliveredIn_sealed]; exact h.handed,?_⟩
    rw [sealedIn_sealed,if_neg hdir,List.append_nil]
    exact h.taken
  · refine ⟨?_,by rw [sealedIn_opened]; exact h.taken⟩
    rw [deliveredIn_opened,if_neg hdir,List.append_nil]
    exact h.handed

end Lanes

section Tunnels
variable {S : CipherSuite} {earlyData : Bytes} {obs : List Observation} {t : Tunnel}

theorem accounted_setLane (h : Accounted earlyData obs t) {d : Direction} {l : Lane}
    (hl : LaneAccount (earlyFor earlyData d) obs d l) : Accounted earlyData obs (t.setLane d l) :=
  lane_update (P := fun e l => LaneAccount (earlyFor earlyData e) obs e l) hl (h d.flip)

theorem accounted_observes (h : Accounted earlyData obs t) {d : Direction} {peers : Duplex}
    {l : Lane} {o : Observation}
    (hl : LaneAccount (earlyFor earlyData d) (obs ++ [o]) d l)
    (ho : (∃ c : SealCall, o = .sealed c ∧ c.dir = d) ∨ ∃ c : OpenCall, o = .opened c ∧ c.dir = d) :
    Accounted earlyData (obs ++ [o]) ⟨peers,Function.update t.lane d l⟩ := by
  have hne := (Direction.flip_ne d).symm
  have hother : LaneAccount (earlyFor earlyData d.flip) (obs ++ [o]) d.flip (t.lane d.flip) := by
    refine laneAccount_other (h d.flip) ?_
    obtain ⟨c,rfl,rfl⟩ | ⟨c,rfl,rfl⟩ := ho
    · exact Or.inl ⟨c,rfl,hne⟩
    · exact Or.inr ⟨c,rfl,hne⟩
  exact lane_update (P := fun e l => LaneAccount (earlyFor earlyData e) (obs ++ [o]) e l) hl hother

theorem accounted_step (h : Accounted earlyData obs t) (e : NetEvent) :
    Accounted earlyData (obs ++ (t.attackedStep S e).1) (t.attackedStep S e).2 := by
  cases e with
  | tampers d channel shut =>
    simp only [Tunnel.attackedStep,Tunnel.observed,List.append_nil]
    exact accounted_setLane h (laneAccount_of_eq (h d) rfl rfl rfl)
  | moves e =>
    cases e with
    | seals d =>
      cases hup : (t.lane d).up with
      | sealing chunk =>
        simp only [Tunnel.attackedStep,Tunnel.observed,Tunnel.step,hup,Duplex.step_seals]
        exact accounted_observes h (laneAccount_seal (h d) rfl hup _) (Or.inl ⟨_,rfl,rfl⟩)
      | _ => simpa only [Tunnel.attackedStep,Tunnel.observed,Tunnel.step,hup,List.append_nil] using h
    | opens d =>
      cases hdown : (t.lane d).down with
      | opening ct =>
        have hres : ((t.peers.receiver d).open S d ct).1 =
            ((t.peers.rx d).openOne S (t.peers.encKey d.flip) d ct).1 := by
          rw [RecordLayer.open_eq]
          rfl
        simp only [Tunnel.attackedStep,Tunnel.observed,Tunnel.step,hdown,Duplex.step_opens,hres]
        exact accounted_observes h (laneAccount_open (h d) rfl hdown) (Or.inr ⟨_,rfl,rfl⟩)
      | _ => simpa only [Tunnel.attackedStep,Tunnel.observed,Tunnel.step,hdown,List.append_nil] using h
    | reads d chunk =>
      simp only [Tunnel.attackedStep,Tunnel.observed,Tunnel.step,List.append_nil]
      split_ifs with hguard
      · exact accounted_setLane h (laneAccount_read (h d) hguard.1 chunk)
      · exact h
    | ends d =>
      simp only [Tunnel.attackedStep,Tunnel.observed,Tunnel.step,List.append_nil]
      split_ifs with hguard
      · exact accounted_setLane h (laneAccount_of_eq (h d) rfl rfl (by rw [hguard.1]; rfl))
      · exact h
    | pushes d =>
      simp only [Tunnel.attackedStep,Tunnel.observed,Tunnel.step,List.append_nil]
      exact accounted_setLane h (laneAccount_push (h d))
    | pulls d =>
      simp only [Tunnel.attackedStep,Tunnel.observed,Tunnel.step,List.append_nil]
      exact accounted_setLane h (laneAccount_pull (h d))
    | takes d =>
      simp only [Tunnel.attackedStep,Tunnel.observed,Tunnel.step,List.append_nil]
      exact accounted_setLane h (laneAccount_take (h d))
    | writes d =>
      simp only [Tunnel.attackedStep,Tunnel.observed,Tunnel.step,List.append_nil]
      exact accounted_setLane h (laneAccount_write (h d))

theorem peers_step (S : CipherSuite) (t : Tunnel) (e : NetEvent) :
    ∃ des : List RecordCall, Machine.run (Duplex.step S) t.peers des =
      ((t.attackedStep S e).1,(t.attackedStep S e).2.peers) := by
  cases e with
  | tampers d channel shut => exact ⟨[],rfl⟩
  | moves e =>
    cases e with
    | seals d =>
      cases hup : (t.lane d).up with
      | sealing chunk =>
        exact ⟨[.seals d chunk],by
          simp only [Machine.run,Tunnel.attackedStep,Tunnel.observed,Tunnel.step,hup]⟩
      | _ =>
        exact ⟨[],by simp only [Machine.run,Tunnel.attackedStep,Tunnel.observed,Tunnel.step,hup]⟩
    | opens d =>
      cases hdown : (t.lane d).down with
      | opening ct =>
        exact ⟨[.opens d ct],by
          simp only [Machine.run,Tunnel.attackedStep,Tunnel.observed,Tunnel.step,hdown]⟩
      | _ =>
        exact ⟨[],by simp only [Machine.run,Tunnel.attackedStep,Tunnel.observed,Tunnel.step,hdown]⟩
    | reads d chunk =>
      refine ⟨[],?_⟩
      simp only [Machine.run,Tunnel.attackedStep,Tunnel.observed,Tunnel.step]
      split_ifs <;> rfl
    | ends d =>
      refine ⟨[],?_⟩
      simp only [Machine.run,Tunnel.attackedStep,Tunnel.observed,Tunnel.step]
      split_ifs <;> rfl
    | _ => exact ⟨[],rfl⟩

end Tunnels

section Runs
variable {S : CipherSuite} (ha : S.AeadLaws) (keys : SessionKeys) (nonce : Arr 32)
variable (earlyData : Bytes) (zeroRtt : Bool)
include ha

theorem handshake_run :
    ∃ (b : SealCall) (c : OpenCall), b.dir = .clientToServer ∧ c.dir = .clientToServer ∧
      b.pt = earlyData ∧ c.result = .ok earlyData ∧
      Machine.run (Duplex.step S) (Duplex.new keys nonce) (handshakeEvents S keys nonce earlyData) =
        ([.sealed b,.opened c],⟨(firstFlight S keys nonce earlyData).2,
          (firstFlight S keys nonce earlyData).2⟩) := by
  have hopen := RecordLayer.open_seal S (RecordLayer.new keys nonce) ha .clientToServer earlyData
  let pool := (RecordLayer.new keys nonce).pool
  let aad := recordAad .clientToServer (pool.counter .clientToServer)
  let ct := (firstFlight S keys nonce earlyData).1
  refine ⟨⟨.clientToServer,(pool.dir .clientToServer).drawn,aad,earlyData,ct⟩,
    ⟨.clientToServer,(pool.dir .clientToServer).drawn,aad,ct,.ok earlyData⟩,rfl,rfl,rfl,rfl,?_⟩
  simp only [handshakeEvents,firstFlight,Machine.run,Duplex.step,Duplex.new,Duplex.sender,
    Duplex.setSender,Duplex.receiver,Duplex.setReceiver,Direction.flip,hopen]
  rfl

theorem handshake_accounted :
    Accounted earlyData
      ((Duplex.new keys nonce).observe S (handshakeEvents S keys nonce earlyData))
      (Tunnel.start S (firstFlight S keys nonce earlyData).2 earlyData zeroRtt) := by
  obtain ⟨b,c,hb,hc,hpt,hres,hrun⟩ := handshake_run ha keys nonce earlyData
  intro d
  rw [Duplex.observe,hrun]
  cases d with
  | clientToServer =>
    constructor <;> simp [Tunnel.start,deliveredIn,resultsIn,openCalls,sealedIn,sealCalls,hb,hc,hpt,
      hres,Except.toOption,earlyFor,Down.plain,Up.plain]
  | serverToClient =>
    cases zeroRtt <;> constructor <;> simp [Tunnel.start,deliveredIn,resultsIn,openCalls,sealedIn,
      sealCalls,hb,hc,earlyFor,Down.plain,Up.plain]

theorem attackedRun_spec (es : List NetEvent) :
    (∃ des, Machine.run (Duplex.step S) (Duplex.new keys nonce) des =
      ((attackedRun S keys nonce earlyData zeroRtt es).1,
        (attackedRun S keys nonce earlyData zeroRtt es).2.peers)) ∧
    Accounted earlyData (attackedRun S keys nonce earlyData zeroRtt es).1
      (attackedRun S keys nonce earlyData zeroRtt es).2 := by
  refine Machine.run_induction (Tunnel.attackedStep S)
    (s := Tunnel.start S (firstFlight S keys nonce earlyData).2 earlyData zeroRtt)
    (P := fun _ oss t => (∃ des, Machine.run (Duplex.step S) (Duplex.new keys nonce) des =
      ((Duplex.new keys nonce).observe S (handshakeEvents S keys nonce earlyData) ++ oss.flatten,
        t.peers)) ∧ Accounted earlyData ((Duplex.new keys nonce).observe S
          (handshakeEvents S keys nonce earlyData) ++ oss.flatten) t) ?_ ?_ es
  · obtain ⟨b,c,-,-,-,-,hrun⟩ := handshake_run ha keys nonce earlyData
    refine ⟨⟨handshakeEvents S keys nonce earlyData,?_⟩,?_⟩
    · rw [Duplex.observe,hrun]
      rfl
    · simpa using handshake_accounted ha keys nonce earlyData zeroRtt
  · rintro - oss t e ⟨⟨des,hdes⟩,hacc⟩
    obtain ⟨more,hmore⟩ := peers_step S t e
    refine ⟨⟨des ++ more,?_⟩,?_⟩
    · rw [Machine.run_append,hdes,hmore,List.flatten_append,List.append_assoc]
      simp
    · have hstep := accounted_step (S := S) hacc e
      simpa [List.flatten_append] using hstep

end Runs

theorem run_moves (S : CipherSuite) (t : Tunnel) (ms : List TunnelEvent) :
    (Machine.run (Tunnel.attackedStep S) t (ms.map .moves)).2 = t.exec S ms := by
  induction ms generalizing t with
  | nil => rfl
  | cons m ms ih => exact ih (t.step S m)

theorem closed_writes_records (S : CipherSuite) (ha : S.AeadLaws) (keys : SessionKeys)
    (nonce : Arr 32) (earlyData : Bytes) (zeroRtt : Bool) (es : List NetEvent)
    (obs : List Observation) (t : Tunnel)
    (hrun : attackedRun S keys nonce earlyData zeroRtt es = (obs,t)) (hideal : IdealAead S obs)
    (hxof : NoXofCollision S (obs.map (·.drawn))) (d : Direction)
    (hclosed : (t.lane d).down = .closed) :
    (∃ delivered lost, sealedIn d obs = delivered ++ lost ∧
      (t.lane d).written = delivered.flatten ∧
      due earlyData t d = (t.lane d).written ++ (lost.flatten ++ (t.lane d).up.plain)) ∧
    ∀ ms : List TunnelEvent, es = ms.map .moves → (t.lane d).written = due earlyData t d := by
  obtain ⟨⟨des,hdes⟩,hacc⟩ := attackedRun_spec ha keys nonce earlyData zeroRtt es
  rw [hrun] at hdes hacc
  have hobs : (Duplex.new keys nonce).observe S des = obs := congrArg Prod.fst hdes
  refine ⟨?_,?_⟩
  · obtain ⟨taken,⟨newer,hcs⟩,hdel,-⟩ := (integrity_run keys nonce des (hobs ▸ hideal)
      (hobs ▸ hxof) d).rx
    rw [hobs] at hcs hdel
    have hwritten : (t.lane d).written = (deliveredIn d obs).flatten := by
      simpa [hclosed,Down.plain] using (hacc d).handed
    have hdelivered : deliveredIn d obs = (taken.map (·.pt)).reverse := by
      rw [← hdel,List.reverse_reverse]
    have hsealed : sealedIn d obs = deliveredIn d obs ++ (newer.map (·.pt)).reverse := by
      rw [sealedIn,← List.reverse_reverse (sealCalls d obs),← hcs,hdelivered]
      simp
    refine ⟨_,_,hsealed,hwritten,?_⟩
    rw [due,(hacc d).taken,hsealed,hwritten,List.flatten_append,List.append_assoc]
  · rintro ms rfl
    have ht : t = (Tunnel.start S (firstFlight S keys nonce earlyData).2 earlyData zeroRtt).exec S
        ms := by
      rw [← run_moves]
      exact (congrArg Prod.snd hrun).symm
    obtain ⟨pts,cts,h⟩ := tunnelInv_exec ha (tunnelInv_start S _ earlyData zeroRtt) ms d
    rw [← ht] at h
    exact laneInv_drained h hclosed

def cutKeys : SessionKeys := ⟨fill 32 1,fill 32 2⟩

def cutEvents : List NetEvent :=
  List.flatten [[.moves (.writes .serverToClient),.moves (.writes .clientToServer),
    .moves (.reads .clientToServer (ascii "hi")),.moves (.seals .clientToServer)],
    List.replicate 29 (.moves (.pushes .clientToServer)),
    [.moves (.reads .clientToServer (ascii "yo")),.moves (.seals .clientToServer)],
    List.replicate 29 (.moves (.pushes .clientToServer)),[.moves (.ends .clientToServer)],
    List.replicate 6 (.moves (.pushes .clientToServer)),
    List.replicate 28 (.moves (.pulls .clientToServer)),
    [.moves (.takes .clientToServer),.moves (.opens .clientToServer)],
    List.replicate 3 (.moves (.writes .clientToServer)),
    [.tampers .clientToServer (encodeFramed Frame.close.encode) false],
    List.replicate 5 (.moves (.pulls .clientToServer)),[.moves (.takes .clientToServer)]]

def cutRun : List Observation × Tunnel :=
  attackedRun plainSuite cutKeys (fill 32 3) [] false cutEvents

theorem cutRun_ideal : IdealAead plainSuite cutRun.1 :=
  idealAead_of_check (by decide +kernel)

theorem cutRun_noXofCollision : NoXofCollision plainSuite (cutRun.1.map (·.drawn)) := by
  decide +kernel

theorem cutRun_closed : (cutRun.2.lane .clientToServer).down = .closed := by decide +kernel

theorem cut_writes_records :
    ∃ delivered lost, sealedIn .clientToServer cutRun.1 = delivered ++ lost ∧
      (cutRun.2.lane .clientToServer).written = delivered.flatten ∧
      due [] cutRun.2 .clientToServer = (cutRun.2.lane .clientToServer).written ++
        (lost.flatten ++ (cutRun.2.lane .clientToServer).up.plain) := by
  have hrun : attackedRun plainSuite cutKeys (fill 32 3) [] false cutEvents =
      (cutRun.1,cutRun.2) := by rw [← cutRun]
  exact (closed_writes_records plainSuite plainSuite_aead cutKeys (fill 32 3) [] false cutEvents _ _
    hrun cutRun_ideal cutRun_noXofCollision .clientToServer cutRun_closed).1

theorem forged_close_truncates :
    IdealAead plainSuite cutRun.1 ∧ NoXofCollision plainSuite (cutRun.1.map (·.drawn)) ∧
    (cutRun.2.lane .clientToServer).up = .done ∧
    (cutRun.2.lane .clientToServer).down = .closed ∧
    (sealedIn .clientToServer cutRun.1).flatten = ascii "hiyo" ∧
    (cutRun.2.lane .clientToServer).written = ascii "hi" := by
  refine ⟨cutRun_ideal,cutRun_noXofCollision,?_,cutRun_closed,?_,?_⟩ <;> decide +kernel

end OrtTunnel.Net
