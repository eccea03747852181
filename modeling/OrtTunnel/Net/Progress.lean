import OrtTunnel.Library.Progress
import OrtTunnel.Net.Transparency

namespace OrtTunnel.Net
open BigEndian Proto OrtTunnel.Core

def TunnelEvent.internal : TunnelEvent → Bool
  | .reads _ _ => false
  | .ends _ => false
  | _ => true

-- A data record of n bytes becomes a frame of 26 + n, and each of its bytes moves three times.
def Up.work : Up → ℕ
  | .reading => 0
  | .sealing chunk => 3 * (26 + chunk.length) + 2
  | .sending bytes _ => 3 * bytes.length + 1
  | .done => 0

def Down.work : Down → ℕ
  | .early bytes _ => bytes.length + 2
  | .reading _ got => got.length + 1
  | .opening ct => ct.length + 3
  | .writing pt => pt.length + 2
  | _ => 0

def Lane.work (l : Lane) : ℕ := l.up.work + 2 * l.channel.length + l.down.work

def Tunnel.work (t : Tunnel) : ℕ :=
  (t.lane .clientToServer).work + (t.lane .serverToClient).work

def Flowing (S : CipherSuite) (earlyData : Bytes) (t : Tunnel) : Prop :=
  TunnelInv S earlyData t ∧ ∀ d, (t.lane d).up = .done → (t.lane d).shut = true

theorem length_dataRecord (d : Direction) (ct : Bytes) :
    (encodeFramed (dataRecord d ct).encode).length = 10 + ct.length := by
  simp only [length_encodeFramed,dataRecord,Frame.encode_eq,Frame.fields,List.length_append,
    List.length_singleton,length_bytes32]
  omega

theorem inFlight_length {S : CipherSuite} (ha : S.AeadLaws) {s : Duplex} {d : Direction}
    {pt ct : Bytes} {pts cts : List Bytes} (h : InFlight S s d (pt :: pts) (ct :: cts)) :
    ct.length = pt.length + tagLen := by
  have hpath := h.path
  simp only [Machine.run,Prod.mk.injEq,List.cons.injEq] at hpath
  rw [← hpath.1.1]
  exact ha.sealedLen ..

section Lanes
variable {S : CipherSuite} {early : Bytes} {peers : Duplex} {d : Direction} {l : Lane}
variable {pts cts : List Bytes}

theorem push_falls (l : Lane) :
    (l.push = l ∧ ∀ bytes closing, l.up ≠ .sending bytes closing) ∨ l.push.work < l.work := by
  cases hup : l.up with
  | sending bytes closing =>
    right
    cases bytes with
    | cons b rest =>
      simp only [Lane.push,hup,Lane.work,Up.work,List.length_append,List.length_cons,List.length_nil]
      omega
    | nil =>
      cases closing with
      | false => simp [Lane.push,hup,Lane.work,Lane.setUp,Up.work]
      | true => simp [Lane.push,hup,Lane.work,Up.work]
  | _ => exact .inl ⟨by simp only [Lane.push,hup],fun _ _ h => by cases h⟩

theorem pull_falls (l : Lane) :
    (l.pull = l ∧ ∀ ack got, l.down = .reading ack got → waiting got = true → l.channel = []) ∨
      l.pull.work < l.work := by
  cases hd : l.down with
  | reading ack got =>
    cases hc : l.channel with
    | nil => exact .inl ⟨by simp only [Lane.pull,hd,hc],fun _ _ _ _ => rfl⟩
    | cons b rest =>
      cases hw : waiting got with
      | false =>
        refine .inl ⟨by simp [Lane.pull,hd,hc,hw],?_⟩
        rintro _ _ ⟨⟩ htrue
        rw [hw] at htrue
        cases htrue
      | true =>
        right
        simp only [Lane.pull,hd,hc,hw,if_true,Lane.work,Down.work,List.length_append,
          List.length_cons,List.length_nil]
        omega
  | _ => exact .inl ⟨by simp only [Lane.pull,hd],fun _ _ h => by cases h⟩

theorem write_falls (l : Lane) :
    (l.write = l ∧ (∀ bytes ack, l.down ≠ .early bytes ack) ∧ ∀ pt, l.down ≠ .writing pt) ∨
      l.write.work < l.work := by
  cases hd : l.down with
  | early bytes ack =>
    right
    cases bytes with
    | cons b rest =>
      simp only [Lane.write,hd,Lane.work,Down.work,List.length_cons]
      omega
    | nil => simp [Lane.write,hd,Lane.work,Lane.setDown,Down.work]
  | writing pt =>
    right
    cases pt with
    | cons b rest =>
      simp only [Lane.write,hd,Lane.work,Down.work,List.length_cons]
      omega
    | nil => simp [Lane.write,hd,Lane.work,Lane.setDown,Down.work]
  | _ => exact .inl ⟨by simp only [Lane.write,hd],(fun _ _ h => by cases h),fun _ h => by cases h⟩

theorem onBody_work {ack : Option (Arr 64)} {body : Bytes} :
    (onBody ack body).work ≤ body.length + 1 := by
  cases ack with
  | some expected =>
    cases hf : Frame.decode body with
    | error e => simp [onBody,hf,Down.work]
    | ok f =>
      cases f with
      | serverAck ekHash =>
        simp only [onBody,hf]
        split_ifs <;> simp [Down.work]
      | _ => simp [onBody,hf,Down.work]
  | none =>
    cases hf : Frame.decode body with
    | error e => simp [onBody,hf,Down.work]
    | ok f =>
      cases f with
      | dataRecord dir ct =>
        have hlen := congrArg List.length (Frame.encode_of_decode hf).1
        simp only [Frame.encode_eq,Frame.fields,List.length_append,List.length_singleton,
          length_bytes32] at hlen
        simp only [onBody,hf,Down.work]
        omega
      | _ => simp [onBody,hf,Down.work]

theorem take_falls (l : Lane) :
    (l.take = l ∧ ∀ ack got, l.down = .reading ack got →
      waiting got = true ∧ ¬ (l.shut = true ∧ l.channel = [])) ∨ l.take.work < l.work := by
  cases hd : l.down with
  | reading ack got =>
    by_cases hready : waiting got ∧ ¬ (l.shut ∧ l.channel = [])
    · refine .inl ⟨by simp only [Lane.take,hd,if_pos hready],?_⟩
      rintro _ _ ⟨⟩
      exact hready
    right
    have hfalls : (onReadFrame ack (readFrame got).1).work < (Down.reading ack got).work := by
      rw [Down.work]
      rcases readFrame_cases got with ⟨-,he⟩ | ⟨body,rest,hfit,rfl,he⟩ | ⟨e,rest,he⟩
      · rw [he,onReadFrame]
        split_ifs <;> simp [Down.work]
      · rw [he,onReadFrame,List.length_append,length_encodeFramed]
        have hbody := @onBody_work ack body
        omega
      · simp [he,onReadFrame,Down.work]
    simp only [Lane.take,hd,if_neg hready,Lane.setDown,Lane.work]
    omega
  | _ => exact .inl ⟨by simp only [Lane.take,hd],fun _ _ h => by cases h⟩

theorem open_falls (ha : S.AeadLaws) {ct : Bytes} (h : LaneInv S early peers d l pts cts)
    (hd : l.down = .opening ct) :
    (l.setDown (onOpen ((peers.receiver d).open S d ct).1)).work < l.work := by
  have hfly := h.inFlight
  rw [hd] at hfly
  obtain ⟨pt,pts',rfl,hopen,-⟩ := inFlight_opens ha hfly
  have hlen := inFlight_length ha hfly
  simp only [hopen,onOpen,Lane.setDown,Lane.work,hd,Down.work]
  omega

theorem seal_falls (ha : S.AeadLaws) (r : RecordLayer) {chunk : Bytes} (hup : l.up = .sealing chunk) :
    (l.setUp (.sending (encodeFramed (dataRecord d (r.seal S d chunk).1).encode) false)).work <
      l.work := by
  simp only [Lane.setUp,Lane.work,hup,Up.work,length_dataRecord,RecordLayer.length_seal S _ ha,tagLen]
  omega

structure Settled (l : Lane) : Prop where
  up : l.up = .reading ∨ l.up = .done
  down : (∃ ack got, l.down = .reading ack got ∧ waiting got = true ∧ l.channel = [] ∧
    l.shut = false) ∨ l.down = .closed ∨ l.down.alive = false

def Delivered (early : Bytes) (l : Lane) : Prop :=
  l.written = early ++ l.consumed ∧ l.channel = [] ∧
    ((l.up = .reading ∧ l.down = .reading none []) ∨ (l.up = .done ∧ l.down = .closed))

theorem delivered_of_settled (h : LaneInv S early peers d l pts cts)
    (hdone : l.up = .done → l.shut = true) (hset : Settled l) : Delivered early l := by
  have hpending : l.up.pending = [] := by
    rcases hset.up with hup | hup <;> rw [hup] <;> rfl
  have hs := h.stream
  rw [hpending,List.append_nil] at hs
  rcases hset.down with ⟨ack,got,hd,hw,hc,hshut⟩ | hd | hd
  · have hup : l.up = .reading := by
      rcases hset.up with hup | hup
      · exact hup
      · rw [hdone hup] at hshut
        cases hshut
    rw [hc,List.append_nil,hd,Down.got] at hs
    have hnone : bodies d l cts = [] := by
      by_contra hne
      obtain ⟨b,bs,hbs⟩ := List.exists_cons_of_ne_nil hne
      have hfit := bodies_fit h.sizes b (by rw [hbs]; simp)
      have hpart := h.partly b (by rw [hbs]; rfl)
      rw [hd,Down.got,hs,hbs,List.flatMap_cons,List.length_append] at hpart
      have hnil : bs.flatMap encodeFramed = [] := List.length_eq_zero_iff.mp (by omega)
      rw [hs,hbs,List.flatMap_cons,hnil,List.append_nil,waiting_framed hfit] at hw
      cases hw
    rw [hnone,List.flatMap_nil] at hs
    simp only [bodies,List.append_eq_nil_iff,List.map_eq_nil_iff] at hnone
    obtain ⟨⟨hacks,rfl⟩,-⟩ := hnone
    obtain rfl : ack = none := by
      cases ack with
      | none => rfl
      | some k =>
        rw [hd] at hacks
        cases hacks
    have hlen := Machine.length_run (DirPool.sealOne S (peers.encKey d) d) (peers.rx d) pts
    rw [h.inFlight.path,hd] at hlen
    obtain rfl : pts = [] := List.length_eq_zero_iff.mp hlen.symm
    have hp := h.plain
    rw [hd,hup] at hp
    exact ⟨by simpa [Down.plain,Up.plain] using hp.symm,hc,.inl ⟨hup,by rw [hd,hs]⟩⟩
  · obtain ⟨rfl,hclosing⟩ := h.ended hd
    have hup : l.up = .done := by
      rcases hset.up with hup | hup
      · rw [hup] at hclosing
        cases hclosing
      · exact hup
    have hnone : bodies d l [] = [] := by simp [bodies,closes,hd,Down.acks]
    rw [hnone,hd] at hs
    exact ⟨laneInv_drained h hd,by simpa [Down.got] using hs,.inr ⟨hup,hd⟩⟩
  · rw [h.alive] at hd
    cases hd

end Lanes

section Tunnels
variable {S : CipherSuite} {earlyData : Bytes} {t : Tunnel}

theorem work_eq (t : Tunnel) (d : Direction) : t.work = (t.lane d).work + (t.lane d.flip).work := by
  cases d with
  | clientToServer => rfl
  | serverToClient => exact Nat.add_comm ..

theorem work_update (peers : Duplex) (d : Direction) {l : Lane} (h : l.work < (t.lane d).work) :
    Tunnel.work ⟨peers,Function.update t.lane d l⟩ < t.work := by
  rw [work_eq _ d,work_eq t d]
  simpa [Function.update_of_ne (Direction.flip_ne d)] using h

theorem setLane_same {d : Direction} {l : Lane} (h : l = t.lane d) : t.setLane d l = t := by
  rw [h,Tunnel.setLane,Function.update_eq_self]

theorem setLane_falls {d : Direction} {l : Lane} {P : Prop}
    (h : (l = t.lane d ∧ P) ∨ l.work < (t.lane d).work) :
    t.setLane d l = t ∨ (t.setLane d l).work < t.work := by
  rcases h with ⟨heq,-⟩ | hlt
  · exact .inl (setLane_same heq)
  · exact .inr (work_update t.peers d hlt)

namespace Lane

theorem pull_up (l : Lane) : l.pull.up = l.up ∧ l.pull.consumed = l.consumed ∧ l.pull.shut = l.shut := by
  rw [pull]
  split
  · split_ifs <;> exact ⟨rfl,rfl,rfl⟩
  · exact ⟨rfl,rfl,rfl⟩

theorem take_up (l : Lane) : l.take.up = l.up ∧ l.take.consumed = l.consumed ∧ l.take.shut = l.shut := by
  rw [take]
  split
  · split_ifs <;> exact ⟨rfl,rfl,rfl⟩
  · exact ⟨rfl,rfl,rfl⟩

theorem write_up (l : Lane) :
    l.write.up = l.up ∧ l.write.consumed = l.consumed ∧ l.write.shut = l.shut := by
  rw [write]
  split <;> exact ⟨rfl,rfl,rfl⟩

theorem push_down (l : Lane) : l.push.down = l.down ∧ l.push.written = l.written := by
  rw [push]
  split <;> exact ⟨rfl,rfl⟩

end Lane

theorem step_lane (S : CipherSuite) (t : Tunnel) (e : TunnelEvent) (d : Direction) :
    (Tunnel.step S t e).lane d = t.lane d ∨
    (∃ chunk, e = .reads d chunk ∧ (Tunnel.step S t e).lane d = (t.lane d).read chunk) ∨
    (∃ bytes closing, (t.lane d).up.closing = false ∧ (e = .ends d ∨ closing = false) ∧
      (Tunnel.step S t e).lane d = (t.lane d).setUp (.sending bytes closing)) ∨
    (Tunnel.step S t e).lane d = (t.lane d).push ∨
    (Tunnel.step S t e).lane d = (t.lane d).pull ∨
    (Tunnel.step S t e).lane d = (t.lane d).take ∨
    (∃ r, (Tunnel.step S t e).lane d = (t.lane d).setDown (onOpen r)) ∨
    (Tunnel.step S t e).lane d = (t.lane d).write := by
  have hother : ∀ {c : Direction} {l : Lane}, d ≠ c → Function.update t.lane c l d = t.lane d :=
    fun hc => Function.update_of_ne hc ..
  cases e with
  | reads c chunk =>
    by_cases hc : d = c
    · subst hc
      simp only [Tunnel.step]
      split_ifs
      · exact .inr (.inl ⟨chunk,rfl,by simp [Tunnel.setLane]⟩)
      · exact .inl rfl
    · left
      simp only [Tunnel.step]
      split_ifs
      · exact hother hc
      · rfl
  | ends c =>
    by_cases hc : d = c
    · subst hc
      simp only [Tunnel.step]
      split_ifs with hguard
      · exact .inr (.inr (.inl ⟨_,_,by rw [hguard.1]; rfl,by simp,Function.update_self ..⟩))
      · exact .inl rfl
    · left
      simp only [Tunnel.step]
      split_ifs
      · exact hother hc
      · rfl
  | seals c =>
    cases hup : (t.lane c).up with
    | sealing chunk =>
      simp only [Tunnel.step,hup]
      by_cases hc : d = c
      · subst hc
        exact .inr (.inr (.inl ⟨_,_,by rw [hup]; rfl,.inr rfl,Function.update_self ..⟩))
      · exact .inl (hother hc)
    | _ => exact .inl (by simp only [Tunnel.step,hup])
  | pushes c =>
    by_cases hc : d = c
    · subst hc
      exact .inr (.inr (.inr (.inl (Function.update_self ..))))
    · exact .inl (hother hc)
  | pulls c =>
    by_cases hc : d = c
    · subst hc
      exact .inr (.inr (.inr (.inr (.inl (Function.update_self ..)))))
    · exact .inl (hother hc)
  | takes c =>
    by_cases hc : d = c
    · subst hc
      exact .inr (.inr (.inr (.inr (.inr (.inl (Function.update_self ..))))))
    · exact .inl (hother hc)
  | opens c =>
    cases hd : (t.lane c).down with
    | opening ct =>
      simp only [Tunnel.step,hd]
      by_cases hc : d = c
      · subst hc
        exact .inr (.inr (.inr (.inr (.inr (.inr (.inl ⟨_,Function.update_self ..⟩))))))
      · exact .inl (hother hc)
    | _ => exact .inl (by simp only [Tunnel.step,hd])
  | writes c =>
    by_cases hc : d = c
    · subst hc
      exact .inr (.inr (.inr (.inr (.inr (.inr (.inr (Function.update_self ..)))))))
    · exact .inl (hother hc)

theorem keeps_shut (h : ∀ d, (t.lane d).up = .done → (t.lane d).shut = true) (e : TunnelEvent)
    (d : Direction) (hup : ((Tunnel.step S t e).lane d).up = .done) :
    ((Tunnel.step S t e).lane d).shut = true := by
  have hl := h d
  obtain he | ⟨chunk,-,he⟩ | ⟨bytes,closing,-,-,he⟩ | he | he | he | ⟨r,he⟩ | he := step_lane S t e d
  · rw [he] at hup ⊢
    exact hl hup
  · rw [he] at hup
    cases hup
  · rw [he] at hup
    cases hup
  · rw [he] at hup ⊢
    revert hup
    rw [Lane.push]
    split
    · exact fun h => by cases h
    · exact fun h => by cases h
    · exact fun _ => rfl
    · exact hl
  · rw [he,(t.lane d).pull_up.1] at hup
    rw [he,(t.lane d).pull_up.2.2]
    exact hl hup
  · rw [he,(t.lane d).take_up.1] at hup
    rw [he,(t.lane d).take_up.2.2]
    exact hl hup
  · rw [he] at hup ⊢
    exact hl hup
  · rw [he,(t.lane d).write_up.1] at hup
    rw [he,(t.lane d).write_up.2.2]
    exact hl hup

theorem flowing_step (ha : S.AeadLaws) (h : Flowing S earlyData t) (e : TunnelEvent) :
    Flowing S earlyData (Tunnel.step S t e) :=
  ⟨tunnelInv_step ha h.1 e,keeps_shut h.2 e⟩

theorem flowing_start (S : CipherSuite) (record : RecordLayer) (earlyData : Bytes) (zeroRtt : Bool) :
    Flowing S earlyData (Tunnel.start S record earlyData zeroRtt) := by
  refine ⟨tunnelInv_start S record earlyData zeroRtt,?_⟩
  intro d hup
  cases d with
  | clientToServer => cases hup
  | serverToClient => cases zeroRtt <;> cases hup

theorem flowing_exec (ha : S.AeadLaws) (h : Flowing S earlyData t) (events : List TunnelEvent) :
    Flowing S earlyData (t.exec S events) := by
  induction events generalizing t with
  | nil => exact h
  | cons e es ih => exact ih (flowing_step ha h e)

theorem step_falls (ha : S.AeadLaws) (h : TunnelInv S earlyData t) {e : TunnelEvent}
    (he : e.internal = true) :
    Tunnel.step S t e = t ∨ (Tunnel.step S t e).work < t.work := by
  cases e with
  | reads d chunk => cases he
  | ends d => cases he
  | seals d =>
    cases hup : (t.lane d).up with
    | sealing chunk =>
      simp only [Tunnel.step,hup]
      exact .inr (work_update _ d (seal_falls ha _ hup))
    | _ => exact .inl (by simp only [Tunnel.step,hup])
  | pushes d => exact setLane_falls (push_falls _)
  | pulls d => exact setLane_falls (pull_falls _)
  | takes d => exact setLane_falls (take_falls _)
  | opens d =>
    obtain ⟨pts,cts,hl⟩ := h d
    cases hd : (t.lane d).down with
    | opening ct =>
      simp only [Tunnel.step,hd]
      exact .inr (work_update _ d (open_falls ha hl hd))
    | _ => exact .inl (by simp only [Tunnel.step,hd])
  | writes d => exact setLane_falls (write_falls _)

theorem tunnel_ranked (S : CipherSuite) (ha : S.AeadLaws) (earlyData : Bytes) :
    Progress.Ranked (Tunnel.step S) (fun e => e.internal = true) (Flowing S earlyData)
      Tunnel.work where
  keeps := fun _ e _ h => flowing_step ha h e
  falls := fun _ _ he h => step_falls ha h.1 he

theorem settled_of_stuck (ha : S.AeadLaws) (h : TunnelInv S earlyData t)
    (hstuck : Progress.Stuck (Tunnel.step S) (fun e => e.internal = true) t) (d : Direction) :
    Settled (t.lane d) := by
  have hsame : ∀ l, t.setLane d l = t → ¬ l.work < (t.lane d).work := by
    intro l heq hlt
    have hwork := work_update t.peers d hlt
    rw [← Tunnel.setLane,heq] at hwork
    exact lt_irrefl _ hwork
  have hpush := (push_falls (t.lane d)).resolve_right (hsame _ (hstuck (.pushes d) rfl))
  have hpull := (pull_falls (t.lane d)).resolve_right (hsame _ (hstuck (.pulls d) rfl))
  have htake := (take_falls (t.lane d)).resolve_right (hsame _ (hstuck (.takes d) rfl))
  have hwrite := (write_falls (t.lane d)).resolve_right (hsame _ (hstuck (.writes d) rfl))
  refine ⟨?_,?_⟩
  · cases hup : (t.lane d).up with
    | reading => exact .inl rfl
    | done => exact .inr rfl
    | sending bytes closing => exact absurd hup (hpush.2 bytes closing)
    | sealing chunk =>
      have hseal := hstuck (.seals d) rfl
      simp only [Tunnel.step,hup] at hseal
      have hlt := work_update (t.peers.step S (.seals d chunk)).2 d
        (seal_falls (d := d) ha (t.peers.sender d) hup)
      rw [hseal] at hlt
      exact absurd hlt (lt_irrefl _)
  · cases hd : (t.lane d).down with
    | early bytes ack => exact absurd hd (hwrite.2.1 bytes ack)
    | writing pt => exact absurd hd (hwrite.2.2 pt)
    | reading ack got =>
      obtain ⟨hw,hopen⟩ := htake.2 ack got hd
      have hc := hpull.2 ack got hd hw
      simp only [hc,and_true,Bool.not_eq_true] at hopen
      exact .inl ⟨ack,got,rfl,hw,hc,hopen⟩
    | opening ct =>
      obtain ⟨pts,cts,hl⟩ := h d
      have hopen := hstuck (.opens d) rfl
      simp only [Tunnel.step,hd] at hopen
      have hlt := work_update (t.peers.step S (.opens d ct)).2 d (open_falls ha hl hd)
      rw [hopen] at hlt
      exact absurd hlt (lt_irrefl _)
    | closed => exact .inr (.inl rfl)
    | returned => exact .inr (.inr rfl)
    | failed e => exact .inr (.inr rfl)

theorem source_step {e : TunnelEvent} (he : e.internal = true) (d : Direction) :
    ((Tunnel.step S t e).lane d).consumed = (t.lane d).consumed ∧
      ((Tunnel.step S t e).lane d).up.closing = (t.lane d).up.closing := by
  obtain hl | ⟨chunk,rfl,-⟩ | ⟨bytes,closing,hopen,hends,hl⟩ | hl | hl | hl | ⟨r,hl⟩ | hl :=
    step_lane S t e d
  · rw [hl]
    exact ⟨rfl,rfl⟩
  · cases he
  · rcases hends with rfl | rfl
    · cases he
    · rw [hl,hopen]
      exact ⟨rfl,rfl⟩
  · rw [hl]
    cases hup : (t.lane d).up with
    | sending bytes closing =>
      cases bytes with
      | cons b rest => exact ⟨by simp only [Lane.push,hup],by simp only [Lane.push,hup,Up.closing]⟩
      | nil => cases closing <;> simp [Lane.push,hup,Lane.setUp,Up.closing]
    | _ => exact ⟨by simp only [Lane.push,hup],by simp only [Lane.push,hup]⟩
  · rw [hl,Lane.pull]
    split
    · split_ifs <;> exact ⟨rfl,rfl⟩
    · exact ⟨rfl,rfl⟩
  · rw [hl,Lane.take]
    split
    · split_ifs <;> exact ⟨rfl,rfl⟩
    · exact ⟨rfl,rfl⟩
  · rw [hl]
    exact ⟨rfl,rfl⟩
  · rw [hl,Lane.write]
    split <;> exact ⟨rfl,rfl⟩

theorem source_exec {events : List TunnelEvent} (he : ∀ e ∈ events, e.internal = true)
    (d : Direction) : ((t.exec S events).lane d).consumed = (t.lane d).consumed ∧
      ((t.exec S events).lane d).up.closing = (t.lane d).up.closing := by
  induction events generalizing t with
  | nil => exact ⟨rfl,rfl⟩
  | cons e es ih =>
    obtain ⟨hc,hu⟩ := source_step (S := S) (t := t) (he e (by simp)) d
    obtain ⟨hcs,hus⟩ := @ih (Tunnel.step S t e) fun f hf => he f (by simp [hf])
    exact ⟨hcs.trans hc,hus.trans hu⟩

end Tunnels

-- A round lets every task of both proxies run at least once, in any order and any number of times.
abbrev FairRound (r : List TunnelEvent) : Prop := Progress.Round (fun e => e.internal = true) r

theorem tunnel_completes (S : CipherSuite) (ha : S.AeadLaws) (record : RecordLayer)
    (earlyData : Bytes) (zeroRtt : Bool) (events : List TunnelEvent) :
    let t := (Tunnel.start S record earlyData zeroRtt).exec S events
    (∀ moves, Progress.Moving (Tunnel.step S) (fun e => e.internal = true) t moves →
      moves.length ≤ t.work) ∧
    ∀ rounds : List (List TunnelEvent), (∀ r ∈ rounds, FairRound r) → t.work ≤ rounds.length →
      ∀ d, let l := (t.exec S rounds.flatten).lane d
        l.written = due earlyData t d ∧ l.channel = [] ∧
        if (t.lane d).up.closing then l.up = .done ∧ l.down = .closed
        else l.up = .reading ∧ l.down = .reading none [] := by
  intro t
  have hflow : Flowing S earlyData t :=
    flowing_exec ha (flowing_start S record earlyData zeroRtt) events
  have hranked := tunnel_ranked S ha earlyData
  refine ⟨?_,?_⟩
  · intro moves hmoves
    have hle := Progress.moving_length hranked hflow hmoves
    omega
  · intro rounds hround hlen d l
    have hown : ∀ e ∈ rounds.flatten, e.internal = true := by
      intro e he
      obtain ⟨r,hr,hmem⟩ := List.mem_flatten.mp he
      exact (hround r hr e).mp hmem
    have hend : Flowing S earlyData (t.exec S rounds.flatten) := flowing_exec ha hflow _
    have hstuck := Progress.rounds_stuck hranked hflow hround hlen
    obtain ⟨pts,cts,hl⟩ := hend.1 d
    obtain ⟨hwritten,hchannel,hidle⟩ :=
      delivered_of_settled hl (hend.2 d) (settled_of_stuck ha hend.1 hstuck d)
    obtain ⟨hconsumed,hclosing⟩ := source_exec (S := S) (t := t) hown d
    refine ⟨?_,hchannel,?_⟩
    · rw [due,← hconsumed]
      exact hwritten
    · rw [← hclosing]
      rcases hidle with ⟨hup,hdown⟩ | ⟨hup,hdown⟩
      · have hopen : ((t.exec S rounds.flatten).lane d).up.closing = false := by rw [hup]; rfl
        rw [hopen]
        exact ⟨hup,hdown⟩
      · have hclosed : ((t.exec S rounds.flatten).lane d).up.closing = true := by rw [hup]; rfl
        rw [hclosed]
        exact ⟨hup,hdown⟩

def everyTask : List TunnelEvent :=
  [Direction.clientToServer,.serverToClient].flatMap fun d =>
    [.seals d,.pushes d,.pulls d,.takes d,.opens d,.writes d]

theorem everyTask_fair : FairRound everyTask := by
  intro e
  cases e with
  | reads d chunk => cases d <;> simp [everyTask,TunnelEvent.internal]
  | ends d => cases d <;> simp [everyTask,TunnelEvent.internal]
  | _ d => cases d <;> simp [everyTask,TunnelEvent.internal]

theorem tunnel_completes_echo :
    let t := (Tunnel.start plainSuite plainRecord (ascii "yo") true).exec plainSuite
      (List.replicate 3 (.writes .clientToServer) ++ [.writes .serverToClient,
        .reads .clientToServer (ascii "hi")])
    ((t.exec plainSuite (List.replicate t.work everyTask).flatten).lane .clientToServer).written =
      ascii "yohi" := by
  intro t
  have hall := tunnel_completes plainSuite plainSuite_aead plainRecord (ascii "yo") true
    (List.replicate 3 (.writes .clientToServer) ++ [.writes .serverToClient,
      .reads .clientToServer (ascii "hi")])
  have hrounds := hall.2 (List.replicate t.work everyTask)
    (fun r hr => List.eq_of_mem_replicate hr ▸ everyTask_fair) (by simp [t]) .clientToServer
  rw [hrounds.1]
  decide +kernel

end OrtTunnel.Net
