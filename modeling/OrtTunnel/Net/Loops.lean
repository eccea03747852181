import OrtTunnel.Net.Progress
import OrtTunnel.Net.Truncation

namespace OrtTunnel.Net
open BigEndian Proto OrtTunnel.Core

-- How the `down` task of `forward` ends: its result, what it wrote to the plain socket, and
-- whether it reached `pw.shutdown()`.
structure DownRun where
  result : Except OrtError Unit
  written : Bytes
  reachedShutdown : Bool

def DownRun.writes (o : DownRun) (pt : Bytes) : DownRun := ⟨o.result,pt ++ o.written,o.reachedShutdown⟩

section DownTask
variable (S : CipherSuite) (recvDir : Direction)

def pump (record : RecordLayer) (stream : Bytes) : DownRun :=
  match _h : readFrame stream with
  | (.error e,_) => ⟨.error (.io e),[],false⟩
  | (.ok none,_) => ⟨.ok (),[],true⟩
  | (.ok (some body),rest) =>
    match Frame.decode body with
    | .error e => ⟨.error (.proto e),[],false⟩
    | .ok (.dataRecord _ ciphertext) =>
      match record.open S recvDir ciphertext with
      | (.error e,_) => ⟨.error (.io (.invalidText e.message)),[],false⟩
      | (.ok pt,record) => (pump record rest).writes pt
    | .ok .close => ⟨.ok (),[],true⟩
    | .ok _ => ⟨.error (.unexpected "expected DataRecord"),[],false⟩
termination_by stream.length
decreasing_by
  rw [(readFrame_some _h).2,List.length_append,length_encodeFramed]
  omega

def downTask (record : RecordLayer) (expectAck : Option (Arr 64)) (stream : Bytes) : DownRun :=
  match expectAck with
  | none => pump S recvDir record stream
  | some expected =>
    match readFrame stream with
    | (.error e,_) => ⟨.error (.io e),[],false⟩
    | (.ok none,_) => ⟨.ok (),[],false⟩
    | (.ok (some body),rest) =>
      match Frame.decode body with
      | .error e => ⟨.error (.proto e),[],false⟩
      | .ok (.serverAck ekHash) =>
        if ekHash ≠ expected.val then ⟨.error .keyConfirmation,[],false⟩
        else pump S recvDir record rest
      | .ok _ => ⟨.error (.unexpected "expected ServerAck"),[],false⟩

def Down.resume (record : RecordLayer) : Down → Bytes → DownRun
  | .early bytes ack, more => (downTask S recvDir record ack more).writes bytes
  | .reading ack got, more => downTask S recvDir record ack (got ++ more)
  | .opening ct, more =>
    match record.open S recvDir ct with
    | (.error e,_) => ⟨.error (.io (.invalidText e.message)),[],false⟩
    | (.ok pt,record) => (pump S recvDir record more).writes pt
  | .writing pt, more => (pump S recvDir record more).writes pt
  | .closed, _ => ⟨.ok (),[],true⟩
  | .returned, _ => ⟨.ok (),[],false⟩
  | .failed e, _ => ⟨.error e,[],false⟩

end DownTask

namespace DownRun

@[simp] theorem writes_nil (o : DownRun) : o.writes [] = o := rfl

@[simp] theorem writes_writes (o : DownRun) (a b : Bytes) : (o.writes a).writes b = o.writes (b ++ a) := by
  simp [writes]

end DownRun

section Residual
variable {S : CipherSuite} {d : Direction}

theorem downTask_eq (record : RecordLayer) (ack : Option (Arr 64)) (stream : Bytes) :
    downTask S d record ack stream =
      (onReadFrame ack (readFrame stream).1).resume S d record (readFrame stream).2 := by
  cases ack with
  | none =>
    rw [downTask,pump]
    split <;> rename_i heq <;> simp only [heq,onReadFrame]
    · rfl
    · rfl
    · rename_i body rest
      cases hf : Frame.decode body with
      | error e => simp [onBody,hf,Down.resume]
      | ok f => cases f <;> simp [onBody,hf,Down.resume]
  | some expected =>
    rw [downTask]
    split <;> rename_i heq <;> simp only [heq,onReadFrame]
    · rfl
    · rfl
    · rename_i body rest
      cases hf : Frame.decode body with
      | error e => simp [onBody,hf,Down.resume]
      | ok f =>
        cases f with
        | serverAck ekHash =>
          simp only [onBody,hf]
          split_ifs
          · rfl
          · simp [Down.resume,downTask]
        | _ => simp [onBody,hf,Down.resume]

-- The tasks of one side share a record layer, each using it in its own direction.
structure SameDir (d : Direction) (r q : RecordLayer) : Prop where
  key : r.keys.encKey = q.keys.encKey
  pool : r.pool.dir d = q.pool.dir d

theorem open_congr {r q : RecordLayer} (h : SameDir d r q) (ct : Bytes) :
    (r.open S d ct).1 = (q.open S d ct).1 ∧ SameDir d (r.open S d ct).2 (q.open S d ct).2 := by
  rw [RecordLayer.open_eq,RecordLayer.open_eq,h.key,h.pool]
  exact ⟨rfl,h.key,by simp⟩

theorem pump_congr {r q : RecordLayer} (h : SameDir d r q) (stream : Bytes) :
    pump S d r stream = pump S d q stream := by
  induction hn : stream.length using Nat.strong_induction_on generalizing r q stream with
  | _ n ih =>
    have hr := @downTask_eq S d r none stream
    have hq := @downTask_eq S d q none stream
    rw [downTask] at hr hq
    rw [hr,hq]
    rcases readFrame_cases stream with ⟨-,he⟩ | ⟨body,rest,-,hs,he⟩ | ⟨e,rest,he⟩
    · rw [he]
      rfl
    · rw [he]
      have hlt : rest.length < n := by
        rw [← hn,hs,List.length_append,length_encodeFramed]
        omega
      simp only [onReadFrame]
      cases hf : Frame.decode body with
      | error e => simp only [onBody,hf,Down.resume]
      | ok f =>
        cases f with
        | dataRecord dir ct =>
          obtain ⟨hres,hrec⟩ := open_congr (S := S) h ct
          simp only [onBody,hf,Down.resume]
          rcases hor : r.open S d ct with ⟨res,r'⟩
          rcases hoq : q.open S d ct with ⟨res',q'⟩
          rw [hor,hoq] at hres hrec
          obtain rfl : res = res' := hres
          cases res with
          | error e => rfl
          | ok pt => simp only [ih _ hlt hrec rest rfl]
        | _ => simp only [onBody,hf,Down.resume]
    · rw [he]
      rfl

theorem downTask_congr {r q : RecordLayer} (h : SameDir d r q) (ack : Option (Arr 64))
    (stream : Bytes) : downTask S d r ack stream = downTask S d q ack stream := by
  cases ack with
  | none => exact pump_congr h stream
  | some expected => simp only [downTask,pump_congr h]

theorem resume_congr {r q : RecordLayer} (h : SameDir d r q) (down : Down) (more : Bytes) :
    down.resume S d r more = down.resume S d q more := by
  cases down with
  | early bytes ack => simp only [Down.resume,downTask_congr h]
  | reading ack got => simp only [Down.resume,downTask_congr h]
  | opening ct =>
    obtain ⟨hres,hrec⟩ := open_congr (S := S) h ct
    rcases hor : r.open S d ct with ⟨res,r'⟩
    rcases hoq : q.open S d ct with ⟨res',q'⟩
    rw [hor,hoq] at hres hrec
    obtain rfl : res = res' := hres
    simp only [Down.resume,hor,hoq]
    cases res with
    | error e => rfl
    | ok pt => simp only [pump_congr hrec]
  | writing pt => simp only [Down.resume,pump_congr h]
  | closed => rfl
  | returned => rfl
  | failed e => rfl

end Residual

-- The byte that a `pulls` event hands to `read_exact`.
def Lane.fetch (l : Lane) : Bytes :=
  match l.down,l.channel with
  | .reading _ got,b :: _ => if waiting got then [b] else []
  | _,_ => []

namespace Tunnel

def fetched (t : Tunnel) (d : Direction) : NetEvent → Bytes
  | .moves (.pulls c) => if c = d then (t.lane d).fetch else []
  | _ => []

def fed (S : CipherSuite) (t : Tunnel) (d : Direction) : List NetEvent → Bytes
  | [] => []
  | e :: es => t.fetched d e ++ fed S (t.attackedStep S e).2 d es

end Tunnel

section Tunnels
variable {S : CipherSuite} {t : Tunnel} {d : Direction} {P : Bytes → RecordLayer → Lane → Prop}
variable {fed : Bytes}

theorem sameDir_refl (r : RecordLayer) : SameDir d r r := ⟨rfl,rfl⟩

theorem sameDir_seals (s : Duplex) (c : Direction) (pt : Bytes) :
    SameDir d (s.receiver d) ((s.step S (.seals c pt)).2.receiver d) := by
  refine ⟨(Duplex.encKey_step S s (.seals c pt) d.flip).symm,?_⟩
  rcases Direction.eq_or_flip c d with rfl | rfl
  · exact (Duplex.rx_seals S s _ pt).symm
  · have hrx := Duplex.rx_flip_seals S s c.flip pt
    rw [Direction.flip_flip] at hrx
    exact hrx.symm

theorem sameDir_opens (s : Duplex) {c : Direction} (hc : c ≠ d) (ct : Bytes) :
    SameDir d (s.receiver d) ((s.step S (.opens c ct)).2.receiver d) := by
  refine ⟨(Duplex.encKey_step S s (.opens c ct) d.flip).symm,?_⟩
  rcases Direction.eq_or_flip c d with rfl | rfl
  · exact absurd rfl hc
  · have hrx := Duplex.rx_flip_opens S s c.flip ct
    rw [Direction.flip_flip] at hrx
    exact hrx.symm

theorem receiver_opens (s : Duplex) (ct : Bytes) :
    (s.step S (.opens d ct)).2.receiver d = ((s.receiver d).open S d ct).2 := by
  simp [Duplex.step,Duplex.receiver,Duplex.setReceiver]

variable (S d P) in
structure InboundRule : Prop where
  frame : ∀ fed r q l l', SameDir d r q → l'.down = l.down → l'.written = l.written →
    P fed r l → P fed q l'
  pull : ∀ fed r l, P fed r l → P (fed ++ l.fetch) r l.pull
  take : ∀ fed r l, P fed r l → P fed r l.take
  write : ∀ fed r l, P fed r l → P fed r l.write
  opens : ∀ fed r l ct, l.down = .opening ct → P fed r l →
    P fed (r.open S d ct).2 (l.setDown (onOpen (r.open S d ct).1))

theorem inbound_update (hP : InboundRule S d P) (h : P fed (t.peers.receiver d) (t.lane d))
    {peers : Duplex} {c : Direction} {l : Lane} {more : Bytes}
    (hown : c = d → P (fed ++ more) (peers.receiver d) l)
    (hother : c ≠ d → more = [] ∧ SameDir d (t.peers.receiver d) (peers.receiver d)) :
    P (fed ++ more) (peers.receiver d) (Function.update t.lane c l d) := by
  by_cases hc : c = d
  · subst hc
    rw [Function.update_self]
    exact hown rfl
  · obtain ⟨rfl,hsame⟩ := hother hc
    rw [Function.update_of_ne (Ne.symm hc),List.append_nil]
    exact hP.frame _ _ _ _ _ hsame rfl rfl h

theorem inbound_setLane (hP : InboundRule S d P) (h : P fed (t.peers.receiver d) (t.lane d))
    {c : Direction} {l : Lane} (hown : c = d → P fed (t.peers.receiver d) l) :
    P (fed ++ []) (t.peers.receiver d) ((t.setLane c l).lane d) := by
  refine inbound_update hP h ?_ fun _ => ⟨rfl,sameDir_refl _⟩
  rw [List.append_nil]
  exact hown

theorem inbound_step (hP : InboundRule S d P) (h : P fed (t.peers.receiver d) (t.lane d))
    (e : NetEvent) : P (fed ++ t.fetched d e) ((t.attackedStep S e).2.peers.receiver d)
      ((t.attackedStep S e).2.lane d) := by
  have hsame : P (fed ++ []) (t.peers.receiver d) (t.lane d) := by
    rw [List.append_nil]
    exact h
  have hup : ∀ {c : Direction} {l : Lane}, (c = d → l.down = (t.lane d).down) →
      (c = d → l.written = (t.lane d).written) →
      P (fed ++ []) (t.peers.receiver d) ((t.setLane c l).lane d) := fun hd hw =>
    inbound_setLane hP h fun hc => hP.frame _ _ _ _ _ (sameDir_refl _) (hd hc) (hw hc) h
  cases e with
  | tampers c channel shut => exact hup (fun hc => by rw [hc]; rfl) (fun hc => by rw [hc]; rfl)
  | moves m =>
    cases m with
    | reads c chunk =>
      simp only [Tunnel.attackedStep,Tunnel.step,Tunnel.fetched]
      split_ifs
      · exact hup (fun hc => by rw [hc]; rfl) (fun hc => by rw [hc]; rfl)
      · exact hsame
    | ends c =>
      simp only [Tunnel.attackedStep,Tunnel.step,Tunnel.fetched]
      split_ifs
      · exact hup (fun hc => by rw [hc]; rfl) (fun hc => by rw [hc]; rfl)
      · exact hsame
    | seals c =>
      simp only [Tunnel.attackedStep,Tunnel.fetched]
      cases hs : (t.lane c).up with
      | sealing chunk =>
        simp only [Tunnel.step,hs]
        refine inbound_update hP h ?_ fun _ => ⟨rfl,sameDir_seals _ _ _⟩
        rintro rfl
        rw [List.append_nil]
        exact hP.frame _ _ _ (t.lane c) _ (sameDir_seals _ _ _) rfl rfl h
      | _ => simpa only [Tunnel.step,hs] using hsame
    | pushes c =>
      refine hup ?_ ?_
      · rintro rfl
        exact (t.lane c).push_down.1
      · rintro rfl
        exact (t.lane c).push_down.2
    | pulls c =>
      refine inbound_update hP h ?_ ?_
      · rintro rfl
        simp only [Tunnel.fetched,if_true]
        exact hP.pull _ _ _ h
      · intro hc
        exact ⟨by simp [Tunnel.fetched,hc],sameDir_refl _⟩
    | takes c =>
      refine inbound_setLane hP h ?_
      rintro rfl
      exact hP.take _ _ _ h
    | opens c =>
      simp only [Tunnel.attackedStep,Tunnel.fetched]
      cases hd : (t.lane c).down with
      | opening ct =>
        simp only [Tunnel.step,hd]
        refine inbound_update hP h ?_ fun hc => ⟨rfl,sameDir_opens _ hc _⟩
        rintro rfl
        rw [List.append_nil,receiver_opens]
        exact hP.opens _ _ _ _ hd h
      | _ => simpa only [Tunnel.step,hd] using hsame
    | writes c =>
      refine inbound_setLane hP h ?_
      rintro rfl
      exact hP.write _ _ _ h

theorem inbound_run (hP : InboundRule S d P) (h : P fed (t.peers.receiver d) (t.lane d))
    (es : List NetEvent) : P (fed ++ t.fed S d es)
      ((Machine.run (Tunnel.attackedStep S) t es).2.peers.receiver d)
      ((Machine.run (Tunnel.attackedStep S) t es).2.lane d) := by
  induction es generalizing t fed with
  | nil =>
    rw [Tunnel.fed,List.append_nil]
    exact h
  | cons e es ih =>
    rw [Tunnel.fed,← List.append_assoc]
    exact ih (inbound_step hP h e)

end Tunnels

def Down.ended : Down → Bool
  | .closed => true
  | .returned => true
  | .failed _ => true
  | _ => false

structure Follows (S : CipherSuite) (d : Direction) (whole : Bytes → DownRun) (fed : Bytes)
    (record : RecordLayer) (l : Lane) : Prop where
  runs : ∀ more, (l.down.ended = true → more = []) →
    whole (fed ++ more) = (l.down.resume S d record more).writes l.written
  tight : ∀ got b, l.down.got = got ++ [b] → waiting got = true

section Lanes
variable {S : CipherSuite} {d : Direction} {whole : Bytes → DownRun} {fed : Bytes}
variable {record : RecordLayer} {l : Lane}

theorem follows_of_eq (h : Follows S d whole fed record l) {q : RecordLayer} {l' : Lane}
    (hq : SameDir d record q) (hd : l'.down = l.down) (hw : l'.written = l.written) :
    Follows S d whole fed q l' := by
  refine ⟨?_,?_⟩
  · rw [hd,hw]
    intro more hmore
    rw [← resume_congr hq]
    exact h.runs more hmore
  · rw [hd]
    exact h.tight

theorem follows_pull (h : Follows S d whole fed record l) :
    Follows S d whole (fed ++ l.fetch) record l.pull := by
  cases hd : l.down with
  | reading ack got =>
    cases hc : l.channel with
    | nil => simpa [Lane.fetch,Lane.pull,hd,hc] using h
    | cons b rest =>
      cases hw : waiting got with
      | false => simpa [Lane.fetch,Lane.pull,hd,hc,hw] using h
      | true =>
        simp only [Lane.fetch,Lane.pull,hd,hc,hw,if_true]
        refine ⟨?_,?_⟩
        · intro more _
          have hb := h.runs (b :: more) (by rw [hd]; exact fun hend => by cases hend)
          rw [hd] at hb
          simpa [Down.resume] using hb
        · intro init c hgot
          obtain ⟨rfl,-⟩ := List.append_inj' hgot rfl
          exact hw
  | _ => simpa [Lane.fetch,Lane.pull,hd] using h

-- `read_exact` never asks for more than the frame needs.
theorem readFrame_tight {got : Bytes} (ht : ∀ init b, got = init ++ [b] → waiting init = true)
    {body rest : Bytes} (hr : readFrame got = (.ok (some body),rest)) : rest = [] := by
  obtain ⟨hfit,hgot⟩ := readFrame_some hr
  rcases List.eq_nil_or_concat rest with rfl | ⟨init,b,rfl⟩
  · rfl
  · rw [List.concat_eq_append,← List.append_assoc] at hgot
    have hw := ht _ b hgot
    rw [waiting,readFrame_framed hfit] at hw
    cases hw

theorem got_onReadFrame (ack : Option (Arr 64)) (r : Except IoError (Option Bytes)) :
    (onReadFrame ack r).got = [] := by
  rcases r with e | _ | body
  · rfl
  · rw [onReadFrame]
    split_ifs <;> rfl
  · simp only [onReadFrame]
    cases ack with
    | some expected =>
      cases hf : Frame.decode body with
      | error e => simp only [onBody,hf,Down.got]
      | ok f =>
        cases f with
        | serverAck ekHash =>
          simp only [onBody,hf]
          split_ifs <;> rfl
        | _ => simp only [onBody,hf,Down.got]
    | none =>
      cases hf : Frame.decode body with
      | error e => simp only [onBody,hf,Down.got]
      | ok f => cases f <;> simp only [onBody,hf,Down.got]

theorem resume_ended {down : Down} (h : down.ended = true) (a b : Bytes) :
    down.resume S d record a = down.resume S d record b := by
  cases down with
  | closed => rfl
  | returned => rfl
  | failed e => rfl
  | _ => cases h

theorem follows_take (h : Follows S d whole fed record l) :
    Follows S d whole fed record l.take := by
  cases hd : l.down with
  | reading ack got =>
    by_cases hready : waiting got ∧ ¬ (l.shut ∧ l.channel = [])
    · simpa only [Lane.take,hd,if_pos hready] using h
    have hrun := h.runs
    have htight := h.tight
    simp only [hd,Down.resume,Down.got] at hrun htight
    simp only [Lane.take,hd,if_neg hready,Lane.setDown]
    refine ⟨?_,?_⟩
    · intro more hmore
      rw [hrun more (fun hend => by cases hend),downTask_eq]
      have hstop : ∀ r rest, readFrame got = (r,rest) → (onReadFrame ack r).ended = true →
          ((onReadFrame ack (readFrame (got ++ more)).1).resume S d record
            (readFrame (got ++ more)).2).writes l.written =
          ((onReadFrame ack (readFrame got).1).resume S d record more).writes l.written := by
        intro r rest he hend
        obtain rfl := hmore (by simpa only [he] using hend)
        rw [List.append_nil,he,resume_ended hend]
      rcases readFrame_cases got with ⟨-,he⟩ | ⟨body,rest,hfit,hgot,he⟩ | ⟨e,rest,he⟩
      · refine hstop _ _ he ?_
        rw [onReadFrame]
        split_ifs <;> rfl
      · obtain rfl := readFrame_tight htight he
        have hmoreread := @readFrame_framed body more hfit
        rw [List.append_nil] at hgot
        rw [← hgot] at hmoreread
        rw [hmoreread,he]
      · exact hstop _ _ he rfl
    · rw [got_onReadFrame]
      intro init b hnil
      simp at hnil
  | _ => simpa only [Lane.take,hd] using h

theorem follows_write (h : Follows S d whole fed record l) :
    Follows S d whole fed record l.write := by
  cases hd : l.down with
  | early bytes ack =>
    have hrun := h.runs
    simp only [hd,Down.resume] at hrun
    cases bytes with
    | cons b rest =>
      simp only [Lane.write,hd]
      refine ⟨?_,fun _ _ hg => by simp [Down.got] at hg⟩
      intro more _
      rw [hrun more fun hend => by cases hend]
      simp [Down.resume]
    | nil =>
      simp only [Lane.write,hd,Lane.setDown]
      refine ⟨?_,fun _ _ hg => by simp [Down.got] at hg⟩
      intro more _
      rw [hrun more fun hend => by cases hend]
      simp [Down.resume]
  | writing pt =>
    have hrun := h.runs
    simp only [hd,Down.resume] at hrun
    cases pt with
    | cons b rest =>
      simp only [Lane.write,hd]
      refine ⟨?_,fun _ _ hg => by simp [Down.got] at hg⟩
      intro more _
      rw [hrun more fun hend => by cases hend]
      simp [Down.resume]
    | nil =>
      simp only [Lane.write,hd,Lane.setDown]
      refine ⟨?_,fun _ _ hg => by simp [Down.got] at hg⟩
      intro more _
      rw [hrun more fun hend => by cases hend]
      simp [Down.resume,downTask]
  | _ => simpa only [Lane.write,hd] using h

theorem follows_open (h : Follows S d whole fed record l) {ct : Bytes} (hd : l.down = .opening ct) :
    Follows S d whole fed (record.open S d ct).2
      (l.setDown (onOpen (record.open S d ct).1)) := by
  have hrun := h.runs
  simp only [hd,Down.resume] at hrun
  rcases ho : record.open S d ct with ⟨res,after⟩
  simp only [ho] at hrun
  cases res with
  | error e =>
    refine ⟨?_,fun _ _ hg => by simp [Lane.setDown,onOpen,Down.got] at hg⟩
    intro more _
    exact hrun more fun hend => by cases hend
  | ok pt =>
    refine ⟨?_,fun _ _ hg => by simp [Lane.setDown,onOpen,Down.got] at hg⟩
    intro more _
    exact hrun more fun hend => by cases hend

variable (S d whole) in
theorem follows_rule : InboundRule S d (Follows S d whole) where
  frame := fun _ _ _ _ _ hq hd hw h => follows_of_eq h hq hd hw
  pull := fun _ _ _ => follows_pull
  take := fun _ _ _ => follows_take
  write := fun _ _ _ => follows_write
  opens := fun _ _ _ _ hd h => follows_open h hd

end Lanes

def expectedAck (S : CipherSuite) (record : RecordLayer) (zeroRtt : Bool) : Direction → Option (Arr 64)
  | .clientToServer => none
  | .serverToClient => if zeroRtt then some (record.encKeyHash S) else none

-- Early data is flushed before the loop starts.
def downRun (S : CipherSuite) (record : RecordLayer) (earlyData : Bytes) (zeroRtt : Bool)
    (d : Direction) (stream : Bytes) : DownRun :=
  (downTask S d record (expectedAck S record zeroRtt d) stream).writes (earlyFor earlyData d)

theorem follows_start (S : CipherSuite) (record : RecordLayer) (earlyData : Bytes) (zeroRtt : Bool)
    (d : Direction) : Follows S d (downRun S record earlyData zeroRtt d) []
      ((Tunnel.start S record earlyData zeroRtt).peers.receiver d)
      ((Tunnel.start S record earlyData zeroRtt).lane d) := by
  cases d with
  | clientToServer => exact ⟨fun _ _ => rfl,fun _ _ hg => by simp [Tunnel.start,Down.got] at hg⟩
  | serverToClient =>
    cases zeroRtt with
    | false => exact ⟨fun _ _ => rfl,fun _ _ hg => by simp [Tunnel.start,Down.got] at hg⟩
    | true => exact ⟨fun _ _ => rfl,fun _ _ hg => by simp [Tunnel.start,Down.got] at hg⟩

def Down.result : Down → Except OrtError Unit
  | .failed e => .error e
  | _ => .ok ()

theorem down_task_refined (S : CipherSuite) (record : RecordLayer) (earlyData : Bytes)
    (zeroRtt : Bool) (es : List NetEvent) (d : Direction) :
    let start := Tunnel.start S record earlyData zeroRtt
    let l := (Machine.run (Tunnel.attackedStep S) start es).2.lane d
    let task := downRun S record earlyData zeroRtt d
    (l.down.ended = true →
      task (start.fed S d es) = ⟨l.down.result,l.written,decide (l.down = .closed)⟩) ∧
    (l.down.ended = false →
      ∀ more, l.written <+: (task (start.fed S d es ++ more)).written) := by
  intro start l task
  have h := inbound_run (follows_rule S d task) (follows_start S record earlyData zeroRtt d) es
  rw [List.nil_append] at h
  refine ⟨?_,?_⟩
  · intro hend
    have hrun := h.runs [] fun _ => rfl
    rw [List.append_nil] at hrun
    change task _ = (l.down.resume S d _ []).writes l.written at hrun
    rw [hrun]
    cases hd : l.down with
    | closed => simp [Down.resume,DownRun.writes,Down.result]
    | returned => simp [Down.resume,DownRun.writes,Down.result]
    | failed e => simp [Down.resume,DownRun.writes,Down.result]
    | _ =>
      rw [hd] at hend
      cases hend
  · intro hrunning more
    have hrun := h.runs more fun hend => absurd (hend.symm.trans hrunning) (by simp)
    change task _ = (l.down.resume S d _ more).writes l.written at hrun
    rw [hrun]
    exact List.prefix_append _ _

end OrtTunnel.Net
