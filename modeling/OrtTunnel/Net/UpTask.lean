import OrtTunnel.Net.Loops

namespace OrtTunnel.Net
open BigEndian Proto OrtTunnel.Core

-- All that the `up` task of `forward` writes to the tunnel when the plain socket yields `chunks`
-- and then ends.
def upTask (S : CipherSuite) (sendDir : Direction) : RecordLayer → List Bytes → Bytes
  | _, [] => encodeFramed Frame.close.encode
  | record, chunk :: chunks =>
    encodeFramed (dataRecord sendDir (record.seal S sendDir chunk).1).encode ++
      upTask S sendDir (record.seal S sendDir chunk).2 chunks

def Up.resume (S : CipherSuite) (sendDir : Direction) (record : RecordLayer) : Up → List Bytes → Bytes
  | .reading, more => upTask S sendDir record more
  | .sealing chunk, more => upTask S sendDir record (chunk :: more)
  | .sending bytes false, more => bytes ++ upTask S sendDir record more
  | .sending bytes true, _ => bytes
  | .done, _ => []

section Residual
variable {S : CipherSuite} {d : Direction}

theorem seal_congr {r q : RecordLayer} (h : SameDir d r q) (pt : Bytes) :
    (r.seal S d pt).1 = (q.seal S d pt).1 ∧ SameDir d (r.seal S d pt).2 (q.seal S d pt).2 := by
  rw [RecordLayer.seal_eq,RecordLayer.seal_eq,h.key,h.pool]
  exact ⟨rfl,h.key,by simp⟩

theorem upTask_congr {r q : RecordLayer} (h : SameDir d r q) (chunks : List Bytes) :
    upTask S d r chunks = upTask S d q chunks := by
  induction chunks generalizing r q with
  | nil => rfl
  | cons chunk chunks ih =>
    obtain ⟨hct,hrec⟩ := seal_congr (S := S) h chunk
    rw [upTask,upTask,hct,ih hrec]

theorem upResume_congr {r q : RecordLayer} (h : SameDir d r q) (up : Up) (more : List Bytes) :
    up.resume S d r more = up.resume S d q more := by
  cases up with
  | reading => exact upTask_congr h more
  | sealing chunk => exact upTask_congr h (chunk :: more)
  | sending bytes closing =>
    cases closing with
    | false => simp only [Up.resume,upTask_congr h]
    | true => rfl
  | done => rfl

end Residual

theorem pump_upTask {S : CipherSuite} (ha : S.AeadLaws) {d : Direction} (record : RecordLayer)
    {chunks : List Bytes} (hsize : ∀ c ∈ chunks, c.length ≤ chunkSize) (rest : Bytes) :
    pump S d record (upTask S d record chunks ++ rest) = ⟨.ok (),chunks.flatten,true⟩ := by
  induction chunks generalizing record with
  | nil =>
    have hread := @readFrame_framed Frame.close.encode rest (by decide)
    have hrun := @downTask_eq S d record none (encodeFramed Frame.close.encode ++ rest)
    rw [downTask,hread] at hrun
    rw [upTask,hrun]
    simp only [onReadFrame,onBody,Frame.decode_encode .close trivial]
    rfl
  | cons chunk chunks ih =>
    have hct : (record.seal S d chunk).1.length ≤ chunkSize + tagLen := by
      rw [RecordLayer.length_seal S _ ha]
      have hchunk := hsize chunk (by simp)
      omega
    have hread := @readFrame_framed (dataRecord d (record.seal S d chunk).1).encode
      (upTask S d (record.seal S d chunk).2 chunks ++ rest) (dataRecord_fits hct)
    have hrun := @downTask_eq S d record none (upTask S d record (chunk :: chunks) ++ rest)
    rw [upTask,List.append_assoc] at hrun ⊢
    rw [downTask,hread] at hrun
    rw [hrun]
    simp only [onReadFrame,onBody,decode_dataRecord hct]
    simp only [dataRecord,Down.resume,RecordLayer.open_seal S record ha]
    rw [ih _ fun c hc => hsize c (by simp [hc])]
    rfl

theorem pump_mono {S : CipherSuite} {d : Direction} (record : RecordLayer) (stream more : Bytes) :
    (pump S d record stream).written <+: (pump S d record (stream ++ more)).written := by
  induction hn : stream.length using Nat.strong_induction_on generalizing record stream with
  | _ n ih =>
    have hcut := @downTask_eq S d record none stream
    have hlong := @downTask_eq S d record none (stream ++ more)
    rw [downTask] at hcut hlong
    rw [hcut]
    rcases readFrame_cases stream with ⟨-,he⟩ | ⟨body,rest,hfit,hs,he⟩ | ⟨e,rest,he⟩
    · rw [he]
      exact List.nil_prefix
    · have hlt : rest.length < n := by
        rw [← hn,hs,List.length_append,length_encodeFramed]
        omega
      have hread := @readFrame_framed body (rest ++ more) hfit
      rw [← List.append_assoc,← hs] at hread
      rw [hlong,he,hread]
      simp only [onReadFrame]
      cases hf : Frame.decode body with
      | error e => simpa only [onBody,hf,Down.resume] using List.prefix_rfl
      | ok f =>
        cases f with
        | dataRecord dir ct =>
          simp only [onBody,hf,Down.resume]
          rcases record.open S d ct with ⟨e | pt,after⟩
          · exact List.prefix_rfl
          · exact (List.prefix_append_right_inj pt).mpr (ih _ hlt after rest rfl)
        | _ => simpa only [onBody,hf,Down.resume] using List.prefix_rfl
    · rw [he]
      exact List.nil_prefix

theorem downTask_mono {S : CipherSuite} {d : Direction} (record : RecordLayer)
    (ack : Option (Arr 64)) (stream more : Bytes) :
    (downTask S d record ack stream).written <+:
      (downTask S d record ack (stream ++ more)).written := by
  cases ack with
  | none => exact pump_mono record stream more
  | some expected =>
    rcases readFrame_cases stream with ⟨-,he⟩ | ⟨body,rest,hfit,hs,he⟩ | ⟨e,rest,he⟩
    · rw [downTask,he]
      exact List.nil_prefix
    · have hread := @readFrame_framed body (rest ++ more) hfit
      rw [← List.append_assoc,← hs] at hread
      cases hf : Frame.decode body with
      | error e => simp [downTask,he,hf]
      | ok f =>
        cases f with
        | serverAck ekHash =>
          simp only [downTask,he,hread,hf]
          split_ifs
          · exact List.nil_prefix
          · exact pump_mono record rest more
        | _ => simp [downTask,he,hf]
    · rw [downTask,he]
      exact List.nil_prefix

-- The server writes its acknowledgement before its tasks start.
def ackBytes (S : CipherSuite) (record : RecordLayer) (zeroRtt : Bool) (d : Direction) : Bytes :=
  match expectedAck S record zeroRtt d with
  | some k => encodeFramed (Frame.serverAck k.val).encode
  | none => []

theorem downTask_ackBytes {S : CipherSuite} (record : RecordLayer) (zeroRtt : Bool) (d : Direction)
    (stream : Bytes) :
    downTask S d record (expectedAck S record zeroRtt d) (ackBytes S record zeroRtt d ++ stream) =
      pump S d record stream := by
  rw [ackBytes]
  cases expectedAck S record zeroRtt d with
  | none => rfl
  | some k =>
    rw [downTask_eq,readFrame_framed (serverAck_fits k)]
    simp only [onReadFrame,onBody,decode_serverAck,ne_eq,not_true,if_false]
    rfl

theorem forward_round_trip (S : CipherSuite) (ha : S.AeadLaws) (record : RecordLayer)
    (earlyData : Bytes) (zeroRtt : Bool) (d : Direction) (chunks : List Bytes)
    (hsize : ∀ c ∈ chunks, c.length ≤ chunkSize) :
    let stream := ackBytes S record zeroRtt d ++ upTask S d record chunks
    (∀ rest, downRun S record earlyData zeroRtt d (stream ++ rest) =
      ⟨.ok (),earlyFor earlyData d ++ chunks.flatten,true⟩) ∧
    ∀ cut, cut <+: stream → (downRun S record earlyData zeroRtt d cut).written <+:
      earlyFor earlyData d ++ chunks.flatten := by
  intro stream
  have hwhole : ∀ rest, downRun S record earlyData zeroRtt d (stream ++ rest) =
      ⟨.ok (),earlyFor earlyData d ++ chunks.flatten,true⟩ := by
    intro rest
    rw [downRun,List.append_assoc,downTask_ackBytes,pump_upTask ha record hsize]
    rfl
  refine ⟨hwhole,?_⟩
  rintro cut ⟨more,hmore⟩
  have hmono := @downTask_mono S d record (expectedAck S record zeroRtt d) cut more
  have hall : (downRun S record earlyData zeroRtt d (stream ++ [])).written =
      earlyFor earlyData d ++ chunks.flatten := by rw [hwhole]
  rw [List.append_nil,← hmore] at hall
  rw [← hall]
  exact (List.prefix_append_right_inj _).mpr hmono

theorem forward_round_trip_hi :
    downRun plainSuite plainRecord (ascii "yo") true .serverToClient
      (ackBytes plainSuite plainRecord true .serverToClient ++
        upTask plainSuite .serverToClient plainRecord [ascii "h",ascii "i"]) =
      ⟨.ok (),ascii "hi",true⟩ := by
  have h := (forward_round_trip plainSuite plainSuite_aead plainRecord (ascii "yo") true
    .serverToClient [ascii "h",ascii "i"] (by decide)).1 []
  rw [List.append_nil] at h
  exact h

def Lane.pushed (l : Lane) : Bytes :=
  match l.up with
  | .sending (b :: _) _ => [b]
  | _ => []

namespace Tunnel

def readBy (t : Tunnel) (d : Direction) : NetEvent → List Bytes
  | .moves (.reads c chunk) =>
    if c = d ∧ (t.lane d).up = .reading ∧ t.started d ∧ chunk ≠ [] ∧ chunk.length ≤ chunkSize then
      [chunk]
    else []
  | _ => []

def sentBy (t : Tunnel) (d : Direction) : NetEvent → Bytes
  | .moves (.pushes c) => if c = d then (t.lane d).pushed else []
  | _ => []

def chunks (S : CipherSuite) (t : Tunnel) (d : Direction) : List NetEvent → List Bytes
  | [] => []
  | e :: es => t.readBy d e ++ chunks S (t.attackedStep S e).2 d es

def sent (S : CipherSuite) (t : Tunnel) (d : Direction) : List NetEvent → Bytes
  | [] => []
  | e :: es => t.sentBy d e ++ sent S (t.attackedStep S e).2 d es

end Tunnel

section Tunnels
variable {S : CipherSuite} {t : Tunnel} {d : Direction} {chunks : List Bytes} {sent : Bytes}
variable {P : List Bytes → Bytes → RecordLayer → Lane → Prop}

theorem sameDir_sender_seals (s : Duplex) {c : Direction} (hc : c ≠ d) (pt : Bytes) :
    SameDir d (s.sender d) ((s.step S (.seals c pt)).2.sender d) := by
  refine ⟨(Duplex.encKey_step S s (.seals c pt) d).symm,?_⟩
  rcases Direction.eq_or_flip c d with rfl | rfl
  · exact absurd rfl hc
  · have htx := Duplex.tx_flip_seals S s c.flip pt
    rw [Direction.flip_flip] at htx
    exact htx.symm

theorem sameDir_sender_opens (s : Duplex) (c : Direction) (ct : Bytes) :
    SameDir d (s.sender d) ((s.step S (.opens c ct)).2.sender d) := by
  refine ⟨(Duplex.encKey_step S s (.opens c ct) d).symm,?_⟩
  rcases Direction.eq_or_flip c d with rfl | rfl
  · exact (Duplex.tx_opens S s _ ct).symm
  · have htx := Duplex.tx_flip_opens S s c.flip ct
    rw [Direction.flip_flip] at htx
    exact htx.symm

theorem sender_seals (s : Duplex) (pt : Bytes) :
    (s.step S (.seals d pt)).2.sender d = ((s.sender d).seal S d pt).2 := by
  simp [Duplex.step]

variable (S d P) in
structure OutboundRule : Prop where
  frame : ∀ chunks sent r q l l', SameDir d r q → l'.up = l.up → l'.consumed = l.consumed →
    P chunks sent r l → P chunks sent q l'
  read : ∀ chunks sent r l chunk, l.up = .reading → chunk ≠ [] ∧ chunk.length ≤ chunkSize →
    P chunks sent r l → P (chunks ++ [chunk]) sent r (l.read chunk)
  ends : ∀ chunks sent r l, l.up = .reading → P chunks sent r l →
    P chunks sent r (l.setUp (.sending (encodeFramed Frame.close.encode) true))
  seals : ∀ chunks sent r l chunk, l.up = .sealing chunk → P chunks sent r l →
    P chunks sent (r.seal S d chunk).2
      (l.setUp (.sending (encodeFramed (dataRecord d (r.seal S d chunk).1).encode) false))
  push : ∀ chunks sent r l, P chunks sent r l → P chunks (sent ++ l.pushed) r l.push

theorem outbound_update (hP : OutboundRule S d P) (h : P chunks sent (t.peers.sender d) (t.lane d))
    {peers : Duplex} {c : Direction} {l : Lane} {cs : List Bytes} {bs : Bytes}
    (hown : c = d → P (chunks ++ cs) (sent ++ bs) (peers.sender d) l)
    (hother : c ≠ d → cs = [] ∧ bs = [] ∧ SameDir d (t.peers.sender d) (peers.sender d)) :
    P (chunks ++ cs) (sent ++ bs) (peers.sender d)
      (Function.update t.lane c l d) := by
  by_cases hc : c = d
  · subst hc
    rw [Function.update_self]
    exact hown rfl
  · obtain ⟨rfl,rfl,hsame⟩ := hother hc
    rw [Function.update_of_ne (Ne.symm hc),List.append_nil,List.append_nil]
    exact hP.frame _ _ _ _ _ _ hsame rfl rfl h

theorem outbound_step (hP : OutboundRule S d P) (h : P chunks sent (t.peers.sender d) (t.lane d))
    (e : NetEvent) : P (chunks ++ t.readBy d e) (sent ++ t.sentBy d e)
      ((t.attackedStep S e).2.peers.sender d) ((t.attackedStep S e).2.lane d) := by
  have hstill : P (chunks ++ []) (sent ++ []) (t.peers.sender d) (t.lane d) := by
    rw [List.append_nil,List.append_nil]
    exact h
  have hdown : ∀ {peers : Duplex} {c : Direction} {l : Lane},
      SameDir d (t.peers.sender d) (peers.sender d) → (c = d → l.up = (t.lane d).up) →
      (c = d → l.consumed = (t.lane d).consumed) →
      P (chunks ++ []) (sent ++ []) (peers.sender d)
        (Function.update t.lane c l d) := by
    intro peers c l hsame hup hcons
    refine outbound_update hP h ?_ fun _ => ⟨rfl,rfl,hsame⟩
    intro hc
    exact hP.frame _ _ _ _ _ _ hsame (hup hc) (hcons hc) hstill
  have hrefl := sameDir_refl (d := d) (t.peers.sender d)
  cases e with
  | tampers c channel shut =>
    exact hdown hrefl (fun hc => by rw [hc]; rfl) (fun hc => by rw [hc]; rfl)
  | moves m =>
    cases m with
    | reads c chunk =>
      by_cases hc : c = d
      · subst hc
        simp only [Tunnel.attackedStep,Tunnel.step,Tunnel.readBy,Tunnel.sentBy,true_and]
        split_ifs with hguard
        · rw [List.append_nil]
          simp only [Tunnel.setLane,Function.update_self]
          exact hP.read _ _ _ _ _ hguard.1 hguard.2.2 h
        · exact hstill
      · simp only [Tunnel.attackedStep,Tunnel.step,Tunnel.readBy,Tunnel.sentBy,hc,false_and,if_false]
        split_ifs
        · exact hdown hrefl (fun he => absurd he hc) (fun he => absurd he hc)
        · exact hstill
    | ends c =>
      simp only [Tunnel.attackedStep,Tunnel.step,Tunnel.readBy,Tunnel.sentBy]
      split_ifs with hguard
      · refine outbound_update hP h ?_ fun _ => ⟨rfl,rfl,hrefl⟩
        rintro rfl
        rw [List.append_nil,List.append_nil]
        exact hP.ends _ _ _ _ hguard.1 h
      · exact hstill
    | seals c =>
      simp only [Tunnel.attackedStep,Tunnel.readBy,Tunnel.sentBy]
      cases hup : (t.lane c).up with
      | sealing chunk =>
        simp only [Tunnel.step,hup]
        refine outbound_update hP h ?_ fun hc => ⟨rfl,rfl,sameDir_sender_seals _ hc _⟩
        rintro rfl
        rw [List.append_nil,List.append_nil,sender_seals]
        exact hP.seals _ _ _ _ _ hup h
      | _ => simpa only [Tunnel.step,hup] using hstill
    | pushes c =>
      refine outbound_update hP h ?_ ?_
      · rintro rfl
        simp only [Tunnel.readBy,Tunnel.sentBy,if_true,List.append_nil]
        exact hP.push _ _ _ _ h
      · intro hc
        exact ⟨rfl,by simp [Tunnel.sentBy,hc],hrefl⟩
    | pulls c =>
      refine hdown hrefl ?_ ?_
      · rintro rfl
        exact (t.lane c).pull_up.1
      · rintro rfl
        exact (t.lane c).pull_up.2.1
    | takes c =>
      refine hdown hrefl ?_ ?_
      · rintro rfl
        exact (t.lane c).take_up.1
      · rintro rfl
        exact (t.lane c).take_up.2.1
    | opens c =>
      simp only [Tunnel.attackedStep,Tunnel.readBy,Tunnel.sentBy]
      cases hd : (t.lane c).down with
      | opening ct =>
        simp only [Tunnel.step,hd]
        exact hdown (sameDir_sender_opens _ _ _) (fun hc => by rw [hc]; rfl)
          (fun hc => by rw [hc]; rfl)
      | _ => simpa only [Tunnel.step,hd] using hstill
    | writes c =>
      refine hdown hrefl ?_ ?_
      · rintro rfl
        exact (t.lane c).write_up.1
      · rintro rfl
        exact (t.lane c).write_up.2.1

theorem outbound_run (hP : OutboundRule S d P) (h : P chunks sent (t.peers.sender d) (t.lane d))
    (es : List NetEvent) : P (chunks ++ t.chunks S d es) (sent ++ t.sent S d es)
      ((Machine.run (Tunnel.attackedStep S) t es).2.peers.sender d)
      ((Machine.run (Tunnel.attackedStep S) t es).2.lane d) := by
  induction es generalizing t chunks sent with
  | nil =>
    rw [Tunnel.chunks,Tunnel.sent,List.append_nil,List.append_nil]
    exact h
  | cons e es ih =>
    rw [Tunnel.chunks,Tunnel.sent,← List.append_assoc,← List.append_assoc]
    exact ih (outbound_step hP h e)

end Tunnels

structure Produces (S : CipherSuite) (d : Direction) (whole : List Bytes → Bytes)
    (chunks : List Bytes) (sent : Bytes) (record : RecordLayer) (l : Lane) : Prop where
  runs : ∀ more, (l.up.closing = true → more = []) →
    whole (chunks ++ more) = sent ++ l.up.resume S d record more
  consumed : l.consumed = chunks.flatten
  sizes : ∀ c ∈ chunks, c ≠ [] ∧ c.length ≤ chunkSize

section Lanes
variable {S : CipherSuite} {d : Direction} {whole : List Bytes → Bytes} {chunks : List Bytes}
variable {sent : Bytes} {record : RecordLayer} {l : Lane}

theorem produces_of_eq (h : Produces S d whole chunks sent record l) {q : RecordLayer} {l' : Lane}
    (hq : SameDir d record q) (hup : l'.up = l.up) (hc : l'.consumed = l.consumed) :
    Produces S d whole chunks sent q l' := by
  refine ⟨?_,hc.trans h.consumed,h.sizes⟩
  rw [hup]
  intro more hmore
  rw [← upResume_congr hq]
  exact h.runs more hmore

theorem produces_read (h : Produces S d whole chunks sent record l) (hup : l.up = .reading)
    {chunk : Bytes} (hchunk : chunk ≠ [] ∧ chunk.length ≤ chunkSize) :
    Produces S d whole (chunks ++ [chunk]) sent record (l.read chunk) := by
  refine ⟨?_,?_,?_⟩
  · intro more _
    have hrun := h.runs (chunk :: more) (by rw [hup]; exact fun hend => by cases hend)
    rw [hup] at hrun
    rw [List.append_assoc]
    exact hrun
  · simp [Lane.read,h.consumed]
  · intro c hc
    rcases List.mem_append.mp hc with hc | hc
    · exact h.sizes c hc
    · rw [List.mem_singleton.mp hc]
      exact hchunk

theorem produces_end (h : Produces S d whole chunks sent record l) (hup : l.up = .reading) :
    Produces S d whole chunks sent record
      (l.setUp (.sending (encodeFramed Frame.close.encode) true)) := by
  refine ⟨?_,h.consumed,h.sizes⟩
  intro more hmore
  obtain rfl := hmore rfl
  have hrun := h.runs [] fun _ => rfl
  rw [hup] at hrun
  exact hrun

theorem produces_seal (h : Produces S d whole chunks sent record l) {chunk : Bytes}
    (hup : l.up = .sealing chunk) :
    Produces S d whole chunks sent (record.seal S d chunk).2
      (l.setUp (.sending (encodeFramed (dataRecord d (record.seal S d chunk).1).encode) false)) := by
  refine ⟨?_,h.consumed,h.sizes⟩
  intro more _
  have hrun := h.runs more (by rw [hup]; exact fun hend => by cases hend)
  rw [hup] at hrun
  exact hrun

theorem produces_push (h : Produces S d whole chunks sent record l) :
    Produces S d whole chunks (sent ++ l.pushed) record l.push := by
  cases hup : l.up with
  | sending bytes closing =>
    have hrun := h.runs
    rw [hup] at hrun
    cases bytes with
    | cons b rest =>
      simp only [Lane.pushed,Lane.push,hup]
      refine ⟨?_,h.consumed,h.sizes⟩
      intro more hmore
      rw [hrun more hmore]
      cases closing <;> simp [Up.resume]
    | nil =>
      cases closing with
      | false =>
        simp only [Lane.pushed,Lane.push,hup,List.append_nil]
        refine ⟨?_,h.consumed,h.sizes⟩
        intro more hmore
        exact hrun more fun hend => by cases hend
      | true =>
        simp only [Lane.pushed,Lane.push,hup,List.append_nil]
        refine ⟨?_,h.consumed,h.sizes⟩
        intro more hmore
        exact hrun more hmore
  | _ => simpa [Lane.pushed,Lane.push,hup] using h

variable (S d whole) in
theorem produces_rule : OutboundRule S d (Produces S d whole) where
  frame := fun _ _ _ _ _ _ hq hup hc h => produces_of_eq h hq hup hc
  read := fun _ _ _ _ _ hup hchunk h => produces_read h hup hchunk
  ends := fun _ _ _ _ hup h => produces_end h hup
  seals := fun _ _ _ _ _ hup h => produces_seal h hup
  push := fun _ _ _ _ h => produces_push h

end Lanes

theorem produces_start (S : CipherSuite) (record : RecordLayer) (earlyData : Bytes) (zeroRtt : Bool)
    (d : Direction) : Produces S d (upTask S d record) [] []
      ((Tunnel.start S record earlyData zeroRtt).peers.sender d)
      ((Tunnel.start S record earlyData zeroRtt).lane d) := by
  cases d with
  | clientToServer => exact ⟨fun _ _ => rfl,rfl,fun _ hc => by cases hc⟩
  | serverToClient =>
    cases zeroRtt with
    | false => exact ⟨fun _ _ => rfl,rfl,fun _ hc => by cases hc⟩
    | true => exact ⟨fun _ _ => rfl,rfl,fun _ hc => by cases hc⟩

theorem up_task_refined (S : CipherSuite) (record : RecordLayer) (earlyData : Bytes)
    (zeroRtt : Bool) (es : List NetEvent) (d : Direction) :
    let start := Tunnel.start S record earlyData zeroRtt
    let l := (Machine.run (Tunnel.attackedStep S) start es).2.lane d
    let chunks := start.chunks S d es
    let sent := start.sent S d es
    l.consumed = chunks.flatten ∧ (∀ c ∈ chunks, c ≠ [] ∧ c.length ≤ chunkSize) ∧
    (∀ more, (l.up.closing = true → more = []) → sent <+: upTask S d record (chunks ++ more)) ∧
    (l.up = .done → sent = upTask S d record chunks) := by
  intro start l chunks sent
  have h := outbound_run (produces_rule S d (upTask S d record))
    (produces_start S record earlyData zeroRtt d) es
  rw [List.nil_append,List.nil_append] at h
  refine ⟨h.consumed,h.sizes,?_,?_⟩
  · intro more hmore
    rw [h.runs more hmore]
    exact List.prefix_append _ _
  · intro hdone
    have hrun := h.runs [] fun _ => rfl
    change upTask S d record (chunks ++ []) = sent ++ l.up.resume S d _ [] at hrun
    rw [List.append_nil,hdone] at hrun
    simpa [Up.resume] using hrun.symm

end OrtTunnel.Net
