import OrtTunnel.Net.UpTask

namespace OrtTunnel.Net
open BigEndian Proto OrtTunnel.Core

-- By length; all but `buf` are alive only while `write_frame` runs.
structure UpVectors where
  buf : ℕ
  ciphertext : ℕ
  encoded : ℕ
  framed : ℕ
  deriving DecidableEq

structure DownVectors where
  body : ℕ
  ciphertext : ℕ
  plain : ℕ
  deriving DecidableEq

structure Vectors where
  up : UpVectors
  down : DownVectors
  deriving DecidableEq

def UpVectors.idle : UpVectors := ⟨chunkSize,0,0,0⟩

def UpVectors.none : UpVectors := ⟨0,0,0,0⟩

def DownVectors.none : DownVectors := ⟨0,0,0⟩

def UpVectors.total (v : UpVectors) : ℕ := v.buf + v.ciphertext + v.encoded + v.framed

def DownVectors.total (v : DownVectors) : ℕ := 4 + v.body + v.ciphertext + v.plain

-- `read_frame` allocates the announced length as soon as the prefix is there.
def announced (got : Bytes) : ℕ :=
  match (readExact 4 got).1 with
  | .error _ => 0
  | .ok lenBuf =>
    match parseLen lenBuf with
    | .error _ => 0
    | .ok n => n

def UpVectors.sending (ciphertext : ℕ) (f : Frame) : UpVectors :=
  ⟨chunkSize,ciphertext,f.encode.length,(encodeFramed f.encode).length⟩

def TunnelEvent.dir : TunnelEvent → Direction
  | .reads d _ => d
  | .ends d => d
  | .seals d => d
  | .pushes d => d
  | .pulls d => d
  | .takes d => d
  | .opens d => d
  | .writes d => d

section Allocation
variable (S : CipherSuite)

def Tunnel.upVectors (t : Tunnel) (v : UpVectors) : TunnelEvent → UpVectors
  | .ends d => if (t.lane d).up = .reading ∧ t.started d then .sending 0 .close else v
  | .seals d =>
    match (t.lane d).up with
    | .sealing chunk =>
      let ct := ((t.peers.sender d).seal S d chunk).1
      .sending ct.length (dataRecord d ct)
    | _ => v
  | .pushes d =>
    match (t.lane d).up with
    | .sending [] false => .idle
    | .sending [] true => .none
    | _ => v
  | _ => v

def Tunnel.downVectors (t : Tunnel) (v : DownVectors) : TunnelEvent → DownVectors
  | .pulls d =>
    match (t.lane d).down,(t.lane d).channel with
    | .reading _ got,b :: _ => if waiting got then ⟨announced (got ++ [b]),0,0⟩ else v
    | _,_ => v
  | .takes d =>
    match (t.lane d).down with
    | .reading ack got =>
      if waiting got ∧ ¬ ((t.lane d).shut ∧ (t.lane d).channel = []) then v
      else match onReadFrame ack (readFrame got).1 with
        | .opening ct => ⟨v.body,ct.length,0⟩
        | _ => .none
    | _ => v
  | .opens d =>
    match (t.lane d).down with
    | .opening ct =>
      match ((t.peers.receiver d).open S d ct).1 with
      | .error _ => .none
      | .ok pt => ⟨v.body,v.ciphertext,pt.length⟩
    | _ => v
  | .writes d =>
    match (t.lane d).down with
    | .writing [] => .none
    | _ => v
  | _ => v

def Tunnel.allocate (t : Tunnel) (v : Direction → Vectors) : NetEvent → Direction → Vectors
  | .moves m => Function.update v m.dir
      ⟨t.upVectors S (v m.dir).up m,t.downVectors S (v m.dir).down m⟩
  | .tampers _ _ _ => v

def Tunnel.vectors (t : Tunnel) (v : Direction → Vectors) : List NetEvent → Direction → Vectors
  | [] => v
  | e :: es => (t.attackedStep S e).2.vectors (t.allocate S v e) es

end Allocation

def upCapacity : ℕ := 4 * chunkSize + 64

def downCapacity : ℕ := 3 * maxFrame - 8

def Up.Holds (v : UpVectors) : Up → Prop
  | .reading => v = .idle
  | .sealing chunk => v = .idle ∧ chunk.length ≤ v.buf
  | .sending bytes _ => v.buf = chunkSize ∧ v.ciphertext ≤ chunkSize + tagLen ∧
      v.encoded ≤ v.ciphertext + 6 ∧ v.framed = 4 + v.encoded ∧ bytes.length ≤ v.framed
  | .done => v = .none

def Down.Holds (v : DownVectors) : Down → Prop
  | .reading _ got => v = ⟨announced got,0,0⟩ ∧ got.length ≤ 4 + v.body
  | .opening ct => v = ⟨ct.length + 6,ct.length,0⟩ ∧ v.body ≤ maxFrame
  | .writing pt => v.body ≤ maxFrame ∧ v.ciphertext + 6 = v.body ∧ v.plain ≤ v.ciphertext ∧
      pt.length ≤ v.plain
  | _ => v = .none

structure Owned (l : Lane) (v : Vectors) : Prop where
  up : l.up.Holds v.up
  down : l.down.Holds v.down

theorem announced_append {w : Arr 4} {n : ℕ} (h : parseLen w = .ok n) (t : Bytes) :
    announced (w.val ++ t) = n := by
  have hw : readExact 4 (w.val ++ t) = (.ok w,t) := readExact_append w.property
  rw [announced,hw]
  simp only [h]

theorem announced_le (got : Bytes) : announced got ≤ maxFrame := by
  rw [announced]
  split
  · exact Nat.zero_le _
  split
  · exact Nat.zero_le _
  rename_i n hn
  exact (toBe_of_parseLen hn).2

theorem announced_encodeFramed {body : Bytes} (h : body.length ≤ maxFrame) (rest : Bytes) :
    announced (encodeFramed body ++ rest) = body.length := by
  rw [encodeFramed_eq h,List.append_assoc]
  exact announced_append (parseLen_toBe h) (body ++ rest)

theorem length_of_waiting {got : Bytes} (h : waiting got = true) (b : UInt8) :
    (got ++ [b]).length ≤ 4 + announced (got ++ [b]) := by
  rw [List.length_append,List.length_singleton]
  rcases readExact_cases 4 got with ⟨hs,-⟩ | ⟨w,t,rfl,he⟩
  · omega
  rw [waiting,readFrame,he] at h
  simp only at h
  cases hp : parseLen w with
  | error e => simp [hp] at h
  | ok n =>
    rcases readExact_cases n t with ⟨ht,-⟩ | ⟨body,rest,-,hbody⟩
    · rw [List.append_assoc,announced_append hp,List.length_append,w.property]
      omega
    · simp [hp,hbody] at h

theorem Up.Holds.total_le {v : UpVectors} {up : Up} (h : up.Holds v) : v.total ≤ upCapacity := by
  have htag : tagLen = 16 := rfl
  cases up with
  | reading =>
    obtain rfl := h
    simp only [UpVectors.total,UpVectors.idle,upCapacity]
    omega
  | sealing chunk =>
    obtain ⟨rfl,-⟩ := h
    simp only [UpVectors.total,UpVectors.idle,upCapacity]
    omega
  | sending bytes closing =>
    obtain ⟨hbuf,hct,henc,hframed,-⟩ := h
    rw [UpVectors.total,upCapacity]
    omega
  | done =>
    obtain rfl := h
    simp [UpVectors.total,UpVectors.none]

theorem Down.Holds.total_le {v : DownVectors} {down : Down} (h : down.Holds v) :
    v.total ≤ downCapacity := by
  have hmax : maxFrame = 1048576 := by decide
  cases down with
  | reading ack got =>
    obtain ⟨rfl,-⟩ := h
    have hle := announced_le got
    simp only [DownVectors.total,downCapacity]
    omega
  | opening ct =>
    obtain ⟨rfl,hle⟩ := h
    simp only at hle
    simp only [DownVectors.total,downCapacity]
    omega
  | writing pt =>
    obtain ⟨hbody,hct,hplain,-⟩ := h
    rw [DownVectors.total,downCapacity]
    omega
  | _ =>
    obtain rfl := h
    simp only [DownVectors.total,DownVectors.none,downCapacity]
    omega

section Steps
variable {S : CipherSuite} {t : Tunnel}

theorem lane_setLane (d : Direction) (l : Lane) : (t.setLane d l).lane d = l := by
  simp [Tunnel.setLane]

theorem lane_step_of_ne {m : TunnelEvent} {d : Direction} (h : d ≠ m.dir) :
    (t.step S m).lane d = t.lane d := by
  cases m with
  | reads c chunk =>
    simp only [Tunnel.step]
    split_ifs
    · exact Function.update_of_ne h _ _
    · rfl
  | ends c =>
    simp only [Tunnel.step]
    split_ifs
    · exact Function.update_of_ne h _ _
    · rfl
  | seals c =>
    simp only [Tunnel.step]
    split
    · exact Function.update_of_ne h _ _
    · rfl
  | opens c =>
    simp only [Tunnel.step]
    split
    · exact Function.update_of_ne h _ _
    · rfl
  | _ => exact Function.update_of_ne h _ _

theorem holds_sending {closing : Bool} {n : ℕ} {f : Frame} (hn : n ≤ chunkSize + tagLen)
    (hf : f.encode.length ≤ n + 6) :
    (Up.sending (encodeFramed f.encode) closing).Holds (.sending n f) :=
  ⟨rfl,hn,hf,length_encodeFramed _,le_refl _⟩

theorem holds_sealed (ha : S.AeadLaws) {v : UpVectors} {d : Direction} {chunk : Bytes}
    (h : (Up.sealing chunk).Holds v) (r : RecordLayer) :
    (Up.sending (encodeFramed (dataRecord d (r.seal S d chunk).1).encode) false).Holds
      (.sending (r.seal S d chunk).1.length (dataRecord d (r.seal S d chunk).1)) := by
  obtain ⟨rfl,hchunk⟩ := h
  have hbuf : chunk.length ≤ chunkSize := hchunk
  have hct := RecordLayer.length_seal S r ha d chunk
  have hframed := length_dataRecord d (r.seal S d chunk).1
  rw [length_encodeFramed] at hframed
  refine holds_sending ?_ ?_
  · omega
  · omega

theorem up_holds (ha : S.AeadLaws) {v : UpVectors} (m : TunnelEvent)
    (h : (t.lane m.dir).up.Holds v) :
    ((t.step S m).lane m.dir).up.Holds (t.upVectors S v m) := by
  cases m with
  | reads d chunk =>
    change (t.lane d).up.Holds v at h
    simp only [Tunnel.step,TunnelEvent.dir,Tunnel.upVectors]
    split_ifs with hread
    · obtain ⟨hup,-,-,hlen⟩ := hread
      rw [hup] at h
      obtain rfl := h
      rw [lane_setLane]
      exact ⟨rfl,hlen⟩
    · exact h
  | ends d =>
    change (t.lane d).up.Holds v at h
    simp only [Tunnel.step,TunnelEvent.dir,Tunnel.upVectors]
    split_ifs with hread
    · rw [lane_setLane]
      exact holds_sending (Nat.zero_le _) (by decide)
    · exact h
  | seals d =>
    change (t.lane d).up.Holds v at h
    cases hup : (t.lane d).up with
    | sealing chunk =>
      rw [hup] at h
      simp only [Tunnel.step,TunnelEvent.dir,Tunnel.upVectors,hup,Function.update_self]
      exact holds_sealed ha h _
    | _ =>
      simp only [Tunnel.step,TunnelEvent.dir,Tunnel.upVectors,hup]
      exact hup ▸ h
  | pushes d =>
    change (t.lane d).up.Holds v at h
    simp only [Tunnel.step,TunnelEvent.dir,lane_setLane]
    cases hup : (t.lane d).up with
    | sending bytes closing =>
      rw [hup] at h
      obtain ⟨hbuf,hct,henc,hframed,hbytes⟩ := h
      cases bytes with
      | nil => cases closing <;> simp [Lane.push,Tunnel.upVectors,hup,Lane.setUp,Up.Holds]
      | cons b rest =>
        simp only [Lane.push,Tunnel.upVectors,hup]
        exact ⟨hbuf,hct,henc,hframed,le_of_lt (Nat.lt_of_succ_le hbytes)⟩
    | _ =>
      simp only [Lane.push,Tunnel.upVectors,hup]
      exact hup ▸ h
  | pulls d =>
    simp only [Tunnel.step,TunnelEvent.dir,Tunnel.upVectors,lane_setLane,(t.lane d).pull_up.1]
    exact h
  | takes d =>
    simp only [Tunnel.step,TunnelEvent.dir,Tunnel.upVectors,lane_setLane,(t.lane d).take_up.1]
    exact h
  | opens d =>
    simp only [Tunnel.step,TunnelEvent.dir,Tunnel.upVectors]
    split
    · simp only [Function.update_self]
      exact h
    · exact h
  | writes d =>
    simp only [Tunnel.step,TunnelEvent.dir,Tunnel.upVectors,lane_setLane,(t.lane d).write_up.1]
    exact h

theorem holds_onBody {ack : Option (Arr 64)} {body : Bytes} (hfit : body.length ≤ maxFrame) :
    (onBody ack body).Holds (match onBody ack body with
      | .opening ct => ⟨body.length,ct.length,0⟩
      | _ => .none) := by
  cases hf : Frame.decode body with
  | error e => cases ack <;> simp [onBody,hf,Down.Holds]
  | ok f =>
    cases ack with
    | some k =>
      cases f with
      | serverAck ekHash =>
        simp only [onBody,hf]
        split_ifs
        · rfl
        · exact ⟨rfl,Nat.zero_le _⟩
      | _ => simp [onBody,hf,Down.Holds]
    | none =>
      cases f with
      | dataRecord dir ct =>
        have hlen := congrArg List.length (Frame.encode_of_decode hf).1
        simp only [Frame.encode_eq,Frame.fields,List.length_append,List.length_singleton,
          length_bytes32] at hlen
        simp only [onBody,hf]
        have hbody : body.length = ct.length + 6 := by omega
        rw [hbody]
        exact ⟨rfl,hbody ▸ hfit⟩
      | _ => simp [onBody,hf,Down.Holds]

theorem holds_onReadFrame (ack : Option (Arr 64)) (got : Bytes) :
    (onReadFrame ack (readFrame got).1).Holds (match onReadFrame ack (readFrame got).1 with
      | .opening ct => ⟨announced got,ct.length,0⟩
      | _ => .none) := by
  rcases readFrame_cases got with ⟨-,he⟩ | ⟨body,rest,hfit,hgot,he⟩ | ⟨e,rest,he⟩
  · rw [he,onReadFrame]
    split_ifs <;> rfl
  · rw [he,onReadFrame,hgot,announced_encodeFramed hfit]
    exact holds_onBody hfit
  · rw [he]
    rfl

theorem pull_holds {v : DownVectors} {d : Direction} (h : (t.lane d).down.Holds v) :
    (t.lane d).pull.down.Holds (t.downVectors S v (.pulls d)) := by
  cases hd : (t.lane d).down with
  | reading ack got =>
    cases hc : (t.lane d).channel with
    | nil =>
      simp only [Lane.pull,Tunnel.downVectors,hd,hc]
      exact hd ▸ h
    | cons b rest =>
      simp only [Lane.pull,Tunnel.downVectors,hd,hc]
      split_ifs with hw
      · exact ⟨rfl,length_of_waiting hw b⟩
      · exact h
  | _ =>
    simp only [Lane.pull,Tunnel.downVectors,hd]
    exact hd ▸ h

theorem take_holds {v : DownVectors} {d : Direction} (h : (t.lane d).down.Holds v) :
    (t.lane d).take.down.Holds (t.downVectors S v (.takes d)) := by
  cases hd : (t.lane d).down with
  | reading ack got =>
    simp only [Lane.take,Tunnel.downVectors,hd]
    split_ifs with hmore
    · exact h
    · rw [hd] at h
      obtain ⟨rfl,-⟩ := h
      exact holds_onReadFrame ack got
  | _ =>
    simp only [Lane.take,Tunnel.downVectors,hd]
    exact hd ▸ h

theorem write_holds {v : DownVectors} {d : Direction} (h : (t.lane d).down.Holds v) :
    (t.lane d).write.down.Holds (t.downVectors S v (.writes d)) := by
  cases hd : (t.lane d).down with
  | early bytes ack =>
    rw [hd] at h
    obtain rfl := h
    cases bytes with
    | nil =>
      simp only [Lane.write,Tunnel.downVectors,hd]
      exact ⟨rfl,Nat.zero_le _⟩
    | cons b rest =>
      simp only [Lane.write,Tunnel.downVectors,hd]
      rfl
  | writing pt =>
    rw [hd] at h
    cases pt with
    | nil =>
      simp only [Lane.write,Tunnel.downVectors,hd]
      exact ⟨rfl,Nat.zero_le _⟩
    | cons b rest =>
      obtain ⟨hbody,hct,hplain,hpt⟩ := h
      simp only [Lane.write,Tunnel.downVectors,hd]
      exact ⟨hbody,hct,hplain,le_of_lt (Nat.lt_of_succ_le hpt)⟩
  | _ =>
    simp only [Lane.write,Tunnel.downVectors,hd]
    exact hd ▸ h

variable (hopen : ∀ key nonce aad ct pt, S.aeadOpen key nonce aad ct = .ok pt → pt.length ≤ ct.length)
include hopen

theorem open_holds {v : DownVectors} {d : Direction} {ct : Bytes} (h : (Down.opening ct).Holds v)
    (r : RecordLayer) :
    (onOpen (r.open S d ct).1).Holds (match (r.open S d ct).1 with
      | .error _ => .none
      | .ok pt => ⟨v.body,v.ciphertext,pt.length⟩) := by
  obtain ⟨rfl,hfit⟩ := h
  rw [RecordLayer.open_eq,DirPool.openOne_result]
  cases hres : S.aeadOpen r.keys.encKey ((r.pool.dir d).drawn.finalizeXof S)
    (recordAad d (r.pool.dir d).counter) ct with
  | error e => rfl
  | ok pt => exact ⟨hfit,rfl,hopen _ _ _ _ _ hres,le_refl _⟩

theorem down_holds {v : DownVectors} (m : TunnelEvent) (h : (t.lane m.dir).down.Holds v) :
    ((t.step S m).lane m.dir).down.Holds (t.downVectors S v m) := by
  cases m with
  | reads d chunk =>
    simp only [Tunnel.step,TunnelEvent.dir,Tunnel.downVectors]
    split_ifs
    · rw [lane_setLane]
      exact h
    · exact h
  | ends d =>
    simp only [Tunnel.step,TunnelEvent.dir,Tunnel.downVectors]
    split_ifs
    · rw [lane_setLane]
      exact h
    · exact h
  | seals d =>
    simp only [Tunnel.step,TunnelEvent.dir,Tunnel.downVectors]
    split
    · simp only [Function.update_self]
      exact h
    · exact h
  | pushes d =>
    simp only [Tunnel.step,TunnelEvent.dir,Tunnel.downVectors,lane_setLane,(t.lane d).push_down.1]
    exact h
  | pulls d =>
    simp only [Tunnel.step,TunnelEvent.dir,lane_setLane]
    exact pull_holds h
  | takes d =>
    simp only [Tunnel.step,TunnelEvent.dir,lane_setLane]
    exact take_holds h
  | opens d =>
    change (t.lane d).down.Holds v at h
    cases hd : (t.lane d).down with
    | opening ct =>
      rw [hd] at h
      simp only [Tunnel.step,TunnelEvent.dir,Tunnel.downVectors,hd,Function.update_self]
      exact open_holds hopen h _
    | _ =>
      simp only [Tunnel.step,TunnelEvent.dir,Tunnel.downVectors,hd]
      exact hd ▸ h
  | writes d =>
    simp only [Tunnel.step,TunnelEvent.dir,lane_setLane]
    exact write_holds h

variable (ha : S.AeadLaws)
include ha

theorem owned_step {v : Direction → Vectors} (h : ∀ d, Owned (t.lane d) (v d)) (e : NetEvent)
    (d : Direction) : Owned ((t.attackedStep S e).2.lane d) (t.allocate S v e d) := by
  cases e with
  | tampers c channel shut =>
    by_cases hd : d = c
    · subst hd
      simp only [Tunnel.attackedStep,lane_setLane]
      exact ⟨(h d).up,(h d).down⟩
    · simp only [Tunnel.attackedStep,Tunnel.setLane,Function.update_of_ne hd]
      exact h d
  | moves m =>
    by_cases hd : d = m.dir
    · subst hd
      simp only [Tunnel.attackedStep,Tunnel.allocate,Function.update_self]
      exact ⟨up_holds ha m (h _).up,down_holds hopen m (h _).down⟩
    · simp only [Tunnel.attackedStep,Tunnel.allocate,Function.update_of_ne hd,lane_step_of_ne hd]
      exact h d

theorem owned_run {v : Direction → Vectors} (h : ∀ d, Owned (t.lane d) (v d)) (es : List NetEvent)
    (d : Direction) :
    Owned ((Machine.run (Tunnel.attackedStep S) t es).2.lane d) (t.vectors S v es d) := by
  induction es generalizing t v with
  | nil => exact h d
  | cons e es ih => exact ih (owned_step hopen ha h e)

end Steps

def startVectors : Direction → Vectors := fun _ => ⟨.idle,.none⟩

-- `early_to_plain` is dropped only when `forward` returns.
def forwardTotal (earlyData : Bytes) (v : Direction → Vectors) (d : Direction) : ℕ :=
  (earlyFor earlyData d.flip).length + (v d).up.total + (v d.flip).down.total

theorem buffers_bounded (S : CipherSuite) (ha : S.AeadLaws)
    (hopen : ∀ key nonce aad ct pt, S.aeadOpen key nonce aad ct = .ok pt → pt.length ≤ ct.length)
    (record : RecordLayer) (earlyData : Bytes) (zeroRtt : Bool) (es : List NetEvent)
    (d : Direction) :
    let start := Tunnel.start S record earlyData zeroRtt
    let t := (Machine.run (Tunnel.attackedStep S) start es).2
    let v := start.vectors S startVectors es
    Owned (t.lane d) (v d) ∧ (v d).up.total ≤ upCapacity ∧ (v d).down.total ≤ downCapacity ∧
      forwardTotal earlyData v d ≤
        (earlyFor earlyData d.flip).length + upCapacity + downCapacity := by
  intro start t v
  have hstart : ∀ c, Owned (start.lane c) (startVectors c) := by
    intro c
    cases c <;> cases zeroRtt <;> exact ⟨rfl,rfl⟩
  have hrun := owned_run hopen ha hstart es
  have hup := (hrun d).up.total_le
  have hflip := (hrun d.flip).down.total_le
  exact ⟨hrun d,hup,(hrun d).down.total_le,Nat.add_le_add (Nat.add_le_add_left hup _) hflip⟩

theorem plainSuite_opens_short (key : Arr 32) (nonce : Arr 12) (aad ct pt : Bytes)
    (h : plainSuite.aeadOpen key nonce aad ct = .ok pt) : pt.length ≤ ct.length := by
  simp only [plainSuite,PlainSuite.aeadOpen] at h
  split at h
  · rw [← Except.ok.inj h,List.length_take]
    omega
  · cases h

-- One prefix announces 2^20 bytes, the other 2^32 - 1.
def announcedRun : List NetEvent :=
  [.moves (.writes .clientToServer),.tampers .clientToServer [0,16,0,0] false] ++
    List.replicate 4 (.moves (.pulls .clientToServer)) ++
    [.moves (.writes .serverToClient),.tampers .serverToClient [255,255,255,255] false] ++
    List.replicate 4 (.moves (.pulls .serverToClient))

theorem buffers_bounded_announced :
    let v := (Tunnel.start plainSuite plainRecord [] false).vectors plainSuite startVectors announcedRun
    (v .clientToServer).down = ⟨1048576,0,0⟩ ∧ (v .serverToClient).down = ⟨0,0,0⟩ ∧
      forwardTotal [] v .serverToClient ≤ 0 + upCapacity + downCapacity := by
  intro v
  have hdown : (v .clientToServer).down = ⟨1048576,0,0⟩ ∧ (v .serverToClient).down = ⟨0,0,0⟩ := by
    decide +kernel
  exact ⟨hdown.1,hdown.2,(buffers_bounded plainSuite plainSuite_aead plainSuite_opens_short plainRecord
    [] false announcedRun .serverToClient).2.2.2⟩

end OrtTunnel.Net
