import OrtTunnel.Net.Forward

namespace OrtTunnel.Net
open BigEndian Proto OrtTunnel.Core

theorem waiting_nil : waiting [] = true := by decide

theorem waiting_framed {body : Bytes} (h : body.length ≤ maxFrame) :
    waiting (encodeFramed body) = false := by
  have hr := @readFrame_framed body [] h
  rw [List.append_nil] at hr
  simp [waiting,hr]

theorem waiting_short {body got : Bytes} (h : body.length ≤ maxFrame)
    (hpre : got <+: encodeFramed body) (hlt : got.length < (encodeFramed body).length) :
    waiting got = true := by
  rcases readExact_cases 4 got with ⟨-,he⟩ | ⟨w,t,rfl,he⟩
  · simp [waiting,readFrame,he]
  · obtain ⟨rest,hrest⟩ := hpre
    rw [length_encodeFramed,List.length_append,w.property] at hlt
    rw [encodeFramed_eq h,List.append_assoc] at hrest
    obtain ⟨hw,-⟩ := List.append_inj hrest (by rw [w.property,length_toBe])
    obtain rfl : w = ⟨toBe 4 body.length,length_toBe 4 _⟩ := Subtype.ext hw
    have hlen := parseLen_toBe h
    rcases readExact_cases body.length t with ⟨-,ht⟩ | ⟨x,y,rfl,-⟩
    · simp [waiting,readFrame,he,hlen,ht]
    · rw [List.length_append,x.property] at hlt
      omega

namespace Up

def pending : Up → Bytes
  | .sending bytes _ => bytes
  | _ => []

def plain : Up → Bytes
  | .sealing chunk => chunk
  | _ => []

def closing : Up → Bool
  | .sending _ closing => closing
  | .done => true
  | _ => false

end Up

namespace Down

def got : Down → Bytes
  | .reading _ got => got
  | _ => []

def plain : Down → Bytes
  | .early bytes _ => bytes
  | .writing pt => pt
  | _ => []

def sealed : Down → List Bytes
  | .opening ct => [ct]
  | _ => []

def acks : Down → List Bytes
  | .early _ (some h) => [(Frame.serverAck h.val).encode]
  | .reading (some h) _ => [(Frame.serverAck h.val).encode]
  | _ => []

def alive : Down → Bool
  | .returned => false
  | .failed _ => false
  | _ => true

end Down

def closes (up : Up) (down : Down) : List Bytes :=
  if up.closing ∧ down ≠ .closed then [Frame.close.encode] else []

def bodies (d : Direction) (l : Lane) (cts : List Bytes) : List Bytes :=
  l.down.acks ++ (cts.map fun ct => (dataRecord d ct).encode) ++ closes l.up l.down

structure LaneInv (S : CipherSuite) (early : Bytes) (peers : Duplex) (d : Direction) (l : Lane)
    (pts cts : List Bytes) : Prop where
  inFlight : InFlight S peers d pts (l.down.sealed ++ cts)
  sizes : ∀ ct ∈ cts, ct.length ≤ chunkSize + tagLen
  stream : l.down.got ++ (l.channel ++ l.up.pending) = (bodies d l cts).flatMap encodeFramed
  partly : ∀ b ∈ (bodies d l cts).head?, l.down.got.length ≤ (encodeFramed b).length
  plain : early ++ l.consumed = l.written ++ (l.down.plain ++ (pts.flatten ++ l.up.plain))
  chunk : l.up.plain.length ≤ chunkSize
  shut : l.shut = true → l.up = .done
  alive : l.down.alive = true
  ended : l.down = .closed → cts = [] ∧ l.up.closing = true

theorem got_of_not_waiting {got rest b : Bytes} {bs : List Bytes} (hb : b.length ≤ maxFrame)
    (hstream : got ++ rest = (b :: bs).flatMap encodeFramed)
    (hpart : got.length ≤ (encodeFramed b).length) (hw : waiting got = false) :
    got = encodeFramed b ∧ rest = bs.flatMap encodeFramed := by
  rw [List.flatMap_cons] at hstream
  have hpre : got <+: encodeFramed b :=
    List.prefix_of_prefix_length_le ⟨rest,hstream⟩ (List.prefix_append _ _) hpart
  have hlen : got.length = (encodeFramed b).length := by
    by_contra hne
    have htrue := waiting_short hb hpre (by omega)
    rw [hw] at htrue
    cases htrue
  exact List.append_inj hstream hlen

theorem partly_snoc {got rest b : Bytes} {bs : List Bytes}
    (hstream : got ++ rest = bs.flatMap encodeFramed)
    (h : ∀ c ∈ bs.head?, got.length ≤ (encodeFramed c).length) :
    ∀ c ∈ (bs ++ [b]).head?, got.length ≤ (encodeFramed c).length := by
  cases bs with
  | nil =>
    rw [List.flatMap_nil,List.append_eq_nil_iff] at hstream
    simp [hstream.1]
  | cons c cs => exact h

section Lanes
variable {S : CipherSuite} {early : Bytes} {peers : Duplex} {d : Direction} {l : Lane}
variable {pts cts : List Bytes}

theorem not_closed (h : LaneInv S early peers d l pts cts) (hc : l.up.closing = false) :
    l.down ≠ .closed := by
  intro hd
  rw [(h.ended hd).2] at hc
  cases hc

theorem not_shut (h : LaneInv S early peers d l pts cts) (hc : l.up ≠ .done) : l.shut = false := by
  cases hs : l.shut with
  | false => rfl
  | true => exact absurd (h.shut hs) hc

theorem laneInv_sent (h : LaneInv S early peers d l pts cts) {x channel : Bytes} {up : Up}
    {shut : Bool} (hbytes : channel ++ up.pending = l.channel ++ l.up.pending)
    (hclosing : up.closing = l.up.closing) (hplain : up.plain = l.up.plain ++ x)
    (hchunk : up.plain.length ≤ chunkSize) (hshut : shut = true → up = .done) :
    LaneInv S early peers d ⟨l.consumed ++ x,up,channel,shut,l.down,l.written⟩ pts cts := by
  have hb : bodies d ⟨l.consumed ++ x,up,channel,shut,l.down,l.written⟩ cts = bodies d l cts := by
    simp [bodies,closes,hclosing]
  refine ⟨h.inFlight,h.sizes,?_,?_,?_,hchunk,hshut,h.alive,?_⟩
  · rw [hb,hbytes]
    exact h.stream
  · rw [hb]
    exact h.partly
  · rw [← List.append_assoc,h.plain,hplain]
    simp
  · rw [hclosing]
    exact h.ended

theorem laneInv_read (h : LaneInv S early peers d l pts cts) (hup : l.up = .reading) {chunk : Bytes}
    (hchunk : chunk.length ≤ chunkSize) : LaneInv S early peers d (l.read chunk) pts cts := by
  have hshut := not_shut h (by rw [hup]; simp)
  refine laneInv_sent h ?_ ?_ ?_ hchunk ?_
  · simp [hup,Up.pending]
  · rw [hup]
    rfl
  · simp [hup,Up.plain]
  · rw [hshut]
    exact fun hs => by cases hs

theorem laneInv_end (h : LaneInv S early peers d l pts cts) (hup : l.up = .reading) :
    LaneInv S early peers d (l.setUp (.sending (encodeFramed Frame.close.encode) true)) pts cts := by
  have hopen := not_closed h (by rw [hup]; rfl)
  have hshut := not_shut h (by rw [hup]; simp)
  have hb : bodies d (l.setUp (.sending (encodeFramed Frame.close.encode) true)) cts =
      bodies d l cts ++ [Frame.close.encode] := by
    simp [bodies,Lane.setUp,closes,hup,Up.closing,hopen]
  have hs := h.stream
  simp only [hup,Up.pending,List.append_nil] at hs
  refine ⟨h.inFlight,h.sizes,?_,?_,?_,Nat.zero_le _,?_,h.alive,fun hd => absurd hd hopen⟩
  · rw [hb,List.flatMap_append,← hs]
    simp [Lane.setUp,Up.pending]
  · rw [hb]
    exact partly_snoc hs h.partly
  · have hp := h.plain
    rw [hup] at hp
    exact hp
  · intro hs
    simp [Lane.setUp,hshut] at hs

theorem laneInv_seal (ha : S.AeadLaws) (h : LaneInv S early peers d l pts cts) {chunk : Bytes}
    (hup : l.up = .sealing chunk) :
    LaneInv S early (peers.step S (.seals d chunk)).2 d
      (l.setUp (.sending (encodeFramed (dataRecord d ((peers.sender d).seal S d chunk).1).encode)
        false)) (pts ++ [chunk]) (cts ++ [((peers.sender d).seal S d chunk).1]) := by
  have hopen := not_closed h (by rw [hup]; rfl)
  have hshut := not_shut h (by rw [hup]; simp)
  have hb : bodies d (l.setUp (.sending (encodeFramed
      (dataRecord d ((peers.sender d).seal S d chunk).1).encode) false))
      (cts ++ [((peers.sender d).seal S d chunk).1]) =
      bodies d l cts ++ [(dataRecord d ((peers.sender d).seal S d chunk).1).encode] := by
    simp [bodies,Lane.setUp,closes,hup,Up.closing]
  have hs := h.stream
  simp only [hup,Up.pending,List.append_nil] at hs
  have hchunk := h.chunk
  rw [hup,Up.plain] at hchunk
  refine ⟨?_,?_,?_,?_,?_,Nat.zero_le _,?_,h.alive,fun hd => absurd hd hopen⟩
  · have hfly := inFlight_seals h.inFlight chunk
    rw [List.append_assoc] at hfly
    exact hfly
  · intro ct hct
    rcases List.mem_append.mp hct with hct | hct
    · exact h.sizes ct hct
    · rw [List.mem_singleton.mp hct,RecordLayer.length_seal S _ ha]
      omega
  · rw [hb,List.flatMap_append,← hs]
    simp [Lane.setUp,Up.pending]
  · rw [hb]
    exact partly_snoc hs h.partly
  · have hp := h.plain
    rw [hup] at hp
    simpa [Lane.setUp,Up.plain] using hp
  · intro hs
    simp [Lane.setUp,hshut] at hs

theorem laneInv_push (h : LaneInv S early peers d l pts cts) :
    LaneInv S early peers d l.push pts cts := by
  cases hup : l.up with
  | sending bytes closing =>
    have hshut : l.shut = true → ∀ up : Up, up = .done := by
      rw [not_shut h (by rw [hup]; simp)]
      exact fun hs => by cases hs
    have hkeep := fun channel up shut => @laneInv_sent S early peers d l pts cts h [] channel up shut
    simp only [List.append_nil,hup] at hkeep
    cases bytes with
    | cons b rest =>
      simp only [Lane.push,hup]
      exact hkeep _ _ _ (by simp [Up.pending]) rfl rfl (Nat.zero_le _) fun hs => hshut hs _
    | nil =>
      cases closing with
      | false =>
        simp only [Lane.push,hup]
        exact hkeep _ _ _ rfl rfl rfl (Nat.zero_le _) fun hs => hshut hs _
      | true =>
        simp only [Lane.push,hup]
        exact hkeep _ _ _ rfl rfl rfl (Nat.zero_le _) fun _ => rfl
  | _ => simpa only [Lane.push,hup] using h

theorem mem_acks {b : Bytes} {down : Down} (h : b ∈ down.acks) :
    ∃ k : Arr 64, b = (Frame.serverAck k.val).encode := by
  cases down with
  | early bytes ack =>
    cases ack with
    | none => cases h
    | some k => exact ⟨k,List.mem_singleton.mp h⟩
  | reading ack got =>
    cases ack with
    | none => cases h
    | some k => exact ⟨k,List.mem_singleton.mp h⟩
  | _ => cases h

theorem dataRecord_fits {ct : Bytes} (h : ct.length ≤ chunkSize + tagLen) :
    (dataRecord d ct).encode.length ≤ maxFrame := by
  have hm : 6 + (chunkSize + tagLen) ≤ maxFrame := by decide
  simp only [dataRecord,Frame.encode_eq,Frame.fields,List.length_append,List.length_singleton,
    length_bytes32]
  omega

theorem bodies_fit (hsizes : ∀ ct ∈ cts, ct.length ≤ chunkSize + tagLen) :
    ∀ b ∈ bodies d l cts, b.length ≤ maxFrame := by
  intro b hb
  simp only [bodies,List.mem_append,List.mem_map] at hb
  rcases hb with (hb | ⟨ct,hct,rfl⟩) | hb
  · obtain ⟨k,rfl⟩ := mem_acks hb
    exact serverAck_fits k
  · exact dataRecord_fits (hsizes ct hct)
  · simp only [closes] at hb
    split at hb
    · rw [List.mem_singleton.mp hb]
      decide
    · cases hb

theorem laneInv_pull (h : LaneInv S early peers d l pts cts) :
    LaneInv S early peers d l.pull pts cts := by
  cases hd : l.down with
  | reading ack got =>
    cases hc : l.channel with
    | nil => simpa only [Lane.pull,hd,hc] using h
    | cons b rest =>
      cases hw : waiting got with
      | false => simpa [Lane.pull,hd,hc,hw] using h
      | true =>
        have hb : bodies d l.pull cts = bodies d l cts := by
          cases ack <;> simp [bodies,Lane.pull,closes,hd,hc,hw,Down.acks]
        have hs := h.stream
        have hpart := h.partly
        have hfly := h.inFlight
        have hp := h.plain
        rw [hd] at hs hpart hfly hp
        rw [hc] at hs
        simp only [Lane.pull,hd,hc,hw,if_true] at hb ⊢
        refine ⟨hfly,h.sizes,?_,?_,hp,h.chunk,h.shut,rfl,fun hcl => by cases hcl⟩
        · rw [hb,← hs]
          simp [Down.got]
        · rw [hb]
          intro c hmem
          have hle := hpart c hmem
          obtain ⟨bs,hbs⟩ := List.head?_eq_some_iff.mp hmem
          rw [hbs] at hs
          have hfit : c.length ≤ maxFrame := bodies_fit h.sizes c (by rw [hbs]; simp)
          simp only [Down.got] at hs hle
          simp only [Down.got,List.length_append,List.length_singleton]
          by_contra hlt
          have hlen : got.length = (encodeFramed c).length := by omega
          rw [List.flatMap_cons] at hs
          have hgot := (List.append_inj hs hlen).1
          rw [hgot,waiting_framed hfit] at hw
          cases hw
  | _ => simpa only [Lane.pull,hd] using h

-- Whenever `read_frame` returns, it has gathered exactly the first frame under way: the writer
-- shuts the channel down only after its close frame.
theorem take_ready {ack : Option (Arr 64)} {got : Bytes} (h : LaneInv S early peers d l pts cts)
    (hd : l.down = .reading ack got) (hready : ¬ (waiting got ∧ ¬ (l.shut ∧ l.channel = []))) :
    ∃ b bs, bodies d l cts = b :: bs ∧ b.length ≤ maxFrame ∧ got = encodeFramed b ∧
      l.channel ++ l.up.pending = bs.flatMap encodeFramed := by
  have hs := h.stream
  have hpart := h.partly
  simp only [hd,Down.got] at hs hpart
  have hne : bodies d l cts ≠ [] := by
    intro hnil
    rw [hnil,List.flatMap_nil,List.append_eq_nil_iff] at hs
    simp only [hs.1,waiting_nil,true_and,not_not] at hready
    simp [bodies,closes,h.shut hready.1,Up.closing,hd] at hnil
  obtain ⟨b,bs,hbs⟩ := List.exists_cons_of_ne_nil hne
  have hfit := bodies_fit h.sizes b (by rw [hbs]; simp)
  rw [hbs] at hs hpart
  have hle := hpart b rfl
  refine ⟨b,bs,hbs,hfit,?_⟩
  cases hw : waiting got with
  | false => exact got_of_not_waiting hfit hs hle hw
  | true =>
    simp only [hw,true_and,not_not] at hready
    have hrest : l.channel ++ l.up.pending = [] := by
      simp [hready.2,h.shut hready.1,Up.pending]
    rw [hrest,List.append_nil,List.flatMap_cons] at hs
    have hlen := congrArg List.length hs
    rw [List.length_append] at hlen
    have hnil : bs.flatMap encodeFramed = [] := List.length_eq_zero_iff.mp (by omega)
    rw [hnil,List.append_nil] at hs
    rw [hrest,hnil]
    exact ⟨hs,rfl⟩

theorem decode_dataRecord {ct : Bytes} (h : ct.length ≤ chunkSize + tagLen) :
    Frame.decode (dataRecord d ct).encode = .ok (dataRecord d ct) := by
  have hm : chunkSize + tagLen ≤ 2 ^ 32 - 1 := by decide
  exact Frame.decode_encode _ (h.trans hm)

theorem decode_serverAck (k : Arr 64) :
    Frame.decode (Frame.serverAck k.val).encode = .ok (.serverAck k.val) := by
  refine Frame.decode_encode _ ?_
  rw [Frame.InRange,k.property]
  decide

theorem laneInv_take (h : LaneInv S early peers d l pts cts) :
    ∃ cts', LaneInv S early peers d l.take pts cts' := by
  cases hd : l.down with
  | reading ack got =>
    by_cases hready : waiting got ∧ ¬ (l.shut ∧ l.channel = [])
    · exact ⟨cts,by simpa only [Lane.take,hd,if_pos hready] using h⟩
    obtain ⟨b,bs,hbs,hfit,hgot,hrest⟩ := take_ready h hd hready
    have hread : readFrame got = (.ok (some b),[]) := by
      have hr := @readFrame_framed b [] hfit
      rwa [List.append_nil,← hgot] at hr
    have hfly := h.inFlight
    have hp := h.plain
    rw [hd] at hfly hp
    simp only [Lane.take,hd,if_neg hready,hread,onReadFrame]
    cases ack with
    | some k =>
      have hb : bodies d l cts = (Frame.serverAck k.val).encode ::
          bodies d (l.setDown (.reading none [])) cts := by
        simp [bodies,Lane.setDown,closes,hd,Down.acks]
      obtain ⟨rfl,rfl⟩ := List.cons.inj (hbs.symm.trans hb)
      refine ⟨cts,?_⟩
      simp only [onBody,decode_serverAck,ne_eq,not_true,if_false]
      exact ⟨hfly,h.sizes,hrest,fun _ _ => Nat.zero_le _,hp,h.chunk,h.shut,rfl,
        fun hc => by cases hc⟩
    | none =>
      cases cts with
      | cons ct cts =>
        have hct := h.sizes ct (by simp)
        have hb : bodies d l (ct :: cts) = (dataRecord d ct).encode ::
            bodies d (l.setDown (.opening ct)) cts := by
          simp [bodies,Lane.setDown,closes,hd,Down.acks]
        obtain ⟨rfl,rfl⟩ := List.cons.inj (hbs.symm.trans hb)
        refine ⟨cts,?_⟩
        simp only [onBody,decode_dataRecord hct]
        exact ⟨hfly,fun c hc => h.sizes c (List.mem_cons_of_mem _ hc),hrest,
          fun _ _ => Nat.zero_le _,hp,h.chunk,h.shut,rfl,fun hc => by cases hc⟩
      | nil =>
        have hclosing : l.up.closing = true := by
          by_contra hn
          simp [bodies,closes,hd,Down.acks,hn] at hbs
        have hb : bodies d l [] = Frame.close.encode :: bodies d (l.setDown .closed) [] := by
          simp [bodies,Lane.setDown,closes,hd,Down.acks,hclosing]
        obtain ⟨rfl,rfl⟩ := List.cons.inj (hbs.symm.trans hb)
        refine ⟨[],?_⟩
        simp only [onBody,Frame.decode_encode .close trivial]
        exact ⟨hfly,h.sizes,hrest,fun _ _ => Nat.zero_le _,hp,h.chunk,h.shut,rfl,
          fun _ => ⟨rfl,hclosing⟩⟩
  | _ => exact ⟨cts,by simpa only [Lane.take,hd] using h⟩

theorem laneInv_open (ha : S.AeadLaws) {ct : Bytes} (h : LaneInv S early peers d l pts cts)
    (hd : l.down = .opening ct) :
    ∃ pts', LaneInv S early (peers.step S (.opens d ct)).2 d
      (l.setDown (onOpen ((peers.receiver d).open S d ct).1)) pts' cts := by
  have hfly := h.inFlight
  rw [hd] at hfly
  obtain ⟨pt,pts',rfl,hopen,hfly'⟩ := inFlight_opens ha hfly
  have hs := h.stream
  have hp := h.plain
  have hb : bodies d (l.setDown (.writing pt)) cts = bodies d l cts := by
    simp [bodies,Lane.setDown,closes,hd,Down.acks]
  rw [hd] at hs hp
  rw [hopen]
  refine ⟨pts',hfly',h.sizes,?_,fun _ _ => Nat.zero_le _,?_,h.chunk,h.shut,rfl,
    fun hc => by cases hc⟩
  · rw [onOpen,hb]
    exact hs
  · simpa [Lane.setDown,onOpen,Down.plain] using hp

theorem laneInv_handed (h : LaneInv S early peers d l pts cts) {down : Down} {written : Bytes}
    (hgot : l.down.got = [] ∧ down.got = []) (hsealed : down.sealed = l.down.sealed)
    (hacks : down.acks = l.down.acks) (hopen : l.down ≠ .closed ∧ down ≠ .closed)
    (halive : down.alive = true) (hplain : written ++ down.plain = l.written ++ l.down.plain) :
    LaneInv S early peers d ⟨l.consumed,l.up,l.channel,l.shut,down,written⟩ pts cts := by
  have hb : bodies d ⟨l.consumed,l.up,l.channel,l.shut,down,written⟩ cts = bodies d l cts := by
    simp [bodies,closes,hacks,hopen]
  have hs := h.stream
  have hp := h.plain
  rw [hgot.1] at hs
  rw [← List.append_assoc l.written,← hplain,List.append_assoc written] at hp
  refine ⟨?_,h.sizes,?_,?_,hp,h.chunk,h.shut,halive,fun hc => absurd hc hopen.2⟩
  · rw [hsealed]
    exact h.inFlight
  · rw [hb,hgot.2]
    exact hs
  · rw [hgot.2]
    exact fun _ _ => Nat.zero_le _

theorem laneInv_write (h : LaneInv S early peers d l pts cts) :
    LaneInv S early peers d l.write pts cts := by
  have hkeep := fun down written => @laneInv_handed S early peers d l pts cts h down written
  cases hd : l.down with
  | early bytes ack =>
    simp only [hd] at hkeep
    cases bytes with
    | cons b rest =>
      simp only [Lane.write,hd]
      refine hkeep _ _ ⟨rfl,rfl⟩ rfl ?_ ⟨nofun,nofun⟩ rfl (by simp [Down.plain])
      cases ack <;> rfl
    | nil =>
      simp only [Lane.write,hd]
      refine hkeep _ _ ⟨rfl,rfl⟩ rfl ?_ ⟨nofun,nofun⟩ rfl rfl
      cases ack <;> rfl
  | writing pt =>
    simp only [hd] at hkeep
    cases pt with
    | cons b rest =>
      simp only [Lane.write,hd]
      exact hkeep _ _ ⟨rfl,rfl⟩ rfl rfl ⟨nofun,nofun⟩ rfl (by simp [Down.plain])
    | nil =>
      simp only [Lane.write,hd]
      exact hkeep _ _ ⟨rfl,rfl⟩ rfl rfl ⟨nofun,nofun⟩ rfl rfl
  | _ => simpa only [Lane.write,hd] using h

theorem laneInv_other_seals (h : LaneInv S early peers d l pts cts) (chunk : Bytes) :
    LaneInv S early (peers.step S (.seals d.flip chunk)).2 d l pts cts :=
  { h with inFlight := inFlight_flip_seals h.inFlight chunk }

theorem laneInv_other_opens (h : LaneInv S early peers d l pts cts) (ct : Bytes) :
    LaneInv S early (peers.step S (.opens d.flip ct)).2 d l pts cts :=
  { h with inFlight := inFlight_flip_opens h.inFlight ct }

end Lanes

def earlyFor (earlyData : Bytes) : Direction → Bytes
  | .clientToServer => earlyData
  | .serverToClient => []

def due (earlyData : Bytes) (t : Tunnel) (d : Direction) : Bytes :=
  earlyFor earlyData d ++ (t.lane d).consumed

def TunnelInv (S : CipherSuite) (earlyData : Bytes) (t : Tunnel) : Prop :=
  ∀ d, ∃ pts cts, LaneInv S (earlyFor earlyData d) t.peers d (t.lane d) pts cts

section Tunnels
variable {S : CipherSuite} {earlyData : Bytes} {t : Tunnel}

theorem laneInv_fresh (S : CipherSuite) (record : RecordLayer) (d : Direction) (early : Bytes)
    (ack : Option (Arr 64)) :
    LaneInv S early ⟨record,record⟩ d ⟨[],.reading,
      (Down.early early ack).acks.flatMap encodeFramed,false,.early early ack,[]⟩ [] [] where
  inFlight := inFlight_start record d
  sizes := by simp
  stream := by simp [bodies,closes,Up.closing,Up.pending,Down.got]
  partly := fun _ _ => Nat.zero_le _
  plain := by simp [Down.plain,Up.plain]
  chunk := Nat.zero_le _
  shut := fun hs => by cases hs
  alive := rfl
  ended := fun hc => by cases hc

theorem tunnelInv_start (S : CipherSuite) (record : RecordLayer) (earlyData : Bytes)
    (zeroRtt : Bool) : TunnelInv S earlyData (Tunnel.start S record earlyData zeroRtt) := by
  intro d
  refine ⟨[],[],?_⟩
  cases d with
  | clientToServer => exact laneInv_fresh S record _ earlyData none
  | serverToClient =>
    cases zeroRtt with
    | false => exact laneInv_fresh S record _ [] none
    | true =>
      have hfresh := laneInv_fresh S record .serverToClient [] (some (record.encKeyHash S))
      simp only [Down.acks,List.flatMap_cons,List.flatMap_nil,List.append_nil] at hfresh
      exact hfresh

theorem tunnelInv_update (h : TunnelInv S earlyData t) {d : Direction} {peers : Duplex} {l : Lane}
    (hl : ∃ pts cts, LaneInv S (earlyFor earlyData d) peers d l pts cts)
    (hother : ∀ pts cts, LaneInv S (earlyFor earlyData d.flip) t.peers d.flip (t.lane d.flip) pts cts →
      LaneInv S (earlyFor earlyData d.flip) peers d.flip (t.lane d.flip) pts cts) :
    TunnelInv S earlyData ⟨peers,Function.update t.lane d l⟩ := by
  obtain ⟨pts,cts,ho⟩ := h d.flip
  exact lane_update (P := fun e l => ∃ pts cts, LaneInv S (earlyFor earlyData e) peers e l pts cts)
    hl ⟨pts,cts,hother pts cts ho⟩

theorem tunnelInv_setLane (h : TunnelInv S earlyData t) {d : Direction} {l : Lane}
    (hl : ∃ pts cts, LaneInv S (earlyFor earlyData d) t.peers d l pts cts) :
    TunnelInv S earlyData (t.setLane d l) :=
  tunnelInv_update h hl fun _ _ ho => ho

theorem tunnelInv_step (ha : S.AeadLaws) (h : TunnelInv S earlyData t) (e : TunnelEvent) :
    TunnelInv S earlyData (Tunnel.step S t e) := by
  cases e with
  | reads d chunk =>
    obtain ⟨pts,cts,hl⟩ := h d
    simp only [Tunnel.step]
    split_ifs with hguard
    · exact tunnelInv_setLane h ⟨pts,cts,laneInv_read hl hguard.1 hguard.2.2.2⟩
    · exact h
  | ends d =>
    obtain ⟨pts,cts,hl⟩ := h d
    simp only [Tunnel.step]
    split_ifs with hguard
    · exact tunnelInv_setLane h ⟨pts,cts,laneInv_end hl hguard.1⟩
    · exact h
  | seals d =>
    obtain ⟨pts,cts,hl⟩ := h d
    cases hup : (t.lane d).up with
    | sealing chunk =>
      simp only [Tunnel.step,hup]
      refine tunnelInv_update h ⟨_,_,laneInv_seal ha hl hup⟩ ?_
      intro pts cts ho
      have hother := laneInv_other_seals ho chunk
      rwa [Direction.flip_flip] at hother
    | _ => simpa only [Tunnel.step,hup] using h
  | pushes d =>
    obtain ⟨pts,cts,hl⟩ := h d
    exact tunnelInv_setLane h ⟨pts,cts,laneInv_push hl⟩
  | pulls d =>
    obtain ⟨pts,cts,hl⟩ := h d
    exact tunnelInv_setLane h ⟨pts,cts,laneInv_pull hl⟩
  | takes d =>
    obtain ⟨pts,cts,hl⟩ := h d
    exact tunnelInv_setLane h ⟨pts,laneInv_take hl⟩
  | opens d =>
    obtain ⟨pts,cts,hl⟩ := h d
    cases hd : (t.lane d).down with
    | opening ct =>
      simp only [Tunnel.step,hd]
      obtain ⟨pts',hl'⟩ := laneInv_open ha hl hd
      refine tunnelInv_update h ⟨pts',cts,hl'⟩ ?_
      intro pts cts ho
      have hother := laneInv_other_opens ho ct
      rwa [Direction.flip_flip] at hother
    | _ => simpa only [Tunnel.step,hd] using h
  | writes d =>
    obtain ⟨pts,cts,hl⟩ := h d
    exact tunnelInv_setLane h ⟨pts,cts,laneInv_write hl⟩

theorem tunnelInv_exec (ha : S.AeadLaws) (h : TunnelInv S earlyData t) (events : List TunnelEvent) :
    TunnelInv S earlyData (t.exec S events) := by
  induction events generalizing t with
  | nil => exact h
  | cons e es ih => exact ih (tunnelInv_step ha h e)

end Tunnels

theorem laneInv_drained {S : CipherSuite} {early : Bytes} {peers : Duplex} {d : Direction} {l : Lane}
    {pts cts : List Bytes} (h : LaneInv S early peers d l pts cts) (hd : l.down = .closed) :
    l.written = early ++ l.consumed := by
  obtain ⟨rfl,hclosing⟩ := h.ended hd
  have hpath := h.inFlight.path
  have hlen := Machine.length_run (DirPool.sealOne S (peers.encKey d) d) (peers.rx d) pts
  rw [hpath,hd] at hlen
  obtain rfl : pts = [] := List.length_eq_zero_iff.mp hlen.symm
  have hup : l.up.plain = [] := by
    cases hu : l.up with
    | sealing chunk =>
      rw [hu] at hclosing
      cases hclosing
    | _ => rfl
  have hp := h.plain
  rw [hd,hup] at hp
  simpa [Down.plain] using hp.symm

theorem tunnel_transparent (S : CipherSuite) (ha : S.AeadLaws) (record : RecordLayer)
    (earlyData : Bytes) (zeroRtt : Bool) (events : List TunnelEvent) (d : Direction) :
    let t := (Tunnel.start S record earlyData zeroRtt).exec S events
    (∀ e, (t.lane d).down ≠ .failed e) ∧ (t.lane d).down ≠ .returned ∧
      (t.lane d).written <+: due earlyData t d ∧
      ((t.lane d).down = .closed → (t.lane d).written = due earlyData t d) := by
  intro t
  obtain ⟨pts,cts,h⟩ := tunnelInv_exec ha (tunnelInv_start S record earlyData zeroRtt) events d
  have halive := h.alive
  refine ⟨?_,?_,?_,laneInv_drained h⟩
  · intro e he
    rw [he] at halive
    cases halive
  · intro he
    rw [he] at halive
    cases halive
  · rw [due,h.plain]
    exact List.prefix_append _ _

def plainRecord : RecordLayer := RecordLayer.new ⟨fill 32 1,fill 32 2⟩ (fill 32 3)

def echoEvents : List TunnelEvent :=
  List.flatten [List.replicate 3 (.writes .clientToServer),[.writes .serverToClient,
    .reads .clientToServer (ascii "hi"),.seals .clientToServer],
    List.replicate 29 (.pushes .clientToServer),[.ends .clientToServer],
    List.replicate 28 (.pulls .clientToServer),[.takes .clientToServer,.opens .clientToServer],
    List.replicate 3 (.writes .clientToServer),List.replicate 6 (.pushes .clientToServer),
    List.replicate 5 (.pulls .clientToServer),[.takes .clientToServer]]

theorem tunnel_transparent_echo :
    (((Tunnel.start plainSuite plainRecord (ascii "yo") true).exec plainSuite echoEvents).lane
      .clientToServer).down = .closed ∧
    (((Tunnel.start plainSuite plainRecord (ascii "yo") true).exec plainSuite echoEvents).lane
      .clientToServer).written = ascii "yohi" := by
  have hclosed : (((Tunnel.start plainSuite plainRecord (ascii "yo") true).exec plainSuite
      echoEvents).lane .clientToServer).down = .closed := by decide +kernel
  refine ⟨hclosed,?_⟩
  rw [(tunnel_transparent plainSuite plainSuite_aead plainRecord (ascii "yo") true echoEvents
    .clientToServer).2.2.2 hclosed]
  decide +kernel

end OrtTunnel.Net
