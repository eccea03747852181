import OrtTunnel.Core.Handshake.Agreement
import OrtTunnel.Net.Run

namespace OrtTunnel.Net
open BigEndian Proto OrtTunnel.Core

def Received (f : Frame) (rest : Bytes) : Prop :=
  readFrame (encodeFramed f.encode ++ rest) = (.ok (some f.encode),rest) ∧
    Frame.decode f.encode = .ok f

section Writes
variable (S : CipherSuite) (X : X509) (ccfg : ClientConfig S) (scfg : ServerConfig S)
variable (verifier : ServerVerifier)

-- The frames whose `write_frame` returned `Ok`, also when the handshake fails later.
def finishWrites (net : ClientNet) (cached : Option Bytes) (earlyData : Bytes) : List Frame :=
  match readServerHello net.incoming with
  | .error _ => []
  | .ok (serverPk,certificate,_) =>
  match verifier.verify X net.checkedAt serverPk certificate with
  | .error _ => []
  | .ok _ =>
  if cached.any fun pin => pin != serverPk then [] else
  match clientOneRttFinish S ccfg serverPk net.srcIp net.now earlyData net.r net.nonce,
    net.wroteSecond with
  | .ok (frame,_),.ok _ => [frame]
  | _,_ => []

def clientWrites (net : ClientNet) (cached : Option Bytes) (force1rtt : Bool) (earlyData : Bytes) :
    List Frame :=
  match cached,force1rtt with
  | some spk,false =>
    match clientZeroRtt S ccfg spk net.srcIp net.now earlyData net.r net.nonce,net.wroteFirst with
    | .ok (frame,_),.ok _ => [frame]
    | _,_ => []
  | _,_ =>
    match net.wroteFirst with
    | .error _ => []
    | .ok _ => clientOneRttHello S ccfg :: finishWrites S X ccfg verifier net cached earlyData

def serverWrites (net : ServerNet) (strike : StrikeCache) : List Frame :=
  match readHandshake net.incoming with
  | .error _ => []
  | .ok (frame,_) =>
  match (serverOnFirst S scfg frame net.peerIp net.nowFirst strike).1,net.wrote with
  | .ok (.zeroRtt ack _),.ok _ => [ack]
  | .ok (.oneRtt hello),.ok _ => [hello]
  | _,_ => []

def wire (frames : List Frame) : Bytes := frames.flatMap fun f => encodeFramed f.encode

variable {S X ccfg scfg verifier}

theorem clientOpen_outgoing {net : ClientNet} {cached : Option Bytes} {force1rtt : Bool}
    {earlyData : Bytes} {o : ClientOutcome}
    (h : clientOpen S X ccfg verifier net cached force1rtt earlyData = .ok o) :
    o.conn.outgoing = wire (clientWrites S X ccfg verifier net cached force1rtt earlyData) := by
  unfold clientOpen at h
  split at h
  · obtain ⟨frame,est,hsent,hwrote,rfl⟩ := openZeroRtt_ok h
    simp [clientWrites,wire,hsent,hwrote]
  · rename_i hmode
    obtain ⟨serverPk,certificate,rest,frame,est,hfirst,hread,hverify,hpin,hsent,hsecond,rfl⟩ :=
      openOneRtt_ok h
    have hfinish : finishWrites S X ccfg verifier net cached earlyData = [frame] := by
      simp only [finishWrites,hread,hverify,hpin,hsent,hsecond]
      rfl
    rw [clientWrites]
    · simp [wire,hfirst,hfinish]
    · exact hmode

theorem acceptClientData_outgoing {net : ServerNet} {hello : Frame} {rest : Bytes}
    {strike : StrikeCache} {o : ServerOutcome}
    (h : (acceptClientData S scfg net hello rest strike).1 = .ok o) :
    o.conn.outgoing = encodeFramed hello.encode := by
  unfold acceptClientData at h
  split at h
  · cases h
  split at h
  · cases h
  · rw [← Except.ok.inj h]

theorem serverAccept_outgoing {net : ServerNet} {strike : StrikeCache} {o : ServerOutcome}
    (h : (serverAccept S scfg net strike).1 = .ok o) :
    o.conn.outgoing = wire (serverWrites S scfg net strike) := by
  unfold serverAccept at h
  split at h
  · cases h
  rename_i frame rest hread
  split at h
  · cases h
  · rename_i ack est strike' hfirst
    split at h
    · cases h
    · rename_i hwrote
      rw [← Except.ok.inj h]
      simp [serverWrites,wire,hread,hfirst,hwrote]
  · rename_i hello strike' hfirst
    split at h
    · cases h
    · rename_i hwrote
      rw [acceptClientData_outgoing h]
      simp [serverWrites,wire,hread,hfirst,hwrote]

end Writes

theorem received_iff {f : Frame} {rest : Bytes} (h : f.encode.length ≤ maxFrame → f.InRange) :
    Received f rest ↔ f.encode.length ≤ maxFrame := by
  constructor
  · rintro ⟨hread,-⟩
    exact (readFrame_some hread).1
  · intro hfits
    exact ⟨readFrame_framed hfits,f.decode_encode (h hfits)⟩

theorem received_length {f : Frame} {rest : Bytes} {n k : ℕ} (hlen : f.encode.length = n + k)
    (hk : k ≤ maxFrame) (hrange : n + k ≤ maxFrame → f.InRange) :
    Received f rest ↔ n ≤ maxFrame - k := by
  rw [received_iff (hlen ▸ hrange),hlen]
  omega

section Sizes
variable {S : CipherSuite} {ccfg : ClientConfig S} {scfg : ServerConfig S}
variable {serverPk earlyData rest : Bytes} {srcIp : Arr 16} {now : UInt64} {r : Arr rLen}
variable {nonce : Arr 32} {payload : KemPayload} {est : ClientEstablished}

theorem length_payload (ha : S.AeadLaws) (hl : S.LenLaws) (hv : S.V1Lengths)
    (h : buildPayload S ccfg serverPk srcIp now earlyData r nonce = .ok (payload,est)) :
    payload.ciphertext.length = 1088 ∧ payload.clientSig.length = 3309 ∧
      payload.encData.length = earlyData.length + 16 := by
  obtain ⟨ct,shared,henc,rfl,-⟩ := buildPayload_ok h
  refine ⟨?_,?_,RecordLayer.length_seal S _ ha .clientToServer earlyData⟩
  · rw [hl.ciphertext _ _ _ _ henc,hv.kemCt]
  · rw [signClientBinding,hl.signature,hv.sig]

theorem zeroRtt_received (ha : S.AeadLaws) (hl : S.LenLaws) (hv : S.V1Lengths)
    (hclient : ccfg.clientPk.length = S.sigVkLen)
    (h : buildPayload S ccfg serverPk srcIp now earlyData r nonce = .ok (payload,est)) :
    Received (.clientHelloZeroRtt S.id.code ccfg.clientPk payload) rest ↔
      earlyData.length ≤ 1042142 := by
  obtain ⟨hct,hsig,henc⟩ := length_payload ha hl hv h
  refine received_length (k := 6434) ?_ (by decide) fun hfits => ?_
  · simp only [Frame.encode_eq,Frame.fields,List.length_append,List.length_singleton,length_toBe,
      length_bytes16,KemPayload.length_wire,hclient,hv.sigVk,hct,hsig,henc]
    omega
  · exact ⟨hclient ▸ hl.fits16.2.2.1,payload_inRange hl (by omega) h⟩

theorem clientData_received (ha : S.AeadLaws) (hl : S.LenLaws) (hv : S.V1Lengths)
    (hclient : ccfg.clientPk.length = S.sigVkLen)
    (h : buildPayload S ccfg serverPk srcIp now earlyData r nonce = .ok (payload,est)) :
    Received (.clientData ccfg.clientPk payload) rest ↔ earlyData.length ≤ 1042144 := by
  obtain ⟨hct,hsig,henc⟩ := length_payload ha hl hv h
  refine received_length (k := 6432) ?_ (by decide) fun hfits => ?_
  · simp only [Frame.encode_eq,Frame.fields,List.length_append,List.length_singleton,
      length_bytes16,KemPayload.length_wire,hclient,hv.sigVk,hct,hsig,henc]
    omega
  · exact ⟨hclient ▸ hl.fits16.2.2.1,payload_inRange hl (by omega) h⟩

theorem oneRttHello_received (hv : S.V1Lengths) (hclient : ccfg.clientPk.length = S.sigVkLen) :
    Received (clientOneRttHello S ccfg) rest := by
  have hpk : ccfg.clientPk.length = 1952 := by rw [hclient,hv.sigVk]
  refine (received_iff fun _ => ?_).mpr ?_
  · change ccfg.clientPk.length ≤ 65535
    omega
  · simp only [clientOneRttHello,Frame.encode_eq,Frame.fields,List.length_append,
      List.length_singleton,length_toBe,length_bytes16,hpk]
    decide

theorem serverHello_received (hl : S.LenLaws) (hv : S.V1Lengths)
    (hserver : scfg.serverPk.length = S.kemEkLen) :
    Received (serverHello S scfg now) rest ↔ scfg.certificate.length ≤ 1047375 := by
  have hm : maxFrame ≤ 2 ^ 32 - 1 := by decide
  refine received_length (k := 1201) ?_ (by decide) fun hfits => ?_
  · simp only [serverHello,Frame.encode_eq,Frame.fields,List.length_append,List.length_singleton,
      length_toBe,length_bytes16,length_bytes32,hserver,hv.kemEk]
    omega
  · exact ⟨hserver ▸ hl.fits16.1,by omega⟩

theorem serverAck_received (hash : Arr 64) : Received (.serverAck hash.val) rest := by
  refine (received_iff fun _ => ?_).mpr (serverAck_fits hash)
  change hash.val.length ≤ 65535
  rw [hash.property]
  decide

end Sizes

section Sent
variable {S : CipherSuite} {X : X509} {ccfg : ClientConfig S} {scfg : ServerConfig S}
variable {verifier : ServerVerifier} {net : ClientNet} {earlyData : Bytes} {f : Frame}

theorem mem_zeroRtt_writes {spk : Bytes}
    (h : f ∈ clientWrites S X ccfg verifier net (some spk) false earlyData) :
    ∃ payload est, buildPayload S ccfg spk net.srcIp net.now earlyData net.r net.nonce =
      .ok (payload,est) ∧ f = .clientHelloZeroRtt S.id.code ccfg.clientPk payload := by
  simp only [clientWrites] at h
  split at h
  · rename_i frame est _ hzero _
    obtain rfl := List.mem_singleton.mp h
    obtain ⟨payload,hb,hf⟩ := clientZeroRtt_ok hzero
    exact ⟨payload,est,hb,hf⟩
  · cases h

theorem mem_finishWrites {cached : Option Bytes}
    (h : f ∈ finishWrites S X ccfg verifier net cached earlyData) :
    ∃ serverPk payload est, buildPayload S ccfg serverPk net.srcIp net.now earlyData net.r
      net.nonce = .ok (payload,est) ∧ f = .clientData ccfg.clientPk payload := by
  unfold finishWrites at h
  split at h
  · cases h
  rename_i serverPk certificate _ _
  split at h
  · cases h
  split at h
  · cases h
  split at h
  · rename_i frame est _ hfinish _
    obtain rfl := List.mem_singleton.mp h
    obtain ⟨payload,hb,hf⟩ := clientOneRttFinish_ok hfinish
    exact ⟨serverPk,payload,est,hb,hf⟩
  · cases h

theorem mem_oneRtt_writes {cached : Option Bytes} {force1rtt : Bool}
    (hmode : cached = none ∨ force1rtt = true)
    (h : f ∈ clientWrites S X ccfg verifier net cached force1rtt earlyData) :
    f = clientOneRttHello S ccfg ∨ f ∈ finishWrites S X ccfg verifier net cached earlyData := by
  unfold clientWrites at h
  split at h
  · simp at hmode
  split at h
  · cases h
  · exact List.mem_cons.mp h

theorem mem_serverWrites {net : ServerNet} {strike : StrikeCache}
    (h : f ∈ serverWrites S scfg net strike) :
    (∃ hash : Arr 64, f = .serverAck hash.val) ∨ f = serverHello S scfg net.nowFirst := by
  unfold serverWrites at h
  split at h
  · cases h
  split at h
  · rename_i hstep _
    obtain rfl := List.mem_singleton.mp h
    obtain ⟨est,heq⟩ | heq := serverOnFirst_reply S scfg hstep
    · exact Or.inl ⟨_,(ServerStep.zeroRtt.inj heq).1⟩
    · cases heq
  · rename_i hstep _
    obtain rfl := List.mem_singleton.mp h
    obtain ⟨est,heq⟩ | heq := serverOnFirst_reply S scfg hstep
    · cases heq
    · exact Or.inr (ServerStep.oneRtt.inj heq)
  · cases h

end Sent

theorem sent_received_iff (S : CipherSuite) (ha : S.AeadLaws) (hl : S.LenLaws) (hv : S.V1Lengths)
    (X : X509) (ccfg : ClientConfig S) (hclient : ccfg.clientPk.length = S.sigVkLen)
    (scfg : ServerConfig S) (hserver : scfg.serverPk.length = S.kemEkLen) :
    (∀ verifier net spk earlyData,
      ∀ f ∈ clientWrites S X ccfg verifier net (some spk) false earlyData, ∀ rest,
        Received f rest ↔ earlyData.length ≤ 1042142) ∧
    (∀ verifier net cached force1rtt earlyData, cached = none ∨ force1rtt = true →
      ∀ f ∈ clientWrites S X ccfg verifier net cached force1rtt earlyData, ∀ rest,
        Received f rest ↔ f = clientOneRttHello S ccfg ∨ earlyData.length ≤ 1042144) ∧
    (∀ net strike, ∀ f ∈ serverWrites S scfg net strike, ∀ rest,
      Received f rest ↔ (∃ ekHash, f = .serverAck ekHash) ∨ scfg.certificate.length ≤ 1047375) ∧
    (∀ verifier net cached force1rtt earlyData o,
      clientOpen S X ccfg verifier net cached force1rtt earlyData = .ok o →
        o.conn.outgoing = wire (clientWrites S X ccfg verifier net cached force1rtt earlyData)) ∧
    ∀ net strike o, (serverAccept S scfg net strike).1 = .ok o →
      o.conn.outgoing = wire (serverWrites S scfg net strike) := by
  refine ⟨?_,?_,?_,fun _ _ _ _ _ _ => clientOpen_outgoing,fun _ _ _ => serverAccept_outgoing⟩
  · intro verifier net spk earlyData f hf rest
    obtain ⟨payload,est,hb,rfl⟩ := mem_zeroRtt_writes hf
    exact zeroRtt_received ha hl hv hclient hb
  · intro verifier net cached force1rtt earlyData hmode f hf rest
    obtain rfl | hdata := mem_oneRtt_writes hmode hf
    · simp only [oneRttHello_received hv hclient,true_or]
    · obtain ⟨serverPk,payload,est,hb,rfl⟩ := mem_finishWrites hdata
      rw [clientData_received ha hl hv hclient hb]
      simp [clientOneRttHello]
  · intro net strike f hf rest
    obtain ⟨hash,rfl⟩ | rfl := mem_serverWrites hf
    · simp [serverAck_received hash]
    · rw [serverHello_received hl hv hserver]
      simp [serverHello]

def paddedClient : ClientConfig paddedSuite := ⟨fill 32 1,paddedSuite.sigPublic (fill 32 1)⟩

def paddedServer : ServerConfig paddedSuite :=
  ⟨fill 32 7,paddedSuite.kemPublic (fill 32 7),[],2000,1000⟩

def paddedNet : ClientNet := helloNet paddedServer.serverPk

theorem padded_opens (earlyData : Bytes) :
    ∃ o f, clientOpen paddedSuite noCerts paddedClient .trustOnFirstUse paddedNet
        (some paddedServer.serverPk) false earlyData = .ok o ∧
      clientWrites paddedSuite noCerts paddedClient .trustOnFirstUse paddedNet
        (some paddedServer.serverPk) false earlyData = [f] := by
  obtain ⟨payload,est,hb⟩ : ∃ payload est, buildPayload paddedSuite paddedClient
      paddedServer.serverPk paddedNet.srcIp paddedNet.now earlyData paddedNet.r paddedNet.nonce =
        .ok (payload,est) := buildPayload_total paddedSuite_kem _
  have hzero : clientZeroRtt paddedSuite paddedClient paddedServer.serverPk paddedNet.srcIp
      paddedNet.now earlyData paddedNet.r paddedNet.nonce =
        .ok (.clientHelloZeroRtt paddedSuite.id.code paddedClient.clientPk payload,est) := by
    simp only [clientZeroRtt,hb]
  have hwrote : paddedNet.wroteFirst = .ok () := rfl
  simp [clientOpen,openZeroRtt,clientWrites,hzero,hwrote]

theorem sent_received_padded : ∃ o f, clientOpen paddedSuite noCerts paddedClient .trustOnFirstUse
      paddedNet (some paddedServer.serverPk) false (ascii "hi") = .ok o ∧
    o.conn.outgoing = wire [f] ∧ ∀ rest, Received f rest := by
  obtain ⟨o,f,hopen,hwrites⟩ := padded_opens (ascii "hi")
  obtain ⟨hzero,-,-,hout,-⟩ := sent_received_iff paddedSuite paddedSuite_aead paddedSuite_len
    paddedSuite_lengths noCerts paddedClient (paddedSuite_len.verifyKey _) paddedServer
    (paddedSuite_len.encapsKey _)
  refine ⟨o,f,hopen,?_,fun rest => ?_⟩
  · rw [← hwrites]
    exact hout _ _ _ _ _ _ hopen
  · have hshort : (ascii "hi").length ≤ 1042142 := by decide
    refine (hzero .trustOnFirstUse paddedNet paddedServer.serverPk (ascii "hi") f ?_ rest).mpr hshort
    rw [hwrites]
    exact List.mem_singleton.mpr rfl

theorem oversized_hello_sent : ∃ o f, clientOpen paddedSuite noCerts paddedClient .trustOnFirstUse
      paddedNet (some paddedServer.serverPk) false (List.replicate 1042143 0) = .ok o ∧
    o.conn.outgoing = wire [f] ∧ ∀ rest, ¬ Received f rest := by
  obtain ⟨o,f,hopen,hwrites⟩ := padded_opens (List.replicate 1042143 0)
  refine ⟨o,f,hopen,?_,fun rest hreceived => ?_⟩
  · rw [← hwrites]
    exact clientOpen_outgoing hopen
  · have hmem : f ∈ clientWrites paddedSuite noCerts paddedClient .trustOnFirstUse paddedNet
        (some paddedServer.serverPk) false (List.replicate 1042143 0) := by
      rw [hwrites]
      exact List.mem_singleton.mpr rfl
    obtain ⟨payload,est,hb,rfl⟩ := mem_zeroRtt_writes hmem
    have hle := (zeroRtt_received paddedSuite_aead paddedSuite_len paddedSuite_lengths
      (paddedSuite_len.verifyKey _) hb).mp hreceived
    rw [List.length_replicate] at hle
    omega

end OrtTunnel.Net
