import OrtTunnel.Core.Handshake.Client
import OrtTunnel.Core.Handshake.Server
import OrtTunnel.Core.Lockstep
import OrtTunnel.Proto.Framing

namespace OrtTunnel.Core
open BigEndian Proto

def deliver (f : Frame) : Except Fault Frame :=
  let wire := encodeFramed f.encode
  match parseLen ⟨wire.take 4,by simp [wire,encodeFramed]⟩ with
  | .error e => .error (.proto e)
  | .ok n => Frame.decode ((wire.drop 4).take n)

theorem deliver_ok {f : Frame} (hrange : f.InRange) (hfits : f.encode.length ≤ maxFrame) :
    deliver f = .ok f := by
  have htake : (encodeFramed f.encode).take 4 = toBe 4 f.encode.length := by
    rw [encodeFramed_eq hfits,List.take_left' (length_toBe 4 _)]
  have hdrop : (encodeFramed f.encode).drop 4 = f.encode := by
    rw [encodeFramed_eq hfits,List.drop_left' (length_toBe 4 _)]
  simp only [deliver,htake,hdrop,parseLen_toBe hfits,List.take_length]
  exact f.decode_encode hrange

section Payload
variable {S : CipherSuite} {ccfg : ClientConfig S} {scfg : ServerConfig S}
variable {serverPk earlyData : Bytes} {srcIp : Arr 16} {tc now : UInt64} {r : Arr rLen}
variable {nonce : Arr 32} {payload : KemPayload} {client : ClientEstablished}

def firstRecord (S : CipherSuite) (shared : Arr sharedLen) (ciphertext : Bytes) (nonce : Arr 32)
    (earlyData : Bytes) : Bytes × RecordLayer :=
  (RecordLayer.new (deriveSessionKeys S shared ciphertext) nonce).seal S .clientToServer earlyData

theorem buildPayload_ok
    (h : buildPayload S ccfg serverPk srcIp tc earlyData r nonce = .ok (payload,client)) :
    ∃ ct shared, S.kemEncapsulate serverPk r = .ok (ct,shared) ∧
      payload = ⟨ct,srcIp,tc,nonce,signClientBinding S ccfg.sigSecret ⟨srcIp,tc,nonce⟩ ccfg.clientPk
        ct (firstRecord S shared ct nonce earlyData).1,
        (firstRecord S shared ct nonce earlyData).1⟩ ∧
      client = ⟨(firstRecord S shared ct nonce earlyData).2,
        S.hash512 (deriveSessionKeys S shared ct).encKey.val⟩ := by
  unfold buildPayload at h
  cases hk : S.kemEncapsulate serverPk r with
  | error e => simp [hk] at h
  | ok pair =>
    obtain ⟨ct,shared⟩ := pair
    simp only [hk,Except.ok.injEq,Prod.mk.injEq] at h
    exact ⟨ct,shared,rfl,h.1.symm,h.2.symm⟩

theorem buildPayload_total (hk : S.KemLaws) (sk : S.KemSecret) :
    ∃ payload client, buildPayload S ccfg (S.kemPublic sk) srcIp tc earlyData r nonce =
      .ok (payload,client) := by
  obtain ⟨ct,shared,he⟩ := hk.encapsulates sk r
  simp [buildPayload,he]

theorem expectedEkHash_buildPayload
    (h : buildPayload S ccfg serverPk srcIp tc earlyData r nonce = .ok (payload,client)) :
    client.expectedEkHash = client.record.encKeyHash S := by
  obtain ⟨ct,shared,-,-,rfl⟩ := buildPayload_ok h
  simp [firstRecord,RecordLayer.encKeyHash,RecordLayer.new]

theorem establish_buildPayload (hk : S.KemLaws) (ha : S.AeadLaws)
    (h : buildPayload S ccfg (S.kemPublic scfg.kemSecret) srcIp tc earlyData r nonce =
      .ok (payload,client)) :
    establish S scfg payload = .ok ⟨client.record,earlyData⟩ := by
  obtain ⟨ct,shared,henc,rfl,rfl⟩ := buildPayload_ok h
  have hdec := hk.decapsulates _ _ _ _ henc
  have hopen := RecordLayer.open_seal S (RecordLayer.new (deriveSessionKeys S shared ct) nonce) ha
    .clientToServer earlyData
  simp only [establish,hdec,firstRecord,hopen]

theorem precheck_buildPayload (hsig : S.SigLaws) (hpk : ccfg.clientPk = S.sigPublic ccfg.sigSecret)
    (h : buildPayload S ccfg serverPk srcIp tc earlyData r nonce = .ok (payload,client))
    (hfuture : tc.toNat ≤ now.toNat + scfg.skewMs.toNat)
    (hpast : now.toNat ≤ tc.toNat + scfg.windowMs.toNat) :
    precheck S scfg ccfg.clientPk payload srcIp now = .ok () := by
  obtain ⟨ct,shared,-,rfl,-⟩ := buildPayload_ok h
  refine (precheck_ok_iff S scfg _ _ _ _).mpr ⟨rfl,(checkWindow_ok_iff _ _ _ _).mpr ⟨hfuture,hpast⟩,?_⟩
  rw [verifyClientBinding_ok_iff,signClientBinding,connMeta,hpk]
  exact hsig.verifies _ _

theorem payload_inRange (hl : S.LenLaws) (hfits : payload.encData.length ≤ maxFrame)
    (h : buildPayload S ccfg serverPk srcIp tc earlyData r nonce = .ok (payload,client)) :
    payload.InRange := by
  obtain ⟨ct,shared,henc,rfl,-⟩ := buildPayload_ok h
  obtain ⟨-,hct,-,hsig⟩ := hl.fits16
  have hm : maxFrame ≤ 2 ^ 32 - 1 := by decide
  refine ⟨?_,?_,hfits.trans hm⟩
  · rw [hl.ciphertext _ _ _ _ henc]
    exact hct
  · rw [signClientBinding,hl.signature]
    exact hsig

end Payload

theorem encData_le_encode {frame : Frame} {f : Flight} (hf : flightOf frame = some f) :
    f.payload.encData.length ≤ frame.encode.length := by
  cases frame with
  | clientHelloZeroRtt suiteId pk payload =>
    obtain rfl := Option.some.inj hf
    simp only [Frame.encode_eq,Frame.fields,List.length_append,KemPayload.length_wire]
    omega
  | clientData pk payload =>
    obtain rfl := Option.some.inj hf
    simp only [Frame.encode_eq,Frame.fields,List.length_append,KemPayload.length_wire]
    omega
  | _ => cases hf

def Unseen (S : CipherSuite) (strike : StrikeCache) (frame : Frame) (now : UInt64) : Prop :=
  ∀ f, flightOf frame = some f → ¬ strike.LiveEntry (f.tag S) now

structure Agreed (S : CipherSuite) (client : ClientEstablished) (server : ServerEstablished)
    (earlyData : Bytes) : Prop where
  early : server.earlyData = earlyData
  record : server.record = client.record
  opens : RecordsOpen S client.record server.record

section Modes
variable {S : CipherSuite} {ccfg : ClientConfig S} {scfg : ServerConfig S}
variable {earlyData : Bytes} {srcIp : Arr 16} {tc now : UInt64} {r : Arr rLen} {nonce : Arr 32}
variable {frame : Frame} {payload : KemPayload} {client : ClientEstablished} {strike : StrikeCache}

theorem payload_agrees (hk : S.KemLaws) (hsig : S.SigLaws) (ha : S.AeadLaws)
    (hpk : ccfg.clientPk = S.sigPublic ccfg.sigSecret)
    (hfuture : tc.toNat ≤ now.toNat + scfg.skewMs.toNat)
    (hpast : now.toNat ≤ tc.toNat + scfg.windowMs.toNat)
    (hb : buildPayload S ccfg (S.kemPublic scfg.kemSecret) srcIp tc earlyData r nonce =
      .ok (payload,client))
    (hfresh : ¬ strike.LiveEntry (replayTag S payload.nonce payload.encData) now) :
    ∃ server strike',
      processPayload S scfg ccfg.clientPk payload srcIp now strike = (.ok server,strike') ∧
        server.record.encKeyHash S = client.expectedEkHash ∧ Agreed S client server earlyData := by
  have hp := processPayload_of_checks S scfg (precheck_buildPayload hsig hpk hb hfuture hpast)
    hfresh (establish_buildPayload hk ha hb)
  exact ⟨⟨client.record,earlyData⟩,_,hp,(expectedEkHash_buildPayload hb).symm,rfl,rfl,
    records_open S ha client.record⟩

theorem zeroRtt_agrees (hk : S.KemLaws) (hsig : S.SigLaws) (ha : S.AeadLaws) (hl : S.LenLaws)
    (hpk : ccfg.clientPk = S.sigPublic ccfg.sigSecret)
    (hfuture : tc.toNat ≤ now.toNat + scfg.skewMs.toNat)
    (hpast : now.toNat ≤ tc.toNat + scfg.windowMs.toNat)
    (hsent : clientZeroRtt S ccfg (S.kemPublic scfg.kemSecret) srcIp tc earlyData r nonce =
      .ok (frame,client))
    (hfits : frame.encode.length ≤ maxFrame) (hunseen : Unseen S strike frame now) :
    deliver frame = .ok frame ∧ ∃ server strike', serverOnFirst S scfg frame srcIp now strike =
        (.ok (.zeroRtt (.serverAck client.expectedEkHash.val) server),strike') ∧
      Agreed S client server earlyData := by
  obtain ⟨payload,hb,rfl⟩ := clientZeroRtt_ok hsent
  have hrange : payload.InRange := payload_inRange hl ((encData_le_encode rfl).trans hfits) hb
  refine ⟨deliver_ok ⟨hpk ▸ hl.verifyKey_le ccfg.sigSecret,hrange⟩ hfits,?_⟩
  obtain ⟨server,strike',hp,hack,hagreed⟩ := payload_agrees hk hsig ha hpk hfuture hpast hb
    (hunseen _ rfl)
  exact ⟨server,strike',by simp [serverOnFirst,checkSuite,hp,hack],hagreed⟩

theorem oneRtt_agrees (hk : S.KemLaws) (hsig : S.SigLaws) (ha : S.AeadLaws) (hl : S.LenLaws)
    (hpk : ccfg.clientPk = S.sigPublic ccfg.sigSecret)
    (hfuture : tc.toNat ≤ now.toNat + scfg.skewMs.toNat)
    (hpast : now.toNat ≤ tc.toNat + scfg.windowMs.toNat)
    (hsent : clientOneRttFinish S ccfg (S.kemPublic scfg.kemSecret) srcIp tc earlyData r nonce =
      .ok (frame,client))
    (hfits : frame.encode.length ≤ maxFrame) (hunseen : Unseen S strike frame now) :
    deliver frame = .ok frame ∧ ∃ server strike',
      serverOnClientData S scfg frame srcIp now strike = (.ok server,strike') ∧
        Agreed S client server earlyData := by
  obtain ⟨payload,hb,rfl⟩ := clientOneRttFinish_ok hsent
  have hrange : payload.InRange := payload_inRange hl ((encData_le_encode rfl).trans hfits) hb
  refine ⟨deliver_ok ⟨hpk ▸ hl.verifyKey_le ccfg.sigSecret,hrange⟩ hfits,?_⟩
  obtain ⟨server,strike',hp,-,hagreed⟩ := payload_agrees hk hsig ha hpk hfuture hpast hb
    (hunseen _ rfl)
  exact ⟨server,strike',by simp [serverOnClientData,hp],hagreed⟩

theorem hello_delivered (hl : S.LenLaws) (hpk : ccfg.clientPk = S.sigPublic ccfg.sigSecret) :
    deliver (clientOneRttHello S ccfg) = .ok (clientOneRttHello S ccfg) := by
  have hkey : ccfg.clientPk.length ≤ 65535 := hpk ▸ hl.verifyKey_le ccfg.sigSecret
  have hm : 65540 ≤ maxFrame := by decide
  refine deliver_ok hkey ?_
  simp only [clientOneRttHello,Frame.encode_eq,Frame.fields,List.length_append,length_toBe,
    List.length_singleton,length_bytes16]
  omega

theorem serverHello_delivered (hl : S.LenLaws) (hpk : scfg.serverPk = S.kemPublic scfg.kemSecret)
    (hfits : (serverHello S scfg now).encode.length ≤ maxFrame) :
    deliver (serverHello S scfg now) = .ok (serverHello S scfg now) := by
  have hm : maxFrame ≤ 2 ^ 32 - 1 := by decide
  refine deliver_ok ⟨hpk ▸ hl.encapsKey_le scfg.kemSecret,?_⟩ hfits
  simp only [serverHello,Frame.encode_eq,Frame.fields,List.length_append,length_bytes32] at hfits
  omega

end Modes

theorem handshake_agrees (S : CipherSuite) (hk : S.KemLaws) (hsig : S.SigLaws) (ha : S.AeadLaws)
    (hl : S.LenLaws) (ccfg : ClientConfig S) (hclient : ccfg.clientPk = S.sigPublic ccfg.sigSecret)
    (scfg : ServerConfig S) (hserver : scfg.serverPk = S.kemPublic scfg.kemSecret)
    (r : Arr rLen) (nonce : Arr 32) (earlyData : Bytes) (srcIp : Arr 16) (tc now : UInt64)
    (hfuture : tc.toNat ≤ now.toNat + scfg.skewMs.toNat)
    (hpast : now.toNat ≤ tc.toNat + scfg.windowMs.toNat) (strike : StrikeCache) :
    (∃ frame client,
      clientZeroRtt S ccfg scfg.serverPk srcIp tc earlyData r nonce = .ok (frame,client) ∧
      (frame.encode.length ≤ maxFrame → Unseen S strike frame now →
        ∃ received server strike', deliver frame = .ok received ∧
          serverOnFirst S scfg received srcIp now strike =
            (.ok (.zeroRtt (.serverAck client.expectedEkHash.val) server),strike') ∧
          Agreed S client server earlyData)) ∧
    (∃ hello, deliver (clientOneRttHello S ccfg) = .ok hello ∧
      ∀ now₀ strike₀, ∃ serverPk,
        serverOnFirst S scfg hello srcIp now₀ strike₀ =
          (.ok (.oneRtt (.serverHello S.id.code serverPk scfg.certificate now₀)),strike₀) ∧
        ((Frame.serverHello S.id.code serverPk scfg.certificate now₀).encode.length ≤ maxFrame →
          deliver (.serverHello S.id.code serverPk scfg.certificate now₀) =
            .ok (.serverHello S.id.code serverPk scfg.certificate now₀)) ∧
        ∃ frame client,
          clientOneRttFinish S ccfg serverPk srcIp tc earlyData r nonce = .ok (frame,client) ∧
          (frame.encode.length ≤ maxFrame → Unseen S strike frame now →
            ∃ received server strike', deliver frame = .ok received ∧
              serverOnClientData S scfg received srcIp now strike = (.ok server,strike') ∧
              Agreed S client server earlyData)) := by
  obtain ⟨payload,client,hb⟩ : ∃ payload client, buildPayload S ccfg (S.kemPublic scfg.kemSecret)
      srcIp tc earlyData r nonce = .ok (payload,client) := buildPayload_total hk scfg.kemSecret
  have hzero : clientZeroRtt S ccfg (S.kemPublic scfg.kemSecret) srcIp tc earlyData r nonce =
      .ok (.clientHelloZeroRtt S.id.code ccfg.clientPk payload,client) := by
    simp [clientZeroRtt,hb]
  have hone : clientOneRttFinish S ccfg (S.kemPublic scfg.kemSecret) srcIp tc earlyData r nonce =
      .ok (.clientData ccfg.clientPk payload,client) := by
    simp [clientOneRttFinish,hb]
  refine ⟨⟨_,client,hserver ▸ hzero,?_⟩,_,hello_delivered hl hclient,?_⟩
  · intro hfits hunseen
    obtain ⟨hwire,server,strike',hs,hagreed⟩ := zeroRtt_agrees hk hsig ha hl hclient hfuture hpast
      hzero hfits hunseen
    exact ⟨_,server,strike',hwire,hs,hagreed⟩
  · intro now₀ strike₀
    refine ⟨scfg.serverPk,by simp [clientOneRttHello,serverOnFirst,checkSuite,serverHello],
      serverHello_delivered hl hserver,_,client,hserver ▸ hone,?_⟩
    intro hfits hunseen
    obtain ⟨hwire,server,strike',hs,hagreed⟩ := oneRtt_agrees hk hsig ha hl hclient hfuture hpast
      hone hfits hunseen
    exact ⟨_,server,strike',hwire,hs,hagreed⟩

def plainClient (b : UInt8) : ClientConfig plainSuite := ⟨fill 32 b,(fill 32 b).val⟩

def plainServer (windowMs skewMs : UInt64) : ServerConfig plainSuite :=
  ⟨fill 32 7,(fill 32 7).val,[],windowMs,skewMs⟩

def plainHello (b r : UInt8) (srcIp : Arr 16) (ts : UInt64) :
    Except Error (Frame × ClientEstablished) :=
  clientZeroRtt plainSuite (plainClient b) (fill 32 7).val srcIp ts (ascii "hi") (fill 32 r)
    (fill 32 r)

theorem handshake_agrees_plain :
    ∃ frame client received server strike', plainHello 1 3 (fill 16 9) 1000 = .ok (frame,client) ∧
      deliver frame = .ok received ∧
      serverOnFirst plainSuite (plainServer 2000 1000) received (fill 16 9) 2500
        (StrikeCache.new 2000) =
          (.ok (.zeroRtt (.serverAck client.expectedEkHash.val) server),strike') ∧
      Agreed plainSuite client server (ascii "hi") := by
  obtain ⟨⟨frame,client,hsent,hrecv⟩,-⟩ := handshake_agrees plainSuite plainSuite_kem plainSuite_sig
    plainSuite_aead plainSuite_len (plainClient 1) rfl (plainServer 2000 1000) rfl (fill 32 3)
    (fill 32 3) (ascii "hi") (fill 16 9) 1000 2500 (by decide) (by decide) (StrikeCache.new 2000)
  have hlen : (plainHello 1 3 (fill 16 9) 1000).toOption.all
      (fun p => decide (p.1.encode.length ≤ maxFrame)) = true := by decide +kernel
  have hfits : frame.encode.length ≤ maxFrame := by
    change plainHello 1 3 (fill 16 9) 1000 = .ok (frame,client) at hsent
    simpa [hsent,Except.toOption] using hlen
  obtain ⟨received,server,strike',hwire,hs,hagreed⟩ := hrecv hfits (by
    rintro f - ⟨seen,hseen,-⟩
    simp [StrikeCache.new] at hseen)
  exact ⟨frame,client,received,server,strike',hsent,hwire,hs,hagreed⟩

end OrtTunnel.Core
