import OrtTunnel.Core.ConnMeta
import OrtTunnel.Core.Record
import OrtTunnel.Proto.Messages

namespace OrtTunnel.Core
open BigEndian Proto

structure ClientConfig (S : CipherSuite) where
  sigSecret : S.SigSecret
  clientPk : Bytes

structure ClientEstablished where
  record : RecordLayer
  expectedEkHash : Arr 64

-- `r` and `nonce` stand for the bytes drawn from the operating system, `now` for the clock.
def buildPayload (S : CipherSuite) (cfg : ClientConfig S) (serverPk : Bytes) (srcIp : Arr 16)
    (now : UInt64) (earlyData : Bytes) (r : Arr rLen) (nonce : Arr 32) :
    Except Error (KemPayload × ClientEstablished) :=
  match S.kemEncapsulate serverPk r with
  | .error e => .error e
  | .ok (ciphertext,shared) =>
    let keys := deriveSessionKeys S shared ciphertext
    let record := RecordLayer.new keys nonce
    let expectedEkHash := record.encKeyHash S
    let (encData,record) := record.seal S .clientToServer earlyData
    let cm : ConnMeta := ⟨srcIp,now,nonce⟩
    let clientSig := signClientBinding S cfg.sigSecret cm cfg.clientPk ciphertext encData
    .ok (⟨ciphertext,cm.srcIp,cm.tsMillis,cm.nonce,clientSig,encData⟩,⟨record,expectedEkHash⟩)

def clientZeroRtt (S : CipherSuite) (cfg : ClientConfig S) (serverPk : Bytes) (srcIp : Arr 16)
    (now : UInt64) (earlyData : Bytes) (r : Arr rLen) (nonce : Arr 32) :
    Except Error (Frame × ClientEstablished) :=
  match buildPayload S cfg serverPk srcIp now earlyData r nonce with
  | .error e => .error e
  | .ok (payload,established) =>
    .ok (.clientHelloZeroRtt S.id.code cfg.clientPk payload,established)

def clientOneRttHello (S : CipherSuite) (cfg : ClientConfig S) : Frame :=
  .clientHelloOneRtt S.id.code cfg.clientPk

def clientOneRttFinish (S : CipherSuite) (cfg : ClientConfig S) (serverPk : Bytes) (srcIp : Arr 16)
    (now : UInt64) (earlyData : Bytes) (r : Arr rLen) (nonce : Arr 32) :
    Except Error (Frame × ClientEstablished) :=
  match buildPayload S cfg serverPk srcIp now earlyData r nonce with
  | .error e => .error e
  | .ok (payload,established) => .ok (.clientData cfg.clientPk payload,established)

section Sent
variable {S : CipherSuite} {cfg : ClientConfig S} {serverPk earlyData : Bytes} {srcIp : Arr 16}
variable {now : UInt64} {r : Arr rLen} {nonce : Arr 32} {frame : Frame} {client : ClientEstablished}

theorem clientZeroRtt_ok
    (h : clientZeroRtt S cfg serverPk srcIp now earlyData r nonce = .ok (frame,client)) :
    ∃ payload, buildPayload S cfg serverPk srcIp now earlyData r nonce = .ok (payload,client) ∧
      frame = .clientHelloZeroRtt S.id.code cfg.clientPk payload := by
  unfold clientZeroRtt at h
  cases hb : buildPayload S cfg serverPk srcIp now earlyData r nonce with
  | error e => simp [hb] at h
  | ok built =>
    simp only [hb,Except.ok.injEq,Prod.mk.injEq] at h
    exact ⟨built.1,by rw [← h.2],h.1.symm⟩

theorem clientOneRttFinish_ok
    (h : clientOneRttFinish S cfg serverPk srcIp now earlyData r nonce = .ok (frame,client)) :
    ∃ payload, buildPayload S cfg serverPk srcIp now earlyData r nonce = .ok (payload,client) ∧
      frame = .clientData cfg.clientPk payload := by
  unfold clientOneRttFinish at h
  cases hb : buildPayload S cfg serverPk srcIp now earlyData r nonce with
  | error e => simp [hb] at h
  | ok built =>
    simp only [hb,Except.ok.injEq,Prod.mk.injEq] at h
    exact ⟨built.1,by rw [← h.2],h.1.symm⟩

end Sent

end OrtTunnel.Core
