import OrtTunnel.Core.Handshake.Client
import OrtTunnel.Core.Handshake.Server
import OrtTunnel.Net.Transport

namespace OrtTunnel.Net
open BigEndian Proto OrtTunnel.Core

inductive OrtError where
  | io (e : IoError)
  | proto (e : Fault)
  | core (e : Error)
  | unexpected (what : String)
  | keyConfirmation
  | pinMismatch
  | cert (what : String)
  | earlyClose
  deriving DecidableEq, Repr

inductive Role where
  | client
  | server
  deriving DecidableEq, Repr

namespace Role

def sendDir : Role → Direction
  | .client => .clientToServer
  | .server => .serverToClient

def recvDir (r : Role) : Direction := r.sendDir.flip

end Role

-- What `x509_parser` offers to the verifier.
structure X509 where
  Cert : Type
  Key : Type
  parse : Bytes → Except String Cert
  isValid : Cert → ℕ → Bool
  publicKey : Cert → Key
  verifySignature : Cert → Option Key → Except String Unit
  extensions : Cert → List (String × Bytes)

def serverpkOidStr : String := "1.3.6.1.4.1.58271.1.1"

inductive ServerVerifier where
  | trustOnFirstUse
  | strict (ca : Option Bytes)
  deriving DecidableEq

section Verify
variable (X : X509)

def extractBoundServerPk (cert : X.Cert) : Option Bytes :=
  ((X.extensions cert).find? fun e => e.1 == serverpkOidStr).map Prod.snd

def checkSignature (cert : X.Cert) : Option Bytes → Except OrtError Unit
  | some caDer =>
    match X.parse caDer with
    | .error e => .error (.cert ("parse CA: " ++ e))
    | .ok caCert =>
      match X.verifySignature cert (some (X.publicKey caCert)) with
      | .error e => .error (.cert ("certificate not signed by CA: " ++ e))
      | .ok _ => .ok ()
  | none =>
    match X.verifySignature cert none with
    | .error e => .error (.cert ("invalid self-signature: " ++ e))
    | .ok _ => .ok ()

def ServerVerifier.verify (v : ServerVerifier) (clock : ℕ) (serverPk certificate : Bytes) :
    Except OrtError Unit :=
  match v with
  | .trustOnFirstUse => .ok ()
  | .strict ca =>
    if certificate.isEmpty then .error (.cert "server presented no certificate") else
    match X.parse certificate with
    | .error e => .error (.cert ("parse certificate: " ++ e))
    | .ok cert =>
      if X.isValid cert clock = false then .error (.cert "certificate expired or not yet valid") else
      match checkSignature X cert ca with
      | .error e => .error e
      | .ok _ =>
        match extractBoundServerPk X cert with
        | none => .error (.cert "certificate has no ServerPK extension")
        | some bound =>
          if bound ≠ serverPk then
            .error (.cert "ServerHello public key does not match certificate binding")
          else .ok ()

end Verify

structure OrtConn where
  incoming : Bytes
  outgoing : Bytes
  record : RecordLayer
  role : Role
  deriving DecidableEq

structure ClientOutcome where
  conn : OrtConn
  expectAck : Option (Arr 64)
  serverPk : Bytes
  deriving DecidableEq

structure ClientNet where
  incoming : Bytes
  wroteFirst : Except IoError Unit
  wroteSecond : Except IoError Unit
  checkedAt : ℕ
  srcIp : Arr 16
  now : UInt64
  r : Arr rLen
  nonce : Arr 32

section Open
variable (S : CipherSuite) (X : X509) (ccfg : ClientConfig S) (verifier : ServerVerifier)

def openZeroRtt (net : ClientNet) (spk earlyData : Bytes) : Except OrtError ClientOutcome :=
  match clientZeroRtt S ccfg spk net.srcIp net.now earlyData net.r net.nonce with
  | .error e => .error (.core e)
  | .ok (frame,est) =>
    match net.wroteFirst with
    | .error e => .error (.io e)
    | .ok _ => .ok ⟨⟨net.incoming,encodeFramed frame.encode,est.record,.client⟩,
        some est.expectedEkHash,spk⟩

def readServerHello (incoming : Bytes) : Except OrtError (Bytes × Bytes × Bytes) :=
  match readFrame incoming with
  | (.error e,_) => .error (.io e)
  | (.ok none,_) => .error .earlyClose
  | (.ok (some body),rest) =>
    match Frame.decode body with
    | .error e => .error (.proto e)
    | .ok (.serverHello _ serverPk certificate _) => .ok (serverPk,certificate,rest)
    | .ok _ => .error (.unexpected "expected ServerHello")

def openOneRtt (net : ClientNet) (cached : Option Bytes) (earlyData : Bytes) :
    Except OrtError ClientOutcome :=
  match net.wroteFirst with
  | .error e => .error (.io e)
  | .ok _ =>
  match readServerHello net.incoming with
  | .error e => .error e
  | .ok (serverPk,certificate,rest) =>
  match verifier.verify X net.checkedAt serverPk certificate with
  | .error e => .error e
  | .ok _ =>
  if cached.any fun pin => pin != serverPk then .error .pinMismatch else
  match clientOneRttFinish S ccfg serverPk net.srcIp net.now earlyData net.r net.nonce with
  | .error e => .error (.core e)
  | .ok (frame,est) =>
  match net.wroteSecond with
  | .error e => .error (.io e)
  | .ok _ => .ok ⟨⟨rest,
      encodeFramed (clientOneRttHello S ccfg).encode ++ encodeFramed frame.encode,est.record,
      .client⟩,none,serverPk⟩

def clientOpen (net : ClientNet) (cached : Option Bytes) (force1rtt : Bool) (earlyData : Bytes) :
    Except OrtError ClientOutcome :=
  match cached,force1rtt with
  | some spk,false => openZeroRtt S ccfg net spk earlyData
  | _,_ => openOneRtt S X ccfg verifier net cached earlyData

variable {S X ccfg verifier}

theorem openZeroRtt_ok {net : ClientNet} {spk earlyData : Bytes} {o : ClientOutcome}
    (h : openZeroRtt S ccfg net spk earlyData = .ok o) :
    ∃ frame est, clientZeroRtt S ccfg spk net.srcIp net.now earlyData net.r net.nonce =
        .ok (frame,est) ∧ net.wroteFirst = .ok () ∧
      o = ⟨⟨net.incoming,encodeFramed frame.encode,est.record,.client⟩,some est.expectedEkHash,
        spk⟩ := by
  unfold openZeroRtt at h
  split at h
  · cases h
  rename_i frame est hsent
  split at h
  · cases h
  rename_i hwrote
  exact ⟨frame,est,hsent,hwrote,(Except.ok.inj h).symm⟩

theorem openOneRtt_ok {net : ClientNet} {cached : Option Bytes} {earlyData : Bytes}
    {o : ClientOutcome} (h : openOneRtt S X ccfg verifier net cached earlyData = .ok o) :
    ∃ serverPk certificate rest frame est, net.wroteFirst = .ok () ∧
      readServerHello net.incoming = .ok (serverPk,certificate,rest) ∧
      verifier.verify X net.checkedAt serverPk certificate = .ok () ∧
      (cached.any fun pin => pin != serverPk) = false ∧
      clientOneRttFinish S ccfg serverPk net.srcIp net.now earlyData net.r net.nonce =
        .ok (frame,est) ∧ net.wroteSecond = .ok () ∧
      o = ⟨⟨rest,encodeFramed (clientOneRttHello S ccfg).encode ++ encodeFramed frame.encode,
        est.record,.client⟩,none,serverPk⟩ := by
  unfold openOneRtt at h
  split at h
  · cases h
  rename_i hfirst
  split at h
  · cases h
  rename_i serverPk certificate rest hread
  split at h
  · cases h
  rename_i hverify
  split at h
  · cases h
  rename_i hpin
  split at h
  · cases h
  rename_i frame est hsent
  split at h
  · cases h
  rename_i hsecond
  exact ⟨serverPk,certificate,rest,frame,est,hfirst,hread,hverify,Bool.eq_false_iff.mpr hpin,hsent,
    hsecond,(Except.ok.inj h).symm⟩

theorem clientOpen_pinned {net : ClientNet} {pin : Bytes} {force1rtt : Bool} {earlyData : Bytes}
    {o : ClientOutcome}
    (h : clientOpen S X ccfg verifier net (some pin) force1rtt earlyData = .ok o) :
    o.serverPk = pin := by
  cases force1rtt with
  | false =>
    obtain ⟨frame,est,-,-,rfl⟩ := openZeroRtt_ok h
    rfl
  | true =>
    obtain ⟨serverPk,certificate,rest,frame,est,-,-,-,hpin,-,-,rfl⟩ := openOneRtt_ok h
    have heq : pin = serverPk := by simpa using hpin
    exact heq.symm

end Open

structure ServerOutcome where
  conn : OrtConn
  earlyData : Bytes
  deriving DecidableEq

structure ServerNet where
  incoming : Bytes
  wrote : Except IoError Unit
  peerIp : Arr 16
  nowFirst : UInt64
  nowSecond : UInt64
  -- What other connections do to the strike cache before the second flight is processed.
  between : StrikeCache → StrikeCache

def readHandshake (incoming : Bytes) : Except OrtError (Frame × Bytes) :=
  match readFrame incoming with
  | (.error e,_) => .error (.io e)
  | (.ok none,_) => .error .earlyClose
  | (.ok (some body),rest) =>
    match Frame.decode body with
    | .error e => .error (.proto e)
    | .ok frame => .ok (frame,rest)

theorem serverAck_fits (k : Arr 64) : (Frame.serverAck k.val).encode.length ≤ maxFrame := by
  simp only [Frame.encode_eq,Frame.fields,List.length_append,List.length_singleton,length_bytes16,
    k.property]
  decide

section Accept
variable (S : CipherSuite) (scfg : ServerConfig S)

def acceptClientData (net : ServerNet) (hello : Frame) (rest : Bytes) (strike : StrikeCache) :
    Except OrtError ServerOutcome × StrikeCache :=
  match readHandshake rest with
  | .error e => (.error e,strike)
  | .ok (frame2,rest) =>
  match serverOnClientData S scfg frame2 net.peerIp net.nowSecond strike with
  | (.error e,strike) => (.error (.core e),strike)
  | (.ok established,strike) =>
    (.ok ⟨⟨rest,encodeFramed hello.encode,established.record,.server⟩,established.earlyData⟩,strike)

def serverAccept (net : ServerNet) (strike : StrikeCache) :
    Except OrtError ServerOutcome × StrikeCache :=
  match readHandshake net.incoming with
  | .error e => (.error e,strike)
  | .ok (frame,rest) =>
  match serverOnFirst S scfg frame net.peerIp net.nowFirst strike with
  | (.error e,strike) => (.error (.core e),strike)
  | (.ok (.zeroRtt ack established),strike) =>
    match net.wrote with
    | .error e => (.error (.io e),strike)
    | .ok _ => (.ok ⟨⟨rest,encodeFramed ack.encode,established.record,.server⟩,
        established.earlyData⟩,strike)
  | (.ok (.oneRtt hello),strike) =>
    match net.wrote with
    | .error e => (.error (.io e),strike)
    | .ok _ => acceptClientData S scfg net hello rest (net.between strike)

end Accept

end OrtTunnel.Net
