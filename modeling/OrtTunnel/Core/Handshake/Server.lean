import OrtTunnel.Core.ConnMeta
import OrtTunnel.Core.Record
import OrtTunnel.Core.Replay
import OrtTunnel.Proto.Messages

namespace OrtTunnel.Core
open BigEndian Proto

structure ServerConfig (S : CipherSuite) where
  kemSecret : S.KemSecret
  serverPk : Bytes
  certificate : Bytes
  windowMs : UInt64
  skewMs : UInt64

structure ServerEstablished where
  record : RecordLayer
  earlyData : Bytes
  deriving DecidableEq

inductive ServerStep where
  | zeroRtt (ack : Frame) (established : ServerEstablished)
  | oneRtt (hello : Frame)
  deriving DecidableEq

structure Flight where
  clientPk : Bytes
  payload : KemPayload
  deriving DecidableEq

def flightOf : Frame → Option Flight
  | .clientHelloZeroRtt _ clientPk payload => some ⟨clientPk,payload⟩
  | .clientData clientPk payload => some ⟨clientPk,payload⟩
  | _ => none

def Flight.tag (S : CipherSuite) (f : Flight) : Arr 32 :=
  replayTag S f.payload.nonce f.payload.encData

def checkSuite (suiteId : UInt16) : Except Error Unit :=
  match SuiteId.fromCode suiteId with
  | some _ => .ok ()
  | none => .error (.unsupportedSuite suiteId)

def connMeta (payload : KemPayload) : ConnMeta := ⟨payload.srcIp,payload.tsMillis,payload.nonce⟩

section Server
variable (S : CipherSuite) (cfg : ServerConfig S)

def serverHello (now : UInt64) : Frame :=
  .serverHello S.id.code cfg.serverPk cfg.certificate now

def processPayload (clientPk : Bytes) (payload : KemPayload) (peerIp : Arr 16) (now : UInt64)
    (strike : StrikeCache) : Except Error ServerEstablished × StrikeCache :=
  if payload.srcIp ≠ peerIp then (.error .sourceIpMismatch,strike) else
  match checkWindow now payload.tsMillis cfg.windowMs cfg.skewMs with
  | .error e => (.error e,strike)
  | .ok _ =>
  match verifyClientBinding S clientPk (connMeta payload) payload.ciphertext payload.encData
    payload.clientSig with
  | .error e => (.error e,strike)
  | .ok _ =>
  match strike.checkAndInsert (replayTag S payload.nonce payload.encData) now with
  | (.error e,strike) => (.error e,strike)
  | (.ok _,strike) =>
  match S.kemDecapsulate cfg.kemSecret payload.ciphertext with
  | .error e => (.error e,strike)
  | .ok shared =>
    let keys := deriveSessionKeys S shared payload.ciphertext
    let record := RecordLayer.new keys payload.nonce
    match record.open S .clientToServer payload.encData with
    | (.error e,_) => (.error e,strike)
    | (.ok earlyData,record) => (.ok ⟨record,earlyData⟩,strike)

def serverOnFirst (frame : Frame) (peerIp : Arr 16) (now : UInt64) (strike : StrikeCache) :
    Except Error ServerStep × StrikeCache :=
  match frame with
  | .clientHelloOneRtt suiteId _ =>
    match checkSuite suiteId with
    | .error e => (.error e,strike)
    | .ok _ => (.ok (.oneRtt (serverHello S cfg now)),strike)
  | .clientHelloZeroRtt suiteId clientPk payload =>
    match checkSuite suiteId with
    | .error e => (.error e,strike)
    | .ok _ =>
      match processPayload S cfg clientPk payload peerIp now strike with
      | (.error e,strike) => (.error e,strike)
      | (.ok established,strike) =>
        (.ok (.zeroRtt (.serverAck (established.record.encKeyHash S).val) established),strike)
  | _ => (.error (.unexpectedMessage "server_on_first"),strike)

def serverOnClientData (frame : Frame) (peerIp : Arr 16) (now : UInt64) (strike : StrikeCache) :
    Except Error ServerEstablished × StrikeCache :=
  match frame with
  | .clientData clientPk payload => processPayload S cfg clientPk payload peerIp now strike
  | _ => (.error (.unexpectedMessage "server_on_client_data"),strike)

-- The checks before the strike cache, and what follows it: neither reads the cache.
def precheck (clientPk : Bytes) (payload : KemPayload) (peerIp : Arr 16) (now : UInt64) :
    Except Error Unit :=
  if payload.srcIp ≠ peerIp then .error .sourceIpMismatch else
  match checkWindow now payload.tsMillis cfg.windowMs cfg.skewMs with
  | .error e => .error e
  | .ok _ => verifyClientBinding S clientPk (connMeta payload) payload.ciphertext payload.encData
      payload.clientSig

def establish (payload : KemPayload) : Except Error ServerEstablished :=
  match S.kemDecapsulate cfg.kemSecret payload.ciphertext with
  | .error e => .error e
  | .ok shared =>
    match (RecordLayer.new (deriveSessionKeys S shared payload.ciphertext) payload.nonce).open S
      .clientToServer payload.encData with
    | (.error e,_) => .error e
    | (.ok earlyData,record) => .ok ⟨record,earlyData⟩

theorem processPayload_eq (clientPk : Bytes) (payload : KemPayload) (peerIp : Arr 16)
    (now : UInt64) (strike : StrikeCache) :
    processPayload S cfg clientPk payload peerIp now strike =
      match precheck S cfg clientPk payload peerIp now with
      | .error e => (.error e,strike)
      | .ok _ =>
        match strike.checkAndInsert (replayTag S payload.nonce payload.encData) now with
        | (.error e,strike) => (.error e,strike)
        | (.ok _,strike) => (establish S cfg payload,strike) := by
  unfold processPayload precheck establish
  by_cases hip : payload.srcIp ≠ peerIp
  · simp [hip]
  · simp only [if_neg hip]
    cases checkWindow now payload.tsMillis cfg.windowMs cfg.skewMs with
    | error e => rfl
    | ok _ =>
      cases verifyClientBinding S clientPk (connMeta payload) payload.ciphertext payload.encData
        payload.clientSig with
      | error e => rfl
      | ok _ =>
        rcases strike.checkAndInsert (replayTag S payload.nonce payload.encData) now with ⟨_ | _,c⟩
        · rfl
        · simp only
          cases S.kemDecapsulate cfg.kemSecret payload.ciphertext with
          | error e => rfl
          | ok shared =>
            simp only
            rcases (RecordLayer.new (deriveSessionKeys S shared payload.ciphertext)
              payload.nonce).open S .clientToServer payload.encData with ⟨_ | _,r⟩ <;> rfl

theorem precheck_ok_iff (clientPk : Bytes) (payload : KemPayload) (peerIp : Arr 16) (now : UInt64) :
    precheck S cfg clientPk payload peerIp now = .ok () ↔ payload.srcIp = peerIp ∧
      checkWindow now payload.tsMillis cfg.windowMs cfg.skewMs = .ok () ∧
      verifyClientBinding S clientPk (connMeta payload) payload.ciphertext payload.encData
        payload.clientSig = .ok () := by
  unfold precheck
  by_cases hip : payload.srcIp = peerIp
  · cases hw : checkWindow now payload.tsMillis cfg.windowMs cfg.skewMs <;> simp [hip]
  · simp [hip]

theorem processPayload_ok {clientPk : Bytes} {payload : KemPayload} {peerIp : Arr 16}
    {now : UInt64} {strike strike' : StrikeCache} {est : ServerEstablished}
    (h : processPayload S cfg clientPk payload peerIp now strike = (.ok est,strike')) :
    precheck S cfg clientPk payload peerIp now = .ok () ∧
      strike.checkAndInsert (replayTag S payload.nonce payload.encData) now = (.ok (),strike') ∧
      establish S cfg payload = .ok est := by
  rw [processPayload_eq] at h
  cases ha : precheck S cfg clientPk payload peerIp now with
  | error e => simp [ha] at h
  | ok _ =>
    rcases hc : strike.checkAndInsert (replayTag S payload.nonce payload.encData) now with ⟨_ | _,c⟩
    · simp [ha,hc] at h
    · simp only [ha,hc,Prod.mk.injEq] at h
      exact ⟨rfl,by rw [h.2],h.1⟩

theorem processPayload_of_checks {clientPk : Bytes} {payload : KemPayload} {peerIp : Arr 16}
    {now : UInt64} {strike : StrikeCache} {est : ServerEstablished}
    (hcheck : precheck S cfg clientPk payload peerIp now = .ok ())
    (hfresh : ¬ strike.LiveEntry (replayTag S payload.nonce payload.encData) now)
    (hest : establish S cfg payload = .ok est) :
    processPayload S cfg clientPk payload peerIp now strike =
      (.ok est,(strike.checkAndInsert (replayTag S payload.nonce payload.encData) now).2) := by
  rw [processPayload_eq,hcheck]
  simp only [StrikeCache.checkAndInsert_fresh hfresh,hest]

theorem establish_ok {payload : KemPayload} {est : ServerEstablished}
    (h : establish S cfg payload = .ok est) :
    ∃ shared, S.kemDecapsulate cfg.kemSecret payload.ciphertext = .ok shared ∧
      (RecordLayer.new (deriveSessionKeys S shared payload.ciphertext) payload.nonce).open S
        .clientToServer payload.encData = (.ok est.earlyData,est.record) := by
  unfold establish at h
  cases hd : S.kemDecapsulate cfg.kemSecret payload.ciphertext with
  | error e => simp [hd] at h
  | ok shared =>
    rcases ho : (RecordLayer.new (deriveSessionKeys S shared payload.ciphertext)
      payload.nonce).open S .clientToServer payload.encData with ⟨_ | _,r⟩
    · simp [hd,ho] at h
    · simp only [hd,ho,Except.ok.injEq] at h
      subst h
      exact ⟨shared,rfl,ho⟩

theorem serverOnFirst_reply {frame : Frame} {peerIp : Arr 16} {now : UInt64} {strike : StrikeCache}
    {step : ServerStep} (h : (serverOnFirst S cfg frame peerIp now strike).1 = .ok step) :
    (∃ est : ServerEstablished, step = .zeroRtt (.serverAck (est.record.encKeyHash S).val) est) ∨
      step = .oneRtt (serverHello S cfg now) := by
  unfold serverOnFirst at h
  split at h
  · split at h
    · cases h
    · exact Or.inr (Except.ok.inj h).symm
  · split at h
    · cases h
    split at h
    · cases h
    · rename_i est _ _
      exact Or.inl ⟨est,(Except.ok.inj h).symm⟩
  · cases h

end Server

end OrtTunnel.Core
