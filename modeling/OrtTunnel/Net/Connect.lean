import OrtTunnel.Net.Delivery
import OrtTunnel.Net.UpTask

namespace OrtTunnel.Net
open BigEndian Proto OrtTunnel.Core

section Sides
variable (S : CipherSuite)

-- One side of a connection whose plain socket yields `chunks` and then ends: all it writes to the
-- tunnel, its handshake included, and what becomes of its `down` task.
def forward (conn : OrtConn) (expectAck : Option (Arr 64)) (earlyData : Bytes)
    (chunks : List Bytes) : Bytes × DownRun :=
  (conn.outgoing ++ upTask S conn.role.sendDir conn.record chunks,
    (downTask S conn.role.recvDir conn.record expectAck conn.incoming).writes earlyData)

def clientTask (X : X509) (ccfg : ClientConfig S) (verifier : ServerVerifier) (net : ClientNet)
    (cached : Option Bytes) (force1rtt : Bool) (earlyData : Bytes) (chunks : List Bytes) :
    Except OrtError (Bytes × DownRun) :=
  match clientOpen S X ccfg verifier net cached force1rtt earlyData with
  | .error e => .error e
  | .ok outcome => .ok (forward S outcome.conn outcome.expectAck [] chunks)

def serverTask (scfg : ServerConfig S) (net : ServerNet) (strike : StrikeCache)
    (chunks : List Bytes) : Except OrtError (Bytes × DownRun) :=
  match (serverAccept S scfg net strike).1 with
  | .error e => .error e
  | .ok out => .ok (forward S out.conn none out.earlyData chunks)

end Sides

structure Connection (S : CipherSuite) (X : X509) where
  ccfg : ClientConfig S
  scfg : ServerConfig S
  verifier : ServerVerifier
  cnet : ClientNet
  snet : ServerNet
  cached : Option Bytes
  force1rtt : Bool
  earlyData : Bytes
  strike : StrikeCache
  appChunks : List Bytes
  targetChunks : List Bytes

namespace Connection
variable {S : CipherSuite} {X : X509} (l : Connection S X)

def zeroRtt : Bool := l.cached.isSome && !l.force1rtt

def checkedAt : UInt64 := if l.zeroRtt then l.snet.nowFirst else l.snet.nowSecond

def checkedWith : StrikeCache := if l.zeroRtt then l.strike else l.snet.between l.strike

def build : Except Error (KemPayload × ClientEstablished) :=
  buildPayload S l.ccfg l.scfg.serverPk l.cnet.srcIp l.cnet.now l.earlyData l.cnet.r l.cnet.nonce

structure Compatible : Prop where
  clientKey : l.ccfg.clientPk = S.sigPublic l.ccfg.sigSecret
  serverKey : l.scfg.serverPk = S.kemPublic l.scfg.kemSecret
  certificate : l.zeroRtt = false → l.scfg.certificate.length ≤ 1047375
  early : l.earlyData.length ≤ if l.zeroRtt then 1042142 else 1042144
  writes : l.cnet.wroteFirst = .ok () ∧ l.cnet.wroteSecond = .ok () ∧ l.snet.wrote = .ok ()
  address : l.snet.peerIp = l.cnet.srcIp
  pinned : ∀ pin ∈ l.cached, pin = l.scfg.serverPk
  verified : l.zeroRtt = false →
    l.verifier.verify X l.cnet.checkedAt l.scfg.serverPk l.scfg.certificate = .ok ()
  notAhead : l.cnet.now.toNat ≤ l.checkedAt.toNat + l.scfg.skewMs.toNat
  notLate : l.checkedAt.toNat ≤ l.cnet.now.toNat + l.scfg.windowMs.toNat
  fresh : ∀ payload est, l.build = .ok (payload,est) →
    ¬ l.checkedWith.LiveEntry (replayTag S payload.nonce payload.encData) l.checkedAt
  appSizes : ∀ c ∈ l.appChunks, c.length ≤ chunkSize
  targetSizes : ∀ c ∈ l.targetChunks, c.length ≤ chunkSize

def clientOn (incoming : Bytes) : Except OrtError (Bytes × DownRun) :=
  clientTask S X l.ccfg l.verifier { l.cnet with incoming := incoming } l.cached l.force1rtt
    l.earlyData l.appChunks

def serverNet (incoming : Bytes) : ServerNet := { l.snet with incoming := incoming }

def serverOn (incoming : Bytes) : Except OrtError (Bytes × DownRun) :=
  serverTask S l.scfg (l.serverNet incoming) l.strike l.targetChunks

-- Each side reads what the other one writes.
structure Wired (up down : Bytes) (client server : DownRun) : Prop where
  client : l.clientOn down = .ok (up,client)
  server : l.serverOn up = .ok (down,server)

end Connection

theorem readHandshake_received {f : Frame} {rest : Bytes} (h : Received f rest) :
    readHandshake (encodeFramed f.encode ++ rest) = .ok (f,rest) := by
  simp only [readHandshake,h.1,h.2]

theorem readServerHello_received {S : CipherSuite} {scfg : ServerConfig S} {now : UInt64}
    {rest : Bytes} (h : Received (serverHello S scfg now) rest) :
    readServerHello (encodeFramed (serverHello S scfg now).encode ++ rest) =
      .ok (scfg.serverPk,scfg.certificate,rest) := by
  simp only [readServerHello,h.1,h.2]
  rfl

theorem serverOnFirst_hello {S : CipherSuite} (ccfg : ClientConfig S) (scfg : ServerConfig S)
    (peerIp : Arr 16) (now : UInt64) (strike : StrikeCache) :
    serverOnFirst S scfg (clientOneRttHello S ccfg) peerIp now strike =
      (.ok (.oneRtt (serverHello S scfg now)),strike) := by
  simp [clientOneRttHello,serverOnFirst,checkSuite]

namespace Connection
variable {S : CipherSuite} {X : X509} {l : Connection S X} {payload : KemPayload}
variable {est : ClientEstablished}

theorem serverAccept_hello (hkey : l.ccfg.clientPk = S.sigPublic l.ccfg.sigSecret)
    (hwrote : l.snet.wrote = .ok ()) (hl : S.LenLaws) (hv : S.V1Lengths) {up stream : Bytes}
    (hup : up = encodeFramed (clientOneRttHello S l.ccfg).encode ++ stream) :
    serverAccept S l.scfg (l.serverNet up) l.strike = acceptClientData S l.scfg (l.serverNet up)
      (serverHello S l.scfg l.snet.nowFirst) stream (l.snet.between l.strike) := by
  have hlen : l.ccfg.clientPk.length = S.sigVkLen := by rw [hkey,hl.verifyKey]
  have hread : readHandshake (encodeFramed (clientOneRttHello S l.ccfg).encode ++ stream) = _ :=
    readHandshake_received (oneRttHello_received hv hlen)
  simp only [serverAccept,serverNet,hup,hread,serverOnFirst_hello,hwrote]

theorem Compatible.established (h : l.Compatible) (hk : S.KemLaws) (hsig : S.SigLaws)
    (ha : S.AeadLaws) (hb : l.build = .ok (payload,est)) :
    ∃ strike, processPayload S l.scfg l.ccfg.clientPk payload l.snet.peerIp l.checkedAt
      l.checkedWith = (.ok ⟨est.record,l.earlyData⟩,strike) := by
  have hfresh := h.fresh payload est hb
  rw [build,h.serverKey] at hb
  have hcheck := precheck_buildPayload hsig h.clientKey hb h.notAhead h.notLate
  rw [h.address]
  exact ⟨_,processPayload_of_checks S l.scfg hcheck hfresh (establish_buildPayload hk ha hb)⟩

section ZeroRtt
variable (hmode : l.zeroRtt = true)
include hmode

theorem zeroRtt_mode (h : l.Compatible) : l.cached = some l.scfg.serverPk ∧ l.force1rtt = false := by
  rw [zeroRtt,Bool.and_eq_true,Bool.not_eq_true',Option.isSome_iff_exists] at hmode
  obtain ⟨⟨pin,hpin⟩,hforce⟩ := hmode
  rw [hpin,h.pinned pin hpin]
  exact ⟨rfl,hforce⟩

theorem early_zeroRtt (h : l.Compatible) : l.earlyData.length ≤ 1042142 := by
  have hearly := h.early
  rwa [if_pos hmode] at hearly

theorem clientOn_zeroRtt (h : l.Compatible) (hb : l.build = .ok (payload,est)) (incoming : Bytes) :
    l.clientOn incoming =
      .ok (encodeFramed (Frame.clientHelloZeroRtt S.id.code l.ccfg.clientPk payload).encode ++
          upTask S .clientToServer est.record l.appChunks,
        downTask S .serverToClient est.record (expectedAck S est.record true .serverToClient)
          incoming) := by
  obtain ⟨hcached,hforce⟩ := zeroRtt_mode hmode h
  rw [build] at hb
  simp only [clientOn,clientTask,hcached,hforce,clientOpen,openZeroRtt,clientZeroRtt,hb,h.writes.1,
    forward,Role.sendDir,Role.recvDir,Direction.flip,DownRun.writes_nil,expectedAck,if_true,
    expectedEkHash_buildPayload hb]

theorem serverOn_zeroRtt (h : l.Compatible) (hk : S.KemLaws) (hsig : S.SigLaws) (ha : S.AeadLaws)
    (hl : S.LenLaws) (hv : S.V1Lengths) (hb : l.build = .ok (payload,est)) (stream : Bytes) :
    l.serverOn (encodeFramed (Frame.clientHelloZeroRtt S.id.code l.ccfg.clientPk payload).encode ++
        stream) =
      .ok (ackBytes S est.record true .serverToClient ++
          upTask S .serverToClient est.record l.targetChunks,
        (downTask S .clientToServer est.record none stream).writes l.earlyData) := by
  obtain ⟨strike,hp⟩ := h.established hk hsig ha hb
  simp only [checkedAt,checkedWith,hmode,if_true] at hp
  have hkey : l.ccfg.clientPk.length = S.sigVkLen := by rw [h.clientKey,hl.verifyKey]
  have hread : readHandshake (encodeFramed
      (Frame.clientHelloZeroRtt S.id.code l.ccfg.clientPk payload).encode ++ stream) = .ok (_,stream) :=
    readHandshake_received ((zeroRtt_received ha hl hv hkey hb).mpr (early_zeroRtt hmode h))
  simp only [serverOn,serverTask,serverNet,serverAccept,hread,serverOnFirst,checkSuite,SuiteId.fromCode_code,
    hp,h.writes.2.2,forward,Role.sendDir,Role.recvDir,Direction.flip,ackBytes,expectedAck,if_true]

end ZeroRtt

section OneRtt
variable (hmode : l.zeroRtt = false)
include hmode

theorem clientOpen_oneRtt (net : ClientNet) :
    clientOpen S X l.ccfg l.verifier net l.cached l.force1rtt l.earlyData =
      openOneRtt S X l.ccfg l.verifier net l.cached l.earlyData := by
  rw [clientOpen]
  intro spk hcached hforce
  simp [zeroRtt,hcached,hforce] at hmode

theorem clientOn_oneRtt (h : l.Compatible) (hl : S.LenLaws) (hv : S.V1Lengths)
    (hb : l.build = .ok (payload,est)) (now : UInt64) (stream : Bytes) :
    l.clientOn (encodeFramed (serverHello S l.scfg now).encode ++ stream) =
      .ok (encodeFramed (clientOneRttHello S l.ccfg).encode ++
          (encodeFramed (Frame.clientData l.ccfg.clientPk payload).encode ++
            upTask S .clientToServer est.record l.appChunks),
        downTask S .serverToClient est.record none stream) := by
  have hkey : l.scfg.serverPk.length = S.kemEkLen := by rw [h.serverKey,hl.encapsKey]
  have hread : readServerHello (encodeFramed (serverHello S l.scfg now).encode ++ stream) = _ :=
    readServerHello_received ((serverHello_received hl hv hkey).mpr (h.certificate hmode))
  have hpin : (l.cached.any fun pin => pin != l.scfg.serverPk) = false := by
    rw [Option.any_eq_false]
    intro pin hmem
    simpa using h.pinned pin hmem
  rw [build] at hb
  simp only [clientOn,clientTask,clientOpen_oneRtt hmode,openOneRtt,h.writes.1,hread,
    h.verified hmode,hpin,Bool.false_eq_true,if_false,clientOneRttFinish,hb,h.writes.2.1,forward,
    Role.sendDir,Role.recvDir,Direction.flip,DownRun.writes_nil,List.append_assoc]

theorem serverOn_oneRtt (h : l.Compatible) (hk : S.KemLaws) (hsig : S.SigLaws) (ha : S.AeadLaws)
    (hl : S.LenLaws) (hv : S.V1Lengths) (hb : l.build = .ok (payload,est)) (stream : Bytes) :
    l.serverOn (encodeFramed (clientOneRttHello S l.ccfg).encode ++
        (encodeFramed (Frame.clientData l.ccfg.clientPk payload).encode ++ stream)) =
      .ok (encodeFramed (serverHello S l.scfg l.snet.nowFirst).encode ++
          upTask S .serverToClient est.record l.targetChunks,
        (downTask S .clientToServer est.record none stream).writes l.earlyData) := by
  obtain ⟨strike,hp⟩ := h.established hk hsig ha hb
  simp only [checkedAt,checkedWith,hmode,Bool.false_eq_true,if_false] at hp
  have hkey : l.ccfg.clientPk.length = S.sigVkLen := by rw [h.clientKey,hl.verifyKey]
  have hshort : l.earlyData.length ≤ 1042144 := by
    have hearly := h.early
    rwa [hmode] at hearly
  have hread : readHandshake (encodeFramed
      (Frame.clientData l.ccfg.clientPk payload).encode ++ stream) = .ok (_,stream) :=
    readHandshake_received ((clientData_received ha hl hv hkey hb).mpr hshort)
  rw [serverOn,serverTask,serverAccept_hello h.clientKey h.writes.2.2 hl hv rfl]
  simp only [acceptClientData,serverNet,hread,serverOnClientData,hp,forward,Role.sendDir,Role.recvDir,
    Direction.flip]

theorem wired_oneRtt (hkey : l.ccfg.clientPk = S.sigPublic l.ccfg.sigSecret)
    (hwrote : l.snet.wrote = .ok ()) (hl : S.LenLaws) (hv : S.V1Lengths) {up down : Bytes}
    {client server : DownRun} (hw : l.Wired up down client server) :
    ∃ stream, down = encodeFramed (serverHello S l.scfg l.snet.nowFirst).encode ++ stream := by
  have hc := hw.client
  rw [clientOn,clientTask,clientOpen_oneRtt hmode] at hc
  split at hc
  · cases hc
  rename_i o ho
  obtain ⟨serverPk,certificate,rest,frame,est,-,-,-,-,-,-,rfl⟩ := openOneRtt_ok ho
  simp only [forward,Except.ok.injEq,Prod.mk.injEq,List.append_assoc] at hc
  have hs := hw.server
  rw [serverOn,serverTask,serverAccept_hello hkey hwrote hl hv hc.1.symm] at hs
  split at hs
  · cases hs
  rename_i out hout
  have hsent := acceptClientData_outgoing hout
  simp only [forward,Except.ok.injEq,Prod.mk.injEq,hsent] at hs
  exact ⟨_,hs.1.symm⟩

end OneRtt

theorem pump_all (ha : S.AeadLaws) (d : Direction) (record : RecordLayer) {chunks : List Bytes}
    (hsize : ∀ c ∈ chunks, c.length ≤ chunkSize) :
    pump S d record (upTask S d record chunks) = ⟨.ok (),chunks.flatten,true⟩ := by
  have h : pump S d record (upTask S d record chunks ++ []) = _ := pump_upTask ha record hsize []
  rwa [List.append_nil] at h

theorem wired_zeroRtt_iff (hmode : l.zeroRtt = true) (h : l.Compatible) (hk : S.KemLaws)
    (hsig : S.SigLaws) (ha : S.AeadLaws) (hl : S.LenLaws) (hv : S.V1Lengths)
    (hb : l.build = .ok (payload,est)) (up down : Bytes) (client server : DownRun) :
    l.Wired up down client server ↔
      up = encodeFramed (Frame.clientHelloZeroRtt S.id.code l.ccfg.clientPk payload).encode ++
        upTask S .clientToServer est.record l.appChunks ∧
      down = ackBytes S est.record true .serverToClient ++
        upTask S .serverToClient est.record l.targetChunks ∧
      client = ⟨.ok (),l.targetChunks.flatten,true⟩ ∧
      server = ⟨.ok (),l.earlyData ++ l.appChunks.flatten,true⟩ := by
  have hc := clientOn_zeroRtt hmode h hb
  have hs := serverOn_zeroRtt hmode h hk hsig ha hl hv hb
  have hdown := downTask_ackBytes (S := S) est.record true .serverToClient
  constructor
  · rintro ⟨hclient,hserver⟩
    rw [hc,Except.ok.injEq,Prod.mk.injEq] at hclient
    obtain ⟨rfl,rfl⟩ := hclient
    rw [hs,Except.ok.injEq,Prod.mk.injEq] at hserver
    obtain ⟨rfl,rfl⟩ := hserver
    rw [hdown,pump_all ha .serverToClient _ h.targetSizes,downTask,
      pump_all ha .clientToServer _ h.appSizes]
    exact ⟨rfl,rfl,rfl,rfl⟩
  · rintro ⟨rfl,rfl,rfl,rfl⟩
    refine ⟨?_,?_⟩
    · rw [hc,hdown,pump_all ha .serverToClient _ h.targetSizes]
    · rw [hs,downTask,pump_all ha .clientToServer _ h.appSizes]
      rfl

theorem wired_oneRtt_iff (hmode : l.zeroRtt = false) (h : l.Compatible) (hk : S.KemLaws)
    (hsig : S.SigLaws) (ha : S.AeadLaws) (hl : S.LenLaws) (hv : S.V1Lengths)
    (hb : l.build = .ok (payload,est)) (up down : Bytes) (client server : DownRun) :
    l.Wired up down client server ↔
      up = encodeFramed (clientOneRttHello S l.ccfg).encode ++
        (encodeFramed (Frame.clientData l.ccfg.clientPk payload).encode ++
          upTask S .clientToServer est.record l.appChunks) ∧
      down = encodeFramed (serverHello S l.scfg l.snet.nowFirst).encode ++
        upTask S .serverToClient est.record l.targetChunks ∧
      client = ⟨.ok (),l.targetChunks.flatten,true⟩ ∧
      server = ⟨.ok (),l.earlyData ++ l.appChunks.flatten,true⟩ := by
  have hc := clientOn_oneRtt hmode h hl hv hb l.snet.nowFirst
  have hs := serverOn_oneRtt hmode h hk hsig ha hl hv hb
  constructor
  · intro hw
    obtain ⟨stream,hdown⟩ := wired_oneRtt hmode h.clientKey h.writes.2.2 hl hv hw
    obtain ⟨hclient,hserver⟩ := hw
    rw [hdown,hc,Except.ok.injEq,Prod.mk.injEq] at hclient
    obtain ⟨rfl,rfl⟩ := hclient
    rw [hs,Except.ok.injEq,Prod.mk.injEq] at hserver
    obtain ⟨rfl,rfl⟩ := hserver
    obtain rfl := List.append_cancel_left hdown
    rw [downTask,pump_all ha .serverToClient _ h.targetSizes,downTask,
      pump_all ha .clientToServer _ h.appSizes]
    exact ⟨rfl,rfl,rfl,rfl⟩
  · rintro ⟨rfl,rfl,rfl,rfl⟩
    refine ⟨?_,?_⟩
    · rw [hc,downTask,pump_all ha .serverToClient _ h.targetSizes]
    · rw [hs,downTask,pump_all ha .clientToServer _ h.appSizes]
      rfl

end Connection

theorem Connection.wired_iff {S : CipherSuite} (hk : S.KemLaws) (hsig : S.SigLaws) (ha : S.AeadLaws)
    (hl : S.LenLaws) (hv : S.V1Lengths) {X : X509} {l : Connection S X} (h : l.Compatible) :
    ∃ up down, ∀ up' down' client server, l.Wired up' down' client server ↔
      up' = up ∧ down' = down ∧ client = ⟨.ok (),l.targetChunks.flatten,true⟩ ∧
        server = ⟨.ok (),l.earlyData ++ l.appChunks.flatten,true⟩ := by
  obtain ⟨payload,est,hb⟩ : ∃ payload est, l.build = .ok (payload,est) := by
    rw [Connection.build,h.serverKey]
    exact buildPayload_total hk l.scfg.kemSecret
  cases hmode : l.zeroRtt with
  | true => exact ⟨_,_,Connection.wired_zeroRtt_iff hmode h hk hsig ha hl hv hb⟩
  | false => exact ⟨_,_,Connection.wired_oneRtt_iff hmode h hk hsig ha hl hv hb⟩

theorem tunnel_end_to_end (S : CipherSuite) (hk : S.KemLaws) (hsig : S.SigLaws) (ha : S.AeadLaws)
    (hl : S.LenLaws) (hv : S.V1Lengths) (X : X509) (l : Connection S X) (h : l.Compatible) :
    ∃ up down, ∀ up' down' client server, l.Wired up' down' client server ↔
      up' = up ∧ down' = down ∧ client = ⟨.ok (),l.targetChunks.flatten,true⟩ ∧
        server = ⟨.ok (),l.earlyData ++ l.appChunks.flatten,true⟩ :=
  Connection.wired_iff hk hsig ha hl hv h

def paddedConnection (force1rtt : Bool) : Connection paddedSuite noCerts where
  ccfg := paddedClient
  scfg := paddedServer
  verifier := .trustOnFirstUse
  cnet := paddedNet
  snet := ⟨[],.ok (),fill 16 9,1500,1600,fun strike => strike⟩
  cached := some paddedServer.serverPk
  force1rtt := force1rtt
  earlyData := ascii "hi"
  strike := StrikeCache.new 2000
  appChunks := [ascii "a",ascii "b"]
  targetChunks := [ascii "c"]

theorem paddedConnection_compatible (force1rtt : Bool) : (paddedConnection force1rtt).Compatible where
  clientKey := rfl
  serverKey := rfl
  certificate := by decide +revert
  early := by decide +revert
  writes := ⟨rfl,rfl,rfl⟩
  address := rfl
  pinned := fun pin hpin => (Option.mem_some_iff.mp hpin).symm
  verified := fun _ => rfl
  notAhead := by decide +revert
  notLate := by decide +revert
  fresh := by
    rintro payload est - ⟨seen,hseen,-⟩
    cases force1rtt <;>
      simp [Connection.checkedWith,Connection.zeroRtt,paddedConnection,StrikeCache.new] at hseen
  appSizes := by decide +revert
  targetSizes := by decide +revert

theorem tunnel_end_to_end_padded :
    (∃ up down, (paddedConnection false).Wired up down ⟨.ok (),ascii "c",true⟩
      ⟨.ok (),ascii "hiab",true⟩) ∧
    ∃ up down, (paddedConnection true).Wired up down ⟨.ok (),ascii "c",true⟩
      ⟨.ok (),ascii "hiab",true⟩ := by
  have hall := fun force1rtt => tunnel_end_to_end paddedSuite paddedSuite_kem paddedSuite_sig
    paddedSuite_aead paddedSuite_len paddedSuite_lengths noCerts (paddedConnection force1rtt)
    (paddedConnection_compatible force1rtt)
  obtain ⟨up,down,hzero⟩ := hall false
  obtain ⟨up',down',hone⟩ := hall true
  exact ⟨⟨up,down,(hzero _ _ _ _).mpr ⟨rfl,rfl,rfl,rfl⟩⟩,up',down',
    (hone _ _ _ _).mpr ⟨rfl,rfl,rfl,rfl⟩⟩

end OrtTunnel.Net
