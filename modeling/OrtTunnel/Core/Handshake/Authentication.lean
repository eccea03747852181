import OrtTunnel.Core.Handshake.Agreement
import OrtTunnel.Core.Handshake.ServerRun

namespace OrtTunnel.Core
open BigEndian Proto

structure Build where
  serverPk : Bytes
  srcIp : Arr 16
  now : UInt64
  earlyData : Bytes
  r : Arr rLen
  nonce : Arr 32

section Client
variable (S : CipherSuite) (ccfg : ClientConfig S)

def Build.run (b : Build) : Except Error (KemPayload × ClientEstablished) :=
  buildPayload S ccfg b.serverPk b.srcIp b.now b.earlyData b.r b.nonce

def sent (builds : List Build) : List KemPayload :=
  builds.filterMap fun b => (b.run S ccfg).toOption.map Prod.fst

def bindingMsg (clientPk : Bytes) (p : KemPayload) : Bytes :=
  clientBindingMsg S (connMeta p) clientPk p.ciphertext p.encData

-- Unforgeability of the client's key, over the flights submitted under it: a submitted signature
-- verifies only on a message that one of the client's own calls signed.
def OnlySigned (builds : List Build) (flights : List Flight) : Prop :=
  ∀ f ∈ flights, f.clientPk = ccfg.clientPk →
    S.sigVerify ccfg.clientPk (bindingMsg S ccfg.clientPk f.payload) f.payload.clientSig = .ok () →
      bindingMsg S ccfg.clientPk f.payload ∈ (sent S ccfg builds).map (bindingMsg S ccfg.clientPk)

instance (builds : List Build) (flights : List Flight) :
    Decidable (OnlySigned S ccfg builds flights) :=
  inferInstanceAs (Decidable (∀ f ∈ flights, _ → _ → _ ∈ _))

def hashed (p : KemPayload) : List Bytes := [p.ciphertext,p.encData]

def HashInjective (ps : List KemPayload) : Prop :=
  ∀ x ∈ ps.flatMap hashed, ∀ y ∈ ps.flatMap hashed, S.hash256 x = S.hash256 y → x = y

structure SameFlight (p q : KemPayload) : Prop where
  srcIp : p.srcIp = q.srcIp
  tsMillis : p.tsMillis = q.tsMillis
  nonce : p.nonce = q.nonce
  ciphertext : p.ciphertext = q.ciphertext
  encData : p.encData = q.encData

variable {S ccfg}

theorem build_of_sent {builds : List Build} {p : KemPayload} (h : p ∈ sent S ccfg builds) :
    ∃ b ∈ builds, ∃ client, b.run S ccfg = .ok (p,client) := by
  obtain ⟨b,hb,hp⟩ := List.mem_filterMap.mp h
  cases hr : b.run S ccfg with
  | error e => simp [hr,Except.toOption] at hp
  | ok out =>
    obtain rfl : out.1 = p := by simpa [hr,Except.toOption] using hp
    exact ⟨b,hb,out.2,hr⟩

theorem bindingMsg_inj {pk pk' : Bytes} {p q : KemPayload} {ps : List KemPayload}
    (hinj : HashInjective S ps) (hp : p ∈ ps) (hq : q ∈ ps)
    (h : bindingMsg S pk p = bindingMsg S pk' q) : SameFlight p q := by
  obtain ⟨hcm,-,hct,hed⟩ := clientBindingMsg_inj h
  obtain ⟨hip,hts,hnonce⟩ := ConnMeta.mk.inj hcm
  refine ⟨hip,hts,hnonce,hinj _ ?_ _ ?_ hct,hinj _ ?_ _ ?_ hed⟩
  · exact List.mem_flatMap.mpr ⟨p,hp,by simp [hashed]⟩
  · exact List.mem_flatMap.mpr ⟨q,hq,by simp [hashed]⟩
  · exact List.mem_flatMap.mpr ⟨p,hp,by simp [hashed]⟩
  · exact List.mem_flatMap.mpr ⟨q,hq,by simp [hashed]⟩

end Client

section Server
variable {S : CipherSuite} {scfg : ServerConfig S} {ccfg : ClientConfig S} {builds : List Build}

theorem establish_congr {p q : KemPayload} (h : SameFlight p q) :
    establish S scfg p = establish S scfg q := by
  rw [establish,establish,h.ciphertext,h.nonce,h.encData]

theorem sameFlight_of_signed {flights : List Flight} (hsig : OnlySigned S ccfg builds flights)
    {f : Flight} (hf : f ∈ flights) (hclient : f.clientPk = ccfg.clientPk)
    (hinj : HashInjective S (f.payload :: sent S ccfg builds))
    (hv : verifyClientBinding S f.clientPk (connMeta f.payload) f.payload.ciphertext
      f.payload.encData f.payload.clientSig = .ok ()) :
    ∃ q ∈ sent S ccfg builds, SameFlight f.payload q := by
  rw [hclient,verifyClientBinding_ok_iff] at hv
  obtain ⟨q,hq,hmsg⟩ := List.mem_map.mp (hsig f hf hclient hv)
  exact ⟨q,hq,bindingMsg_inj hinj (by simp) (by simp [hq]) hmsg.symm⟩

theorem earlyData_of_build (hk : S.KemLaws) (ha : S.AeadLaws) {b : Build} {p q : KemPayload}
    {client : ClientEstablished} {est : ServerEstablished} (hb : b.run S ccfg = .ok (q,client))
    (hkey : b.serverPk = S.kemPublic scfg.kemSecret) (hsame : SameFlight p q)
    (he : establish S scfg p = .ok est) : est.earlyData = b.earlyData := by
  rw [Build.run,hkey] at hb
  rw [establish_congr hsame,establish_buildPayload hk ha hb] at he
  rw [← Except.ok.inj he]

end Server

theorem flight_authentic (S : CipherSuite) (hk : S.KemLaws) (ha : S.AeadLaws)
    (scfg : ServerConfig S) (hserver : scfg.serverPk = S.kemPublic scfg.kemSecret)
    (ccfg : ClientConfig S) (builds : List Build) (strike : StrikeCache) (call : Call)
    (hsig : OnlySigned S ccfg builds call.flight.toList) (s : Session)
    (hs : (serverCall S scfg strike call).1.session = some s)
    (hclient : s.flight.clientPk = ccfg.clientPk)
    (hinj : HashInjective S (s.flight.payload :: sent S ccfg builds)) :
    ∃ b ∈ builds, ∃ p client, b.run S ccfg = .ok (p,client) ∧ SameFlight s.flight.payload p ∧
      s.flight.payload.srcIp = call.peerIp ∧
      checkWindow call.now s.flight.payload.tsMillis scfg.windowMs scfg.skewMs = .ok () ∧
      (b.serverPk = scfg.serverPk → s.established.earlyData = b.earlyData) := by
  rcases serverCall_cases S scfg strike call with ⟨hnone,-⟩ | ⟨t,ht,hcall,hv,-⟩
  · rw [hnone] at hs
    cases hs
  obtain rfl : t = s := Option.some.inj (ht.symm.trans hs)
  obtain ⟨hip,hwindow,hverify⟩ := (precheck_ok_iff S scfg _ _ _ _).mp hv.admitted
  rw [hcall] at hip hwindow
  have hflight : t.flight ∈ call.flight.toList := by
    rw [← hcall,hv.flight]
    simp
  obtain ⟨q,hq,hsame⟩ := sameFlight_of_signed hsig hflight hclient hinj hverify
  obtain ⟨b,hb,client,hrun⟩ := build_of_sent hq
  refine ⟨b,hb,q,client,hrun,hsame,hip,hwindow,?_⟩
  intro hkey
  exact earlyData_of_build hk ha hrun (hkey.trans hserver) hsame hv.opened

def plainBuild : Build := ⟨(fill 32 7).val,fill 16 9,1000,ascii "hi",fill 32 3,fill 32 3⟩

def Build.hello (b : Build) : Frame :=
  match clientZeroRtt plainSuite (plainClient 1) b.serverPk b.srcIp b.now b.earlyData b.r b.nonce with
  | .error _ => .close
  | .ok (frame,_) => frame

def plainCall : Call := ⟨.first,plainBuild.hello,fill 16 9,1500⟩

def plainSession : Option Session :=
  (serverCall plainSuite (plainServer 2000 1000) (StrikeCache.new 2000) plainCall).1.session

instance (S : CipherSuite) (ps : List KemPayload) : Decidable (HashInjective S ps) :=
  inferInstanceAs (Decidable (∀ x ∈ ps.flatMap hashed, ∀ y ∈ ps.flatMap hashed, _ → x = y))

theorem flight_authentic_plain :
    ∃ s, plainSession = some s ∧ s.established.earlyData = ascii "hi" := by
  have hsome : plainSession.isSome = true := by decide +kernel
  have hchecks : plainSession.all (fun s => decide (s.flight.clientPk = (plainClient 1).clientPk ∧
      HashInjective plainSuite
        (s.flight.payload :: sent plainSuite (plainClient 1) [plainBuild]))) = true := by
    decide +kernel
  obtain ⟨s,hs⟩ := Option.isSome_iff_exists.mp hsome
  simp only [hs,Option.all_some,decide_eq_true_eq] at hchecks
  have hsig : OnlySigned plainSuite (plainClient 1) [plainBuild] plainCall.flight.toList := by
    decide +kernel
  obtain ⟨b,hb,-,-,-,-,-,-,hearly⟩ := flight_authentic plainSuite plainSuite_kem plainSuite_aead
    (plainServer 2000 1000) rfl (plainClient 1) [plainBuild] (StrikeCache.new 2000) plainCall hsig s
    hs hchecks.1 hchecks.2
  obtain rfl := List.mem_singleton.mp hb
  exact ⟨s,hs,hearly rfl⟩

end OrtTunnel.Core
