import OrtTunnel.Core.Handshake.AntiReplay
import OrtTunnel.Core.NonceUniqueness

namespace OrtTunnel.Core
open BigEndian Proto

def aeadInputs (S : CipherSuite) (r : RecordLayer) (calls : List RecordCall) :
    List (Arr 32 × Arr nonceLen) :=
  (sealedDraws S r calls).map fun a => (r.keys.encKey,a.nonce)

def Session.keyId (s : Session) : Arr 32 × Arr 32 × Arr 32 :=
  (s.established.record.keys.encKey,s.established.record.keys.poolKey,s.flight.payload.nonce)

def Session.earlyBlock (s : Session) : Bytes × Arr 32 × Bytes :=
  (s.flight.payload.ciphertext,s.flight.payload.nonce,s.flight.payload.encData)

section Unique
variable (S : CipherSuite) (cfg : ServerConfig S)

-- Two acceptable flights carry one KEM ciphertext and nonce, and the cache cannot tell.
def KeyReuse (a b : Call) : Prop :=
  ∃ f g, Acceptable S cfg a f ∧ Acceptable S cfg b g ∧
    f.payload.ciphertext = g.payload.ciphertext ∧ f.payload.nonce = g.payload.nonce ∧
    (f.payload.encData ≠ g.payload.encData ∨
      a.now.toNat + cfg.windowMs.toNat < b.now.toNat)

def ciphertexts (calls : List Call) : List Bytes :=
  calls.filterMap fun c => c.flight.map fun f => f.payload.ciphertext

def keyInputs (calls : List Call) : List (Bytes × Bytes) :=
  (ciphertexts calls).filterMap fun ct =>
    (S.kemDecapsulate cfg.kemSecret ct).toOption.map fun shared => (shared.val,(S.hash256 ct).val)

structure CollisionFree (calls : List Call) : Prop where
  hash : ∀ x ∈ ciphertexts calls, ∀ y ∈ ciphertexts calls, S.hash256 x = S.hash256 y → x = y
  hkdf : ∀ x ∈ keyInputs S cfg calls, ∀ y ∈ keyInputs S cfg calls,
    S.hkdf x.1 x.2 infoEncKey 32 = S.hkdf y.1 y.2 infoEncKey 32 → x = y

structure SessionsDistinct (calls : List Call) : Prop where
  keys : ((established S cfg calls).map Session.keyId).Nodup
  nonces : (established S cfg calls).Pairwise fun s t => ∀ sCalls tCalls,
    NoXofCollision S ((sealedDraws S s.established.record sCalls ++
      sealedDraws S t.established.record tCalls).map Draw.hashed) →
    List.Disjoint (aeadInputs S s.established.record sCalls)
      (aeadInputs S t.established.record tCalls)
  early : ((established S cfg calls).map Session.earlyBlock).Nodup

variable {S cfg}

theorem Vouched.record {s : Session} (h : Vouched S cfg s) :
    ∃ shared, S.kemDecapsulate cfg.kemSecret s.flight.payload.ciphertext = .ok shared ∧
      s.established.record.keys = deriveSessionKeys S shared s.flight.payload.ciphertext ∧
      ∀ d, (s.established.record.pool.dir d).state.key = s.established.record.keys.poolKey ∧
        d.label ++ s.flight.payload.nonce.val <+: (s.established.record.pool.dir d).state.input := by
  obtain ⟨shared,hdec,hopen⟩ := establish_ok S cfg h.opened
  have hstep : s.established.record = ((RecordCall.opens .clientToServer s.flight.payload.encData).step
      S (RecordLayer.new (deriveSessionKeys S shared s.flight.payload.ciphertext)
        s.flight.payload.nonce)).2 := (congrArg Prod.snd hopen).symm
  have hkeys : s.established.record.keys = deriveSessionKeys S shared s.flight.payload.ciphertext := by
    rw [hstep,RecordCall.keys_step]
    rfl
  refine ⟨shared,hdec,hkeys,?_⟩
  intro d
  have hpool := RecordCall.pool_step S (RecordLayer.new (deriveSessionKeys S shared
    s.flight.payload.ciphertext) s.flight.payload.nonce)
    (.opens .clientToServer s.flight.payload.encData) d
  rw [← hstep,RecordLayer.new,EntropyPool.dir_new] at hpool
  rw [hkeys]
  exact hpool

theorem mem_ciphertexts {calls : List Call} {c : Call} {f : Flight} (hc : c ∈ calls)
    (hf : c.flight = some f) : f.payload.ciphertext ∈ ciphertexts calls :=
  List.mem_filterMap.mpr ⟨c,hc,by simp [hf]⟩

theorem mem_keyInputs {calls : List Call} {ct : Bytes} {shared : Arr sharedLen}
    (hct : ct ∈ ciphertexts calls) (hd : S.kemDecapsulate cfg.kemSecret ct = .ok shared) :
    (shared.val,(S.hash256 ct).val) ∈ keyInputs S cfg calls :=
  List.mem_filterMap.mpr ⟨ct,hct,by simp [hd,Except.toOption]⟩

theorem ciphertext_of_encKey {calls : List Call} (hfree : CollisionFree S cfg calls)
    {s t : Session} (hs : Vouched S cfg s) (ht : Vouched S cfg t) (hsc : s.call ∈ calls)
    (htc : t.call ∈ calls)
    (hkey : s.established.record.keys.encKey = t.established.record.keys.encKey) :
    s.flight.payload.ciphertext = t.flight.payload.ciphertext := by
  obtain ⟨k,hdk,hk,-⟩ := hs.record
  obtain ⟨l,hdl,hl,-⟩ := ht.record
  have hsm := mem_ciphertexts hsc hs.flight
  have htm := mem_ciphertexts htc ht.flight
  rw [hk,hl] at hkey
  have hpair := hfree.hkdf _ (mem_keyInputs hsm hdk) _ (mem_keyInputs htm hdl) hkey
  exact hfree.hash _ hsm _ htm (Subtype.ext (Prod.mk.inj hpair).2)

theorem established_keyId {calls : List Call} (hclock : ClockOk calls)
    (hfree : CollisionFree S cfg calls) :
    (established S cfg calls).Pairwise fun s t =>
      s.keyId = t.keyId → KeyReuse S cfg s.call t.call := by
  have hinv := runInv_serve S cfg hclock
  have hcall : ∀ s ∈ established S cfg calls, s.call ∈ calls := fun s hs =>
    hinv.ordered.subset (List.mem_map_of_mem hs)
  refine hinv.separated.imp_of_mem ?_
  intro s t hs ht hwait hid
  have hvs := hinv.vouched s hs
  have hvt := hinv.vouched t ht
  simp only [Session.keyId,Prod.mk.injEq] at hid
  obtain ⟨henc,-,hnonce⟩ := hid
  have hct := ciphertext_of_encKey hfree hvs hvt (hcall s hs) (hcall t ht) henc
  refine ⟨s.flight,t.flight,hvs.acceptable,hvt.acceptable,hct,hnonce,?_⟩
  by_cases hdata : s.flight.payload.encData = t.flight.payload.encData
  · exact Or.inr (hwait (by rw [Flight.tag,Flight.tag,hnonce,hdata]))
  · exact Or.inl hdata

theorem keyId_of_aeadInput {s t : Session} (hs : Vouched S cfg s) (ht : Vouched S cfg t)
    {sCalls tCalls : List RecordCall}
    (hxof : NoXofCollision S ((sealedDraws S s.established.record sCalls ++
      sealedDraws S t.established.record tCalls).map Draw.hashed))
    {x : Arr 32 × Arr nonceLen} (hxs : x ∈ aeadInputs S s.established.record sCalls)
    (hxt : x ∈ aeadInputs S t.established.record tCalls) : s.keyId = t.keyId := by
  obtain ⟨a,ha,rfl⟩ := List.mem_map.mp hxs
  obtain ⟨b,hb,hba⟩ := List.mem_map.mp hxt
  obtain ⟨hkey,hnonceEq⟩ := Prod.mk.inj hba
  obtain ⟨hna,hpa,hina⟩ := sealedDraws_extend S _ _ a ha
  obtain ⟨hnb,hpb,hinb⟩ := sealedDraws_extend S _ _ b hb
  rw [hna,hnb] at hnonceEq
  have hsame : b.hashed = a.hashed := hxof _ (List.mem_map_of_mem (List.mem_append_right _ hb)) _
    (List.mem_map_of_mem (List.mem_append_left _ ha)) hnonceEq
  obtain ⟨-,-,-,hs⟩ := hs.record
  obtain ⟨-,-,-,ht⟩ := ht.record
  rw [hsame] at hpb hinb
  have hpool : s.established.record.keys.poolKey = t.established.record.keys.poolKey :=
    (hs a.dir).1.symm.trans (hpa.symm.trans (hpb.trans (ht b.dir).1))
  have hlen : ∀ (d : Direction) (n : Arr 32), (d.label ++ n.val).length = 47 := by
    intro d n
    rw [List.length_append,Direction.length_label,n.property]
  have hseed := List.IsPrefix.eq_of_length (List.prefix_of_prefix_length_le
    ((hs a.dir).2.trans hina) ((ht b.dir).2.trans hinb) (by rw [hlen,hlen])) (by rw [hlen,hlen])
  obtain ⟨-,hnonce⟩ := List.append_inj hseed (by rw [Direction.length_label,Direction.length_label])
  rw [Session.keyId,Session.keyId,Subtype.ext hnonce,hpool,hkey]

theorem keyId_of_earlyBlock {s t : Session} (hs : Vouched S cfg s) (ht : Vouched S cfg t)
    (h : s.earlyBlock = t.earlyBlock) : s.keyId = t.keyId := by
  obtain ⟨k,hdk,hk,-⟩ := hs.record
  obtain ⟨l,hdl,hl,-⟩ := ht.record
  simp only [Session.earlyBlock,Prod.mk.injEq] at h
  obtain ⟨hct,hnonce,-⟩ := h
  rw [hct] at hdk hk
  obtain rfl : k = l := Except.ok.inj (hdk.symm.trans hdl)
  rw [Session.keyId,Session.keyId,hk,hl,hnonce]

end Unique

theorem session_keys_unique (S : CipherSuite) (cfg : ServerConfig S) (calls : List Call)
    (hclock : ClockOk calls) (hfree : CollisionFree S cfg calls)
    (hreuse : calls.Pairwise fun a b => ¬ KeyReuse S cfg a b) : SessionsDistinct S cfg calls := by
  have hinv := runInv_serve S cfg hclock
  have hne : (established S cfg calls).Pairwise fun s t => s.keyId ≠ t.keyId := by
    refine ((established_calls S cfg hclock hreuse).and (established_keyId hclock hfree)).imp ?_
    rintro s t ⟨hnot,hkey⟩ hid
    exact hnot (hkey hid)
  refine ⟨List.pairwise_map.mpr hne,hne.imp_of_mem ?_,List.pairwise_map.mpr (hne.imp_of_mem ?_)⟩
  · intro s t hs ht hid sCalls tCalls hxof x hxs hxt
    exact hid (keyId_of_aeadInput (hinv.vouched s hs) (hinv.vouched t ht) hxof hxs hxt)
  · intro s t hs ht hid hblock
    exact hid (keyId_of_earlyBlock (hinv.vouched s hs) (hinv.vouched t ht) hblock)

instance (S : CipherSuite) (cfg : ServerConfig S) (calls : List Call) :
    Decidable (CollisionFree S cfg calls) :=
  decidable_of_iff
    ((∀ x ∈ ciphertexts calls, ∀ y ∈ ciphertexts calls, S.hash256 x = S.hash256 y → x = y) ∧
      ∀ x ∈ keyInputs S cfg calls, ∀ y ∈ keyInputs S cfg calls,
        S.hkdf x.1 x.2 infoEncKey 32 = S.hkdf y.1 y.2 infoEncKey 32 → x = y)
    ⟨fun h => ⟨h.1,h.2⟩,fun h => ⟨h.hash,h.hkdf⟩⟩

def plainPair : List Call :=
  helloCalls (plainHello 1 3 (fill 16 9) 1000) (fill 16 9) [1000] ++
    helloCalls (plainHello 1 4 (fill 16 9) 1200) (fill 16 9) [1200]

theorem session_keys_unique_pair :
    (established plainSuite (plainServer 2000 0) plainPair).length = 2 ∧
      SessionsDistinct plainSuite (plainServer 2000 0) plainPair := by
  refine ⟨by decide +kernel,session_keys_unique plainSuite (plainServer 2000 0) plainPair
    (by decide +kernel) (by decide +kernel) ?_⟩
  have hfar : plainPair.Pairwise fun a b => ∀ f ∈ a.flight.toList, ∀ g ∈ b.flight.toList,
      f.payload.ciphertext ≠ g.payload.ciphertext := by decide +kernel
  refine hfar.imp ?_
  rintro a b hne ⟨f,g,hf,hg,hct,-⟩
  exact hne f (by simp [hf.flight]) g (by simp [hg.flight]) hct

def resign (S : CipherSuite) (cfg : ClientConfig S) (p : KemPayload) (srcIp : Arr 16) (ts : UInt64) :
    KemPayload :=
  ⟨p.ciphertext,srcIp,ts,p.nonce,
    signClientBinding S cfg.sigSecret ⟨srcIp,ts,p.nonce⟩ cfg.clientPk p.ciphertext p.encData,p.encData⟩

def resignedCalls : List Call :=
  match plainHello 1 3 (fill 16 9) 1000 with
  | .ok (.clientHelloZeroRtt suiteId clientPk p,_) =>
    [⟨.first,.clientHelloZeroRtt suiteId clientPk p,fill 16 9,1000⟩,
      ⟨.first,.clientHelloZeroRtt suiteId (plainClient 2).clientPk
        (resign plainSuite (plainClient 2) p (fill 16 8) 3200),fill 16 8,3200⟩]
  | _ => []

theorem resigned_flight_reuses_keys :
    ClockOk resignedCalls ∧ CollisionFree plainSuite (plainServer 2000 0) resignedCalls ∧
      ¬ ((established plainSuite (plainServer 2000 0) resignedCalls).map Session.keyId).Nodup ∧
      ¬ ((established plainSuite (plainServer 2000 0) resignedCalls).map
        Session.earlyBlock).Nodup := by
  decide +kernel

end OrtTunnel.Core
