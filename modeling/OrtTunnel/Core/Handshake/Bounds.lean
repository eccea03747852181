import OrtTunnel.Core.Handshake.TagCells
import OrtTunnel.Core.ReplayLog

namespace OrtTunnel.Core
open BigEndian Proto WindowLog Machine

section Count
variable (S : CipherSuite) (cfg : ServerConfig S)

def timesEstablished (calls : List Call) (f : Flight) : ℕ :=
  ((established S cfg calls).filter fun s => s.flight = f).length

-- The most often one signed flight can be let in before its timestamp is too old.
def replayBound : ℕ := 1 + (cfg.windowMs.toNat + cfg.skewMs.toNat) / (cfg.windowMs.toNat + 1)

theorem sessions_length_le {calls : List Call} (hclock : ClockOk calls) {own : List Session}
    (hsub : own.Sublist (established S cfg calls)) {tag : Arr 32} {ts : UInt64}
    (hown : ∀ s ∈ own, s.flight.tag S = tag ∧ s.flight.payload.tsMillis = ts) :
    own.length ≤ replayBound S cfg := by
  have hinv := runInv_serve S cfg hclock
  have hspaced : (own.map fun s => s.call.now.toNat).Pairwise
      fun a b => a + cfg.windowMs.toNat < b := by
    refine List.pairwise_map.mpr ((hinv.separated.sublist hsub).imp_of_mem ?_)
    intro a b ha hb hwait
    exact hwait (by rw [(hown a ha).1,(hown b hb).1])
  have htime : ∀ t ∈ own.map fun s => s.call.now.toNat,
      ts.toNat ≤ t + cfg.skewMs.toNat ∧ t ≤ ts.toNat + cfg.windowMs.toNat := by
    intro t ht
    obtain ⟨s,hs,rfl⟩ := List.mem_map.mp ht
    rw [← (hown s hs).2]
    exact admits_time S cfg (hinv.vouched s (hsub.subset hs)).admitted
  have hlen := @spaced_length _ (ts.toNat - cfg.skewMs.toNat) (ts.toNat + cfg.windowMs.toNat) _
    hspaced (fun t ht => by have := (htime t ht).1; omega) (fun t ht => (htime t ht).2) (by omega)
  have hspan : ts.toNat + cfg.windowMs.toNat - (ts.toNat - cfg.skewMs.toNat) ≤
      cfg.windowMs.toNat + cfg.skewMs.toNat := by omega
  rw [List.length_map] at hlen
  exact hlen.trans (Nat.add_le_add_left (Nat.div_le_div_right hspan) 1)

theorem timesEstablished_le {calls : List Call} (hclock : ClockOk calls) (f : Flight) :
    timesEstablished S cfg calls f ≤ replayBound S cfg := by
  refine @sessions_length_le S cfg calls hclock _ List.filter_sublist (f.tag S)
    f.payload.tsMillis ?_
  intro s hs
  obtain ⟨-,rfl⟩ : s ∈ established S cfg calls ∧ s.flight = f := by simpa using hs
  exact ⟨rfl,rfl⟩

theorem established_spaced {f : Flight} {est : ServerEstablished} {send : UInt64 → Call}
    (hnow : ∀ t, (send t).now = t) (hf : ∀ t, (send t).flight = some f)
    (hest : establish S cfg f.payload = .ok est) {times : List UInt64} {strike : StrikeCache}
    (hwindow : strike.windowMs = cfg.windowMs) (hadmits : ∀ t ∈ times, admits S cfg (send t) f)
    (hfresh : ∀ t ∈ times, ¬ strike.LiveEntry (f.tag S) t)
    (hspaced : times.Pairwise fun a b => a.toNat + cfg.windowMs.toNat < b.toNat) :
    sessions (run (serverCall S cfg) strike (times.map send)).1 =
      times.map fun t => ⟨send t,f,est⟩ := by
  induction times generalizing strike with
  | nil => rfl
  | cons t times ih =>
    obtain ⟨hnext,hrest⟩ := List.pairwise_cons.mp hspaced
    have hnew : ¬ strike.LiveEntry (f.tag S) (send t).now := by
      rw [hnow]
      exact hfresh t (by simp)
    obtain ⟨hs,hc⟩ := serverCall_establishes S cfg (hf t) (hadmits t (by simp)) hnew hest
    have hlater : ∀ u ∈ times, ¬ (serverCall S cfg strike (send t)).2.LiveEntry (f.tag S) u := by
      intro u hu
      have hgap := hnext u hu
      have hle : t ≤ u := UInt64.le_iff_toNat_le.mpr (by omega)
      rw [hc,hnow,StrikeCache.liveEntry_checkAndInsert hle,hwindow]
      rintro (hlive | ⟨-,-,hlive⟩)
      · exact hfresh u (by simp [hu]) hlive
      · omega
    have hkeep : (serverCall S cfg strike (send t)).2.windowMs = cfg.windowMs := by
      rw [hc,StrikeCache.windowMs_checkAndInsert,hwindow]
    have htail := ih hkeep (fun u hu => hadmits u (by simp [hu])) hlater hrest
    rw [List.map_cons,run]
    simp only [sessions,List.filterMap_cons,hs,List.map_cons] at htail ⊢
    rw [htail]

theorem replayBound_attained (hk : S.KemLaws) (hsig : S.SigLaws) (ha : S.AeadLaws)
    (sk : S.SigSecret) (hroom : cfg.windowMs.toNat + cfg.skewMs.toNat < 2 ^ 64) :
    ∃ calls f, ClockOk calls ∧ timesEstablished S cfg calls f = replayBound S cfg := by
  obtain ⟨payload,client,hb⟩ : ∃ payload client, buildPayload S ⟨sk,S.sigPublic sk⟩
      (S.kemPublic cfg.kemSecret) (fill 16 0) cfg.skewMs [] (fill rLen 0) (fill 32 0) =
        .ok (payload,client) :=
    buildPayload_total hk cfg.kemSecret
  let f : Flight := ⟨S.sigPublic sk,payload⟩
  let send (now : UInt64) : Call := ⟨.clientData,.clientData (S.sigPublic sk) payload,fill 16 0,now⟩
  let times := (List.range (replayBound S cfg)).map fun i =>
    UInt64.ofNat (i * (cfg.windowMs.toNat + 1))
  have hfit : ∀ i < replayBound S cfg,
      i * (cfg.windowMs.toNat + 1) ≤ cfg.windowMs.toNat + cfg.skewMs.toNat := by
    intro i hi
    have hle : i ≤ (cfg.windowMs.toNat + cfg.skewMs.toNat) / (cfg.windowMs.toNat + 1) := by
      rw [replayBound] at hi
      omega
    exact (Nat.le_div_iff_mul_le (Nat.succ_pos _)).mp hle
  have hnat : ∀ i < replayBound S cfg,
      (UInt64.ofNat (i * (cfg.windowMs.toNat + 1))).toNat = i * (cfg.windowMs.toNat + 1) := by
    intro i hi
    rw [UInt64.toNat_ofNat']
    exact Nat.mod_eq_of_lt ((hfit i hi).trans_lt hroom)
  have hadmits : ∀ t ∈ times, admits S cfg (send t) f := by
    intro t ht
    obtain ⟨i,hi,rfl⟩ := List.mem_map.mp ht
    have hi' := List.mem_range.mp hi
    have hpast := hfit i hi'
    refine precheck_buildPayload hsig rfl hb (Nat.le_add_left _ _) ?_
    rw [hnat i hi']
    omega
  have hspaced : times.Pairwise fun a b => a.toNat + cfg.windowMs.toNat < b.toNat := by
    refine List.pairwise_map.mpr (List.pairwise_lt_range.imp_of_mem ?_)
    intro i j hi hj hlt
    rw [hnat i (List.mem_range.mp hi),hnat j (List.mem_range.mp hj)]
    have hmul : (i + 1) * (cfg.windowMs.toNat + 1) ≤ j * (cfg.windowMs.toNat + 1) :=
      Nat.mul_le_mul_right _ hlt
    rw [Nat.succ_mul] at hmul
    omega
  have hsess := @established_spaced S cfg f _ send (fun _ => rfl) (fun _ => rfl)
    (establish_buildPayload hk ha hb) times (StrikeCache.new cfg.windowMs) rfl hadmits
    (fun t _ => StrikeCache.not_liveEntry_new _ _ _) hspaced
  refine ⟨times.map send,f,?_,?_⟩
  · refine List.pairwise_map.mpr (hspaced.imp ?_)
    intro a b hab
    have hle : a.toNat ≤ b.toNat := by omega
    exact UInt64.le_iff_toNat_le.mpr hle
  · rw [timesEstablished,established,serve,hsess,List.filter_map]
    simp [times,Function.comp_def]

theorem replay_count_greatest (hk : S.KemLaws) (hsig : S.SigLaws) (ha : S.AeadLaws)
    (sk : S.SigSecret) (hroom : cfg.windowMs.toNat + cfg.skewMs.toNat < 2 ^ 64) :
    IsGreatest {n | ∃ calls f, ClockOk calls ∧ timesEstablished S cfg calls f = n}
      (1 + (cfg.windowMs.toNat + cfg.skewMs.toNat) / (cfg.windowMs.toNat + 1)) := by
  refine ⟨replayBound_attained S cfg hk hsig ha sk hroom,?_⟩
  rintro n ⟨calls,f,hclock,rfl⟩
  exact timesEstablished_le S cfg hclock f

end Count

theorem replay_count_greatest_two :
    IsGreatest {n | ∃ calls f, ClockOk calls ∧
      timesEstablished plainSuite (plainServer 2000 1000) calls f = n} 2 :=
  replay_count_greatest plainSuite (plainServer 2000 1000) plainSuite_kem plainSuite_sig
    plainSuite_aead (fill 32 1) (by decide)

section Footprint
variable (S : CipherSuite) (cfg : ServerConfig S)

def authentic (c : Call) : Bool :=
  match c.flight with
  | none => false
  | some f =>
    match precheck S cfg f.clientPk f.payload c.peerIp c.now with
    | .error _ => false
    | .ok _ => true

theorem insertion_authentic {strike : StrikeCache} {c : Call} {tag : Arr 32} {t : ℕ}
    (h : insertion S cfg strike c = some (tag,t)) :
    authentic S cfg c = true ∧ c.tag S = some tag ∧ c.now.toNat = t := by
  unfold insertion at h
  cases hf : c.flight with
  | none => simp [hf] at h
  | some f =>
    cases hp : precheck S cfg f.clientPk f.payload c.peerIp c.now with
    | error e => simp [hf,hp] at h
    | ok _ =>
      cases hc : (strike.checkAndInsert (f.tag S) c.now).1 with
      | error e => simp [hf,hp,hc] at h
      | ok _ =>
        simp only [hf,hp,hc,Option.some.injEq,Prod.mk.injEq] at h
        exact ⟨by simp [authentic,hf,hp],by simp [Call.tag,hf,h.1],h.2⟩

theorem insertions_authentic {strike : StrikeCache} {calls : List Call} {tag : Arr 32} {t : ℕ}
    (h : (tag,t) ∈ insertions S cfg strike calls) :
    ∃ c ∈ calls, authentic S cfg c = true ∧ c.tag S = some tag ∧ c.now.toNat = t := by
  induction calls generalizing strike with
  | nil => cases h
  | cons c calls ih =>
    rcases List.mem_append.mp h with h | h
    · exact ⟨c,by simp,insertion_authentic S cfg (by simpa using h)⟩
    · obtain ⟨d,hd,hauth⟩ := ih h
      exact ⟨d,by simp [hd],hauth⟩

theorem cache_footprint (calls : List Call) (hclock : ClockOk calls) :
    let strike := (serve S cfg calls).2
    let recent := calls.filter fun c => authentic S cfg c ∧
      strike.lastEvict.toNat ≤ c.now.toNat + cfg.windowMs.toNat
    (∀ tag t, strike.entries.lookup tag = some t →
      ∃ c ∈ recent, c.tag S = some tag ∧ c.now = t) ∧
    strike.len ≤ (recent.map (Call.tag S)).dedup.length := by
  intro strike recent
  obtain ⟨hlog,-,-⟩ := @logged_serve S cfg calls hclock
  have hentry : ∀ tag t, strike.entries.lookup tag = some t →
      ∃ c ∈ recent, c.tag S = some tag ∧ c.now = t := by
    intro tag t ht
    obtain ⟨hmem,hlive,-⟩ := (hlog.refines.lookup_iff tag t).mp ht
    rw [hlog.window] at hlive
    obtain ⟨c,hc,hauth,htag,hnow⟩ := insertions_authentic S cfg (List.mem_reverse.mp hmem)
    refine ⟨c,List.mem_filter.mpr ⟨hc,?_⟩,htag,UInt64.toNat_inj.mp hnow⟩
    rw [hnow]
    simpa using ⟨hauth,hlive⟩
  refine ⟨hentry,?_⟩
  have hkeys : (strike.entries.entries.map fun e => some e.1).Nodup := by
    have hnodup : (strike.entries.entries.map Sigma.fst).Nodup := strike.entries.nodupKeys
    have hsome := hnodup.map (Option.some_injective _)
    rw [List.map_map] at hsome
    exact hsome
  have hsub : (strike.entries.entries.map fun e => some e.1) ⊆ (recent.map (Call.tag S)).dedup := by
    intro k hk
    obtain ⟨⟨tag,t⟩,he,rfl⟩ := List.mem_map.mp hk
    obtain ⟨c,hc,htag,-⟩ := hentry tag t (AList.mem_lookup_iff.mpr he)
    exact List.mem_dedup.mpr (List.mem_map.mpr ⟨c,hc,htag⟩)
  have hle := (List.subperm_of_subset hkeys hsub).length_le
  rwa [List.length_map] at hle

end Footprint

def crowdedCalls : List Call :=
  helloCalls (plainHello 1 3 (fill 16 9) 1000) (fill 16 9) [1000] ++
    helloCalls (plainHello 1 3 (fill 16 9) 1000) (fill 16 8) [1100] ++
    helloCalls (plainHello 1 3 (fill 16 9) 1000) (fill 16 9) [1200] ++
    helloCalls (plainHello 1 4 (fill 16 9) 9000) (fill 16 9) [1300] ++
    [⟨.first,.close,fill 16 9,1400⟩] ++
    helloCalls (plainHello 1 5 (fill 16 9) 3000) (fill 16 9) [3300]

theorem cache_footprint_crowded :
    crowdedCalls.length = 6 ∧
      (established plainSuite (plainServer 2000 1000) crowdedCalls).length = 2 ∧
      (serve plainSuite (plainServer 2000 1000) crowdedCalls).2.len ≤ 1 := by
  have h := (cache_footprint plainSuite (plainServer 2000 1000) crowdedCalls (by decide +kernel)).2
  exact ⟨by decide +kernel,by decide +kernel,h.trans (by decide +kernel)⟩

end OrtTunnel.Core
