import OrtTunnel.Core.Handshake.AntiReplay

namespace OrtTunnel.Core
open BigEndian Proto WindowLog

section Log
variable (S : CipherSuite) (cfg : ServerConfig S)

def insertion (strike : StrikeCache) (c : Call) : Option (Arr 32 × ℕ) :=
  match c.flight with
  | none => none
  | some f =>
    match precheck S cfg f.clientPk f.payload c.peerIp c.now,
      (strike.checkAndInsert (f.tag S) c.now).1 with
    | .ok _,.ok _ => some (f.tag S,c.now.toNat)
    | _,_ => none

def insertions : StrikeCache → List Call → Log (Arr 32)
  | _, [] => []
  | strike, c :: cs =>
    (insertion S cfg strike c).toList ++ insertions (serverCall S cfg strike c).2 cs

structure Logged (strike : StrikeCache) (log : Log (Arr 32)) : Prop where
  window : strike.windowMs = cfg.windowMs
  refines : strike.Refines log

variable {S cfg}
variable {strike : StrikeCache} {log : Log (Arr 32)} {c : Call}

theorem logged_new : Logged S cfg (StrikeCache.new cfg.windowMs) [] :=
  ⟨rfl,StrikeCache.refines_new _⟩

theorem sessions_append (as bs : List Outcome) : sessions (as ++ bs) = sessions as ++ sessions bs :=
  List.filterMap_append

theorem serverCall_strike {f : Flight} (hf : c.flight = some f) :
    (serverCall S cfg strike c).2 =
      match precheck S cfg f.clientPk f.payload c.peerIp c.now with
      | .error _ => strike
      | .ok _ => (strike.checkAndInsert (f.tag S) c.now).2 := by
  rw [(serverCall_some S cfg hf).2,processPayload_eq]
  cases precheck S cfg f.clientPk f.payload c.peerIp c.now with
  | error e => rfl
  | ok _ =>
    simp only [Flight.tag]
    rcases strike.checkAndInsert (replayTag S f.payload.nonce f.payload.encData) c.now with ⟨_ | _,_⟩
    · rfl
    · rfl

theorem serverCall_refines (h : Logged S cfg strike log) (hle : strike.lastEvict ≤ c.now) :
    Logged S cfg (serverCall S cfg strike c).2 ((insertion S cfg strike c).toList ++ log) := by
  cases hf : c.flight with
  | none =>
    rw [(serverCall_none S cfg hf).2]
    simpa [insertion,hf] using h
  | some f =>
    rw [serverCall_strike hf]
    cases hp : precheck S cfg f.clientPk f.payload c.peerIp c.now with
    | error e => simpa [insertion,hf,hp] using h
    | ok _ =>
      refine ⟨(StrikeCache.windowMs_checkAndInsert ..).trans h.window,?_⟩
      rcases StrikeCache.checkAndInsert_cases h.refines (f.tag S) hle with ⟨_,he,hr⟩ | ⟨_,he,hr⟩
      · simpa [insertion,hf,hp,he] using hr
      · simpa [insertion,hf,hp,he] using hr

theorem lastEvict_serverCall (c : Call) :
    (serverCall S cfg strike c).2.lastEvict = strike.lastEvict ∨
      (serverCall S cfg strike c).2.lastEvict = c.now := by
  cases hf : c.flight with
  | none => exact Or.inl (by rw [(serverCall_none S cfg hf).2])
  | some f =>
    rw [serverCall_strike hf]
    cases precheck S cfg f.clientPk f.payload c.peerIp c.now with
    | error e => exact Or.inl rfl
    | ok _ => exact Or.inr (StrikeCache.lastEvict_checkAndInsert ..)

theorem session_iff_log (h : Logged S cfg strike log) (hle : strike.lastEvict ≤ c.now)
    (s : Session) :
    (serverCall S cfg strike c).1.session = some s ↔
      s.call = c ∧ Vouched S cfg s ∧ ¬ Live cfg.windowMs.toNat log (s.flight.tag S) c.now.toNat := by
  rw [serverCall_session_iff,h.refines.liveEntry_iff _ hle,h.window]

theorem logged_run {calls : List Call} (h : Logged S cfg strike log) (hclock : ClockOk calls)
    (hle : ∀ c ∈ calls, strike.lastEvict ≤ c.now) :
    Logged S cfg (Machine.run (serverCall S cfg) strike calls).2
      ((insertions S cfg strike calls).reverse ++ log) ∧
    (∀ now, strike.lastEvict ≤ now → (∀ c ∈ calls, c.now ≤ now) →
      (Machine.run (serverCall S cfg) strike calls).2.lastEvict ≤ now) ∧
    ∀ s ∈ sessions (Machine.run (serverCall S cfg) strike calls).1, Vouched S cfg s ∧
      s.call ∈ calls ∧
      ∀ t, (s.flight.tag S,t) ∈ log → t + cfg.windowMs.toNat < s.call.now.toNat := by
  induction calls generalizing strike log with
  | nil => exact ⟨h,fun _ hlast _ => hlast,by simp [Machine.run,sessions]⟩
  | cons c calls ih =>
    obtain ⟨hnow,hclock'⟩ := List.pairwise_cons.mp hclock
    have hc : strike.lastEvict ≤ c.now := hle c List.mem_cons_self
    have hlast := @lastEvict_serverCall S cfg strike c
    have hbound : ∀ now, c.now ≤ now → (serverCall S cfg strike c).2.lastEvict ≤ now := by
      intro now hn
      rcases hlast with he | he
      · rw [he]
        exact UInt64.le_trans hc hn
      · rwa [he]
    obtain ⟨hlog,hevict,hsess⟩ := ih (serverCall_refines h hc) hclock'
      fun b hb => hbound b.now (hnow b hb)
    refine ⟨?_,?_,?_⟩
    · have hrev : (insertions S cfg strike (c :: calls)).reverse ++ log =
          (insertions S cfg (serverCall S cfg strike c).2 calls).reverse ++
            ((insertion S cfg strike c).toList ++ log) := by
        cases hi : insertion S cfg strike c <;> simp [insertions,hi]
      rw [hrev,Machine.run]
      exact hlog
    · intro now _ hall
      exact hevict now (hbound now (hall c List.mem_cons_self))
        fun b hb => hall b (List.mem_cons_of_mem _ hb)
    · intro s hs
      have hsplit : s ∈ sessions [(serverCall S cfg strike c).1] ∨
          s ∈ sessions (Machine.run (serverCall S cfg) (serverCall S cfg strike c).2 calls).1 := by
        rw [← List.mem_append,← sessions_append]
        exact hs
      rcases hsplit with hs | hs
      · have hsome : (serverCall S cfg strike c).1.session = some s := by
          simpa [sessions] using hs
        obtain ⟨hcall,hv,hno⟩ := (session_iff_log h hc s).mp hsome
        refine ⟨hv,hcall ▸ List.mem_cons_self,fun t ht => ?_⟩
        by_contra hlt
        exact hno ⟨t,ht,by rw [← hcall]; omega⟩
      · obtain ⟨hv,hmem,hafter⟩ := hsess s hs
        exact ⟨hv,List.mem_cons_of_mem _ hmem,fun t ht => hafter t (List.mem_append_right _ ht)⟩

theorem logged_serve {calls : List Call} (hclock : ClockOk calls) :
    Logged S cfg (serve S cfg calls).2
      (insertions S cfg (StrikeCache.new cfg.windowMs) calls).reverse ∧
    (∀ now, (∀ c ∈ calls, c.now ≤ now) → (serve S cfg calls).2.lastEvict ≤ now) ∧
    ∀ s ∈ established S cfg calls, Vouched S cfg s ∧ s.call ∈ calls := by
  have hnew : Logged S cfg (StrikeCache.new cfg.windowMs) [] := logged_new
  obtain ⟨hlog,hevict,hsess⟩ := logged_run hnew hclock fun _ _ => UInt64.zero_le
  rw [List.append_nil] at hlog
  refine ⟨hlog,fun now hall => hevict now UInt64.zero_le hall,fun s hs => ?_⟩
  obtain ⟨hv,hmem,_⟩ := hsess s hs
  exact ⟨hv,hmem⟩

theorem admits_again {s : Session} (hv : Vouched S cfg s) (hip : c.peerIp = s.call.peerIp)
    (hlater : s.call.now ≤ c.now) :
    admits S cfg c s.flight ↔
      c.now.toNat ≤ s.flight.payload.tsMillis.toNat + cfg.windowMs.toNat := by
  have hnow : s.call.now.toNat ≤ c.now.toNat := UInt64.le_iff_toNat_le.mp hlater
  obtain ⟨hfuture,_⟩ := admits_time S cfg hv.admitted
  obtain ⟨hsrc,_,hsig⟩ := (precheck_ok_iff S cfg _ _ _ _).mp hv.admitted
  rw [admits,precheck_ok_iff,checkWindow_ok_iff,hip]
  constructor
  · rintro ⟨_,⟨_,hw⟩,_⟩
    exact hw
  · intro hw
    exact ⟨hsrc,⟨by omega,hw⟩,hsig⟩

end Log

def LastInserted (tag : Arr 32) (t₁ : ℕ) (log : Log (Arr 32)) : Prop :=
  (tag,t₁) ∈ log ∧ ∀ e ∈ log, e.1 = tag → e.2 ≤ t₁

instance (tag : Arr 32) (t₁ : ℕ) (log : Log (Arr 32)) : Decidable (LastInserted tag t₁ log) :=
  inferInstanceAs (Decidable (_ ∧ _))

theorem live_reverse_iff {tag : Arr 32} {t₁ w now : ℕ} {log : Log (Arr 32)}
    (h : LastInserted tag t₁ log) : Live w log.reverse tag now ↔ now ≤ t₁ + w := by
  constructor
  · rintro ⟨t,ht,hle⟩
    have hmax := h.2 _ (List.mem_reverse.mp ht) rfl
    simp only at hmax
    omega
  · intro hle
    exact ⟨t₁,List.mem_reverse.mpr h.1,hle⟩

theorem replay_exposure (S : CipherSuite) (cfg : ServerConfig S) (calls : List Call) (s : Session)
    (hs : s ∈ established S cfg calls) (t₁ : ℕ)
    (hlast : LastInserted (s.flight.tag S) t₁
      (insertions S cfg (StrikeCache.new cfg.windowMs) calls))
    (hclock : ClockOk calls) :
    (∀ c : Call, (∀ b ∈ calls, b.now ≤ c.now) → c.flight = some s.flight →
      c.peerIp = s.call.peerIp →
      ((∃ r, (serverCall S cfg (serve S cfg calls).2 c).1.session = some r) ↔
        t₁ + cfg.windowMs.toNat < c.now.toNat ∧
          c.now.toNat ≤ s.flight.payload.tsMillis.toNat + cfg.windowMs.toNat)) ∧
    (s.flight.payload.tsMillis.toNat ≤ t₁ → ∀ more : List Call, ClockOk (calls ++ more) →
      ∀ r ∈ sessions (Machine.run (serverCall S cfg) (serve S cfg calls).2 more).1,
        r.flight.payload ≠ s.flight.payload) := by
  obtain ⟨hlog,hevict,hsess⟩ := @logged_serve S cfg calls hclock
  obtain ⟨hv,hmem⟩ := hsess s hs
  constructor
  · intro c hnow hf hip
    have hlive := @live_reverse_iff _ _ cfg.windowMs.toNat c.now.toNat _ hlast
    have hiff := session_iff_log hlog (hevict c.now hnow)
    have hagain := admits_again hv hip (hnow s.call hmem)
    constructor
    · rintro ⟨r,hr⟩
      obtain ⟨rfl,hvr,hno⟩ := (hiff r).mp hr
      obtain hsame : r.flight = s.flight := Option.some.inj (hvr.flight.symm.trans hf)
      rw [hsame,hlive] at hno
      exact ⟨Nat.lt_of_not_le hno,hagain.mp (hsame ▸ hvr.admitted)⟩
    · rintro ⟨hlate,hfresh⟩
      refine ⟨⟨c,s.flight,s.established⟩,(hiff _).mpr ⟨rfl,⟨hf,hagain.mpr hfresh,hv.opened⟩,?_⟩⟩
      rw [hlive]
      omega
  · intro hts more hmore r hr hsame
    obtain ⟨_,hclock',hnow⟩ := List.pairwise_append.mp hmore
    obtain ⟨_,_,hafter⟩ := logged_run hlog hclock' fun c hc =>
      hevict c.now fun b hb => hnow b hb c hc
    obtain ⟨hvr,_,hlater⟩ := hafter r hr
    have htag : r.flight.tag S = s.flight.tag S := by rw [Flight.tag,Flight.tag,hsame]
    have hlate := hlater t₁ (by rw [htag]; exact List.mem_reverse.mpr hlast.1)
    obtain ⟨_,htime⟩ := admits_time S cfg hvr.admitted
    rw [hsame] at htime
    omega

def earlyCalls : List Call := helloCalls (plainHello 1 3 (fill 16 9) 1500) (fill 16 9) [1000]

theorem replay_exposure_ahead :
    ∃ c ∈ helloCalls (plainHello 1 3 (fill 16 9) 1500) (fill 16 9) [3200],
      ∃ r, (serverCall plainSuite (plainServer 2000 1000)
        (serve plainSuite (plainServer 2000 1000) earlyCalls).2 c).1.session = some r := by
  have hrun : ∃ s ∈ established plainSuite (plainServer 2000 1000) earlyCalls,
      LastInserted (s.flight.tag plainSuite) 1000
        (insertions plainSuite (plainServer 2000 1000) (StrikeCache.new 2000) earlyCalls) ∧
      s.flight.payload.tsMillis = 1500 ∧
      ∃ c ∈ helloCalls (plainHello 1 3 (fill 16 9) 1500) (fill 16 9) [3200], c.now = 3200 ∧
        (∀ b ∈ earlyCalls, b.now ≤ c.now) ∧ c.flight = some s.flight ∧
        c.peerIp = s.call.peerIp := by decide +kernel
  obtain ⟨s,hs,hlast,hts,c,hc,hnow,hle,hf,hip⟩ := hrun
  refine ⟨c,hc,((replay_exposure plainSuite (plainServer 2000 1000) earlyCalls s hs 1000 hlast
    (by decide +kernel)).1 c hle hf hip).mpr ?_⟩
  rw [hts,hnow]
  decide

end OrtTunnel.Core
