import OrtTunnel.Core.Handshake.Server
import OrtTunnel.Library.Machine

namespace OrtTunnel.Core
open BigEndian Proto WindowLog

inductive Entry where
  | first
  | clientData
  deriving DecidableEq

-- One locked call of a connection; `now` is the clock reading made inside it.
structure Call where
  entry : Entry
  frame : Frame
  peerIp : Arr 16
  now : UInt64
  deriving DecidableEq

inductive Reply where
  | stepped (step : ServerStep)
  | done (established : ServerEstablished)
  deriving DecidableEq

structure Outcome where
  call : Call
  result : Except Error Reply

structure Session where
  call : Call
  flight : Flight
  established : ServerEstablished
  deriving DecidableEq

def Call.flight (c : Call) : Option Flight :=
  match c.entry,c.frame with
  | .first,.clientHelloZeroRtt suiteId clientPk payload =>
    if (SuiteId.fromCode suiteId).isSome then some ⟨clientPk,payload⟩ else none
  | .clientData,.clientData clientPk payload => some ⟨clientPk,payload⟩
  | _,_ => none

def Reply.established : Reply → Option ServerEstablished
  | .stepped (.zeroRtt _ established) => some established
  | .stepped (.oneRtt _) => none
  | .done established => some established

def Outcome.session (o : Outcome) : Option Session :=
  match o.call.flight,o.result with
  | some f,.ok r => r.established.map fun e => ⟨o.call,f,e⟩
  | _,_ => none

def sessions (os : List Outcome) : List Session := os.filterMap Outcome.session

def ClockOk (calls : List Call) : Prop := calls.Pairwise fun a b => a.now ≤ b.now

instance (calls : List Call) : Decidable (ClockOk calls) :=
  inferInstanceAs (Decidable (calls.Pairwise _))

section Run
variable (S : CipherSuite) (cfg : ServerConfig S)

def serverCall (strike : StrikeCache) (c : Call) : Outcome × StrikeCache :=
  match c.entry with
  | .first =>
    let (result,strike) := serverOnFirst S cfg c.frame c.peerIp c.now strike
    (⟨c,result.map .stepped⟩,strike)
  | .clientData =>
    let (result,strike) := serverOnClientData S cfg c.frame c.peerIp c.now strike
    (⟨c,result.map .done⟩,strike)

def serve (calls : List Call) : List Outcome × StrikeCache :=
  Machine.run (serverCall S cfg) (StrikeCache.new cfg.windowMs) calls

def established (calls : List Call) : List Session := sessions (serve S cfg calls).1

def admits (c : Call) (f : Flight) : Prop :=
  precheck S cfg f.clientPk f.payload c.peerIp c.now = .ok ()

structure Acceptable (c : Call) (f : Flight) : Prop where
  flight : c.flight = some f
  admitted : admits S cfg c f
  opens : ∃ est, establish S cfg f.payload = .ok est

structure Vouched (s : Session) : Prop where
  flight : s.call.flight = some s.flight
  admitted : admits S cfg s.call s.flight
  opened : establish S cfg s.flight.payload = .ok s.established

variable {S cfg} in
theorem Vouched.acceptable {s : Session} (h : Vouched S cfg s) : Acceptable S cfg s.call s.flight :=
  ⟨h.flight,h.admitted,s.established,h.opened⟩

inductive Touched (strike : StrikeCache) (now : UInt64) : StrikeCache → Prop where
  | untouched : Touched strike now strike
  | checked (tag : Arr 32) : Touched strike now (strike.checkAndInsert tag now).2

theorem processPayload_cases (clientPk : Bytes) (payload : KemPayload) (peerIp : Arr 16)
    (now : UInt64) (strike : StrikeCache) :
    (∃ e strike', processPayload S cfg clientPk payload peerIp now strike = (.error e,strike') ∧
      Touched strike now strike') ∨
    (∃ est strike', processPayload S cfg clientPk payload peerIp now strike = (.ok est,strike') ∧
      precheck S cfg clientPk payload peerIp now = .ok () ∧
      strike.checkAndInsert (replayTag S payload.nonce payload.encData) now = (.ok (),strike') ∧
      establish S cfg payload = .ok est) := by
  rcases hp : processPayload S cfg clientPk payload peerIp now strike with ⟨e | est,strike'⟩
  · refine Or.inl ⟨e,strike',rfl,?_⟩
    rw [processPayload_eq] at hp
    cases ha : precheck S cfg clientPk payload peerIp now with
    | error e' =>
      simp only [ha,Prod.mk.injEq] at hp
      exact hp.2 ▸ .untouched
    | ok _ =>
      have hc : strike' = (strike.checkAndInsert (replayTag S payload.nonce payload.encData) now).2 := by
        rcases hc : strike.checkAndInsert (replayTag S payload.nonce payload.encData) now
          with ⟨_ | _,c⟩ <;> simp only [ha,hc,Prod.mk.injEq] at hp <;> exact hp.2.symm
      exact hc ▸ .checked _
  · exact Or.inr ⟨est,strike',rfl,processPayload_ok S cfg hp⟩

theorem serverCall_none {strike : StrikeCache} {c : Call} (h : c.flight = none) :
    (serverCall S cfg strike c).1.session = none ∧ (serverCall S cfg strike c).2 = strike := by
  have hcall : (serverCall S cfg strike c).1.call = c := by
    unfold serverCall
    split <;> rfl
  refine ⟨by simp [Outcome.session,hcall,h],?_⟩
  obtain ⟨entry,frame,peerIp,now⟩ := c
  cases entry with
  | first =>
    cases frame with
    | clientHelloOneRtt suiteId pk =>
      simp only [serverCall,serverOnFirst]
      cases checkSuite suiteId <;> rfl
    | clientHelloZeroRtt suiteId pk payload =>
      cases hs : SuiteId.fromCode suiteId with
      | none => simp [serverCall,serverOnFirst,checkSuite,hs]
      | some id => simp [Call.flight,hs] at h
    | _ => rfl
  | clientData =>
    cases frame with
    | clientData pk payload => simp [Call.flight] at h
    | _ => rfl

theorem serverCall_some {strike : StrikeCache} {c : Call} {f : Flight} (h : c.flight = some f) :
    (serverCall S cfg strike c).1.session =
        (processPayload S cfg f.clientPk f.payload c.peerIp c.now strike).1.toOption.map
          (fun est => ⟨c,f,est⟩) ∧
      (serverCall S cfg strike c).2 =
        (processPayload S cfg f.clientPk f.payload c.peerIp c.now strike).2 := by
  obtain ⟨entry,frame,peerIp,now⟩ := c
  cases entry with
  | first =>
    cases frame with
    | clientHelloZeroRtt suiteId pk payload =>
      cases hs : SuiteId.fromCode suiteId with
      | none => simp [Call.flight,hs] at h
      | some id =>
        have hf : f = ⟨pk,payload⟩ := by simpa [Call.flight,hs] using h.symm
        subst hf
        simp only [serverCall,serverOnFirst,checkSuite,hs]
        rcases processPayload S cfg pk payload peerIp now strike with ⟨e | est,strike'⟩ <;>
          simp [Outcome.session,h,Except.map,Except.toOption,Reply.established]
    | _ => simp [Call.flight] at h
  | clientData =>
    cases frame with
    | clientData pk payload =>
      have hf : f = ⟨pk,payload⟩ := by simpa [Call.flight] using h.symm
      subst hf
      simp only [serverCall,serverOnClientData]
      rcases processPayload S cfg pk payload peerIp now strike with ⟨e | est,strike'⟩ <;>
        simp [Outcome.session,h,Except.map,Except.toOption,Reply.established]
    | _ => simp [Call.flight] at h

theorem serverCall_cases (strike : StrikeCache) (c : Call) :
    ((serverCall S cfg strike c).1.session = none ∧
      Touched strike c.now (serverCall S cfg strike c).2) ∨
    (∃ s, (serverCall S cfg strike c).1.session = some s ∧ s.call = c ∧ Vouched S cfg s ∧
      strike.checkAndInsert (s.flight.tag S) c.now = (.ok (),(serverCall S cfg strike c).2)) := by
  cases hf : c.flight with
  | none =>
    obtain ⟨hs,hc⟩ := @serverCall_none S cfg strike c hf
    exact Or.inl ⟨hs,hc.symm ▸ .untouched⟩
  | some f =>
    obtain ⟨hs,hc⟩ := @serverCall_some S cfg strike c f hf
    rcases processPayload_cases S cfg f.clientPk f.payload c.peerIp c.now strike with
      ⟨e,strike',hp,ht⟩ | ⟨est,strike',hp,ha,hins,he⟩
    · rw [hp] at hs hc
      exact Or.inl ⟨hs,hc.symm ▸ ht⟩
    · rw [hp] at hs hc
      exact Or.inr ⟨⟨c,f,est⟩,hs,rfl,⟨hf,ha,he⟩,hc.symm ▸ hins⟩

theorem serverCall_establishes {strike : StrikeCache} {c : Call} {f : Flight}
    {est : ServerEstablished} (hf : c.flight = some f) (ha : admits S cfg c f)
    (hfresh : ¬ strike.LiveEntry (f.tag S) c.now) (he : establish S cfg f.payload = .ok est) :
    (serverCall S cfg strike c).1.session = some ⟨c,f,est⟩ ∧
      (serverCall S cfg strike c).2 = (strike.checkAndInsert (f.tag S) c.now).2 := by
  obtain ⟨hs,hc⟩ := @serverCall_some S cfg strike c f hf
  rw [processPayload_of_checks S cfg ha hfresh he] at hs hc
  exact ⟨hs,hc⟩

theorem serverCall_session_iff (strike : StrikeCache) (c : Call) (s : Session) :
    (serverCall S cfg strike c).1.session = some s ↔
      s.call = c ∧ Vouched S cfg s ∧ ¬ strike.LiveEntry (s.flight.tag S) c.now := by
  constructor
  · intro hs
    rcases serverCall_cases S cfg strike c with ⟨hnone,_⟩ | ⟨t,ht,hcall,hv,hc⟩
    · rw [hs] at hnone
      cases hnone
    · obtain rfl : t = s := Option.some.inj (ht.symm.trans hs)
      refine ⟨hcall,hv,fun hlive => ?_⟩
      rw [StrikeCache.checkAndInsert_live hlive] at hc
      cases hc
  · rintro ⟨rfl,hv,hfresh⟩
    exact (serverCall_establishes S cfg hv.flight hv.admitted hfresh hv.opened).1

theorem touched_refines {strike strike' : StrikeCache} {now : UInt64} {log : Log (Arr 32)}
    (ht : Touched strike now strike') (h : strike.Refines log) (hle : strike.lastEvict ≤ now) :
    strike'.windowMs = strike.windowMs ∧
      (strike'.lastEvict = strike.lastEvict ∨ strike'.lastEvict = now) ∧
      ∃ log', strike'.Refines log' ∧ log ⊆ log' := by
  cases ht with
  | untouched => exact ⟨rfl,Or.inl rfl,log,h,List.Subset.refl log⟩
  | checked tag =>
    refine ⟨by simp,Or.inr (by simp),?_⟩
    rcases StrikeCache.checkAndInsert_cases h tag hle with ⟨_,_,hr⟩ | ⟨_,_,hr⟩
    · exact ⟨log,hr,List.Subset.refl log⟩
    · exact ⟨_,hr,List.subset_cons_self _ _⟩

structure RunInv (calls : List Call) (os : List Outcome) (strike : StrikeCache) : Prop where
  window : strike.windowMs = cfg.windowMs
  evicted : strike.lastEvict = 0 ∨ ∃ c ∈ calls, strike.lastEvict = c.now
  vouched : ∀ s ∈ sessions os, Vouched S cfg s
  ordered : ((sessions os).map Session.call).Sublist calls
  logged : ∃ log, strike.Refines log ∧
    ∀ s ∈ sessions os, (s.flight.tag S,s.call.now.toNat) ∈ log
  separated : (sessions os).Pairwise fun a b => a.flight.tag S = b.flight.tag S →
    a.call.now.toNat + cfg.windowMs.toNat < b.call.now.toNat

theorem runInv_new : RunInv S cfg [] [] (StrikeCache.new cfg.windowMs) where
  window := rfl
  evicted := Or.inl rfl
  vouched := by simp [sessions]
  ordered := by simp [sessions]
  logged := ⟨[],StrikeCache.refines_new _,by simp [sessions]⟩
  separated := by simp [sessions]

theorem sessions_snoc (os : List Outcome) (o : Outcome) :
    sessions (os ++ [o]) = sessions os ++ o.session.toList := by
  simp only [sessions,List.filterMap_append]
  cases h : o.session <;> simp [h]

section Step
variable {S cfg}
variable {calls : List Call} {os : List Outcome} {o : Outcome} {strike strike' : StrikeCache}
variable {c : Call}

theorem lastEvict_le (h : RunInv S cfg calls os strike) (hnow : ∀ b ∈ calls, b.now ≤ c.now) :
    strike.lastEvict ≤ c.now := by
  rcases h.evicted with h0 | ⟨b,hb,hn⟩
  · rw [h0]
    exact UInt64.zero_le
  · rw [hn]
    exact hnow b hb

theorem evicted_snoc (h : RunInv S cfg calls os strike) {t : UInt64}
    (ht : t = strike.lastEvict ∨ t = c.now) : t = 0 ∨ ∃ b ∈ calls ++ [c], t = b.now := by
  rcases ht with rfl | rfl
  · rcases h.evicted with h0 | ⟨b,hb,hn⟩
    · exact Or.inl h0
    · exact Or.inr ⟨b,List.mem_append_left _ hb,hn⟩
  · exact Or.inr ⟨c,by simp,rfl⟩

theorem runInv_touched (h : RunInv S cfg calls os strike) (hle : strike.lastEvict ≤ c.now)
    (hnone : o.session = none) (ht : Touched strike c.now strike') :
    RunInv S cfg (calls ++ [c]) (os ++ [o]) strike' := by
  obtain ⟨log,hlog,hmem⟩ := h.logged
  obtain ⟨hw,he,log',hlog',hsub⟩ := touched_refines ht hlog hle
  have hsess : sessions (os ++ [o]) = sessions os := by
    simp [sessions_snoc,hnone]
  refine ⟨hw.trans h.window,evicted_snoc h he,?_,?_,⟨log',hlog',?_⟩,?_⟩ <;> rw [hsess]
  · exact h.vouched
  · exact h.ordered.trans (List.sublist_append_left _ _)
  · exact fun s hs => hsub (hmem s hs)
  · exact h.separated

theorem runInv_established (h : RunInv S cfg calls os strike) (hle : strike.lastEvict ≤ c.now)
    {s : Session} (hsome : o.session = some s) (hcall : s.call = c) (hv : Vouched S cfg s)
    (hc : strike.checkAndInsert (s.flight.tag S) c.now = (.ok (),strike')) :
    RunInv S cfg (calls ++ [c]) (os ++ [o]) strike' := by
  obtain ⟨log,hlog,hmem⟩ := h.logged
  have hsess : sessions (os ++ [o]) = sessions os ++ [s] := by
    simp [sessions_snoc,hsome]
  have hcache := StrikeCache.checkAndInsert_cases hlog (s.flight.tag S) hle
  have hwin := StrikeCache.windowMs_checkAndInsert strike (s.flight.tag S) c.now
  have hlast := StrikeCache.lastEvict_checkAndInsert strike (s.flight.tag S) c.now
  rw [hc] at hcache hwin hlast
  rcases hcache with ⟨_,habsurd,_⟩ | ⟨hfresh,_,hr⟩
  · cases habsurd
  rw [h.window] at hfresh
  refine ⟨hwin.trans h.window,evicted_snoc h (Or.inr hlast),?_,?_,⟨_,hr,?_⟩,?_⟩ <;> rw [hsess]
  · intro t ht
    rcases List.mem_append.mp ht with ht | ht
    · exact h.vouched t ht
    · rw [List.mem_singleton.mp ht]
      exact hv
  · rw [List.map_append,List.map_singleton,hcall]
    exact h.ordered.append (List.Sublist.refl [c])
  · intro t ht
    rcases List.mem_append.mp ht with ht | ht
    · exact List.mem_cons_of_mem _ (hmem t ht)
    · rw [List.mem_singleton.mp ht,hcall]
      exact List.mem_cons_self
  · refine List.pairwise_append.mpr ⟨h.separated,List.pairwise_singleton _ _,?_⟩
    intro a ha b hb heq
    rw [List.mem_singleton.mp hb] at heq ⊢
    rw [hcall]
    by_contra hlt
    exact hfresh ⟨a.call.now.toNat,heq ▸ hmem a ha,Nat.le_of_not_lt hlt⟩

theorem runInv_step (h : RunInv S cfg calls os strike) (hnow : ∀ b ∈ calls, b.now ≤ c.now) :
    RunInv S cfg (calls ++ [c]) (os ++ [(serverCall S cfg strike c).1])
      (serverCall S cfg strike c).2 := by
  have hle := lastEvict_le h hnow
  rcases serverCall_cases S cfg strike c with ⟨hnone,ht⟩ | ⟨s,hsome,hcall,hv,hc⟩
  · exact runInv_touched h hle hnone ht
  · exact runInv_established h hle hsome hcall hv hc

end Step

theorem runInv_serve {calls : List Call} (hclock : ClockOk calls) :
    RunInv S cfg calls (serve S cfg calls).1 (serve S cfg calls).2 := by
  refine Machine.run_induction (serverCall S cfg)
    (P := fun calls os strike => ClockOk calls → RunInv S cfg calls os strike)
    (fun _ => runInv_new S cfg) ?_ calls hclock
  intro calls os strike c ih hok
  obtain ⟨hbefore,-,hnow⟩ := List.pairwise_append.mp hok
  exact runInv_step (ih hbefore) fun b hb => hnow b hb c (by simp)

theorem established_pair {a b : Call} {f g : Flight} {ea eb : ServerEstablished}
    (hf : a.flight = some f) (hg : b.flight = some g) (ha : admits S cfg a f)
    (hb : admits S cfg b g) (hea : establish S cfg f.payload = .ok ea)
    (heb : establish S cfg g.payload = .ok eb) (htag : g.tag S = f.tag S)
    (hlate : a.now.toNat + cfg.windowMs.toNat < b.now.toNat) :
    established S cfg [a,b] = [⟨a,f,ea⟩,⟨b,g,eb⟩] := by
  have hnew := StrikeCache.not_liveEntry_new cfg.windowMs (f.tag S) a.now
  obtain ⟨hs,hc⟩ := serverCall_establishes S cfg hf ha hnew hea
  have hstale : ¬ (serverCall S cfg (StrikeCache.new cfg.windowMs) a).2.LiveEntry (g.tag S) b.now := by
    have hle : a.now ≤ b.now := UInt64.le_iff_toNat_le.mpr (by omega)
    rw [hc,htag,StrikeCache.liveEntry_checkAndInsert hle]
    rintro (hlive | ⟨_,_,hlive⟩)
    · exact StrikeCache.not_liveEntry_new cfg.windowMs (f.tag S) b.now hlive
    · exact absurd hlate (Nat.not_lt.mpr hlive)
  obtain ⟨hs',-⟩ := serverCall_establishes S cfg hg hb hstale heb
  simp [established,serve,Machine.run,sessions,hs,hs']

end Run

end OrtTunnel.Core
