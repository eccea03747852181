import OrtTunnel.Core.Handshake.Exposure
import OrtTunnel.Core.Handshake.KeyUniqueness

namespace OrtTunnel.Core
open BigEndian Proto

section Shadow
variable (S : CipherSuite) (cfg : ServerConfig S)

-- The tag goes into the cache before the flight is decapsulated and opened, so a flight that only
-- fails there keeps out any other flight with its tag.
def Shadows (strike : StrikeCache) (x y : Call) : Prop :=
  ∃ f g e, x.flight = some f ∧ admits S cfg x f ∧ ¬ strike.LiveEntry (f.tag S) x.now ∧
    establish S cfg f.payload = .error e ∧ Acceptable S cfg y g ∧ f.tag S = g.tag S ∧
    y.now.toNat ≤ x.now.toNat + strike.windowMs.toNat

variable {S cfg}
variable {strike : StrikeCache} {x y : Call}

theorem liveEntry_serverCall (hle : x.now ≤ y.now) (tag : Arr 32) :
    (serverCall S cfg strike x).2.LiveEntry tag y.now ↔ strike.LiveEntry tag y.now ∨
      ∃ f, x.flight = some f ∧ f.tag S = tag ∧ admits S cfg x f ∧
        ¬ strike.LiveEntry (f.tag S) x.now ∧
        y.now.toNat ≤ x.now.toNat + strike.windowMs.toNat := by
  cases hf : x.flight with
  | none =>
    rw [(serverCall_none S cfg hf).2]
    simp
  | some f =>
    rw [serverCall_strike hf]
    cases hp : precheck S cfg f.clientPk f.payload x.peerIp x.now with
    | error e => simp [admits,hp]
    | ok _ =>
      rw [StrikeCache.liveEntry_checkAndInsert hle]
      simp only [admits,hp,Option.some.injEq,exists_eq_left',true_and]
      rw [eq_comm]

theorem establish_of_rejected {f : Flight} {e : Error}
    (hx : (serverCall S cfg strike x).1.result = .error e) (hf : x.flight = some f)
    (ha : admits S cfg x f) (hfresh : ¬ strike.LiveEntry (f.tag S) x.now) :
    ∃ e', establish S cfg f.payload = .error e' := by
  cases hest : establish S cfg f.payload with
  | error e' => exact ⟨e',rfl⟩
  | ok est =>
    have hs := (serverCall_establishes S cfg hf ha hfresh hest).1
    unfold Outcome.session at hs
    rw [hx] at hs
    split at hs
    · cases ‹Except.error e = _›
    · cases hs

theorem not_liveEntry_later {tag : Arr 32} (hle : x.now ≤ y.now)
    (h : ¬ strike.LiveEntry tag x.now) : ¬ strike.LiveEntry tag y.now := by
  have hnat : x.now.toNat ≤ y.now.toNat := UInt64.le_iff_toNat_le.mp hle
  rintro ⟨seen,hseen,hlive⟩
  exact h ⟨seen,hseen,hnat.trans hlive⟩

end Shadow

theorem rejected_invisible_iff (S : CipherSuite) (cfg : ServerConfig S) (strike : StrikeCache)
    (x y : Call) (e : Error) (hx : (serverCall S cfg strike x).1.result = .error e)
    (hle : x.now ≤ y.now) :
    (serverCall S cfg (serverCall S cfg strike x).2 y).1.session =
      (serverCall S cfg strike y).1.session ↔ ¬ Shadows S cfg strike x y := by
  constructor
  · rintro heq ⟨f,g,_,hf,ha,hfresh,_,hacc,htag,hnear⟩
    obtain ⟨est,hest⟩ := hacc.opens
    have hv : Vouched S cfg ⟨y,g,est⟩ := ⟨hacc.flight,hacc.admitted,hest⟩
    have hwithout : (serverCall S cfg strike y).1.session = some ⟨y,g,est⟩ :=
      (serverCall_session_iff S cfg strike y _).mpr
        ⟨rfl,hv,htag ▸ not_liveEntry_later hle hfresh⟩
    rw [hwithout,serverCall_session_iff] at heq
    exact heq.2.2 ((liveEntry_serverCall hle _).mpr (Or.inr ⟨f,hf,htag,ha,hfresh,hnear⟩))
  · intro hno
    ext s
    rw [serverCall_session_iff,serverCall_session_iff,liveEntry_serverCall hle]
    constructor
    · rintro ⟨hcall,hv,hfresh⟩
      exact ⟨hcall,hv,fun hlive => hfresh (Or.inl hlive)⟩
    · rintro ⟨rfl,hv,hfresh⟩
      refine ⟨rfl,hv,?_⟩
      rintro (hlive | ⟨f,hf,htag,ha,hnew,hnear⟩)
      · exact hfresh hlive
      · obtain ⟨e',he'⟩ := establish_of_rejected hx hf ha hnew
        exact hno ⟨f,s.flight,e',hf,ha,hnew,he',hv.acceptable,htag,hnear⟩

def shadowCalls (later : UInt64) : Call × Call :=
  match plainHello 1 3 (fill 16 9) 1000 with
  | .ok (.clientHelloZeroRtt suiteId clientPk p,_) =>
    (⟨.first,.clientHelloZeroRtt suiteId (plainClient 2).clientPk
        (resign plainSuite (plainClient 2) { p with ciphertext := (fill 32 5).val } (fill 16 8) 1000),
        fill 16 8,1000⟩,
      ⟨.first,.clientHelloZeroRtt suiteId clientPk p,fill 16 9,later⟩)
  | _ => (⟨.first,.close,fill 16 8,1000⟩,⟨.first,.close,fill 16 9,later⟩)

theorem rejected_invisible_late :
    (serverCall plainSuite (plainServer 2000 0) (serverCall plainSuite (plainServer 2000 0)
      (StrikeCache.new 2000) (shadowCalls 3001).1).2 (shadowCalls 3001).2).1.session =
    (serverCall plainSuite (plainServer 2000 0) (StrikeCache.new 2000)
      (shadowCalls 3001).2).1.session := by
  refine (rejected_invisible_iff plainSuite (plainServer 2000 0) (StrikeCache.new 2000)
    (shadowCalls 3001).1 (shadowCalls 3001).2 .aeadFailure (by decide +kernel)
    (by decide +kernel)).mpr ?_
  rintro ⟨f,g,e,-,-,-,-,-,-,hnear⟩
  exact absurd hnear (by decide +kernel)

theorem rejected_flight_shadows :
    (shadowCalls 1001).1.flight ≠ (shadowCalls 1001).2.flight ∧
    (shadowCalls 1001).1.now ≤ (shadowCalls 1001).2.now ∧
    (serverCall plainSuite (plainServer 2000 0) (StrikeCache.new 2000)
      (shadowCalls 1001).1).1.result = .error .aeadFailure ∧
    (serverCall plainSuite (plainServer 2000 0) (serverCall plainSuite (plainServer 2000 0)
      (StrikeCache.new 2000) (shadowCalls 1001).1).2 (shadowCalls 1001).2).1.session = none ∧
    (serverCall plainSuite (plainServer 2000 0) (StrikeCache.new 2000)
      (shadowCalls 1001).2).1.session ≠ none := by
  decide +kernel

end OrtTunnel.Core
