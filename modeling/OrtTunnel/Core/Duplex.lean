import OrtTunnel.Core.Record
import OrtTunnel.Core.PlainSuite
import OrtTunnel.Library.Machine

namespace OrtTunnel.Core
open BigEndian

structure Duplex where
  client : RecordLayer
  server : RecordLayer

structure SealCall where
  dir : Direction
  drawn : Hasher
  aad : Bytes
  pt : Bytes
  ct : Bytes

structure OpenCall where
  dir : Direction
  drawn : Hasher
  aad : Bytes
  ct : Bytes
  result : Except Error Bytes

inductive Observation where
  | sealed (c : SealCall)
  | opened (c : OpenCall)

namespace Duplex

def new (keys : SessionKeys) (nonce : Arr 32) : Duplex :=
  ⟨RecordLayer.new keys nonce,RecordLayer.new keys nonce⟩

def sender (s : Duplex) : Direction → RecordLayer
  | .clientToServer => s.client
  | .serverToClient => s.server

def setSender (s : Duplex) (d : Direction) (r : RecordLayer) : Duplex :=
  match d with
  | .clientToServer => { s with client := r }
  | .serverToClient => { s with server := r }

def receiver (s : Duplex) (d : Direction) : RecordLayer := s.sender d.flip

def setReceiver (s : Duplex) (d : Direction) (r : RecordLayer) : Duplex := s.setSender d.flip r

def step (S : CipherSuite) (s : Duplex) : RecordCall → Observation × Duplex
  | .seals d pt =>
    let r := s.sender d
    let (ct,r') := r.seal S d pt
    (.sealed ⟨d,(r.pool.dir d).drawn,recordAad d (r.pool.counter d),pt,ct⟩,s.setSender d r')
  | .opens d ct =>
    let r := s.receiver d
    let (result,r') := r.open S d ct
    (.opened ⟨d,(r.pool.dir d).drawn,recordAad d (r.pool.counter d),ct,result⟩,
      s.setReceiver d r')

def observe (S : CipherSuite) (s : Duplex) (es : List RecordCall) : List Observation :=
  (Machine.run (step S) s es).1

end Duplex

def sealCalls (d : Direction) (obs : List Observation) : List SealCall :=
  obs.filterMap fun
    | .sealed c => if c.dir = d then some c else none
    | .opened _ => none

def openCalls (d : Direction) (obs : List Observation) : List OpenCall :=
  obs.filterMap fun
    | .sealed _ => none
    | .opened c => if c.dir = d then some c else none

def sealedIn (d : Direction) (obs : List Observation) : List Bytes := (sealCalls d obs).map (·.pt)

def resultsIn (d : Direction) (obs : List Observation) : List (Except Error Bytes) :=
  (openCalls d obs).map (·.result)

def deliveredIn (d : Direction) (obs : List Observation) : List Bytes :=
  (resultsIn d obs).filterMap Except.toOption

def Observation.drawn : Observation → Hasher
  | .sealed c => c.drawn
  | .opened c => c.drawn

-- The nonce input and the AAD in the log are those of the AEAD call itself.
def Observation.Recorded (S : CipherSuite) (key : Arr 32) : Observation → Prop
  | .sealed c => c.ct = S.aeadSeal key (c.drawn.finalizeXof S) c.aad c.pt
  | .opened c => c.result = S.aeadOpen key (c.drawn.finalizeXof S) c.aad c.ct

def NoXofCollision (S : CipherSuite) (hs : List Hasher) : Prop :=
  ∀ h ∈ hs, ∀ k ∈ hs, h.finalizeXof S = k.finalizeXof S → h = k

def IdealAead (S : CipherSuite) (obs : List Observation) : Prop :=
  ∀ (before after : List Observation) (c : OpenCall) (pt : Bytes),
    obs = before ++ .opened c :: after → c.result = .ok pt →
    ∃ b, .sealed b ∈ before ∧ b.drawn.finalizeXof S = c.drawn.finalizeXof S ∧
      b.aad = c.aad ∧ b.ct = c.ct ∧ b.pt = pt

def FailClosed (rs : List (Except Error Bytes)) : Prop :=
  rs.Pairwise fun earlier later => (∃ e, earlier = .error e) → ∃ e, later = .error e

namespace Duplex
variable (S : CipherSuite) (s : Duplex)

def tx (d : Direction) : DirPool := (s.sender d).pool.dir d

def rx (d : Direction) : DirPool := (s.receiver d).pool.dir d

def encKey (d : Direction) : Arr 32 := (s.sender d).keys.encKey

@[simp] theorem sender_setSender (d : Direction) (r : RecordLayer) :
    (s.setSender d r).sender d = r := by cases d <;> rfl

@[simp] theorem sender_setSender_flip (d : Direction) (r : RecordLayer) :
    (s.setSender d r).sender d.flip = s.sender d.flip := by cases d <;> rfl

@[simp] theorem sender_flip_setSender (d : Direction) (r : RecordLayer) :
    (s.setSender d.flip r).sender d = s.sender d := by cases d <;> rfl

theorem tx_seals (d : Direction) (pt : Bytes) :
    (step S s (.seals d pt)).2.tx d = ((s.tx d).sealOne S (s.encKey d) d pt).2 := by
  simp [step,tx,encKey,RecordLayer.seal_eq]

theorem rx_seals (d : Direction) (pt : Bytes) : (step S s (.seals d pt)).2.rx d = s.rx d := by
  simp [step,rx,receiver]

theorem tx_flip_seals (d : Direction) (pt : Bytes) :
    (step S s (.seals d.flip pt)).2.tx d = s.tx d := by
  simp [step,tx]

theorem rx_flip_seals (d : Direction) (pt : Bytes) :
    (step S s (.seals d.flip pt)).2.rx d = s.rx d := by
  simp [step,rx,receiver,RecordLayer.seal_eq]

theorem tx_opens (d : Direction) (ct : Bytes) :
    (step S s (.opens d ct)).2.tx d = s.tx d := by
  simp [step,tx,setReceiver]

theorem rx_opens (d : Direction) (ct : Bytes) :
    (step S s (.opens d ct)).2.rx d = ((s.rx d).openOne S (s.encKey d.flip) d ct).2 := by
  simp [step,rx,encKey,receiver,setReceiver,RecordLayer.open_eq]

theorem tx_flip_opens (d : Direction) (ct : Bytes) :
    (step S s (.opens d.flip ct)).2.tx d = s.tx d := by
  simp [step,tx,receiver,setReceiver,RecordLayer.open_eq]

theorem rx_flip_opens (d : Direction) (ct : Bytes) :
    (step S s (.opens d.flip ct)).2.rx d = s.rx d := by
  simp [step,rx,receiver,setReceiver]

theorem encKey_step (e : RecordCall) (d : Direction) : (step S s e).2.encKey d = s.encKey d := by
  cases e with
  | seals f pt =>
    rcases Direction.eq_or_flip f d with rfl | rfl <;> simp [step,encKey]
  | opens f ct =>
    rcases Direction.eq_or_flip f d with rfl | rfl <;> simp [step,encKey,receiver,setReceiver]

theorem step_seals (d : Direction) (pt : Bytes) :
    (step S s (.seals d pt)).1 = .sealed ⟨d,(s.tx d).drawn,recordAad d (s.tx d).counter,pt,
      ((s.tx d).sealOne S (s.encKey d) d pt).1⟩ := by
  simp [step,tx,encKey,RecordLayer.seal_eq,EntropyPool.counter_eq]

theorem step_opens (d : Direction) (ct : Bytes) :
    (step S s (.opens d ct)).1 = .opened ⟨d,(s.rx d).drawn,recordAad d (s.rx d).counter,ct,
      ((s.rx d).openOne S (s.encKey d.flip) d ct).1⟩ := by
  simp [step,rx,encKey,receiver,RecordLayer.open_eq,EntropyPool.counter_eq]

theorem recorded_step (e : RecordCall) {key : Arr 32} (hkey : ∀ d, s.encKey d = key) :
    (step S s e).1.Recorded S key := by
  cases e with
  | seals d pt =>
    rw [step_seals,hkey]
    rfl
  | opens d ct =>
    rw [step_opens,hkey]
    exact DirPool.openOne_result S key d (s.rx d) ct

theorem recorded_observe (keys : SessionKeys) (nonce : Arr 32) (es : List RecordCall) :
    ∀ o ∈ (Duplex.new keys nonce).observe S es, o.Recorded S keys.encKey := by
  refine (Machine.run_induction (Duplex.step S) (s := Duplex.new keys nonce)
    (P := fun _ obs s => (∀ d, s.encKey d = keys.encKey) ∧ ∀ o ∈ obs, o.Recorded S keys.encKey)
    ?_ ?_ es).2
  · refine ⟨?_,by simp⟩
    intro d
    cases d <;> rfl
  · rintro _ obs s e ⟨hkey,hall⟩
    refine ⟨fun d => by rw [encKey_step,hkey],?_⟩
    intro o ho
    rcases List.mem_append.mp ho with ho | ho
    · exact hall o ho
    · obtain rfl := List.mem_singleton.mp ho
      exact recorded_step S s e hkey

end Duplex

section Logs
variable (d : Direction) (obs : List Observation)

@[simp] theorem sealCalls_sealed (c : SealCall) :
    sealCalls d (obs ++ [.sealed c]) = sealCalls d obs ++ if c.dir = d then [c] else [] := by
  by_cases h : c.dir = d <;> simp [sealCalls,List.filterMap_append,h]

@[simp] theorem sealCalls_opened (c : OpenCall) :
    sealCalls d (obs ++ [.opened c]) = sealCalls d obs := by
  simp [sealCalls,List.filterMap_append]

@[simp] theorem openCalls_sealed (c : SealCall) :
    openCalls d (obs ++ [.sealed c]) = openCalls d obs := by
  simp [openCalls,List.filterMap_append]

@[simp] theorem openCalls_opened (c : OpenCall) :
    openCalls d (obs ++ [.opened c]) = openCalls d obs ++ if c.dir = d then [c] else [] := by
  by_cases h : c.dir = d <;> simp [openCalls,List.filterMap_append,h]

theorem mem_sealCalls {d : Direction} {obs : List Observation} {c : SealCall}
    (h : .sealed c ∈ obs) (hd : c.dir = d) : c ∈ sealCalls d obs :=
  List.mem_filterMap.mpr ⟨_,h,by simp [hd]⟩

end Logs

section Chain
variable (key : Arr 32) (base : Bytes) (d : Direction)

-- Newest call first, so that the recursion follows the order in which a pool absorbs.
def history : List SealCall → Bytes
  | [] => base
  | c :: cs => history cs ++ (absorbLabel ++ c.ct)

def Chained : List SealCall → Prop
  | [] => True
  | c :: cs => c.drawn = ⟨key,history base cs ++ toBe 8 (UInt64.ofNat cs.length).toNat⟩ ∧
      c.aad = recordAad d (UInt64.ofNat cs.length) ∧ Chained cs

theorem length_history_suffix {cs ds : List SealCall} (h : cs <:+ ds) :
    (history base cs).length + 13 * ds.length ≤ (history base ds).length + 13 * cs.length := by
  obtain ⟨es,rfl⟩ := h
  induction es with
  | nil => simp
  | cons e es ih =>
    have hl : absorbLabel.length = 13 := by decide
    simp only [List.cons_append,history,List.length_append,List.length_cons,hl] at ih ⊢
    omega

theorem history_inj {cs ds es : List SealCall} (hc : cs <:+ es) (hd : ds <:+ es)
    (h : (history base cs).length = (history base ds).length) : cs = ds := by
  rcases List.suffix_or_suffix_of_suffix hc hd with hs | hs
  · have hl := length_history_suffix base hs
    exact hs.eq_of_length_le (by omega)
  · have hl := length_history_suffix base hs
    exact (hs.eq_of_length_le (by omega)).symm

theorem chained_mem {cs : List SealCall} (h : Chained key base d cs) {c : SealCall} (hc : c ∈ cs) :
    ∃ older newer, cs = newer ++ c :: older ∧
      c.drawn = ⟨key,history base older ++ toBe 8 (UInt64.ofNat older.length).toNat⟩ ∧
      c.aad = recordAad d (UInt64.ofNat older.length) := by
  induction cs with
  | nil => simp at hc
  | cons x xs ih =>
    obtain ⟨hx,ha,hxs⟩ := h
    rcases List.mem_cons.mp hc with rfl | hm
    · exact ⟨xs,[],rfl,hx,ha⟩
    · obtain ⟨older,newer,rfl,hdrawn,haad⟩ := ih hxs hm
      exact ⟨older,x :: newer,rfl,hdrawn,haad⟩

end Chain

theorem all_ok_of_length {rs : List (Except Error Bytes)}
    (h : (rs.filterMap Except.toOption).length = rs.length) : ∀ r ∈ rs, ∃ a, r = .ok a := by
  induction rs with
  | nil => simp
  | cons x xs ih =>
    have hle := List.length_filterMap_le Except.toOption xs
    cases x with
    | error e =>
      simp only [List.filterMap_cons,Except.toOption,List.length_cons] at h hle
      omega
    | ok a =>
      simp only [List.filterMap_cons,Except.toOption,List.length_cons,Nat.add_right_cancel_iff] at h
      intro r hr
      rcases List.mem_cons.mp hr with rfl | hr
      · exact ⟨a,rfl⟩
      · exact ih h r hr

theorem failClosed_snoc_error {rs : List (Except Error Bytes)} (h : FailClosed rs) (e : Error) :
    FailClosed (rs ++ [.error e]) := by
  refine List.pairwise_append.mpr ⟨h,List.pairwise_singleton _ _,?_⟩
  intro a _ b hb _
  exact ⟨e,List.mem_singleton.mp hb⟩

theorem failClosed_snoc_ok {rs : List (Except Error Bytes)} (h : FailClosed rs)
    (hok : ∀ r ∈ rs, ∃ a, r = .ok a) (pt : Bytes) : FailClosed (rs ++ [.ok pt]) := by
  refine List.pairwise_append.mpr ⟨h,List.pairwise_singleton _ _,?_⟩
  rintro a ha b _ ⟨e,rfl⟩
  obtain ⟨pt',hpt⟩ := hok _ ha
  cases hpt

theorem NoXofCollision.mono {S : CipherSuite} {hs ks : List Hasher} (h : NoXofCollision S ks)
    (hsub : hs ⊆ ks) : NoXofCollision S hs :=
  fun a ha b hb => h a (hsub ha) b (hsub hb)

theorem IdealAead.of_append {S : CipherSuite} {obs more : List Observation}
    (h : IdealAead S (obs ++ more)) : IdealAead S obs := by
  intro before after c pt he
  exact h before (after ++ more) c pt (by simp [he])

def genuine (S : CipherSuite) (seen : List Observation) : Observation → Bool
  | .sealed _ => true
  | .opened c =>
    match c.result with
    | .error _ => true
    | .ok pt => seen.any fun
      | .sealed b => decide (b.drawn.finalizeXof S = c.drawn.finalizeXof S ∧ b.aad = c.aad ∧
          b.ct = c.ct ∧ b.pt = pt)
      | .opened _ => false

def idealCheck (S : CipherSuite) (seen : List Observation) : List Observation → Bool
  | [] => true
  | o :: rest => genuine S seen o && idealCheck S (seen ++ [o]) rest

theorem genuine_sound {S : CipherSuite} {seen : List Observation} {c : OpenCall} {pt : Bytes}
    (h : genuine S seen (.opened c) = true) (hres : c.result = .ok pt) :
    ∃ b, .sealed b ∈ seen ∧ b.drawn.finalizeXof S = c.drawn.finalizeXof S ∧ b.aad = c.aad ∧
      b.ct = c.ct ∧ b.pt = pt := by
  simp only [genuine,hres] at h
  obtain ⟨o,ho,hcheck⟩ := List.any_eq_true.mp h
  cases o with
  | sealed b => exact ⟨b,ho,of_decide_eq_true hcheck⟩
  | opened _ => cases hcheck

theorem idealCheck_sound {S : CipherSuite} {seen obs : List Observation}
    (h : idealCheck S seen obs = true) {before after : List Observation} {c : OpenCall} {pt : Bytes}
    (hobs : obs = before ++ .opened c :: after) (hres : c.result = .ok pt) :
    ∃ b, .sealed b ∈ seen ++ before ∧ b.drawn.finalizeXof S = c.drawn.finalizeXof S ∧
      b.aad = c.aad ∧ b.ct = c.ct ∧ b.pt = pt := by
  induction obs generalizing seen before with
  | nil => simp at hobs
  | cons o rest ih =>
    obtain ⟨hfirst,hrest⟩ := Bool.and_eq_true_iff.mp h
    cases before with
    | nil =>
      obtain ⟨rfl,-⟩ := List.cons.inj hobs
      rw [List.append_nil]
      exact genuine_sound hfirst hres
    | cons o' before =>
      obtain ⟨rfl,htail⟩ := List.cons.inj hobs
      simpa using ih hrest htail

theorem idealAead_of_check {S : CipherSuite} {obs : List Observation}
    (h : idealCheck S [] obs = true) : IdealAead S obs := by
  intro before after c pt hobs hres
  simpa using idealCheck_sound h hobs hres

instance (S : CipherSuite) (hs : List Hasher) : Decidable (NoXofCollision S hs) :=
  inferInstanceAs (Decidable (∀ h ∈ hs, ∀ k ∈ hs, h.finalizeXof S = k.finalizeXof S → h = k))

structure Integrity (keys : SessionKeys) (nonce : Arr 32) (obs : List Observation) (s : Duplex)
    (d : Direction) : Prop where
  encKey : s.encKey d = keys.encKey
  tx : s.tx d = ⟨⟨keys.poolKey,history (d.label ++ nonce.val) (sealCalls d obs).reverse⟩,
    UInt64.ofNat (sealCalls d obs).length⟩
  chained : Chained keys.poolKey (d.label ++ nonce.val) d (sealCalls d obs).reverse
  rx : ∃ taken, taken <:+ (sealCalls d obs).reverse ∧
    (deliveredIn d obs).reverse = taken.map (·.pt) ∧
    s.rx d = ⟨⟨keys.poolKey,history (d.label ++ nonce.val) taken⟩,
      UInt64.ofNat (openCalls d obs).length⟩
  closed : (openCalls d obs).length ≤ 2 ^ 64 → FailClosed (resultsIn d obs)

section Steps
variable {S : CipherSuite} {keys : SessionKeys} {nonce : Arr 32} {obs : List Observation}
variable {s : Duplex} {d : Direction}

theorem integrity_init (keys : SessionKeys) (nonce : Arr 32) (d : Direction) :
    Integrity keys nonce [] (Duplex.new keys nonce) d := by
  have hl : ∀ e, (Duplex.new keys nonce).sender e = RecordLayer.new keys nonce := by
    intro e
    cases e <;> rfl
  refine ⟨by rw [Duplex.encKey,hl]; rfl,?_,trivial,⟨[],List.suffix_rfl,rfl,?_⟩,?_⟩
  · rw [Duplex.tx,hl,RecordLayer.new,EntropyPool.dir_new]
    rfl
  · rw [Duplex.rx,Duplex.receiver,hl,RecordLayer.new,EntropyPool.dir_new]
    rfl
  · intro _
    exact List.Pairwise.nil

theorem integrity_seals (h : Integrity keys nonce obs s d) (pt : Bytes) :
    Integrity keys nonce (obs ++ [(Duplex.step S s (.seals d pt)).1])
      (Duplex.step S s (.seals d pt)).2 d := by
  obtain ⟨taken,hsuf,hdel,hrx⟩ := h.rx
  have hs : sealCalls d (obs ++ [(Duplex.step S s (.seals d pt)).1]) = sealCalls d obs ++
      [⟨d,(s.tx d).drawn,recordAad d (s.tx d).counter,pt,
        ((s.tx d).sealOne S (s.encKey d) d pt).1⟩] := by
    simp [Duplex.step_seals]
  have ho : openCalls d (obs ++ [(Duplex.step S s (.seals d pt)).1]) = openCalls d obs := by
    simp [Duplex.step_seals]
  have hr : resultsIn d (obs ++ [(Duplex.step S s (.seals d pt)).1]) = resultsIn d obs := by
    rw [resultsIn,ho,resultsIn]
  refine ⟨by rw [Duplex.encKey_step,h.encKey],?_,?_,⟨taken,?_,?_,?_⟩,?_⟩
  · rw [Duplex.tx_seals,hs,h.tx]
    simp [DirPool.sealOne,DirPool.nextNonce,DirPool.absorb,Hasher.update,history]
  · rw [hs,h.tx]
    simp only [List.reverse_append,List.reverse_singleton,List.singleton_append,Chained,
      List.length_reverse]
    exact ⟨rfl,trivial,h.chained⟩
  · rw [hs,List.reverse_append]
    exact hsuf.trans (List.suffix_append _ _)
  · rw [deliveredIn,hr]
    exact hdel
  · rw [Duplex.rx_seals,ho]
    exact hrx
  · rw [ho,hr]
    exact h.closed

theorem integrity_frame {e : RecordCall} (h : Integrity keys nonce obs s d)
    (he : (∃ pt, e = .seals d.flip pt) ∨ ∃ ct, e = .opens d.flip ct) :
    Integrity keys nonce (obs ++ [(Duplex.step S s e).1]) (Duplex.step S s e).2 d := by
  have hne := Direction.flip_ne d
  have hs : sealCalls d (obs ++ [(Duplex.step S s e).1]) = sealCalls d obs := by
    rcases he with ⟨pt,rfl⟩ | ⟨ct,rfl⟩ <;> simp [Duplex.step,hne]
  have ho : openCalls d (obs ++ [(Duplex.step S s e).1]) = openCalls d obs := by
    rcases he with ⟨pt,rfl⟩ | ⟨ct,rfl⟩ <;> simp [Duplex.step,hne]
  have htx : (Duplex.step S s e).2.tx d = s.tx d := by
    rcases he with ⟨pt,rfl⟩ | ⟨ct,rfl⟩
    · exact Duplex.tx_flip_seals S s d pt
    · exact Duplex.tx_flip_opens S s d ct
  have hrx : (Duplex.step S s e).2.rx d = s.rx d := by
    rcases he with ⟨pt,rfl⟩ | ⟨ct,rfl⟩
    · exact Duplex.rx_flip_seals S s d pt
    · exact Duplex.rx_flip_opens S s d ct
  exact ⟨by rw [Duplex.encKey_step,h.encKey],by rw [htx,hs,h.tx],by rw [hs]; exact h.chained,
    by rw [hs,deliveredIn,resultsIn,ho,hrx]; exact h.rx,by rw [ho,resultsIn,ho]; exact h.closed⟩

theorem openCalls_opens (S : CipherSuite) (s : Duplex) (obs : List Observation)
    (d : Direction) (ct : Bytes) :
    openCalls d (obs ++ [(Duplex.step S s (.opens d ct)).1]) = openCalls d obs ++
      [⟨d,(s.rx d).drawn,recordAad d (s.rx d).counter,ct,
        ((s.rx d).openOne S (s.encKey d.flip) d ct).1⟩] := by
  simp [Duplex.step_opens]

theorem sealCalls_opens (S : CipherSuite) (s : Duplex) (obs : List Observation)
    (d : Direction) (ct : Bytes) :
    sealCalls d (obs ++ [(Duplex.step S s (.opens d ct)).1]) = sealCalls d obs := by
  simp [Duplex.step_opens]

theorem openOne_error {key : Arr 32} {p : DirPool} {ct : Bytes} {e : Error}
    (h : (p.openOne S key d ct).1 = .error e) :
    (p.openOne S key d ct).2 = { p with counter := p.counter + 1 } := by
  unfold DirPool.openOne at h ⊢
  split at h
  · rfl
  · cases h

theorem openOne_ok {key : Arr 32} {p : DirPool} {ct pt : Bytes}
    (h : (p.openOne S key d ct).1 = .ok pt) :
    (p.openOne S key d ct).2 = { p with counter := p.counter + 1 }.absorb ct := by
  unfold DirPool.openOne at h ⊢
  split at h
  · cases h
  · rfl

theorem integrity_rejects (h : Integrity keys nonce obs s d) {ct : Bytes} {e : Error}
    (hres : ((s.rx d).openOne S (s.encKey d.flip) d ct).1 = .error e) :
    Integrity keys nonce (obs ++ [(Duplex.step S s (.opens d ct)).1])
      (Duplex.step S s (.opens d ct)).2 d := by
  obtain ⟨taken,hsuf,hdel,hrx⟩ := h.rx
  have hs := sealCalls_opens S s obs d ct
  have ho := openCalls_opens S s obs d ct
  have hr : resultsIn d (obs ++ [(Duplex.step S s (.opens d ct)).1]) =
      resultsIn d obs ++ [.error e] := by
    rw [resultsIn,ho,List.map_append,resultsIn]
    simp [hres]
  refine ⟨by rw [Duplex.encKey_step,h.encKey],?_,?_,⟨taken,?_,?_,?_⟩,?_⟩
  · rw [Duplex.tx_opens,hs,h.tx]
  · rw [hs]
    exact h.chained
  · rw [hs]
    exact hsuf
  · rw [← hdel,deliveredIn,hr,deliveredIn]
    simp [Except.toOption]
  · rw [Duplex.rx_opens,openOne_error hres,ho,hrx]
    simp
  · intro hn
    rw [ho,List.length_append] at hn
    rw [hr]
    exact failClosed_snoc_error (h.closed (by omega)) e

theorem accepted_is_next (h : ∀ e, Integrity keys nonce obs s e) {ct pt : Bytes}
    (hres : ((s.rx d).openOne S (s.encKey d.flip) d ct).1 = .ok pt)
    (hideal : IdealAead S (obs ++ [(Duplex.step S s (.opens d ct)).1]))
    (hxof : NoXofCollision S ((obs ++ [(Duplex.step S s (.opens d ct)).1]).map (·.drawn)))
    {taken : List SealCall} (hsuf : taken <:+ (sealCalls d obs).reverse)
    (hrx : s.rx d = ⟨⟨keys.poolKey,history (d.label ++ nonce.val) taken⟩,
      UInt64.ofNat (openCalls d obs).length⟩) :
    ∃ b, b :: taken <:+ (sealCalls d obs).reverse ∧ b.ct = ct ∧ b.pt = pt ∧
      UInt64.ofNat (openCalls d obs).length = UInt64.ofNat taken.length := by
  rw [Duplex.step_opens] at hideal hxof
  obtain ⟨b,hb,hnonce,haad,hct,hpt⟩ := hideal obs [] _ pt rfl hres
  have hdrawn : b.drawn = (s.rx d).drawn := by
    refine hxof _ ?_ _ ?_ hnonce
    · exact List.mem_map.mpr ⟨.sealed b,by simp [hb],rfl⟩
    · exact List.mem_map.mpr ⟨.opened _,List.mem_append_right _ (List.mem_singleton_self _),rfl⟩
  have hmem : b ∈ (sealCalls b.dir obs).reverse := List.mem_reverse.mpr (mem_sealCalls hb rfl)
  obtain ⟨older,newer,hcs,hold,holdAad⟩ := chained_mem _ _ _ (h b.dir).chained hmem
  obtain ⟨hdir,-⟩ := recordAad_inj (holdAad.symm.trans haad)
  rw [hdir] at hcs hold
  rw [hold,hrx] at hdrawn
  simp only [DirPool.drawn,Hasher.update,Hasher.mk.injEq,true_and] at hdrawn
  obtain ⟨hhist,hcnt⟩ := List.append_inj' hdrawn (by simp)
  have hsame : older = taken :=
    history_inj _ ⟨newer ++ [b],by simp [hcs]⟩ hsuf (congrArg List.length hhist)
  subst hsame
  refine ⟨b,⟨newer,hcs.symm⟩,hct,hpt,UInt64.toNat_inj.mp ?_⟩
  exact (toBe_inj (UInt64.toNat_lt _) (UInt64.toNat_lt _) hcnt).symm

theorem integrity_accepts (h : ∀ e, Integrity keys nonce obs s e) {ct pt : Bytes}
    (hres : ((s.rx d).openOne S (s.encKey d.flip) d ct).1 = .ok pt)
    (hideal : IdealAead S (obs ++ [(Duplex.step S s (.opens d ct)).1]))
    (hxof : NoXofCollision S ((obs ++ [(Duplex.step S s (.opens d ct)).1]).map (·.drawn))) :
    Integrity keys nonce (obs ++ [(Duplex.step S s (.opens d ct)).1])
      (Duplex.step S s (.opens d ct)).2 d := by
  obtain ⟨taken,hsuf,hdel,hrx⟩ := (h d).rx
  obtain ⟨b,hb,hct,hpt,hcount⟩ := accepted_is_next h hres hideal hxof hsuf hrx
  have hs := sealCalls_opens S s obs d ct
  have ho := openCalls_opens S s obs d ct
  have hr : resultsIn d (obs ++ [(Duplex.step S s (.opens d ct)).1]) =
      resultsIn d obs ++ [.ok pt] := by
    rw [resultsIn,ho,List.map_append,resultsIn]
    simp [hres]
  refine ⟨by rw [Duplex.encKey_step,(h d).encKey],?_,?_,⟨b :: taken,?_,?_,?_⟩,?_⟩
  · rw [Duplex.tx_opens,hs,(h d).tx]
  · rw [hs]
    exact (h d).chained
  · rw [hs]
    exact hb
  · rw [List.map_cons,← hdel,hpt,deliveredIn,hr,deliveredIn]
    simp [Except.toOption]
  · rw [Duplex.rx_opens,openOne_ok hres,ho,hrx,← hct]
    simp [DirPool.absorb,Hasher.update,history]
  · intro hn
    rw [ho,List.length_append,List.length_singleton] at hn
    rw [hr]
    have hlen : taken.length = ((resultsIn d obs).filterMap Except.toOption).length := by
      simpa [deliveredIn] using (congrArg List.length hdel).symm
    have hle := List.length_filterMap_le Except.toOption (resultsIn d obs)
    have hres' : (resultsIn d obs).length = (openCalls d obs).length := by simp [resultsIn]
    have hnat := congrArg UInt64.toNat hcount
    simp only [UInt64.toNat_ofNat'] at hnat
    refine failClosed_snoc_ok ((h d).closed (by omega)) (all_ok_of_length ?_) pt
    omega

theorem integrity_step (h : ∀ d, Integrity keys nonce obs s d) (e : RecordCall)
    (hideal : IdealAead S (obs ++ [(Duplex.step S s e).1]))
    (hxof : NoXofCollision S ((obs ++ [(Duplex.step S s e).1]).map (·.drawn))) (d : Direction) :
    Integrity keys nonce (obs ++ [(Duplex.step S s e).1]) (Duplex.step S s e).2 d := by
  cases e with
  | seals f pt =>
    rcases Direction.eq_or_flip d f with rfl | rfl
    · exact integrity_seals (h f) pt
    · exact integrity_frame (h d) (Or.inl ⟨pt,rfl⟩)
  | opens f ct =>
    rcases Direction.eq_or_flip d f with rfl | rfl
    · cases hres : ((s.rx f).openOne S (s.encKey f.flip) f ct).1 with
      | error err => exact integrity_rejects (h f) hres
      | ok pt => exact integrity_accepts h hres hideal hxof
    · exact integrity_frame (h d) (Or.inr ⟨ct,rfl⟩)

end Steps

theorem integrity_run {S : CipherSuite} (keys : SessionKeys) (nonce : Arr 32) (es : List RecordCall)
    (hideal : IdealAead S ((Duplex.new keys nonce).observe S es))
    (hxof : NoXofCollision S (((Duplex.new keys nonce).observe S es).map (·.drawn)))
    (d : Direction) :
    Integrity keys nonce ((Duplex.new keys nonce).observe S es)
      (Machine.run (Duplex.step S) (Duplex.new keys nonce) es).2 d := by
  have hrun := Machine.run_induction (Duplex.step S) (s := Duplex.new keys nonce)
    (P := fun _ obs s => IdealAead S obs → NoXofCollision S (obs.map (·.drawn)) →
      ∀ d, Integrity keys nonce obs s d)
    (fun _ _ => integrity_init keys nonce)
    (fun _ obs s e ih hideal hxof => integrity_step
      (ih hideal.of_append (hxof.mono (by simp))) e hideal hxof)
    es
  exact hrun hideal hxof d

theorem delivered_prefix {S : CipherSuite} {keys : SessionKeys} {nonce : Arr 32}
    {es : List RecordCall} {obs : List Observation}
    (hobs : (Duplex.new keys nonce).observe S es = obs) (hideal : IdealAead S obs)
    (hxof : NoXofCollision S (obs.map (·.drawn))) (d : Direction) :
    deliveredIn d obs <+: sealedIn d obs := by
  subst hobs
  obtain ⟨taken,⟨newer,hcs⟩,hdel,-⟩ := (integrity_run keys nonce es hideal hxof d).rx
  rw [← List.reverse_suffix,hdel,sealedIn,← List.map_reverse]
  exact ⟨newer.map (·.pt),by rw [← List.map_append,hcs]⟩

theorem record_integrity (S : CipherSuite) (keys : SessionKeys) (nonce : Arr 32)
    (es : List RecordCall) (obs : List Observation)
    (hobs : (Duplex.new keys nonce).observe S es = obs) (hideal : IdealAead S obs)
    (hxof : NoXofCollision S (obs.map (·.drawn))) (d : Direction) :
    deliveredIn d obs <+: sealedIn d obs ∧
    ((openCalls d obs).length ≤ 2 ^ 64 → FailClosed (resultsIn d obs)) := by
  have hpre := delivered_prefix hobs hideal hxof d
  subst hobs
  exact ⟨hpre,(integrity_run keys nonce es hideal hxof d).closed⟩

section Wrap
variable (s : Duplex)

def garbage : RecordCall := .opens .clientToServer []

def DirPool.skip (p : DirPool) (n : UInt64) : DirPool := ⟨p.state,p.counter + n⟩

theorem DirPool.skip_skip (p : DirPool) (m n : UInt64) : (p.skip m).skip n = p.skip (n + m) := by
  simp [skip,UInt64.add_assoc,UInt64.add_comm n]

def Rejected (p : DirPool) (o : Observation) : Prop :=
  ∃ (c : OpenCall) (i : UInt64), o = .opened c ∧ c.dir = .clientToServer ∧
    c.result = .error .aeadFailure ∧ c.drawn = (p.skip i).drawn

theorem garbage_step :
    Rejected (s.rx .clientToServer) (Duplex.step plainSuite s garbage).1 ∧
    (Duplex.step plainSuite s garbage).2.rx .clientToServer = (s.rx .clientToServer).skip 1 := by
  have hres : ((s.rx .clientToServer).openOne plainSuite
      (s.encKey (Direction.flip .clientToServer)) .clientToServer []).1 = .error .aeadFailure := by
    simp [DirPool.openOne,plainSuite_open_short]
  constructor
  · rw [garbage,Duplex.step_opens]
    refine ⟨_,0,rfl,rfl,?_,by simp [DirPool.skip]⟩
    simp only [hres]
  · rw [garbage,Duplex.rx_opens]
    exact openOne_error hres

theorem Rejected.of_skip {p : DirPool} {m : UInt64} {o : Observation} (h : Rejected (p.skip m) o) :
    Rejected p o := by
  obtain ⟨c,i,ho,hdir,hres,hdrawn⟩ := h
  exact ⟨c,i + m,ho,hdir,hres,by rw [hdrawn,DirPool.skip_skip]⟩

theorem garbage_run (n : ℕ) (s s' : Duplex) (obs : List Observation)
    (h : Machine.run (Duplex.step plainSuite) s (List.replicate n garbage) = (obs,s')) :
    (∀ o ∈ obs, Rejected (s.rx .clientToServer) o) ∧
    s'.rx .clientToServer = (s.rx .clientToServer).skip (UInt64.ofNat n) ∧
    ∀ e, s'.encKey e = s.encKey e := by
  induction n generalizing s obs with
  | zero =>
    obtain ⟨rfl,rfl⟩ := Prod.mk.inj h
    simp [DirPool.skip]
  | succ n ih =>
    obtain ⟨hrej,hrx₁⟩ := garbage_step s
    have hkey₁ := Duplex.encKey_step plainSuite s garbage
    rw [List.replicate_succ,Machine.run] at h
    generalize Duplex.step plainSuite s garbage = stepped at h hrej hrx₁ hkey₁
    obtain ⟨o,s₁⟩ := stepped
    generalize hrun : Machine.run (Duplex.step plainSuite) s₁ (List.replicate n garbage) = rest at h
    obtain ⟨obs',s₂⟩ := rest
    obtain ⟨rfl,rfl⟩ := Prod.mk.inj h
    obtain ⟨hall,hrx,hkey⟩ := ih s₁ obs' hrun
    rw [hrx₁] at hall hrx
    refine ⟨?_,?_,fun e => (hkey e).trans (hkey₁ e)⟩
    · intro q hq
      rcases List.mem_cons.mp hq with rfl | hq
      · exact hrej
      · exact (hall q hq).of_skip
    · rw [hrx,DirPool.skip_skip,UInt64.ofNat_add]
      rfl

end Wrap

def wrapKeys : SessionKeys := ⟨digest 32 [1],digest 32 [2]⟩

def wrapNonce : Arr 32 := digest 32 [3]

def wrapRecord : Bytes := ((RecordLayer.new wrapKeys wrapNonce).seal plainSuite .clientToServer [7]).1

def wrapEvents (failures : ℕ) : List RecordCall :=
  .seals .clientToServer [7] ::
    (List.replicate failures garbage ++ [.opens .clientToServer wrapRecord])

def wrapPool : DirPool := DirPool.new wrapKeys.poolKey .clientToServer wrapNonce.val

theorem plainSuite_xof_skip {p : DirPool} {i j : UInt64}
    (h : (p.skip i).drawn.finalizeXof plainSuite = (p.skip j).drawn.finalizeXof plainSuite) :
    (p.skip i).drawn = (p.skip j).drawn := by
  have hlow : ∀ v < 256 ^ 8,
      ofBe (p.state.key.val ++ (p.state.input ++ toBe 8 v)) % 256 ^ 12 % 256 ^ 8 = v := by
    intro v hv
    rw [← List.append_assoc,ofBe_append,ofBe_toBe,length_toBe,
      Nat.mod_mod_of_dvd _ (pow_dvd_pow 256 (by decide)),Nat.mul_add_mod_self_right,Nat.mod_mod,
      Nat.mod_eq_of_lt hv]
  have hb := congrArg (fun a => ofBe a.val % 256 ^ 8) h
  simp only [Hasher.finalizeXof,plainSuite,ofBe_toBe] at hb
  have hcnt : (p.counter + i).toNat = (p.counter + j).toNat := by
    rw [← hlow _ (UInt64.toNat_lt (p.counter + i)),← hlow _ (UInt64.toNat_lt (p.counter + j))]
    exact hb
  simp only [DirPool.drawn,DirPool.skip,hcnt]

theorem wrapEvents_observe {n : ℕ} (hn : UInt64.ofNat n = 0) :
    ∃ rejs : List Observation, rejs.length = n ∧ (∀ o ∈ rejs, Rejected wrapPool o) ∧
      (Duplex.new wrapKeys wrapNonce).observe plainSuite (wrapEvents n) =
        .sealed ⟨.clientToServer,wrapPool.drawn,recordAad .clientToServer 0,[7],wrapRecord⟩ ::
          (rejs ++ [.opened ⟨.clientToServer,wrapPool.drawn,recordAad .clientToServer 0,wrapRecord,
            .ok [7]⟩]) := by
  have hnew : ∀ e, (Duplex.new wrapKeys wrapNonce).sender e = RecordLayer.new wrapKeys wrapNonce := by
    intro e
    cases e <;> rfl
  have htx : (Duplex.new wrapKeys wrapNonce).tx .clientToServer = wrapPool := by
    rw [Duplex.tx,hnew]
    rfl
  have hrx : (Duplex.new wrapKeys wrapNonce).rx .clientToServer = wrapPool := by
    rw [Duplex.rx,Duplex.receiver,hnew]
    rfl
  have hkey : ∀ e, (Duplex.new wrapKeys wrapNonce).encKey e = wrapKeys.encKey := by
    intro e
    rw [Duplex.encKey,hnew]
    rfl
  have hct : (wrapPool.sealOne plainSuite wrapKeys.encKey .clientToServer [7]).1 = wrapRecord := by
    rw [wrapRecord,RecordLayer.seal_eq]
    rfl
  have hsent := Duplex.step_seals plainSuite (Duplex.new wrapKeys wrapNonce) .clientToServer [7]
  rw [htx,hkey,hct] at hsent
  obtain ⟨rejs,s',hrun⟩ : ∃ rejs s', Machine.run (Duplex.step plainSuite)
      (Duplex.step plainSuite (Duplex.new wrapKeys wrapNonce) (.seals .clientToServer [7])).2
      (List.replicate n garbage) = (rejs,s') := ⟨_,_,rfl⟩
  obtain ⟨hall,hrx',hkey'⟩ := garbage_run n _ s' rejs hrun
  rw [Duplex.rx_seals,hrx] at hall hrx'
  have hback : s'.rx .clientToServer = wrapPool := by
    rw [hrx',hn]
    simp [DirPool.skip]
  have hlast := Duplex.step_opens plainSuite s' .clientToServer wrapRecord
  rw [hback,hkey',Duplex.encKey_step,hkey,← hct,
    DirPool.openOne_sealOne plainSuite _ _ plainSuite_aead,hct] at hlast
  refine ⟨rejs,?_,hall,?_⟩
  · simpa [hrun] using Machine.length_run (Duplex.step plainSuite)
      (Duplex.step plainSuite (Duplex.new wrapKeys wrapNonce) (.seals .clientToServer [7])).2
      (List.replicate n garbage)
  · rw [Duplex.observe,wrapEvents,Machine.run,hsent,Machine.run_snoc,hrun,hlast]
    rfl

theorem wrapEvents_ideal {n : ℕ} (hn : UInt64.ofNat n = 0) :
    IdealAead plainSuite ((Duplex.new wrapKeys wrapNonce).observe plainSuite (wrapEvents n)) := by
  obtain ⟨rejs,-,hall,hobs⟩ := wrapEvents_observe hn
  rw [hobs]
  intro before after c pt he hres
  cases before with
  | nil => simp at he
  | cons b before =>
    obtain ⟨rfl,htail⟩ := List.cons.inj he
    have hmem : .opened c ∈ rejs ++ [.opened ⟨.clientToServer,wrapPool.drawn,
        recordAad .clientToServer 0,wrapRecord,.ok [7]⟩] := by
      rw [htail]
      simp
    rcases List.mem_append.mp hmem with hrej | hlast
    · obtain ⟨c',i,hc',-,herr,-⟩ := hall _ hrej
      obtain rfl : c = c' := Observation.opened.inj hc'
      rw [hres] at herr
      cases herr
    · obtain rfl := Observation.opened.inj (List.mem_singleton.mp hlast)
      exact ⟨_,List.mem_cons_self,rfl,rfl,rfl,Except.ok.inj hres⟩

theorem wrapEvents_noXofCollision {n : ℕ} (hn : UInt64.ofNat n = 0) :
    NoXofCollision plainSuite
      (((Duplex.new wrapKeys wrapNonce).observe plainSuite (wrapEvents n)).map (·.drawn)) := by
  obtain ⟨rejs,-,hall,hobs⟩ := wrapEvents_observe hn
  rw [hobs]
  have hskip : wrapPool.drawn = (wrapPool.skip 0).drawn := by simp [DirPool.skip]
  have hform : ∀ o ∈ Observation.sealed ⟨.clientToServer,wrapPool.drawn,
      recordAad .clientToServer 0,[7],wrapRecord⟩ :: (rejs ++ [.opened ⟨.clientToServer,
      wrapPool.drawn,recordAad .clientToServer 0,wrapRecord,.ok [7]⟩]),
      ∃ i, o.drawn = (wrapPool.skip i).drawn := by
    intro o ho
    rcases List.mem_cons.mp ho with rfl | ho
    · exact ⟨0,hskip⟩
    · rcases List.mem_append.mp ho with ho | ho
      · obtain ⟨c,i,rfl,-,-,hdrawn⟩ := hall o ho
        exact ⟨i,hdrawn⟩
      · obtain rfl := List.mem_singleton.mp ho
        exact ⟨0,hskip⟩
  intro h hh k hk he
  obtain ⟨o,ho,rfl⟩ := List.mem_map.mp hh
  obtain ⟨q,hq,rfl⟩ := List.mem_map.mp hk
  obtain ⟨i,hi⟩ := hform o ho
  obtain ⟨j,hj⟩ := hform q hq
  rw [hi,hj] at he ⊢
  exact plainSuite_xof_skip he

def sealedRecords : RecordLayer → List Bytes → List Bytes
  | _, [] => []
  | r, pt :: pts =>
    let (ct,r') := r.seal plainSuite .clientToServer pt
    ct :: sealedRecords r' pts

-- The first record is replayed and the second dropped.
def lossyEvents : List RecordCall :=
  match sealedRecords (RecordLayer.new wrapKeys wrapNonce) [[7],[8],[9],[10]] with
  | [a,_,c,d] =>
    [.seals .clientToServer [7],.seals .clientToServer [8],.opens .clientToServer a,
      .opens .clientToServer a,.seals .clientToServer [9],.opens .clientToServer c,
      .seals .clientToServer [10],.opens .clientToServer d]
  | _ => []

def lossyLog : List Observation := (Duplex.new wrapKeys wrapNonce).observe plainSuite lossyEvents

theorem record_integrity_lossy :
    deliveredIn .clientToServer lossyLog = [[7]] ∧
      sealedIn .clientToServer lossyLog = [[7],[8],[9],[10]] ∧
      (openCalls .clientToServer lossyLog).length = 4 ∧
      deliveredIn .clientToServer lossyLog <+: sealedIn .clientToServer lossyLog ∧
      FailClosed (resultsIn .clientToServer lossyLog) := by
  have hideal : IdealAead plainSuite lossyLog := idealAead_of_check (by decide +kernel)
  have hxof : NoXofCollision plainSuite (lossyLog.map (·.drawn)) := by decide +kernel
  have hopens : (openCalls .clientToServer lossyLog).length = 4 := by decide +kernel
  obtain ⟨hpre,hclosed⟩ := record_integrity plainSuite wrapKeys wrapNonce lossyEvents lossyLog rfl
    hideal hxof .clientToServer
  refine ⟨by decide +kernel,by decide +kernel,hopens,hpre,hclosed ?_⟩
  rw [hopens]
  decide

theorem counter_wrap_reopens :
    IdealAead plainSuite
      ((Duplex.new wrapKeys wrapNonce).observe plainSuite (wrapEvents (2 ^ 64))) ∧
    NoXofCollision plainSuite
      (((Duplex.new wrapKeys wrapNonce).observe plainSuite (wrapEvents (2 ^ 64))).map (·.drawn)) ∧
    ¬ FailClosed (resultsIn .clientToServer
      ((Duplex.new wrapKeys wrapNonce).observe plainSuite (wrapEvents (2 ^ 64)))) := by
  refine ⟨wrapEvents_ideal rfl,wrapEvents_noXofCollision rfl,fun hclosed => ?_⟩
  obtain ⟨rejs,hlen,hall,hobs⟩ := wrapEvents_observe (n := 2 ^ 64) rfl
  rw [hobs] at hclosed
  cases rejs with
  | nil => simp at hlen
  | cons o rejs =>
    obtain ⟨c,i,rfl,hdir,hres,-⟩ := hall o (by simp)
    have hr : resultsIn .clientToServer (.sealed ⟨.clientToServer,wrapPool.drawn,
        recordAad .clientToServer 0,[7],wrapRecord⟩ :: (.opened c :: rejs ++
        [.opened ⟨.clientToServer,wrapPool.drawn,recordAad .clientToServer 0,wrapRecord,
          .ok [7]⟩])) = c.result :: (resultsIn .clientToServer rejs ++ [.ok [7]]) := by
      simp [resultsIn,openCalls,hdir,List.filterMap_append]
    rw [hr] at hclosed
    obtain ⟨e,he⟩ := (List.pairwise_cons.mp hclosed).1 (.ok [7]) (by simp) ⟨_,hres⟩
    cases he

end OrtTunnel.Core
