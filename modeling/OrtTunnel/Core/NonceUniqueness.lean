import OrtTunnel.Core.Independence

namespace OrtTunnel.Core
open BigEndian

inductive PoolCall where
  | nextNonce (d : Direction)
  | absorb (d : Direction) (data : Bytes)
  deriving DecidableEq

structure Draw where
  dir : Direction
  hashed : Hasher
  nonce : Arr nonceLen
  deriving DecidableEq

def drawFrom (S : CipherSuite) (p : EntropyPool) (d : Direction) : Draw :=
  ⟨d,(p.dir d).drawn,(p.nextNonce S d).1⟩

def PoolCall.step (S : CipherSuite) (p : EntropyPool) : PoolCall → Option Draw × EntropyPool
  | .nextNonce d => (some (drawFrom S p d),(p.nextNonce S d).2)
  | .absorb d data => (none,p.absorb d data)

def draws (S : CipherSuite) (p : EntropyPool) (calls : List PoolCall) : List Draw :=
  (Machine.run (PoolCall.step S) p calls).1.filterMap id

def drawsIn (d : Direction) (ds : List Draw) : List Draw := ds.filter fun a => a.dir = d

def XofCollision (S : CipherSuite) (key : Arr 32) (x y : Bytes) : Prop :=
  x ≠ y ∧ S.keyedXof key x = S.keyedXof key y

def Apart (S : CipherSuite) (key : Arr 32) (a b : Draw) : Prop :=
  a.hashed.input ≠ b.hashed.input ∧
    (a.nonce = b.nonce → XofCollision S key a.hashed.input b.hashed.input)

-- The label in front and the counter behind survive whatever was absorbed between them.
structure Tagged (S : CipherSuite) (key : Arr 32) (bound : ℕ) (a : Draw) : Prop where
  nonce : a.nonce = S.keyedXof key a.hashed.input
  shape : ∃ mid c, a.hashed.input = a.dir.label ++ (mid ++ toBe 8 c) ∧ c < 2 ^ 64 ∧ c < bound

structure DrawInv (S : CipherSuite) (key : Arr 32) (ds : List Draw) (p : EntropyPool) : Prop where
  counter : ∀ d, (p.dir d).counter = UInt64.ofNat (drawsIn d ds).length
  keyed : ∀ d, (p.dir d).state.key = key
  labelled : ∀ d, ∃ mid, (p.dir d).state.input = d.label ++ mid
  tagged : ∀ a ∈ ds, Tagged S key (drawsIn a.dir ds).length a
  distinct : (∀ d, (drawsIn d ds).length < 2 ^ 64) →
    ds.Pairwise fun a b => a.hashed.input ≠ b.hashed.input

variable {S : CipherSuite} {key : Arr 32}

theorem input_ne_of_dir {m n : ℕ} {a b : Draw} (ha : Tagged S key m a) (hb : Tagged S key n b)
    (h : a.dir ≠ b.dir) : a.hashed.input ≠ b.hashed.input := by
  intro he
  obtain ⟨mid,c,hc,_⟩ := ha.shape
  obtain ⟨mid',c',hc',_⟩ := hb.shape
  rw [hc,hc'] at he
  have hl := (List.append_inj he (by rw [Direction.length_label,Direction.length_label])).1
  exact h (Direction.label_inj hl)

theorem apart_of_ne {m n : ℕ} {a b : Draw} (ha : Tagged S key m a) (hb : Tagged S key n b)
    (h : a.hashed.input ≠ b.hashed.input) : Apart S key a b := by
  refine ⟨h,fun hn => ⟨h,?_⟩⟩
  rw [← ha.nonce,← hb.nonce,hn]

theorem input_ne_of_counter {n : ℕ} {a : Draw} (ha : Tagged S key n a) {pre : Bytes}
    (hn : n < 2 ^ 64) : a.hashed.input ≠ pre ++ toBe 8 n := by
  intro he
  obtain ⟨mid,c,hc,hlt,hlt'⟩ := ha.shape
  rw [hc,← List.append_assoc] at he
  have hcn := toBe_inj hlt hn (List.append_inj' he (by simp)).2
  omega

theorem drawInv_new (S : CipherSuite) (k n : Arr 32) : DrawInv S k [] (EntropyPool.new k n) where
  counter := by
    intro d
    rw [EntropyPool.dir_new]
    rfl
  keyed := by
    intro d
    rw [EntropyPool.dir_new]
    rfl
  labelled := by
    intro d
    rw [EntropyPool.dir_new]
    exact ⟨n.val,rfl⟩
  tagged := by simp
  distinct := fun _ => List.Pairwise.nil

theorem Tagged.mono {m n : ℕ} {a : Draw} (h : Tagged S key m a) (hle : m ≤ n) :
    Tagged S key n a := by
  obtain ⟨mid,c,hc,hlt,hm⟩ := h.shape
  exact ⟨h.nonce,mid,c,hc,hlt,hm.trans_le hle⟩

theorem drawsIn_snoc (d : Direction) (ds : List Draw) (a : Draw) :
    drawsIn d (ds ++ [a]) = drawsIn d ds ++ if a.dir = d then [a] else [] := by
  by_cases h : a.dir = d <;> simp [drawsIn,h]

theorem length_drawsIn_le (d : Direction) (ds : List Draw) (a : Draw) :
    (drawsIn d ds).length ≤ (drawsIn d (ds ++ [a])).length := by
  rw [drawsIn_snoc,List.length_append]
  omega

section Steps
variable {ds : List Draw} {p : EntropyPool}

theorem drawInv_absorb (h : DrawInv S key ds p) (d : Direction) (data : Bytes) :
    DrawInv S key ds (p.absorb d data) := by
  have hdir : ∀ e, (p.absorb d data).dir e = if e = d then (p.dir d).absorb data else p.dir e := by
    intro e
    rcases Direction.eq_or_flip d e with rfl | rfl
    · simp [EntropyPool.absorb]
    · simp [EntropyPool.absorb,Direction.flip_ne]
  refine ⟨?_,?_,?_,h.tagged,h.distinct⟩
  · intro e
    rw [hdir e,← h.counter e]
    split
    · next he => rw [he]; rfl
    · rfl
  · intro e
    rw [hdir e,← h.keyed e]
    split
    · next he => rw [he]; rfl
    · rfl
  · intro e
    obtain ⟨mid,hmid⟩ := h.labelled e
    rw [hdir e]
    split
    · next he =>
      subst he
      exact ⟨mid ++ (absorbLabel ++ data),by simp [hmid]⟩
    · exact ⟨mid,hmid⟩

theorem input_drawFrom (S : CipherSuite) (h : DrawInv S key ds p) (d : Direction) :
    (drawFrom S p d).hashed.input = (p.dir d).state.input ++
      toBe 8 ((drawsIn d ds).length % 2 ^ 64) := by
  simp [drawFrom,h.counter d]

theorem tagged_drawFrom (h : DrawInv S key ds p) (d : Direction) :
    Tagged S key (drawsIn d (ds ++ [drawFrom S p d])).length (drawFrom S p d) where
  nonce := by
    simp [drawFrom,EntropyPool.nextNonce,DirPool.nextNonce,Hasher.finalizeXof,h.keyed d]
  shape := by
    obtain ⟨mid,hmid⟩ := h.labelled d
    refine ⟨mid,(drawsIn d ds).length % 2 ^ 64,?_,Nat.mod_lt _ (by decide),?_⟩
    · rw [input_drawFrom S h,hmid,List.append_assoc]
      rfl
    · have hle := Nat.mod_le (drawsIn d ds).length (2 ^ 64)
      rw [drawsIn_snoc,List.length_append]
      simp only [drawFrom,if_true,List.length_singleton]
      omega

theorem drawInv_nextNonce (h : DrawInv S key ds p) (d : Direction) :
    DrawInv S key (ds ++ [drawFrom S p d]) (p.nextNonce S d).2 := by
  have hdir : ∀ e, ((p.nextNonce S d).2.dir e).state = (p.dir e).state := by
    intro e
    rcases Direction.eq_or_flip d e with rfl | rfl <;> simp [EntropyPool.nextNonce]
  have hnew := tagged_drawFrom h d
  refine ⟨?_,?_,?_,?_,?_⟩
  · intro e
    rw [drawsIn_snoc,List.length_append,UInt64.ofNat_add,← h.counter e]
    rcases Direction.eq_or_flip d e with rfl | rfl
    · simp [EntropyPool.nextNonce,drawFrom]
    · simp [EntropyPool.nextNonce,drawFrom,(Direction.flip_ne d).symm]
  · intro e
    rw [hdir e,h.keyed e]
  · intro e
    rw [hdir e]
    exact h.labelled e
  · intro a ha
    rcases List.mem_append.mp ha with ha | ha
    · exact (h.tagged a ha).mono (length_drawsIn_le ..)
    · obtain rfl := List.mem_singleton.mp ha
      exact hnew
  · intro hfew
    have hfew' : ∀ e, (drawsIn e ds).length < 2 ^ 64 := fun e =>
      (length_drawsIn_le e ds _).trans_lt (hfew e)
    refine List.pairwise_append.mpr ⟨h.distinct hfew',List.pairwise_singleton _ _,?_⟩
    intro a ha b hb
    obtain rfl := List.mem_singleton.mp hb
    by_cases hd : a.dir = d
    · have htag := h.tagged a ha
      rw [hd] at htag
      rw [input_drawFrom S h,Nat.mod_eq_of_lt (hfew' d)]
      exact input_ne_of_counter htag (hfew' d)
    · exact input_ne_of_dir (h.tagged a ha) hnew hd

end Steps

theorem drawInv_run (S : CipherSuite) (k n : Arr 32) (calls : List PoolCall) :
    DrawInv S k (draws S (EntropyPool.new k n) calls)
      (Machine.run (PoolCall.step S) (EntropyPool.new k n) calls).2 := by
  refine Machine.run_induction (PoolCall.step S) (s := EntropyPool.new k n)
    (P := fun _ os p => DrawInv S k (os.filterMap id) p) (drawInv_new S k n) ?_ calls
  intro _ os p c h
  cases c with
  | nextNonce d => simpa [PoolCall.step] using drawInv_nextNonce h d
  | absorb d data => simpa [PoolCall.step] using drawInv_absorb h d data

def RecordCall.poolCalls (S : CipherSuite) (r : RecordLayer) : RecordCall → List PoolCall
  | .seals d pt => [.nextNonce d,.absorb d (r.seal S d pt).1]
  | .opens d ct =>
    match (r.open S d ct).1 with
    | .ok _ => [.nextNonce d,.absorb d ct]
    | .error _ => [.nextNonce d]

def poolTrace (S : CipherSuite) : RecordLayer → List RecordCall → List PoolCall
  | _, [] => []
  | r, c :: cs => c.poolCalls S r ++ poolTrace S (c.step S r).2 cs

def RecordCall.sealDraw (S : CipherSuite) (r : RecordLayer) : RecordCall → List Draw
  | .seals d _ => [drawFrom S r.pool d]
  | .opens _ _ => []

def sealedDraws (S : CipherSuite) : RecordLayer → List RecordCall → List Draw
  | _, [] => []
  | r, c :: cs => c.sealDraw S r ++ sealedDraws S (c.step S r).2 cs

theorem run_poolCalls (S : CipherSuite) (r : RecordLayer) (c : RecordCall) :
    draws S r.pool (c.poolCalls S r) = [drawFrom S r.pool c.dir] ∧
      (Machine.run (PoolCall.step S) r.pool (c.poolCalls S r)).2 = (c.step S r).2.pool := by
  cases c with
  | seals d pt => exact ⟨rfl,rfl⟩
  | opens d ct =>
    simp only [RecordCall.poolCalls,RecordCall.step,RecordLayer.open]
    cases S.aeadOpen r.keys.encKey (r.pool.nextNonce S d).1 (recordAad d (r.pool.counter d)) ct with
    | ok pt => exact ⟨rfl,rfl⟩
    | error e => exact ⟨rfl,rfl⟩

theorem draws_append (S : CipherSuite) (p : EntropyPool) (as bs : List PoolCall) :
    draws S p (as ++ bs) = draws S p as ++ draws S (Machine.run (PoolCall.step S) p as).2 bs := by
  rw [draws,Machine.run_append,List.filterMap_append]
  rfl

theorem sealedDraws_sublist (S : CipherSuite) (r : RecordLayer) (calls : List RecordCall) :
    List.Sublist (sealedDraws S r calls) (draws S r.pool (poolTrace S r calls)) := by
  induction calls generalizing r with
  | nil => exact List.Sublist.refl _
  | cons c calls ih =>
    obtain ⟨hdraw,hpool⟩ := run_poolCalls S r c
    rw [sealedDraws,poolTrace,draws_append,hdraw,hpool]
    refine List.Sublist.append ?_ (ih (c.step S r).2)
    cases c with
    | seals d pt => exact List.Sublist.refl _
    | opens d ct => exact List.nil_sublist _

def RecordResult.ciphertext : RecordResult → Option Bytes
  | .sealed ct => some ct
  | .opened _ => none

-- Each listed nonce is the one its `seal` handed to the AEAD.
theorem sealedDraws_used (S : CipherSuite) (r : RecordLayer) (calls : List RecordCall) :
    List.Forall₂ (fun a ct => ∃ counter pt, RecordCall.seals a.dir pt ∈ calls ∧
        ct = S.aeadSeal r.keys.encKey a.nonce (recordAad a.dir counter) pt)
      (sealedDraws S r calls)
      ((Machine.run (RecordCall.step S) r calls).1.filterMap RecordResult.ciphertext) := by
  induction calls generalizing r with
  | nil => exact List.Forall₂.nil
  | cons c calls ih =>
    have hrest : List.Forall₂ (fun a ct => ∃ counter pt, RecordCall.seals a.dir pt ∈ c :: calls ∧
          ct = S.aeadSeal r.keys.encKey a.nonce (recordAad a.dir counter) pt)
        (sealedDraws S (c.step S r).2 calls)
        ((Machine.run (RecordCall.step S) (c.step S r).2 calls).1.filterMap
          RecordResult.ciphertext) := by
      refine (ih (c.step S r).2).imp ?_
      rintro a ct ⟨counter,pt,hmem,hct⟩
      refine ⟨counter,pt,List.mem_cons_of_mem c hmem,?_⟩
      rwa [c.keys_step S r] at hct
    cases c with
    | seals d pt => exact List.Forall₂.cons ⟨r.pool.counter d,pt,List.mem_cons_self,rfl⟩ hrest
    | opens d ct => exact hrest

theorem sealedDraws_extend (S : CipherSuite) (r : RecordLayer) (calls : List RecordCall) :
    ∀ a ∈ sealedDraws S r calls, a.nonce = a.hashed.finalizeXof S ∧
      a.hashed.key = (r.pool.dir a.dir).state.key ∧
      (r.pool.dir a.dir).state.input <+: a.hashed.input := by
  induction calls generalizing r with
  | nil => simp [sealedDraws]
  | cons c calls ih =>
    intro a ha
    rcases List.mem_append.mp ha with ha | ha
    · cases c with
      | seals d pt =>
        obtain rfl := List.mem_singleton.mp ha
        exact ⟨rfl,rfl,List.prefix_append _ _⟩
      | opens d ct => simp [RecordCall.sealDraw] at ha
    · obtain ⟨hnonce,hkey,hin⟩ := ih (c.step S r).2 a ha
      obtain ⟨hkey',hin'⟩ := c.pool_step S r a.dir
      exact ⟨hnonce,hkey.trans hkey',hin'.trans hin⟩

theorem nonce_preimages_distinct (S : CipherSuite) (keys : SessionKeys) (nonce : Arr 32) :
    (∀ calls : List PoolCall,
      (∀ d, (drawsIn d (draws S (EntropyPool.new keys.poolKey nonce) calls)).length < 2 ^ 64) →
      (draws S (EntropyPool.new keys.poolKey nonce) calls).Pairwise (Apart S keys.poolKey)) ∧
    (∀ calls calls' : List PoolCall,
      ∀ a ∈ draws S (EntropyPool.new keys.poolKey nonce) calls,
      ∀ b ∈ draws S (EntropyPool.new keys.poolKey nonce) calls',
      a.dir ≠ b.dir → Apart S keys.poolKey a b) ∧
    ∀ calls : List RecordCall,
      (∀ d, (drawsIn d (draws S (EntropyPool.new keys.poolKey nonce)
        (poolTrace S (RecordLayer.new keys nonce) calls))).length < 2 ^ 64) →
      (sealedDraws S (RecordLayer.new keys nonce) calls).Pairwise (Apart S keys.poolKey) := by
  have hpool : ∀ calls : List PoolCall,
      (∀ d, (drawsIn d (draws S (EntropyPool.new keys.poolKey nonce) calls)).length < 2 ^ 64) →
      (draws S (EntropyPool.new keys.poolKey nonce) calls).Pairwise (Apart S keys.poolKey) := by
    intro calls hfew
    have h := drawInv_run S keys.poolKey nonce calls
    refine (h.distinct hfew).imp_of_mem ?_
    intro a b ha hb hne
    exact apart_of_ne (h.tagged a ha) (h.tagged b hb) hne
  refine ⟨hpool,?_,?_⟩
  · intro calls calls' a ha b hb hd
    have ha' := (drawInv_run S keys.poolKey nonce calls).tagged a ha
    have hb' := (drawInv_run S keys.poolKey nonce calls').tagged b hb
    exact apart_of_ne ha' hb' (input_ne_of_dir ha' hb' hd)
  · intro calls hfew
    exact (hpool _ hfew).sublist (sealedDraws_sublist S (RecordLayer.new keys nonce) calls)

end OrtTunnel.Core
