import OrtTunnel.Core.Pool

namespace OrtTunnel.Core
open BigEndian

structure SessionKeys where
  encKey : Arr 32
  poolKey : Arr 32
  deriving DecidableEq

def infoEncKey : Bytes := ascii "ORT-v1 enc-key"

def infoPoolKey : Bytes := ascii "ORT-v1 pool-key"

def deriveSessionKeys (S : CipherSuite) (kSk : Arr sharedLen) (ciphertext : Bytes) : SessionKeys :=
  let salt := S.hash256 ciphertext
  ⟨S.hkdf kSk.val salt.val infoEncKey 32,S.hkdf kSk.val salt.val infoPoolKey 32⟩

def recordAadLabel : Bytes := ascii "ORT-v1 rec"

def recordAad (dir : Direction) (counter : UInt64) : Bytes :=
  recordAadLabel ++ [dir.toU8] ++ toBe 8 counter.toNat

structure RecordLayer where
  keys : SessionKeys
  pool : EntropyPool
  deriving DecidableEq

def RecordLayer.new (keys : SessionKeys) (connmetaNonce : Arr 32) : RecordLayer :=
  ⟨keys,EntropyPool.new keys.poolKey connmetaNonce⟩

def RecordLayer.seal (S : CipherSuite) (r : RecordLayer) (dir : Direction) (plaintext : Bytes) :
    Bytes × RecordLayer :=
  let counter := r.pool.counter dir
  let (nonce,pool) := r.pool.nextNonce S dir
  let aad := recordAad dir counter
  let ct := S.aeadSeal r.keys.encKey nonce aad plaintext
  (ct,{ r with pool := pool.absorb dir ct })

def RecordLayer.open (S : CipherSuite) (r : RecordLayer) (dir : Direction) (ciphertext : Bytes) :
    Except Error Bytes × RecordLayer :=
  let counter := r.pool.counter dir
  let (nonce,pool) := r.pool.nextNonce S dir
  let aad := recordAad dir counter
  match S.aeadOpen r.keys.encKey nonce aad ciphertext with
  | .error e => (.error e,{ r with pool := pool })
  | .ok pt => (.ok pt,{ r with pool := pool.absorb dir ciphertext })

def RecordLayer.encKeyHash (S : CipherSuite) (r : RecordLayer) : Arr 64 := S.hash512 r.keys.encKey.val

inductive RecordCall where
  | seals (d : Direction) (pt : Bytes)
  | opens (d : Direction) (ct : Bytes)
  deriving DecidableEq

inductive RecordResult where
  | sealed (ct : Bytes)
  | opened (result : Except Error Bytes)

namespace RecordCall

def dir : RecordCall → Direction
  | .seals d _ => d
  | .opens d _ => d

def step (S : CipherSuite) (r : RecordLayer) : RecordCall → RecordResult × RecordLayer
  | .seals d pt =>
    let (ct,r') := r.seal S d pt
    (.sealed ct,r')
  | .opens d ct =>
    let (result,r') := r.open S d ct
    (.opened result,r')

end RecordCall

namespace DirPool
variable (S : CipherSuite) (key : Arr 32) (d : Direction)

def sealOne (p : DirPool) (pt : Bytes) : Bytes × DirPool :=
  let ct := S.aeadSeal key (p.nextNonce S).1 (recordAad d p.counter) pt
  (ct,(p.nextNonce S).2.absorb ct)

def openOne (p : DirPool) (ct : Bytes) : Except Error Bytes × DirPool :=
  match S.aeadOpen key (p.nextNonce S).1 (recordAad d p.counter) ct with
  | .error e => (.error e,(p.nextNonce S).2)
  | .ok pt => (.ok pt,(p.nextNonce S).2.absorb ct)

theorem openOne_result (p : DirPool) (ct : Bytes) :
    (p.openOne S key d ct).1 =
      S.aeadOpen key (p.drawn.finalizeXof S) (recordAad d p.counter) ct := by
  rw [openOne]
  change _ = S.aeadOpen key (p.nextNonce S).1 (recordAad d p.counter) ct
  split <;> simp_all

theorem openOne_sealOne (h : S.AeadLaws) (p : DirPool) (pt : Bytes) :
    p.openOne S key d (p.sealOne S key d pt).1 = (.ok pt,(p.sealOne S key d pt).2) := by
  simp [openOne,sealOne,h.opens]

end DirPool

theorem recordAad_inj {d e : Direction} {m n : UInt64} (h : recordAad d m = recordAad e n) :
    d = e ∧ m = n := by
  simp only [recordAad,List.append_assoc,List.append_cancel_left_eq,List.singleton_append,
    List.cons.injEq] at h
  refine ⟨Direction.toU8_inj h.1,UInt64.toNat_inj.mp ?_⟩
  exact toBe_inj m.toNat_lt n.toNat_lt h.2

namespace RecordLayer
variable (S : CipherSuite) (r : RecordLayer)

theorem seal_eq (d : Direction) (pt : Bytes) :
    r.seal S d pt = (((r.pool.dir d).sealOne S r.keys.encKey d pt).1,
      { r with pool := r.pool.setDir d ((r.pool.dir d).sealOne S r.keys.encKey d pt).2 }) := by
  simp [RecordLayer.seal,DirPool.sealOne,EntropyPool.nextNonce,EntropyPool.absorb,
    EntropyPool.counter_eq]

theorem open_eq (d : Direction) (ct : Bytes) :
    r.open S d ct = (((r.pool.dir d).openOne S r.keys.encKey d ct).1,
      { r with pool := r.pool.setDir d ((r.pool.dir d).openOne S r.keys.encKey d ct).2 }) := by
  simp only [RecordLayer.open,DirPool.openOne,EntropyPool.nextNonce,EntropyPool.absorb,
    EntropyPool.counter_eq]
  split <;> simp_all

@[simp] theorem keys_seal (d : Direction) (pt : Bytes) : (r.seal S d pt).2.keys = r.keys := by
  rw [seal_eq]

@[simp] theorem keys_open (d : Direction) (ct : Bytes) : (r.open S d ct).2.keys = r.keys := by
  rw [open_eq]

theorem length_seal (h : S.AeadLaws) (d : Direction) (pt : Bytes) :
    (r.seal S d pt).1.length = pt.length + tagLen := by
  rw [seal_eq]
  exact h.sealedLen _ _ _ _

theorem open_seal (h : S.AeadLaws) (d : Direction) (pt : Bytes) :
    r.open S d (r.seal S d pt).1 = (.ok pt,(r.seal S d pt).2) := by
  rw [open_eq,seal_eq]
  simp only [DirPool.openOne_sealOne S _ d h]

end RecordLayer

namespace RecordCall
variable (S : CipherSuite) (r : RecordLayer)

theorem keys_step (c : RecordCall) : (c.step S r).2.keys = r.keys := by
  cases c <;> simp [step]

theorem pool_step (c : RecordCall) (d : Direction) :
    ((c.step S r).2.pool.dir d).state.key = (r.pool.dir d).state.key ∧
      (r.pool.dir d).state.input <+: ((c.step S r).2.pool.dir d).state.input := by
  cases c with
  | seals e pt =>
    rcases Direction.eq_or_flip e d with rfl | rfl <;>
      simp [step,RecordLayer.seal_eq,DirPool.sealOne]
  | opens e ct =>
    rcases Direction.eq_or_flip e d with rfl | rfl
    · simp only [step,RecordLayer.open_eq,EntropyPool.dir_setDir,DirPool.openOne]
      split <;> simp
    · simp [step,RecordLayer.open_eq]

end RecordCall

end OrtTunnel.Core
