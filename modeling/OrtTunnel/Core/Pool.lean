import OrtTunnel.Core.Suite

namespace OrtTunnel.Core
open BigEndian

inductive Direction where
  | clientToServer
  | serverToClient
  deriving DecidableEq, Repr

namespace Direction

def toU8 : Direction → UInt8
  | .clientToServer => 0
  | .serverToClient => 1

def flip : Direction → Direction
  | .clientToServer => .serverToClient
  | .serverToClient => .clientToServer

def label : Direction → Bytes
  | .clientToServer => ascii "ORT-v1 pool c2s"
  | .serverToClient => ascii "ORT-v1 pool s2c"

@[simp] theorem flip_flip (d : Direction) : d.flip.flip = d := by cases d <;> rfl

theorem flip_ne (d : Direction) : d.flip ≠ d := by cases d <;> decide

theorem eq_or_flip (d e : Direction) : e = d ∨ e = d.flip := by cases d <;> cases e <;> decide

theorem length_label (d : Direction) : d.label.length = 15 := by cases d <;> decide

theorem label_inj {d e : Direction} (h : d.label = e.label) : d = e := by
  cases d <;> cases e <;> first | rfl | exact absurd h (by decide)

theorem toU8_inj {d e : Direction} (h : d.toU8 = e.toU8) : d = e := by
  cases d <;> cases e <;> first | rfl | exact absurd h (by decide)

end Direction

structure Hasher where
  key : Arr 32
  input : Bytes
  deriving DecidableEq

namespace Hasher

def newKeyed (key : Arr 32) : Hasher := ⟨key,[]⟩

def update (h : Hasher) (data : Bytes) : Hasher := { h with input := h.input ++ data }

def finalizeXof (S : CipherSuite) (h : Hasher) : Arr nonceLen := S.keyedXof h.key h.input

end Hasher

def absorbLabel : Bytes := ascii "ORT-v1 absorb"

structure DirPool where
  state : Hasher
  counter : UInt64
  deriving DecidableEq

namespace DirPool

def new (poolKey : Arr 32) (dir : Direction) (seed : Bytes) : DirPool :=
  ⟨((Hasher.newKeyed poolKey).update dir.label).update seed,0⟩

def drawn (p : DirPool) : Hasher := p.state.update (toBe 8 p.counter.toNat)

-- `counter += 1` wraps in a release build.
def nextNonce (S : CipherSuite) (p : DirPool) : Arr nonceLen × DirPool :=
  (p.drawn.finalizeXof S,{ p with counter := p.counter + 1 })

def absorb (p : DirPool) (data : Bytes) : DirPool :=
  { p with state := (p.state.update absorbLabel).update data }

@[simp] theorem counter_absorb (p : DirPool) (data : Bytes) : (p.absorb data).counter = p.counter := rfl

@[simp] theorem key_absorb (p : DirPool) (data : Bytes) :
    (p.absorb data).state.key = p.state.key := rfl

@[simp] theorem input_absorb (p : DirPool) (data : Bytes) :
    (p.absorb data).state.input = p.state.input ++ (absorbLabel ++ data) := by
  simp [absorb,Hasher.update]

@[simp] theorem input_new (k : Arr 32) (dir : Direction) (seed : Bytes) :
    (new k dir seed).state.input = dir.label ++ seed := rfl

@[simp] theorem key_drawn (p : DirPool) : p.drawn.key = p.state.key := rfl

@[simp] theorem input_drawn (p : DirPool) :
    p.drawn.input = p.state.input ++ toBe 8 p.counter.toNat := rfl

@[simp] theorem state_nextNonce (S : CipherSuite) (p : DirPool) :
    (p.nextNonce S).2.state = p.state := rfl

@[simp] theorem counter_nextNonce (S : CipherSuite) (p : DirPool) :
    (p.nextNonce S).2.counter = p.counter + 1 := rfl

end DirPool

structure EntropyPool where
  c2s : DirPool
  s2c : DirPool
  deriving DecidableEq

namespace EntropyPool

def new (poolKey connmetaNonce : Arr 32) : EntropyPool :=
  ⟨DirPool.new poolKey .clientToServer connmetaNonce.val,
    DirPool.new poolKey .serverToClient connmetaNonce.val⟩

def dir (p : EntropyPool) : Direction → DirPool
  | .clientToServer => p.c2s
  | .serverToClient => p.s2c

def setDir (p : EntropyPool) (d : Direction) (q : DirPool) : EntropyPool :=
  match d with
  | .clientToServer => { p with c2s := q }
  | .serverToClient => { p with s2c := q }

def nextNonce (S : CipherSuite) (p : EntropyPool) (d : Direction) : Arr nonceLen × EntropyPool :=
  let (nonce,q) := (p.dir d).nextNonce S
  (nonce,p.setDir d q)

def absorb (p : EntropyPool) (d : Direction) (ciphertext : Bytes) : EntropyPool :=
  p.setDir d ((p.dir d).absorb ciphertext)

def counter (p : EntropyPool) : Direction → UInt64
  | .clientToServer => p.c2s.counter
  | .serverToClient => p.s2c.counter

@[simp] theorem dir_setDir (p : EntropyPool) (d : Direction) (q : DirPool) :
    (p.setDir d q).dir d = q := by cases d <;> rfl

@[simp] theorem dir_setDir_flip (p : EntropyPool) (d : Direction) (q : DirPool) :
    (p.setDir d q).dir d.flip = p.dir d.flip := by cases d <;> rfl

@[simp] theorem dir_flip_setDir (p : EntropyPool) (d : Direction) (q : DirPool) :
    (p.setDir d.flip q).dir d = p.dir d := by cases d <;> rfl

@[simp] theorem setDir_setDir (p : EntropyPool) (d : Direction) (q q' : DirPool) :
    (p.setDir d q).setDir d q' = p.setDir d q' := by cases d <;> rfl

theorem counter_eq (p : EntropyPool) (d : Direction) : p.counter d = (p.dir d).counter := by
  cases d <;> rfl

theorem dir_new (k n : Arr 32) (d : Direction) : (new k n).dir d = DirPool.new k d n.val := by
  cases d <;> rfl

end EntropyPool

end OrtTunnel.Core
