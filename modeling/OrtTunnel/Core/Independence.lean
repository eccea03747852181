import OrtTunnel.Core.Record
import OrtTunnel.Library.Machine

namespace OrtTunnel.Core
open BigEndian

namespace RecordCall

def act (S : CipherSuite) (p : Arr 32 × DirPool) : RecordCall → RecordResult × (Arr 32 × DirPool)
  | .seals d pt => (.sealed (p.2.sealOne S p.1 d pt).1,p.1,(p.2.sealOne S p.1 d pt).2)
  | .opens d ct => (.opened (p.2.openOne S p.1 d ct).1,p.1,(p.2.openOne S p.1 d ct).2)

end RecordCall

namespace RecordLayer

def component (r : RecordLayer) (d : Direction) : Arr 32 × DirPool := (r.keys.encKey,r.pool.dir d)

theorem step_local (S : CipherSuite) :
    Machine.Local (RecordCall.step S) RecordCall.dir component (RecordCall.act S) where
  out := by
    intro r c
    cases c <;> simp [RecordCall.step,RecordCall.act,RecordCall.dir,component,seal_eq,open_eq]
  own := by
    intro r c
    cases c <;> simp [RecordCall.step,RecordCall.act,RecordCall.dir,component,seal_eq,open_eq]
  frame := by
    intro r c d hd
    cases c with
    | seals e pt =>
      obtain rfl : e = d.flip := (Direction.eq_or_flip d e).resolve_left hd
      simp [RecordCall.step,component,seal_eq]
    | opens e ct =>
      obtain rfl : e = d.flip := (Direction.eq_or_flip d e).resolve_left hd
      simp [RecordCall.step,component,open_eq]

theorem keys_run (S : CipherSuite) (r : RecordLayer) (calls : List RecordCall) :
    (Machine.run (RecordCall.step S) r calls).2.keys = r.keys := by
  induction calls generalizing r with
  | nil => rfl
  | cons c calls ih =>
    rw [Machine.run,ih,c.keys_step]

theorem ext_dir {r r' : RecordLayer} (hk : r.keys = r'.keys)
    (hd : ∀ d, r.pool.dir d = r'.pool.dir d) : r = r' := by
  obtain ⟨keys,c2s,s2c⟩ := r
  obtain ⟨keys',c2s',s2c'⟩ := r'
  obtain rfl : keys = keys' := hk
  obtain rfl : c2s = c2s' := hd .clientToServer
  obtain rfl : s2c = s2c' := hd .serverToClient
  rfl

end RecordLayer

theorem directions_independent (S : CipherSuite) (r : RecordLayer) (calls : List RecordCall) :
    (∀ d, Machine.outputsOn RecordCall.dir d calls (Machine.run (RecordCall.step S) r calls).1 =
        (Machine.run (RecordCall.step S) r (Machine.project RecordCall.dir d calls)).1 ∧
      (Machine.run (RecordCall.step S) r calls).2.pool.dir d =
        (Machine.run (RecordCall.step S) r (Machine.project RecordCall.dir d calls)).2.pool.dir d) ∧
    ∀ calls' : List RecordCall,
      (∀ d, Machine.project RecordCall.dir d calls = Machine.project RecordCall.dir d calls') →
      (∀ d, Machine.outputsOn RecordCall.dir d calls (Machine.run (RecordCall.step S) r calls).1 =
        Machine.outputsOn RecordCall.dir d calls' (Machine.run (RecordCall.step S) r calls').1) ∧
      (Machine.run (RecordCall.step S) r calls).2 = (Machine.run (RecordCall.step S) r calls').2 := by
  have hrun := fun cs d => Machine.run_project (RecordLayer.step_local S) r cs d
  refine ⟨fun d => ⟨(hrun calls d).1,congrArg Prod.snd (hrun calls d).2⟩,?_⟩
  intro calls' hsame
  refine ⟨?_,RecordLayer.ext_dir ?_ ?_⟩
  · intro d
    rw [(hrun calls d).1,(hrun calls' d).1,hsame d]
  · rw [RecordLayer.keys_run,RecordLayer.keys_run]
  · intro d
    have hd := (hrun calls d).2
    rw [hsame d,← (hrun calls' d).2] at hd
    exact congrArg Prod.snd hd

end OrtTunnel.Core
