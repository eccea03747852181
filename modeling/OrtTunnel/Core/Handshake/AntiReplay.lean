import OrtTunnel.Core.Handshake.Agreement
import OrtTunnel.Core.Handshake.ServerRun

namespace OrtTunnel.Core
open BigEndian Proto

section Replay
variable (S : CipherSuite) (cfg : ServerConfig S)

-- The same flight passes every other check at both calls, but the cache forgets it in between.
def LateReplay (a b : Call) : Prop :=
  ∃ f, Acceptable S cfg a f ∧ Acceptable S cfg b f ∧
    a.now.toNat + cfg.windowMs.toNat < b.now.toNat

theorem established_calls {R : Call → Call → Prop} {calls : List Call} (hclock : ClockOk calls)
    (h : calls.Pairwise R) : (established S cfg calls).Pairwise fun a b => R a.call b.call :=
  List.pairwise_map.mp (h.sublist (runInv_serve S cfg hclock).ordered)

theorem established_twice {calls : List Call} (hclock : ClockOk calls) :
    (established S cfg calls).Pairwise fun a b =>
      a.flight = b.flight → LateReplay S cfg a.call b.call := by
  have hinv := runInv_serve S cfg hclock
  refine hinv.separated.imp_of_mem ?_
  intro a b ha hb hwait hsame
  have hva := hinv.vouched a ha
  have hvb := hinv.vouched b hb
  refine ⟨a.flight,hva.acceptable,hsame ▸ hvb.acceptable,?_⟩
  exact hwait (by rw [hsame])

theorem established_once (calls : List Call) (hclock : ClockOk calls)
    (hgap : calls.Pairwise fun a b => ¬ LateReplay S cfg a b) :
    ((established S cfg calls).map Session.flight).Nodup := by
  have htwice := (established_calls S cfg hclock hgap).and (established_twice S cfg hclock)
  refine List.pairwise_map.mpr (htwice.imp ?_)
  rintro a b ⟨hnot,hlate⟩ hsame
  exact hnot (hlate hsame)

theorem admits_time {c : Call} {f : Flight} (h : admits S cfg c f) :
    f.payload.tsMillis.toNat ≤ c.now.toNat + cfg.skewMs.toNat ∧
      c.now.toNat ≤ f.payload.tsMillis.toNat + cfg.windowMs.toNat := by
  obtain ⟨-,hwindow,-⟩ := (precheck_ok_iff S cfg _ _ _ _).mp h
  exact (checkWindow_ok_iff _ _ _ _).mp hwindow

theorem not_lateReplay {a b : Call}
    (h : cfg.skewMs = 0 ∨ cfg.windowMs.toNat = 2 ^ 64 - 1) : ¬ LateReplay S cfg a b := by
  rintro ⟨f,ha,hb,hlate⟩
  have hta := admits_time S cfg ha.admitted
  have htb := admits_time S cfg hb.admitted
  have hmax := b.now.toNat_lt
  rcases h with h | h
  · rw [h] at hta
    have hzero : (0 : UInt64).toNat = 0 := rfl
    omega
  · omega

-- A timestamp one millisecond ahead of the clock outlives its cache entry.
theorem replayed_ahead (hk : S.KemLaws) (hsig : S.SigLaws) (ha : S.AeadLaws) (sk : S.SigSecret)
    (hskew : cfg.skewMs ≠ 0) (hwindow : cfg.windowMs.toNat ≠ 2 ^ 64 - 1) :
    ∃ calls, ClockOk calls ∧ ¬ ((established S cfg calls).map Session.flight).Nodup := by
  have hlt := cfg.windowMs.toNat_lt
  have hpos : 0 < cfg.skewMs.toNat := Nat.pos_of_ne_zero fun h0 =>
    hskew (UInt64.toNat_inj.mp h0)
  obtain ⟨payload,client,hb⟩ : ∃ payload client, buildPayload S ⟨sk,S.sigPublic sk⟩
      (S.kemPublic cfg.kemSecret) (fill 16 0) 1 [] (fill rLen 0) (fill 32 0) = .ok (payload,client) :=
    buildPayload_total hk cfg.kemSecret
  let send (now : UInt64) : Call := ⟨.clientData,.clientData (S.sigPublic sk) payload,fill 16 0,now⟩
  have hnow : (cfg.windowMs + 1).toNat = cfg.windowMs.toNat + 1 := by
    rw [UInt64.toNat_add]
    exact Nat.mod_eq_of_lt (by simp; omega)
  have hadmits : ∀ now : UInt64, 1 ≤ now.toNat + cfg.skewMs.toNat →
      now.toNat ≤ 1 + cfg.windowMs.toNat →
      admits S cfg (send now) ⟨S.sigPublic sk,payload⟩ := fun now hf hp =>
    precheck_buildPayload hsig rfl hb hf hp
  have hest : establish S cfg payload = .ok ⟨client.record,[]⟩ := establish_buildPayload hk ha hb
  have hpair := established_pair S cfg (a := send 0) (b := send (cfg.windowMs + 1)) rfl rfl
    (hadmits 0 (by simp; omega) (by simp)) (hadmits _ (by omega) (by omega)) hest hest rfl (by
      simp only [send,hnow]
      simp)
  refine ⟨[send 0,send (cfg.windowMs + 1)],?_,?_⟩
  · simp [ClockOk,send]
  · rw [hpair]
    simp

theorem replay_closed_iff (hk : S.KemLaws) (hsig : S.SigLaws) (ha : S.AeadLaws)
    (sk : S.SigSecret) :
    (∀ calls, ClockOk calls → ((established S cfg calls).map Session.flight).Nodup) ↔
      cfg.skewMs = 0 ∨ cfg.windowMs.toNat = 2 ^ 64 - 1 := by
  constructor
  · intro h
    by_contra hn
    obtain ⟨hskew,hwindow⟩ := not_or.mp hn
    obtain ⟨calls,hclock,hdup⟩ := replayed_ahead S cfg hk hsig ha sk hskew hwindow
    exact hdup (h calls hclock)
  · intro h calls hclock
    refine List.pairwise_map.mpr ((established_twice S cfg hclock).imp ?_)
    intro a b hlate hsame
    exact not_lateReplay S cfg h (hlate hsame)

end Replay

def helloCalls (hello : Except Error (Frame × ClientEstablished)) (peerIp : Arr 16)
    (times : List UInt64) : List Call :=
  match hello with
  | .error _ => []
  | .ok (frame,_) => times.map fun now => ⟨.first,frame,peerIp,now⟩

theorem established_once_in_window :
    (established plainSuite (plainServer 2000 1000)
      (helloCalls (plainHello 1 3 (fill 16 9) 1500) (fill 16 9) [1000,2000,3000])).length = 1 ∧
    ((established plainSuite (plainServer 2000 1000)
      (helloCalls (plainHello 1 3 (fill 16 9) 1500) (fill 16 9) [1000,2000,3000])).map
        Session.flight).Nodup := by
  have hgap : (helloCalls (plainHello 1 3 (fill 16 9) 1500) (fill 16 9) [1000,2000,3000]).Pairwise
      fun a b => ¬ a.now.toNat + (2000 : UInt64).toNat < b.now.toNat := by decide +kernel
  refine ⟨by decide +kernel,established_once plainSuite (plainServer 2000 1000) _ (by decide +kernel)
    (hgap.imp ?_)⟩
  rintro a b hnear ⟨f,-,-,hlate⟩
  exact hnear hlate

theorem replay_after_eviction :
    ClockOk (helloCalls (plainHello 1 3 (fill 16 9) 1500) (fill 16 9) [1000,3200]) ∧
      ¬ ((established plainSuite (plainServer 2000 1000)
        (helloCalls (plainHello 1 3 (fill 16 9) 1500) (fill 16 9) [1000,3200])).map
          Session.flight).Nodup := by
  decide +kernel

end OrtTunnel.Core
