import OrtTunnel.Core.Handshake.AntiReplay
import OrtTunnel.Net.Session

namespace OrtTunnel.Net
open BigEndian Proto OrtTunnel.Core

inductive IpAddr where
  | v4 (octets : Arr 4)
  | v6 (octets : Arr 16)
  deriving DecidableEq

def ipToBytes : IpAddr → Arr 16
  | .v4 octets => ⟨List.replicate 10 0 ++ [255,255] ++ octets.val,by simp [octets.property]⟩
  | .v6 octets => octets

-- An accepted socket: its address and everything the other end will ever send.
structure Peer where
  ip : IpAddr
  incoming : Bytes

inductive ServerTask where
  | accepted
  | first (frame : Frame) (rest : Bytes)
  | stepped (step : ServerStep) (rest : Bytes)
  | greeted (hello : Frame) (rest : Bytes)
  | second (hello frame : Frame) (rest : Bytes)
  | served (out : ServerOutcome)
  | forwarding (out : ServerOutcome)
  | failed (e : OrtError)
  | unreachable

structure Daemon where
  strike : StrikeCache
  task : ℕ → ServerTask

-- A task runs alone between two awaits; the lock is held for exactly one handshake call.
inductive ServerAction where
  | reads (i : ℕ)
  | locks (i : ℕ) (now : UInt64)
  | writes (i : ℕ) (wrote : Except IoError Unit)
  | connects (i : ℕ) (ok : Bool)

namespace Daemon

def set (d : Daemon) (i : ℕ) (t : ServerTask) : Daemon := ⟨d.strike,Function.update d.task i t⟩

section Step
variable (S : CipherSuite) (scfg : ServerConfig S) (peer : ℕ → Peer)

def start : Daemon := ⟨StrikeCache.new scfg.windowMs,fun _ => .accepted⟩

def locked (d : Daemon) (i : ℕ) (now : UInt64) : Option Call :=
  match d.task i with
  | .first frame _ => some ⟨.first,frame,ipToBytes (peer i).ip,now⟩
  | .second _ frame _ => some ⟨.clientData,frame,ipToBytes (peer i).ip,now⟩
  | _ => none

def step (d : Daemon) : ServerAction → Daemon
  | .reads i =>
    match d.task i with
    | .accepted =>
      match readHandshake (peer i).incoming with
      | .error e => d.set i (.failed e)
      | .ok (frame,rest) => d.set i (.first frame rest)
    | .greeted hello rest =>
      match readHandshake rest with
      | .error e => d.set i (.failed e)
      | .ok (frame,rest) => d.set i (.second hello frame rest)
    | _ => d
  | .locks i now =>
    match d.task i with
    | .first frame rest =>
      match serverOnFirst S scfg frame (ipToBytes (peer i).ip) now d.strike with
      | (.error e,strike) => set ⟨strike,d.task⟩ i (.failed (.core e))
      | (.ok step,strike) => set ⟨strike,d.task⟩ i (.stepped step rest)
    | .second hello frame rest =>
      match serverOnClientData S scfg frame (ipToBytes (peer i).ip) now d.strike with
      | (.error e,strike) => set ⟨strike,d.task⟩ i (.failed (.core e))
      | (.ok established,strike) => set ⟨strike,d.task⟩ i (.served
          ⟨⟨rest,encodeFramed hello.encode,established.record,.server⟩,established.earlyData⟩)
    | _ => d
  | .writes i wrote =>
    match d.task i,wrote with
    | .stepped _ _,.error e => d.set i (.failed (.io e))
    | .stepped (.zeroRtt ack established) rest,.ok _ => d.set i (.served
        ⟨⟨rest,encodeFramed ack.encode,established.record,.server⟩,established.earlyData⟩)
    | .stepped (.oneRtt hello) rest,.ok _ => d.set i (.greeted hello rest)
    | _,_ => d
  | .connects i ok =>
    match d.task i with
    | .served out => if ok then d.set i (.forwarding out) else d.set i .unreachable
    | _ => d

def answered (d : Daemon) : ServerAction → Option (ℕ × Outcome)
  | .locks i now => (d.locked peer i now).map fun c => (i,(serverCall S scfg d.strike c).1)
  | _ => none

-- What the lock has been used for, in the order in which it was taken.
def run (actions : List ServerAction) : List (Option (ℕ × Outcome)) × Daemon :=
  Machine.run (fun d a => (answered S scfg peer d a,step S scfg peer d a)) (start S scfg) actions

end Step

inductive Quiet (p : Peer) : ServerTask → ServerTask → Prop where
  | first {frame : Frame} {rest : Bytes} (h : readHandshake p.incoming = .ok (frame,rest)) :
    Quiet p .accepted (.first frame rest)
  | noFirst {e : OrtError} (h : readHandshake p.incoming = .error e) : Quiet p .accepted (.failed e)
  | second {hello frame : Frame} {rest rest' : Bytes} (h : readHandshake rest = .ok (frame,rest')) :
    Quiet p (.greeted hello rest) (.second hello frame rest')
  | noSecond {hello : Frame} {rest : Bytes} {e : OrtError} (h : readHandshake rest = .error e) :
    Quiet p (.greeted hello rest) (.failed e)
  | lost {step : ServerStep} {rest : Bytes} {e : IoError} :
    Quiet p (.stepped step rest) (.failed (.io e))
  | acked {ack : Frame} {est : ServerEstablished} {rest : Bytes} :
    Quiet p (.stepped (.zeroRtt ack est) rest)
      (.served ⟨⟨rest,encodeFramed ack.encode,est.record,.server⟩,est.earlyData⟩)
  | greeted {hello : Frame} {rest : Bytes} :
    Quiet p (.stepped (.oneRtt hello) rest) (.greeted hello rest)
  | connected {out : ServerOutcome} : Quiet p (.served out) (.forwarding out)
  | refused {out : ServerOutcome} : Quiet p (.served out) .unreachable

inductive Locking (S : CipherSuite) (scfg : ServerConfig S) (p : Peer) (strike : StrikeCache)
    (now : UInt64) : ServerTask → Call → ServerTask → Prop where
  | stepped {frame : Frame} {rest : Bytes} {step : ServerStep}
    (h : (serverOnFirst S scfg frame (ipToBytes p.ip) now strike).1 = .ok step) :
    Locking S scfg p strike now (.first frame rest) ⟨.first,frame,ipToBytes p.ip,now⟩
      (.stepped step rest)
  | firstFails {frame : Frame} {rest : Bytes} {e : Error}
    (h : (serverOnFirst S scfg frame (ipToBytes p.ip) now strike).1 = .error e) :
    Locking S scfg p strike now (.first frame rest) ⟨.first,frame,ipToBytes p.ip,now⟩
      (.failed (.core e))
  | served {hello frame : Frame} {rest : Bytes} {est : ServerEstablished}
    (h : (serverOnClientData S scfg frame (ipToBytes p.ip) now strike).1 = .ok est) :
    Locking S scfg p strike now (.second hello frame rest) ⟨.clientData,frame,ipToBytes p.ip,now⟩
      (.served ⟨⟨rest,encodeFramed hello.encode,est.record,.server⟩,est.earlyData⟩)
  | secondFails {hello frame : Frame} {rest : Bytes} {e : Error}
    (h : (serverOnClientData S scfg frame (ipToBytes p.ip) now strike).1 = .error e) :
    Locking S scfg p strike now (.second hello frame rest) ⟨.clientData,frame,ipToBytes p.ip,now⟩
      (.failed (.core e))

section Cases
variable {S : CipherSuite} {scfg : ServerConfig S} {peer : ℕ → Peer}

theorem reads_cases (d : Daemon) (i : ℕ) : step S scfg peer d (.reads i) = d ∨
    ∃ t, Quiet (peer i) (d.task i) t ∧ step S scfg peer d (.reads i) = d.set i t := by
  cases ht : d.task i with
  | accepted =>
    right
    cases hr : readHandshake (peer i).incoming with
    | error e => exact ⟨_,.noFirst hr,by simp only [step,ht,hr]⟩
    | ok got => exact ⟨_,.first hr,by simp only [step,ht,hr]⟩
  | greeted hello rest =>
    right
    cases hr : readHandshake rest with
    | error e => exact ⟨_,.noSecond hr,by simp only [step,ht,hr]⟩
    | ok got => exact ⟨_,.second hr,by simp only [step,ht,hr]⟩
  | _ => exact .inl (by simp only [step,ht])

theorem writes_cases (d : Daemon) (i : ℕ) (wrote : Except IoError Unit) :
    step S scfg peer d (.writes i wrote) = d ∨
    ∃ t, Quiet (peer i) (d.task i) t ∧ step S scfg peer d (.writes i wrote) = d.set i t := by
  cases ht : d.task i with
  | stepped reply rest =>
    right
    cases wrote with
    | error e => exact ⟨.failed (.io e),.lost,by simp only [step,ht]⟩
    | ok _ =>
      cases reply with
      | zeroRtt ack est => exact ⟨_,.acked,by simp only [step,ht]⟩
      | oneRtt hello => exact ⟨_,.greeted,by simp only [step,ht]⟩
  | _ => exact .inl (by simp only [step,ht])

theorem connects_cases (d : Daemon) (i : ℕ) (ok : Bool) : step S scfg peer d (.connects i ok) = d ∨
    ∃ t, Quiet (peer i) (d.task i) t ∧ step S scfg peer d (.connects i ok) = d.set i t := by
  cases ht : d.task i with
  | served out =>
    right
    cases ok with
    | true => exact ⟨_,.connected,by simp only [step,ht,if_true]⟩
    | false => exact ⟨_,.refused,by simp [step,ht]⟩
  | _ => exact .inl (by simp only [step,ht])

theorem locks_cases (d : Daemon) (i : ℕ) (now : UInt64) :
    (answered S scfg peer d (.locks i now) = none ∧ step S scfg peer d (.locks i now) = d) ∨
    ∃ c t, Locking S scfg (peer i) d.strike now (d.task i) c t ∧
      answered S scfg peer d (.locks i now) = some (i,(serverCall S scfg d.strike c).1) ∧
      step S scfg peer d (.locks i now) = set ⟨(serverCall S scfg d.strike c).2,d.task⟩ i t := by
  cases ht : d.task i with
  | first frame rest =>
    right
    rcases hr : serverOnFirst S scfg frame (ipToBytes (peer i).ip) now d.strike with ⟨e | reply,strike⟩
    · exact ⟨_,_,.firstFails (by rw [hr]),by simp [answered,locked,ht],
        by simp [step,ht,hr,serverCall]⟩
    · exact ⟨_,_,.stepped (by rw [hr]),by simp [answered,locked,ht],
        by simp [step,ht,hr,serverCall]⟩
  | second hello frame rest =>
    right
    rcases hr : serverOnClientData S scfg frame (ipToBytes (peer i).ip) now d.strike with
      ⟨e | est,strike⟩
    · exact ⟨_,_,.secondFails (by rw [hr]),by simp [answered,locked,ht],
        by simp [step,ht,hr,serverCall]⟩
    · exact ⟨_,_,.served (by rw [hr]),by simp [answered,locked,ht],
        by simp [step,ht,hr,serverCall]⟩
  | _ => exact .inl ⟨by simp [answered,locked,ht],by simp only [step,ht]⟩

theorem step_cases (d : Daemon) (a : ServerAction) :
    (answered S scfg peer d a = none ∧ step S scfg peer d a = d) ∨
    (answered S scfg peer d a = none ∧
      ∃ i t, Quiet (peer i) (d.task i) t ∧ step S scfg peer d a = d.set i t) ∨
    ∃ i now c t, a = .locks i now ∧ Locking S scfg (peer i) d.strike now (d.task i) c t ∧
      answered S scfg peer d a = some (i,(serverCall S scfg d.strike c).1) ∧
      step S scfg peer d a = set ⟨(serverCall S scfg d.strike c).2,d.task⟩ i t := by
  cases a with
  | reads i =>
    rcases @reads_cases S scfg peer d i with h | ⟨t,ht,h⟩
    · exact .inl ⟨rfl,h⟩
    · exact .inr (.inl ⟨rfl,i,t,ht,h⟩)
  | writes i wrote =>
    rcases @writes_cases S scfg peer d i wrote with h | ⟨t,ht,h⟩
    · exact .inl ⟨rfl,h⟩
    · exact .inr (.inl ⟨rfl,i,t,ht,h⟩)
  | connects i ok =>
    rcases @connects_cases S scfg peer d i ok with h | ⟨t,ht,h⟩
    · exact .inl ⟨rfl,h⟩
    · exact .inr (.inl ⟨rfl,i,t,ht,h⟩)
  | locks i now =>
    rcases @locks_cases S scfg peer d i now with h | ⟨c,t,ht,ha,h⟩
    · exact .inl h
    · exact .inr (.inr ⟨i,now,c,t,rfl,ht,ha,h⟩)

end Cases

end Daemon

def sessionsBy (log : List (ℕ × Outcome)) : List (ℕ × Session) :=
  log.filterMap fun p => p.2.session.map fun s => (p.1,s)

def servedBy (log : List (ℕ × Outcome)) (p : Peer) (i : ℕ) (est : ServerEstablished) : Prop :=
  ∃ s, (i,s) ∈ sessionsBy log ∧ s.established = est ∧ s.call.peerIp = ipToBytes p.ip

def Unserved (log : List (ℕ × Outcome)) (i : ℕ) : Prop := ∀ s, (i,s) ∉ sessionsBy log

def TaskOk (log : List (ℕ × Outcome)) (p : Peer) (i : ℕ) : ServerTask → Prop
  | .stepped (.zeroRtt _ est) _ => servedBy log p i est
  | .served out => servedBy log p i ⟨out.conn.record,out.earlyData⟩
  | .forwarding out => servedBy log p i ⟨out.conn.record,out.earlyData⟩
  | .failed _ => True
  | .unreachable => True
  | _ => Unserved log i

section Log
variable {S : CipherSuite} {scfg : ServerConfig S} {log : List (ℕ × Outcome)} {p : Peer} {i j : ℕ}

theorem sessionsBy_snoc (q : ℕ × Outcome) :
    sessionsBy (log ++ [q]) = sessionsBy log ++ (q.2.session.map fun s => (q.1,s)).toList := by
  rw [sessionsBy,List.filterMap_append]
  cases h : q.2.session <;> simp [sessionsBy,h]

theorem sessions_eq (log : List (ℕ × Outcome)) :
    sessions (log.map Prod.snd) = (sessionsBy log).map Prod.snd := by
  rw [sessions,sessionsBy,List.filterMap_map,List.map_filterMap]
  congr 1
  funext q
  cases h : q.2.session <;> simp [h]

theorem servedBy_snoc {est : ServerEstablished} (h : servedBy log p i est) (q : ℕ × Outcome) :
    servedBy (log ++ [q]) p i est := by
  obtain ⟨s,hs,hrest⟩ := h
  exact ⟨s,by rw [sessionsBy_snoc]; exact List.mem_append_left _ hs,hrest⟩

theorem unserved_snoc (h : Unserved log i) {q : ℕ × Outcome} (hq : q.1 = i → q.2.session = none) :
    Unserved (log ++ [q]) i := by
  intro s hs
  rw [sessionsBy_snoc,List.mem_append] at hs
  rcases hs with hs | hs
  · exact h s hs
  · simp only [Option.mem_toList,Option.map_eq_some_iff,Prod.mk.injEq] at hs
    obtain ⟨r,hr,hi,-⟩ := hs
    rw [hq hi] at hr
    cases hr

theorem taskOk_other {t : ServerTask} (h : TaskOk log p i t) {q : ℕ × Outcome} (hq : q.1 ≠ i) :
    TaskOk (log ++ [q]) p i t := by
  have hun : Unserved log i → Unserved (log ++ [q]) i := fun hu => unserved_snoc hu fun he =>
    absurd he hq
  cases t with
  | stepped step rest =>
    cases step with
    | zeroRtt ack est => exact servedBy_snoc h q
    | oneRtt hello => exact hun h
  | served out => exact servedBy_snoc h q
  | forwarding out => exact servedBy_snoc h q
  | failed e => trivial
  | unreachable => trivial
  | _ => exact hun h

theorem taskOk_quiet {t t' : ServerTask} (h : TaskOk log p i t) (hq : Daemon.Quiet p t t') :
    TaskOk log p i t' := by
  cases hq with
  | noFirst => trivial
  | noSecond => trivial
  | lost => trivial
  | refused => trivial
  | _ => exact h

theorem call_serverCall (strike : StrikeCache) (c : Call) :
    (serverCall S scfg strike c).1.call = c := by
  rw [serverCall]
  split <;> rfl

theorem flight_zeroRtt {frame : Frame} {ip : Arr 16} {now : UInt64} {strike : StrikeCache}
    {ack : Frame} {est : ServerEstablished}
    (h : (serverOnFirst S scfg frame ip now strike).1 = .ok (.zeroRtt ack est)) :
    ∃ f, (⟨.first,frame,ip,now⟩ : Call).flight = some f := by
  cases frame with
  | clientHelloZeroRtt suiteId pk payload =>
    cases hs : SuiteId.fromCode suiteId with
    | none => simp [serverOnFirst,checkSuite,hs] at h
    | some id => exact ⟨⟨pk,payload⟩,by simp [Call.flight,hs]⟩
  | clientHelloOneRtt suiteId pk => cases hs : checkSuite suiteId <;> simp [serverOnFirst,hs] at h
  | _ => simp [serverOnFirst] at h

theorem flight_clientData {frame : Frame} {ip : Arr 16} {now : UInt64} {strike : StrikeCache}
    {est : ServerEstablished} (h : (serverOnClientData S scfg frame ip now strike).1 = .ok est) :
    ∃ f, (⟨.clientData,frame,ip,now⟩ : Call).flight = some f := by
  cases frame with
  | clientData pk payload => exact ⟨⟨pk,payload⟩,rfl⟩
  | _ => simp [serverOnClientData] at h

theorem servedBy_new {s : Session} {o : Outcome} (ho : o.session = some s)
    (hip : s.call.peerIp = ipToBytes p.ip) : servedBy (log ++ [(i,o)]) p i s.established := by
  refine ⟨s,?_,rfl,hip⟩
  rw [sessionsBy_snoc,ho]
  simp

theorem taskOk_locking {strike : StrikeCache} {now : UInt64} {c : Call} {t t' : ServerTask}
    (h : Daemon.Locking S scfg p strike now t c t') (ht : TaskOk log p i t) :
    Unserved log i ∧ TaskOk (log ++ [(i,(serverCall S scfg strike c).1)]) p i t' := by
  cases h with
  | @stepped frame rest reply hs =>
    refine ⟨ht,?_⟩
    have hout : (serverCall S scfg strike ⟨.first,frame,ipToBytes p.ip,now⟩).1 =
        ⟨⟨.first,frame,ipToBytes p.ip,now⟩,.ok (.stepped reply)⟩ := by
      simp [serverCall,hs,Except.map]
    rw [hout]
    cases reply with
    | zeroRtt ack est =>
      obtain ⟨f,hf⟩ := flight_zeroRtt hs
      have hsess : (⟨⟨.first,frame,ipToBytes p.ip,now⟩,.ok (.stepped (.zeroRtt ack est))⟩ :
          Outcome).session = some ⟨⟨.first,frame,ipToBytes p.ip,now⟩,f,est⟩ := by
        simp [Outcome.session,hf,Reply.established]
      exact servedBy_new hsess rfl
    | oneRtt hello =>
      refine unserved_snoc ht fun _ => ?_
      cases hf : (⟨.first,frame,ipToBytes p.ip,now⟩ : Call).flight with
      | none => simp [Outcome.session,hf]
      | some f => simp [Outcome.session,hf,Reply.established]
  | @served hello frame rest est hs =>
    refine ⟨ht,?_⟩
    have hout : (serverCall S scfg strike ⟨.clientData,frame,ipToBytes p.ip,now⟩).1 =
        ⟨⟨.clientData,frame,ipToBytes p.ip,now⟩,.ok (.done est)⟩ := by
      simp [serverCall,hs,Except.map]
    rw [hout]
    obtain ⟨f,hf⟩ := flight_clientData hs
    have hsess : (⟨⟨.clientData,frame,ipToBytes p.ip,now⟩,.ok (.done est)⟩ : Outcome).session =
        some ⟨⟨.clientData,frame,ipToBytes p.ip,now⟩,f,est⟩ := by
      simp [Outcome.session,hf,Reply.established]
    exact servedBy_new hsess rfl
  | firstFails hs => exact ⟨ht,trivial⟩
  | secondFails hs => exact ⟨ht,trivial⟩

end Log

structure DaemonInv (S : CipherSuite) (scfg : ServerConfig S) (peer : ℕ → Peer)
    (log : List (ℕ × Outcome)) (d : Daemon) : Prop where
  serial : serve S scfg (log.map fun q => q.2.call) = (log.map Prod.snd,d.strike)
  once : ((sessionsBy log).map Prod.fst).Nodup
  tasks : ∀ i, TaskOk log (peer i) i (d.task i)

section Runs
variable {S : CipherSuite} {scfg : ServerConfig S} {peer : ℕ → Peer}
variable {log : List (ℕ × Outcome)} {d : Daemon}

theorem daemonInv_start : DaemonInv S scfg peer [] (Daemon.start S scfg) where
  serial := rfl
  once := List.nodup_nil
  tasks := fun _ _ hs => by cases hs

theorem daemonInv_quiet (h : DaemonInv S scfg peer log d) {i : ℕ} {t : ServerTask}
    (hq : Daemon.Quiet (peer i) (d.task i) t) : DaemonInv S scfg peer log (d.set i t) := by
  refine ⟨h.serial,h.once,?_⟩
  intro j
  by_cases hj : j = i
  · subst hj
    simpa [Daemon.set] using taskOk_quiet (h.tasks j) hq
  · simpa [Daemon.set,Function.update_of_ne hj] using h.tasks j

theorem daemonInv_locks (h : DaemonInv S scfg peer log d) {i : ℕ} {now : UInt64} {c : Call}
    {t : ServerTask} (hl : Daemon.Locking S scfg (peer i) d.strike now (d.task i) c t) :
    DaemonInv S scfg peer (log ++ [(i,(serverCall S scfg d.strike c).1)])
      (Daemon.set ⟨(serverCall S scfg d.strike c).2,d.task⟩ i t) := by
  obtain ⟨hun,hnext⟩ := taskOk_locking hl (h.tasks i)
  refine ⟨?_,?_,?_⟩
  · have hserial := h.serial
    rw [serve] at hserial
    rw [List.map_append,List.map_append,serve,List.map_singleton,call_serverCall,Machine.run_snoc,
      hserial]
    rfl
  · rw [sessionsBy_snoc,List.map_append]
    refine h.once.append ?_ ?_
    · cases (serverCall S scfg d.strike c).1.session <;> simp
    · intro k hk hk'
      obtain ⟨⟨k,s⟩,hs,rfl⟩ := List.mem_map.mp hk
      cases hsess : (serverCall S scfg d.strike c).1.session with
      | none => simp [hsess] at hk'
      | some r =>
        simp only [hsess,Option.map_some,Option.toList_some,List.map_singleton,
          List.mem_singleton] at hk'
        subst hk'
        exact hun s hs
  · intro j
    by_cases hj : j = i
    · subst hj
      simpa [Daemon.set] using hnext
    · simpa [Daemon.set,Function.update_of_ne hj] using taskOk_other (h.tasks j) (Ne.symm hj)

theorem daemonInv_step (h : DaemonInv S scfg peer log d) (a : ServerAction) :
    DaemonInv S scfg peer (log ++ (Daemon.answered S scfg peer d a).toList)
      (Daemon.step S scfg peer d a) := by
  obtain ⟨hans,hs⟩ | ⟨hans,i,t,hq,hs⟩ | ⟨i,now,c,t,-,hl,hans,hs⟩ :=
    @Daemon.step_cases S scfg peer d a
  · rw [hans,hs]
    simpa using h
  · rw [hans,hs]
    simpa using daemonInv_quiet h hq
  · rw [hans,hs]
    exact daemonInv_locks h hl

variable (S scfg peer) in
def lockLog (actions : List ServerAction) : List (ℕ × Outcome) :=
  (Daemon.run S scfg peer actions).1.reduceOption

variable (S scfg peer) in
def lockCalls (actions : List ServerAction) : List Call :=
  (lockLog S scfg peer actions).map fun q => q.2.call

theorem reduceOption_snoc {α : Type} (as : List (Option α)) (a : Option α) :
    (as ++ [a]).reduceOption = as.reduceOption ++ a.toList := by
  rw [List.reduceOption_append]
  cases a <;> rfl

theorem daemonInv_run (actions : List ServerAction) :
    DaemonInv S scfg peer (lockLog S scfg peer actions) (Daemon.run S scfg peer actions).2 := by
  refine Machine.run_induction
    (fun d a => (Daemon.answered S scfg peer d a,Daemon.step S scfg peer d a))
    (P := fun _ os d => DaemonInv S scfg peer os.reduceOption d) daemonInv_start ?_ actions
  intro _ os d a h
  rw [reduceOption_snoc]
  exact daemonInv_step h a

end Runs

theorem daemon_linearizes (S : CipherSuite) (scfg : ServerConfig S) (peer : ℕ → Peer)
    (actions : List ServerAction) :
    let log := lockLog S scfg peer actions
    let d := (Daemon.run S scfg peer actions).2
    serve S scfg (lockCalls S scfg peer actions) = (log.map Prod.snd,d.strike) ∧
    established S scfg (lockCalls S scfg peer actions) = (sessionsBy log).map Prod.snd ∧
    ((sessionsBy log).map Prod.fst).Nodup ∧
    ∀ i out, d.task i = .forwarding out →
      servedBy log (peer i) i ⟨out.conn.record,out.earlyData⟩ := by
  intro log d
  have h : DaemonInv S scfg peer log d := daemonInv_run actions
  refine ⟨h.serial,?_,h.once,?_⟩
  · have hserial := h.serial
    rw [established,lockCalls,hserial]
    exact sessions_eq log
  · intro i out hi
    have ht := h.tasks i
    rw [hi] at ht
    exact ht

def ServedApart (S : CipherSuite) (windowMs : UInt64) (s r : Session) : Prop :=
  s.flight.tag S = r.flight.tag S →
    s.call.now.toNat + windowMs.toNat < r.call.now.toNat ∨
      r.call.now.toNat + windowMs.toNat < s.call.now.toNat

theorem ServedApart.symm {S : CipherSuite} {windowMs : UInt64} {s r : Session}
    (h : ServedApart S windowMs s r) : ServedApart S windowMs r s :=
  fun htag => (h htag.symm).symm

theorem sessions_apart {S : CipherSuite} {scfg : ServerConfig S} {peer : ℕ → Peer}
    {actions : List ServerAction} (hclock : ClockOk (lockCalls S scfg peer actions)) {i j : ℕ}
    {s r : Session} (hij : i ≠ j) (hs : (i,s) ∈ sessionsBy (lockLog S scfg peer actions))
    (hr : (j,r) ∈ sessionsBy (lockLog S scfg peer actions)) :
    Vouched S scfg s ∧ Vouched S scfg r ∧ ServedApart S scfg.windowMs s r := by
  have hinv := runInv_serve S scfg hclock
  have hsess : sessions (serve S scfg (lockCalls S scfg peer actions)).1 =
      (sessionsBy (lockLog S scfg peer actions)).map Prod.snd := by
    rw [← sessions_eq,lockCalls,(@daemonInv_run S scfg peer actions).serial]
  have hvouched := hinv.vouched
  have hsep := hinv.separated
  rw [hsess] at hvouched hsep
  refine ⟨hvouched s (List.mem_map.mpr ⟨_,hs,rfl⟩),hvouched r (List.mem_map.mpr ⟨_,hr,rfl⟩),?_⟩
  have : Std.Symm fun a b : ℕ × Session => ServedApart S scfg.windowMs a.2 b.2 :=
    ⟨fun _ _ h => h.symm⟩
  have hpairs := (List.pairwise_map.mp hsep).imp (S := fun a b : ℕ × Session =>
    ServedApart S scfg.windowMs a.2 b.2) fun h htag => .inl (h htag)
  exact hpairs.forall hs hr fun heq => hij (congrArg Prod.fst heq)

theorem daemon_forwards_once (S : CipherSuite) (scfg : ServerConfig S) (peer : ℕ → Peer)
    (actions : List ServerAction) (hclock : ClockOk (lockCalls S scfg peer actions)) (i j : ℕ)
    (hij : i ≠ j) (a b : ServerOutcome)
    (ha : (Daemon.run S scfg peer actions).2.task i = .forwarding a)
    (hb : (Daemon.run S scfg peer actions).2.task j = .forwarding b) :
    ∃ s r, (i,s) ∈ sessionsBy (lockLog S scfg peer actions) ∧
      (j,r) ∈ sessionsBy (lockLog S scfg peer actions) ∧
      s.established = ⟨a.conn.record,a.earlyData⟩ ∧ r.established = ⟨b.conn.record,b.earlyData⟩ ∧
      ServedApart S scfg.windowMs s r ∧ (scfg.skewMs = 0 → s.flight.payload ≠ r.flight.payload) := by
  have hinv := @daemonInv_run S scfg peer actions
  have hi := hinv.tasks i
  have hj := hinv.tasks j
  rw [ha] at hi
  rw [hb] at hj
  obtain ⟨s,hs,hes,-⟩ := hi
  obtain ⟨r,hr,her,-⟩ := hj
  obtain ⟨hvs,hvr,hapart⟩ := sessions_apart hclock hij hs hr
  refine ⟨s,r,hs,hr,hes,her,hapart,?_⟩
  intro hskew hsame
  have hts := admits_time S scfg hvs.admitted
  have htr := admits_time S scfg hvr.admitted
  rw [hskew,← hsame] at htr
  rw [hskew] at hts
  have hzero : (0 : UInt64).toNat = 0 := rfl
  rcases hapart (by rw [Flight.tag,Flight.tag,hsame]) with hlt | hlt
  · omega
  · omega

def helloPeer (r : UInt8) : Peer :=
  ⟨.v4 (fill 4 9),match plainHello 1 r (ipToBytes (.v4 (fill 4 9))) 900 with
    | .ok (frame,_) => encodeFramed frame.encode
    | .error _ => []⟩

def twoPeers : ℕ → Peer
  | 0 => helloPeer 3
  | _ => helloPeer 4

def twoTasks : List ServerAction :=
  [.reads 0,.reads 1,.locks 1 1000,.locks 0 1100,.writes 0 (.ok ()),.writes 1 (.ok ()),
    .connects 1 true,.connects 0 true]

def ServerTask.forwards : ServerTask → Bool
  | .forwarding _ => true
  | _ => false

theorem ServerTask.forwards_iff {t : ServerTask} : t.forwards = true ↔ ∃ out, t = .forwarding out := by
  cases t <;> simp [ServerTask.forwards]

theorem daemon_forwards_once_two :
    ∃ s r, (0,s) ∈ sessionsBy (lockLog plainSuite (plainServer 2000 0) twoPeers twoTasks) ∧
      (1,r) ∈ sessionsBy (lockLog plainSuite (plainServer 2000 0) twoPeers twoTasks) ∧
      s.flight.payload ≠ r.flight.payload := by
  have hboth : ((Daemon.run plainSuite (plainServer 2000 0) twoPeers twoTasks).2.task 0).forwards =
      true ∧ ((Daemon.run plainSuite (plainServer 2000 0) twoPeers twoTasks).2.task 1).forwards =
      true := by decide +kernel
  obtain ⟨a,ha⟩ := ServerTask.forwards_iff.mp hboth.1
  obtain ⟨b,hb⟩ := ServerTask.forwards_iff.mp hboth.2
  obtain ⟨s,r,hs,hr,-,-,-,hne⟩ := daemon_forwards_once plainSuite (plainServer 2000 0) twoPeers
    twoTasks (by decide +kernel) 0 1 (by decide) a b ha hb
  exact ⟨s,r,hs,hr,hne rfl⟩

section Accept
variable (S : CipherSuite) (scfg : ServerConfig S) (peer : ℕ → Peer)

-- Task `i`, in state `t`, takes the lock at clock reading `now` and finds the cache `strike` there.
structure LockedAt (actions : List ServerAction) (i : ℕ) (t : ServerTask) (now : UInt64)
    (strike : StrikeCache) : Prop where
  step : ∃ before, before ++ [.locks i now] <+: actions ∧
    (Daemon.run S scfg peer before).2.task i = t ∧ (Daemon.run S scfg peer before).2.strike = strike

-- `server_accept` run on its own, with the caches and the clock readings of the task's own locks;
-- what it would find at a lock that the task did not reach makes no difference.
inductive AcceptsAs (actions : List ServerAction) (i : ℕ) (r : Except OrtError ServerOutcome) :
    Prop where
  | unread (h : ∀ net strike, net.incoming = (peer i).incoming →
      (serverAccept S scfg net strike).1 = r)
  | once (wrote : Except IoError Unit) {frame : Frame} {rest : Bytes} {now : UInt64}
    {strike : StrikeCache} (first : LockedAt S scfg peer actions i (.first frame rest) now strike)
    (h : ∀ nowSecond between, (serverAccept S scfg
      ⟨(peer i).incoming,wrote,ipToBytes (peer i).ip,now,nowSecond,between⟩ strike).1 = r)
  | twice {frame frame' hello : Frame} {rest rest' : Bytes} {now now' : UInt64}
    {strike strike' : StrikeCache}
    (first : LockedAt S scfg peer actions i (.first frame rest) now strike)
    (second : LockedAt S scfg peer actions i (.second hello frame' rest') now' strike')
    (h : (serverAccept S scfg ⟨(peer i).incoming,.ok (),ipToBytes (peer i).ip,now,now',
      fun _ => strike'⟩ strike).1 = r)

structure Replied (actions : List ServerAction) (i : ℕ) (step : ServerStep) (rest : Bytes) :
    Prop where
  call : ∃ frame now strike, readHandshake (peer i).incoming = .ok (frame,rest) ∧
    LockedAt S scfg peer actions i (.first frame rest) now strike ∧
    (serverOnFirst S scfg frame (ipToBytes (peer i).ip) now strike).1 = .ok step

def Accepting (actions : List ServerAction) (i : ℕ) : ServerTask → Prop
  | .accepted => True
  | .first frame rest => readHandshake (peer i).incoming = .ok (frame,rest)
  | .stepped step rest => Replied S scfg peer actions i step rest
  | .greeted hello rest => Replied S scfg peer actions i (.oneRtt hello) rest
  | .second hello frame rest => ∃ mid, Replied S scfg peer actions i (.oneRtt hello) mid ∧
      readHandshake mid = .ok (frame,rest)
  | .served out => AcceptsAs S scfg peer actions i (.ok out)
  | .forwarding out => AcceptsAs S scfg peer actions i (.ok out)
  | .failed e => AcceptsAs S scfg peer actions i (.error e)
  | .unreachable => ∃ out, AcceptsAs S scfg peer actions i (.ok out)

variable {S scfg peer} {actions more : List ServerAction} {i : ℕ} {strike : StrikeCache}

theorem LockedAt.mono {t : ServerTask} {now : UInt64}
    (h : LockedAt S scfg peer actions i t now strike) (hpre : actions <+: more) :
    LockedAt S scfg peer more i t now strike := by
  obtain ⟨before,hb,hrest⟩ := h.step
  exact ⟨before,hb.trans hpre,hrest⟩

theorem AcceptsAs.mono {r : Except OrtError ServerOutcome} (h : AcceptsAs S scfg peer actions i r)
    (hpre : actions <+: more) : AcceptsAs S scfg peer more i r := by
  cases h with
  | unread h => exact .unread h
  | once wrote first h => exact .once wrote (first.mono hpre) h
  | twice first second h => exact .twice (first.mono hpre) (second.mono hpre) h

theorem Replied.mono {step : ServerStep} {rest : Bytes} (h : Replied S scfg peer actions i step rest)
    (hpre : actions <+: more) : Replied S scfg peer more i step rest := by
  obtain ⟨frame,now,strike,hr,hs,hstep⟩ := h.call
  exact ⟨frame,now,strike,hr,hs.mono hpre,hstep⟩

theorem Accepting.mono {t : ServerTask} (h : Accepting S scfg peer actions i t)
    (hpre : actions <+: more) : Accepting S scfg peer more i t := by
  cases t with
  | accepted => trivial
  | first frame rest => exact h
  | stepped step rest => exact Replied.mono h hpre
  | greeted hello rest => exact Replied.mono h hpre
  | second hello frame rest =>
    obtain ⟨mid,hmid,hr⟩ := h
    exact ⟨mid,hmid.mono hpre,hr⟩
  | served out => exact AcceptsAs.mono h hpre
  | forwarding out => exact AcceptsAs.mono h hpre
  | failed e => exact AcceptsAs.mono h hpre
  | unreachable =>
    obtain ⟨out,hout⟩ := h
    exact ⟨out,hout.mono hpre⟩

end Accept

end OrtTunnel.Net
