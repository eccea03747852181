import OrtTunnel.Core.Handshake.Exposure
import OrtTunnel.Library.Cells

namespace OrtTunnel.Core
open BigEndian Proto WindowLog Machine

section Cells
variable (S : CipherSuite) (cfg : ServerConfig S)

def Call.tag (c : Call) : Option (Arr 32) := c.flight.map (Flight.tag S)

def Seen (cell : Option ℕ) (now : UInt64) : Prop :=
  ∃ t, cell = some t ∧ now.toNat ≤ t + cfg.windowMs.toNat

instance (cell : Option ℕ) (now : UInt64) : Decidable (Seen S cfg cell now) :=
  match cell with
  | none => isFalse (by simp [Seen])
  | some t => decidable_of_iff (now.toNat ≤ t + cfg.windowMs.toNat) (by simp [Seen])

-- The server as it is meant: for each replay tag it remembers for ever when it last took it.
def cellPayload (cell : Option ℕ) (f : Flight) (peerIp : Arr 16) (now : UInt64) :
    Except Error ServerEstablished × Option ℕ :=
  match precheck S cfg f.clientPk f.payload peerIp now with
  | .error e => (.error e,cell)
  | .ok _ =>
    if Seen S cfg cell now then (.error .replayed,cell)
    else (establish S cfg f.payload,some now.toNat)

def Call.reply (c : Call) (r : Except Error ServerEstablished) : Except Error Reply :=
  match c.entry,c.frame with
  | .first,.clientHelloOneRtt suiteId _ =>
    (checkSuite suiteId).map fun _ => .stepped (.oneRtt (serverHello S cfg c.now))
  | .first,.clientHelloZeroRtt suiteId _ _ =>
    match checkSuite suiteId with
    | .error e => .error e
    | .ok _ => r.map fun est =>
        .stepped (.zeroRtt (.serverAck (est.record.encKeyHash S).val) est)
  | .first,_ => .error (.unexpectedMessage "server_on_first")
  | .clientData,.clientData _ _ => r.map .done
  | .clientData,_ => .error (.unexpectedMessage "server_on_client_data")

def cellCall (cell : Option ℕ) (c : Call) : Outcome × Option ℕ :=
  match c.flight with
  | none => (⟨c,c.reply S cfg (.error .replayed)⟩,cell)
  | some f =>
    let (r,cell) := cellPayload S cfg cell f c.peerIp c.now
    (⟨c,c.reply S cfg r⟩,cell)

theorem serverCall_reply (strike : StrikeCache) (c : Call) :
    (serverCall S cfg strike c).1 = ⟨c,c.reply S cfg
      (match c.flight with
      | none => .error .replayed
      | some f => (processPayload S cfg f.clientPk f.payload c.peerIp c.now strike).1)⟩ := by
  obtain ⟨entry,frame,peerIp,now⟩ := c
  cases entry with
  | first =>
    cases frame with
    | clientHelloOneRtt suiteId pk =>
      cases hs : checkSuite suiteId <;> simp [serverCall,serverOnFirst,Call.reply,hs,Except.map]
    | clientHelloZeroRtt suiteId pk payload =>
      cases hs : SuiteId.fromCode suiteId with
      | none => simp [serverCall,serverOnFirst,Call.reply,checkSuite,hs,Except.map]
      | some id =>
        simp only [serverCall,serverOnFirst,Call.reply,checkSuite,hs,Call.flight,
          Option.isSome_some,if_true]
        rcases processPayload S cfg pk payload peerIp now strike with ⟨e | est,strike'⟩ <;> rfl
    | _ => rfl
  | clientData =>
    cases frame with
    | clientData pk payload => rfl
    | _ => rfl

structure Tracks (calls : List Call) (strike : StrikeCache) (last : Option (Arr 32) → Option ℕ) :
    Prop where
  clock : ClockOk calls
  window : strike.windowMs = cfg.windowMs
  agree : ∀ c ∈ calls, ∀ tag, strike.LiveEntry tag c.now ↔ Seen S cfg (last (some tag)) c.now

variable {S cfg}

theorem tracks_new {calls : List Call} (h : ClockOk calls) :
    Tracks S cfg calls (StrikeCache.new cfg.windowMs) fun _ => none := by
  refine ⟨h,rfl,fun c _ tag => ?_⟩
  have hnew := StrikeCache.not_liveEntry_new cfg.windowMs tag c.now
  simp [hnew,Seen]

theorem liveEntry_earlier {strike : StrikeCache} {tag : Arr 32} {now later : UInt64}
    (h : now ≤ later) (hlive : strike.LiveEntry tag later) : strike.LiveEntry tag now := by
  obtain ⟨seen,hseen,hle⟩ := hlive
  exact ⟨seen,hseen,(UInt64.le_iff_toNat_le.mp h).trans hle⟩

theorem tracks_insert {c : Call} {calls : List Call} {strike : StrikeCache}
    {last : Option (Arr 32) → Option ℕ} (h : Tracks S cfg (c :: calls) strike last) (tag : Arr 32) :
    Tracks S cfg calls (strike.checkAndInsert tag c.now).2
      (if Seen S cfg (last (some tag)) c.now then last
        else Function.update last (some tag) (some c.now.toNat)) := by
  obtain ⟨hnow,hclock⟩ := List.pairwise_cons.mp h.clock
  refine ⟨hclock,(StrikeCache.windowMs_checkAndInsert ..).trans h.window,?_⟩
  intro d hd other
  have hlater := hnow d hd
  have hown := h.agree c (by simp) tag
  have hold := h.agree d (by simp [hd]) other
  rw [StrikeCache.liveEntry_checkAndInsert hlater,hold,hown,h.window]
  by_cases hseen : Seen S cfg (last (some tag)) c.now
  · simp [hseen]
  · rw [if_neg hseen]
    by_cases htag : other = tag
    · subst htag
      have hgone : ¬ Seen S cfg (last (some other)) d.now := by
        rw [← hold]
        exact fun hlive => hseen (hown.mp (liveEntry_earlier hlater hlive))
      have hcell : Seen S cfg (some c.now.toNat) d.now ↔
          d.now.toNat ≤ c.now.toNat + cfg.windowMs.toNat := by simp [Seen]
      rw [Function.update_self,hcell]
      simp [hgone,hseen]
    · rw [Function.update_of_ne (by simpa using htag)]
      simp [htag]

theorem tracks_tail {c : Call} {calls : List Call} {strike : StrikeCache}
    {last : Option (Arr 32) → Option ℕ} (h : Tracks S cfg (c :: calls) strike last) :
    Tracks S cfg calls strike last :=
  ⟨(List.pairwise_cons.mp h.clock).2,h.window,fun d hd => h.agree d (by simp [hd])⟩

theorem tracks_step (c : Call) (calls : List Call) (strike : StrikeCache)
    (last : Option (Arr 32) → Option ℕ) (h : Tracks S cfg (c :: calls) strike last) :
    (serverCall S cfg strike c).1 = (cells (Call.tag S) (cellCall S cfg) last c).1 ∧
      Tracks S cfg calls (serverCall S cfg strike c).2
        (cells (Call.tag S) (cellCall S cfg) last c).2 := by
  cases hf : c.flight with
  | none =>
    rw [serverCall_reply,(serverCall_none S cfg hf).2]
    simp only [cells,cellCall,hf,Function.update_eq_self]
    exact ⟨trivial,tracks_tail h⟩
  | some f =>
    have htag : c.tag S = some (f.tag S) := by simp [Call.tag,hf]
    have hlive := h.agree c (by simp) (f.tag S)
    rw [serverCall_reply,serverCall_strike hf]
    simp only [cells,cellCall,hf,htag,processPayload_eq,cellPayload]
    cases hp : precheck S cfg f.clientPk f.payload c.peerIp c.now with
    | error e =>
      simp only [Function.update_eq_self]
      exact ⟨trivial,tracks_tail h⟩
    | ok _ =>
      have hnext := tracks_insert h (f.tag S)
      have hfold : replayTag S f.payload.nonce f.payload.encData = f.tag S := rfl
      simp only [hfold]
      by_cases hseen : Seen S cfg (last (some (f.tag S))) c.now
      · rw [StrikeCache.checkAndInsert_live (hlive.mpr hseen)] at hnext ⊢
        simp only [if_pos hseen,Function.update_eq_self] at hnext ⊢
        exact ⟨trivial,hnext⟩
      · rw [StrikeCache.checkAndInsert_fresh fun hl => hseen (hlive.mp hl)] at hnext ⊢
        simp only [if_neg hseen] at hnext ⊢
        exact ⟨trivial,hnext⟩

variable (S cfg)

theorem serve_cell {calls : List Call} (hclock : ClockOk calls) (tag : Option (Arr 32)) :
    outputsOn (Call.tag S) tag calls (serve S cfg calls).1 =
      (run (cellCall S cfg) none (project (Call.tag S) tag calls)).1 :=
  run_cell tracks_step (tracks_new hclock) tag

theorem serve_by_tag (calls : List Call) (hclock : ClockOk calls) (tag : Option (Arr 32)) :
    outputsOn (Call.tag S) tag calls (serve S cfg calls).1 =
        (run (cellCall S cfg) none (project (Call.tag S) tag calls)).1 ∧
      outputsOn (Call.tag S) tag calls (serve S cfg calls).1 =
        (serve S cfg (project (Call.tag S) tag calls)).1 := by
  have hall := serve_cell S cfg hclock tag
  have hown := serve_cell S cfg (hclock.sublist (List.filter_sublist (p := fun c =>
    decide (c.tag S = tag)))) tag
  refine ⟨hall,hall.trans ?_⟩
  have hself := @outputsOn_project _ _ _ _ (Call.tag S) tag calls
    (serve S cfg (project (Call.tag S) tag calls)).1 (length_run ..)
  rw [← hself]
  have hproj := @project_project _ _ _ (Call.tag S) tag calls
  simp only [project] at hproj hown ⊢
  rw [hown,hproj]

end Cells

def mixedCalls : List Call :=
  helloCalls (plainHello 1 3 (fill 16 9) 1500) (fill 16 9) [1000] ++
    helloCalls (plainHello 1 4 (fill 16 9) 1500) (fill 16 9) [1100] ++
    helloCalls (plainHello 1 3 (fill 16 9) 1500) (fill 16 9) [1200]

theorem serve_by_tag_mixed :
    ∃ tag, (project (Call.tag plainSuite) tag mixedCalls).length = 2 ∧
      outputsOn (Call.tag plainSuite) tag mixedCalls
          (serve plainSuite (plainServer 2000 1000) mixedCalls).1 =
        (serve plainSuite (plainServer 2000 1000)
          (project (Call.tag plainSuite) tag mixedCalls)).1 := by
  refine ⟨mixedCalls.head?.bind (Call.tag plainSuite),by decide +kernel,?_⟩
  exact (serve_by_tag plainSuite (plainServer 2000 1000) mixedCalls (by decide +kernel) _).2

end OrtTunnel.Core
