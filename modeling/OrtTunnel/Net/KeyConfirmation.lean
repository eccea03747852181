import OrtTunnel.Net.Loops

namespace OrtTunnel.Net
open BigEndian Proto OrtTunnel.Core

def framedAck (k : Arr 64) : Bytes := encodeFramed (Frame.serverAck k.val).encode

inductive Awaits (k : Arr 64) : Bytes → Down → Prop where
  | early : Awaits k [] (.early [] (some k))
  | reading (got : Bytes) : Awaits k got (.reading (some k) got)
  | returned (fed : Bytes) : Awaits k fed .returned
  | failed (fed : Bytes) (e : OrtError) : Awaits k fed (.failed e)

structure Unconfirmed (d : Direction) (k : Arr 64) (base : RecordLayer) (fed : Bytes)
    (r : RecordLayer) (l : Lane) : Prop where
  written : l.written = []
  untouched : SameDir d base r
  awaits : Awaits k fed l.down

def Gated (d : Direction) (k : Arr 64) (base : RecordLayer) (fed : Bytes) (r : RecordLayer)
    (l : Lane) : Prop :=
  framedAck k <+: fed ∨ Unconfirmed d k base fed r l

section Lanes
variable {S : CipherSuite} {d : Direction} {k : Arr 64} {base r : RecordLayer} {fed : Bytes}
variable {l : Lane}

theorem gated_pull (h : Gated d k base fed r l) : Gated d k base (fed ++ l.fetch) r l.pull := by
  rcases h with hack | h
  · exact .inl (hack.trans (List.prefix_append _ _))
  have haw := h.awaits
  cases hd : l.down with
  | reading ack got =>
    rw [hd] at haw
    obtain _ | _ | _ | _ := haw
    cases hc : l.channel with
    | nil => exact .inr (by simpa [Lane.fetch,Lane.pull,hd,hc] using h)
    | cons b rest =>
      cases hw : waiting fed with
      | false => exact .inr (by simpa [Lane.fetch,Lane.pull,hd,hc,hw] using h)
      | true =>
        right
        simp only [Lane.fetch,Lane.pull,hd,hc,hw,if_true]
        exact ⟨h.written,h.untouched,.reading _⟩
  | _ => exact .inr (by simpa [Lane.fetch,Lane.pull,hd] using h)

theorem onBody_ack {body : Bytes} (k : Arr 64) (hne : (Frame.serverAck k.val).encode ≠ body) :
    ∃ e, onBody (some k) body = .failed e := by
  cases hf : Frame.decode body with
  | error e => exact ⟨.proto e,by simp only [onBody,hf]⟩
  | ok f =>
    cases f with
    | serverAck ekHash =>
      refine ⟨.keyConfirmation,?_⟩
      simp only [onBody,hf]
      rw [if_pos]
      rintro rfl
      exact hne (Frame.encode_of_decode hf).1
    | _ => exact ⟨.unexpected "expected ServerAck",by simp only [onBody,hf]⟩

theorem gated_take (h : Gated d k base fed r l) : Gated d k base fed r l.take := by
  rcases h with hack | h
  · exact .inl hack
  have haw := h.awaits
  cases hd : l.down with
  | reading ack got =>
    rw [hd] at haw
    obtain _ | _ | _ | _ := haw
    by_cases hready : waiting fed ∧ ¬ (l.shut ∧ l.channel = [])
    · exact .inr (by simpa only [Lane.take,hd,if_pos hready] using h)
    simp only [Lane.take,hd,if_neg hready]
    rcases readFrame_cases fed with ⟨-,he⟩ | ⟨body,rest,-,hfed,he⟩ | ⟨e,rest,he⟩
    · rw [he]
      exact .inr ⟨h.written,h.untouched,.returned _⟩
    · by_cases hbody : (Frame.serverAck k.val).encode = body
      · left
        rw [hfed,framedAck,hbody]
        exact List.prefix_append _ _
      · obtain ⟨e,hfailed⟩ := onBody_ack k hbody
        rw [he]
        refine .inr ⟨h.written,h.untouched,?_⟩
        simp only [Lane.setDown,onReadFrame,hfailed]
        exact .failed _ _
    · rw [he]
      exact .inr ⟨h.written,h.untouched,.failed _ _⟩
  | _ => exact .inr (by simpa only [Lane.take,hd] using h)

theorem gated_write (h : Gated d k base fed r l) : Gated d k base fed r l.write := by
  rcases h with hack | h
  · exact .inl hack
  have haw := h.awaits
  cases hd : l.down with
  | early bytes ack =>
    rw [hd] at haw
    obtain _ | _ | _ | _ := haw
    simp only [Lane.write,hd]
    exact .inr ⟨h.written,h.untouched,.reading _⟩
  | writing pt =>
    rw [hd] at haw
    cases haw
  | _ => exact .inr (by simpa only [Lane.write,hd] using h)

variable (S d k base) in
theorem gated_rule : InboundRule S d (Gated d k base) where
  frame := by
    intro fed r q l l' hq hd hw h
    rcases h with hack | h
    · exact .inl hack
    · refine .inr ⟨hw.trans h.written,⟨?_,?_⟩,hd ▸ h.awaits⟩
      · exact h.untouched.key.trans hq.key
      · exact h.untouched.pool.trans hq.pool
  pull := fun _ _ _ => gated_pull
  take := fun _ _ _ => gated_take
  write := fun _ _ _ => gated_write
  opens := by
    intro fed r l ct hd h
    rcases h with hack | h
    · exact .inl hack
    · have haw := h.awaits
      rw [hd] at haw
      cases haw

end Lanes

theorem no_inbound_before_confirmation (S : CipherSuite) (record : RecordLayer) (earlyData : Bytes)
    (es : List NetEvent) :
    let start := Tunnel.start S record earlyData true
    let t := (Machine.run (Tunnel.attackedStep S) start es).2
    framedAck (record.encKeyHash S) <+: start.fed S .serverToClient es ∨
      Unconfirmed .serverToClient (record.encKeyHash S) record
        (start.fed S .serverToClient es) (t.peers.receiver .serverToClient)
        (t.lane .serverToClient) := by
  intro start t
  have hstart : Gated .serverToClient (record.encKeyHash S) record []
      (start.peers.receiver .serverToClient) (start.lane .serverToClient) :=
    .inr ⟨rfl,⟨rfl,rfl⟩,.early⟩
  exact inbound_run (gated_rule S _ _ record) hstart es

end OrtTunnel.Net
