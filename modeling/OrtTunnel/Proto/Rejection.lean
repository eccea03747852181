import OrtTunnel.Proto.Messages

namespace OrtTunnel.Proto
open BigEndian Scanner

theorem FrameType.fromU8_error {v : UInt8} (h : ¬ (0x01 ≤ v ∧ v ≤ 0x07)) :
    FrameType.fromU8 v = .error (.unknownFrameType v) := by
  unfold FrameType.fromU8
  split <;> first | rfl | exact absurd (by decide) h

theorem FrameType.toU8_range (t : FrameType) : 0x01 ≤ t.toU8 ∧ t.toU8 ≤ 0x07 := by
  cases t <;> decide

theorem FrameType.fromU8_ok {v : UInt8} (h : 0x01 ≤ v ∧ v ≤ 0x07) :
    ∃ t, FrameType.fromU8 v = .ok t := by
  have hlo : 1 ≤ v.toNat := UInt8.le_iff_toNat_le.mp h.1
  have hhi : v.toNat ≤ 7 := UInt8.le_iff_toNat_le.mp h.2
  have hv : v = UInt8.ofNat v.toNat := UInt8.ofNat_toNat.symm
  rw [hv]
  interval_cases v.toNat <;> exact ⟨_,rfl⟩

namespace Frame

theorem encode_ne_nil (f : Frame) : f.encode ≠ [] := by
  rw [encode_eq]
  simp

theorem prefix_free {f g : Frame} (hf : f.InRange) (hg : g.InRange) {s : Bytes}
    (h : g.encode = f.encode ++ s) : f = g ∧ s = [] := by
  have hd := f.decode_append hf s
  rw [← h,g.decode_encode hg] at hd
  by_cases hs : s = []
  · rw [if_pos hs] at hd
    exact ⟨(Except.ok.inj hd).symm,hs⟩
  · rw [if_neg hs] at hd
    cases hd

theorem decode_unknown {v : UInt8} (h : ¬ (0x01 ≤ v ∧ v ≤ 0x07)) (s : Bytes) :
    decode (v :: s) = .error (.proto (.unknownFrameType v)) := by
  obtain ⟨r,hr,_⟩ := u8_accepts v (Reader.new (v :: s)) s (view_new (v :: s))
  rw [decode,decodeM,exec_bind,readType,exec_bind_ok hr,FrameType.fromU8_error h]
  rfl

theorem decode_cases (b : Bytes) :
    (∃ f : Frame, f.InRange ∧ b = f.encode) ∨
    (∃ v s, b = v :: s ∧ ¬ (0x01 ≤ v ∧ v ≤ 0x07)) ∨
    (∃ f : Frame, f.InRange ∧ b <+: f.encode ∧ b ≠ f.encode ∧
      decode b = .error (.proto .truncated)) ∨
    ∃ (f : Frame) (s : Bytes), f.InRange ∧ b = f.encode ++ s ∧ s ≠ [] := by
  cases b with
  | nil => exact .inr (.inr (.inl ⟨.close,trivial, List.nil_prefix,(encode_ne_nil _).symm,rfl⟩))
  | cons v s =>
    by_cases hv : 0x01 ≤ v ∧ v ≤ 0x07
    · obtain ⟨t,ht⟩ := FrameType.fromU8_ok hv
      obtain rfl := FrameType.toU8_of_fromU8 ht
      obtain ⟨r,hr,hview⟩ := readType_accepts t (Reader.new _) s (view_new (t.toU8 :: s))
      rcases hf : exec (readFields t) r with ⟨x,r'⟩
      cases x with
      | ok f =>
        obtain ⟨w,u,rfl,hview',rfl,rfl,hrange⟩ := (readFields_reads t).consumes r s f r' hview hf
        have henc : f.frameType.toU8 :: (f.fields ++ u) = f.encode ++ u := by simp [encode_eq]
        by_cases hu : u = []
        · exact .inl ⟨f,hrange,by rw [henc,hu,List.append_nil]⟩
        · exact .inr (.inr (.inr ⟨f,u,hrange,henc,hu⟩))
      | error e =>
        obtain ⟨rfl,f,w,⟨rfl,rfl,hrange⟩,hpre,hne⟩ :=
          (readFields_reads t).starves r s e r' hview hf
        refine .inr (.inr (.inl ⟨f,hrange,?_,?_,?_⟩))
        · rw [encode_eq]
          exact (List.prefix_cons_inj _).mpr hpre
        · rw [encode_eq]
          intro h
          exact hne (List.cons.inj h).2
        · rw [decode,decodeM,exec_bind_ok hr,exec_bind,hf]
    · exact .inr (.inl ⟨v,s,rfl,hv⟩)

theorem head_encode {f : Frame} {v : UInt8} {s t : Bytes} (h : f.encode = v :: s ++ t) :
    0x01 ≤ v ∧ v ≤ 0x07 := by
  rw [encode_eq] at h
  obtain ⟨rfl,_⟩ := List.cons.inj h
  exact f.frameType.toU8_range

theorem decode_unknown_iff (b : Bytes) (v : UInt8) :
    decode b = .error (.proto (.unknownFrameType v)) ↔
      b.head? = some v ∧ ¬ (0x01 ≤ v ∧ v ≤ 0x07) := by
  constructor
  · intro h
    obtain ⟨f,hf,rfl⟩ | ⟨u,s,rfl,hu⟩ | ⟨f,hf,_,_,ht⟩ | ⟨f,s,hf,rfl,hs⟩ := decode_cases b
    · simp [f.decode_encode hf] at h
    · rw [decode_unknown hu] at h
      cases h
      exact ⟨rfl,hu⟩
    · simp [ht] at h
    · simp [f.decode_append hf,hs] at h
  · rintro ⟨hb,hv⟩
    obtain ⟨s,rfl⟩ := List.head?_eq_some_iff.mp hb
    exact decode_unknown hv s

theorem decode_truncated_iff (b : Bytes) :
    decode b = .error (.proto .truncated) ↔
      ∃ f : Frame, f.InRange ∧ b <+: f.encode ∧ b ≠ f.encode := by
  constructor
  · intro h
    obtain ⟨f,hf,rfl⟩ | ⟨u,s,rfl,hu⟩ | ⟨f,hf,hpre,hne,_⟩ | ⟨f,s,hf,rfl,hs⟩ := decode_cases b
    · simp [f.decode_encode hf] at h
    · simp [decode_unknown hu] at h
    · exact ⟨f,hf,hpre,hne⟩
    · simp [f.decode_append hf,hs] at h
  · rintro ⟨g,hg,⟨t,ht⟩,hne⟩
    obtain ⟨f,hf,rfl⟩ | ⟨u,s,rfl,hu⟩ | ⟨_,_,_,_,hd⟩ | ⟨f,s,hf,rfl,hs⟩ := decode_cases b
    · obtain ⟨rfl,_⟩ := prefix_free hf hg ht.symm
      exact absurd rfl hne
    · exact absurd (head_encode ht.symm) hu
    · exact hd
    · rw [List.append_assoc] at ht
      obtain ⟨_,hnil⟩ := prefix_free hf hg ht.symm
      exact absurd (List.append_eq_nil_iff.mp hnil).1 hs

theorem decode_trailing_iff (b : Bytes) (k : ℕ) :
    decode b = .error (.proto (.trailingBytes k)) ↔
      ∃ (f : Frame) (s : Bytes), f.InRange ∧ b = f.encode ++ s ∧ s.length = k ∧ 0 < k := by
  constructor
  · intro h
    obtain ⟨f,hf,rfl⟩ | ⟨u,s,rfl,hu⟩ | ⟨f,hf,_,_,ht⟩ | ⟨f,s,hf,rfl,hs⟩ := decode_cases b
    · simp [f.decode_encode hf] at h
    · simp [decode_unknown hu] at h
    · simp [ht] at h
    · rw [f.decode_append hf,if_neg hs] at h
      cases h
      exact ⟨f,s,hf,rfl,rfl,List.length_pos_iff.mpr hs⟩
  · rintro ⟨f,s,hf,rfl,rfl,hk⟩
    rw [f.decode_append hf,if_neg (List.length_pos_iff.mp hk)]

theorem decode_fault {b : Bytes} {e : Fault} (h : decode b = .error e) :
    e = .proto .truncated ∨ (∃ v, e = .proto (.unknownFrameType v)) ∨
      ∃ k, e = .proto (.trailingBytes k) := by
  obtain ⟨f,hf,rfl⟩ | ⟨u,s,rfl,hu⟩ | ⟨f,hf,_,_,ht⟩ | ⟨f,s,hf,rfl,hs⟩ := decode_cases b
  · simp [f.decode_encode hf] at h
  · rw [decode_unknown hu] at h
    exact .inr (.inl ⟨u,(Except.error.inj h).symm⟩)
  · rw [ht] at h
    exact .inl (Except.error.inj h).symm
  · rw [f.decode_append hf,if_neg hs] at h
    exact .inr (.inr ⟨s.length,(Except.error.inj h).symm⟩)

end Frame

theorem decode_error_classified (b : Bytes) :
    (∀ t, Frame.decode b = .error (.proto (.unknownFrameType t)) ↔
      b.head? = some t ∧ ¬ (0x01 ≤ t ∧ t ≤ 0x07)) ∧
    (Frame.decode b = .error (.proto .truncated) ↔
      ∃ f : Frame, f.InRange ∧ b <+: f.encode ∧ b ≠ f.encode) ∧
    (∀ k, Frame.decode b = .error (.proto (.trailingBytes k)) ↔
      ∃ (f : Frame) (s : Bytes), f.InRange ∧ b = f.encode ++ s ∧ s.length = k ∧ 0 < k) ∧
    (∀ n, Frame.decode b ≠ .error (.proto (.frameTooLarge n))) ∧
    ∀ f g : Frame, f.InRange → g.InRange → f.encode <+: g.encode → f = g := by
  refine ⟨Frame.decode_unknown_iff b,Frame.decode_truncated_iff b,Frame.decode_trailing_iff b,
    ?_,?_⟩
  · intro n h
    obtain he | ⟨v,he⟩ | ⟨k,he⟩ := Frame.decode_fault h <;> cases he
  · rintro f g hf hg ⟨s,hs⟩
    exact (Frame.prefix_free hf hg hs.symm).1

end OrtTunnel.Proto
