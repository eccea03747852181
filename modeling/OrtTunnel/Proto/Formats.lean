import OrtTunnel.Proto.Rejection

namespace OrtTunnel.Proto
open BigEndian Scanner

inductive WriteOp where
  | u8 (v : UInt8)
  | u16 (v : UInt16)
  | u32 (v : UInt32)
  | u64 (v : UInt64)
  | raw (b : Bytes)
  | bytes16 (b : Bytes)
  | bytes32 (b : Bytes)
  deriving DecidableEq

namespace WriteOp

def call (w : Writer) : WriteOp → Writer
  | .u8 v => w.u8 v
  | .u16 v => w.u16 v
  | .u32 v => w.u32 v
  | .u64 v => w.u64 v
  | .raw b => w.raw b
  | .bytes16 b => w.bytes16 b
  | .bytes32 b => w.bytes32 b

def wire : WriteOp → Bytes
  | .u8 v => [v]
  | .u16 v => toBe 2 v.toNat
  | .u32 v => toBe 4 v.toNat
  | .u64 v => toBe 8 v.toNat
  | .raw b => b
  | .bytes16 b => Proto.bytes16 b
  | .bytes32 b => Proto.bytes32 b

theorem buf_call (w : Writer) (op : WriteOp) : (op.call w).buf = w.buf ++ op.wire := by
  cases op with
  | u32 v => rfl
  | _ => simp [call,wire]

end WriteOp

def writeAll (ops : List WriteOp) : Bytes := (ops.foldl WriteOp.call Writer.new).intoBytes

theorem buf_foldl_call (ops : List WriteOp) (w : Writer) :
    (ops.foldl WriteOp.call w).buf = w.buf ++ (ops.map WriteOp.wire).flatten := by
  induction ops generalizing w with
  | nil => simp
  | cons op ops ih => simp [ih,WriteOp.buf_call]

theorem writeAll_eq (ops : List WriteOp) : writeAll ops = (ops.map WriteOp.wire).flatten := by
  simp [writeAll,Writer.intoBytes,buf_foldl_call]

inductive Field where
  | u8
  | u16
  | u32
  | u64
  | raw (n : ℕ)
  | array (n : ℕ)
  | bytes16
  | bytes32
  deriving DecidableEq

namespace Field

-- The result of a read is the write that puts it back.
def read : Field → ReadM WriteOp
  | .u8 => do
    let v ← Reader.u8
    pure (.u8 v)
  | .u16 => do
    let v ← Reader.u16
    pure (.u16 v)
  | .u32 => do
    let v ← Reader.u32
    pure (.u32 v)
  | .u64 => do
    let v ← Reader.u64
    pure (.u64 v)
  | .raw n => do
    let b ← Reader.raw n
    pure (.raw b)
  | .array n => do
    let a ← Reader.array n
    pure (.raw a.val)
  | .bytes16 => do
    let b ← Reader.bytes16
    pure (.bytes16 b)
  | .bytes32 => do
    let b ← Reader.bytes32
    pure (.bytes32 b)

inductive Fits : Field → WriteOp → Prop
  | u8 (v : UInt8) : Fits .u8 (.u8 v)
  | u16 (v : UInt16) : Fits .u16 (.u16 v)
  | u32 (v : UInt32) : Fits .u32 (.u32 v)
  | u64 (v : UInt64) : Fits .u64 (.u64 v)
  | raw (b : Bytes) : Fits (.raw b.length) (.raw b)
  | array (b : Bytes) : Fits (.array b.length) (.raw b)
  | bytes16 (b : Bytes) (h : b.length ≤ 65535) : Fits .bytes16 (.bytes16 b)
  | bytes32 (b : Bytes) (h : b.length ≤ 2 ^ 32 - 1) : Fits .bytes32 (.bytes32 b)

attribute [simp] Fits.u8 Fits.u16 Fits.u32 Fits.u64

@[simp] theorem fits_array {n : ℕ} (a : Arr n) : (Field.array n).Fits (.raw a.val) := by
  obtain ⟨b,rfl⟩ := a
  exact .array b

@[simp] theorem fits_bytes16_iff {b : Bytes} :
    Field.bytes16.Fits (.bytes16 b) ↔ b.length ≤ 65535 := by
  constructor
  · rintro ⟨⟩
    assumption
  · exact .bytes16 b

@[simp] theorem fits_bytes32_iff {b : Bytes} :
    Field.bytes32.Fits (.bytes32 b) ↔ b.length ≤ 2 ^ 32 - 1 := by
  constructor
  · rintro ⟨⟩
    assumption
  · exact .bytes32 b

theorem read_accepts {f : Field} {op : WriteOp} (h : f.Fits op) :
    Accepts View f.read op.wire op := by
  cases h with
  | u8 v => exact (u8_accepts v).map WriteOp.u8
  | u16 v => exact (u16_accepts v).map WriteOp.u16
  | u32 v => exact (u32_accepts v).map WriteOp.u32
  | u64 v => exact (u64_accepts v).map WriteOp.u64
  | raw b => exact (take_accepts rfl).map WriteOp.raw
  | array b => exact (array_accepts ⟨b,rfl⟩).map fun a => WriteOp.raw a.val
  | bytes16 b hb => exact (bytes16_accepts (Nat.lt_succ_of_le hb)).map WriteOp.bytes16
  | bytes32 b hb => exact (bytes32_accepts (Nat.lt_succ_of_le hb)).map WriteOp.bytes32

theorem read_reads (f : Field) : ReadsAs f.read (fun op w => f.Fits op ∧ w = op.wire) := by
  cases f with
  | u8 => exact u8_reads.map fun v _ hw => ⟨.u8 v,hw⟩
  | u16 => exact u16_reads.map fun v _ hw => ⟨.u16 v,hw⟩
  | u32 => exact u32_reads.map fun v _ hw => ⟨.u32 v,hw⟩
  | u64 => exact u64_reads.map fun v _ hw => ⟨.u64 v,hw⟩
  | raw n =>
    apply (take_reads n).map
    rintro b w ⟨rfl,rfl⟩
    exact ⟨.raw w,rfl⟩
  | array n =>
    apply (array_reads n).map
    rintro ⟨b,rfl⟩ w hw
    exact ⟨.array b,hw⟩
  | bytes16 => exact bytes16_reads.map fun b _ hw => ⟨.bytes16 b (Nat.le_of_lt_succ hw.2),hw.1⟩
  | bytes32 => exact bytes32_reads.map fun b _ hw => ⟨.bytes32 b (Nat.le_of_lt_succ hw.2),hw.1⟩

end Field

def readAll : List Field → ReadM (List WriteOp)
  | [] => pure []
  | f :: fs => do
    let op ← f.read
    let ops ← readAll fs
    pure (op :: ops)

def decodeAs (fields : List Field) (buf : Bytes) : Except Fault (List WriteOp) :=
  (exec (do
    let ops ← readAll fields
    Reader.expectEnd
    pure ops) (Reader.new buf)).1

section Layout
variable {fields : List Field} {ops : List WriteOp} {b : Bytes}

theorem readAll_accepts (h : List.Forall₂ Field.Fits fields ops) :
    Accepts View (readAll fields) (writeAll ops) ops := by
  rw [writeAll_eq]
  induction h with
  | nil => exact Accepts.pure []
  | cons hop _ ih => exact (Field.read_accepts hop).bind (ih.map _)

theorem readAll_reads (fields : List Field) :
    ReadsAs (readAll fields) (fun ops w => List.Forall₂ Field.Fits fields ops ∧
      w = writeAll ops) := by
  simp only [writeAll_eq]
  induction fields with
  | nil =>
    apply (Reads.pure []).mono
    rintro ops w ⟨rfl,rfl⟩
    exact ⟨.nil,rfl⟩
  | cons f fs ih =>
    apply (f.read_reads.bind fun op => ih.bind fun ops => Reads.pure (op :: ops)).mono
    rintro _ w ⟨op,w₁,_,rfl,⟨hop,rfl⟩,ops,w₂,w₃,rfl,⟨hops,rfl⟩,rfl,rfl⟩
    exact ⟨.cons hop hops,by simp⟩

theorem decodeAs_append (h : List.Forall₂ Field.Fits fields ops) (s : Bytes) :
    decodeAs fields (writeAll ops ++ s) =
      if s = [] then .ok ops else .error (.proto (.trailingBytes s.length)) := by
  obtain ⟨r,hr,hv⟩ := readAll_accepts h (Reader.new _) s (view_new (writeAll ops ++ s))
  rw [decodeAs,exec_bind_ok hr,exec_bind,exec_expectEnd hv]
  by_cases hs : s = [] <;> simp [hs]

theorem decodeAs_writeAll (h : List.Forall₂ Field.Fits fields ops) :
    decodeAs fields (writeAll ops) = .ok ops := by
  simpa using decodeAs_append h []

theorem writeAll_prefix_free {ops' : List WriteOp} (h : List.Forall₂ Field.Fits fields ops)
    (h' : List.Forall₂ Field.Fits fields ops') {s : Bytes}
    (hs : writeAll ops' = writeAll ops ++ s) : ops = ops' ∧ s = [] := by
  have hd := decodeAs_append h s
  rw [← hs,decodeAs_writeAll h'] at hd
  by_cases hnil : s = []
  · rw [if_pos hnil] at hd
    exact ⟨(Except.ok.inj hd).symm,hnil⟩
  · rw [if_neg hnil] at hd
    cases hd

theorem decodeAs_cases (fields : List Field) (b : Bytes) :
    (∃ ops, List.Forall₂ Field.Fits fields ops ∧ b = writeAll ops) ∨
    (∃ ops, List.Forall₂ Field.Fits fields ops ∧ b <+: writeAll ops ∧ b ≠ writeAll ops ∧
      decodeAs fields b = .error (.proto .truncated)) ∨
    ∃ ops s, List.Forall₂ Field.Fits fields ops ∧ b = writeAll ops ++ s ∧ s ≠ [] := by
  rcases hx : exec (readAll fields) (Reader.new b) with ⟨x,r⟩
  cases x with
  | ok ops =>
    obtain ⟨w,s,rfl,hv,hops,rfl⟩ := (readAll_reads fields).consumes _ b ops r (view_new b) hx
    by_cases hs : s = []
    · exact .inl ⟨ops,hops,by rw [hs,List.append_nil]⟩
    · exact .inr (.inr ⟨ops,s,hops,rfl,hs⟩)
  | error e =>
    obtain ⟨rfl,ops,w,⟨hops,rfl⟩,hpre,hne⟩ :=
      (readAll_reads fields).starves _ b e r (view_new b) hx
    exact .inr (.inl ⟨ops,hops,hpre,hne,by rw [decodeAs,exec_bind,hx]⟩)

theorem decodeAs_ok_iff : decodeAs fields b = .ok ops ↔
    List.Forall₂ Field.Fits fields ops ∧ b = writeAll ops := by
  constructor
  · intro h
    obtain ⟨ops',hops,rfl⟩ | ⟨_,_,_,_,ht⟩ | ⟨ops',s,hops,rfl,hs⟩ := decodeAs_cases fields b
    · rw [decodeAs_writeAll hops] at h
      obtain rfl := Except.ok.inj h
      exact ⟨hops,rfl⟩
    · simp [ht] at h
    · simp [decodeAs_append hops,hs] at h
  · rintro ⟨hops,rfl⟩
    exact decodeAs_writeAll hops

theorem decodeAs_truncated_iff : decodeAs fields b = .error (.proto .truncated) ↔
    ∃ ops, List.Forall₂ Field.Fits fields ops ∧ b <+: writeAll ops ∧ b ≠ writeAll ops := by
  constructor
  · intro h
    obtain ⟨_,hops,rfl⟩ | ⟨ops,hops,hpre,hne,_⟩ | ⟨_,_,hops,rfl,hs⟩ := decodeAs_cases fields b
    · simp [decodeAs_writeAll hops] at h
    · exact ⟨ops,hops,hpre,hne⟩
    · simp [decodeAs_append hops,hs] at h
  · rintro ⟨ops,hops,⟨t,ht⟩,hne⟩
    obtain ⟨_,hops',rfl⟩ | ⟨_,_,_,_,hd⟩ | ⟨_,_,hops',rfl,hs⟩ := decodeAs_cases fields b
    · obtain ⟨rfl,_⟩ := writeAll_prefix_free hops' hops ht.symm
      exact absurd rfl hne
    · exact hd
    · rw [List.append_assoc] at ht
      obtain ⟨_,hnil⟩ := writeAll_prefix_free hops' hops ht.symm
      exact absurd (List.append_eq_nil_iff.mp hnil).1 hs

theorem decodeAs_trailing_iff {k : ℕ} : decodeAs fields b = .error (.proto (.trailingBytes k)) ↔
    ∃ ops s, List.Forall₂ Field.Fits fields ops ∧ b = writeAll ops ++ s ∧ s.length = k ∧
      0 < k := by
  constructor
  · intro h
    obtain ⟨_,hops,rfl⟩ | ⟨_,_,_,_,ht⟩ | ⟨ops,s,hops,rfl,hs⟩ := decodeAs_cases fields b
    · simp [decodeAs_writeAll hops] at h
    · simp [ht] at h
    · rw [decodeAs_append hops,if_neg hs] at h
      cases h
      exact ⟨ops,s,hops,rfl,rfl,List.length_pos_iff.mpr hs⟩
  · rintro ⟨ops,s,hops,rfl,rfl,hk⟩
    rw [decodeAs_append hops,if_neg (List.length_pos_iff.mp hk)]

theorem decodeAs_fault {e : Fault} (h : decodeAs fields b = .error e) :
    e = .proto .truncated ∨ ∃ k, e = .proto (.trailingBytes k) := by
  obtain ⟨_,hops,rfl⟩ | ⟨_,_,_,_,ht⟩ | ⟨_,s,hops,rfl,hs⟩ := decodeAs_cases fields b
  · simp [decodeAs_writeAll hops] at h
  · rw [ht] at h
    exact .inl (Except.error.inj h).symm
  · rw [decodeAs_append hops,if_neg hs] at h
    exact .inr ⟨s.length,(Except.error.inj h).symm⟩

end Layout

def KemPayload.layout : List Field := [.bytes16,.array 16,.u64,.array 32,.bytes16,.bytes32]

def FrameType.layout : FrameType → List Field
  | .clientHelloOneRtt => [.u16,.bytes16]
  | .clientHelloZeroRtt => [.u16,.bytes16] ++ KemPayload.layout
  | .clientData => .bytes16 :: KemPayload.layout
  | .serverHello => [.u16,.bytes16,.bytes32,.u64]
  | .serverAck => [.bytes16]
  | .dataRecord => [.u8,.bytes32]
  | .close => []

def KemPayload.writes (p : KemPayload) : List WriteOp :=
  [.bytes16 p.ciphertext,.raw p.srcIp.val,.u64 p.tsMillis,.raw p.nonce.val,.bytes16 p.clientSig,
    .bytes32 p.encData]

namespace Frame

def writes (f : Frame) : List WriteOp :=
  .u8 f.frameType.toU8 :: match f with
    | .clientHelloOneRtt suiteId clientPk => [.u16 suiteId,.bytes16 clientPk]
    | .clientHelloZeroRtt suiteId clientPk payload =>
      [.u16 suiteId,.bytes16 clientPk] ++ payload.writes
    | .clientData clientPk payload => .bytes16 clientPk :: payload.writes
    | .serverHello suiteId serverPk certificate serverTs =>
      [.u16 suiteId,.bytes16 serverPk,.bytes32 certificate,.u64 serverTs]
    | .serverAck ekHash => [.bytes16 ekHash]
    | .dataRecord dir ciphertext => [.u8 dir,.bytes32 ciphertext]
    | .close => []

theorem encode_writes (f : Frame) : f.encode = writeAll f.writes := by
  cases f <;> rfl

theorem writes_fit_iff (f : Frame) :
    List.Forall₂ Field.Fits (.u8 :: f.frameType.layout) f.writes ↔ f.InRange := by
  cases f <;>
    simp [frameType,FrameType.layout,KemPayload.layout,writes,KemPayload.writes,InRange,
      KemPayload.InRange]

end Frame

theorem formats_exact (fields : List Field) (b : Bytes) :
    (∀ ops, decodeAs fields b = .ok ops ↔
      List.Forall₂ Field.Fits fields ops ∧ b = writeAll ops) ∧
    (decodeAs fields b = .error (.proto .truncated) ↔
      ∃ ops, List.Forall₂ Field.Fits fields ops ∧ b <+: writeAll ops ∧ b ≠ writeAll ops) ∧
    (∀ k, decodeAs fields b = .error (.proto (.trailingBytes k)) ↔
      ∃ ops s, List.Forall₂ Field.Fits fields ops ∧ b = writeAll ops ++ s ∧ s.length = k ∧
        0 < k) ∧
    (∀ e, decodeAs fields b = .error e →
      e = .proto .truncated ∨ ∃ k, e = .proto (.trailingBytes k)) ∧
    ∀ f, Frame.decode b = .ok f ↔ decodeAs (.u8 :: f.frameType.layout) b = .ok f.writes := by
  refine ⟨fun _ => decodeAs_ok_iff,decodeAs_truncated_iff,fun _ => decodeAs_trailing_iff,
    fun _ => decodeAs_fault,?_⟩
  intro f
  rw [decodeAs_ok_iff,f.writes_fit_iff,← f.encode_writes]
  constructor
  · intro h
    obtain ⟨he,hr⟩ := Frame.encode_of_decode h
    exact ⟨hr,he.symm⟩
  · rintro ⟨hr,rfl⟩
    exact f.decode_encode hr

end OrtTunnel.Proto
