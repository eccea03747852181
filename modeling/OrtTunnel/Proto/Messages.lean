import OrtTunnel.Proto.Codec

namespace OrtTunnel.Proto
open BigEndian Scanner

inductive FrameType where
  | clientHelloOneRtt
  | clientHelloZeroRtt
  | clientData
  | serverHello
  | serverAck
  | dataRecord
  | close
  deriving DecidableEq, Repr

namespace FrameType

def toU8 : FrameType → UInt8
  | .clientHelloOneRtt => 0x01
  | .clientHelloZeroRtt => 0x02
  | .clientData => 0x03
  | .serverHello => 0x04
  | .serverAck => 0x05
  | .dataRecord => 0x06
  | .close => 0x07

def fromU8 (v : UInt8) : Except ProtoError FrameType :=
  match v with
  | 0x01 => .ok .clientHelloOneRtt
  | 0x02 => .ok .clientHelloZeroRtt
  | 0x03 => .ok .clientData
  | 0x04 => .ok .serverHello
  | 0x05 => .ok .serverAck
  | 0x06 => .ok .dataRecord
  | 0x07 => .ok .close
  | other => .error (.unknownFrameType other)

@[simp] theorem fromU8_toU8 (t : FrameType) : fromU8 t.toU8 = .ok t := by
  cases t <;> rfl

theorem toU8_of_fromU8 {v : UInt8} {t : FrameType} (h : fromU8 v = .ok t) : t.toU8 = v := by
  unfold fromU8 at h
  split at h <;> first | (cases h; rfl) | cases h

end FrameType

structure KemPayload where
  ciphertext : Bytes
  srcIp : Arr 16
  tsMillis : UInt64
  nonce : Arr 32
  clientSig : Bytes
  encData : Bytes
  deriving DecidableEq

inductive Frame where
  | clientHelloOneRtt (suiteId : UInt16) (clientPk : Bytes)
  | clientHelloZeroRtt (suiteId : UInt16) (clientPk : Bytes) (payload : KemPayload)
  | clientData (clientPk : Bytes) (payload : KemPayload)
  | serverHello (suiteId : UInt16) (serverPk certificate : Bytes) (serverTs : UInt64)
  | serverAck (ekHash : Bytes)
  | dataRecord (dir : UInt8) (ciphertext : Bytes)
  | close
  deriving DecidableEq

namespace KemPayload

def write (p : KemPayload) (w : Writer) : Writer :=
  (((((w.bytes16 p.ciphertext).raw p.srcIp.val).u64 p.tsMillis).raw p.nonce.val).bytes16
    p.clientSig).bytes32 p.encData

def read : ReadM KemPayload := do
  let ciphertext ← Reader.bytes16
  let srcIp ← Reader.array 16
  let tsMillis ← Reader.u64
  let nonce ← Reader.array 32
  let clientSig ← Reader.bytes16
  let encData ← Reader.bytes32
  pure ⟨ciphertext,srcIp,tsMillis,nonce,clientSig,encData⟩

def InRange (p : KemPayload) : Prop :=
  p.ciphertext.length ≤ 65535 ∧ p.clientSig.length ≤ 65535 ∧ p.encData.length ≤ 2 ^ 32 - 1

end KemPayload

namespace Frame

def frameType : Frame → FrameType
  | .clientHelloOneRtt .. => .clientHelloOneRtt
  | .clientHelloZeroRtt .. => .clientHelloZeroRtt
  | .clientData .. => .clientData
  | .serverHello .. => .serverHello
  | .serverAck _ => .serverAck
  | .dataRecord .. => .dataRecord
  | .close => .close

def encode (f : Frame) : Bytes :=
  let w := Writer.new
  let w := match f with
    | .clientHelloOneRtt suiteId clientPk =>
      ((w.u8 FrameType.clientHelloOneRtt.toU8).u16 suiteId).bytes16 clientPk
    | .clientHelloZeroRtt suiteId clientPk payload =>
      payload.write (((w.u8 FrameType.clientHelloZeroRtt.toU8).u16 suiteId).bytes16 clientPk)
    | .clientData clientPk payload =>
      payload.write ((w.u8 FrameType.clientData.toU8).bytes16 clientPk)
    | .serverHello suiteId serverPk certificate serverTs =>
      ((((w.u8 FrameType.serverHello.toU8).u16 suiteId).bytes16 serverPk).bytes32
        certificate).u64 serverTs
    | .serverAck ekHash => (w.u8 FrameType.serverAck.toU8).bytes16 ekHash
    | .dataRecord dir ciphertext => ((w.u8 FrameType.dataRecord.toU8).u8 dir).bytes32 ciphertext
    | .close => w.u8 FrameType.close.toU8
  w.intoBytes

def readFields : FrameType → ReadM Frame
  | .clientHelloOneRtt => do
    let suiteId ← Reader.u16
    let clientPk ← Reader.bytes16
    pure (.clientHelloOneRtt suiteId clientPk)
  | .clientHelloZeroRtt => do
    let suiteId ← Reader.u16
    let clientPk ← Reader.bytes16
    let payload ← KemPayload.read
    pure (.clientHelloZeroRtt suiteId clientPk payload)
  | .clientData => do
    let clientPk ← Reader.bytes16
    let payload ← KemPayload.read
    pure (.clientData clientPk payload)
  | .serverHello => do
    let suiteId ← Reader.u16
    let serverPk ← Reader.bytes16
    let certificate ← Reader.bytes32
    let serverTs ← Reader.u64
    pure (.serverHello suiteId serverPk certificate serverTs)
  | .serverAck => do
    let ekHash ← Reader.bytes16
    pure (.serverAck ekHash)
  | .dataRecord => do
    let dir ← Reader.u8
    let ciphertext ← Reader.bytes32
    pure (.dataRecord dir ciphertext)
  | .close => pure .close

def readType : ReadM FrameType := do
  let v ← Reader.u8
  match FrameType.fromU8 v with
  | .ok ty => pure ty
  | .error e => throw (.proto e)

def decodeM : ReadM Frame := do
  let ty ← readType
  let frame ← readFields ty
  Reader.expectEnd
  pure frame

def decode (buf : Bytes) : Except Fault Frame := (exec decodeM (Reader.new buf)).1

def InRange : Frame → Prop
  | .clientHelloOneRtt _ clientPk => clientPk.length ≤ 65535
  | .clientHelloZeroRtt _ clientPk payload => clientPk.length ≤ 65535 ∧ payload.InRange
  | .clientData clientPk payload => clientPk.length ≤ 65535 ∧ payload.InRange
  | .serverHello _ serverPk certificate _ =>
    serverPk.length ≤ 65535 ∧ certificate.length ≤ 2 ^ 32 - 1
  | .serverAck ekHash => ekHash.length ≤ 65535
  | .dataRecord _ ciphertext => ciphertext.length ≤ 2 ^ 32 - 1
  | .close => True

end Frame

def KemPayload.wire (p : KemPayload) : Bytes :=
  bytes16 p.ciphertext ++ (p.srcIp.val ++ (toBe 8 p.tsMillis.toNat ++
    (p.nonce.val ++ (bytes16 p.clientSig ++ bytes32 p.encData))))

def Frame.fields : Frame → Bytes
  | .clientHelloOneRtt suiteId clientPk => toBe 2 suiteId.toNat ++ bytes16 clientPk
  | .clientHelloZeroRtt suiteId clientPk payload =>
    toBe 2 suiteId.toNat ++ (bytes16 clientPk ++ payload.wire)
  | .clientData clientPk payload => bytes16 clientPk ++ payload.wire
  | .serverHello suiteId serverPk certificate serverTs =>
    toBe 2 suiteId.toNat ++ (bytes16 serverPk ++ (bytes32 certificate ++ toBe 8 serverTs.toNat))
  | .serverAck ekHash => bytes16 ekHash
  | .dataRecord dir ciphertext => [dir] ++ bytes32 ciphertext
  | .close => []

theorem KemPayload.length_wire (p : KemPayload) :
    p.wire.length = p.ciphertext.length + p.clientSig.length + p.encData.length + 64 := by
  simp only [wire,List.length_append,length_bytes16,length_bytes32,length_toBe,p.srcIp.property,
    p.nonce.property]
  omega

theorem KemPayload.buf_write (p : KemPayload) (w : Writer) :
    (p.write w).buf = w.buf ++ p.wire := by
  simp [KemPayload.write,KemPayload.wire]

theorem Frame.encode_eq (f : Frame) : f.encode = [f.frameType.toU8] ++ f.fields := by
  cases f <;>
    simp [Frame.encode,Writer.intoBytes,Frame.fields,Frame.frameType,KemPayload.buf_write]

theorem KemPayload.read_accepts (p : KemPayload) (h : p.InRange) :
    Accepts View KemPayload.read p.wire p := by
  obtain ⟨hc,hs,he⟩ := h
  have h₁ := bytes16_accepts (b := p.ciphertext) (by omega)
  have h₂ := bytes16_accepts (b := p.clientSig) (by omega)
  have h₃ := bytes32_accepts (b := p.encData) (by omega)
  exact h₁.bind ((array_accepts p.srcIp).bind ((u64_accepts p.tsMillis).bind
    ((array_accepts p.nonce).bind (h₂.bind (h₃.map _)))))

theorem Frame.readFields_accepts (f : Frame) (h : f.InRange) :
    Accepts View (Frame.readFields f.frameType) f.fields f := by
  cases f with
  | clientHelloOneRtt suiteId clientPk =>
    have hk : clientPk.length ≤ 65535 := h
    exact (u16_accepts suiteId).bind ((bytes16_accepts (by omega)).map _)
  | clientHelloZeroRtt suiteId clientPk payload =>
    obtain ⟨hk,hp⟩ := h
    exact (u16_accepts suiteId).bind ((bytes16_accepts (by omega)).bind
      ((payload.read_accepts hp).map _))
  | clientData clientPk payload =>
    obtain ⟨hk,hp⟩ := h
    exact (bytes16_accepts (by omega)).bind ((payload.read_accepts hp).map _)
  | serverHello suiteId serverPk certificate serverTs =>
    obtain ⟨hk,hc⟩ := h
    exact (u16_accepts suiteId).bind ((bytes16_accepts (by omega)).bind
      ((bytes32_accepts (by omega)).bind ((u64_accepts serverTs).map _)))
  | serverAck ekHash =>
    have hk : ekHash.length ≤ 65535 := h
    exact (bytes16_accepts (by omega)).map _
  | dataRecord dir ciphertext =>
    have hc : ciphertext.length ≤ 2 ^ 32 - 1 := h
    exact (u8_accepts dir).bind ((bytes32_accepts (by omega)).map _)
  | close => exact Accepts.pure _

theorem Frame.readType_accepts (t : FrameType) : Accepts View Frame.readType [t.toU8] t := by
  have ht : Accepts View (match FrameType.fromU8 t.toU8 with
      | .ok ty => pure ty
      | .error e => throw (.proto e) : ReadM FrameType) [] t := by
    rw [FrameType.fromU8_toU8]
    exact Accepts.pure t
  exact (u8_accepts t.toU8).bind ht

theorem Frame.decode_append (f : Frame) (h : f.InRange) (s : Bytes) :
    Frame.decode (f.encode ++ s) =
      if s = [] then .ok f else .error (.proto (.trailingBytes s.length)) := by
  have ha : Accepts View (Frame.readType >>= Frame.readFields) f.encode f := by
    rw [Frame.encode_eq]
    exact (Frame.readType_accepts f.frameType).bind (f.readFields_accepts h)
  obtain ⟨r,hr,hv⟩ := ha (Reader.new (f.encode ++ s)) s (view_new (f.encode ++ s))
  obtain ⟨ty,r₁,hty,hf⟩ := exec_bind_eq_ok hr
  rw [Frame.decode,Frame.decodeM,exec_bind_ok hty,exec_bind_ok hf,exec_bind,exec_expectEnd hv]
  by_cases hs : s = [] <;> simp [hs]

theorem Frame.decode_encode (f : Frame) (h : f.InRange) : Frame.decode f.encode = .ok f := by
  simpa using f.decode_append h []

theorem KemPayload.read_reads :
    ReadsAs KemPayload.read (fun p w => w = p.wire ∧ p.InRange) := by
  apply (bytes16_reads.bind fun _ => (array_reads 16).bind fun _ =>
    u64_reads.bind fun _ => (array_reads 32).bind fun _ => bytes16_reads.bind fun _ =>
    bytes32_reads.bind fun _ => Reads.pure _).mono
  rintro p w ⟨ct,w₁,_,rfl,⟨rfl,hct⟩,ip,w₂,_,rfl,rfl,ts,w₃,_,rfl,rfl,nonce,w₄,_,rfl,rfl,
    sig,w₅,_,rfl,⟨rfl,hsig⟩,enc,w₆,w₇,rfl,⟨rfl,henc⟩,rfl,rfl⟩
  exact ⟨by simp [KemPayload.wire],Nat.le_of_lt_succ hct,Nat.le_of_lt_succ hsig,
    Nat.le_of_lt_succ henc⟩

theorem Frame.readFields_reads (t : FrameType) :
    ReadsAs (Frame.readFields t)
      (fun f w => f.frameType = t ∧ w = f.fields ∧ f.InRange) := by
  cases t with
  | clientHelloOneRtt =>
    apply (u16_reads.bind fun _ => bytes16_reads.bind fun _ => Reads.pure _).mono
    rintro f w ⟨id,w₁,_,rfl,rfl,pk,w₂,w₃,rfl,⟨rfl,hpk⟩,rfl,rfl⟩
    exact ⟨rfl,by simp [Frame.fields],Nat.le_of_lt_succ hpk⟩
  | clientHelloZeroRtt =>
    apply (u16_reads.bind fun _ => bytes16_reads.bind fun _ =>
      KemPayload.read_reads.bind fun _ => Reads.pure _).mono
    rintro f w ⟨id,w₁,_,rfl,rfl,pk,w₂,_,rfl,⟨rfl,hpk⟩,p,w₃,w₄,rfl,⟨rfl,hp⟩,rfl,rfl⟩
    exact ⟨rfl,by simp [Frame.fields],Nat.le_of_lt_succ hpk,hp⟩
  | clientData =>
    apply (bytes16_reads.bind fun _ =>
      KemPayload.read_reads.bind fun _ => Reads.pure _).mono
    rintro f w ⟨pk,w₂,_,rfl,⟨rfl,hpk⟩,p,w₃,w₄,rfl,⟨rfl,hp⟩,rfl,rfl⟩
    exact ⟨rfl,by simp [Frame.fields],Nat.le_of_lt_succ hpk,hp⟩
  | serverHello =>
    apply (u16_reads.bind fun _ => bytes16_reads.bind fun _ =>
      bytes32_reads.bind fun _ => u64_reads.bind fun _ => Reads.pure _).mono
    rintro f w ⟨id,w₁,_,rfl,rfl,pk,w₂,_,rfl,⟨rfl,hpk⟩,cert,w₃,_,rfl,⟨rfl,hcert⟩,
      ts,w₄,w₅,rfl,rfl,rfl,rfl⟩
    exact ⟨rfl,by simp [Frame.fields],Nat.le_of_lt_succ hpk,Nat.le_of_lt_succ hcert⟩
  | serverAck =>
    apply (bytes16_reads.bind fun _ => Reads.pure _).mono
    rintro f w ⟨h,w₁,w₂,rfl,⟨rfl,hh⟩,rfl,rfl⟩
    exact ⟨rfl,by simp [Frame.fields],Nat.le_of_lt_succ hh⟩
  | dataRecord =>
    apply (u8_reads.bind fun _ => bytes32_reads.bind fun _ => Reads.pure _).mono
    rintro f w ⟨d,w₁,_,rfl,rfl,ct,w₂,w₃,rfl,⟨rfl,hct⟩,rfl,rfl⟩
    exact ⟨rfl,by simp [Frame.fields],Nat.le_of_lt_succ hct⟩
  | close =>
    apply (Reads.pure _).mono
    rintro f w ⟨rfl,rfl⟩
    exact ⟨rfl,rfl,trivial⟩

theorem Frame.readType_consumes :
    Consumes View Frame.readType (fun t w => w = [t.toU8]) := by
  intro r l t r' hv he
  obtain ⟨v,r₁,hb,ht⟩ := exec_bind_eq_ok he
  obtain ⟨w,rest,hl,hv₁,rfl⟩ := u8_reads.consumes r l v r₁ hv hb
  cases hty : FrameType.fromU8 v with
  | error e => simp [hty] at ht
  | ok ty =>
    simp only [hty,exec_pure,Prod.mk.injEq,Except.ok.injEq] at ht
    obtain ⟨rfl,rfl⟩ := ht
    exact ⟨[v],rest,hl,hv₁,congrArg (fun t => [t]) (FrameType.toU8_of_fromU8 hty).symm⟩

theorem Frame.encode_of_decode {b : Bytes} {f : Frame} (h : Frame.decode b = .ok f) :
    f.encode = b ∧ f.InRange := by
  rcases he : exec Frame.decodeM (Reader.new b) with ⟨x,r⟩
  rw [Frame.decode,he] at h
  obtain rfl : x = .ok f := h
  obtain ⟨ty,r₁,hty,he₁⟩ := exec_bind_eq_ok he
  obtain ⟨w₁,l₁,rfl,hv₁,rfl⟩ := Frame.readType_consumes _ b ty r₁ (view_new b) hty
  obtain ⟨g,r₂,hg,he₂⟩ := exec_bind_eq_ok he₁
  obtain ⟨w₂,l₂,rfl,hv₂,rfl,rfl,hrange⟩ := (Frame.readFields_reads ty).consumes r₁ l₁ g r₂ hv₁ hg
  obtain ⟨_,r₃,hend,he₃⟩ := exec_bind_eq_ok he₂
  rw [exec_expectEnd hv₂] at hend
  have hl : l₂ = [] := by
    by_contra hne
    simp [hne] at hend
  simp only [exec_pure,Prod.mk.injEq,Except.ok.injEq] at he₃
  obtain ⟨rfl,rfl⟩ := he₃
  rw [hl,Frame.encode_eq]
  exact ⟨by simp,hrange⟩

theorem decode_encode_iff (f : Frame) : Frame.decode f.encode = .ok f ↔ f.InRange :=
  ⟨fun h => (Frame.encode_of_decode h).2,f.decode_encode⟩

theorem decode_canonical :
    (∀ b f, Frame.decode b = .ok f → f.encode = b ∧ f.InRange) ∧
    {b | ∃ f, Frame.decode b = .ok f} = Set.image Frame.encode {f | f.InRange} ∧
    ∀ b b' f, Frame.decode b = .ok f → Frame.decode b' = .ok f → b = b' := by
  refine ⟨fun b f => Frame.encode_of_decode,?_,?_⟩
  · ext b
    constructor
    · rintro ⟨f,hf⟩
      obtain ⟨he,hr⟩ := Frame.encode_of_decode hf
      exact ⟨f,hr,he⟩
    · rintro ⟨f,hr,rfl⟩
      exact ⟨f,f.decode_encode hr⟩
  · intro b b' f h h'
    rw [← (Frame.encode_of_decode h).1,(Frame.encode_of_decode h').1]

end OrtTunnel.Proto
