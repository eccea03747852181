import OrtTunnel.Proto.Framing

namespace OrtTunnel.Net
open BigEndian Proto

inductive IoError where
  | unexpectedEof
  | invalidData (e : ProtoError)
  | invalidText (what : String)
  | brokenPipe
  deriving DecidableEq, Repr

-- tokio's `read_exact` over the bytes the peer will ever send.
def readExact (n : ℕ) (s : Bytes) : Except IoError (Arr n) × Bytes :=
  if h : n ≤ s.length then (.ok ⟨s.take n,List.length_take_of_le h⟩,s.drop n)
  else (.error .unexpectedEof,[])

def readFrame (s : Bytes) : Except IoError (Option Bytes) × Bytes :=
  match readExact 4 s with
  | (.error .unexpectedEof,s) => (.ok none,s)
  | (.error e,s) => (.error e,s)
  | (.ok lenBuf,s) =>
    match parseLen lenBuf with
    | .error e => (.error (.invalidData e),s)
    | .ok n =>
      match readExact n s with
      | (.error e,s) => (.error e,s)
      | (.ok body,s) => (.ok (some body.val),s)

theorem readExact_append {n : ℕ} {w t : Bytes} (h : w.length = n) :
    readExact n (w ++ t) = (.ok ⟨w,h⟩,t) := by
  subst h
  simp [readExact]

theorem readExact_cases (n : ℕ) (s : Bytes) :
    (s.length < n ∧ readExact n s = (.error .unexpectedEof,[])) ∨
    ∃ (w : Arr n) (t : Bytes), s = w.val ++ t ∧ readExact n s = (.ok w,t) := by
  by_cases h : n ≤ s.length
  · refine Or.inr ⟨⟨s.take n,List.length_take_of_le h⟩,s.drop n,?_,by simp [readExact,h]⟩
    exact (List.take_append_drop n s).symm
  · exact Or.inl ⟨by omega,by simp [readExact,h]⟩

theorem readFrame_framed {body rest : Bytes} (h : body.length ≤ maxFrame) :
    readFrame (encodeFramed body ++ rest) = (.ok (some body),rest) := by
  have hp : readExact 4 (toBe 4 body.length ++ (body ++ rest)) = _ :=
    readExact_append (length_toBe 4 body.length)
  rw [encodeFramed_eq h,List.append_assoc,readFrame,hp]
  simp only [parseLen_toBe h,readExact_append rfl]

theorem readFrame_cases (s : Bytes) :
    (s.length < 4 ∧ readFrame s = (.ok none,[])) ∨
    (∃ body rest, body.length ≤ maxFrame ∧ s = encodeFramed body ++ rest ∧
      readFrame s = (.ok (some body),rest)) ∨
    ∃ e rest, readFrame s = (.error e,rest) := by
  rcases readExact_cases 4 s with ⟨hs,he⟩ | ⟨w,t,rfl,he⟩
  · exact Or.inl ⟨hs,by simp [readFrame,he]⟩
  · cases hp : parseLen w with
    | error e => exact Or.inr (Or.inr ⟨.invalidData e,t,by simp [readFrame,he,hp]⟩)
    | ok n =>
      obtain ⟨hw,hn⟩ := toBe_of_parseLen hp
      rcases readExact_cases n t with ⟨_,hb⟩ | ⟨body,rest,rfl,hb⟩
      · exact Or.inr (Or.inr ⟨.unexpectedEof,[],by simp [readFrame,he,hp,hb]⟩)
      · have hm : body.val.length ≤ maxFrame := by rw [body.property]; exact hn
        refine Or.inr (Or.inl ⟨body.val,rest,hm,?_,by simp [readFrame,he,hp,hb]⟩)
        rw [encodeFramed_eq hm,body.property,hw,List.append_assoc]

theorem readFrame_some {s body rest : Bytes} (h : readFrame s = (.ok (some body),rest)) :
    body.length ≤ maxFrame ∧ s = encodeFramed body ++ rest := by
  rcases readFrame_cases s with ⟨_,he⟩ | ⟨b,r,hb,hs,he⟩ | ⟨e,r,he⟩ <;> rw [h] at he
  · simp at he
  · simp only [Prod.mk.injEq,Except.ok.injEq,Option.some.injEq] at he
    obtain ⟨rfl,rfl⟩ := he
    exact ⟨hb,hs⟩
  · simp at he

theorem readFrame_none {s rest : Bytes} (h : readFrame s = (.ok none,rest)) : s.length < 4 := by
  rcases readFrame_cases s with ⟨hs,_⟩ | ⟨b,r,_,_,he⟩ | ⟨e,r,he⟩
  · exact hs
  · rw [h] at he
    simp at he
  · rw [h] at he
    simp at he

theorem length_encodeFramed (body : Bytes) : (encodeFramed body).length = 4 + body.length := by
  simp [encodeFramed]

def readFrames (s : Bytes) : Except IoError (List Bytes) :=
  match _h : readFrame s with
  | (.error e,_) => .error e
  | (.ok none,_) => .ok []
  | (.ok (some body),rest) => (readFrames rest).map (body :: ·)
termination_by s.length
decreasing_by
  rw [(readFrame_some _h).2,List.length_append,length_encodeFramed]
  omega

def Framed (s : Bytes) (bs : List Bytes) : Prop :=
  (∀ b ∈ bs, b.length ≤ maxFrame) ∧ s = bs.flatMap encodeFramed

theorem readFrames_short {s : Bytes} (h : s.length < 4) : readFrames s = .ok [] := by
  have he : readFrame s = (.ok none,[]) := by
    rcases readExact_cases 4 s with ⟨_,he⟩ | ⟨w,t,rfl,_⟩
    · simp [readFrame,he]
    · simp [w.property] at h
  rw [readFrames]
  split <;> simp_all

theorem readFrames_framed {body rest : Bytes} (h : body.length ≤ maxFrame) :
    readFrames (encodeFramed body ++ rest) = (readFrames rest).map (body :: ·) := by
  have he := @readFrame_framed body rest h
  rw [readFrames]
  split <;> simp_all

theorem readFrames_ok_iff (s : Bytes) (bs : List Bytes) :
    readFrames s = .ok bs ↔ (∀ b ∈ bs, b.length ≤ maxFrame) ∧
      ∃ t, t.length < 4 ∧ s = bs.flatMap encodeFramed ++ t := by
  constructor
  · intro h
    induction s using readFrames.induct generalizing bs with
    | case1 s e rest he =>
      rw [readFrames] at h
      split at h <;> simp_all
    | case2 s rest he =>
      rw [readFrames_short (readFrame_none he)] at h
      obtain rfl : [] = bs := Except.ok.inj h
      exact ⟨by simp,s,readFrame_none he,by simp⟩
    | case3 s body rest he ih =>
      obtain ⟨hb,rfl⟩ := readFrame_some he
      rw [readFrames_framed hb] at h
      cases hr : readFrames rest with
      | error e => simp [hr,Except.map] at h
      | ok bs' =>
        rw [hr] at h
        obtain rfl : body :: bs' = bs := Except.ok.inj h
        obtain ⟨hall,t,ht,rfl⟩ := ih bs' hr
        exact ⟨by simpa [hb] using hall,t,ht,by simp⟩
  · rintro ⟨hall,t,ht,rfl⟩
    induction bs with
    | nil => simpa using readFrames_short ht
    | cons b bs ih =>
      have hb := hall b (by simp)
      have hbs : ∀ c ∈ bs, c.length ≤ maxFrame := fun c hc => hall c (by simp [hc])
      rw [List.flatMap_cons,List.append_assoc,readFrames_framed hb,ih hbs]
      rfl

def FramingExact (s : Bytes) : Prop :=
  (∀ bs, readFrames s = .ok bs ↔ Framed s bs) ∧
  ((¬ ∃ bs, Framed s bs) → ∃ e, readFrames s = .error e)

def EndsInsidePrefix (s : Bytes) : Prop :=
  ∃ (bs : List Bytes) (t : Bytes), (∀ b ∈ bs, b.length ≤ maxFrame) ∧
    s = bs.flatMap encodeFramed ++ t ∧ 0 < t.length ∧ t.length < 4

theorem framing_exact_iff (s : Bytes) : FramingExact s ↔ ¬ EndsInsidePrefix s := by
  constructor
  · rintro ⟨hiff,_⟩ ⟨bs,t,hall,hs,hpos,hlt⟩
    have hread := (readFrames_ok_iff s bs).mpr ⟨hall,t,hlt,hs⟩
    have hexact := ((hiff bs).mp hread).2
    have hlen := congrArg List.length (hs.symm.trans hexact)
    simp only [List.length_append] at hlen
    omega
  · intro hclean
    have hiff : ∀ bs, readFrames s = .ok bs ↔ Framed s bs := by
      intro bs
      rw [readFrames_ok_iff]
      constructor
      · rintro ⟨hall,t,ht,hs⟩
        have h0 : t.length = 0 := by
          by_contra hne
          exact hclean ⟨bs,t,hall,hs,by omega,ht⟩
        obtain rfl := List.eq_nil_of_length_eq_zero h0
        exact ⟨hall,by simpa using hs⟩
      · rintro ⟨hall,hs⟩
        exact ⟨hall,[],by simp,by simpa using hs⟩
    refine ⟨hiff,fun hnone => ?_⟩
    cases hr : readFrames s with
    | error e => exact ⟨e,rfl⟩
    | ok bs => exact absurd ⟨bs,(hiff bs).mp hr⟩ hnone

theorem truncated_prefix_reads_clean :
    readFrames [0] = .ok [] ∧ ¬ FramingExact [0] := by
  have hread : readFrames [0] = .ok [] := readFrames_short (by decide)
  refine ⟨hread,fun h => ?_⟩
  have hframed : Framed [0] [] := (h.1 []).mp hread
  exact absurd hframed.2 (by simp)

end OrtTunnel.Net
