import CreditMachine.Program.Image
import CreditMachine.Proofs.Decoding

/-!
# Images that load

What a decoder takes for a value, it has taken whole, and it takes nothing for a value
but what the encoder writes (`Decoder.Yields`). This goes the other way than
`Decoder.Takes`; where both hold of the codecs of some parts, they hold of what is
made of the parts.

* `Program.ofImage_eq_ok_iff`: of all data, exactly the images of the programs that
  are within the limits (`Program.Fits`) are loaded, each as its own program, and of
  what begins with the encoding of such a program exactly the encoding is taken.
-/

namespace CreditMachine

/-- The number that `n` bytes stand for has at most `n` places in base 256. -/
theorem ofLittleEndian_lt (bs : Bytes) : ofLittleEndian bs < 256 ^ bs.length := by
  induction bs with
  | nil => decide
  | cons b bs ih =>
    have hb := b.toNat_lt
    rw [ofLittleEndian, List.length_cons, Nat.pow_succ]
    omega

/-- The bytes of a text are those that it was read from. -/
theorem utf8_of_ofUtf8? {bs : Bytes} {s : String} (h : ofUtf8? bs = some s) : utf8 s = bs := by
  rw [ofUtf8?, String.fromUTF8?] at h
  split at h
  · obtain rfl := Option.some.inj h
    simp [utf8, String.fromUTF8]
  · cases h

namespace Decoder

variable {α β : Type}

/-- Whatever the decoder `d` takes for a value, `Q` holds of these bytes and the value. -/
def Yields (d : Decoder α) (Q : Bytes → α → Prop) : Prop :=
  ∀ s a r, d s = .ok (a, r) → ∃ bs, s = bs ++ r ∧ Q bs a

/-- The decoder of a type takes nothing for a value but its encoding, and only for
    values that `F` holds of. -/
def Exact (F : α → Prop) [Codec α] : Prop :=
  Yields (decode : Decoder α) fun bs a => F a ∧ bs = encode a

variable {d : Decoder α} {f : α → Decoder β} {P : Bytes → α → Prop} {Q : Bytes → β → Prop}

namespace Yields

theorem pure {a : α} (h : P [] a) : Yields (pure a) P := by
  intro s b r he
  cases he
  exact ⟨[], rfl, h⟩

theorem throw (e : DecodeError) : Yields (throw e) P := by
  intro s a r he
  cases he

theorem bind (hd : Yields d P) (hf : ∀ bs a, P bs a → Yields (f a) fun bs' b => Q (bs ++ bs') b) :
    Yields (d >>= f) Q := by
  intro s b r he
  rw [bind_apply] at he
  split at he
  · next a t ha =>
    obtain ⟨bs, rfl, hp⟩ := hd _ _ _ ha
    obtain ⟨bs', rfl, hq⟩ := hf bs a hp _ _ _ he
    exact ⟨bs ++ bs', (List.append_assoc ..).symm, hq⟩
  · cases he

theorem mono (hd : Yields d P) {P' : Bytes → α → Prop} (h : ∀ bs a, P bs a → P' bs a) :
    Yields d P' := by
  intro s a r he
  obtain ⟨bs, hs, hp⟩ := hd s a r he
  exact ⟨bs, hs, h bs a hp⟩

theorem then_pure {g : α → β} (hd : Yields d P) (hg : ∀ bs a, P bs a → Q bs (g a)) :
    Yields (do let a ← d; return g a) Q :=
  hd.bind fun bs a ha => .pure (by simpa using hg bs a ha)

theorem map {g : α → β} (hd : Yields d P) (hg : ∀ bs a, P bs a → Q bs (g a)) :
    Yields (g <$> d) Q := by
  rw [map_eq_pure_bind]
  exact hd.then_pure hg

theorem bytes (n : Nat) : Yields (bytes n) fun bs b => bs.length = n ∧ b = bs := by
  intro s b r he
  rw [Decoder.bytes] at he
  split at he
  · next hn =>
    cases he
    exact ⟨s.take n, (List.take_append_drop n s).symm, hn, rfl⟩
  · cases he

/-- Every number that fits in `w` bytes has one form only: there is nothing else to be taken for
    it. -/
theorem number (w : Nat) : Yields (number w) fun bs n => n < 256 ^ w ∧ bs = littleEndian w n := by
  refine (bytes w).map ?_
  rintro _ bs ⟨rfl, rfl⟩
  exact ⟨ofLittleEndian_lt bs, (littleEndian_ofLittleEndian bs).symm⟩

theorem length : Yields length fun bs n => n ≤ maxLength ∧ bs = littleEndian 8 n := by
  refine (number 8).bind ?_
  rintro bs n ⟨_, rfl⟩
  split
  · exact .throw _
  · next h => exact .pure ⟨Nat.not_lt.1 h, by simp⟩

/-- Values that are taken in turn, each of them exactly. -/
theorem times [Codec α] {F : α → Prop} (h : Exact F) (n : Nat) :
    Yields (times n decode) fun bs l => l.length = n ∧ (∀ a ∈ l, F a) ∧ bs = l.flatMap encode := by
  induction n with
  | zero => exact .pure ⟨rfl, by simp, rfl⟩
  | succ n ih =>
    rw [Decoder.times, List.replicate_succ, List.mapM_cons]
    refine bind h ?_
    rintro _ a ⟨ha, rfl⟩
    refine ih.then_pure ?_
    rintro _ l ⟨rfl, hl, rfl⟩
    exact ⟨rfl, by simpa using ⟨ha, hl⟩, rfl⟩

end Yields

/-- The other way round: of values that can each be taken, all are taken in turn. -/
theorem Takes.times [Codec α] {l : List α} (h : ∀ a ∈ l, Takes decode (encode a) a) :
    Takes (times l.length decode) (l.flatMap encode) l := by
  induction l with
  | nil => exact .pure []
  | cons a l ih =>
    rw [List.forall_mem_cons] at h
    rw [Decoder.times, List.length_cons, List.replicate_succ, List.mapM_cons]
    exact h.1.bind ((ih h.2).then_pure (a :: ·))

/-! ### Codecs -/

theorem takes_uint32 (n : UInt32) : Takes decode (encode n) n := by
  have h := (Takes.number (show n.toNat < 256 ^ 4 from n.toNat_lt)).map UInt32.ofNat
  rwa [UInt32.ofNat_toNat] at h

theorem takes_list [Codec α] {l : List α} (hl : l.length ≤ maxLength)
    (h : ∀ a ∈ l, Takes decode (encode a) a) : Takes decode (encode l) l :=
  (Takes.length hl).bind (.times h)

theorem takes_array [Codec α] {l : Array α} (hl : l.size ≤ maxLength)
    (h : ∀ a ∈ l, Takes decode (encode a) a) : Takes decode (encode l) l :=
  (takes_list hl fun a ha => h a (Array.mem_toList_iff.1 ha)).map List.toArray

/-- A word that is decoded as a number of its width. -/
theorem exact_word [Codec α] {w : Nat} {g : Nat → α} (hd : decode = g <$> number w)
    (h : ∀ n < 256 ^ w, encode (g n) = littleEndian w n) : Exact fun _ : α => True := by
  rw [Exact, hd]
  refine (Yields.number w).map ?_
  rintro _ n ⟨hn, rfl⟩
  exact ⟨trivial, (h n hn).symm⟩

theorem exact_uint8 : Exact fun _ : UInt8 => True :=
  exact_word rfl fun _ h => congrArg (littleEndian 1) (UInt8.toNat_ofNat_of_lt' h)

theorem exact_uint32 : Exact fun _ : UInt32 => True :=
  exact_word rfl fun _ h => congrArg (littleEndian 4) (UInt32.toNat_ofNat_of_lt' h)

theorem exact_uint64 : Exact fun _ : UInt64 => True :=
  exact_word rfl fun _ h => congrArg (littleEndian 8) (UInt64.toNat_ofNat_of_lt' h)

theorem exact_bool : Exact fun _ : Bool => True := by
  refine exact_uint8.bind ?_
  rintro _ n ⟨-, rfl⟩
  split
  · exact .pure ⟨trivial, rfl⟩
  · exact .pure ⟨trivial, rfl⟩
  · exact .throw _

/-- Only 0 and 1 are taken for a tag, and what is behind a 1 as exactly as on its own. -/
theorem exact_option [Codec α] {F : α → Prop} (h : Exact F) :
    Exact fun x : Option α => ∀ a ∈ x, F a := by
  refine exact_bool.bind ?_
  rintro _ b ⟨-, rfl⟩
  cases b with
  | true =>
    refine h.then_pure ?_
    rintro _ a ⟨ha, rfl⟩
    exact ⟨by simpa using ha, rfl⟩
  | false => exact .pure ⟨by simp, rfl⟩

/-- A list is taken up to the limit, and each of its elements exactly. -/
theorem exact_list [Codec α] {F : α → Prop} (h : Exact F) :
    Exact fun l : List α => l.length ≤ maxLength ∧ ∀ a ∈ l, F a := by
  refine Yields.length.bind ?_
  rintro _ n ⟨hn, rfl⟩
  refine (Yields.times h n).mono ?_
  rintro _ l ⟨rfl, hl, rfl⟩
  exact ⟨⟨hn, hl⟩, rfl⟩

theorem exact_array [Codec α] {F : α → Prop} (h : Exact F) :
    Exact fun l : Array α => l.size ≤ maxLength ∧ ∀ a ∈ l, F a := by
  refine (exact_list h).map ?_
  rintro _ l ⟨hl, rfl⟩
  exact ⟨by simpa using hl, rfl⟩

/-- A text is taken up to the limit, and only from bytes that are the UTF-8 of it. -/
theorem exact_string : Exact fun s : String => s.utf8ByteSize ≤ maxLength := by
  refine Yields.length.bind ?_
  rintro _ n ⟨hn, rfl⟩
  refine (Yields.bytes n).bind ?_
  rintro _ bs ⟨rfl, rfl⟩
  split
  · next s hs =>
    obtain rfl := utf8_of_ofUtf8? hs
    rw [length_utf8] at hn
    exact .pure ⟨hn, by simp [encode]⟩
  · exact .throw _

/-- Every cell can be read back, and no other bytes are taken for it. -/
theorem exact_cell : Exact fun _ : Cell => True := by
  refine exact_uint64.bind ?_
  rintro _ s ⟨-, rfl⟩
  refine (exact_option exact_uint64).then_pure ?_
  rintro _ k ⟨-, rfl⟩
  exact ⟨trivial, rfl⟩

end Decoder

open Decoder

/-! ### Values -/

namespace Value

/-- A text is within the limit of sequences. The length of a blob is a word, and has
    no other limit. -/
def Fits : Value → Prop
  | .str s => s.utf8ByteSize ≤ maxLength
  | .bytes b => b.length < 2 ^ 64
  | _ => True

/-- A value within the limits is read back. -/
theorem takes_of_fits {v : Value} (h : v.Fits) : Takes decode (encode v) v := by
  cases v with
  | str s => exact takes_cons ((takes_string h).then_pure Value.str)
  | bytes b => exact takes_cons ((Takes.number h).bind ((Takes.bytes b).then_pure Value.bytes))
  | ref x => exact takes (by rw [size]; split <;> decide) rfl
  | _ => exact takes (by simp [size, ceiling]) rfl

/-- Nothing is taken for a value but a value within the limits, by its own tag. -/
theorem exact : Exact Fits := by
  rw [Exact, decode_eq]
  refine exact_uint8.bind ?_
  rintro _ t ⟨-, rfl⟩
  rw [encode_uint8]
  unfold payload
  split
  · exact .pure ⟨trivial, rfl⟩
  · refine (Yields.number 32).then_pure ?_
    rintro _ n ⟨hn, rfl⟩
    refine ⟨trivial, congrArg (1 :: littleEndian 32 ·) ?_⟩
    rw [BitVec.toNat_ofNat, Nat.mod_eq_of_lt (show n < 2 ^ 256 from hn)]
  · refine exact_string.then_pure ?_
    rintro _ s ⟨hs, rfl⟩
    exact ⟨hs, rfl⟩
  · refine (Yields.number 8).bind ?_
    rintro _ n ⟨hn, rfl⟩
    refine (Yields.bytes n).then_pure ?_
    rintro _ b ⟨rfl, rfl⟩
    exact ⟨hn, rfl⟩
  · refine exact_uint64.then_pure ?_
    rintro _ n ⟨-, rfl⟩
    exact ⟨trivial, rfl⟩
  · refine exact_uint64.then_pure ?_
    rintro _ n ⟨-, rfl⟩
    exact ⟨trivial, rfl⟩
  · refine exact_cell.then_pure ?_
    rintro _ x ⟨-, rfl⟩
    exact ⟨trivial, rfl⟩
  · exact .throw _

end Value

/-! ### Programs -/

namespace Operand

theorem takes (o : Operand) : Takes decode (encode o) o := by
  cases o with
  | none => exact (takes_uint8 0).bind (.pure _)
  | addr a => exact (takes_uint8 1).bind ((takes_uint64 a).then_pure Operand.addr)
  | imm n => exact (takes_uint8 2).bind ((takes_uint64 n).then_pure Operand.imm)

/-- Nothing is taken for an operand but its encoding. -/
theorem exact : Exact fun _ : Operand => True := by
  refine exact_uint8.bind ?_
  rintro _ t ⟨-, rfl⟩
  unfold Kind.ofTag
  split
  · exact .pure ⟨trivial, rfl⟩
  · refine exact_uint64.then_pure ?_
    rintro _ a ⟨-, rfl⟩
    exact ⟨trivial, rfl⟩
  · refine exact_uint64.then_pure ?_
    rintro _ n ⟨-, rfl⟩
    exact ⟨trivial, rfl⟩
  · exact .throw _

end Operand

namespace Instruction

theorem encode_mk (c : UInt8) (x y z : Operand) :
    encode (⟨c, #v[x, y, z]⟩ : Instruction) = encode c ++ (encode x ++ (encode y ++ encode z)) := by
  rw [encode_uint8]
  change c :: [x, y, z].flatMap encode = _
  simp only [List.flatMap_cons, List.flatMap_nil, List.append_nil, List.singleton_append]

theorem takes (i : Instruction) : Takes decode (encode i) i := by
  obtain ⟨c, l⟩ := i
  obtain ⟨x, y, z, rfl⟩ : ∃ x y z, l = #v[x, y, z] := by
    obtain ⟨⟨l⟩, hl⟩ := l
    match l, hl with
    | [x, y, z], _ => exact ⟨x, y, z, rfl⟩
  rw [encode_mk]
  refine (takes_uint8 c).bind (x.takes.bind (y.takes.bind ?_))
  exact z.takes.then_pure fun z => Instruction.mk c #v[x, y, z]

/-- Nothing is taken for an instruction but its code with three operands. -/
theorem exact : Exact fun _ : Instruction => True := by
  refine exact_uint8.bind ?_
  rintro _ c ⟨-, rfl⟩
  refine Operand.exact.bind ?_
  rintro _ x ⟨-, rfl⟩
  refine Operand.exact.bind ?_
  rintro _ y ⟨-, rfl⟩
  refine Operand.exact.then_pure ?_
  rintro _ z ⟨-, rfl⟩
  exact ⟨trivial, (encode_mk c x y z).symm⟩

end Instruction

namespace Method

/-- The name of a method is within the limit. -/
def Fits (m : Method) : Prop := m.name.utf8ByteSize ≤ maxLength

theorem encode_mk (s : String) (e : UInt64) (f a : UInt32) (r : Bool) :
    encode (⟨s, e, f, a, r⟩ : Method) =
      encode s ++ (encode e ++ (encode f ++ (encode a ++ encode r))) := by
  change encode s ++ encode e ++ encode f ++ encode a ++ encode r = _
  simp only [List.append_assoc]

theorem takes {m : Method} (h : m.Fits) : Takes decode (encode m) m := by
  obtain ⟨s, e, f, a, r⟩ := m
  rw [encode_mk]
  refine (takes_string h).bind ((takes_uint64 e).bind ((takes_uint32 f).bind ?_))
  exact (takes_uint32 a).bind ((takes_bool r).then_pure (Method.mk s e f a))

/-- Nothing is taken for a method but a method with a name within the limit. -/
theorem exact : Exact Fits := by
  refine exact_string.bind ?_
  rintro _ s ⟨hs, rfl⟩
  refine exact_uint64.bind ?_
  rintro _ e ⟨-, rfl⟩
  refine exact_uint32.bind ?_
  rintro _ f ⟨-, rfl⟩
  refine exact_uint32.bind ?_
  rintro _ a ⟨-, rfl⟩
  refine exact_bool.then_pure ?_
  rintro _ r ⟨-, rfl⟩
  exact ⟨hs, (encode_mk s e f a r).symm⟩

end Method

namespace Version

theorem encode_mk (a b c : UInt8) :
    encode (⟨a, b, c⟩ : Version) = encode a ++ (encode b ++ encode c) := by
  rw [encode_uint8, encode_uint8, encode_uint8]
  rfl

theorem takes (v : Version) : Takes decode (encode v) v := by
  obtain ⟨a, b, c⟩ := v
  rw [encode_mk]
  exact (takes_uint8 a).bind ((takes_uint8 b).bind ((takes_uint8 c).then_pure (Version.mk a b)))

/-- Nothing is taken for a version but its three numbers. -/
theorem exact : Exact fun _ : Version => True := by
  refine exact_uint8.bind ?_
  rintro _ a ⟨-, rfl⟩
  refine exact_uint8.bind ?_
  rintro _ b ⟨-, rfl⟩
  refine exact_uint8.then_pure ?_
  rintro _ c ⟨-, rfl⟩
  exact ⟨trivial, (encode_mk a b c).symm⟩

end Version

namespace Program

/-- A program is within the limits of what is loaded: no part of it is longer than
    `maxLength`, and so are the names of its methods and the texts of its constants. -/
structure Fits (p : Program) : Prop where
  constants : p.constants.size ≤ maxLength
  values : ∀ v ∈ p.constants, v.Fits
  code : p.code.size ≤ maxLength
  methods : p.methods.size ≤ maxLength
  names : ∀ m ∈ p.methods, m.Fits
  lines : p.lines.size ≤ maxLength

theorem encode_mk (c : Array Value) (i : Array Instruction) (m : Array Method) (l : Array UInt32) :
    encode (⟨c, i, m, l⟩ : Program) = encode c ++ (encode i ++ (encode m ++ encode l)) := by
  change encode c ++ encode i ++ encode m ++ encode l = _
  simp only [List.append_assoc]

theorem takes {p : Program} (h : p.Fits) : Takes decode (encode p) p := by
  obtain ⟨c, i, m, l⟩ := p
  rw [encode_mk]
  refine (takes_array h.constants fun v hv => Value.takes_of_fits (h.values v hv)).bind ?_
  refine (takes_array h.code fun i _ => i.takes).bind ?_
  refine (takes_array h.methods fun m hm => Method.takes (h.names m hm)).bind ?_
  exact (takes_array h.lines fun n _ => takes_uint32 n).then_pure (Program.mk c i m)

/-- Nothing is taken for a program but a program within the limits. -/
theorem exact : Exact Fits := by
  refine (exact_array Value.exact).bind ?_
  rintro _ c ⟨⟨hc, hv⟩, rfl⟩
  refine (exact_array Instruction.exact).bind ?_
  rintro _ i ⟨⟨hi, -⟩, rfl⟩
  refine (exact_array Method.exact).bind ?_
  rintro _ m ⟨⟨hm, hn⟩, rfl⟩
  refine (exact_array exact_uint32).then_pure ?_
  rintro _ l ⟨⟨hl, -⟩, rfl⟩
  exact ⟨⟨hc, hv, hi, hm, hn, hl⟩, (encode_mk c i m l).symm⟩

/-- A program is decoded from what begins with its encoding, if it is within the
    limits, and from nothing else. -/
theorem decode_eq_ok_iff {p : Program} {s r : Bytes} :
    decode s = .ok (p, r) ↔ p.Fits ∧ s = encode p ++ r := by
  constructor
  · intro h
    obtain ⟨_, hs, hp, rfl⟩ := exact s p r h
    exact ⟨hp, hs⟩
  · rintro ⟨hp, rfl⟩
    exact takes hp r

/-- How an image is read: the mark, the version, and the program, in this order. -/
theorem ofImage_eq (x : Bytes) : ofImage x =
    if x.take mark.length = mark then
      match (decode : Decoder Version) (x.drop mark.length) with
      | .error e => .error (.decode e)
      | .ok (v, s) =>
        if v = .current then
          match (decode : Decoder Program) s with
          | .error e => .error (.decode e)
          | .ok (p, r) => if r.isEmpty then .ok p else .error .trailingBytes
        else .error (.unsupportedVersion v)
    else .error .badMark := by
  rw [ofImage]
  by_cases hx : x.take mark.length = mark
  · rw [if_neg (not_not_intro hx), if_pos hx]
    cases (decode : Decoder Version) (x.drop mark.length) with
    | error e => rfl
    | ok y =>
      obtain ⟨v, s⟩ := y
      change (if v ≠ .current then _ else _) = (if v = .current then _ else _)
      by_cases hv : v = .current
      · rw [if_neg (not_not_intro hv), if_pos hv]
        cases (decode : Decoder Program) s <;> rfl
      · rw [if_pos hv, if_neg hv]
        rfl
  · rw [if_pos hx, if_neg hx]
    rfl

/-- The image of a program within the limits loads, as the program. -/
theorem ofImage_image {p : Program} (hp : p.Fits) : ofImage p.image = .ok p := by
  have hv := Version.takes .current (encode p)
  have hd := takes hp []
  rw [List.append_nil] at hd
  rw [ofImage_eq, image, List.append_assoc, List.take_left, List.drop_left, if_pos rfl, hv]
  dsimp only
  rw [if_pos rfl, hd]
  rfl

/-- What loads is the image of a program within the limits. -/
theorem image_of_ofImage {p : Program} {x : Bytes} (h : ofImage x = .ok p) :
    p.Fits ∧ x = p.image := by
  rw [ofImage_eq] at h
  split at h
  case isFalse => cases h
  next hm =>
  split at h
  · cases h
  next v s hv =>
  obtain ⟨_, hs, -, rfl⟩ := Version.exact _ _ _ hv
  split at h
  case isFalse => cases h
  next hc =>
  subst hc
  split at h
  · cases h
  next q r hq =>
  obtain ⟨hp, rfl⟩ := decode_eq_ok_iff.1 hq
  split at h
  case isFalse => cases h
  next hr =>
  obtain rfl := List.isEmpty_iff.1 hr
  obtain rfl := Except.ok.inj h
  refine ⟨hp, ?_⟩
  rw [← List.take_append_drop mark.length x, hm, hs, image, List.append_nil, List.append_assoc]

/-- Exactly the images of the programs that are within the limits are loaded, each as
    its own program, and exactly what begins with the encoding of such a program is
    decoded as it, up to there. -/
theorem ofImage_eq_ok_iff (p : Program) :
    (∀ x, ofImage x = .ok p ↔ p.Fits ∧ x = p.image) ∧
      ∀ s r, decode s = .ok (p, r) ↔ p.Fits ∧ s = encode p ++ r := by
  refine ⟨fun x => ⟨image_of_ofImage, ?_⟩, fun s r => decode_eq_ok_iff⟩
  rintro ⟨hp, rfl⟩
  exact ofImage_image hp

end Program

end CreditMachine
