import VectorMotion.Document.Property
import VectorMotion.Scalar.Floating
import VectorMotion.Proofs.Json.Records

/-!
# Values in a list of their own

Exporters put a value that does not change into a list by itself, and the content of a property may
stand in that form. But lists are tried as keyframes first and as records second, and both keyframes
and outlines may be lists of their fields. So what stands alone in a list may be taken for something
else.

A number cannot. A list of numbers is a keyframe whose time is the first of them, as long as none
of them stands where a keyframe has a handle: four numbers cannot be taken for a keyframe, but three
can.
An outline stands where the record of an outline says whether it is closed, and anything that is not
a switch says that it is not.
-/

namespace VectorMotion.Json.Decoder

variable {α : Type}

/-- A value is read as it stands. -/
theorem reading_some_iff (decode : Decoder α) (value : Value) (read : α) :
    decode.reading .value value = some read ↔ decode.ofValue value = .ok read := by
  rw [reading, Source.standing_value, ofValue]
  cases decode (.ofValue value) <;> simp [Except.toOption]

/-- What is alone in a list is read, or nothing is. -/
theorem single_reading {origin : Origin} (entered : origin.enter = .ok ()) (decode : Decoder α)
    (item : Value) :
    (list decode).reading origin (.list [item]) = (decode.reading origin item).map ([·]) := by
  rw [list_reading entered, List.mapM_cons, List.mapM_nil]
  cases decode.reading origin item <;> rfl

end VectorMotion.Json.Decoder

namespace VectorMotion.Document

open Json

variable {S V : Type} [Scalar S]

namespace Content

/-- Whether a value is a list of keyframes. -/
def IsKeyed (S : Type) [Scalar S] (decode : Decoder V) (value : Value) : Prop :=
  ((Decoder.list (Keyframe.decode (S := S) decode)).reading .value value).isSome = true

/-- A value that is no list of keyframes, and what can be read from it. -/
structure Reads (S : Type) [Scalar S] (decode : Decoder V) (value : Value) (read : V) : Prop where
  unkeyed : ¬IsKeyed S decode value
  direct : decode.reading .value value = some read

/-- Whether a value means the same alone in a list as it does by itself. -/
def Wraps (S : Type) [Scalar S] (decode : Decoder V) (value : Value) : Prop :=
  (ofValue decode (.list [value]) : Content S V) = ofValue decode value

variable {decode : Decoder V} {value : Value}

/-- A value that can be read as keyframes is read as keyframes. -/
theorem of_keys (some : value.isNull = false) {keys : List (Keyframe S V)}
    (keyed : (Decoder.list (Keyframe.decode decode)).reading .value value = .some keys) :
    ofValue decode value = .keyed keys := by
  rw [ofValue, some, (Decoder.reading_some_iff ..).mp keyed]
  rfl

/-- A value that can be read directly is read so, if it is no list of keyframes. -/
theorem of_direct (some : value.isNull = false) {read : V} (reads : Reads S decode value read) :
    (ofValue decode value : Content S V) = .fixed read := by
  have direct := (Decoder.reading_some_iff ..).mp reads.direct
  rw [ofValue, some]
  cases keyed : (Decoder.list (Keyframe.decode (S := S) decode)).ofValue value with
  | ok keys =>
    refine absurd ?_ reads.unkeyed
    rw [IsKeyed, (Decoder.reading_some_iff ..).mpr keyed]
    rfl
  | error misfit =>
    simp only [direct]
    rfl

/-- A list that can be read in no other way is read by its first item. -/
theorem of_first {item : Value} (unkeyed : ¬IsKeyed S decode (.list [item]))
    (undirect : decode.reading .value (.list [item]) = none) {read : V}
    (first : decode.reading .value item = some read) :
    (ofValue decode (.list [item]) : Content S V) = .fixed read := by
  have single : (Decoder.list decode).ofValue (.list [item]) = .ok [read] := by
    rw [← Decoder.reading_some_iff, Decoder.single_reading rfl, first]
    rfl
  rw [ofValue]
  cases keyed : (Decoder.list (Keyframe.decode (S := S) decode)).ofValue (.list [item]) with
  | ok keys =>
    refine absurd ?_ unkeyed
    rw [IsKeyed, (Decoder.reading_some_iff ..).mpr keyed]
    rfl
  | error misfit =>
    cases direct : decode.ofValue (.list [item]) with
    | ok read => simp [(Decoder.reading_some_iff ..).mpr direct] at undirect
    | error misfit => simp [Value.isNull, Keyframe.firstOf?, single]

/-- Something alone in a list is a list of keyframes if it is a keyframe. -/
theorem single_keyed_iff (item : Value) : IsKeyed S decode (.list [item]) ↔
    ((Keyframe.decode (S := S) decode).reading .value item).isSome = true := by
  rw [IsKeyed, Decoder.single_reading rfl, Option.isSome_map]

end Content

/-! ## Numbers -/

/-- A value that is a number. -/
def number (value : Number) : Value := .atom (.number value)

/-- A number is read as one wherever one is due, alone in a list or not. -/
theorem number_wraps {value : Value} {read : S}
    (reads : Content.Reads S Decoder.scalar value read) :
    (Content.ofValue Decoder.scalar value : Content S S) = .fixed read ∧
      Content.Wraps S (Decoder.scalar (S := S)) value := by
  cases value with
  | list items => nomatch reads.direct
  | object members => nomatch reads.direct
  | atom atom =>
    have some : (Value.atom atom).isNull = false := by
      cases atom with
      | null => nomatch reads.direct
      | _ => rfl
    have unkeyed : ¬Content.IsKeyed S (Decoder.scalar (S := S)) (.list [.atom atom]) := by
      rw [Content.single_keyed_iff]
      nofun
    have fixed := Content.of_direct some reads
    refine ⟨fixed, ?_⟩
    rw [Content.Wraps, fixed, Content.of_first unkeyed rfl reads.direct]

/-! ## Lists of numbers -/

/-- A list of numbers. -/
def numberList (numbers : List Number) : Value := .list (numbers.map number)

/-- A decoder that reads lists of numbers and nothing else. -/
def NumbersOnly (decode : Decoder V) : Prop :=
  ∀ value read, decode.reading .value value = some read → ∃ numbers, value = numberList numbers

/-- Only lists of numbers are read as sequences of them. -/
theorem sequence_numbers (expected : String) :
    NumbersOnly (Decoder.sequence expected (Decoder.scalar (S := S))) := by
  intro value read reads
  cases value with
  | atom atom => nomatch reads
  | object members => nomatch reads
  | list items =>
    rw [Decoder.sequence_reading rfl] at reads
    induction items generalizing read with
    | nil => exact ⟨[], rfl⟩
    | cons item rest inductionHypothesis =>
      rw [List.mapM_cons] at reads
      obtain ⟨first, firstRead, reads⟩ := Option.bind_eq_some_iff.mp reads
      obtain ⟨others, othersRead, -⟩ := Option.bind_eq_some_iff.mp reads
      obtain ⟨numbers, same⟩ := inductionHypothesis others othersRead
      obtain rfl := Value.list.inj same
      cases item with
      | list items => nomatch firstRead
      | object members => nomatch firstRead
      | atom atom =>
        cases atom with
        | number value => exact ⟨value :: numbers, rfl⟩
        | _ => nomatch firstRead

/-- So are points and scale factors. -/
theorem triple_numbers (missing : S) : NumbersOnly (Triple.decode missing) := by
  intro value read reads
  rw [Decoder.reading, Triple.decode, Decoded.to_option_bind] at reads
  obtain ⟨components, sequence, -⟩ := Option.bind_eq_some_iff.mp reads
  exact sequence_numbers _ value components sequence

/-- So are colours. -/
theorem color_numbers : NumbersOnly (decodeColor (S := S)) := by
  intro value read reads
  rw [Decoder.reading, decodeColor, Decoded.to_option_bind] at reads
  obtain ⟨components, sequence, -⟩ := Option.bind_eq_some_iff.mp reads
  exact sequence_numbers _ value components sequence

namespace NumbersOnly

variable {decode : Decoder V} (only : NumbersOnly decode)
include only

/-- No value is read from a number. -/
theorem unread (value : Number) : decode.reading .value (number value) = none := by
  cases reads : decode.reading .value (number value) with
  | none => rfl
  | some read =>
    obtain ⟨numbers, same⟩ := only _ read reads
    nomatch same

/-- So a keyframe has no value where a number stands. -/
theorem unvalued (value : Number) :
    (Keyframe.decodeValue decode).reading .value (number value) = some none := by
  have nothing : Keyframe.valueOf? decode (number value) = none := by
    cases direct : decode.ofValue (number value) with
    | ok read =>
      have reads := (Decoder.reading_some_iff ..).mpr direct
      simp [only.unread value] at reads
    | error misfit =>
      simp only [Keyframe.valueOf?, direct]
      rfl
  rw [← nothing]
  rfl

/-- A list of numbers is a keyframe if none of them stands where a handle is due. Then the first of
them is its time, and it has no value. -/
theorem keyframe (first : Number) (rest : List Number) :
    (Keyframe.decode (S := S) decode).reading .value (numberList (first :: rest)) =
      if rest.length < 3 then some { time := first.toScalar } else none := by
  have time : (Decoder.scalar (S := S)).reading .value (number first) = some first.toScalar := rfl
  have noHandle (value : Number) :
      (Decoder.optional (Handle.decode (S := S))).reading .value (number value) = none := rfl
  rw [numberList, Keyframe.decode, Record.decode_list rfl]
  match rest with
  | [] =>
    simp [Keyframe.fields, Record.inOrder, Record.run, Record.Field.must_reading, time]
  | [second] =>
    simp [Keyframe.fields, Record.inOrder, Record.run, Record.Field.must_reading,
      Record.Field.of_reading, time, only.unvalued]
  | [second, third] =>
    simp [Keyframe.fields, Record.inOrder, Record.run, Record.Field.must_reading,
      Record.Field.of_reading, time, only.unvalued]
  | second :: third :: fourth :: more =>
    simp [Keyframe.fields, Record.inOrder, Record.run, Record.Field.must_reading,
      Record.Field.of_reading, time, only.unvalued, noHandle]

/-- What a list of numbers means alone in a list: a keyframe if there are few of them, and otherwise
what it means by itself. -/
theorem wrapped {value : Value} {read : V} (reads : Content.Reads S decode value read) :
    ∃ first rest, value = numberList (first :: rest) ∧
      (Content.ofValue decode value : Content S V) = .fixed read ∧
      (Content.ofValue decode (.list [value]) : Content S V) =
        if rest.length < 3 then .keyed [{ time := first.toScalar }] else .fixed read := by
  obtain ⟨numbers, rfl⟩ := only value read reads.direct
  cases numbers with
  | nil => exact absurd rfl reads.unkeyed
  | cons first rest =>
    refine ⟨first, rest, rfl, Content.of_direct rfl reads, ?_⟩
    have key := only.keyframe (S := S) first rest
    split
    · next few =>
      rw [if_pos few] at key
      refine Content.of_keys rfl ?_
      rw [Decoder.single_reading rfl, key]
      rfl
    · next many =>
      rw [if_neg many] at key
      refine Content.of_first ?_ ?_ reads.direct
      · rw [Content.single_keyed_iff, key]
        nofun
      · cases nested : decode.reading .value (.list [numberList (first :: rest)]) with
        | none => rfl
        | some other =>
          obtain ⟨numbers, same⟩ := only _ other nested
          cases numbers <;> nomatch same

end NumbersOnly

/-! ## Outlines -/

/-- What is neither a boolean nor a number is no switch that is on. -/
theorem switch_off {value : Value} (noAtom : ∀ atom, value ≠ .atom atom) :
    Decoder.switch.reading .value value = some false := by
  rw [Decoder.reading, Decoder.switch, Source.whole_standing rfl]
  cases value with
  | atom atom => exact absurd rfl (noAtom atom)
  | list items => rfl
  | object members => rfl

/-- An outline alone in a list is a keyframe if it can be read as one. Otherwise it is taken for the
first field of an outline that has nothing in it. -/
theorem outline_wrapped {value : Value} {read : Vertices S}
    (reads : Content.Reads S (Vertices.decode (S := S)) value read) :
    (Content.ofValue Vertices.decode value : Content S (Vertices S)) = .fixed read ∧
      (Content.ofValue Vertices.decode (.list [value]) : Content S (Vertices S)) =
        match (Keyframe.decode (S := S) (Vertices.decode (S := S))).reading .value value with
        | some key => .keyed [key]
        | none => .fixed {} := by
  have noAtom : ∀ atom, value ≠ .atom atom := by
    rintro atom rfl
    nomatch reads.direct
  have some : value.isNull = false := by
    cases value with
    | atom atom => exact absurd rfl (noAtom atom)
    | _ => rfl
  refine ⟨Content.of_direct some reads, ?_⟩
  cases key : (Keyframe.decode (S := S) (Vertices.decode (S := S))).reading .value value with
  | some key =>
    refine Content.of_keys rfl ?_
    rw [Decoder.single_reading rfl, key]
    rfl
  | none =>
    refine Content.of_direct rfl ⟨?_, ?_⟩
    · rw [Content.single_keyed_iff, key]
      nofun
    · rw [Vertices.decode, Record.decode_list rfl]
      simp [Vertices.fields, Record.inOrder, Record.run, Record.Field.of_reading, switch_off noAtom]

/-! ## All kinds of values -/

/-- What a list of numbers means alone in a list: it is a keyframe without a value, at the time that
is the first of them, if there are three or fewer, and means what it means by itself if there are
more. -/
def NumbersWrapped (S : Type) [Scalar S] (decode : Decoder V) : Prop :=
  ∀ value read, Content.Reads S decode value read →
    ∃ first rest, value = numberList (first :: rest) ∧
      (Content.ofValue decode value : Content S V) = .fixed read ∧
      (Content.ofValue decode (.list [value]) : Content S V) =
        (if rest.length < 3 then .keyed [{ time := first.toScalar }] else .fixed read) ∧
      (Content.Wraps S decode value ↔ 3 ≤ rest.length)

/-- A decoder that accepts numbers alone reads a wrapped number as the number. -/
theorem NumbersOnly.numbers_wrapped {decode : Decoder V} (only : NumbersOnly decode) :
    NumbersWrapped S decode := by
  intro value read reads
  obtain ⟨first, rest, same, fixed, wrapped⟩ := only.wrapped reads
  refine ⟨first, rest, same, fixed, wrapped, ?_⟩
  rw [Content.Wraps, fixed, wrapped]
  split <;> simp <;> omega

/-- A value that is no list of keyframes, alone in a list. A number means what it means by itself. A
point, scale factors, a colour or another list of numbers means what it means by itself if there are
at least four numbers, and is a keyframe without a value otherwise. An outline is a keyframe if it
can be read as one; otherwise it is an outline with nothing in it, so it means what it means by
itself only if there is nothing in it. -/
theorem wrapped_values :
    (∀ value (read : S), Content.Reads S Decoder.scalar value read →
      (Content.ofValue Decoder.scalar value : Content S S) = .fixed read ∧
        Content.Wraps S (Decoder.scalar (S := S)) value) ∧
      (NumbersWrapped S (Triple.decodePoint (S := S)) ∧
        NumbersWrapped S (Triple.decodeFactors (S := S)) ∧
        NumbersWrapped S (decodeColor (S := S)) ∧
        NumbersWrapped S (Decoder.list (Decoder.scalar (S := S)))) ∧
      ∀ value (read : Vertices S), Content.Reads S Vertices.decode value read →
        let key := (Keyframe.decode (S := S) (Vertices.decode (S := S))).reading .value value
        (Content.ofValue Vertices.decode value : Content S (Vertices S)) = .fixed read ∧
          (Content.ofValue Vertices.decode (.list [value]) : Content S (Vertices S)) =
            (match key with
            | some key => .keyed [key]
            | none => .fixed {}) ∧
          (Content.Wraps S (Vertices.decode (S := S)) value ↔ key = none ∧ read = {}) := by
  refine ⟨fun value read reads => number_wraps reads, ⟨(triple_numbers _).numbers_wrapped,
    (triple_numbers _).numbers_wrapped, color_numbers.numbers_wrapped,
    (sequence_numbers _).numbers_wrapped⟩, fun value read reads => ?_⟩
  · intro key
    obtain ⟨fixed, wrapped⟩ := outline_wrapped reads
    refine ⟨fixed, wrapped, ?_⟩
    rw [Content.Wraps, fixed, wrapped]
    cases read : (Keyframe.decode (S := S) (Vertices.decode (S := S))).reading .value value <;>
      simp [key, read, eq_comm]

/-- An opaque red. -/
def red : Value := numberList [.natural 1, .natural 0, .natural 0, .natural 1]

/-- A closed outline with one vertex. -/
def dot : Value := .object [("c", .atom (.boolean true)),
  ("v", .list [numberList [.natural 1, .natural 2]])]

/-- A number and a colour with its opacity mean the same alone in a list; of an outline nothing is
left. -/
theorem red_kept :
    Content.Wraps Float32 (Decoder.scalar (S := Float32)) (number (.natural 5)) ∧
      Content.Wraps Float32 (decodeColor (S := Float32)) red ∧
      (Content.ofValue Vertices.decode (.list [dot]) : Content Float32 (Vertices Float32)) =
        .fixed {} := by
  obtain ⟨numbers, ⟨-, -, colors, -⟩, outlines⟩ := wrapped_values (S := Float32)
  refine ⟨(numbers (number (.natural 5)) _ ⟨nofun, rfl⟩).2, ?_, (outlines dot _ ⟨nofun, rfl⟩).2.1⟩
  obtain ⟨first, rest, same, -, -, wraps⟩ := colors red ⟨1, 0, 0, 1⟩ ⟨nofun, rfl⟩
  refine wraps.mpr ?_
  have length := congrArg List.length (Value.list.inj same)
  simp at length
  omega

/-- An outline does not mean the same alone in a list. -/
theorem dot_lost :
    (∃ read, Content.Reads Float32 (Vertices.decode (S := Float32)) dot read) ∧
      ¬Content.Wraps Float32 (Vertices.decode (S := Float32)) dot := by
  refine ⟨⟨_, nofun, rfl⟩, fun same => ?_⟩
  have closed := congrArg
    (fun | Content.fixed (read : Vertices Float32) => read.closed | _ => false) same
  exact absurd closed (by decide +kernel)

end VectorMotion.Document
