import Mathlib.Data.List.TakeWhile
import VectorMotion.Text.Blank

/-!
# Parts of a text

What is left of a text when the blanks around it are dropped, and what is left of it from a byte on or
up to a byte. Blanks are dropped as characters, so nothing can go wrong. Bytes are counted in the
stored form of a text, in which a character takes up to four of them; a text cannot be cut at a byte
that is inside a character, or behind the end.
-/

namespace VectorMotion.Text

/-! ## Blanks -/

/-- A text of blanks. -/
def Blank (text : List Char) : Prop := ∀ c ∈ text, isBlank c = true

/-- A text that neither begins nor ends with a blank. -/
structure Solid (text : List Char) : Prop where
  first : ∀ c ∈ text.head?, isBlank c = false
  last : ∀ c ∈ text.getLast?, isBlank c = false

/-- Two blank texts are one blank text. -/
theorem Blank.append {front rest : List Char} (first : Blank front) (second : Blank rest) :
    Blank (front ++ rest) :=
  List.forall_mem_append.mpr ⟨first, second⟩

/-- A blank text read backwards is blank. -/
theorem Blank.reverse {text : List Char} (blank : Blank text) : Blank text.reverse :=
  fun c member => blank c (List.mem_reverse.mp member)

/-- Blanks in front are dropped, up to the first character that is none. -/
theorem drop_blanks {blanks text : List Char} (blank : Blank blanks)
    (first : ∀ c ∈ text.head?, isBlank c = false) :
    (blanks ++ text).dropWhile isBlank = text := by
  rw [List.dropWhile_append_of_pos blank]
  cases text with
  | nil => rfl
  | cons c rest => exact List.dropWhile_cons_of_neg (by simp [first c rfl])

/-- The blanks behind a text that ends in no blank are what is stripped. -/
theorem strip_end_blanks {text blanks : List Char} (blank : Blank blanks)
    (last : ∀ c ∈ text.getLast?, isBlank c = false) : stripEnd (text ++ blanks) = text := by
  rw [stripEnd, List.reverse_append, drop_blanks blank.reverse, List.reverse_reverse]
  rwa [List.head?_reverse]

/-- Around a text that begins and ends with no blank all blanks are dropped. -/
theorem strip_blanks {before text behind : List Char} (inFront : Blank before)
    (atEnd : Blank behind) (solid : Solid text) : strip (before ++ text ++ behind) = text := by
  cases text with
  | nil =>
    have nothing : stripStart (before ++ behind) = [] :=
      List.dropWhile_eq_nil_iff.mpr (inFront.append atEnd)
    simp [strip, nothing, stripEnd]
  | cons c rest =>
    have start : stripStart (before ++ (c :: rest ++ behind)) = c :: rest ++ behind :=
      drop_blanks inFront (by simpa using solid.first)
    rw [strip, List.append_assoc, start, strip_end_blanks atEnd solid.last]

/-- Nothing but blanks is dropped at the end. -/
theorem strip_end_parts (text : List Char) :
    ∃ behind, Blank behind ∧ text = stripEnd text ++ behind := by
  refine ⟨(text.reverse.takeWhile isBlank).reverse, fun c member => ?_, ?_⟩
  · exact List.mem_takeWhile_imp (List.mem_reverse.mp member)
  · rw [stripEnd, ← List.reverse_append, List.takeWhile_append_dropWhile, List.reverse_reverse]

/-- Nothing but blanks is dropped. -/
theorem strip_parts (text : List Char) :
    ∃ before behind, Blank before ∧ Blank behind ∧ text = before ++ strip text ++ behind := by
  obtain ⟨behind, atEnd, parts⟩ := strip_end_parts (stripStart text)
  refine ⟨text.takeWhile isBlank, behind, fun c member => List.mem_takeWhile_imp member, atEnd, ?_⟩
  calc text = text.takeWhile isBlank ++ stripStart text :=
        (List.takeWhile_append_dropWhile ..).symm
    _ = text.takeWhile isBlank ++ (strip text ++ behind) := congrArg _ parts
    _ = text.takeWhile isBlank ++ strip text ++ behind := (List.append_assoc ..).symm

/-! ## Bytes -/

/-- A byte at which a text cannot be cut. -/
structure OffBoundary where
  byte : Nat
  deriving Repr, DecidableEq

/-- A text from a byte on. -/
def sliceFrom (text : String) (byte : Nat) : Except OffBoundary String :=
  if boundary : String.Pos.Raw.IsValid text ⟨byte⟩ then
    .ok (text.extract ⟨⟨byte⟩, boundary⟩ text.endPos)
  else .error ⟨byte⟩

/-- A text up to a byte. -/
def sliceTo (text : String) (byte : Nat) : Except OffBoundary String :=
  if boundary : String.Pos.Raw.IsValid text ⟨byte⟩ then
    .ok (text.extract text.startPos ⟨⟨byte⟩, boundary⟩)
  else .error ⟨byte⟩

/-- The byte at which a character stands first in a text. -/
def byteOf? (c : Char) (text : String) : Option Nat :=
  if c ∈ text.toList then
    some (String.ofList (text.toList.takeWhile (· != c))).utf8ByteSize
  else none

/-- A character that is not in the text has no place in it. -/
theorem byte_of_none {c : Char} {text : String} (absent : c ∉ text.toList) :
    byteOf? c text = none := if_neg absent

/-- A character stands first behind all that is free of it. -/
theorem byte_of_first {c : Char} {front : String} (free : c ∉ front.toList) (rest : String) :
    byteOf? c (front ++ (String.singleton c ++ rest)) = some front.utf8ByteSize := by
  have passed : ∀ d ∈ front.toList, (d != c) = true := fun d member => by
    simp only [bne_iff_ne, ne_eq]
    rintro rfl
    exact free member
  have taken : (front ++ (String.singleton c ++ rest)).toList.takeWhile (· != c) =
      front.toList := by
    rw [String.toList_append, List.takeWhile_append_of_pos passed]
    simp
  rw [byteOf?, if_pos (by simp), taken, String.ofList_toList]

/-- Between two texts is a place where the text may be cut. -/
theorem boundary_between (front rest : String) :
    String.Pos.Raw.IsValid (front ++ rest) ⟨front.utf8ByteSize⟩ :=
  String.Pos.Raw.isValid_iff_exists_append.mpr ⟨front, rest, rfl, rfl⟩

/-- Behind the bytes of its first part a text can be cut, and what is left is the rest. -/
theorem slice_from (front rest : String) :
    sliceFrom (front ++ rest) front.utf8ByteSize = .ok rest := by
  rw [sliceFrom, dif_pos (boundary_between front rest)]
  congr 1
  rw [← String.toByteArray_inj]
  change (front ++ rest).toByteArray.extract front.utf8ByteSize (front ++ rest).utf8ByteSize = _
  rw [String.toByteArray_append, String.utf8ByteSize_append]
  exact ByteArray.extract_append_eq_right rfl rfl

/-- Up to there it is the first part. -/
theorem slice_to (front rest : String) :
    sliceTo (front ++ rest) front.utf8ByteSize = .ok front := by
  rw [sliceTo, dif_pos (boundary_between front rest)]
  congr 1
  rw [← String.toByteArray_inj]
  change (front ++ rest).toByteArray.extract 0 front.utf8ByteSize = _
  rw [String.toByteArray_append]
  exact ByteArray.extract_append_eq_left rfl

/-- The second byte of a letter of two bytes is no place to cut at. -/
example : sliceFrom "äb" 1 = .error ⟨1⟩ ∧ sliceFrom "äb" 2 = .ok "b" := ⟨rfl, rfl⟩

end VectorMotion.Text
