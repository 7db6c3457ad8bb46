import VectorMotion.Proofs.Text.Parts
import VectorMotion.Scene.Expression

/-!
# How references are written

A reference to a slider is written in one way, up to blanks around it, blanks in front of a semicolon
that may end it, and the quotes around its names. A name can have any characters but the one that
quotes it. What is written so is read back, and nothing else is read.

Names are cut out of a text between the bytes of their quotes. A quote is one byte, so the name begins
and ends at bytes where the text can be cut, whatever it is made of.
-/

namespace VectorMotion.Scene.Reference

open Text

/-! ## Steps of the reader -/

/-- What stands behind a word is what is left of a text that begins with it. -/
theorem behind_exact (word text rest : List Char) :
    behind? word text = some rest ↔ text = word ++ rest := by
  fun_induction behind? word text with
  | case1 text => simp
  | case2 c word => simp
  | case3 c word d text same inductionHypothesis =>
    obtain rfl : c = d := eq_of_beq same
    rw [inductionHypothesis, List.cons_append, List.cons.injEq, eq_self, true_and]
  | case4 c word d text differ =>
    simp only [reduceCtorEq, List.cons_append, List.cons.injEq, false_iff, not_and]
    rintro rfl
    simp at differ

/-- A name is read up to the first repetition of its quote. -/
theorem quoted_exact (text name rest : List Char) : quoted? text = some (name, rest) ↔
    ∃ quote, isQuote quote = true ∧ quote ∉ name ∧ text = quote :: name ++ quote :: rest := by
  cases text with
  | nil => simp [quoted?]
  | cons first body =>
    have parts := List.takeWhile_append_dropWhile (p := (· != first)) (l := body)
    have inside : first ∉ body.takeWhile (· != first) := fun member => by
      simpa using List.mem_takeWhile_imp member
    constructor
    · intro read
      rw [quoted?] at read
      split at read
      case isFalse => cases read
      case isTrue isFirst =>
        split at read
        case h_1 => cases read
        case h_2 stop behind closing =>
          cases read
          have closed : (stop != first) = false := by
            have here := List.head_dropWhile_not (· != first) (l := body) (by simp [closing])
            simpa [closing] using here
          obtain rfl : stop = first := by simpa using closed
          rw [closing] at parts
          exact ⟨stop, isFirst, inside, congrArg (stop :: ·) parts.symm⟩
    · rintro ⟨quote, isFirst, free, same⟩
      rw [List.cons_append, List.cons.injEq] at same
      obtain ⟨rfl, rfl⟩ := same
      have passed : ∀ c ∈ name, (c != first) = true := fun c member => by
        simp only [bne_iff_ne, ne_eq]
        rintro rfl
        exact free member
      have taken : (name ++ first :: rest).takeWhile (· != first) = name := by
        rw [List.takeWhile_append_of_pos passed]
        simp
      have dropped : (name ++ first :: rest).dropWhile (· != first) = first :: rest := by
        rw [List.dropWhile_append_of_pos passed]
        simp
      rw [quoted?, if_pos isFirst, taken, dropped]

/-- A text with a semicolon at its end loses it, and any other is kept. -/
theorem without_semicolon_parts (text : List Char) :
    ∃ ending, (ending = [] ∨ ending = [';']) ∧ text = withoutSemicolon text ++ ending := by
  rw [withoutSemicolon]
  split
  case h_1 rest same =>
    exact ⟨[';'], .inr rfl, by simpa using congrArg List.reverse same⟩
  case h_2 => exact ⟨[], .inl rfl, (List.append_nil _).symm⟩

/-- A semicolon at the end is taken away. -/
theorem without_semicolon_end (text : List Char) : withoutSemicolon (text ++ [';']) = text := by
  simp [withoutSemicolon]

/-- A text that does not end in a semicolon is kept. -/
theorem without_semicolon_kept {text : List Char} (last : ';' ∉ text.getLast?) :
    withoutSemicolon text = text := by
  rw [withoutSemicolon]
  split
  case h_1 rest same => simp [← List.head?_reverse, same] at last
  case h_2 => rfl

/-- Around what is left of an expression there have been blanks, and a semicolon perhaps. -/
theorem core_parts (text : List Char) : ∃ before between ending behind,
    Blank before ∧ Blank between ∧ Blank behind ∧ (ending = [] ∨ ending = [';']) ∧
      text = before ++ core text ++ between ++ ending ++ behind := by
  obtain ⟨before, behind, inFront, atEnd, around⟩ := strip_parts text
  obtain ⟨ending, isEnding, ended⟩ := without_semicolon_parts (strip text)
  obtain ⟨between, inBetween, stripped⟩ := strip_end_parts (withoutSemicolon (strip text))
  refine ⟨before, between, ending, behind, inFront, inBetween, atEnd, isEnding, ?_⟩
  calc text = before ++ strip text ++ behind := around
    _ = before ++ (withoutSemicolon (strip text) ++ ending) ++ behind := by rw [← ended]
    _ = before ++ (core text ++ between ++ ending) ++ behind := by rw [core, ← stripped]
    _ = before ++ core text ++ between ++ ending ++ behind := by simp only [List.append_assoc]

/-- Blanks and a semicolon around a text are dropped, if it does not begin or end with such. -/
theorem core_around {before between ending behind text : List Char} (inFront : Blank before)
    (inBetween : Blank between) (atEnd : Blank behind) (isEnding : ending = [] ∨ ending = [';'])
    (solid : Solid text) (some : text ≠ []) (last : ';' ∉ text.getLast?) :
    core (before ++ text ++ between ++ ending ++ behind) = text := by
  rw [core]
  obtain rfl | rfl := isEnding
  · have stripped : strip (before ++ text ++ between ++ [] ++ behind) = text := by
      simpa using strip_blanks inFront (inBetween.append atEnd) solid
    rw [stripped, without_semicolon_kept last]
    simpa using @strip_end_blanks _ [] (by simp [Blank]) solid.last
  · have closed : Solid (text ++ between ++ [';']) := by
      refine ⟨?_, by simp [isBlank]⟩
      obtain ⟨c, rest, rfl⟩ := List.exists_cons_of_ne_nil some
      simpa using solid.first
    have stripped : strip (before ++ text ++ between ++ [';'] ++ behind) =
        text ++ between ++ [';'] := by
      simpa using strip_blanks inFront atEnd closed
    rw [stripped, without_semicolon_end, strip_end_blanks inBetween solid.last]

/-! ## The grammar -/

/-- What is free in writing a reference. -/
structure Spelling where
  before : String
  effectQuote : Char
  controlQuote : Char
  between : String
  semicolon : Bool
  behind : String

/-- Whether a reference can be spelled so: there are blanks where there may be some, and each name is
in quotes of one of the two kinds, and free of its own. -/
structure Spelling.Fits (spelling : Spelling) (reference : Reference) : Prop where
  before : Blank spelling.before.toList
  between : Blank spelling.between.toList
  behind : Blank spelling.behind.toList
  effectQuote : spelling.effectQuote = '\x27' ∨ spelling.effectQuote = '\x22'
  controlQuote : spelling.controlQuote = '\x27' ∨ spelling.controlQuote = '\x22'
  effectFree : spelling.effectQuote ∉ reference.effect.toList
  controlFree : spelling.controlQuote ∉ reference.control.toList

/-- A name between two quotes. -/
def quotedBy (quote : Char) (name : String) : String :=
  String.singleton quote ++ name ++ String.singleton quote

/-- A reference without anything around it. -/
def call (reference : Reference) (effectQuote controlQuote : Char) : String :=
  "effect(" ++ quotedBy effectQuote reference.effect ++ ")(" ++
    quotedBy controlQuote reference.control ++ ")"

/-- A reference as it is written. -/
def written (reference : Reference) (spelling : Spelling) : String :=
  spelling.before ++ reference.call spelling.effectQuote spelling.controlQuote ++
    spelling.between ++ (if spelling.semicolon then ";" else "") ++ spelling.behind

/-- There are two quotes, the single and the double one. -/
theorem quote_exact (c : Char) : isQuote c = true ↔ c = '\x27' ∨ c = '\x22' := by
  simp [isQuote]

/-- The characters of a written reference, one behind the other. -/
theorem call_characters (reference : Reference) (effectQuote controlQuote : Char) :
    (reference.call effectQuote controlQuote).toList =
      "effect(".toList ++ (effectQuote :: reference.effect.toList ++
        effectQuote :: (")(".toList ++ (controlQuote :: reference.control.toList ++
          controlQuote :: [')']))) := by
  simp [call, quotedBy]

/-- What is left of an expression is a reference if it is the two names, each in its quotes. -/
theorem of_text_core (text : String) (reference : Reference) : ofText? text = some reference ↔
    ∃ effectQuote controlQuote, isQuote effectQuote = true ∧ isQuote controlQuote = true ∧
      effectQuote ∉ reference.effect.toList ∧ controlQuote ∉ reference.control.toList ∧
      core text.toList = (reference.call effectQuote controlQuote).toList := by
  simp only [call_characters]
  constructor
  · intro read
    simp only [ofText?, Option.bind_eq_bind, Option.bind_eq_some_iff, Prod.exists,
      behind_exact, quoted_exact] at read
    obtain ⟨opened, begins, effect, closed, ⟨effectQuote, isFirst, effectFree, first⟩, next, between,
      control, final, ⟨controlQuote, isSecond, controlFree, second⟩, last⟩ := read
    split at last
    case isFalse => cases last
    case isTrue isFinal =>
      obtain rfl : final = [')'] := eq_of_beq isFinal
      cases last
      refine ⟨effectQuote, controlQuote, isFirst, isSecond, by simpa using effectFree,
        by simpa using controlFree, ?_⟩
      rw [begins, first, between, second]
      simp only [String.toList_ofList]
  · rintro ⟨effectQuote, controlQuote, isFirst, isSecond, effectFree, controlFree, same⟩
    have effect (rest : List Char) :
        quoted? (effectQuote :: reference.effect.toList ++ effectQuote :: rest) =
          some (reference.effect.toList, rest) :=
      (quoted_exact _ _ _).mpr ⟨effectQuote, isFirst, effectFree, rfl⟩
    have control (rest : List Char) :
        quoted? (controlQuote :: reference.control.toList ++ controlQuote :: rest) =
          some (reference.control.toList, rest) :=
      (quoted_exact _ _ _).mpr ⟨controlQuote, isSecond, controlFree, rfl⟩
    have behind (word : String) (rest : List Char) :
        behind? word.toList (word.toList ++ rest) = some rest := (behind_exact _ _ _).mpr rfl
    rw [ofText?, same]
    simp only [Option.bind_eq_bind, behind, effect, control, Option.bind_some, String.ofList_toList]
    rfl

/-- A reference begins with a letter and ends with a parenthesis, so what may be around it can be
told from it. -/
theorem call_solid (reference : Reference) (effectQuote controlQuote : Char) :
    Solid (reference.call effectQuote controlQuote).toList ∧
      (reference.call effectQuote controlQuote).toList ≠ [] ∧
      ';' ∉ (reference.call effectQuote controlQuote).toList.getLast? := by
  have begins : (reference.call effectQuote controlQuote).toList.head? = some 'e' := by
    simp [call]
  have ends : (reference.call effectQuote controlQuote).toList.getLast? = some ')' := by
    rw [call, String.toList_append]
    exact List.getLast?_concat
  refine ⟨⟨?_, ?_⟩, fun none => by simp [none] at begins, by simp [ends]⟩
  · rw [begins]
    rintro c ⟨⟩
    rfl
  · rw [ends]
    rintro c ⟨⟩
    rfl

/-- The reader reads a reference from all texts in which it is written, and from no others. -/
theorem of_text_exact (text : String) (reference : Reference) : ofText? text = some reference ↔
    ∃ spelling : Spelling, spelling.Fits reference ∧ text = reference.written spelling := by
  simp only [of_text_core, quote_exact]
  constructor
  · rintro ⟨effectQuote, controlQuote, isFirst, isSecond, effectFree, controlFree, same⟩
    obtain ⟨before, between, ending, behind, inFront, inBetween, atEnd, isEnding, around⟩ :=
      core_parts text.toList
    refine ⟨⟨String.ofList before, effectQuote, controlQuote, String.ofList between,
      ending = [';'], String.ofList behind⟩, ⟨by simpa using inFront, by simpa using inBetween,
      by simpa using atEnd, isFirst, isSecond, effectFree, controlFree⟩, ?_⟩
    apply String.toList_injective
    rw [around, same]
    obtain rfl | rfl := isEnding <;> simp [written]
  · rintro ⟨spelling, fits, rfl⟩
    obtain ⟨solid, some, last⟩ :=
      call_solid reference spelling.effectQuote spelling.controlQuote
    refine ⟨_, _, fits.effectQuote, fits.controlQuote, fits.effectFree, fits.controlFree, ?_⟩
    have ending : (if spelling.semicolon then ";" else "").toList = [] ∨
        (if spelling.semicolon then ";" else "").toList = [';'] := by
      cases spelling.semicolon <;> simp
    simpa only [written, String.toList_append] using
      core_around fits.before fits.between fits.behind ending solid some last

/-! ## Reading by bytes -/

/-- The name in quotes at the start of a text, and what stands behind it, cut out by bytes. -/
def quotedBytes (text : String) : Except OffBoundary (Option (String × String)) :=
  match text.toList with
  | [] => return none
  | quote :: _ =>
    if isQuote quote then do
      let body ← sliceFrom text 1
      match byteOf? quote body with
      | none => return none
      | some stop =>
        let name ← sliceTo body stop
        let rest ← sliceFrom body (stop + 1)
        return some (name, rest)
    else return none

/-- The reference that an expression is, if it is one, with its names cut out by bytes. -/
def ofBytes (text : String) : Except OffBoundary (Option Reference) :=
  match behind? "effect(".toList (core text.toList) with
  | none => return none
  | some rest => do
    match ← quotedBytes (String.ofList rest) with
    | none => return none
    | some (effect, rest) =>
      match behind? ")(".toList rest.toList with
      | none => return none
      | some rest =>
        match ← quotedBytes (String.ofList rest) with
        | none => return none
        | some (control, rest) =>
          return if rest == ")" then some ⟨effect, control⟩ else none

/-- A quote is one byte. -/
theorem quote_size {quote : Char} (isQuoted : isQuote quote = true) :
    (String.singleton quote).utf8ByteSize = 1 := by
  obtain rfl | rfl := (quote_exact quote).mp isQuoted <;> rfl

/-- Reading by bytes never cuts a text inside a character: behind its first quote a text can be cut,
and so can the rest in front of the next such quote and behind it. -/
theorem quoted_bytes (text : String) : quotedBytes text =
    .ok ((quoted? text.toList).map fun read => (String.ofList read.1, String.ofList read.2)) := by
  rw [quotedBytes]
  cases characters : text.toList with
  | nil => rfl
  | cons quote body =>
    cases isFirst : isQuote quote with
    | false => simp [quoted?, isFirst, pure, Except.pure]
    | true =>
      have size := quote_size isFirst
      have opened : sliceFrom text 1 = .ok (String.ofList body) := by
        have whole : text = String.singleton quote ++ String.ofList body :=
          String.toList_injective (by simp [characters])
        rw [whole, ← size, slice_from]
      simp only [isFirst, ↓reduceIte, opened, bind, Except.bind]
      by_cases closes : quote ∈ body
      · obtain ⟨name, rest, rfl, free⟩ := List.eq_append_cons_of_mem closes
        have read : quoted? (quote :: (name ++ quote :: rest)) = some (name, rest) :=
          (quoted_exact _ _ _).mpr ⟨quote, isFirst, free, rfl⟩
        have parts : String.ofList (name ++ quote :: rest) =
            String.ofList name ++ (String.singleton quote ++ String.ofList rest) :=
          String.toList_injective (by simp)
        have next : sliceFrom (String.ofList name ++ (String.singleton quote ++ String.ofList rest))
            ((String.ofList name).utf8ByteSize + 1) = .ok (String.ofList rest) := by
          rw [← size, ← String.append_assoc, ← String.utf8ByteSize_append, slice_from]
        rw [read, parts, byte_of_first (by simpa using free)]
        simp only [slice_to, next]
        rfl
      · have read : quoted? (quote :: body) = none := by
          cases found : quoted? (quote :: body) with
          | none => rfl
          | some read =>
            obtain ⟨other, -, -, same⟩ := (quoted_exact _ _ read.2).mp found
            rw [List.cons_append, List.cons.injEq] at same
            obtain ⟨rfl, rfl⟩ := same
            exact absurd (by simp) closes
        rw [read, byte_of_none (by simpa using closes)]
        rfl

/-- Reading by bytes gives what reading by characters gives. -/
theorem of_bytes (text : String) : ofBytes text = .ok (ofText? text) := by
  rw [ofBytes, ofText?]
  simp only [quoted_bytes, String.toList_ofList]
  cases behind? "effect(".toList (core text.toList) with
  | none => rfl
  | some opened =>
    simp only [bind, Except.bind, Option.bind]
    cases quoted? opened with
    | none => rfl
    | some first =>
      simp only [Option.map_some, String.toList_ofList]
      cases behind? ")(".toList first.2 with
      | none => rfl
      | some between =>
        simp only
        cases quoted? between with
        | none => rfl
        | some second =>
          obtain ⟨control, rest⟩ := second
          have final : (String.ofList rest == ")") = (rest == [')']) := by
            rw [Bool.eq_iff_iff, beq_iff_eq, beq_iff_eq, ← String.toList_inj, String.toList_ofList]
            rfl
          rw [Option.map_some]
          simp only [final]
          rfl

/-- An expression is read as a reference exactly if it is one, written in one of the ways in which this
reference can be spelled. So what has been written is read back, and no text is read in two ways. No
text is cut inside a character when it is read. -/
theorem read_as_written (text : String) :
    (∀ reference, ofText? text = some reference ↔
      ∃ spelling : Spelling, spelling.Fits reference ∧ text = reference.written spelling) ∧
    ofBytes text = .ok (ofText? text) :=
  ⟨of_text_exact text, of_bytes text⟩

/-- A name can hold the quote that is not around it, and look like the end of the reference. -/
example : ofText? " effect(\x27a\x22)(\x27)(\x22\x27)b\x22) ;\n" = some ⟨"a\x22)(", "\x27)b"⟩ := rfl

end VectorMotion.Scene.Reference
