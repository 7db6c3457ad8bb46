import VectorMotion.Document.Animation
import VectorMotion.Proofs.Json.Members
import VectorMotion.Proofs.Scalar.Rounded

/-!
# Numbers of a text

No text spells a value that is no number. Each token that is read is sound in this respect, so a
source made from the tokens of a text is, and so is every record that is read from the source.
Numbers of a text may still become infinite when they are rounded to the scalar of a document.
-/

namespace VectorMotion

open Json Rounded

/-- Rounding a double precision number gives a number, which may be an infinite one. -/
class Scalar.Rounds (S : Type) [Scalar S] : Prop where
  number : ∀ x : Float, isNaN x = false → isNaN (Scalar.ofDouble x : S) = false

instance : Scalar.Rounds Float := ⟨fun _ number => number⟩

namespace Json

/-- A number that is one. -/
def Number.Sound : Number → Prop
  | .natural _ | .negative _ => True
  | .fraction value => Scalar.isNaN value = false

/-- An atom that is no number, or one that is. -/
def Atom.Sound : Atom → Prop
  | .number value => value.Sound
  | _ => True

/-- As a scalar, a number is one too. -/
theorem Number.Sound.to_scalar {S : Type} [Scalar S] [Scalar.Ordered S] [Scalar.Rounds S]
    {number : Number} (sound : number.Sound) :
    Scalar.isNaN (number.toScalar : S) = false := by
  cases number with
  | natural value => exact (Scalar.Ordered.numbers_of_le (Scalar.Ordered.ofNat_nonneg value)).2
  | negative size =>
    have nonneg : (0 : S) ≤ Scalar.ofNat size := Scalar.Ordered.ofNat_nonneg size
    exact (Scalar.Ordered.numbers_of_le (Scalar.Ordered.neg_le_self nonneg)).1
  | fraction value => exact Scalar.Rounds.number value sound

/-! ## Tokens -/

namespace Token

/-- A token that has no number for its value, or one that is a number. -/
def Sound : Token → Prop
  | .atom value => value.Sound
  | _ => True

/-- A significand that is scaled stays above zero. -/
theorem scaled_above {steps : Nat} {value result : Float} {shift : Int}
    (above : AboveZero value.toModel.unpack) (done : scaled steps value shift = some result) :
    AboveZero result.toModel.unpack := by
  induction steps generalizing value shift with
  | zero => exact Option.some.inj done ▸ above
  | succ steps inductionHypothesis =>
    rw [scaled] at done
    split at done
    next within =>
      have power := power_factor _ within
      split at done
      · dsimp only at done
        split at done
        · cases done
        · exact Option.some.inj done ▸ rounded_product_above above power
      · exact Option.some.inj done ▸ rounded_quotient_above above power
    next =>
      split at done
      · exact Option.some.inj done ▸ above
      · split at done
        · cases done
        · refine inductionHypothesis ?_ done
          exact rounded_quotient_above above (power_factor _ (Nat.le_refl _))

/-- The value of a number with a fraction is a number. -/
theorem fraction_number {number : OpenNumber} {value : Float}
    (done : number.fraction = some value) : Scalar.isNaN value = false := by
  rw [OpenNumber.fraction, Option.map_eq_some_iff] at done
  obtain ⟨size, made, rfl⟩ := done
  have above : AboveZero size.toModel.unpack := by
    split at made
    · split at made
      · cases made
      · obtain rfl := Option.some.inj made
        exact double_numeral 0 true 1
    · exact scaled_above (double_numeral _ false 0) made
  split
  · exact (number_of_above above).2
  · exact (number_of_above above).1

/-- The token of a number is sound. -/
theorem close_sound (number : OpenNumber) : number.close.Sound := by
  unfold OpenNumber.close
  dsimp only
  split
  case h_1 | h_2 =>
    split
    · split
      next done => exact fraction_number done
      · trivial
    · split
      · trivial
      · split
        · exact (number_of_above (double_numeral _ false 0)).2
        · trivial
  case h_3 | h_4 =>
    split
    next done => exact fraction_number done
    · trivial
  all_goals trivial

/-- The word that stands open in a state is no number. -/
def State.Sound : State → Prop
  | .word _ value => value.Sound
  | _ => True

/-- What has been read so far is sound. -/
structure ReadSound (reading : List Token × State) : Prop where
  tokens : ∀ token ∈ reading.1, token.Sound
  state : reading.2.Sound

/-- One sound token and a sound state behind it are read soundly. -/
theorem ReadSound.single {token : Token} {state : State} (sound : token.Sound)
    (after : state.Sound) : ReadSound ([token], state) :=
  ⟨List.forall_mem_singleton.mpr sound, after⟩

/-- Whatever character a token begins with, it begins soundly. -/
theorem begin_sound (c : Char) : ReadSound (begin c) := by
  unfold begin
  repeat' split
  all_goals constructor <;> simp [Token.Sound, State.Sound, Atom.Sound]

/-- Reading a character completes sound tokens only. -/
theorem step_sound (state : State) (c : Char) (sound : state.Sound) :
    ReadSound (step state c) := by
  have begun (token : Token) (ended : token.Sound) :
      ReadSound (token :: (begin c).1, (begin c).2) :=
    ⟨List.forall_mem_cons.mpr ⟨ended, (begin_sound c).tokens⟩, (begin_sound c).state⟩
  have malformed : ReadSound ([.malformed], .stopped) := .single trivial trivial
  cases state with
  | between => exact begin_sound c
  | stopped => exact ⟨by simp [step], trivial⟩
  | word due value =>
    cases due with
    | nil => exact begun _ sound
    | cons next rest =>
      rw [step]
      split
      · exact malformed
      · split
        · exact .single sound trivial
        · exact ⟨by simp, sound⟩
  | number number =>
    rw [step]
    split
    · exact ⟨by simp, trivial⟩
    · exact begun _ (close_sound number)
    · exact malformed
  | text text =>
    have closed : text.close.Sound := by
      unfold OpenText.close
      split <;> trivial
    rw [step]
    split
    · exact ⟨by simp, trivial⟩
    · exact .single closed trivial
    · exact malformed

/-- The tokens at the end of a text are sound. -/
theorem finish_sound (state : State) : ∀ token ∈ finish state, token.Sound := by
  cases state with
  | number number => exact List.forall_mem_singleton.mpr (close_sound number)
  | _ => simp [finish, Token.Sound]

/-- All tokens of a text are sound. -/
theorem of_text_sound (text : String) : ∀ token ∈ ofText text, token.Sound := by
  suffices run : ∀ (characters : List Char) (reading : List Token × State),
      ReadSound reading → ReadSound (characters.foldl advance reading) by
    have read := run text.toList ([], .between) ⟨by simp, trivial⟩
    intro token member
    rcases List.mem_append.mp member with among | last
    · exact read.tokens token (List.mem_reverse.mp among)
    · exact finish_sound _ token last
  intro characters
  induction characters with
  | nil => exact fun reading sound => sound
  | cons c rest inductionHypothesis =>
    intro reading sound
    have completed := step_sound reading.2 c sound.state
    refine inductionHypothesis _ ⟨fun token member => ?_, completed.state⟩
    rcases List.mem_append.mp member with new | known
    · exact completed.tokens token (List.mem_reverse.mp new)
    · exact sound.tokens token known

end Token

/-! ## Sources -/

namespace Source

/-- A source whose numbers are all numbers. -/
inductive Sound : Source → Prop where
  | atom (value : Atom) (sound : value.Sound) : Sound (.atom value)
  | unreadable : Sound .unreadable
  | list (origin : Origin) (items : List Source) (flaw : Option Flaw)
      (each : ∀ item ∈ items, Sound item) : Sound (.list origin items flaw)
  | object (origin : Origin) (members : List (Option String × Source)) (flaw : Option Flaw)
      (each : ∀ member ∈ members, Sound member.2) : Sound (.object origin members flaw)
  | broken (flaw : Flaw) : Sound (.broken flaw)

/-- An open part that holds sound sources. -/
def Open.Sound : Open → Prop
  | .list items => ∀ item ∈ items, Source.Sound item
  | .object members | .member members _ => ∀ member ∈ members, Source.Sound member.2

/-- All parts that stand open, or the value that is whole. -/
def Progress.Sound : Progress → Prop
  | .going reading => ∀ part ∈ reading.opened, part.Sound
  | .whole source => source.Sound

/-- A sound part that is closed is sound as a value. -/
theorem close_sound (part : Open) (sound : part.Sound) (around : Nat) (flaw : Option Flaw) :
    (close part around flaw).Sound := by
  cases part with
  | list items => exact .list _ _ _ fun item member => sound item (List.mem_reverse.mp member)
  | object members =>
    exact .object _ _ _ fun entry member => sound entry (List.mem_reverse.mp member)
  | member members name =>
    exact .object _ _ _ fun entry member => sound entry (List.mem_reverse.mp member)

/-- A value joins the sound sources of the innermost part. -/
theorem place_sound {value : Source} (sound : value.Sound) {opened : List Open}
    (openedSound : ∀ part ∈ opened, part.Sound) : (place value opened).Sound := by
  cases opened with
  | nil => exact sound
  | cons part outer =>
    obtain ⟨partSound, outerSound⟩ := List.forall_mem_cons.mp openedSound
    cases part with
    | list items =>
      exact List.forall_mem_cons.mpr ⟨List.forall_mem_cons.mpr ⟨sound, partSound⟩, outerSound⟩
    | member members name =>
      exact List.forall_mem_cons.mpr ⟨List.forall_mem_cons.mpr ⟨sound, partSound⟩, outerSound⟩
    | object members => exact List.forall_mem_cons.mpr ⟨partSound, outerSound⟩

/-- A text that breaks off behind a sound value leaves a sound value. -/
theorem abandon_sound {value : Source} (sound : value.Sound) {opened : List Open}
    (openedSound : ∀ part ∈ opened, part.Sound) : (abandon value opened).Sound := by
  induction opened generalizing value with
  | nil => exact sound
  | cons part outer inductionHypothesis =>
    obtain ⟨partSound, outerSound⟩ := List.forall_mem_cons.mp openedSound
    cases part with
    | list items =>
      have joined : Open.Sound (.list (value :: items)) :=
        List.forall_mem_cons.mpr ⟨sound, partSound⟩
      exact inductionHypothesis (close_sound _ joined _ _) outerSound
    | member members name =>
      have joined : Open.Sound (.object ((name, value) :: members)) :=
        List.forall_mem_cons.mpr ⟨sound, partSound⟩
      exact inductionHypothesis (close_sound _ joined _ _) outerSound
    | object members =>
      exact inductionHypothesis (close_sound (.object members) partSound _ _) outerSound

/-- A text that breaks off between values leaves a sound value. -/
theorem stop_sound {opened : List Open} (openedSound : ∀ part ∈ opened, part.Sound) (flaw : Flaw) :
    (stop opened flaw).Sound := by
  unfold stop
  split
  next part outer _ =>
    obtain ⟨partSound, outerSound⟩ := List.forall_mem_cons.mp openedSound
    exact abandon_sound (close_sound part partSound _ _) outerSound
  next => exact abandon_sound (.broken flaw) openedSound

/-- The end of a part leads from sound parts to a sound state. -/
theorem end_part_sound {opened : List Open} {progress : Progress}
    (openedSound : ∀ part ∈ opened, part.Sound) (ended : endPart? opened = some progress) :
    progress.Sound := by
  cases opened with
  | nil => cases ended
  | cons part outer =>
    obtain ⟨partSound, outerSound⟩ := List.forall_mem_cons.mp openedSound
    exact Option.some.inj ended ▸ place_sound (close_sound part partSound _ _) outerSound

/-- So does a value that is read. -/
theorem read_value_sound {opened : List Open} {token : Token} {progress : Progress}
    (sound : token.Sound) (openedSound : ∀ part ∈ opened, part.Sound)
    (read : readValue? opened token = some progress) : progress.Sound := by
  cases token with
  | atom value => exact Option.some.inj read ▸ place_sound (.atom value sound) openedSound
  | boundless | unpaired => exact Option.some.inj read ▸ place_sound .unreadable openedSound
  | openList =>
    exact Option.some.inj read ▸ List.forall_mem_cons.mpr ⟨by simp [Open.Sound], openedSound⟩
  | openObject =>
    exact Option.some.inj read ▸ List.forall_mem_cons.mpr ⟨by simp [Open.Sound], openedSound⟩
  | _ => cases read

/-- So does a name that is read. -/
theorem read_name_sound {opened : List Open} {token : Token} {progress : Progress}
    (openedSound : ∀ part ∈ opened, part.Sound) (read : readName? opened token = some progress) :
    progress.Sound := by
  unfold readName? at read
  split at read
  case h_3 => cases read
  all_goals
    obtain ⟨partSound, outerSound⟩ := List.forall_mem_cons.mp openedSound
    exact Option.some.inj read ▸ List.forall_mem_cons.mpr ⟨partSound, outerSound⟩

/-- A sound token leads from sound parts to sound parts. -/
theorem read_token_sound {reading : Pending} {token : Token} {progress : Progress}
    (sound : token.Sound) (openedSound : ∀ part ∈ reading.opened, part.Sound)
    (read : readToken? reading token = some progress) : progress.Sound := by
  unfold readToken? at read
  dsimp only at read
  split at read
  all_goals first
    | exact end_part_sound openedSound read
    | exact read_value_sound sound openedSound read
    | exact read_name_sound openedSound read
    | cases read
  all_goals exact openedSound

/-- Reading sound tokens makes a sound source. -/
theorem read_tokens_sound (tokens : List Token) (sound : ∀ token ∈ tokens, token.Sound)
    (reading : Pending) (openedSound : ∀ part ∈ reading.opened, part.Sound) :
    (readTokens reading tokens).1.Sound := by
  induction tokens generalizing reading with
  | nil => exact stop_sound openedSound _
  | cons token rest inductionHypothesis =>
    obtain ⟨tokenSound, restSound⟩ := List.forall_mem_cons.mp sound
    rw [readTokens]
    split
    next after read =>
      exact inductionHypothesis restSound _ (read_token_sound tokenSound openedSound read)
    next read => exact read_token_sound tokenSound openedSound read
    next => exact stop_sound openedSound _

/-- The source of a text is sound. -/
theorem of_text_sound (text : String) : (ofText text).1.Sound :=
  read_tokens_sound _ (Token.of_text_sound text) _ (by simp)

end Source

/-! ## Records -/

namespace Record

variable {R : Type} {fields : List (Field R)} {kept : R → Prop}

/-- A field that changes records with a property into records with the property, whatever sound
source it reads. -/
def Field.Keeps (kept : R → Prop) (field : Field R) : Prop :=
  ∀ source : Source, source.Sound → ∀ put, field.read source = .ok put →
    ∀ record, kept record → kept (put record)

/-- A field that may be left out keeps a property if putting in whatever it reads does. -/
theorem Field.Keeps.of {α : Type} {name : String} {decode : Decoder α} {put : α → R → R}
    (keeps : ∀ source value, source.Sound → decode source = .ok value →
      ∀ record, kept record → kept (put value record)) :
    (Field.of name decode put).Keeps kept := by
  intro source sound change reads
  obtain ⟨value, decoded, rfl⟩ := Field.of_reads reads
  exact keeps source value sound decoded

/-- So does a field that must be there. -/
theorem Field.Keeps.must {α : Type} {name : String} {decode : Decoder α} {put : α → R → R}
    (keeps : ∀ source value, source.Sound → decode source = .ok value →
      ∀ record, kept record → kept (put value record)) :
    (Field.must name decode put).Keeps kept := by
  have field : (Field.of name decode put).Keeps kept := .of keeps
  exact field

/-- A record that is read from members keeps a property that all its fields keep. -/
theorem read_members_keep (each : ∀ field ∈ fields, field.Keeps kept)
    {members : List (Option String × Source)} (sound : ∀ member ∈ members, member.2.Sound)
    {seen : List String} {record : R} (start : kept record) {result : List String × R}
    (read : readMembers fields seen members record = .ok result) : kept result.2 := by
  induction members generalizing seen record with
  | nil => exact Except.ok.inj read ▸ start
  | cons member rest inductionHypothesis =>
    obtain ⟨itemSound, restSound⟩ := List.forall_mem_cons.mp sound
    rw [readMembers] at read
    obtain ⟨name, -, read⟩ := Decoded.of_bind read
    split at read
    next =>
      obtain ⟨-, -, read⟩ := Decoded.of_bind read
      exact inductionHypothesis restSound start read
    next field found =>
      split at read
      · cases read
      · obtain ⟨put, fieldRead, read⟩ := Decoded.of_bind read
        have changed := each field (List.mem_of_find?_eq_some found) _ itemSound _ fieldRead
        exact inductionHypothesis restSound (changed _ start) read

/-- So does a record that is read from the items of a list. -/
theorem read_items_keep (expected : String) (flaw : Option Flaw)
    (each : ∀ field ∈ fields, field.Keeps kept) {items : List Source}
    (sound : ∀ item ∈ items, item.Sound) {index : Nat} {record : R} (start : kept record)
    {result : List Source × R}
    (read : readItems expected flaw index fields items record = .ok result) : kept result.2 := by
  induction fields generalizing items index record with
  | nil =>
    rw [readItems] at read
    exact Except.ok.inj read ▸ start
  | cons field fields inductionHypothesis =>
    obtain ⟨fieldKeeps, fieldsKeep⟩ := List.forall_mem_cons.mp each
    cases items with
    | nil =>
      rw [readItems] at read
      obtain ⟨-, -, read⟩ := Decoded.of_bind read
      split at read
      · cases read
      · exact inductionHypothesis fieldsKeep sound start read
    | cons item rest =>
      obtain ⟨itemSound, restSound⟩ := List.forall_mem_cons.mp sound
      rw [readItems] at read
      obtain ⟨put, fieldRead, read⟩ := Decoded.of_bind read
      have changed := fieldKeeps _ itemSound _ fieldRead _ start
      exact inductionHypothesis fieldsKeep restSound changed read

/-- A property of records that no field breaks holds of every record that is read from a sound
source. -/
theorem decoded_keeps (name : String) {blank : R} (start : kept blank)
    (each : ∀ field ∈ fields, field.Keeps kept) {source : Source} (sound : source.Sound)
    {record : R} (read : decode name blank fields source = .ok record) : kept record := by
  cases sound with
  | object origin members flaw membersSound =>
    obtain ⟨-, -, read⟩ := Decoded.of_bind read
    obtain ⟨result, membersRead, read⟩ := Decoded.of_bind read
    obtain ⟨-, -, read⟩ := Decoded.of_bind read
    obtain ⟨-, -, read⟩ := Decoded.of_bind read
    exact Except.ok.inj read ▸ read_members_keep each membersSound start membersRead
  | list origin items flaw itemsSound =>
    obtain ⟨-, -, read⟩ := Decoded.of_bind read
    obtain ⟨result, itemsRead, read⟩ := Decoded.of_bind read
    have ended := read_items_keep _ _ each itemsSound start itemsRead
    dsimp only at read
    split at read
    · obtain ⟨-, -, read⟩ := Decoded.of_bind read
      exact Except.ok.inj read ▸ ended
    · cases read
  | _ => cases read

end Record

end Json

namespace Document

variable {S : Type} [Scalar S]

/-- A property of documents that no field breaks holds of every document that is read from text, if
it holds of a document in which everything is left out. -/
theorem text_keeps {kept : Document S → Prop}
    (start : kept { inPoint := 0, outPoint := 0, frameRate := 0 })
    (each : ∀ field ∈ fields, Record.Field.Keeps kept field) {text : String}
    {document : Document S} (read : decode.ofText text = .ok document) : kept document := by
  obtain ⟨found, decoded, read⟩ := Decoded.of_bind read
  split at read
  · cases read
  · obtain rfl := Except.ok.inj read
    exact Record.decoded_keeps "LottieJson" start each (Source.of_text_sound text) decoded

variable [Scalar.Ordered S] [Scalar.Rounds S]

/-- A scalar that is read from a document is a number, and never the value that stands for none. -/
theorem scalar_number {source : Source} {value : S} (sound : source.Sound)
    (decoded : Decoder.scalar source = .ok value) : Scalar.isNaN value = false := by
  cases sound with
  | atom atom sound =>
    cases atom with
    | number number => exact Except.ok.inj decoded ▸ Number.Sound.to_scalar sound
    | _ => cases decoded
  | _ => cases decoded

/-- The in point of a document that is read from text is a number. -/
theorem in_point_number {text : String} {document : Document S}
    (read : decode.ofText text = .ok document) : Scalar.isNaN document.inPoint = false := by
  let kept (record : Document S) : Prop := Scalar.isNaN record.inPoint = false
  have blank : kept { inPoint := 0, outPoint := 0, frameRate := 0 } :=
    (Scalar.Ordered.numbers_of_le (Scalar.Ordered.ofNat_nonneg 0)).2
  have each : ∀ field ∈ fields, Record.Field.Keeps kept field := by
    have inPoint : Record.Field.Keeps kept
        (.must "ip" Decoder.scalar fun inPoint record => { record with inPoint }) :=
        .must fun source value sound decoded _ _ => scalar_number sound decoded
    simp only [fields, List.forall_mem_cons]
    refine ⟨?_, ?_, inPoint, ?_, ?_, ?_, ?_, ?_, ?_, by simp⟩
    all_goals
      first
        | exact .of fun _ _ _ _ _ known => known
        | exact .must fun _ _ _ _ _ known => known
  exact text_keeps blank each read

end Document

end VectorMotion
