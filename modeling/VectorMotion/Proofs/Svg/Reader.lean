import Mathlib.Data.List.Infix
import VectorMotion.Svg.Markup

/-!
# Reading markup back

A reader goes through a text of markup one character after the other and collects tags. It knows as
much of XML as drawings are written with: names of a few letters and marks, attributes behind one
blank each, values in double quotes, and nothing but blanks between tags. In a value every character
has to stand for itself. A double quote ends the value; XML allows neither `<` nor control
characters in it, gives `&` a meaning of its own and takes a line break for a blank.

Tags that are written and read back come out as they were exactly when all characters of all values
stand for themselves. One direction follows a text from tag to tag. For the other, what a reader has
collected is never changed afterwards, so a value that a quote has cut short stays short.
-/

namespace VectorMotion.Svg

/-- Whether a character stands for itself in an attribute value. -/
def isPlain (c : Char) : Bool :=
  0x20 ≤ c.toNat && c != '\x22' && c != '<' && c != '&' && c.toNat != 0xFFFE && c.toNat != 0xFFFF

/-- Whether all characters of a text stand for themselves in an attribute value. -/
def Plain (text : String) : Prop := ∀ c ∈ text.toList, isPlain c = true

instance (text : String) : Decidable (Plain text) :=
  decidable_of_iff (text.toList.all isPlain = true) List.all_eq_true

/-- Whether a name can begin with a character. -/
def beginsName (c : Char) : Bool := c.isAlpha || c == '_'

/-- Whether a name can go on with a character. -/
def continuesName (c : Char) : Bool := c.isAlphanum || c == '_' || c == '-' || c == '.' || c == ':'

/-- The names of tags and attributes. -/
def IsName (name : String) : Prop :=
  (name.toList.head?.any beginsName && name.toList.tail.all continuesName) = true

instance (name : String) : Decidable (IsName name) := inferInstanceAs (Decidable (_ = true))

/-- A name is one character it may begin with, and others that it may go on with. -/
theorem IsName.letters {name : String} (isName : IsName name) :
    ∃ first rest, name.toList = first :: rest ∧ beginsName first = true ∧
      ∀ c ∈ rest, continuesName c = true := by
  unfold IsName at isName
  cases letters : name.toList with
  | nil => simp [letters] at isName
  | cons first rest =>
    rw [letters, Bool.and_eq_true] at isName
    exact ⟨first, rest, rfl, isName.1, List.all_eq_true.1 isName.2⟩

namespace Reader

/-- The places in a text at which a reader can be, with what it has read of the current tag. -/
inductive Place where
  | between
  | opened
  | closing (name : List Char)
  | naming (name : List Char)
  /-- Behind the name of a tag or an attribute of it. -/
  | behind (name : String) (attributes : List Attribute)
  | blank (name : String) (attributes : List Attribute)
  | labelling (name : String) (attributes : List Attribute) (label : List Char)
  | assigned (name : String) (attributes : List Attribute) (label : String)
  | quoted (name : String) (attributes : List Attribute) (label : String) (value : List Char)
  | slash (name : String) (attributes : List Attribute)

end Reader

/-- A reader at a place, with the tags in front of that place. -/
structure Reader where
  place : Reader.Place := .between
  tags : List Tag := []

namespace Reader

/-- Whether a character may stand between tags. -/
def separates (c : Char) : Bool := c == ' ' || c == '\n' || c == '\t' || c == '\r'

/-- The reader at another place. -/
def goTo (reader : Reader) (place : Place) : Option Reader := some { reader with place }

/-- The reader behind one more tag. -/
def collect (reader : Reader) (tag : Tag) : Option Reader :=
  some { place := .between, tags := reader.tags ++ [tag] }

/-- What follows the name of a tag or an attribute of it. -/
def continueTag (reader : Reader) (name : String) (attributes : List Attribute) (c : Char) :
    Option Reader :=
  if c == ' ' then reader.goTo (.blank name attributes)
  else if c == '/' then reader.goTo (.slash name attributes)
  else if c == '>' then reader.collect (.start name attributes)
  else none

/-- The reader behind one more character, if the character may stand there. -/
def step (reader : Reader) (c : Char) : Option Reader :=
  match reader.place with
  | .between =>
    if c == '<' then reader.goTo .opened else if separates c then some reader else none
  | .opened =>
    if c == '/' then reader.goTo (.closing [])
    else if beginsName c then reader.goTo (.naming [c]) else none
  | .closing name =>
    if if name.isEmpty then beginsName c else continuesName c then
      reader.goTo (.closing (name ++ [c]))
    else if c == '>' && !name.isEmpty then reader.collect (.finish (String.ofList name)) else none
  | .naming name =>
    if continuesName c then reader.goTo (.naming (name ++ [c]))
    else reader.continueTag (String.ofList name) [] c
  | .behind name attributes => reader.continueTag name attributes c
  | .blank name attributes =>
    if beginsName c then reader.goTo (.labelling name attributes [c]) else none
  | .labelling name attributes label =>
    if continuesName c then reader.goTo (.labelling name attributes (label ++ [c]))
    else if c == '=' then reader.goTo (.assigned name attributes (String.ofList label)) else none
  | .assigned name attributes label =>
    if c == '\x22' then reader.goTo (.quoted name attributes label []) else none
  | .quoted name attributes label value =>
    if c == '\x22' then reader.goTo (.behind name (attributes ++ [⟨label, String.ofList value⟩]))
    else if isPlain c then reader.goTo (.quoted name attributes label (value ++ [c])) else none
  | .slash name attributes => if c == '>' then reader.collect (.whole name attributes) else none

/-- The reader behind some more text. -/
def run (reader : Reader) (text : List Char) : Option Reader := text.foldlM step reader

/-- The tags of a reader that is not in the middle of one. -/
def finished? (reader : Reader) : Option (List Tag) :=
  match reader.place with
  | .between => some reader.tags
  | _ => none

end Reader

/-- The tags of a text of markup, if it can be read. -/
def Tag.read? (text : String) : Option (List Tag) :=
  (Reader.run {} text.toList).bind Reader.finished?

namespace Tag

/-- The name of a tag. -/
def name : Tag → String
  | whole name _ | start name _ | finish name => name

/-- The attributes of a tag. -/
def attributes : Tag → List Attribute
  | whole _ attributes | start _ attributes => attributes
  | finish _ => []

/-- A tag whose names are such as a reader takes for names. -/
structure Named (tag : Tag) : Prop where
  name : IsName tag.name
  labels : ∀ part ∈ tag.attributes, IsName part.name

/-- The text of a tag stands in front of the texts of those behind it. -/
theorem lines_cons (first : Tag) (rest : List Tag) :
    (lines (first :: rest)).toList = first.text.toList ++ '\n' :: (lines rest).toList := by
  simp [lines]

end Tag

namespace Reader

/-- Nothing is read from no text. -/
@[simp] theorem run_nil (reader : Reader) : reader.run [] = some reader := rfl

/-- A text is read from its first character on. -/
theorem run_cons (reader : Reader) (c : Char) (rest : List Char) :
    reader.run (c :: rest) = (reader.step c).bind fun next => next.run rest := rfl

/-- A text is read by reading its beginning and then the rest. -/
theorem run_append (reader : Reader) (first second : List Char) :
    reader.run (first ++ second) = (reader.run first).bind fun next => next.run second :=
  List.foldlM_append

/-- Characters that a place takes in one by one are taken in together. -/
theorem run_taken (tags : List Tag) (place : List Char → Place) (allowed : Char → Bool)
    (taken : ∀ front c, allowed c = true →
      step ⟨place front, tags⟩ c = some ⟨place (front ++ [c]), tags⟩)
    (front text : List Char) (all : ∀ c ∈ text, allowed c = true) :
    run ⟨place front, tags⟩ text = some ⟨place (front ++ text), tags⟩ := by
  induction text generalizing front with
  | nil => simp
  | cons c rest inductionHypothesis =>
    have remaining := inductionHypothesis (front ++ [c])
      fun other member => all other (List.mem_cons_of_mem _ member)
    rw [run_cons, taken front c (all c List.mem_cons_self), Option.bind_some, remaining]
    simp

/-- A quote is not plain, so a value that is taken in is not ended. -/
theorem plain_not_quote {c : Char} (plain : isPlain c = true) : (c == '\x22') = false := by
  by_contra quote
  have same : c = '\x22' := by simpa using quote
  subst same
  exact absurd plain (by decide)

/-- Within quotes plain text is taken in as it stands. -/
theorem run_quoted (tags : List Tag) (name label : String) (attributes : List Attribute)
    (text : List Char) (plain : ∀ c ∈ text, isPlain c = true) :
    run ⟨.quoted name attributes label [], tags⟩ text =
      some ⟨.quoted name attributes label text, tags⟩ := by
  have taken (front : List Char) (c : Char) (allowed : isPlain c = true) :
      step ⟨.quoted name attributes label front, tags⟩ c =
        some ⟨.quoted name attributes label (front ++ [c]), tags⟩ := by
    simp [step, goTo, plain_not_quote allowed, allowed]
  exact run_taken tags (.quoted name attributes label) isPlain taken [] text plain

/-- A name is read up to the character that ends it. -/
theorem run_label (tags : List Tag) (name label : String) (attributes : List Attribute)
    (isName : IsName label) :
    run ⟨.blank name attributes, tags⟩ (label.toList ++ ['=']) =
      some ⟨.assigned name attributes label, tags⟩ := by
  obtain ⟨first, rest, letters, begins, continues⟩ := isName.letters
  have begun : step ⟨.blank name attributes, tags⟩ first =
      some ⟨.labelling name attributes [first], tags⟩ := by
    simp [step, goTo, begins]
  have taken := run_taken tags (.labelling name attributes) continuesName
    (fun front c allowed => by simp [step, goTo, allowed]) [first] rest continues
  have ended : step ⟨.labelling name attributes ([first] ++ rest), tags⟩ '=' =
      some ⟨.assigned name attributes label, tags⟩ := by
    have whole : String.ofList ([first] ++ rest) = label := by
      rw [List.singleton_append, ← letters, String.ofList_toList]
    have notPart : continuesName '=' = false := by decide
    simp only [step, notPart, whole, goTo]
    rfl
  rw [letters, List.cons_append, run_cons, begun, Option.bind_some, run_append, taken,
    Option.bind_some, run_cons, ended]
  rfl

/-- The front of an attribute, up to where its value begins. -/
theorem run_attribute_front (tags : List Tag) (name : String) (attributes : List Attribute)
    (part : Attribute) (isName : IsName part.name) :
    run ⟨.behind name attributes, tags⟩ (' ' :: (part.name.toList ++ ['=']) ++ ['\x22']) =
      some ⟨.quoted name attributes part.name [], tags⟩ := by
  have blank : step ⟨.behind name attributes, tags⟩ ' ' =
      some ⟨.blank name attributes, tags⟩ := rfl
  rw [List.cons_append, run_cons, blank, Option.bind_some, run_append,
    run_label tags name part.name attributes isName]
  rfl

/-- An attribute that is written out is read back. -/
theorem run_attribute (tags : List Tag) (name : String) (attributes : List Attribute)
    (part : Attribute) (isName : IsName part.name) (plain : Plain part.value) :
    run ⟨.behind name attributes, tags⟩ part.text.toList =
      some ⟨.behind name (attributes ++ [part]), tags⟩ := by
  have text : part.text.toList =
      ' ' :: (part.name.toList ++ ['=']) ++ ['\x22'] ++ (part.value.toList ++ ['\x22']) := by
    simp [Attribute.text]
  have ended : step ⟨.quoted name attributes part.name part.value.toList, tags⟩ '\x22' =
      some ⟨.behind name (attributes ++ [part]), tags⟩ := by
    simp [step, goTo]
  rw [text, run_append, run_attribute_front tags name attributes part isName, Option.bind_some,
    run_append, run_quoted tags name part.name attributes _ plain, Option.bind_some, run_cons,
    ended]
  rfl

/-- Attributes that are written out one after the other are read back in their order. -/
theorem run_attributes (tags : List Tag) (name : String) (front attributes : List Attribute)
    (named : ∀ part ∈ attributes, IsName part.name)
    (plain : ∀ part ∈ attributes, Plain part.value) :
    run ⟨.behind name front, tags⟩ (Tag.attributesText attributes).toList =
      some ⟨.behind name (front ++ attributes), tags⟩ := by
  induction attributes generalizing front with
  | nil => simp [Tag.attributesText]
  | cons first rest inductionHypothesis =>
    have text : (Tag.attributesText (first :: rest)).toList =
        first.text.toList ++ (Tag.attributesText rest).toList := by
      simp [Tag.attributesText]
    have restRead := inductionHypothesis (front ++ [first])
      (fun part member => named part (List.mem_cons_of_mem _ member))
      (fun part member => plain part (List.mem_cons_of_mem _ member))
    rw [text, run_append, run_attribute tags name front first (named first List.mem_cons_self)
      (plain first List.mem_cons_self), Option.bind_some, restRead]
    simp

/-- The name of a tag is read up to the character that ends it, which is left for what follows. -/
theorem run_opening (tags : List Tag) (name : String) (isName : IsName name) (c : Char)
    (rest : List Char) (ends : continuesName c = false) :
    run ⟨.between, tags⟩ ('<' :: (name.toList ++ c :: rest)) =
      run ⟨.behind name [], tags⟩ (c :: rest) := by
  obtain ⟨first, others, letters, begins, continues⟩ := isName.letters
  have notSlash : (first == '/') = false := by
    by_contra slash
    have same : first = '/' := by simpa using slash
    subst same
    exact absurd begins (by decide)
  have opened : step ⟨.between, tags⟩ '<' = some ⟨.opened, tags⟩ := rfl
  have begun : step ⟨.opened, tags⟩ first = some ⟨.naming [first], tags⟩ := by
    simp [step, goTo, begins, notSlash]
  have taken := run_taken tags .naming continuesName
    (fun front c allowed => by simp [step, goTo, allowed]) [first] others continues
  have left : step ⟨.naming ([first] ++ others), tags⟩ c = step ⟨.behind name [], tags⟩ c := by
    have whole : String.ofList ([first] ++ others) = name := by
      rw [List.singleton_append, ← letters, String.ofList_toList]
    simp only [step, ends, whole]
    rfl
  rw [letters, run_cons, opened, Option.bind_some, List.cons_append, run_cons, begun,
    Option.bind_some, run_append, taken, Option.bind_some, run_cons, left]
  rfl

/-- What stands behind the name of a tag does not continue the name. -/
theorem attributes_front (attributes : List Attribute) (c : Char) (rest : List Char)
    (ends : continuesName c = false) :
    ∃ d others, (Tag.attributesText attributes).toList ++ c :: rest = d :: others ∧
      continuesName d = false := by
  cases attributes with
  | nil => exact ⟨c, rest, by simp [Tag.attributesText], ends⟩
  | cons first others =>
    exact ⟨' ', _, by simp [Tag.attributesText, Attribute.text]; rfl, by decide⟩

/-- A tag that opens an element is its name, its attributes and an ending. -/
theorem opening_text (tag : Tag) : (∃ name, tag = .finish name) ∨
    ∃ c rest, tag.text.toList =
        '<' :: (tag.name.toList ++ ((Tag.attributesText tag.attributes).toList ++ c :: rest)) ∧
      continuesName c = false ∧ ∀ tags,
        run ⟨.behind tag.name tag.attributes, tags⟩ (c :: rest) =
          some ⟨.between, tags ++ [tag]⟩ := by
  cases tag with
  | whole name attributes =>
    exact .inr ⟨'/', ['>'], by simp [Tag.text, Tag.name, Tag.attributes], by decide, fun _ => rfl⟩
  | start name attributes =>
    exact .inr ⟨'>', [], by simp [Tag.text, Tag.name, Tag.attributes], by decide, fun _ => rfl⟩
  | finish name => exact .inl ⟨name, rfl⟩

/-- A closing tag is read back. -/
theorem run_finish (tags : List Tag) (name : String) (isName : IsName name) :
    run ⟨.between, tags⟩ (Tag.finish name).text.toList =
      some ⟨.between, tags ++ [.finish name]⟩ := by
  obtain ⟨first, others, letters, begins, continues⟩ := isName.letters
  have text : (Tag.finish name).text.toList = '<' :: '/' :: first :: (others ++ ['>']) := by
    simp [Tag.text, letters]
  have opened : run ⟨.between, tags⟩ ['<', '/'] = some ⟨.closing [], tags⟩ := rfl
  have begun : step ⟨.closing [], tags⟩ first = some ⟨.closing [first], tags⟩ := by
    simp [step, goTo, begins]
  have taken := run_taken tags (fun front => .closing (first :: front)) continuesName
    (fun front c allowed => by simp [step, goTo, allowed]) [] others continues
  have ended : step ⟨.closing (first :: others), tags⟩ '>' =
      some ⟨.between, tags ++ [.finish name]⟩ := by
    have whole : String.ofList (first :: others) = name := by rw [← letters, String.ofList_toList]
    have notPart : continuesName '>' = false := by decide
    simp [step, notPart, whole, collect]
  rw [text, show '<' :: '/' :: first :: (others ++ ['>']) =
      ['<', '/'] ++ (first :: (others ++ ['>'])) from rfl, run_append, opened, Option.bind_some,
    run_cons, begun, Option.bind_some, run_append]
  rw [List.nil_append] at taken
  rw [taken, Option.bind_some, run_cons, ended]
  rfl

/-- A tag whose values are plain is read back. -/
theorem run_tag (tags : List Tag) (tag : Tag) (named : tag.Named)
    (plain : ∀ part ∈ tag.attributes, Plain part.value) :
    run ⟨.between, tags⟩ tag.text.toList = some ⟨.between, tags ++ [tag]⟩ := by
  rcases opening_text tag with ⟨name, rfl⟩ | ⟨c, rest, text, ends, ended⟩
  · exact run_finish tags name named.name
  · obtain ⟨d, others, front, leaves⟩ := attributes_front tag.attributes c rest ends
    rw [text, front, run_opening tags tag.name named.name d others leaves, ← front, run_append,
      run_attributes tags tag.name [] tag.attributes named.labels plain, Option.bind_some]
    exact ended tags

/-- Tags whose values are plain are read back, one line after the other. -/
theorem run_lines (tags more : List Tag) (named : ∀ tag ∈ more, tag.Named)
    (plain : ∀ tag ∈ more, ∀ part ∈ tag.attributes, Plain part.value) :
    run ⟨.between, tags⟩ (Tag.lines more).toList = some ⟨.between, tags ++ more⟩ := by
  induction more generalizing tags with
  | nil => simp [Tag.lines]
  | cons first rest inductionHypothesis =>
    have parted : step ⟨.between, tags ++ [first]⟩ '\n' = some ⟨.between, tags ++ [first]⟩ := rfl
    have restRead := inductionHypothesis (tags ++ [first])
      (fun tag member => named tag (List.mem_cons_of_mem _ member))
      (fun tag member => plain tag (List.mem_cons_of_mem _ member))
    rw [Tag.lines_cons, run_append, run_tag tags first (named first List.mem_cons_self)
      (plain first List.mem_cons_self), Option.bind_some, run_cons, parted, Option.bind_some,
      restRead]
    simp

/-- The attributes of the tag that a reader is in the middle of, if it has come to them. -/
def Place.attributes? : Place → Option (List Attribute)
  | .behind _ attributes | .blank _ attributes | .labelling _ attributes _
  | .assigned _ attributes _ | .quoted _ attributes _ _ | .slash _ attributes => some attributes
  | .between | .opened | .closing _ | .naming _ => none

/-- A place with the same attributes has no more of them. -/
theorem Place.attributes_prefix {place : Place} {attributes : List Attribute}
    (here : place.attributes? = some attributes) :
    ∀ before, place.attributes? = some before → before <+: attributes := by
  intro before found
  rw [here] at found
  cases found
  exact List.prefix_rfl

/-- Whether some tags begin with what a reader has collected: whole tags, and the first attributes
of the next one. -/
structure Fixes (reader : Reader) (tags : List Tag) : Prop where
  front : reader.tags <+: tags
  begun : ∀ attributes, reader.place.attributes? = some attributes →
    ∃ tag, tags[reader.tags.length]? = some tag ∧ attributes <+: tag.attributes

/-- A reader that has collected nothing new fixes no more than before. -/
theorem Fixes.back {reader : Reader} {place : Place} {tags : List Tag} {attributes : List Attribute}
    (fixes : Fixes { reader with place } tags) (more : place.attributes? = some attributes)
    (less : ∀ before, reader.place.attributes? = some before → before <+: attributes) :
    Fixes reader tags := by
  refine ⟨fixes.front, fun before here => ?_⟩
  obtain ⟨tag, found, begins⟩ := fixes.begun attributes more
  exact ⟨tag, found, (less before here).trans begins⟩

/-- A tag that is collected has the attributes that have been read of it. -/
theorem Fixes.collected {reader : Reader} {tag : Tag} {tags : List Tag}
    (fixes : Fixes { place := .between, tags := reader.tags ++ [tag] } tags)
    (less : ∀ before, reader.place.attributes? = some before → before <+: tag.attributes) :
    Fixes reader tags := by
  have front : reader.tags ++ [tag] <+: tags := fixes.front
  refine ⟨(List.prefix_append _ _).trans front, fun before here => ⟨tag, ?_, less before here⟩⟩
  obtain ⟨rest, rfl⟩ := front
  simp

/-- What follows an attribute leaves the attributes as they are, in the tag or collected with it. -/
theorem continueTag_fixes {reader next : Reader} {name : String} {attributes : List Attribute}
    {c : Char} {tags : List Tag} (here : reader.place.attributes? = some attributes)
    (stepped : reader.continueTag name attributes c = some next) (fixes : next.Fixes tags) :
    reader.Fixes tags := by
  have less := Place.attributes_prefix here
  unfold continueTag at stepped
  split at stepped
  · cases stepped
    exact fixes.back rfl less
  · split at stepped
    · cases stepped
      exact fixes.back rfl less
    · split at stepped
      · cases stepped
        exact fixes.collected less
      · cases stepped

/-- Behind one more character a reader still has the tags that it had before. -/
theorem step_front {reader next : Reader} {c : Char} (stepped : reader.step c = some next) :
    reader.tags <+: next.tags := by
  obtain ⟨place, front⟩ := reader
  have kept : ∀ {there : Place}, goTo ⟨place, front⟩ there = some next → front <+: next.tags := by
    intro there moved
    cases moved
    exact List.prefix_rfl
  have grown : ∀ {tag : Tag}, collect ⟨place, front⟩ tag = some next → front <+: next.tags := by
    intro tag moved
    cases moved
    exact List.prefix_append _ _
  unfold step continueTag at stepped
  grind

/-- What a reader has collected stays collected behind one more character. -/
theorem step_fixes {reader next : Reader} {c : Char} {tags : List Tag}
    (stepped : reader.step c = some next) (fixes : next.Fixes tags) : reader.Fixes tags := by
  have front := (step_front stepped).trans fixes.front
  obtain ⟨place, collected⟩ := reader
  cases place with
  -- In front of the attributes of a tag only the tags behind the reader count.
  | between => exact ⟨front, fun _ none => by cases none⟩
  | opened => exact ⟨front, fun _ none => by cases none⟩
  | closing name => exact ⟨front, fun _ none => by cases none⟩
  | naming name => exact ⟨front, fun _ none => by cases none⟩
  | behind name attributes => exact continueTag_fixes rfl stepped fixes
  | blank name attributes =>
    simp only [step] at stepped
    split at stepped
    · cases stepped
      exact fixes.back rfl (Place.attributes_prefix rfl)
    · cases stepped
  | labelling name attributes label =>
    simp only [step] at stepped
    split at stepped
    · cases stepped
      exact fixes.back rfl (Place.attributes_prefix rfl)
    · split at stepped
      · cases stepped
        exact fixes.back rfl (Place.attributes_prefix rfl)
      · cases stepped
  | assigned name attributes label =>
    simp only [step] at stepped
    split at stepped
    · cases stepped
      exact fixes.back rfl (Place.attributes_prefix rfl)
    · cases stepped
  | quoted name attributes label value =>
    simp only [step] at stepped
    split at stepped
    · cases stepped
      refine fixes.back rfl fun before found => ?_
      cases found
      exact List.prefix_append _ _
    · split at stepped
      · cases stepped
        exact fixes.back rfl (Place.attributes_prefix rfl)
      · cases stepped
  | slash name attributes =>
    simp only [step] at stepped
    split at stepped
    · cases stepped
      exact fixes.collected (Place.attributes_prefix rfl)
    · cases stepped

/-- What a reader has collected stays collected, however the text goes on. -/
theorem run_fixes {reader last : Reader} {text : List Char} {tags : List Tag}
    (read : reader.run text = some last) (fixes : last.Fixes tags) : reader.Fixes tags := by
  induction text generalizing reader with
  | nil =>
    cases read
    exact fixes
  | cons c rest inductionHypothesis =>
    rw [run_cons] at read
    obtain ⟨next, stepped, remaining⟩ := Option.bind_eq_some_iff.1 read
    exact step_fixes stepped (inductionHypothesis remaining)

/-- A reader that ends up with some tags has fixed the beginning of them all along. -/
theorem fixes_of_read {reader : Reader} {text : List Char} {tags : List Tag}
    (read : (reader.run text).bind finished? = some tags) : reader.Fixes tags := by
  obtain ⟨last, arrived, ended⟩ := Option.bind_eq_some_iff.1 read
  refine run_fixes arrived ?_
  obtain ⟨place, collected⟩ := last
  cases place with
  | between =>
    cases ended
    exact ⟨List.prefix_rfl, fun _ none => by cases none⟩
  | _ => cases ended

/-- A text that is not plain has a first character that does not stand for itself. -/
theorem exists_first_not_plain {text : String} (notPlain : ¬ Plain text) :
    ∃ front c rest, text.toList = front ++ c :: rest ∧ (∀ d ∈ front, isPlain d = true) ∧
      isPlain c = false := by
  obtain ⟨d, member, bad⟩ : ∃ d ∈ text.toList, isPlain d = false := by
    simpa [Plain] using notPlain
  obtain ⟨c, found⟩ : ∃ c, text.toList.find? (fun c => !isPlain c) = some c :=
    Option.isSome_iff_exists.1 (List.find?_isSome.2 ⟨d, member, by simp [bad]⟩)
  obtain ⟨failed, front, rest, parted, before⟩ := List.find?_eq_some_iff_append.1 found
  exact ⟨front, c, rest, parted, by simpa using before, by simpa using failed⟩

/-- A value that is read back as it is written is plain: another one is either not taken in, or cut
short by a quote. -/
theorem plain_of_attribute {front tags : List Tag} {tag : Tag} {name : String}
    {done others : List Attribute} {part : Attribute} {rest : List Char} (isName : IsName part.name)
    (found : tags[front.length]? = some tag) (attributes : tag.attributes = done ++ part :: others)
    (read : (run ⟨.behind name done, front⟩ (part.text.toList ++ rest)).bind finished? =
      some tags) : Plain part.value := by
  by_contra notPlain
  obtain ⟨good, c, bad, parted, plain, ends⟩ := exists_first_not_plain notPlain
  have text : part.text.toList ++ rest =
      ' ' :: (part.name.toList ++ ['=']) ++ ['\x22'] ++ (good ++ c :: (bad ++ '\x22' :: rest)) := by
    simp [Attribute.text, parted]
  rw [text, run_append, run_attribute_front front name done part isName, Option.bind_some,
    run_append, run_quoted front name part.name done good plain, Option.bind_some, run_cons] at read
  by_cases quote : c = '\x22'
  -- The reader takes the quote for the end, and has now collected a value that is too short.
  · subst quote
    have cut : step ⟨.quoted name done part.name good, front⟩ '\x22' =
        some ⟨.behind name (done ++ [⟨part.name, String.ofList good⟩]), front⟩ := rfl
    rw [cut, Option.bind_some] at read
    obtain ⟨same, here, begins⟩ := (fixes_of_read read).begun _ rfl
    obtain rfl : same = tag := Option.some.inj (here.symm.trans found)
    rw [attributes, List.prefix_append_right_inj, List.singleton_prefix_cons_iff] at begins
    have short : good = part.value.toList := by
      rw [← congrArg Attribute.value begins, String.toList_ofList]
    simp [parted] at short
  · have stuck : step ⟨.quoted name done part.name good, front⟩ c = none := by
      simp [step, quote, ends]
    rw [stuck] at read
    cases read

/-- The values of the attributes of a tag that is read back are plain. -/
theorem plain_of_attributes {front tags : List Tag} {tag : Tag} {name : String}
    {done attributes : List Attribute} {rest : List Char}
    (named : ∀ part ∈ attributes, IsName part.name) (found : tags[front.length]? = some tag)
    (all : tag.attributes = done ++ attributes)
    (read : (run ⟨.behind name done, front⟩
      ((Tag.attributesText attributes).toList ++ rest)).bind finished? = some tags) :
    ∀ part ∈ attributes, Plain part.value := by
  induction attributes generalizing done with
  | nil => simp
  | cons first others inductionHypothesis =>
    have isName := named first List.mem_cons_self
    have text : (Tag.attributesText (first :: others)).toList ++ rest =
        first.text.toList ++ ((Tag.attributesText others).toList ++ rest) := by
      simp [Tag.attributesText]
    rw [text] at read
    have plain : Plain first.value := plain_of_attribute isName found all read
    rw [run_append, run_attribute front name done first isName plain, Option.bind_some] at read
    have remaining := inductionHypothesis
      (fun part member => named part (List.mem_cons_of_mem _ member)) (by simp [all]) read
    exact List.forall_mem_cons.2 ⟨plain, remaining⟩

/-- The values of a tag that is read back are plain. -/
theorem plain_of_tag {front tags : List Tag} {tag : Tag} {rest : List Char} (named : tag.Named)
    (found : tags[front.length]? = some tag)
    (read : (run ⟨.between, front⟩ (tag.text.toList ++ rest)).bind finished? = some tags) :
    ∀ part ∈ tag.attributes, Plain part.value := by
  rcases opening_text tag with ⟨name, rfl⟩ | ⟨c, others, text, ends, -⟩
  · simp [Tag.attributes]
  · obtain ⟨d, behind, next, leaves⟩ := attributes_front tag.attributes c (others ++ rest) ends
    have whole : tag.text.toList ++ rest = '<' :: (tag.name.toList ++ d :: behind) := by
      rw [text, ← next]
      simp
    rw [whole, run_opening front tag.name named.name d behind leaves, ← next] at read
    exact plain_of_attributes named.labels found rfl read

/-- The values of all tags that are read back are plain. -/
theorem plain_of_lines {front more : List Tag} (named : ∀ tag ∈ more, tag.Named)
    (read : (run ⟨.between, front⟩ (Tag.lines more).toList).bind finished? =
      some (front ++ more)) : ∀ tag ∈ more, ∀ part ∈ tag.attributes, Plain part.value := by
  induction more generalizing front with
  | nil => simp
  | cons first rest inductionHypothesis =>
    have isNamed := named first List.mem_cons_self
    rw [Tag.lines_cons] at read
    have plain := plain_of_tag isNamed (by simp) read
    have parted : step ⟨.between, front ++ [first]⟩ '\n' = some ⟨.between, front ++ [first]⟩ := rfl
    rw [run_append, run_tag front first isNamed plain, Option.bind_some, run_cons, parted,
      Option.bind_some] at read
    rw [List.append_cons front first rest] at read
    have remaining := inductionHypothesis
      (fun tag member => named tag (List.mem_cons_of_mem _ member)) read
    exact List.forall_mem_cons.2 ⟨plain, remaining⟩

end Reader

/-- Tags are read back as they are written exactly when all characters of all their values stand for
themselves. -/
theorem Tag.read_lines_iff {tags : List Tag} (named : ∀ tag ∈ tags, tag.Named) :
    Tag.read? (Tag.lines tags) = some tags ↔
      ∀ tag ∈ tags, ∀ part ∈ tag.attributes, Plain part.value := by
  constructor
  · intro read
    exact Reader.plain_of_lines named read
  · intro plain
    have arrived := Reader.run_lines [] tags named plain
    rw [Tag.read?, arrived]
    rfl

/-- A tag whose text is that of several others is read as these others. -/
theorem Tag.read_spliced {front parts rest : List Tag} {tag : Tag}
    (same : tag.text = String.join (parts.map Tag.text))
    (named : ∀ tag ∈ front ++ parts ++ rest, tag.Named)
    (plain : ∀ tag ∈ front ++ parts ++ rest, ∀ part ∈ tag.attributes, Plain part.value) :
    Tag.read? (Tag.lines (front ++ tag :: rest)) = some (front ++ parts ++ rest) := by
  simp only [List.forall_mem_append] at named plain
  have joined (before more : List Tag) (moreNamed : ∀ tag ∈ more, tag.Named)
      (morePlain : ∀ tag ∈ more, ∀ part ∈ tag.attributes, Plain part.value) :
      Reader.run ⟨.between, before⟩ (String.join (more.map Tag.text)).toList =
        some ⟨.between, before ++ more⟩ := by
    induction more generalizing before with
    | nil => simp
    | cons first others inductionHypothesis =>
      obtain ⟨firstNamed, othersNamed⟩ := List.forall_mem_cons.1 moreNamed
      obtain ⟨firstPlain, othersPlain⟩ := List.forall_mem_cons.1 morePlain
      have text : (String.join ((first :: others).map Tag.text)).toList =
          first.text.toList ++ (String.join (others.map Tag.text)).toList := by simp
      rw [text, Reader.run_append, Reader.run_tag before first firstNamed firstPlain,
        Option.bind_some, inductionHypothesis (before ++ [first]) othersNamed othersPlain]
      simp
  have text : (Tag.lines (front ++ tag :: rest)).toList =
      (Tag.lines front).toList ++ (tag.text.toList ++ '\n' :: (Tag.lines rest).toList) := by
    simp [Tag.lines]
  have parted : Reader.step ⟨.between, front ++ parts⟩ '\n' =
      some ⟨.between, front ++ parts⟩ := rfl
  have before := Reader.run_lines [] front named.1.1 plain.1.1
  rw [List.nil_append] at before
  rw [Tag.read?, text, Reader.run_append, before, Option.bind_some, Reader.run_append, same,
    joined front parts named.1.2 plain.1.2, Option.bind_some, Reader.run_cons, parted,
    Option.bind_some, Reader.run_lines (front ++ parts) rest named.2 plain.2]
  rfl

end VectorMotion.Svg
