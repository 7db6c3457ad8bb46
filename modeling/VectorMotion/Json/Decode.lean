import VectorMotion.Json.Misfit

/-!
# Decoding

How the parts of a document are read from a source. Decoders walk a source in the order in which
it stands and the first misfit ends them. A record may be written as an object, in which unknown
names are passed over, or as the list of its fields in the order of their declaration. A field
that is left out takes its default, unless the record cannot do without it.
-/

namespace VectorMotion.Json

/-- The misfit of a source that is not of the expected kind. Lists and objects are not looked into
for it. -/
def Source.misfit (expected : String) : Source → Misfit
  | .atom value => .wrongKind (.atom value) expected
  | .list .. => .wrongKind .sequence expected
  | .object .. => .wrongKind .map expected
  | .unreadable => .fault .malformed
  | .broken flaw => .fault flaw.whenRead

/-- Steps into a list or object. Text that is nested too deeply is malformed. -/
def Origin.enter : Origin → Decoded Unit
  | .text depth => if deepestText < depth then .error (.fault .malformed) else .ok ()
  | .value | .kept => .ok ()

/-- Steps behind the last item or member. -/
def leave : Option Flaw → Decoded Unit
  | none => .ok ()
  | some flaw => .error (.fault flaw.whenRead)

/-- The name of a member, of which not every one has a value. -/
def nameOf : Option String → Decoded String
  | some name => .ok name
  | none => .error (.fault .malformed)

namespace Source

mutual
/-- A whole value, with its objects in normal form. -/
def toValue : Source → Decoded Value
  | .atom value => .ok (.atom value)
  | .unreadable => .error (.fault .malformed)
  | .broken flaw => .error (.fault flaw.whenRead)
  | .list origin items flaw => do
    origin.enter
    let items ← toItems items
    leave flaw
    return .list items
  | .object origin members flaw => do
    origin.enter
    let members ← toMembers members
    leave flaw
    return Value.ofMembers members

/-- Whole values. -/
def toItems : List Source → Decoded (List Value)
  | [] => .ok []
  | item :: rest => do
    let value ← toValue item
    return value :: (← toItems rest)

/-- Members with whole values, in the order in which they stand. -/
def toMembers : List (Option String × Source) → Decoded (List (String × Value))
  | [] => .ok []
  | (name, item) :: rest => do
    let name ← nameOf name
    let value ← toValue item
    return (name, value) :: (← toMembers rest)
end

mutual
/-- Sets a source aside, to be read in more than one way. All of it is read now. -/
def keep : Source → Decoded Source
  | .atom value => .ok (.atom value)
  | .unreadable => .error (.fault .malformed)
  | .broken flaw => .error (.fault flaw.whenRead)
  | .list origin items flaw => do
    origin.enter
    let items ← keepItems items
    leave flaw
    return .list .kept items none
  | .object origin members flaw => do
    origin.enter
    let members ← keepMembers members
    leave flaw
    return .object .kept members none

/-- Sets items aside. -/
def keepItems : List Source → Decoded (List Source)
  | [] => .ok []
  | item :: rest => do
    let kept ← keep item
    return kept :: (← keepItems rest)

/-- Sets members aside. -/
def keepMembers : List (Option String × Source) → Decoded (List (Option String × Source))
  | [] => .ok []
  | (name, item) :: rest => do
    let name ← nameOf name
    let kept ← keep item
    return (some name, kept) :: (← keepMembers rest)
end

/-- Passes behind the last item or member. -/
def skipEnd : Option Flaw → Decoded Unit
  | none => .ok ()
  | some flaw => .error (.fault flaw.whenSkipped)

mutual
/-- Passes over a value that nobody asks for. Only a flaw of the text can stop it; a number, a
string or a name without a value, and any depth, will do. -/
def skip : Source → Decoded Unit
  | .atom _ | .unreadable => .ok ()
  | .broken flaw => .error (.fault flaw.whenSkipped)
  | .list _ items flaw => do skipItems items; skipEnd flaw
  | .object _ members flaw => do skipMembers members; skipEnd flaw

/-- Passes over items. -/
def skipItems : List Source → Decoded Unit
  | [] => .ok ()
  | item :: rest => do skip item; skipItems rest

/-- Passes over members. -/
def skipMembers : List (Option String × Source) → Decoded Unit
  | [] => .ok ()
  | (_, item) :: rest => do skip item; skipMembers rest
end

mutual
/-- How deep lists and objects are nested in a source. -/
def height : Source → Nat
  | .atom _ | .unreadable | .broken _ => 0
  | .list _ items _ => itemsHeight items + 1
  | .object _ members _ => membersHeight members + 1

/-- The greatest height of some items. -/
def itemsHeight : List Source → Nat
  | [] => 0
  | item :: rest => max (height item) (itemsHeight rest)

/-- The greatest height of some members. -/
def membersHeight : List (Option String × Source) → Nat
  | [] => 0
  | (_, item) :: rest => max (height item) (membersHeight rest)
end

end Source

/-- A decoder of `α`. -/
abbrev Decoder (α : Type) := Source → Decoded α

namespace Decoder

/-- A natural number up to `greatest`. -/
def natural (greatest : Nat) (expected : String) : Decoder Nat
  | .atom (.number (.natural value)) =>
    if value ≤ greatest then .ok value
    else .error (.outOfRange (.atom (.number (.natural value))) expected)
  | .atom (.number (.negative size)) =>
    .error (.outOfRange (.atom (.number (.negative size))) expected)
  | source => .error (source.misfit expected)

/-- A code of one byte. -/
def code : Decoder Nat := natural 255 "u8"

/-- An index or size of four bytes. -/
def index : Decoder Nat := natural 4294967295 "u32"

/-- A measure: any number. -/
def scalar {S : Type} [Scalar S] : Decoder S
  | .atom (.number value) => .ok value.toScalar
  | source => .error (source.misfit "f32")

/-- A string. -/
def text : Decoder String
  | .atom (.text value) => .ok value
  | source => .error (source.misfit "a string")

/-- A boolean. -/
def boolean : Decoder Bool
  | .atom (.boolean value) => .ok value
  | source => .error (source.misfit "a boolean")

/-- A value that may be `null`. Its first character decides. -/
def optional {α : Type} (decode : Decoder α) : Decoder (Option α)
  | .atom .null => .ok none
  | .broken flaw =>
    if flaw.cutsNull then .error (.fault flaw.whenRead) else some <$> decode (.broken flaw)
  | source => some <$> decode source

/-- A switch: a boolean, or a number that is not zero. Anything else is off. -/
def switch : Decoder Bool := fun source => do
  match ← source.toValue with
  | .atom (.boolean value) => return value
  | .atom (.number value) => return !(value.toDouble == 0.0)
  | _ => return false

/-- The items of a list, each read alike, where a list is called `expected`. -/
def sequence {α : Type} (expected : String) (decode : Decoder α) : Decoder (List α)
  | .list origin items flaw => do
    origin.enter
    let read ← items.mapM decode
    leave flaw
    return read
  | source => .error (source.misfit expected)

/-- A list of values that are read alike. -/
def list {α : Type} (decode : Decoder α) : Decoder (List α) := sequence "a sequence" decode

/-- The misfit of a list with items left over, of which some have been read. -/
def surplus (origin : Origin) (length read : Nat) : Misfit :=
  match origin with
  | .text _ => .fault .malformed
  | .value => .wrongLength length "fewer elements in array"
  | .kept =>
    .wrongLength length
      (if read == 1 then "1 element in sequence" else s!"{read} elements in sequence")

/-- Exactly two values. -/
def pair {α β : Type} (decode : Decoder α) (combine : α → α → β) : Decoder β
  | .list origin items flaw => do
    origin.enter
    match items with
    | [] => do
      leave flaw
      .error (.wrongLength 0 "an array of length 2")
    | [first] => do
      let _ ← decode first
      leave flaw
      .error (.wrongLength 1 "an array of length 2")
    | [first, second] => do
      let first ← decode first
      let second ← decode second
      leave flaw
      return combine first second
    | first :: second :: rest => do
      let _ ← decode first
      let _ ← decode second
      .error (surplus origin (rest.length + 2) 2)
  | source => .error (source.misfit "an array of length 2")

end Decoder

/-- A field of a record: its name, other names that it goes by, and how its value changes the
record that is being read. -/
structure Record.Field (R : Type) where
  name : String
  aliases : List String := []
  required : Bool := false
  read : Source → Decoded (R → R)

namespace Record.Field

/-- A field with a decoder for its value. -/
def of {R α : Type} (name : String) (decode : Decoder α) (put : α → R → R) : Field R :=
  { name, read := fun source => put <$> decode source }

/-- A field that must be present. -/
def must {R α : Type} (name : String) (decode : Decoder α) (put : α → R → R) : Field R :=
  { name, required := true, read := fun source => put <$> decode source }

/-- Whether the field goes by a name. -/
def goesBy {R : Type} (field : Field R) (name : String) : Bool :=
  field.name == name || field.aliases.contains name

end Record.Field

namespace Record

variable {R : Type}

/-- Reads members in the order in which they stand. A field is read once, under whichever of its
names; `seen` holds the fields that have been read. -/
def readMembers (fields : List (Field R)) :
    List String → List (Option String × Source) → R → Decoded (List String × R)
  | seen, [], record => .ok (seen, record)
  | seen, (name, item) :: rest, record => do
    let name ← nameOf name
    match fields.find? (·.goesBy name) with
    | none => do
      item.skip
      readMembers fields seen rest record
    | some field =>
      if seen.contains field.name then .error (.duplicateField field.name)
      else do
        let put ← field.read item
        readMembers fields (field.name :: seen) rest (put record)

/-- Reads items as fields in the order of their declaration; `index` counts the items read. The
items that are left over come back. -/
def readItems (expected : String) (flaw : Option Flaw) :
    Nat → List (Field R) → List Source → R → Decoded (List Source × R)
  | _, [], rest, record => .ok (rest, record)
  | index, field :: fields, item :: rest, record => do
    let put ← field.read item
    readItems expected flaw (index + 1) fields rest (put record)
  | index, field :: fields, [], record => do
    leave flaw
    if field.required then .error (.wrongLength index expected)
    else readItems expected flaw (index + 1) fields [] record

/-- Refuses a record without one of the fields that it needs. -/
def requireAll (fields : List (Field R)) (seen : List String) : Decoded Unit :=
  match fields.find? fun field => field.required && !seen.contains field.name with
  | some field => .error (.missingField field.name)
  | none => .ok ()

/-- A record, from an object or from the list of its fields. `blank` holds the defaults. -/
def decode (name : String) (blank : R) (fields : List (Field R)) : Decoder R
  | .object origin members flaw => do
    origin.enter
    let (seen, record) ← readMembers fields [] members blank
    leave flaw
    requireAll fields seen
    return record
  | .list origin items flaw => do
    origin.enter
    let expected := s!"struct {name} with {fields.length} elements"
    let (rest, record) ← readItems expected flaw 0 fields items blank
    if rest.isEmpty then
      leave flaw
      return record
    else .error (surplus origin items.length fields.length)
  | source => .error (source.misfit s!"struct {name}")
where
  /-- See `Decoder.surplus`. -/
  surplus := Decoder.surplus

end Record

/-- Decodes a value. -/
def Decoder.ofValue {α : Type} (decode : Decoder α) (value : Value) : Decoded α :=
  decode (.ofValue value)

/-- Decodes a text. What stands behind the value is a fault, found after the value has been
read. -/
def Decoder.ofText {α : Type} (decode : Decoder α) (text : String) : Decoded α := do
  let (source, more) := Source.ofText text
  let value ← decode source
  if more then .error (.fault .malformed) else return value

end VectorMotion.Json
