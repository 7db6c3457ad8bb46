import VectorMotion.Json.Flaw

/-!
# Document sources

What a decoder reads from. A document comes as a value, whose members are already in order, or as
text, which is read member by member as it stands and may turn out to be malformed only after a
part of it has been used. A `Source` covers both: it is a JSON tree in the order of reading whose
lists and objects may end in a flaw instead of a closing bracket. A decoder that walks a source
in order meets the flaws of the text and the misfits of the data in the order of the text, so
the first of them is the one to report.
-/

namespace VectorMotion.Json

/-- Where a list or object of a source comes from. -/
inductive Origin where
  /-- A value. -/
  | value
  /-- Text, at this depth of lists and objects, the outermost at depth one. -/
  | text (depth : Nat)
  /-- A part of either that was set aside, to be read in more than one way. -/
  | kept
  deriving Repr, DecidableEq, Inhabited

/-- A JSON tree in the order of reading. A flaw ends the text, so what stands after one is never
seen. The name of a member is a string, which may be one without a value. -/
inductive Source where
  | atom (value : Atom)
  /-- A number or string without a value. -/
  | unreadable
  | list (origin : Origin) (items : List Source) (flaw : Option Flaw)
  | object (origin : Origin) (members : List (Option String × Source)) (flaw : Option Flaw)
  /-- No value stands here. -/
  | broken (flaw : Flaw)
  deriving Repr, Inhabited

/-- Lists and objects may be nested this deep in text. -/
def deepestText : Nat := 127

namespace Source

mutual
/-- A value, to be read again. -/
def ofValue : Value → Source
  | .atom value => .atom value
  | .list items => .list .value (ofItems items) none
  | .object members => .object .value (ofMembers members) none

/-- Values, to be read again. -/
def ofItems : List Value → List Source
  | [] => []
  | item :: rest => ofValue item :: ofItems rest

/-- Members, to be read again. -/
def ofMembers : List (String × Value) → List (Option String × Source)
  | [] => []
  | (name, value) :: rest => (some name, ofValue value) :: ofMembers rest
end

/-- A list or object of text that stands open, with what it holds so far in reverse. -/
inductive Open where
  | list (items : List Source)
  | object (members : List (Option String × Source))
  /-- An object and the name of the member that is being read. -/
  | member (members : List (Option String × Source)) (name : Option String)
  deriving Repr

/-- A text that is being read: the open lists and objects, innermost first, and what is due. -/
structure Pending where
  opened : List Open
  due : Due
  deriving Repr

/-- The outcome of reading one token that may stand where it does. -/
inductive Progress where
  | going (reading : Pending)
  /-- The outermost value is whole. -/
  | whole (source : Source)
  deriving Repr

/-- Puts a value into the innermost open part. -/
def place (value : Source) : List Open → Progress
  | [] => .whole value
  | .list items :: outer => .going ⟨.list (value :: items) :: outer, .commaOrEnd⟩
  | .member members name :: outer =>
    .going ⟨.object ((name, value) :: members) :: outer, .commaOrObjectEnd⟩
  | .object members :: outer => .going ⟨.object members :: outer, .commaOrObjectEnd⟩

/-- An open part as a source that ends in a flaw, or in its bracket. The number of parts around
it is one less than its depth. -/
def close (part : Open) (around : Nat) (flaw : Option Flaw) : Source :=
  match part with
  | .list items => .list (.text (around + 1)) items.reverse flaw
  | .object members | .member members _ => .object (.text (around + 1)) members.reverse flaw

/-- Ends every open part, the innermost holding `value` as its last. -/
def abandon (value : Source) : List Open → Source
  | [] => value
  | .list items :: outer => abandon (close (.list (value :: items)) outer.length none) outer
  | .member members name :: outer =>
    abandon (close (.object ((name, value) :: members)) outer.length none) outer
  | .object members :: outer => abandon (close (.object members) outer.length none) outer

/-- The source of a text that ends in a flaw. Where a value or the colon before one is due, the
flaw takes the place of the value; elsewhere it ends the innermost part. -/
def stop (opened : List Open) (flaw : Flaw) : Source :=
  match opened, flaw.due.takesValue || flaw.due == .colon with
  | part :: outer, false => abandon (close part outer.length (some flaw)) outer
  | opened, _ => abandon (.broken flaw) opened

/-- Ends the innermost part at its bracket. -/
def endPart? : List Open → Option Progress
  | [] => none
  | part :: outer => some (place (close part outer.length none) outer)

/-- A token where a value is due. -/
def readValue? (opened : List Open) : Token → Option Progress
  | .atom value => some (place (.atom value) opened)
  | .boundless | .unpaired => some (place .unreadable opened)
  | .openList => some (.going ⟨.list [] :: opened, .itemOrEnd⟩)
  | .openObject => some (.going ⟨.object [] :: opened, .nameOrEnd⟩)
  | _ => none

/-- A token where a name is due. -/
def readName? (opened : List Open) (token : Token) : Option Progress :=
  match opened, token with
  | .object members :: outer, .atom (.text name) =>
    some (.going ⟨.member members (some name) :: outer, .colon⟩)
  | .object members :: outer, .unpaired =>
    some (.going ⟨.member members none :: outer, .colon⟩)
  | _, _ => none

/-- Reads one token; `none` if it may not stand where it does. -/
def readToken? (reading : Pending) (token : Token) : Option Progress :=
  let opened := reading.opened
  match reading.due, token with
  | .itemOrEnd, .closeList | .commaOrEnd, .closeList => endPart? opened
  | .nameOrEnd, .closeObject | .commaOrObjectEnd, .closeObject => endPart? opened
  | .value, token | .itemOrEnd, token => readValue? opened token
  | .nameOrEnd, token | .name, token => readName? opened token
  | .commaOrEnd, .comma | .colon, .colon => some (.going ⟨opened, .value⟩)
  | .commaOrObjectEnd, .comma => some (.going ⟨opened, .name⟩)
  | _, _ => none

/-- Reads tokens up to the end of the outermost value. With the value come the tokens behind it. -/
def readTokens (reading : Pending) : List Token → Source × List Token
  | [] => (stop reading.opened ⟨reading.due, none⟩, [])
  | token :: rest =>
    match readToken? reading token with
    | some (.going reading) => readTokens reading rest
    | some (.whole source) => (source, rest)
    | none => (stop reading.opened ⟨reading.due, some token⟩, [])

/-- A text as the source of one value. The second part tells whether anything but blanks stands
behind the value; that is a fault of its own, found after the value has been used. -/
def ofText (text : String) : Source × Bool :=
  let (source, rest) := readTokens ⟨[], .value⟩ (Token.ofText text)
  (source, !rest.isEmpty)

end Source

end VectorMotion.Json
