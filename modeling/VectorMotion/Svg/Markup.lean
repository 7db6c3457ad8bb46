/-!
# Markup

The tags that a drawing is written with. A text of markup is a list of tags, one on a line.
Attribute values are written as they are, so a text reads back as the same tags only as long as no
value holds a quote or a character that begins other markup.
-/

namespace VectorMotion.Svg

/-- An attribute of a tag. -/
structure Attribute where
  name : String
  value : String
  deriving Repr, DecidableEq, Inhabited

/-- A tag. -/
inductive Tag where
  /-- An element without contents. -/
  | whole (name : String) (attributes : List Attribute)
  /-- The start of an element. -/
  | start (name : String) (attributes : List Attribute)
  /-- The end of an element. -/
  | finish (name : String)
  deriving Repr, DecidableEq, Inhabited

/-- An attribute behind a blank. -/
def Attribute.text (part : Attribute) : String :=
  " " ++ part.name ++ "=\"" ++ part.value ++ "\""

namespace Tag

/-- Attributes, each behind a blank. -/
def attributesText (attributes : List Attribute) : String :=
  String.join (attributes.map Attribute.text)

/-- The text of a tag. -/
def text : Tag → String
  | whole name attributes => "<" ++ name ++ attributesText attributes ++ "/>"
  | start name attributes => "<" ++ name ++ attributesText attributes ++ ">"
  | finish name => "</" ++ name ++ ">"

/-- Tags, one on a line. -/
def lines (tags : List Tag) : String := String.join (tags.map fun tag => tag.text ++ "\n")

end Tag

end VectorMotion.Svg
