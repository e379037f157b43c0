/-!
# Tags

A format may let a value be marked with what it is.  Such a mark is a `Tag`.  A tag is a name made of
octets, since it may be written with escapes for single octets; most tags are text all the same.
-/

namespace CodeMend.Config

/-- What a value is said to be. -/
structure Tag where
  octets : List UInt8
deriving DecidableEq

namespace Tag

/-- The octets of a text. -/
def octetsOf (s : String) : List UInt8 := s.toUTF8.data.toList

/-- The start of the names that the format itself gives. -/
def standardSpace : String := "tag:yaml.org,2002:"

/-- A tag that the format itself names. -/
def standard (name : String) : Tag := ⟨octetsOf (standardSpace ++ name)⟩

/-- The tag that says nothing about its value. -/
def bare : Tag := ⟨octetsOf "!"⟩

/-- The word in a tag of the file's own, which starts with an exclamation mark. -/
def word? (t : Tag) : Option String :=
  match t.octets with
  | 33 :: rest => String.fromUTF8? ⟨(if rest.isEmpty then t.octets else rest).toArray⟩
  | _ => none

end Tag

end CodeMend.Config
