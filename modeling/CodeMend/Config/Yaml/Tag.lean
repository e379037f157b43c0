import CodeMend.Config.Data
import CodeMend.Config.Yaml.Cursor

/-!
# Tags as they are written

A tag is written in full between angle brackets, or as a *handle*, which stands for the start of the
tag, with the rest behind it.  An escape stands for one octet, and the escapes in a row are held to
the rules for characters of more than one octet.
-/

namespace CodeMend.Config.Yaml

/-- A tag as it is written. -/
structure TagMark where
  /-- What stands for the start of the tag; empty if the tag is written in full. -/
  handle : String
  suffix : List UInt8
deriving DecidableEq

/-- Characters of tags, commas and square brackets only if `verbatim` holds. -/
def isTagChar (verbatim : Bool) (c : Char) : Bool :=
  isNameChar c || ";/?:@&=+$.!~*'()".toList.contains c
    || (verbatim && (c == ',' || c == '[' || c == ']'))

/-- The number of octets that follow the first octet of a character. -/
def trailing? (octet : Nat) : Option Nat :=
  if octet < 0x80 then some 0
  else if octet < 0xC0 then none
  else if octet < 0xE0 then some 1
  else if octet < 0xF0 then some 2
  else if octet < 0xF8 then some 3
  else none

/-- The octets of a tag, of which the first `due` go on with a character, and what follows them. -/
def tagOctets? (verbatim : Bool) : Nat → List Char → Option (List UInt8 × List Char)
  | due, '%' :: a :: b :: cs => do
    let octet ← Data.ofDigits? 16 [a, b]
    let due ← match due with
      | 0 => trailing? octet
      | n + 1 => if 0x80 ≤ octet && octet < 0xC0 then some n else none
    let (more, rest) ← tagOctets? verbatim due cs
    some (.ofNat octet :: more, rest)
  | 0, c :: cs =>
    if isTagChar verbatim c then
      (tagOctets? verbatim 0 cs).map fun r => (.ofNat c.toNat :: r.1, r.2)
    else if c == '%' then none
    else some ([], c :: cs)
  | 0, [] => some ([], [])
  | _ + 1, _ => none

/-- The octets of a tag up to the first that is zero, and what follows the tag. -/
def tagText? (verbatim : Bool) (cs : List Char) : Option (List UInt8 × List Char) :=
  (tagOctets? verbatim 0 cs).map fun r => (r.1.takeWhile (· != 0), r.2)

/-- As `tagText?`, of one character at least. -/
def someTagText? (verbatim : Bool) (cs : List Char) : Option (List UInt8 × List Char) :=
  (tagText? verbatim cs).filter fun r => r.2.length < cs.length

/-- An exclamation mark, the name behind it and the exclamation mark behind that. -/
def handleText (cs : List Char) : List Char :=
  let name := (cs.drop 1).takeWhile isNameChar
  let close := (cs.drop (name.length + 1)).takeWhile (· == '!')
  '!' :: name ++ close.take 1

/-- A tag at its exclamation mark, and what follows it.  A handle that is not closed is part of the
rest, and an exclamation mark alone is the whole tag. -/
def tagMark? (cs : List Char) : Option (TagMark × List Char) :=
  match cs with
  | '!' :: '<' :: cs => do
    let (full, rest) ← someTagText? true cs
    match rest with
    | '>' :: rest => some (⟨"", full⟩, rest)
    | _ => none
  | cs => do
    let handle := handleText cs
    if handle.length == 1 || handle.getLast? != some '!' then
      let (suffix, rest) ← tagText? false (cs.drop 1)
      some (if suffix.isEmpty then ⟨"", Tag.bare.octets⟩ else ⟨"!", suffix⟩, rest)
    else
      let (suffix, rest) ← someTagText? false (cs.drop handle.length)
      some (⟨.ofList handle, suffix⟩, rest)

end CodeMend.Config.Yaml
