/-!
# Replacing text

Every occurrence of a pattern gives way to new text.  Occurrences are found from the left and do not
overlap.
-/

namespace CodeMend.Text

/-- Drops `skip` characters, then replaces each occurrence of `pattern`, which is not empty. -/
def replaceFrom (pattern new : List Char) : Nat → List Char → List Char
  | _, [] => []
  | skip + 1, _ :: cs => replaceFrom pattern new skip cs
  | 0, c :: cs =>
    if pattern.isPrefixOf (c :: cs) then new ++ replaceFrom pattern new (pattern.length - 1) cs
    else c :: replaceFrom pattern new 0 cs

/-- Replaces each occurrence of `pattern`, which is not empty. -/
def replaceAll (pattern new s : String) : String :=
  String.ofList (replaceFrom pattern.toList new.toList 0 s.toList)

end CodeMend.Text
