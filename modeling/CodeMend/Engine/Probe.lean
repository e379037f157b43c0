import CodeMend.Engine.Registry

/-!
# Probe rules

Small rules with known behaviour, by which the engine itself is tried out: rules that echo what they
see, report what they never declared, break down half-way, or offer actions that fail.
-/

namespace CodeMend.Probe

/-- A descriptor of a probe. -/
def descriptor (number : Nat) (title form : String) (severity : Severity) (isOn : Bool) :
    Descriptor :=
  ⟨"TST000" ++ toString number, title, form, "Test", severity, isOn⟩

/-- Reported by the echo. -/
def echo : Descriptor := descriptor 1 "Echo" "\x7b0\x7d of \x7b1\x7d bytes" .info true

/-- Reported by the probe that breaks down. -/
def panicky : Descriptor := descriptor 2 "Panicky" "Panicky" .warning true

/-- Reported by the probe that reports too much. -/
def liar : Descriptor := descriptor 3 "Liar" "Liar" .hidden true

/-- The first of a pair. -/
def pairA : Descriptor := descriptor 4 "Pair A" "Pair A" .error true

/-- The second of a pair. -/
def pairB : Descriptor := descriptor 5 "Pair B" "Pair B" .info false

/-- A finding at a node. -/
def finding (d : Descriptor) (s : Site) (arguments : List String) : Finding :=
  { descriptor := d, span := s.span, arguments := arguments }

/-- Reports the kind and the length of each node. -/
def echoing (_ : Context) (s : Site) : Visit :=
  { findings :=
      [{ finding echo s [s.kind.label, toString s.span.length] with
          properties := Properties.insert {} "Kind" s.kind.label }] }

/-- Does a word occur in a text? -/
def occurs (word : List Char) : List Char → Bool
  | [] => word.isEmpty
  | c :: cs => word.isPrefixOf (c :: cs) || occurs word cs

/-- Does a word occur in the text of a node? -/
def mentions (s : Site) (word : String) : Bool := occurs word.toList s.text.toList

/-- Reports each node, and breaks down behind that at nodes with certain words. -/
def breakingDown (_ : Context) (s : Site) : Visit :=
  { findings := [finding panicky s []]
    breakdown :=
      if mentions s "BoomText" then some (.message ("boom in " ++ s.kind.label))
      else if mentions s "BoomAny" then some .unknown
      else if mentions s "Boom" then some (.message "boom")
      else none }

/-- Reports what it does not declare, and then what it does. -/
def lying (_ : Context) (s : Site) : Visit :=
  { findings := [finding echo s ["lie", "0"], finding liar s []] }

/-- Reports the second of the pair, then the first if that is on. -/
def pairing (c : Context) (s : Site) : Visit :=
  { findings :=
      finding pairB s [] :: if c.options.isEnabled pairA then [finding pairA s []] else [] }

/-- The analyzer of a name, for nodes of the given kinds. -/
def analyzer? (kinds : List Kind) : String → Option Analyzer
  | "echo" => some ⟨[echo], kinds, echoing⟩
  | "panicky" => some ⟨[panicky], kinds, breakingDown⟩
  | "liar" => some ⟨[liar], kinds, lying⟩
  | "pair" => some ⟨[pairA, pairB], kinds, pairing⟩
  | "pair_echo" => some ⟨[pairA, echo], kinds, pairing⟩
  | "nameless" => some ⟨[], kinds, echoing⟩
  | _ => none

/-- A fix whose title is the variant. -/
def action (d : Diagnostic) (title variant : String) (p : Patch) : CodeAction :=
  ⟨title, .ofVariant d.id variant, .fix, p⟩

/-- Removes the node. -/
def deleteNode (c : Context) (d : Diagnostic) (n : Site) : Offer :=
  .ofEdits do
    let e ← c.editor.removeNode n .keepNoTrivia
    return [action d "Delete" "Delete" e.patch]

/-- Renames the first identifier of the node. -/
def renameNode (c : Context) (d : Diagnostic) (n : Site) : Offer :=
  match n.subtokens.find? (·.kind == .ident) with
  | none => .actions []
  | some t => .ofEdits do
    let e ← c.editor.replaceToken t (.token .ident "Renamed")
    return [action d "Rename" "Rename" e.patch]

/-- Deletes the last token of the node, whatever that does to the syntax. -/
def breakNode (c : Context) (d : Diagnostic) (n : Site) : Offer :=
  .actions (n.lastToken?.toList.map fun t =>
    action d "Break" "Break" ⟨c.document.version, [.delete t.span]⟩)

/-- What is offered at the node of a diagnostic, if there is one. -/
def onNode (offer : Context → Diagnostic → Site → Offer) (c : Context) (d : Diagnostic) : Offer :=
  match c.nodeAt? d.span with
  | some n => offer c d n
  | none => .actions []

/-- The fix provider of a name, for the given ids. -/
def provider? (ids : List String) : String → Option FixProvider
  | "delete" => some ⟨ids, onNode deleteNode⟩
  | "rename" => some ⟨ids, onNode renameNode⟩
  | "break" => some ⟨ids, onNode breakNode⟩
  | "panic" => some ⟨ids, fun _ _ => .brokeDown (.message "fix boom")⟩
  | "error" => some ⟨ids, fun _ d => .failed (.rule d.id "provider failed")⟩
  | "twice" => some ⟨ids, fun c d =>
    .actions [action d "One" "Same" c.editor.patch, action d "Two" "Same" c.editor.patch]⟩
  | _ => none

/-- Inserts two blanks at the start of the span. -/
def insertBlanks (c : Context) (span : Span) : Offer :=
  .ofEdits do
    let e ← c.editor.insertAt span.start ⟨[Snippet.whitespace "  "], []⟩
    return [⟨"Space", ⟨"RT0001"⟩, .refactoring, e.patch⟩]

/-- The refactoring of a name, under the given id. -/
def refactoring? (id : String) : String → Option Refactoring
  | "space" => some ⟨id, "Test", insertBlanks⟩
  | "panic" => some ⟨id, "Test", fun _ _ => .brokeDown (.message "refactoring boom")⟩
  | "error" => some ⟨id, "Test", fun _ _ => .failed (.internal "refactoring failed")⟩
  | _ => none

end CodeMend.Probe
