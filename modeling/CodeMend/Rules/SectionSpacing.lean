import CodeMend.Engine.Rule
import CodeMend.Trivia.Gap

/-!
# Blank lines between switch sections

An option says where sections are to be set apart by a blank line: behind each section, behind none,
or behind those that do not end with a block.  Gaps with comments or directives are left alone, and
so are sections on one line.
-/

namespace CodeMend.Rules

/-- Where blank lines stand between the sections of a switch. -/
inductive SectionStyle where
  /-- Behind each section. -/
  | always
  /-- Behind none. -/
  | never
  /-- Behind those that do not end with a block. -/
  | unlessBlock
deriving DecidableEq

namespace SectionStyle

/-- Reads a style; blanks around its name do not matter. -/
def read? (s : String) : Option SectionStyle :=
  match Text.trim s with
  | "include" => some .always
  | "omit" => some .never
  | "omit_after_block" => some .unlessBlock
  | _ => none

/-- The name of a style. -/
def label : SectionStyle → String
  | .always => "Include"
  | .never => "Omit"
  | .unlessBlock => "OmitAfterBlock"

/-- Does the style want a blank line behind the section? -/
def wantsBlankLine (style : SectionStyle) (sect : Site) : Bool :=
  match style with
  | .always => true
  | .never => false
  | .unlessBlock => !(sect.statements.getLast?.any (·.kind == .block))

end SectionStyle

namespace SectionSpacing

/-- What the rule reports. -/
def descriptor : Descriptor where
  id := "RCS0061"
  title := "Add/remove blank line between switch sections"
  messageFormat := "\x7b0\x7d blank line between switch sections"
  category := "Formatting"
  severity := .info
  enabledByDefault := false

/-- The option with the style. -/
def option : String := "blank_line_between_switch_sections"

/-- The property that says what to do. -/
def blankLine : String := "BlankLine"

/-- The gap between two sections, if it may be changed. -/
def gap? (previous next : Site) : Option Gap :=
  (Gap.between? previous next).filter fun g => g.isFixable && g.kind != .noNewLine

/-- The style of a run. -/
def style (o : Options) : SectionStyle := o.readOr option SectionStyle.read? .always

/-- What is found between two sections. -/
def between (style : SectionStyle) (previous next : Site) : List Finding :=
  match gap? previous next, next.labels.head? with
  | some gap, some label =>
    let finding (message action : String) : List Finding :=
      [{ descriptor := descriptor, span := label.span, arguments := [message],
         properties := Properties.insert {} blankLine action }]
    match style.wantsBlankLine previous, gap.kind with
    | true, .singleNewLine => finding "Add" "add"
    | false, .blankLine => finding "Remove" "remove"
    | _, _ => []
  | _, _ => []

/-- What is found at a switch. -/
def findings (c : Context) (s : Site) : List Finding :=
  (List.zipWith (between (style c.options)) s.sections (s.sections.drop 1)).flatten

/-- The section a diagnostic is about and the gap before it. -/
def gapBefore? (c : Context) (d : Diagnostic) : Option Gap := do
  let next ← (← c.nodeAt? d.span).ancestors.find? (·.kind == .switchSection)
  let previous ← next.prevNode?.filter (·.kind == .switchSection)
  gap? previous next

/-- Adds or removes the blank line. -/
def fix (c : Context) (d : Diagnostic) : Except EditError (List CodeAction) :=
  let action (title : String) (e : Editor) : List CodeAction :=
    [⟨title, ⟨descriptor.id⟩, .fix, e.patch⟩]
  match gapBefore? c d with
  | none => .ok []
  | some gap =>
    match d.properties.get? blankLine with
    | some "add" =>
      match gap.blankLineInsertion? with
      | none => .ok []
      | some offset =>
        action "Add blank line" <$>
          c.editor.insertAt offset ⟨[Snippet.newline gap.lineBreakText], []⟩
    | some "remove" =>
      match gap.blankLines? with
      | none => .ok []
      | some span => action "Remove blank line" <$> c.editor.deleteSpan span
    | _ => .ok []

/-- Finds blank lines that are missing or too many. -/
def analyzer : Analyzer := .ofFindings descriptor [.switchStatement] findings

/-- Adds or removes them. -/
def provider : FixProvider := ⟨[descriptor.id], fun c d => .ofEdits (fix c d)⟩

end SectionSpacing

end CodeMend.Rules
