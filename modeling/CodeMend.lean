import CodeMend.Config.Data
import CodeMend.Config.Decimal
import CodeMend.Config.Decode
import CodeMend.Config.Encode
import CodeMend.Config.Json
import CodeMend.Config.Loader
import CodeMend.Config.Schema
import CodeMend.Config.Settings
import CodeMend.Config.Tag
import CodeMend.Config.Toml
import CodeMend.Config.Toml.Moment
import CodeMend.Config.Toml.Number
import CodeMend.Config.Toml.Table
import CodeMend.Config.Toml.Text
import CodeMend.Config.Yaml
import CodeMend.Config.Yaml.Cursor
import CodeMend.Config.Yaml.Directive
import CodeMend.Config.Yaml.Node
import CodeMend.Config.Yaml.Scalar
import CodeMend.Config.Yaml.Tag
import CodeMend.Config.Yaml.Token
import CodeMend.Diagnostic.Descriptor
import CodeMend.Diagnostic.Report
import CodeMend.Diff.Line
import CodeMend.Diff.Script
import CodeMend.Diff.Unified
import CodeMend.Edit.Desk
import CodeMend.Edit.Editor
import CodeMend.Edit.Indent
import CodeMend.Edit.Patch
import CodeMend.Edit.Refusal
import CodeMend.Edit.Splice
import CodeMend.Engine.Analysis
import CodeMend.Engine.Fixes
import CodeMend.Engine.Probe
import CodeMend.Engine.Registry
import CodeMend.Engine.Rule
import CodeMend.Failure
import CodeMend.Files.FileTree
import CodeMend.Files.Path
import CodeMend.Fix.Action
import CodeMend.Options
import CodeMend.Pool
import CodeMend.Proofs.Edit.Batch
import CodeMend.Proofs.Edit.Blanks
import CodeMend.Proofs.Edit.Columns
import CodeMend.Proofs.Edit.Denting
import CodeMend.Proofs.Edit.Grafting
import CodeMend.Proofs.Edit.Growth
import CodeMend.Proofs.Edit.Holes
import CodeMend.Proofs.Edit.Idempotence
import CodeMend.Proofs.Edit.Merging
import CodeMend.Proofs.Edit.NewLine
import CodeMend.Proofs.Edit.Orphans
import CodeMend.Proofs.Edit.Reindenting
import CodeMend.Proofs.Edit.Removing
import CodeMend.Proofs.Edit.Renaming
import CodeMend.Proofs.Edit.Replacing
import CodeMend.Proofs.Edit.Respacing
import CodeMend.Proofs.Edit.Statements
import CodeMend.Proofs.Edit.Stitching
import CodeMend.Proofs.Edit.Tracking
import CodeMend.Proofs.Engine.Enrolment
import CodeMend.Proofs.Engine.Isolation
import CodeMend.Proofs.Engine.Runs
import CodeMend.Proofs.Lexer.Breaks
import CodeMend.Proofs.Lexer.Bytes
import CodeMend.Proofs.Lexer.Characters
import CodeMend.Proofs.Lexer.Cutting
import CodeMend.Proofs.Lexer.LineStarts
import CodeMend.Proofs.Lexer.Locality
import CodeMend.Proofs.Lexer.Rereading
import CodeMend.Proofs.Lexer.Seams
import CodeMend.Proofs.Lexer.Spelling
import CodeMend.Proofs.Lexer.Tiling
import CodeMend.Proofs.Parser.Accesses
import CodeMend.Proofs.Parser.Binding
import CodeMend.Proofs.Parser.Blocks
import CodeMend.Proofs.Parser.Building
import CodeMend.Proofs.Parser.Congruence
import CodeMend.Proofs.Parser.Declarations
import CodeMend.Proofs.Parser.Depth
import CodeMend.Proofs.Parser.Endings
import CodeMend.Proofs.Parser.EnumMembers
import CodeMend.Proofs.Parser.Enumerations
import CodeMend.Proofs.Parser.Expression
import CodeMend.Proofs.Parser.Foresight
import CodeMend.Proofs.Parser.Grammar
import CodeMend.Proofs.Parser.Insensitive
import CodeMend.Proofs.Parser.Lookahead
import CodeMend.Proofs.Parser.Lossless
import CodeMend.Proofs.Parser.MemberNames
import CodeMend.Proofs.Parser.Nesting
import CodeMend.Proofs.Parser.Numerals
import CodeMend.Proofs.Parser.Orderly
import CodeMend.Proofs.Parser.Phrases
import CodeMend.Proofs.Parser.Rebuilding
import CodeMend.Proofs.Parser.Shape
import CodeMend.Proofs.Parser.Snippets
import CodeMend.Proofs.Parser.Standing
import CodeMend.Proofs.Rules.BlankLine
import CodeMend.Proofs.Rules.Demands
import CodeMend.Proofs.Rules.DuplicateValue
import CodeMend.Proofs.Rules.FreeValue
import CodeMend.Proofs.Rules.LineRules
import CodeMend.Proofs.Rules.MemberChoice
import CodeMend.Proofs.Rules.MemberPlacing
import CodeMend.Proofs.Rules.NewEnumMember
import CodeMend.Proofs.Rules.SectionSpacing
import CodeMend.Proofs.Rules.Spacing
import CodeMend.Proofs.Rules.SwitchBraces
import CodeMend.Proofs.Semantic.Folding
import CodeMend.Proofs.Semantic.Literals
import CodeMend.Proofs.Semantic.Lookup
import CodeMend.Proofs.Semantic.Operators
import CodeMend.Proofs.Syntax.Covering
import CodeMend.Proofs.Syntax.Ranks
import CodeMend.Proofs.Syntax.Sites
import CodeMend.Proofs.Text.Positions
import CodeMend.Proofs.Trivia.Cuts
import CodeMend.Proofs.Trivia.Finding
import CodeMend.Proofs.Trivia.Gaps
import CodeMend.Proofs.Trivia.Leading
import CodeMend.Proofs.Trivia.Lines
import CodeMend.Proofs.Trivia.Nesting
import CodeMend.Proofs.Trivia.Ownership
import CodeMend.Proofs.Trivia.Pairing
import CodeMend.Proofs.Trivia.Placement
import CodeMend.Proofs.Trivia.Spans
import CodeMend.Proofs.Trivia.Tight
import CodeMend.Proofs.Trivia.Walks
import CodeMend.Rules.BlankLine
import CodeMend.Rules.BooleanComparison
import CodeMend.Rules.Builtin
import CodeMend.Rules.DuplicateValue
import CodeMend.Rules.NewEnumMember
import CodeMend.Rules.NullCheck
import CodeMend.Rules.RedundantConstructor
import CodeMend.Rules.SectionSpacing
import CodeMend.Rules.SwitchBraces
import CodeMend.Semantic.Catalog
import CodeMend.Semantic.Constant
import CodeMend.Semantic.Declared
import CodeMend.Semantic.Fold
import CodeMend.Semantic.Lookup
import CodeMend.Semantic.Model
import CodeMend.Semantic.Scope
import CodeMend.Semantic.Symbol
import CodeMend.Session
import CodeMend.Syntax.Bytes
import CodeMend.Syntax.Document
import CodeMend.Syntax.Dump
import CodeMend.Syntax.Kind
import CodeMend.Syntax.Lexer
import CodeMend.Syntax.Locate
import CodeMend.Syntax.Outline
import CodeMend.Syntax.Parse.Grammar
import CodeMend.Syntax.Parse.Lookahead
import CodeMend.Syntax.Parse.Step
import CodeMend.Syntax.Parts
import CodeMend.Syntax.Site
import CodeMend.Syntax.Snippet
import CodeMend.Syntax.Token
import CodeMend.Syntax.Tree
import CodeMend.Text.Ascii
import CodeMend.Text.Blank
import CodeMend.Text.Hidden
import CodeMend.Text.Letter
import CodeMend.Text.LineIndex
import CodeMend.Text.Name
import CodeMend.Text.Order
import CodeMend.Text.Quoted
import CodeMend.Text.Ranges
import CodeMend.Text.Replace
import CodeMend.Text.Span
import CodeMend.Trivia.Directive
import CodeMend.Trivia.Gap
import CodeMend.Trivia.Ownership
import CodeMend.Workspace
