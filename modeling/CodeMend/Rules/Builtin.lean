import CodeMend.Engine.Fixes
import CodeMend.Rules.BlankLine
import CodeMend.Rules.BooleanComparison
import CodeMend.Rules.NewEnumMember
import CodeMend.Rules.NullCheck
import CodeMend.Rules.RedundantConstructor
import CodeMend.Rules.SectionSpacing
import CodeMend.Rules.SwitchBraces

/-!
# The built-in rules

All rules that come with the library, in the order in which they are listed.
-/

namespace CodeMend.Rules

/-- The registry of the built-in rules. -/
def builtin : Registry where
  analyzers :=
    [SwitchBraces.analyzer, RedundantConstructor.analyzer, NullCheck.analyzer,
      DuplicateValue.analyzer, BooleanComparison.analyzer, SectionSpacing.analyzer,
      BlankLine.analyzer]
  providers :=
    [SwitchBraces.provider, RedundantConstructor.provider, NullCheck.provider,
      DuplicateValue.provider, BooleanComparison.provider, SectionSpacing.provider,
      BlankLine.provider]
  refactorings := [NewEnumMember.refactoring]

end CodeMend.Rules
