import CodeMend.Proofs.Rules.BlankLine
import CodeMend.Proofs.Rules.SectionSpacing

/-!
# The rules about blank lines

Both built-in rules about blank lines are sound rules about lines and the only ones with their ids,
so mending all their reports at once converges (`Rules.spacing_converges`).
-/

namespace CodeMend

open Tree Site

namespace Rules

/-- **Style fixes converge in one pass.**  On a text without errors, mending all reports of one of
the rules about blank lines skips none, whatever the options are that switch the rule on, and all
tokens but white space and line breaks stay: comments and directives among them.  On the new text
that rule has nothing to report.  The rule about sections may add lines; the texts that the gathered
edits lead to must then be such that offsets reach all of them. -/
theorem spacing_converges (version stamp : Nat) (text : String) (options : Options)
    (cancel : Cancellation) (herr : (parse text).2 = []) (hcancel : cancel.requested = false) :
    ∀ rule ∈ [SectionSpacing.descriptor, BlankLine.descriptor], options.isEnabled rule = true →
      (rule = SectionSpacing.descriptor → ∀ all p,
        builtin.batch (.ofText version text) rule.id ⟨rule.id⟩ options cancel = .ok all →
        all.patch? = some p → p.Fits (.ofText version text)) →
      ∃ f, builtin.fixAll (.ofText version text) rule.id ⟨rule.id⟩ options cancel stamp = .ok f ∧
        f.skipped = 0 ∧
        f.document.tree.tokens = (parse f.document.text).1.tokens ∧
        f.document.tree.tokens.filter isKept = (parse text).1.tokens.filter isKept ∧
        ∀ version', ∃ report,
          builtin.analyze (.ofText version' f.document.text) options cancel = .ok report ∧
          ∀ d ∈ report.diagnostics, d.id ≠ rule.id := by
  intro rule hrule hon hfits
  rcases List.mem_cons.1 hrule with rfl | hrule
  · have hrules : builtin.analyzers = builtin.analyzers.take 5 ++
        SectionSpacing.lineRule.analyzer :: builtin.analyzers.drop 6 := rfl
    exact SectionSpacing.sound.converges hrules builtin_calm (by decide)
      (fun d hd => by rw [Registry.dispatch, hd]; rfl) herr hon hcancel (Or.inr (hfits rfl)) stamp
  · obtain rfl := List.mem_singleton.1 hrule
    have hrules : builtin.analyzers =
        builtin.analyzers.take 6 ++ BlankLine.lineRule.analyzer :: [] := rfl
    exact BlankLine.sound.converges hrules builtin_calm (by decide)
      (fun d hd => by rw [Registry.dispatch, hd]; rfl) herr hon hcancel
      (Or.inl fun s d hd => @BlankLine.snd_of_mem_own options s d hd) stamp

/-- Two sections of a switch, between which a blank line is missing. -/
theorem spacing_converges_switch :
    let text :=
      "class C \x7b void M() \x7b switch (a) \x7b\ncase 1: break;\ncase 2: break;\n\x7d \x7d \x7d"
    let options : Options := { config := { rules := some [("RCS0061", .warn)] } }
    let document := Document.ofText 1 text
    ((builtin.analyze document options {}).toOption.map (·.diagnostics.map Diagnostic.id)) =
        some ["RCS0061"] ∧
      (∀ all p, builtin.batch document "RCS0061" ⟨"RCS0061"⟩ options {} = .ok all →
        all.patch? = some p → p.Fits document) ∧
      ∃ f, builtin.fixAll document "RCS0061" ⟨"RCS0061"⟩ options {} 2 = .ok f ∧ f.skipped = 0 := by
  intro text options document
  have herr : (parse text).2 = [] := by decide +kernel
  have hfits : ∀ all p, builtin.batch document "RCS0061" ⟨"RCS0061"⟩ options {} = .ok all →
      all.patch? = some p → p.Fits document := by
    intro all p hall hp
    have hone : ((builtin.batch document "RCS0061" ⟨"RCS0061"⟩ options {}).toOption.bind
        Batch.patch?).all (fun p => (Patch.sort p.splices).tails.all fun ss =>
          (document.length : Int) + Patch.totalGrowth ss ≤ Patch.maxOffset) = true := by
      decide +kernel
    rw [hall] at hone
    simpa [Except.toOption, hp, Patch.Fits] using hone
  obtain ⟨f, hf, hskipped, -⟩ := spacing_converges 1 2 text options {} herr rfl
    SectionSpacing.descriptor (by simp) (by decide) fun _ => hfits
  exact ⟨by decide +kernel, hfits, f, hf, hskipped⟩

end Rules

end CodeMend
