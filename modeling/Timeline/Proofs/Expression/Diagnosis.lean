import Mathlib
import Timeline.Proofs.Expression.Numeral
import Timeline.Proofs.Expression.Violation

/-! # Diagnosis

A text compiles exactly if it can be read and has no violation. Otherwise what is reported is the
violation that is detected leftmost, with the bytes of its name or of the call from its opening to
its closing parenthesis. -/
namespace Timeline

namespace Leftmost

variable {α : Type} {vs : Nat → CompileError → Prop} {x : Except CompileError α}

lemma ok_iff (h : Leftmost vs x) : (∃ a, x = .ok a) ↔ ∀ place error, ¬ vs place error := by
  cases x with
  | ok a => exact ⟨fun _ => h, fun _ => ⟨a, rfl⟩⟩
  | error error =>
    obtain ⟨place, hplace, -⟩ := h
    exact ⟨nofun, fun hnone => absurd hplace (hnone place error)⟩

/-- No two violations are detected at one place, so the leftmost one has one error. -/
lemma error_iff (h : Leftmost vs x) (error : CompileError) :
    x = .error error ↔ ∃ place, vs place error ∧ ∀ place' error', vs place' error' →
      place' = place ∧ error' = error ∨ place < place' := by
  constructor
  · rintro rfl
    exact h
  · rintro ⟨place, hplace, hfirst⟩
    cases x with
    | ok a => exact absurd hplace (h place error)
    | error error' =>
      obtain ⟨place', hplace', hfirst'⟩ := h
      rcases hfirst place' error' hplace' with ⟨-, rfl⟩ | hlt
      · rfl
      · rcases hfirst' place error hplace with ⟨-, rfl⟩ | hlt'
        · rfl
        · omega

end Leftmost

namespace Tree

lemma exists_written_of_ofText? {s : String} {tree : Tree} (h : ofText? s = some tree) :
    ∃ ls, Lexeme.Laid 0 ls s.toList ∧ Written tree ls := by
  obtain ⟨ls, hls, htree⟩ := Option.bind_eq_some_iff.1 h
  exact ⟨ls, Lexeme.laid_of_scan? hls, written_of_ofTokens? htree⟩

lemma Violation.ne_malformed {bindings : Bindings} {params : List String} {tree : Tree}
    {place : Nat} {error : CompileError} (h : Violation bindings params tree place error)
    (expected : Expected) : error ≠ .malformed expected := by
  induction h with
  | here hoffence => cases hoffence <;> nofun
  | within _ _ ih => exact ih

end Tree

namespace Expr
open Timeline.Tree

/-- A text that cannot be read is malformed, and no other one is. A text that can be read is written
by tokens at their bytes, each number literal among them a decimal; it compiles if it has no
violation, and else gives the error of its leftmost one. -/
theorem compile_reports_leftmost (bindings : Bindings) (s : String) :
    (ofText? s = none → compile bindings s = .error (.malformed (Expected.ofText s))) ∧
    ∀ tree, ofText? s = some tree →
      (∃ ls, Lexeme.Laid 0 ls s.toList ∧ Written tree ls ∧ ∀ l ∈ ls, ∀ literal,
        l.token = .number literal → ∃ d, Number.Decimal.read? literal = some d) ∧
      (∀ expected, compile bindings s ≠ .error (.malformed expected)) ∧
      ((∃ e, compile bindings s = .ok e) ↔
        ∀ place error, ¬ Violation bindings [] tree place error) ∧
      ∀ error, compile bindings s = .error error ↔
        ∃ place, Violation bindings [] tree place error ∧
          ∀ place' error', Violation bindings [] tree place' error' →
            place' = place ∧ error' = error ∨ place < place' := by
  constructor
  · intro hnone
    rw [compile, hnone]
  · intro tree htree
    obtain ⟨ls, hlaid, hwritten⟩ := exists_written_of_ofText? htree
    have hleftmost : Leftmost (Violation bindings [] tree) (compile bindings s) := by
      rw [compile, htree]
      exact leftmost_resolve hwritten hlaid.ordered
    refine ⟨⟨ls, hlaid, hwritten, fun l hl literal hliteral => ?_⟩, fun expected hmalformed => ?_,
      hleftmost.ok_iff, hleftmost.error_iff⟩
    · have hformed : l.token.Formed := hlaid.formed l hl
      rw [hliteral] at hformed
      exact Number.Decimal.exists_read?_of_isNumeral hformed
    · obtain ⟨place, hviolation, -⟩ := (hleftmost.error_iff _).1 hmalformed
      exact hviolation.ne_malformed expected rfl

/-- Of three violations the call is reported, although its argument is not bound either. -/
theorem compile_reports_leftmost_call :
    compile .template "item.a(x) + $.drop(1, 2, 3)" = .error (.unsupportedCall ⟨6, 3⟩) ∧
    ∃ tree, ofText? "item.a(x) + $.drop(1, 2, 3)" = some tree ∧
      ∃ place, Violation .template [] tree place (.unsupportedCall ⟨6, 3⟩) ∧
        ∀ place' error', Violation .template [] tree place' error' →
          place' = place ∧ error' = .unsupportedCall ⟨6, 3⟩ ∨ place < place' := by
  have hcompile : compile .template "item.a(x) + $.drop(1, 2, 3)" =
      .error (.unsupportedCall ⟨6, 3⟩) := by cbv
  obtain ⟨tree, htree⟩ : ∃ tree, ofText? "item.a(x) + $.drop(1, 2, 3)" = some tree :=
    Option.isSome_iff_exists.1 (by cbv)
  obtain ⟨-, -, -, herror⟩ := (compile_reports_leftmost .template _).2 tree htree
  exact ⟨hcompile, tree, htree, (herror _).1 hcompile⟩

end Expr

end Timeline
