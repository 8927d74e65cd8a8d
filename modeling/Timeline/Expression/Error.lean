import Timeline.Expression.Expected
import Timeline.Expression.Tree

/-! # Errors of compilation

Why an expression is rejected, and what is said about it. -/
namespace Timeline

/-- The causes, of which an unreadable number is none: a number literal always has a value
(`Number.Decimal.exists_read?_of_isNumeral`). -/
inductive CompileError
  | malformed (expected : Expected)
  | unknownName (name : String) (bindings : Bindings) (span : Span)
  | unsupportedCall (span : Span)
  | invalidControlUse (span : Span)
  | tooManyArguments (f : ControlFn) (count : Nat) (span : Span)
  deriving DecidableEq, Repr

namespace CompileError

def message : CompileError → String
  | malformed _ => "invalid expression syntax"
  | unknownName name _ _ => "unknown identifier: " ++ name
  | unsupportedCall _ => "unsupported call"
  | invalidControlUse _ => "`$` can only be used to call break, exit or drop"
  | tooManyArguments f count _ =>
    "`$." ++ f.name ++ "` takes at most 2 arguments, got " ++ Nat.repr count

def code : CompileError → String
  | malformed _ => "roadmap::compile::syntax"
  | unknownName .. => "roadmap::compile::unknown_identifier"
  | unsupportedCall _ => "roadmap::compile::unsupported_call"
  | invalidControlUse _ => "roadmap::compile::invalid_control_use"
  | tooManyArguments .. => "roadmap::compile::too_many_arguments"

def help? : CompileError → Option String
  | unknownName _ .template _ =>
    some "expressions can read `project`, `item`, `layout` and call `$`"
  | unknownName _ .primeDate _ => some "prime date maps can read `year`, `month` and `day`"
  | unsupportedCall _ => some "only `$.break`, `$.exit` and `$.drop` can be called"
  | _ => none

/-- Where the error is; reading stops before a character, so that range is empty. -/
def span : CompileError → Span
  | malformed expected => ⟨expected.offset, 0⟩
  | unknownName _ _ span => span
  | unsupportedCall span => span
  | invalidControlUse span => span
  | tooManyArguments _ _ span => span

def label : CompileError → String
  | malformed expected => expected.label
  | unknownName .. => "not bound"
  | unsupportedCall _ => "not callable"
  | invalidControlUse _ => "here"
  | tooManyArguments .. => "this call"

end CompileError

end Timeline
