import Timeline.Calendar.Reader
import Timeline.Evaluation
import Timeline.Expression.Resolution
import Timeline.Scale.Error

/-! # Prime date maps

An expression over the year, month and day of a date that gives the moment a scale starts at: a text
is read as a time, a number counts milliseconds from the origin. -/
namespace Timeline

structure PrimeDateMap where
  source : String
  program : Expr
  deriving Repr

namespace PrimeDateMap

/-- Compiles the text of a map, without blank characters around it. -/
def compile (text : String) : Except CompileError PrimeDateMap := do
  let source := String.ofList (Text.trim text.toList)
  let program ← Expr.compile .primeDate source
  .ok ⟨source, program⟩

def momentOf? : Value → Option Moment
  | .text s => Moment.ofText? s
  | .number x =>
    match Number.Binary64.meaning x with
    | .finite exact => Moment.ofMillis? exact.truncate
    | _ => none
  | _ => none

/-- Maps a moment. No calls nest, since a map cannot call anything. -/
def map (p : PrimeDateMap) (m : Moment) : Except ScaleError Moment :=
  let result :=
    match p.program.run 0 (.date m.date.year m.date.month m.date.day) with
    | some result => result
    | none => .ok (.value .undefined)
  match result with
  | .error cause => .error (.primeDateMap p.source cause)
  | .ok outcome =>
    let value := outcome.value?.getD .undefined
    match momentOf? value with
    | some prime => .ok prime
    | none => .error (.invalidTime 0 value.toText)

end PrimeDateMap

end Timeline
