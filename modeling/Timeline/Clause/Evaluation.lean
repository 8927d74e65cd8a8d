import Timeline.Clause.Basic
import Timeline.Evaluation

/-! # Evaluation of clauses

The clauses of a list run in order against a node. What is done to the node is the list of its
calls; a clause that fails leaves a fault and the next one runs; a stop ends the list. -/
namespace Timeline

/-- A call that a setter makes on the node. -/
inductive NodeCall
  | setAttribute (key : String) (value : Value)
  | setStyle (property : String) (value : Value)
  | setText (value : Value)
  | remove

/-- An error of evaluation, and the text of the clause it arose in. -/
structure Fault where
  source : String
  error : EvalError
  deriving DecidableEq, Repr

namespace Fault

def message (f : Fault) : String := "dynamic expression failed: " ++ f.source

def code : String := "roadmap::eval::fault"

end Fault

namespace Setter

def calls : Setter → Value → List NodeCall
  | attr key, v => [.setAttribute key v]
  | style property, v => [.setStyle property v]
  | text, v => [.setText v]
  | visible, v => if v.isTruthy then [] else [.remove]
  | stop _, _ => []

def raised? : Setter → Value → Option Stop
  | stop s, v => if v.isTruthy then some s else none
  | _, _ => none

end Setter

/-- What a run of clauses does: its calls in order, its faults, and the stop that ended it. -/
structure Evaluation where
  calls : List NodeCall
  faults : List Fault
  stop? : Option Stop

/-- Where a caller asks whether to stop: between clauses, or between nodes of the render pass. -/
inductive Boundary
  | clauseList
  | renderPass
  deriving DecidableEq, Repr

namespace Evaluation

def empty : Evaluation := ⟨[], [], none⟩

/-- What is done before a run whose effects are `later`. -/
def before (calls : List NodeCall) (faults : List Fault) (later : Evaluation) : Evaluation :=
  ⟨calls ++ later.calls, faults ++ later.faults, later.stop?⟩

/-- A stop of the pass also stops the list. -/
def stopsAt (e : Evaluation) (boundary : Boundary) : Bool :=
  match e.stop? with
  | some .pass => true
  | some .list => boundary == .clauseList
  | none => false

def isClean (e : Evaluation) : Bool := e.faults.isEmpty

end Evaluation

/-- What one clause does: nothing, a fault, or calls with perhaps a stop. -/
inductive Effect
  | skip
  | fault (f : Fault)
  | write (calls : List NodeCall) (stop? : Option Stop)

namespace Clause

/-- Runs the program of a clause; an inert one gives `undefined`. -/
def run (depth : Nat) (scope : Scope) (c : Clause) : Option (Except EvalError Outcome) :=
  match c.program with
  | some e => e.run depth scope
  | none => some (.ok (.value .undefined))

/-- What the outcome of its program makes a clause do. A stop that the setter raises goes before one
that the program signals. -/
def effectOf (c : Clause) : Except EvalError Outcome → Effect
  | .error e => .fault ⟨c.source, e⟩
  | .ok outcome =>
    match outcome.value? with
    | none => .skip
    | some v =>
      match c.setter? with
      | some setter => .write (setter.calls v) ((setter.raised? v).or outcome.stop?)
      | none => .write [] outcome.stop?

def effect (depth : Nat) (scope : Scope) (c : Clause) : Option Effect :=
  (c.run depth scope).map c.effectOf

/-- Runs clauses in order. -/
def evaluate (depth : Nat) (scope : Scope) : List Clause → Option Evaluation
  | [] => some .empty
  | c :: cs => do
    match ← c.effect depth scope with
    | .skip => evaluate depth scope cs
    | .fault f => (evaluate depth scope cs).map (.before [] [f])
    | .write calls none => (evaluate depth scope cs).map (.before calls [])
    | .write calls (some s) => some ⟨calls, [], some s⟩

end Clause

namespace ClauseList

def evaluate (depth : Nat) (scope : Scope) (list : ClauseList) : Option Evaluation :=
  Clause.evaluate depth scope list.clauses

end ClauseList

end Timeline
