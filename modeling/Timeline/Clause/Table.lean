import Timeline.Clause.Evaluation

/-! # Tables of attributes

Every distinct attribute text of a template is compiled once. Its id is the number of distinct texts
registered before it. -/
namespace Timeline

/-- The clauses of each id, and the ids that were given out to texts, the last one first. -/
structure ExpressionTable where
  lists : List ClauseList
  ids : List (String × Nat)
  deriving Repr

namespace ExpressionTable

def empty : ExpressionTable := ⟨[], []⟩

def size (t : ExpressionTable) : Nat := t.lists.length

def isEmpty (t : ExpressionTable) : Bool := t.lists.isEmpty

def idOf? (t : ExpressionTable) (text : String) : Option Nat := t.ids.lookup text

def register (t : ExpressionTable) (text : String) : Nat × ExpressionTable :=
  match t.idOf? text with
  | some id => (id, t)
  | none => (t.size, ⟨t.lists ++ [ClauseList.compile text], (text, t.size) :: t.ids⟩)

def get? (t : ExpressionTable) (id : Nat) : Option ClauseList := t.lists[id]?

/-- Runs the clauses of the text with an id; nothing for an id that was not given out. -/
def evaluate? (depth : Nat) (scope : Scope) (t : ExpressionTable) (id : Nat) :
    Option (Option Evaluation) :=
  (t.get? id).map (ClauseList.evaluate depth scope)

/-- The errors of all texts with their ids, in the order of the ids. -/
def diagnostics (t : ExpressionTable) : List (Nat × CompileError) :=
  t.lists.zipIdx.flatMap fun (list, id) => list.diagnostics.map (id, ·)

end ExpressionTable

end Timeline
