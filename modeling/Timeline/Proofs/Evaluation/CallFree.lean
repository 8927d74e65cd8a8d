import Mathlib.Tactic.Common
import Timeline.Proofs.Evaluation.Rank
import Timeline.Proofs.Expression.Sites

/-! # Evaluation without calls

Control calls are the only parts of an expression that call arrows, drop a clause or stop it, and
they can only be written where the bindings allow them. An expression over a date without control
calls gives the same plain value or the same error whatever a call would give, since arrows are made
but never called. -/
namespace Timeline

namespace Expr

/-- The parts of an expression at any depth, also inside its arrows. -/
inductive HasPart (e : Expr) : Expr → Prop
  | refl : HasPart e e
  | operand {part operand} (h : HasPart e part) (hoperand : operand ∈ part.operands) :
    HasPart e operand

def isControl : Expr → Bool
  | control _ | controlOn .. | controlWhen .. => true
  | _ => false

def FreeOfControl (e : Expr) : Prop := ∀ part, e.HasPart part → part.isControl = false

variable {e e' part : Expr}

lemma HasPart.trans (h : e.HasPart e') (h' : e'.HasPart part) : e.HasPart part := by
  induction h' with
  | refl => exact h
  | operand _ hpart ih => exact .operand ih hpart

namespace FreeOfControl

lemma hasPart (h : e.FreeOfControl) (hpart : e.HasPart part) : part.FreeOfControl :=
  fun _ hinner => h _ (hpart.trans hinner)

lemma operand (h : e.FreeOfControl) (he' : e' ∈ e.operands) : e'.FreeOfControl :=
  h.hasPart (.operand .refl he')

end FreeOfControl

end Expr

namespace Tree
open Except

lemma isControl_toExpr (op : Operator) (left right : Expr) :
    (op.toExpr left right).isControl = false := by
  cases op <;> rfl

lemma controlFn?_eq_none {bindings : Bindings} (h : bindings.allowsControl = false)
    (params : List String) (callee : Tree) : controlFn? bindings params callee = none := by
  unfold controlFn?
  split
  · simp [h]
  · rfl

/-- Without the control functions nothing resolves to a control call, whatever the parameters. -/
theorem isControl_of_resolve {bindings : Bindings} (hbindings : bindings.allowsControl = false)
    {params : List String} {e : Expr} (tree : Tree) (h : resolve bindings params tree = .ok e) :
    e.isControl = false := by
  cases tree with
  | number literal =>
    cases h
    rfl
  | text body =>
    cases h
    rfl
  | keyword k =>
    cases h
    cases k <;> rfl
  | name letters span =>
    rcases resolveName_cases h with ⟨-, rfl⟩ | ⟨i, -, rfl⟩ | ⟨x, rfl⟩ <;> rfl
  | group inner =>
    rw [resolve] at h
    exact isControl_of_resolve hbindings inner h
  | member object key =>
    obtain ⟨object', -, ⟨⟩⟩ := bind_eq_ok_iff.1 h
    rfl
  | index object key =>
    obtain ⟨object', -, h⟩ := bind_eq_ok_iff.1 h
    obtain ⟨key', -, ⟨⟩⟩ := bind_eq_ok_iff.1 h
    rfl
  | call callee arguments span =>
    simp only [resolve, controlFn?_eq_none hbindings] at h
    obtain ⟨callee', -, h⟩ := bind_eq_ok_iff.1 h
    cases h
  | unary op operand =>
    obtain ⟨operand', -, ⟨⟩⟩ := bind_eq_ok_iff.1 h
    rfl
  | operation op left right =>
    obtain ⟨left', -, h⟩ := bind_eq_ok_iff.1 h
    obtain ⟨right', -, ⟨⟩⟩ := bind_eq_ok_iff.1 h
    exact isControl_toExpr op left' right'
  | conditional test yes no =>
    obtain ⟨test', -, h⟩ := bind_eq_ok_iff.1 h
    obtain ⟨yes', -, h⟩ := bind_eq_ok_iff.1 h
    obtain ⟨no', -, ⟨⟩⟩ := bind_eq_ok_iff.1 h
    rfl
  | arrow param body =>
    obtain ⟨body', -, ⟨⟩⟩ := bind_eq_ok_iff.1 h
    rfl

end Tree

namespace Expr

lemma exists_stands_of_compile {bindings : Bindings} {s : String} {e : Expr}
    (h : compile bindings s = .ok e) : ∃ tree : Tree, tree.Stands bindings [] e := by
  unfold compile at h
  split at h
  · next tree _ => exact ⟨tree, Tree.stands_of_resolve h⟩
  · cases h

/-- Every part of a program stands somewhere in its text. -/
lemma HasPart.exists_stands {bindings : Bindings} {tree : Tree} {e part : Expr}
    (h : e.HasPart part) (he : tree.Stands bindings [] e) :
    ∃ site, tree.Stands bindings site part := by
  induction h with
  | refl => exact ⟨[], he⟩
  | operand _ hoperand ih =>
    obtain ⟨site, hsite⟩ := ih
    obtain ⟨n, hn⟩ := List.mem_iff_getElem?.1 hoperand
    exact ⟨n :: site, hsite.operand hn⟩

variable {bindings : Bindings} {s : String} {e : Expr}

/-- The inputs of a program are those of its bindings. -/
theorem exists_input_of_hasPart (h : compile bindings s = .ok e) {i : Input}
    (hi : e.HasPart (.input i)) : ∃ name, bindings.input? name = some i := by
  obtain ⟨tree, he⟩ := exists_stands_of_compile h
  obtain ⟨site, hsite⟩ := hi.exists_stands he
  exact hsite.input

theorem freeOfControl_of_compile (h : compile bindings s = .ok e)
    (hbindings : bindings.allowsControl = false) : e.FreeOfControl := by
  intro part hpart
  obtain ⟨tree, he⟩ := exists_stands_of_compile h
  obtain ⟨site, part', -, hresolve⟩ := hpart.exists_stands he
  exact Tree.isControl_of_resolve hbindings part' hresolve

end Expr

mutual

/-- Is a value neither read from a document nor a stop, nor does its arrow know one? -/
def Value.Plain : Value → Prop
  | .undefined | .null | .bool _ | .number _ | .text _ => True
  | .data _ | .signal .. => False
  | .function _ _ _ captured => captured.Plain

def Env.Plain : Env → Prop
  | .empty => True
  | .bind outer _ value => outer.Plain ∧ value.Plain

end

namespace Value

lemma plain_textProperty (s key : String) : (textProperty s key).Plain := by
  unfold textProperty
  dsimp only
  split_ifs
  · trivial
  · split <;> trivial

lemma Plain.property {v w : Value} {key : String} (hv : v.Plain) (h : v.property key = .ok w) :
    w.Plain := by
  cases v with
  | undefined | null => cases h
  | bool | number | function =>
    cases h
    trivial
  | text s =>
    cases h
    exact plain_textProperty s key
  | data | signal => exact hv.elim

end Value

lemma Env.Plain.getD_lookup? {env : Env} (h : env.Plain) (name : String) :
    ((env.lookup? name).getD .undefined).Plain := by
  cases env with
  | empty => trivial
  | bind outer param value =>
    rw [Env.lookup?]
    split_ifs
    · exact h.2
    · exact getD_lookup? h.1 name

lemma Scope.plain_read_date (year : Int) (month day : Nat) (i : Input) :
    ((Scope.date year month day).read i).Plain := by
  cases i <;> trivial

lemma UnaryOp.plain_apply (op : UnaryOp) (v : Value) : (op.apply v).Plain := by
  cases op <;> trivial

lemma BinaryOp.plain_apply (op : BinaryOp) (l r : Value) : (op.apply l r).Plain := by
  cases op with
  | add =>
    simp only [BinaryOp.apply, Value.add]
    split_ifs <;> trivial
  | _ => trivial

/-- A computation gives one plain value or one error, whatever the calls of arrows give. -/
def CallFree (x : Call → Except Interrupt Value) : Prop :=
  ∃ result : Except EvalError Value, (∀ call, x call = result.mapError .error) ∧
    ∀ v, result = .ok v → v.Plain

namespace CallFree

lemma ok {v : Value} (h : v.Plain) : CallFree fun _ => .ok v := by
  refine ⟨.ok v, fun _ => rfl, ?_⟩
  rintro w ⟨⟩
  exact h

lemma bind {x : Call → Except Interrupt Value} {f : Call → Value → Except Interrupt Value}
    (hx : CallFree x) (hf : ∀ v, v.Plain → CallFree fun call => f call v) :
    CallFree fun call => x call >>= f call := by
  obtain ⟨result, hresult, hplain⟩ := hx
  cases result with
  | error e =>
    refine ⟨.error e, fun call => ?_, nofun⟩
    simp only [hresult]
    rfl
  | ok v =>
    obtain ⟨result', hresult', hplain'⟩ := hf v (hplain v rfl)
    refine ⟨result', fun call => ?_, hplain'⟩
    rw [← hresult' call]
    simp only [hresult]
    rfl

lemma property {v : Value} (hv : v.Plain) (key : String) :
    CallFree fun _ => (v.property key).mapError .error :=
  ⟨v.property key, fun _ => rfl, fun _ => hv.property⟩

end CallFree

namespace Expr

/-- Only control calls call an arrow, drop or stop. -/
theorem callFree_evalWith {e : Expr} (h : e.FreeOfControl) {env : Env} (henv : env.Plain)
    (year : Int) (month day : Nat) (site : List Nat) :
    CallFree fun call => evalWith call (.date year month day) env site e := by
  induction e generalizing site with
  | number | text | bool | null | undefined => exact .ok trivial
  | input i => exact .ok (Scope.plain_read_date year month day i)
  | param name => exact .ok (henv.getD_lookup? name)
  | member object key ih =>
    refine (ih (h.operand (by simp [operands])) _).bind fun object hobject => ?_
    exact .property hobject key
  | index object key ihObject ihKey =>
    refine (ihObject (h.operand (by simp [operands])) _).bind fun object hobject => ?_
    refine (ihKey (h.operand (by simp [operands])) _).bind fun key _ => ?_
    exact .property hobject key.toText
  | unary op operand ih =>
    exact (ih (h.operand (by simp [operands])) _).bind fun v _ => .ok (op.plain_apply v)
  | binary op left right ihLeft ihRight =>
    refine (ihLeft (h.operand (by simp [operands])) _).bind fun l _ => ?_
    refine (ihRight (h.operand (by simp [operands])) _).bind fun r _ => ?_
    exact .ok (op.plain_apply l r)
  | logical op left right ihLeft ihRight =>
    refine (ihLeft (h.operand (by simp [operands])) _).bind fun l hl => ?_
    cases op.takesRight l with
    | true => exact ihRight (h.operand (by simp [operands])) _
    | false => exact .ok hl
  | conditional test yes no ihTest ihYes ihNo =>
    refine (ihTest (h.operand (by simp [operands])) _).bind fun t _ => ?_
    cases t.isTruthy with
    | true => exact ihYes (h.operand (by simp [operands])) _
    | false => exact ihNo (h.operand (by simp [operands])) _
  | arrow param body => exact .ok henv
  | control | controlOn | controlWhen => exact absurd (h _ .refl) nofun

end Expr

end Timeline
