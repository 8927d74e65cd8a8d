import Mathlib.Data.List.Forall2
import Timeline.Expression.Resolution
import Timeline.Proofs.Result

/-! # Sites

A site says where in a text a part of its program stands: it numbers the operands on the way there
from the whole text, the last one first. Parentheses are no step, and the callee of a control call
is no operand. What stands at a site of a program was resolved from what stands there in the text,
inside the parameters of exactly the arrows around it. -/
namespace Timeline

namespace Tree

/-- The parts of a tree that are evaluated. -/
def operands : Tree → List Tree
  | group inner => inner.operands
  | member object _ => [object]
  | index object key => [object, key]
  | call _ arguments _ => arguments
  | unary _ operand => [operand]
  | operation _ left right => [left, right]
  | conditional test yes no => [test, yes, no]
  | arrow _ body => [body]
  | number _ | text _ | keyword _ | name _ _ => []

/-- The parameter that a tree binds. -/
def param? : Tree → Option String
  | group inner => inner.param?
  | arrow param _ => some (String.ofList param)
  | _ => none

/-- The name that a tree is. -/
def name? : Tree → Option String
  | group inner => inner.name?
  | name letters _ => some (String.ofList letters)
  | _ => none

def at? (tree : Tree) : List Nat → Option Tree
  | [] => some tree
  | n :: site => (tree.at? site).bind (·.operands[n]?)

/-- The parameters of the arrows around a site, the outermost one first. -/
def around (tree : Tree) : List Nat → List String
  | [] => []
  | _ :: site => tree.around site ++ ((tree.at? site).bind param?).toList

end Tree

namespace Expr

def operands : Expr → List Expr
  | member object _ => [object]
  | index object key => [object, key]
  | unary _ operand => [operand]
  | binary _ left right | logical _ left right => [left, right]
  | conditional test yes no => [test, yes, no]
  | arrow _ body => [body]
  | controlOn _ value => [value]
  | controlWhen _ value check => [value, check]
  | number _ | text _ | bool _ | null | undefined | input _ | param _ | control _ => []

def param? : Expr → Option String
  | arrow name _ => some name
  | _ => none

/-- A parameter that is read is a name in the text that one of the arrows around it binds; an input
is one of the bindings. -/
def ReadsBound (bindings : Bindings) (params : List String) (tree : Tree) : Expr → Prop
  | param name => tree.name? = some name ∧ name ∈ params
  | input i => ∃ name, bindings.input? name = some i
  | _ => True

end Expr

namespace Tree
open Except

variable {bindings : Bindings} {params : List String} {e : Expr} {es : List Expr}

lemma operands_toExpr (op : Operator) (left right : Expr) :
    (op.toExpr left right).operands = [left, right] := by
  cases op <;> rfl

lemma operands_keyword (k : Keyword) : k.toExpr.operands = [] := by
  cases k <;> rfl

lemma resolveName_cases {name : String} {span : Span}
    (h : resolveName bindings params name span = .ok e) :
    name ∈ params ∧ e = .param name ∨ (∃ i, bindings.input? name = some i ∧ e = .input i) ∨
      ∃ x, e = .number x := by
  unfold resolveName at h
  split at h
  · next hmem =>
    cases h
    exact .inl ⟨List.contains_iff_mem.1 hmem, rfl⟩
  · split at h
    · next i hi =>
      cases h
      exact .inr (.inl ⟨i, hi, rfl⟩)
    · split_ifs at h <;> cases h <;> exact .inr (.inr ⟨_, rfl⟩)

lemma operands_of_controlCall {f : ControlFn} {span : Span}
    (h : controlCall f span es = .ok e) : e.operands = es := by
  unfold controlCall at h
  split at h <;> cases h <;> rfl

lemma forall₂_of_resolveAll {trees : List Tree} (h : resolveAll bindings params trees = .ok es) :
    List.Forall₂ (fun tree e => resolve bindings params tree = .ok e) trees es := by
  induction trees generalizing es with
  | nil =>
    cases h
    exact .nil
  | cons tree trees ih =>
    obtain ⟨first, hfirst, h⟩ := bind_eq_ok_iff.1 h
    obtain ⟨others, hothers, ⟨⟩⟩ := bind_eq_ok_iff.1 h
    exact .cons hfirst (ih hothers)

/-- The operands of what a tree resolves to are what its operands resolve to, inside the parameter
that the tree binds. -/
theorem forall₂_operands_of_resolve (tree : Tree) (h : resolve bindings params tree = .ok e) :
    List.Forall₂ (fun operand e => resolve bindings (tree.param?.toList ++ params) operand = .ok e)
      tree.operands e.operands := by
  cases tree with
  | number literal =>
    cases h
    exact .nil
  | text body =>
    cases h
    exact .nil
  | keyword k =>
    cases h
    rw [operands_keyword]
    exact .nil
  | name letters span =>
    rcases resolveName_cases h with ⟨-, rfl⟩ | ⟨i, -, rfl⟩ | ⟨x, rfl⟩ <;> exact .nil
  | group inner =>
    rw [resolve] at h
    exact forall₂_operands_of_resolve inner h
  | member object key =>
    obtain ⟨object', hobject, ⟨⟩⟩ := bind_eq_ok_iff.1 h
    exact .cons hobject .nil
  | index object key =>
    obtain ⟨object', hobject, h⟩ := bind_eq_ok_iff.1 h
    obtain ⟨key', hkey, ⟨⟩⟩ := bind_eq_ok_iff.1 h
    exact .cons hobject (.cons hkey .nil)
  | call callee arguments span =>
    rw [resolve] at h
    split at h
    · obtain ⟨es, hes, h⟩ := bind_eq_ok_iff.1 h
      rw [operands_of_controlCall h]
      exact forall₂_of_resolveAll hes
    · obtain ⟨_, -, h⟩ := bind_eq_ok_iff.1 h
      cases h
  | unary op operand =>
    obtain ⟨operand', hoperand, ⟨⟩⟩ := bind_eq_ok_iff.1 h
    exact .cons hoperand .nil
  | operation op left right =>
    obtain ⟨left', hleft, h⟩ := bind_eq_ok_iff.1 h
    obtain ⟨right', hright, ⟨⟩⟩ := bind_eq_ok_iff.1 h
    rw [operands_toExpr]
    exact .cons hleft (.cons hright .nil)
  | conditional test yes no =>
    obtain ⟨test', htest, h⟩ := bind_eq_ok_iff.1 h
    obtain ⟨yes', hyes, h⟩ := bind_eq_ok_iff.1 h
    obtain ⟨no', hno, ⟨⟩⟩ := bind_eq_ok_iff.1 h
    exact .cons htest (.cons hyes (.cons hno .nil))
  | arrow param body =>
    obtain ⟨body', hbody, ⟨⟩⟩ := bind_eq_ok_iff.1 h
    exact .cons hbody .nil

/-- A tree resolves to an arrow if it is one, and to a parameter or an input only if it is bound. -/
theorem head_of_resolve (tree : Tree) (h : resolve bindings params tree = .ok e) :
    e.param? = tree.param? ∧ e.ReadsBound bindings params tree := by
  cases tree with
  | number literal =>
    cases h
    exact ⟨rfl, trivial⟩
  | text body =>
    cases h
    exact ⟨rfl, trivial⟩
  | keyword k =>
    cases h
    cases k <;> exact ⟨rfl, trivial⟩
  | name letters span =>
    rcases resolveName_cases h with ⟨hmem, rfl⟩ | ⟨i, hi, rfl⟩ | ⟨x, rfl⟩
    · exact ⟨rfl, rfl, hmem⟩
    · exact ⟨rfl, _, hi⟩
    · exact ⟨rfl, trivial⟩
  | group inner =>
    rw [resolve] at h
    obtain ⟨hparam, hreads⟩ := head_of_resolve inner h
    refine ⟨hparam, ?_⟩
    cases e <;> exact hreads
  | member object key =>
    obtain ⟨object', -, ⟨⟩⟩ := bind_eq_ok_iff.1 h
    exact ⟨rfl, trivial⟩
  | index object key =>
    obtain ⟨object', -, h⟩ := bind_eq_ok_iff.1 h
    obtain ⟨key', -, ⟨⟩⟩ := bind_eq_ok_iff.1 h
    exact ⟨rfl, trivial⟩
  | call callee arguments span =>
    rw [resolve] at h
    split at h
    · obtain ⟨es, -, h⟩ := bind_eq_ok_iff.1 h
      unfold controlCall at h
      split at h <;> cases h <;> exact ⟨rfl, trivial⟩
    · obtain ⟨_, -, h⟩ := bind_eq_ok_iff.1 h
      cases h
  | unary op operand =>
    obtain ⟨operand', -, ⟨⟩⟩ := bind_eq_ok_iff.1 h
    exact ⟨rfl, trivial⟩
  | operation op left right =>
    obtain ⟨left', -, h⟩ := bind_eq_ok_iff.1 h
    obtain ⟨right', -, ⟨⟩⟩ := bind_eq_ok_iff.1 h
    cases op <;> exact ⟨rfl, trivial⟩
  | conditional test yes no =>
    obtain ⟨test', -, h⟩ := bind_eq_ok_iff.1 h
    obtain ⟨yes', -, h⟩ := bind_eq_ok_iff.1 h
    obtain ⟨no', -, ⟨⟩⟩ := bind_eq_ok_iff.1 h
    exact ⟨rfl, trivial⟩
  | arrow param body =>
    obtain ⟨body', -, ⟨⟩⟩ := bind_eq_ok_iff.1 h
    exact ⟨rfl, trivial⟩

/-- Does an expression stand at a site of a text? -/
def Stands (bindings : Bindings) (tree : Tree) (site : List Nat) (e : Expr) : Prop :=
  ∃ part, tree.at? site = some part ∧
    resolve bindings (tree.around site).reverse part = .ok e

variable {tree : Tree} {site : List Nat} {name : String}

lemma stands_of_resolve (h : resolve bindings [] tree = .ok e) : Stands bindings tree [] e :=
  ⟨tree, rfl, h⟩

namespace Stands

lemma around_operand (h : Stands bindings tree site e) (n : Nat) :
    tree.around (n :: site) = tree.around site ++ e.param?.toList := by
  obtain ⟨part, hpart, hresolve⟩ := h
  rw [around, hpart, (head_of_resolve part hresolve).1, Option.bind_some]

lemma operand (h : Stands bindings tree site e) {n : Nat} {e' : Expr}
    (he' : e.operands[n]? = some e') : Stands bindings tree (n :: site) e' := by
  have haround := h.around_operand n
  obtain ⟨part, hpart, hresolve⟩ := h
  have hoperands := forall₂_operands_of_resolve part hresolve
  obtain ⟨hn, rfl⟩ := List.getElem?_eq_some_iff.1 he'
  have hn' : n < part.operands.length := by rwa [hoperands.length_eq]
  refine ⟨part.operands[n], ?_, ?_⟩
  · rw [at?, hpart, Option.bind_some, List.getElem?_eq_getElem hn']
  · have hbound : (tree.around (n :: site)).reverse =
        part.param?.toList ++ (tree.around site).reverse := by
      rw [haround, (head_of_resolve part hresolve).1, List.reverse_append]
      cases part.param? <;> rfl
    rw [hbound]
    exact hoperands.get hn' hn

lemma param (h : Stands bindings tree site (.param name)) :
    (tree.at? site).bind name? = some name ∧ name ∈ tree.around site := by
  obtain ⟨part, hpart, hresolve⟩ := h
  obtain ⟨-, hname, hmem⟩ := head_of_resolve part hresolve
  rw [hpart, Option.bind_some]
  exact ⟨hname, List.mem_reverse.1 hmem⟩

lemma input {i : Input} (h : Stands bindings tree site (.input i)) :
    ∃ name, bindings.input? name = some i := by
  obtain ⟨part, -, hresolve⟩ := h
  exact (head_of_resolve part hresolve).2

end Stands

end Tree

end Timeline
