import Mathlib.Data.String.Basic
import Timeline.Evaluation
import Timeline.Proofs.Number.Order

/-! # Equality and order of values

`===` is symmetric and transitive and implies `==`, which is symmetric too, though its two sides are
converted by different rules. Each conversion leaves less data to convert, so that the rules come to
an end on every pair. The order of two values is reversed with them. -/
namespace Timeline

lemma DataNode.samePlace_iff {m n : DataNode} :
    m.samePlace n = true ↔ m.document = n.document ∧ m.path = n.path := by
  rw [samePlace, Bool.and_eq_true, beq_iff_eq, beq_iff_eq]

namespace Value

/-- The rules of `==`. -/
inductive EqualityRule
  | nullish
  | asNumbers
  | textOfLeft
  | textOfRight
  | identity
  deriving DecidableEq, Repr

namespace EqualityRule

def swap : EqualityRule → EqualityRule
  | textOfLeft => textOfRight
  | textOfRight => textOfLeft
  | rule => rule

/-- The first rule that takes two values. -/
def of (a b : Value) : EqualityRule :=
  if a.isNullish || b.isNullish then nullish
  else
    match a, b with
    | .bool _, _ | _, .bool _ | .number _, .text _ | .text _, .number _ => asNumbers
    | .data _, .number _ | .data _, .text _ => textOfLeft
    | .number _, .data _ | .text _, .data _ => textOfRight
    | _, _ => identity

lemma of_swap (a b : Value) : of b a = (of a b).swap := by
  cases a <;> cases b <;> rfl

end EqualityRule

/-- The result of `==` by its rules, of which two go on with the text of an operand in its place. -/
inductive Equates : Value → Value → Bool → Prop
  | nullish {a b : Value} (rule : EqualityRule.of a b = .nullish) :
      Equates a b (a.isNullish && b.isNullish)
  | asNumbers {a b : Value} (rule : EqualityRule.of a b = .asNumbers) :
      Equates a b (a.toNumber == b.toNumber)
  | textOfLeft {a b : Value} {r : Bool} (rule : EqualityRule.of a b = .textOfLeft)
      (again : Equates (text a.toText) b r) : Equates a b r
  | textOfRight {a b : Value} {r : Bool} (rule : EqualityRule.of a b = .textOfRight)
      (again : Equates a (text b.toText) r) : Equates a b r
  | identity {a b : Value} (rule : EqualityRule.of a b = .identity) :
      Equates a b (a.identical b)

/-- What the rules may still convert. -/
def dataCount : Value → Nat
  | data _ => 1
  | _ => 0

variable {a b c : Value} {r : Bool}

lemma dataCount_lt_of_textOfLeft (h : EqualityRule.of a b = .textOfLeft) (s : String) :
    (text s).dataCount < a.dataCount := by
  cases a with
  | data node => exact Nat.one_pos
  | undefined | null | bool | number | text | function | signal => cases b <;> cases h

lemma dataCount_lt_of_textOfRight (h : EqualityRule.of a b = .textOfRight) (s : String) :
    (text s).dataCount < b.dataCount := by
  cases b with
  | data node => exact Nat.one_pos
  | undefined | null | bool | number | text | function | signal => cases a <;> cases h

/-- The rules come to an end on every pair. -/
theorem exists_equates (a b : Value) : ∃ r, Equates a b r := by
  cases h : EqualityRule.of a b with
  | nullish => exact ⟨_, .nullish h⟩
  | asNumbers => exact ⟨_, .asNumbers h⟩
  | identity => exact ⟨_, .identity h⟩
  | textOfLeft =>
    have hless := dataCount_lt_of_textOfLeft h a.toText
    obtain ⟨r, again⟩ := exists_equates (text a.toText) b
    exact ⟨r, .textOfLeft h again⟩
  | textOfRight =>
    have hless := dataCount_lt_of_textOfRight h b.toText
    obtain ⟨r, again⟩ := exists_equates a (text b.toText)
    exact ⟨r, .textOfRight h again⟩
termination_by a.dataCount + b.dataCount
decreasing_by all_goals omega

/-- One step of `==`. The rules compare a number with a text in the order in which they stand. -/
lemma looselyEquals_eq (a b : Value) :
    a.looselyEquals b =
      match EqualityRule.of a b with
      | .nullish => a.isNullish && b.isNullish
      | .asNumbers => a.toNumber == b.toNumber
      | .textOfLeft => (text a.toText).looselyEquals b
      | .textOfRight => a.looselyEquals (text b.toText)
      | .identity => a.identical b := by
  cases a <;> cases b
  case number.data x node => exact Number.beq_comm _ _
  case text.data s node => exact BEq.comm
  all_goals rfl

lemma looselyEquals_of_equates (h : Equates a b r) : a.looselyEquals b = r := by
  induction h with
  | nullish rule | asNumbers rule | identity rule => rw [looselyEquals_eq, rule]
  | textOfLeft rule _ ih | textOfRight rule _ ih => rw [looselyEquals_eq, rule, ih]

theorem equates_iff : Equates a b r ↔ a.looselyEquals b = r := by
  refine ⟨looselyEquals_of_equates, ?_⟩
  rintro rfl
  obtain ⟨r, h⟩ := exists_equates a b
  rwa [looselyEquals_of_equates h]

lemma identical_comm (a b : Value) : a.identical b = b.identical a := by
  cases a <;> cases b
  case number.number x y => exact Number.beq_comm x y
  case data.data m n => exact congrArg₂ (· && ·) BEq.comm BEq.comm
  case bool.bool | text.text | function.function => exact BEq.comm
  all_goals rfl

/-- The rules for a pair taken the other way round are the rules for the pair with their sides
exchanged. -/
lemma Equates.symm (h : Equates a b r) : Equates b a r := by
  induction h with
  | @nullish a b rule =>
    rw [Bool.and_comm]
    exact .nullish (by rw [EqualityRule.of_swap, rule]; rfl)
  | @asNumbers a b rule =>
    rw [Number.beq_comm]
    exact .asNumbers (by rw [EqualityRule.of_swap, rule]; rfl)
  | textOfLeft rule _ ih => exact .textOfRight (by rw [EqualityRule.of_swap, rule]; rfl) ih
  | textOfRight rule _ ih => exact .textOfLeft (by rw [EqualityRule.of_swap, rule]; rfl) ih
  | @identity a b rule =>
    rw [identical_comm]
    exact .identity (by rw [EqualityRule.of_swap, rule]; rfl)

lemma looselyEquals_comm (a b : Value) : a.looselyEquals b = b.looselyEquals a :=
  (equates_iff.1 (equates_iff.2 rfl : Equates b a _).symm)

lemma identical_trans (hab : a.identical b = true) (hbc : b.identical c = true) :
    a.identical c = true := by
  revert hab
  fun_cases identical a b <;> intro hab
  case case1 | case2 => exact hbc
  case case3 p q | case5 p q =>
    obtain rfl : p = q := eq_of_beq hab
    exact hbc
  case case4 x y =>
    cases c with
    | number z => exact Number.beq_trans hab hbc
    | _ => cases hbc
  case case6 m n =>
    cases c with
    | data k =>
      obtain ⟨hdocument, hpath⟩ := DataNode.samePlace_iff.1 hab
      obtain ⟨hdocument', hpath'⟩ := DataNode.samePlace_iff.1 hbc
      exact DataNode.samePlace_iff.2 ⟨hdocument.trans hdocument', hpath.trans hpath'⟩
    | _ => cases hbc
  case case7 site param body captured site' param' body' captured' =>
    obtain rfl : site = site' := eq_of_beq hab
    cases c with
    | function => exact hbc
    | _ => cases hbc
  case case8 => cases hab

/-- Values that are the same are equal. For truth values this rests on `0 == 0` and `1 == 1`. -/
lemma looselyEquals_of_identical (h : a.identical b = true) : a.looselyEquals b = true := by
  revert h
  fun_cases identical a b <;> intro h
  case case1 | case2 => rfl
  case case3 p q =>
    obtain rfl : p = q := eq_of_beq h
    cases p
    case false => exact Number.zero_beq_zero
    case true => exact Number.one_beq_one
  case case4 | case5 | case6 | case7 => exact h
  case case8 => cases h

lemma looselyEquals_null_iff : a.looselyEquals null = true ↔ a = undefined ∨ a = null := by
  cases a <;> simp [looselyEquals, isNullish]

/-- The order of two values is reversed with them. -/
lemma compare_swap (a b : Value) : b.compare a = (a.compare b).map Ordering.swap := by
  unfold Value.compare
  rw [Bool.and_comm]
  split
  · exact congrArg some Std.OrientedCmp.eq_swap
  · exact Number.compareNumbers_swap _ _

lemma less_eq (a b : Value) : BinaryOp.less.apply a b = BinaryOp.greater.apply b a := by
  rw [BinaryOp.apply, BinaryOp.apply, compare_swap a b]
  cases a.compare b with
  | none => rfl
  | some order => cases order <;> rfl

lemma lessOrEqual_eq (a b : Value) :
    BinaryOp.lessOrEqual.apply a b = BinaryOp.greaterOrEqual.apply b a := by
  rw [BinaryOp.apply, BinaryOp.apply, compare_swap a b]
  cases a.compare b with
  | none => rfl
  | some order => cases order <;> rfl

lemma not_less_and_less (a b : Value) :
    ¬ (BinaryOp.less.apply a b = bool true ∧ BinaryOp.less.apply b a = bool true) := by
  rw [BinaryOp.apply, BinaryOp.apply, compare_swap a b]
  cases a.compare b with
  | none => exact fun h => nomatch h.1
  | some order => cases order <;> simp

/-- The laws of `===`, `==` and the order, on values of every kind. The last part says that the
rules of `==` come to an end on every pair, with the one result that the operator gives. -/
theorem equality_laws (a b c : Value) :
    a.identical b = b.identical a ∧
      (a.identical b = true → b.identical c = true → a.identical c = true) ∧
      a.looselyEquals b = b.looselyEquals a ∧
      (a.identical b = true → a.looselyEquals b = true) ∧
      (a.looselyEquals null = true ↔ a = undefined ∨ a = null) ∧
      b.compare a = (a.compare b).map Ordering.swap ∧
      BinaryOp.less.apply a b = BinaryOp.greater.apply b a ∧
      BinaryOp.lessOrEqual.apply a b = BinaryOp.greaterOrEqual.apply b a ∧
      ¬ (BinaryOp.less.apply a b = bool true ∧ BinaryOp.less.apply b a = bool true) ∧
      ∀ r, Equates a b r ↔ a.looselyEquals b = r :=
  ⟨identical_comm a b, identical_trans, looselyEquals_comm a b, looselyEquals_of_identical,
    looselyEquals_null_iff, compare_swap a b, less_eq a b, lessOrEqual_eq a b,
    not_less_and_less a b, fun _ => equates_iff⟩

/-- The two zeros are the same. -/
theorem equality_laws_zeros :
    (number 0.0).identical (number (-0.0)) = true ∧ (number (-0.0)).identical (number 0.0) = true ∧
      (number 0.0).identical (number 0.0) = true ∧
      (number 0.0).looselyEquals (number (-0.0)) = true :=
  have h : (number 0.0).identical (number (-0.0)) = true := by decide
  have h' : (number (-0.0)).identical (number 0.0) = true := by decide
  have laws := equality_laws (number 0.0) (number (-0.0)) (number 0.0)
  ⟨h, h', laws.2.1 h h', laws.2.2.2.1 h⟩

end Value

end Timeline
