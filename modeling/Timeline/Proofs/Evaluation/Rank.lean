import Timeline.Proofs.Evaluation.Depth

/-! # Ranks

The rank of a value says which arguments its arrow can be called with: none if there is no arrow,
else values of the rank below. Only the truth of what an arrow gives matters to its caller, so a
rank has no part for results. A program whose arrows can be ranked ends, however its documents
look. -/
namespace Timeline

/-- From some depth on there is one result, and a value that it gives has the property. -/
def Settles {α : Type} (x : Nat → Except Interrupt α) (P : α → Prop) : Prop :=
  ∃ result, result ≠ .error .tooDeep ∧ (∃ depth, ∀ d, depth ≤ d → x d = result) ∧
    ∀ a, result = .ok a → P a

namespace Settles

variable {α β : Type} {x : Nat → Except Interrupt α} {P : α → Prop} {Q : β → Prop}

lemma ok {a : α} (h : P a) : Settles (fun _ => .ok a) P := by
  refine ⟨.ok a, nofun, ⟨0, fun _ _ => rfl⟩, ?_⟩
  rintro b ⟨⟩
  exact h

lemma error {i : Interrupt} (h : i ≠ .tooDeep) : Settles (fun _ => .error i) P :=
  ⟨.error i, by simpa using h, ⟨0, fun _ _ => rfl⟩, nofun⟩

lemma bind {f : Nat → α → Except Interrupt β} (hx : Settles x P)
    (hf : ∀ a, P a → Settles (fun depth => f depth a) Q) :
    Settles (fun depth => x depth >>= f depth) Q := by
  obtain ⟨r, hne, ⟨n, hn⟩, hP⟩ := hx
  cases r with
  | error i =>
    refine ⟨.error i, by simpa using hne, ⟨n, fun d hd => ?_⟩, nofun⟩
    simp only [hn d hd, Except.error_bind]
  | ok a =>
    obtain ⟨s, hne', ⟨m, hm⟩, hQ⟩ := hf a (hP a rfl)
    refine ⟨s, hne', ⟨max n m, fun d hd => ?_⟩, hQ⟩
    simp only [hn d (by omega), Except.ok_bind, hm d (by omega)]

lemma mono {Q : α → Prop} (hx : Settles x P) (h : ∀ a, P a → Q a) : Settles x Q := by
  obtain ⟨r, hne, hr, hP⟩ := hx
  exact ⟨r, hne, hr, fun a ha => h a (hP a ha)⟩

lemma succ {y : Nat → Except Interrupt α} (hy : Settles y P)
    (h : ∀ depth, x (depth + 1) = y depth) :
    Settles x P := by
  obtain ⟨r, hne, ⟨n, hn⟩, hP⟩ := hy
  refine ⟨r, hne, ⟨n + 1, fun d hd => ?_⟩, hP⟩
  obtain ⟨d, rfl⟩ := Nat.exists_eq_succ_of_ne_zero (by omega : d ≠ 0)
  rw [h, hn d (by omega)]

end Settles

namespace Value

/-- The value inside all stops around it. -/
def core : Value → Value
  | signal _ inner => inner.core
  | v => v

def hasArrow (v : Value) : Bool :=
  match v.core with
  | .function .. => true
  | _ => false

open Timeline.Expr in
/-- Can the arrow of a value, if it has one, be called with every value of the rank below? -/
def HasRank (scope : Scope) : Nat → Value → Prop
  | 0, v => v.hasArrow = false
  | n + 1, v => ∀ site param body captured, v.core = .function site param body captured →
    ∀ argument, HasRank scope n argument →
      Settles (fun depth => callWithin scope depth site param body captured argument) fun _ => True

variable {scope : Scope} {n : Nat}

lemma hasRank_of_hasArrow {v : Value} (h : v.hasArrow = false) (n : Nat) : v.HasRank scope n := by
  cases n with
  | zero => exact h
  | succ n =>
    intro site param body captured hv
    simp [hasArrow, hv] at h

lemma hasRank_signal {v : Value} (s : Stop) : (signal s v).HasRank scope n ↔ v.HasRank scope n := by
  cases n <;> exact Iff.rfl

/-- Is a value neither an arrow nor a stop? -/
def isFlat : Value → Bool
  | function .. | signal .. => false
  | _ => true

lemma hasArrow_of_isFlat {v : Value} (h : v.isFlat) : v.hasArrow = false := by
  cases v with
  | function | signal => cases h
  | _ => rfl

lemma isFlat_ofNode (node : DataNode) : (ofNode node).isFlat := by
  unfold ofNode
  split <;> rfl

lemma isFlat_dataProperty (node : DataNode) (key : String) : (dataProperty node key).isFlat := by
  unfold dataProperty
  split
  · split
    · exact isFlat_ofNode _
    · rfl
  · split_ifs
    · rfl
    · split
      · rfl
      · split
        · exact isFlat_ofNode _
        · rfl
  · rfl

lemma isFlat_textProperty (s key : String) : (textProperty s key).isFlat := by
  unfold textProperty
  dsimp only
  split_ifs
  · rfl
  · split <;> rfl

/-- No property leads to an arrow or a stop but the value of a stop. -/
lemma isFlat_or_of_property {v w : Value} {key : String} (h : v.property key = .ok w) :
    w.isFlat ∨ ∃ s, v = signal s w := by
  cases v with
  | undefined | null => cases h
  | bool | number | function =>
    cases h
    exact .inl rfl
  | data node =>
    cases h
    exact .inl (isFlat_dataProperty node key)
  | text s =>
    cases h
    exact .inl (isFlat_textProperty s key)
  | signal s inner =>
    simp only [Value.property, Except.ok.injEq] at h
    split_ifs at h
    · exact .inr ⟨s, congrArg _ h⟩
    · exact .inl (h ▸ rfl)

lemma HasRank.property {v w : Value} {key : String} (hv : v.HasRank scope n)
    (h : v.property key = .ok w) : w.HasRank scope n := by
  obtain hflat | ⟨s, rfl⟩ := isFlat_or_of_property h
  · exact hasRank_of_hasArrow (hasArrow_of_isFlat hflat) n
  · exact (hasRank_signal s).1 hv

lemma settles_property {v : Value} (key : String) (hv : v.HasRank scope n) :
    Settles (fun _ => (v.property key).mapError Interrupt.error) (HasRank scope n) := by
  cases h : v.property key with
  | error e => exact .error nofun
  | ok w => exact .ok (hv.property h)

end Value

lemma UnaryOp.isFlat_apply (op : UnaryOp) (v : Value) : (op.apply v).isFlat := by
  cases op <;> rfl

lemma BinaryOp.isFlat_apply (op : BinaryOp) (l r : Value) : (op.apply l r).isFlat := by
  cases op with
  | add =>
    simp only [BinaryOp.apply, Value.add]
    split_ifs <;> rfl
  | _ => rfl

lemma Scope.isFlat_read (scope : Scope) (i : Input) : (scope.read i).isFlat := by
  unfold read
  split <;> first | exact Value.isFlat_ofNode _ | rfl

/-- The parameters around an expression have values of their ranks. -/
def Env.HasRanks (scope : Scope) (ranks : List (String × Nat)) (env : Env) : Prop :=
  ∀ name n, ranks.lookup name = some n → ((env.lookup? name).getD .undefined).HasRank scope n

lemma Env.HasRanks.bind {scope : Scope} {ranks : List (String × Nat)} {env : Env}
    (h : env.HasRanks scope ranks) {v : Value} {n : Nat} (hv : v.HasRank scope n) (name : String) :
    (env.bind name v).HasRanks scope ((name, n) :: ranks) := by
  intro key k hk
  by_cases hname : name = key
  · subst hname
    simp only [List.lookup_cons, BEq.rfl, Option.some.injEq] at hk
    simpa [Env.lookup?, ← hk] using hv
  · have hne : (key == name) = false := by simpa using Ne.symm hname
    rw [List.lookup_cons, hne] at hk
    simpa [Env.lookup?, hname] using h key k hk

/-- The expressions with a rank inside parameters with ranks. A control call may call the arrows of
its check with its value. -/
inductive Expr.Ranked : List (String × Nat) → Expr → Nat → Prop
  | lift {ranks e n} (h : Ranked ranks e 0) : Ranked ranks e n
  | number {ranks x} : Ranked ranks (.number x) 0
  | text {ranks s} : Ranked ranks (.text s) 0
  | bool {ranks b} : Ranked ranks (.bool b) 0
  | null {ranks} : Ranked ranks .null 0
  | undefined {ranks} : Ranked ranks .undefined 0
  | input {ranks i} : Ranked ranks (.input i) 0
  | param {ranks name n} (h : ranks.lookup name = some n) : Ranked ranks (.param name) n
  | member {ranks object key n} (h : Ranked ranks object n) : Ranked ranks (.member object key) n
  | index {ranks object key n m} (hobject : Ranked ranks object n) (hkey : Ranked ranks key m) :
    Ranked ranks (.index object key) n
  | unary {ranks op operand n} (h : Ranked ranks operand n) : Ranked ranks (.unary op operand) 0
  | binary {ranks op left right n m} (hleft : Ranked ranks left n) (hright : Ranked ranks right m) :
    Ranked ranks (.binary op left right) 0
  | logical {ranks op left right n} (hleft : Ranked ranks left n) (hright : Ranked ranks right n) :
    Ranked ranks (.logical op left right) n
  | conditional {ranks test yes no n m} (htest : Ranked ranks test m) (hyes : Ranked ranks yes n)
    (hno : Ranked ranks no n) : Ranked ranks (.conditional test yes no) n
  | arrow {ranks name body n m} (h : Ranked ((name, n) :: ranks) body m) :
    Ranked ranks (.arrow name body) (n + 1)
  | control {ranks f} : Ranked ranks (.control f) 0
  | controlOn {ranks f value n} (h : Ranked ranks value n) : Ranked ranks (.controlOn f value) n
  | controlWhen {ranks f value check n m} (hvalue : Ranked ranks value n)
    (hcheck : Ranked ranks check (m + 1)) (h : n = 0 ∨ n = m) :
    Ranked ranks (.controlWhen f value check) n

namespace ControlFn

variable {scope : Scope} {n : Nat}

lemma settles_settle {call : Nat → Call} {value : Value} {check : Option Value} (f : ControlFn)
    (hfires : Settles (fun depth => fires (call depth) value check) fun _ => True)
    (hvalue : value.HasRank scope n) :
    Settles (fun depth => f.settle (call depth) value check) (Value.HasRank scope n) := by
  simp only [settle_eq_bind]
  refine hfires.bind fun fired _ => ?_
  cases fired with
  | false => exact .ok hvalue
  | true =>
    cases f with
    | drop => exact .error nofun
    | stopList | stopPass => exact .ok ((Value.hasRank_signal _).2 hvalue)

lemma settles_fires {value check : Value} (hvalue : value.HasRank scope n)
    (hcheck : check.HasRank scope (n + 1)) :
    Settles (fun depth => fires (Expr.callWithin scope depth) value (some check))
      fun _ => True := by
  cases check with
  | function site param body captured =>
    simp only [fires_function]
    split_ifs
    · exact .ok trivial
    · exact (hcheck site param body captured rfl value hvalue).bind fun _ _ => .ok trivial
  | _ =>
    simp only [fires]
    split_ifs <;> exact .ok trivial

end ControlFn

open Timeline.Expr in
/-- A ranked expression has a result, and a value that it gives has its rank. -/
theorem Expr.Ranked.settles {scope : Scope} {ranks : List (String × Nat)} {e : Expr} {n : Nat}
    (h : Ranked ranks e n) {env : Env} (henv : env.HasRanks scope ranks) (site : List Nat) :
    Settles (fun depth => evalWith (callWithin scope depth) scope env site e)
      (Value.HasRank scope n) := by
  induction h generalizing env site with
  | lift _ ih => exact (ih henv site).mono fun v hv => Value.hasRank_of_hasArrow hv _
  | number | text | bool | null | undefined => exact .ok rfl
  | @input _ i => exact .ok (Value.hasArrow_of_isFlat (scope.isFlat_read i))
  | @param _ name _ h => exact .ok (henv name _ h)
  | @member _ _ key _ _ ih =>
    exact (ih henv _).bind fun object hobject => Value.settles_property key hobject
  | index _ _ ihObject ihKey =>
    exact (ihObject henv _).bind fun object hobject => (ihKey henv _).bind fun key _ =>
      Value.settles_property key.toText hobject
  | @unary _ op _ _ _ ih =>
    exact (ih henv _).bind fun v _ => .ok (Value.hasArrow_of_isFlat (op.isFlat_apply v))
  | @binary _ op _ _ _ _ _ _ ihLeft ihRight =>
    exact (ihLeft henv _).bind fun l _ => (ihRight henv _).bind fun r _ =>
      .ok (Value.hasArrow_of_isFlat (op.isFlat_apply l r))
  | @logical _ op _ _ _ _ _ ihLeft ihRight =>
    refine (ihLeft henv _).bind fun l hl => ?_
    cases op.takesRight l with
    | true => exact ihRight henv _
    | false => exact .ok hl
  | conditional _ _ _ ihTest ihYes ihNo =>
    refine (ihTest henv _).bind fun t _ => ?_
    cases t.isTruthy with
    | true => exact ihYes henv _
    | false => exact ihNo henv _
  | arrow _ ih =>
    -- the body has a result for every argument of the parameter's rank
    refine .ok ?_
    rintro _ _ _ _ ⟨⟩ argument hargument
    exact ((ih (henv.bind hargument _) (0 :: site)).mono fun _ _ => trivial).succ fun _ => rfl
  | @control _ f => exact ControlFn.settles_settle f (.ok trivial) rfl
  | @controlOn _ f _ _ _ ih =>
    exact (ih henv _).bind fun v hv => ControlFn.settles_settle f (.ok trivial) hv
  | @controlWhen _ f _ _ _ _ _ _ h ihValue ihCheck =>
    refine (ihValue henv _).bind fun v hv => (ihCheck henv _).bind fun c hc => ?_
    refine ControlFn.settles_settle f (ControlFn.settles_fires ?_ hc) hv
    rcases h with rfl | rfl
    · exact Value.hasRank_of_hasArrow hv _
    · exact hv

end Timeline
