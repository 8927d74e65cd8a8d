import Mathlib.Tactic.Common
import Timeline.Evaluation
import Timeline.Proofs.Result

/-! # The depth of calls

A run with room for more nested calls gives what a run with less room gives, unless that one runs
out of room. A run in which no arrow is called inside one of its own calls needs no more room than
the program has arrows. -/
namespace Timeline

/-- The first result is the second one, or not known because calls were nested too deeply. -/
def Approximates {α : Type} (x y : Except Interrupt α) : Prop :=
  x ≠ .error .tooDeep → x = y

namespace Approximates

variable {α β : Type} {x y : Except Interrupt α}

lemma refl (x : Except Interrupt α) : Approximates x x := fun _ => rfl

lemma of_eq_tooDeep (y : Except Interrupt α) : Approximates (.error .tooDeep) y :=
  fun h => absurd rfl h

lemma bind {f g : α → Except Interrupt β} (hx : Approximates x y)
    (hf : ∀ a, Approximates (f a) (g a)) : Approximates (x >>= f) (y >>= g) := by
  intro hne
  have hx : x = y := hx fun he => hne (by rw [he]; rfl)
  subst hx
  cases x with
  | error i => rfl
  | ok a => exact hf a hne

end Approximates

namespace Call

/-- Every call gives what the other caller gives, or is nested too deeply. -/
def Below (call call' : Call) : Prop :=
  ∀ site param body captured argument,
    Approximates (call site param body captured argument) (call' site param body captured argument)

end Call

namespace ControlFn

lemma settle_eq_bind (f : ControlFn) (call : Call) (value : Value) (check : Option Value) :
    f.settle call value check =
      fires call value check >>= fun fired => if fired then f.fire value else .ok value := by
  unfold settle
  rcases fires call value check with i | ⟨_ | _⟩ <;> rfl

lemma fires_function (call : Call) (value : Value) (site : List Nat) (param : String) (body : Expr)
    (captured : Env) :
    fires call value (some (.function site param body captured)) =
      if value.identical (.function site param body captured) then .ok true
      else call site param body captured value >>= fun result => .ok result.isTruthy := by
  unfold fires
  dsimp only
  split_ifs
  · rfl
  · cases call site param body captured value <;> rfl

variable {call call' : Call}

lemma fires_approximates (h : call.Below call') (value : Value) (check : Option Value) :
    Approximates (fires call value check) (fires call' value check) := by
  rcases check with _ | check
  · exact .refl _
  · cases check with
    | function site param body captured =>
      rw [fires_function, fires_function]
      split_ifs
      · exact .refl _
      · exact (h site param body captured value).bind fun _ => .refl _
    | _ => exact .refl _

lemma settle_approximates (h : call.Below call') (f : ControlFn) (value : Value)
    (check : Option Value) :
    Approximates (f.settle call value check) (f.settle call' value check) := by
  rw [settle_eq_bind, settle_eq_bind]
  exact (fires_approximates h value check).bind fun _ => .refl _

end ControlFn

namespace Expr

variable {call call' : Call} {scope : Scope}

/-- An evaluation knows as much as its calls. -/
theorem evalWith_approximates (h : call.Below call') (e : Expr) (env : Env) (site : List Nat) :
    Approximates (evalWith call scope env site e) (evalWith call' scope env site e) := by
  induction e generalizing env site with
  | number | text | bool | null | undefined | input | param | arrow => exact .refl _
  | member object key ih => exact (ih env _).bind fun _ => .refl _
  | index object key ihObject ihKey =>
    exact (ihObject env _).bind fun _ => (ihKey env _).bind fun _ => .refl _
  | unary op operand ih => exact (ih env _).bind fun _ => .refl _
  | binary op left right ihLeft ihRight =>
    exact (ihLeft env _).bind fun _ => (ihRight env _).bind fun _ => .refl _
  | logical op left right ihLeft ihRight =>
    refine (ihLeft env _).bind fun l => ?_
    split_ifs
    · exact ihRight env _
    · exact .refl _
  | conditional test yes no ihTest ihYes ihNo =>
    refine (ihTest env _).bind fun t => ?_
    split_ifs
    · exact ihYes env _
    · exact ihNo env _
  | control f => exact ControlFn.settle_approximates h f _ _
  | controlOn f value ih =>
    exact (ih env _).bind fun v => ControlFn.settle_approximates h f v _
  | controlWhen f value check ihValue ihCheck =>
    exact (ihValue env _).bind fun v => (ihCheck env _).bind fun c =>
      ControlFn.settle_approximates h f v _

theorem callWithin_below {depth depth' : Nat} (h : depth ≤ depth') :
    (callWithin scope depth).Below (callWithin scope depth') := by
  intro site param body captured argument
  induction depth generalizing depth' site param body captured argument with
  | zero => exact .of_eq_tooDeep _
  | succ depth ih =>
    obtain ⟨depth', rfl⟩ := Nat.exists_eq_succ_of_ne_zero (by omega : depth' ≠ 0)
    exact evalWith_approximates (ih (by omega)) body _ _

/-- Where the arrows of an expression stand. -/
def arrowSites (site : List Nat) : Expr → List (List Nat)
  | number _ | text _ | bool _ | null | undefined | input _ | param _ | control _ => []
  | member object _ => object.arrowSites (0 :: site)
  | index object key => object.arrowSites (0 :: site) ++ key.arrowSites (1 :: site)
  | unary _ operand => operand.arrowSites (0 :: site)
  | binary _ left right => left.arrowSites (0 :: site) ++ right.arrowSites (1 :: site)
  | logical _ left right => left.arrowSites (0 :: site) ++ right.arrowSites (1 :: site)
  | conditional test yes no =>
    test.arrowSites (0 :: site) ++ yes.arrowSites (1 :: site) ++ no.arrowSites (2 :: site)
  | arrow _ body => site :: body.arrowSites (0 :: site)
  | controlOn _ value => value.arrowSites (0 :: site)
  | controlWhen _ value check => value.arrowSites (0 :: site) ++ check.arrowSites (1 :: site)

/-- Calls the arrows at the sites `free`, but none of them inside one of its own calls. -/
def callApart (scope : Scope) (free : List (List Nat)) : Call :=
  fun site param body captured argument =>
    if _h : site ∈ free then
      evalWith (callApart scope (free.erase site)) scope (captured.bind param argument) (0 :: site)
        body
    else .error .tooDeep
termination_by free.length
decreasing_by
  have := List.length_pos_of_mem _h
  rw [List.length_erase_of_mem _h]
  omega

/-- Every nested call takes an arrow off the free ones, so their number bounds the depth. -/
theorem callApart_below {free : List (List Nat)} {depth : Nat} (h : free.length ≤ depth) :
    (callApart scope free).Below (callWithin scope depth) := by
  intro site param body captured argument
  induction depth generalizing free site param body captured argument with
  | zero =>
    rw [callApart, List.length_eq_zero_iff.1 (Nat.le_zero.1 h)]
    exact .of_eq_tooDeep _
  | succ depth ih =>
    rw [callApart]
    split_ifs with hsite
    · have hlength := List.length_erase_of_mem hsite
      exact evalWith_approximates (ih (by omega)) body _ _
    · exact .of_eq_tooDeep _

/-- Runs a program in which no arrow may be called inside one of its own calls. -/
def evalApart (scope : Scope) (e : Expr) : Except Interrupt Value :=
  evalWith (callApart scope (e.arrowSites [])) scope .empty [] e

theorem evalWithin_eq_of_apart {e : Expr} (h : e.evalApart scope ≠ .error .tooDeep) {depth : Nat}
    (hdepth : (e.arrowSites []).length ≤ depth) : e.evalWithin depth scope = e.evalApart scope :=
  (evalWith_approximates (callApart_below hdepth) e .empty [] h).symm

end Expr

end Timeline
