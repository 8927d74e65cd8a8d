import Mathlib
import Timeline.Expression.Resolution
import Timeline.Proofs.Evaluation.Rank

/-! # Termination

Not every program ends: arrows can hand one another over until one of them is called inside its own
call. A program in which that does not happen ends, and so does one whose arrows can be ranked. -/
namespace Timeline.Expr

variable {scope : Scope}

/-- Once a run has an outcome, more room for calls does not change it. -/
theorem run_eq_some_of_le {e : Expr} {depth depth' : Nat} {outcome : Except EvalError Outcome}
    (h : depth ≤ depth') (hrun : e.run depth scope = some outcome) :
    e.run depth' scope = some outcome := by
  have hne : e.evalWithin depth scope ≠ .error .tooDeep := by
    intro he
    simp [run, he] at hrun
  have heq : e.evalWithin depth scope = e.evalWithin depth' scope :=
    evalWith_approximates (callWithin_below h) e .empty [] hne
  rwa [run, ← heq]

lemma exists_run_eq_some {e : Expr} {depth : Nat}
    (h : e.evalWithin depth scope ≠ .error .tooDeep) :
    ∃ outcome, e.run depth scope = some outcome := by
  unfold run
  rcases he : e.evalWithin depth scope with (_ | _ | _) | _
  · exact ⟨_, rfl⟩
  · exact ⟨_, rfl⟩
  · exact absurd he h
  · exact ⟨_, rfl⟩

/-- A program ends if no arrow has to be called inside one of its own calls, and then it nests at
most as many calls as it has arrows; and it ends if its arrows can be ranked. -/
theorem exists_outcome (e : Expr) (scope : Scope) :
    (e.evalApart scope ≠ .error .tooDeep → ∃ outcome, ∀ depth,
      (e.arrowSites []).length ≤ depth → e.run depth scope = some outcome) ∧
    (∀ n, Ranked [] e n → ∃ outcome depth, ∀ depth',
      depth ≤ depth' → e.run depth' scope = some outcome) := by
  constructor
  · intro hapart
    have hne : e.evalWithin (e.arrowSites []).length scope ≠ .error .tooDeep := by
      rwa [evalWithin_eq_of_apart hapart (Nat.le_refl _)]
    obtain ⟨outcome, hrun⟩ := exists_run_eq_some hne
    exact ⟨outcome, fun depth hdepth => run_eq_some_of_le hdepth hrun⟩
  · intro n hranked
    have hempty : Env.empty.HasRanks scope [] := nofun
    obtain ⟨result, hne, ⟨depth, hdepth⟩, -⟩ := hranked.settles hempty []
    have hwithin : e.evalWithin depth scope = result := hdepth depth (Nat.le_refl _)
    obtain ⟨outcome, hrun⟩ := exists_run_eq_some (hwithin.symm ▸ hne)
    exact ⟨outcome, depth, fun depth' h => run_eq_some_of_le h hrun⟩

/-- An arrow that is handed itself and finds itself identical to its check. -/
def selfApplied : Expr :=
  .controlWhen .drop (.arrow "f" (.controlWhen .drop (.param "f") (.param "f")))
    (.arrow "g" (.controlWhen .drop (.param "g") (.param "g")))

def limited : Expr :=
  .controlWhen .stopPass (.member (.input .item) "size")
    (.arrow "v" (.binary .greater (.param "v") (.member (.input .project) "limit")))

/-- The first program cannot be ranked, the second one can. -/
theorem exists_outcome_of_texts :
    (compile .template "$.drop(f => $.drop(f, f), g => $.drop(g, g))" = .ok selfApplied ∧
      ∀ project item layout, ∃ outcome, ∀ depth, 2 ≤ depth →
        selfApplied.run depth (.template project item layout) = some outcome) ∧
    (compile .template "$.exit(item.size, v => v > project.limit)" = .ok limited ∧
      ∀ project item layout, ∃ outcome depth, ∀ depth', depth ≤ depth' →
        limited.run depth' (.template project item layout) = some outcome) := by
  refine ⟨⟨by cbv, fun project item layout => ?_⟩, by cbv, fun project item layout => ?_⟩
  · refine (exists_outcome selfApplied _).1 ?_
    simp [evalApart, selfApplied, evalWith, callApart, arrowSites, ControlFn.settle_eq_bind,
      ControlFn.fires_function, Value.identical, Env.lookup?, ControlFn.fire]
  · refine (exists_outcome limited _).2 0 ?_
    have hvalue : Ranked [] (.member (.input .item) "size") 0 := .member .input
    have hcheck : Ranked [("v", 0)] (.binary .greater (.param "v")
        (.member (.input .project) "limit")) 0 := .binary (.param rfl) (.member .input)
    exact .controlWhen hvalue (.arrow hcheck) (.inl rfl)

/-- `$.drop(x, y)` -/
def swap : Expr := .controlWhen .drop (.param "x") (.param "y")

/-- `$.drop(y => $.drop(x, y), x)` -/
def swapBody : Expr := .controlWhen .drop (.arrow "y" swap) (.param "x")

def swapProgram : Expr := .controlWhen .drop (.arrow "x" swapBody) (.arrow "x" swapBody)

/-- A control call that calls its check gives nothing if that call does not. -/
lemma settle_eq_tooDeep {call : Call} {value : Value} {site : List Nat} {param : String}
    {body : Expr} {captured : Env} (f : ControlFn)
    (hne : value.identical (.function site param body captured) = false)
    (h : call site param body captured value = .error .tooDeep) :
    f.settle call value (some (.function site param body captured)) = .error .tooDeep := by
  rw [ControlFn.settle_eq_bind, ControlFn.fires_function, hne, h]
  rfl

/-- Three calls, of which each leads to the next one and the last one to the first. -/
lemma callWithin_swap (depth : Nat) :
    let first := Value.function [0] "x" swapBody .empty
    let second := Value.function [0, 0, 1] "y" swap (Env.empty.bind "x" first)
    let third := Value.function [0, 0, 0] "y" swap (Env.empty.bind "x" second)
    callWithin scope depth [0] "x" swapBody .empty second = .error .tooDeep ∧
      callWithin scope depth [0, 0, 1] "y" swap (Env.empty.bind "x" first) third =
        .error .tooDeep ∧
      callWithin scope depth [0, 0, 0] "y" swap (Env.empty.bind "x" second) first =
        .error .tooDeep := by
  intro first second third
  induction depth with
  | zero => exact ⟨rfl, rfl, rfl⟩
  | succ depth ih =>
    obtain ⟨hfirst, hsecond, hthird⟩ := ih
    refine ⟨?_, ?_, ?_⟩
    · simp only [callWithin, swapBody, evalWith, Env.lookup?]
      exact settle_eq_tooDeep _ rfl hsecond
    · simp only [callWithin, swap, evalWith, Env.lookup?]
      exact settle_eq_tooDeep _ rfl hthird
    · simp only [callWithin, swap, evalWith, Env.lookup?]
      exact settle_eq_tooDeep _ rfl hfirst

/-- There is a text whose program never ends, however its documents look. -/
theorem run_swapProgram :
    compile .template
        "$.drop(x => $.drop(y => $.drop(x, y), x), x => $.drop(y => $.drop(x, y), x))" =
      .ok swapProgram ∧
    ∀ project item layout depth, swapProgram.run depth (.template project item layout) = none := by
  refine ⟨by cbv, fun project item layout depth => ?_⟩
  have hdeep : swapProgram.evalWithin depth (.template project item layout) = .error .tooDeep := by
    refine settle_eq_tooDeep _ rfl ?_
    cases depth with
    | zero => rfl
    | succ depth =>
      simp only [callWithin, swapBody, evalWith, Env.lookup?]
      exact settle_eq_tooDeep _ rfl (callWithin_swap depth).1
  rw [run, hdeep]

end Timeline.Expr
