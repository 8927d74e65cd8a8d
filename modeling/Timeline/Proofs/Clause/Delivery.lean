import Timeline.Proofs.Clause.Sequence
import Timeline.Proofs.Evaluation.Stops

/-! # What setters get

A setter gets the value of its program, or what the stop that the program ends with carries. So it
gets a stop only if one was carried by another, that is if a control call stopped on it. -/
namespace Timeline

namespace Clause

variable {depth : Nat} {scope : Scope} {c : Clause} {cs : List Clause} {call : NodeCall}

/-- A clause gives a setter a value. -/
def Gives (depth : Nat) (scope : Scope) (c : Clause) (setter : Setter) (v : Value) : Prop :=
  c.setter? = some setter ∧
    ∃ outcome, c.run depth scope = some (.ok outcome) ∧ outcome.value? = some v

/-- What is done to the node is done by a setter with the value that it gets. -/
lemma exists_gives_of_effect {e : Effect} (he : c.effect depth scope = some e)
    (hcall : call ∈ e.alone.calls) :
    ∃ setter v, c.Gives depth scope setter v ∧ call ∈ setter.calls v := by
  obtain ⟨error | outcome, hrun, rfl⟩ := Option.map_eq_some_iff.1 he
  · cases hcall
  · unfold effectOf at hcall
    dsimp only at hcall
    split at hcall
    · cases hcall
    · next v hv =>
      split at hcall
      · next setter hsetter => exact ⟨setter, v, ⟨hsetter, outcome, hrun, hv⟩, hcall⟩
      · cases hcall

lemma exists_gives_of_evaluate {ev : Evaluation} (hev : evaluate depth scope cs = some ev)
    (hcall : call ∈ ev.calls) :
    ∃ c ∈ cs, ∃ setter v, c.Gives depth scope setter v ∧ call ∈ setter.calls v := by
  induction cs generalizing ev with
  | nil =>
    cases hev
    cases hcall
  | cons c cs ih =>
    rw [evaluate_cons] at hev
    obtain ⟨e, he, hev⟩ := Option.bind_eq_some_iff.1 hev
    have hfirst (h : call ∈ e.alone.calls) :
        ∃ d ∈ c :: cs, ∃ setter v, d.Gives depth scope setter v ∧ call ∈ setter.calls v :=
      ⟨c, List.mem_cons_self, exists_gives_of_effect he h⟩
    cases hstop : e.alone.stop? with
    | some s =>
      rw [Evaluation.andThen_of_stop hstop] at hev
      cases hev
      exact hfirst hcall
    | none =>
      rw [Evaluation.andThen_of_continue hstop] at hev
      obtain ⟨later, hlater, rfl⟩ := Option.map_eq_some_iff.1 hev
      obtain hcall | hcall := List.mem_append.1 hcall
      · exact hfirst hcall
      · obtain ⟨d, hd, hgives⟩ := ih hlater hcall
        exact ⟨d, List.mem_cons_of_mem c hd, hgives⟩

end Clause

namespace Expr

/-- A value without a stop around it, or a stop that carries it and the control call that made the
stop. -/
theorem exists_makes_of_run {depth : Nat} {scope : Scope} {e : Expr} {outcome : Outcome} {v : Value}
    (hrun : e.run depth scope = some (.ok outcome)) (hv : outcome.value? = some v) :
    e.evalWithin depth scope = .ok v ∧ v.isSignal = false ∨
      ∃ s site part, e.evalWithin depth scope = .ok (.signal s v) ∧
        Evaluates (callWithin scope depth) scope .empty [] e site part ∧
        Makes (callWithin scope depth) scope .empty site part s v := by
  unfold run at hrun
  split at hrun
  · next w hw =>
    cases hrun
    cases w with
    | signal s inner =>
      cases hv
      have hmade : EveryMade (callWithin scope depth) scope .empty (fun s v => ∃ site part,
          Evaluates (callWithin scope depth) scope .empty [] e site part ∧
            Makes (callWithin scope depth) scope .empty site part s v) [] e :=
        fun site part _ _ hpart hmakes => ⟨site, part, hpart, hmakes⟩
      obtain ⟨⟨site, part, hpart, hmakes⟩, -⟩ := hmade.everyStop (by rintro _ _ ⟨⟩) hw
      exact .inr ⟨s, site, part, hw, hpart, hmakes⟩
    | _ =>
      cases hv
      exact .inl ⟨hw, rfl⟩
  · cases hrun
    cases hv
  · cases hrun
  · cases hrun

end Expr

namespace ClauseList

open Timeline.Expr in
/-- All that is done to the node is done by setters with the values that they get. Such a value is
the one of the program, no stop, or it is what a stop carries that a control call made. If that is a
stop again, a predicate of the control call held of it. -/
theorem gives_carried (list : ClauseList) (depth : Nat) (scope : Scope) :
    (∀ ev, list.evaluate depth scope = some ev → ∀ call ∈ ev.calls,
      ∃ c ∈ list.clauses, ∃ setter v, c.Gives depth scope setter v ∧ call ∈ setter.calls v) ∧
    ∀ c ∈ list.clauses, ∀ setter v, c.Gives depth scope setter v → ∃ e, c.program = some e ∧
      (e.evalWithin depth scope = .ok v ∧ v.isSignal = false ∨
        ∃ s site part, e.evalWithin depth scope = .ok (.signal s v) ∧
          Evaluates (callWithin scope depth) scope .empty [] e site part ∧
          Makes (callWithin scope depth) scope .empty site part s v ∧
          (v.isSignal → part.AsksPredicate (callWithin scope depth) scope .empty site v)) := by
  refine ⟨fun ev hev call hcall => Clause.exists_gives_of_evaluate hev hcall, ?_⟩
  rintro c - setter v ⟨hsetter, outcome, hrun, hv⟩
  cases hprogram : c.program with
  | none => simp [Clause.setter?, Clause.isInert, hprogram] at hsetter
  | some e =>
    refine ⟨e, rfl, ?_⟩
    simp only [Clause.run, hprogram] at hrun
    obtain hplain | ⟨s, site, part, hsignal, hpart, hmakes⟩ := exists_makes_of_run hrun hv
    · exact .inl hplain
    · exact .inr ⟨s, site, part, hsignal, hpart, hmakes, hmakes.asksPredicate⟩

/-- A stop can be what another one carries, and then the setter gets it. -/
theorem evaluate_nested_stop :
    (compile "a=$.break($.break(null), s => true)").evaluate 1 (.template .null .null .null) =
      some ⟨[.setAttribute "a" (.signal .list .null)], [], some .list⟩ := by
  have hclauses : (compile "a=$.break($.break(null), s => true)").clauses =
      [⟨.attr "a", some (.controlWhen .stopList (.controlOn .stopList .null)
          (.arrow "s" (.bool true))), "a=$.break($.break(null), s => true)"⟩] := by cbv
  rw [evaluate, hclauses]
  rfl

open Timeline.Expr in
/-- A predicate stops the pass on `true`, and that is what the setter gets and the node too. -/
theorem gives_carried_exit :
    let scope := Scope.template .null .null .null
    let list := compile "a=$.exit(true, v => v)"
    let e : Expr := .controlWhen .stopPass (.bool true) (.arrow "v" (.param "v"))
    let c : Clause := ⟨.attr "a", some e, "a=$.exit(true, v => v)"⟩
    list.evaluate 1 scope = some ⟨[.setAttribute "a" (.bool true)], [], some .pass⟩ ∧
      (∃ d ∈ list.clauses, ∃ setter v, d.Gives 1 scope setter v ∧
        .setAttribute "a" (.bool true) ∈ setter.calls v) ∧
      c ∈ list.clauses ∧ c.Gives 1 scope (.attr "a") (.bool true) ∧
      ∃ s site part, e.evalWithin 1 scope = .ok (.signal s (.bool true)) ∧
        Evaluates (callWithin scope 1) scope .empty [] e site part ∧
        Makes (callWithin scope 1) scope .empty site part s (.bool true) := by
  intro scope list e c
  have hclauses : list.clauses = [c] := by cbv
  have hev : list.evaluate 1 scope = some ⟨[.setAttribute "a" (.bool true)], [], some .pass⟩ := by
    rw [evaluate, hclauses]
    rfl
  have hc : c ∈ list.clauses := by
    rw [hclauses]
    exact List.mem_singleton_self c
  have hgives : c.Gives 1 scope (.attr "a") (.bool true) :=
    ⟨rfl, .stop .pass (.bool true), rfl, rfl⟩
  obtain ⟨hcalls, hcarried⟩ := gives_carried list 1 scope
  refine ⟨hev, hcalls _ hev _ (List.mem_singleton_self _), hc, hgives, ?_⟩
  obtain ⟨_, ⟨⟩, ⟨hplain, -⟩ | ⟨s, site, part, hsignal, hpart, hmakes, -⟩⟩ :=
    hcarried c hc (.attr "a") (.bool true) hgives
  · cases hplain
  · exact ⟨s, site, part, hsignal, hpart, hmakes⟩

end ClauseList

end Timeline
