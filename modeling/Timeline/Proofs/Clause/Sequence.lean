import Mathlib
import Timeline.Clause.Evaluation
import Timeline.Proofs.Evaluation.Termination

/-! # Lists in sequence

A semicolon between two texts puts the clauses of the second one after those of the first. A run of
the whole list is a run of the first part and then, unless that has stopped, one of the second. -/
namespace Timeline

namespace Evaluation

/-- A run that goes on with `later` unless it has stopped. -/
def followedBy (first later : Evaluation) : Evaluation :=
  match first.stop? with
  | some _ => first
  | none => before first.calls first.faults later

/-- Once a run has stopped, it does not matter whether something comes of what is left. -/
def andThen (first : Evaluation) (later : Option Evaluation) : Option Evaluation :=
  match first.stop? with
  | some _ => some first
  | none => later.map (before first.calls first.faults)

section
variable {first : Evaluation} {s : Stop}

lemma andThen_of_stop (h : first.stop? = some s) (later : Option Evaluation) :
    first.andThen later = some first := by
  rw [andThen, h]

lemma andThen_of_continue (h : first.stop? = none) (later : Option Evaluation) :
    first.andThen later = later.map (before first.calls first.faults) := by
  rw [andThen, h]

end

lemma andThen_some (first later : Evaluation) :
    first.andThen (some later) = some (first.followedBy later) := by
  unfold andThen followedBy
  cases first.stop? <;> rfl

@[simp] lemma empty_andThen (later : Option Evaluation) : empty.andThen later = later := by
  cases later <;> rfl

lemma andThen_bind (first : Evaluation) (later last : Option Evaluation) :
    (first.andThen later).bind (·.andThen last) =
      first.andThen (later.bind (·.andThen last)) := by
  obtain ⟨calls, faults, _ | s⟩ := first
  · rcases later with _ | ⟨calls', faults', _ | s⟩
    · rfl
    · cases last <;> simp [andThen, before]
    · rfl
  · rfl

end Evaluation

namespace Effect

/-- What a clause does if nothing comes after it. -/
def alone : Effect → Evaluation
  | skip => .empty
  | fault f => ⟨[], [f], none⟩
  | write calls stop? => ⟨calls, [], stop?⟩

end Effect

namespace Clause

variable {depth depth' : Nat} {scope : Scope} {c : Clause} {cs : List Clause} {ev : Evaluation}
  {s : Stop}

lemma evaluate_cons (depth : Nat) (scope : Scope) (c : Clause) (cs : List Clause) :
    evaluate depth scope (c :: cs) =
      (c.effect depth scope).bind fun e => e.alone.andThen (evaluate depth scope cs) := by
  rw [evaluate]
  cases c.effect depth scope with
  | none => rfl
  | some e =>
    cases e with
    | skip => exact (Evaluation.empty_andThen _).symm
    | fault f => rfl
    | write calls stop? => cases stop? <;> rfl

/-- The clauses of two lists run one after the other. -/
theorem evaluate_append (depth : Nat) (scope : Scope) (cs ds : List Clause) :
    evaluate depth scope (cs ++ ds) =
      (evaluate depth scope cs).bind (·.andThen (evaluate depth scope ds)) := by
  induction cs with
  | nil => simp [evaluate]
  | cons c cs ih =>
    rw [List.cons_append, evaluate_cons, evaluate_cons, ih, Option.bind_assoc]
    simp only [Evaluation.andThen_bind]

lemma run_eq_some_of_le (h : depth ≤ depth') {outcome : Except EvalError Outcome}
    (hrun : c.run depth scope = some outcome) : c.run depth' scope = some outcome := by
  unfold run at hrun ⊢
  cases hprogram : c.program with
  | none => rwa [hprogram] at hrun
  | some e =>
    rw [hprogram] at hrun
    exact Expr.run_eq_some_of_le h hrun

lemma effect_eq_some_of_le (h : depth ≤ depth') {e : Effect}
    (heffect : c.effect depth scope = some e) : c.effect depth' scope = some e := by
  obtain ⟨outcome, hrun, rfl⟩ := Option.map_eq_some_iff.1 heffect
  rw [effect, run_eq_some_of_le h hrun]
  rfl

/-- Once a list has been run, more room for calls does not change what it does. -/
theorem evaluate_eq_some_of_le (h : depth ≤ depth') (hev : evaluate depth scope cs = some ev) :
    evaluate depth' scope cs = some ev := by
  induction cs generalizing ev with
  | nil => exact hev
  | cons c cs ih =>
    rw [evaluate_cons] at hev ⊢
    obtain ⟨e, he, hev⟩ := Option.bind_eq_some_iff.1 hev
    rw [effect_eq_some_of_le h he, Option.bind_some]
    cases hstop : e.alone.stop? with
    | some s => rwa [Evaluation.andThen_of_stop hstop] at hev ⊢
    | none =>
      rw [Evaluation.andThen_of_continue hstop] at hev ⊢
      obtain ⟨later, hlater, rfl⟩ := Option.map_eq_some_iff.1 hev
      rw [ih hlater, Option.map_some]

/-- The stop that the setter of a clause raises when its program ends with an outcome. -/
def raised? (c : Clause) (outcome : Outcome) : Option Stop :=
  outcome.value?.bind fun v => c.setter?.bind (·.raised? v)

/-- A clause raises the stop of its setter, or else the one that its program signals. -/
inductive Raises (depth : Nat) (scope : Scope) (c : Clause) : Stop → Prop
  | setter {outcome : Outcome} {s : Stop} : c.run depth scope = some (.ok outcome) →
      c.raised? outcome = some s → Raises depth scope c s
  | signal {outcome : Outcome} {s : Stop} : c.run depth scope = some (.ok outcome) →
      c.raised? outcome = none → outcome.stop? = some s → Raises depth scope c s

lemma stop?_effectOf (c : Clause) (outcome : Outcome) :
    (c.effectOf (.ok outcome)).alone.stop? = (c.raised? outcome).or outcome.stop? := by
  unfold effectOf raised?
  cases outcome with
  | drop => rfl
  | value v => cases c.setter? <;> rfl
  | stop s v => cases c.setter? <;> rfl

lemma raises_iff {e : Effect} (he : c.effect depth scope = some e) :
    c.Raises depth scope s ↔ e.alone.stop? = some s := by
  obtain ⟨error | outcome, hrun, rfl⟩ := Option.map_eq_some_iff.1 he
  · constructor
    · rintro (⟨hrun', -⟩ | ⟨hrun', -⟩) <;> cases hrun.symm.trans hrun'
    · nofun
  · rw [stop?_effectOf, Option.or_eq_some_iff]
    constructor
    · rintro (⟨hrun', hraised⟩ | ⟨hrun', hraised, hsignal⟩) <;> cases hrun.symm.trans hrun'
      · exact .inl hraised
      · exact .inr ⟨hraised, hsignal⟩
    · rintro (hraised | ⟨hraised, hsignal⟩)
      · exact .setter hrun hraised
      · exact .signal hrun hraised hsignal

/-- The first clause that raises a stop ends the list with it. -/
theorem stop?_eq_some_iff (hev : evaluate depth scope cs = some ev) :
    ev.stop? = some s ↔ ∃ before c after, cs = before ++ c :: after ∧
      (∀ b ∈ before, ∀ s', ¬ b.Raises depth scope s') ∧ c.Raises depth scope s := by
  induction cs generalizing ev with
  | nil =>
    cases hev
    simp [Evaluation.empty]
  | cons d ds ih =>
    rw [evaluate_cons] at hev
    obtain ⟨e, he, hev⟩ := Option.bind_eq_some_iff.1 hev
    cases hstop : e.alone.stop? with
    | some s' =>
      rw [Evaluation.andThen_of_stop hstop] at hev
      cases hev
      constructor
      · intro hs
        exact ⟨[], d, ds, rfl, nofun, (raises_iff he).2 hs⟩
      · rintro ⟨_ | ⟨b, before⟩, c, after, hcs, hbefore, hc⟩
        · cases hcs
          exact (raises_iff he).1 hc
        · cases hcs
          exact absurd ((raises_iff he).2 hstop) (hbefore d (by simp) s')
    | none =>
      have hd : ∀ s', ¬ d.Raises depth scope s' := fun s' h => by
        cases hstop.symm.trans ((raises_iff he).1 h)
      rw [Evaluation.andThen_of_continue hstop] at hev
      obtain ⟨later, hlater, rfl⟩ := Option.map_eq_some_iff.1 hev
      rw [Evaluation.before, ih hlater]
      constructor
      · rintro ⟨before, c, after, rfl, hbefore, hc⟩
        exact ⟨d :: before, c, after, rfl, List.forall_mem_cons.2 ⟨hd, hbefore⟩, hc⟩
      · rintro ⟨_ | ⟨b, before⟩, c, after, hcs, hbefore, hc⟩
        · cases hcs
          exact absurd hc (hd s)
        · cases hcs
          exact ⟨before, c, after, rfl, fun b hb => hbefore b (by simp [hb]), hc⟩

end Clause

namespace ClauseList

lemma pieces_join (t₁ t₂ : String) : pieces (t₁ ++ ";" ++ t₂) = pieces t₁ ++ pieces t₂ := by
  have hsplit : (t₁ ++ ";" ++ t₂).toList.splitOn ';' =
      t₁.toList.splitOn ';' ++ t₂.toList.splitOn ';' := by
    rw [String.toList_append, String.toList_append, List.append_assoc]
    exact List.splitOnP_append_cons _ _ rfl
  rw [pieces, hsplit, List.map_append, List.filter_append]
  rfl

/-- A semicolon between two texts joins what they compile to. A run of the joined list does what a
run of the first one does and then, if that did not stop, what a run of the second one does. Every
list stops as the first of its clauses does that raises a stop. -/
theorem compile_join (t₁ t₂ : String) :
    (compile (t₁ ++ ";" ++ t₂)).clauses = (compile t₁).clauses ++ (compile t₂).clauses ∧
    (compile (t₁ ++ ";" ++ t₂)).diagnostics =
      (compile t₁).diagnostics ++ (compile t₂).diagnostics ∧
    (∀ scope d₁ d₂ first second, (compile t₁).evaluate d₁ scope = some first →
      (compile t₂).evaluate d₂ scope = some second → ∀ depth, d₁ ≤ depth → d₂ ≤ depth →
        (compile (t₁ ++ ";" ++ t₂)).evaluate depth scope = some (first.followedBy second)) ∧
    ∀ (list : ClauseList) depth scope ev, list.evaluate depth scope = some ev →
      ∀ s, ev.stop? = some s ↔ ∃ before c after, list.clauses = before ++ c :: after ∧
        (∀ b ∈ before, ∀ s', ¬ b.Raises depth scope s') ∧ c.Raises depth scope s := by
  have hclauses :
      (compile (t₁ ++ ";" ++ t₂)).clauses = (compile t₁).clauses ++ (compile t₂).clauses := by
    simp only [compile, pieces_join, List.map_append]
  have hdiagnostics : (compile (t₁ ++ ";" ++ t₂)).diagnostics =
      (compile t₁).diagnostics ++ (compile t₂).diagnostics := by
    simp only [compile, pieces_join, List.map_append, List.filterMap_append]
  refine ⟨hclauses, hdiagnostics, ?_, fun list depth scope ev hev s =>
    Clause.stop?_eq_some_iff hev⟩
  intro scope d₁ d₂ first second h₁ h₂ depth hd₁ hd₂
  have hfirst : Clause.evaluate depth scope (compile t₁).clauses = some first :=
    Clause.evaluate_eq_some_of_le hd₁ h₁
  have hsecond : Clause.evaluate depth scope (compile t₂).clauses = some second :=
    Clause.evaluate_eq_some_of_le hd₂ h₂
  rw [evaluate, hclauses, Clause.evaluate_append, hfirst, hsecond, Option.bind_some,
    Evaluation.andThen_some]

/-- The first text has a broken clause and one that removes the node. In the second one `$break`
stops the list although its expression stops the pass. -/
theorem compile_join_break :
    let scope := Scope.template .null (.object []) .null
    (compile "a='x;$show=item.v").evaluate 0 scope = some ⟨[.remove], [], none⟩ ∧
    (compile "$break=$.exit(true, true);c=item").evaluate 0 scope = some ⟨[], [], some .list⟩ ∧
    (compile ("a='x;$show=item.v" ++ ";" ++ "$break=$.exit(true, true);c=item")).evaluate 0
      scope = some ⟨[.remove], [], some .list⟩ := by
  intro scope
  have hfirst : (compile "a='x;$show=item.v").clauses =
      [⟨.attr "a", none, "a='x"⟩,
        ⟨.control "$show", some (.member (.input .item) "v"), "$show=item.v"⟩] := by cbv
  have hsecond : (compile "$break=$.exit(true, true);c=item").clauses =
      [⟨.control "$break", some (.controlWhen .stopPass (.bool true) (.bool true)),
          "$break=$.exit(true, true)"⟩,
        ⟨.attr "c", some (.input .item), "c=item"⟩] := by cbv
  have h₁ : (compile "a='x;$show=item.v").evaluate 0 scope = some ⟨[.remove], [], none⟩ := by
    rw [evaluate, hfirst]
    rfl
  have h₂ : (compile "$break=$.exit(true, true);c=item").evaluate 0 scope =
      some ⟨[], [], some .list⟩ := by
    rw [evaluate, hsecond]
    rfl
  obtain ⟨-, -, hjoined, -⟩ := compile_join "a='x;$show=item.v" "$break=$.exit(true, true);c=item"
  exact ⟨h₁, h₂, hjoined scope 0 0 _ _ h₁ h₂ 0 (Nat.le_refl 0) (Nat.le_refl 0)⟩

end ClauseList

end Timeline
