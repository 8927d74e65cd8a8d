import Mathlib
import Timeline.Proofs.Clause.Sequence

/-! # Isolation of clauses

A clause that did not compile, was dropped, failed, or stands behind a stop leaves nothing for the
other clauses to see: without it they do what they do with it. -/
namespace Timeline

/-- The entries of a list at the places that are kept. -/
def keepAt {α : Type} (keep : Nat → Bool) (xs : List α) : List α :=
  ((List.range xs.length).filter keep).filterMap (xs[·]?)

section
variable {α β : Type}

lemma keepAt_cons (keep : Nat → Bool) (x : α) (xs : List α) :
    keepAt keep (x :: xs) =
      if keep 0 then x :: keepAt (fun i => keep (i + 1)) xs
      else keepAt (fun i => keep (i + 1)) xs := by
  have htail : (((List.range xs.length).map Nat.succ).filter keep).filterMap ((x :: xs)[·]?) =
      keepAt (fun i => keep (i + 1)) xs := by
    rw [List.filter_map, List.filterMap_map]
    rfl
  rw [keepAt, List.length_cons, List.range_succ_eq_map, List.filter_cons]
  split
  · rw [List.filterMap_cons, htail]
    rfl
  · exact htail

lemma keepAt_true (xs : List α) : keepAt (fun _ => true) xs = xs := by
  induction xs with
  | nil => rfl
  | cons x xs ih => rw [keepAt_cons, if_pos rfl, ih]

lemma keepAt_map (keep : Nat → Bool) (f : α → β) (xs : List α) :
    keepAt keep (xs.map f) = (keepAt keep xs).map f := by
  induction xs generalizing keep with
  | nil => rfl
  | cons x xs ih =>
    rw [List.map_cons, keepAt_cons, keepAt_cons, ih]
    split <;> rfl

end

namespace Effect

def fault? : Effect → Option Fault
  | fault f => some f
  | skip | write _ _ => none

lemma faults_alone (e : Effect) : e.alone.faults = e.fault?.toList := by cases e <;> rfl

lemma faults_of_stop {e : Effect} {s : Stop} (h : e.alone.stop? = some s) :
    e.alone.faults = [] := by
  cases e with
  | skip | write calls stop? => rfl
  | fault f => cases h

end Effect

namespace Clause

variable {depth : Nat} {scope : Scope} {c : Clause} {cs : List Clause} {e : Effect}
  {ev : Evaluation}

/-- The fault that each clause of a list leaves. Those behind a stop are not run. -/
def faultsOf (depth : Nat) (scope : Scope) : List Clause → List (Option Fault)
  | [] => []
  | c :: cs =>
    match c.effect depth scope with
    | some (.write _ (some _)) => none :: cs.map fun _ => none
    | e => e.bind Effect.fault? :: faultsOf depth scope cs

lemma faultsOf_of_stop {s : Stop} (he : c.effect depth scope = some e)
    (hstop : e.alone.stop? = some s) :
    faultsOf depth scope (c :: cs) = none :: cs.map fun _ => none := by
  cases e with
  | skip => cases hstop
  | fault f => cases hstop
  | write calls stop? =>
    cases hstop
    rw [faultsOf, he]

lemma faultsOf_of_continue (he : c.effect depth scope = some e) (hstop : e.alone.stop? = none) :
    faultsOf depth scope (c :: cs) = e.fault? :: faultsOf depth scope cs := by
  cases e with
  | skip => rw [faultsOf, he]; rfl
  | fault f => rw [faultsOf, he]; rfl
  | write calls stop? =>
    cases hstop
    rw [faultsOf, he]
    rfl

/-- A clause without effect on those after it, given the ones before it. -/
inductive Idle (depth : Nat) (scope : Scope) (before : List Clause) (c : Clause) : Prop
  | inert : c.isInert → Idle depth scope before c
  | dropped : c.run depth scope = some (.ok .drop) → Idle depth scope before c
  | faulted {error : EvalError} : c.run depth scope = some (.error error) →
      Idle depth scope before c
  | behind {b : Clause} {s : Stop} : b ∈ before → b.Raises depth scope s →
      Idle depth scope before c

/-- What did not compile neither writes nor stops nor fails. -/
lemma effect_of_isInert (depth : Nat) (scope : Scope) (h : c.isInert) :
    c.effect depth scope = some (.write [] none) := by
  have hprogram : c.program = none := Option.isNone_iff_eq_none.1 h
  simp [effect, run, hprogram, effectOf, Outcome.value?, setter?, h, Outcome.stop?]

/-- The first clause of a list is idle only if it neither calls anything nor stops. -/
lemma Idle.alone (h : c.Idle depth scope []) (he : c.effect depth scope = some e) :
    e.alone.calls = [] ∧ e.alone.stop? = none := by
  cases h with
  | inert hinert =>
    cases he.symm.trans (effect_of_isInert depth scope hinert)
    exact ⟨rfl, rfl⟩
  | dropped hrun | faulted hrun =>
    rw [effect, hrun] at he
    cases he
    exact ⟨rfl, rfl⟩
  | behind hb => cases hb

lemma Idle.tail {b : Clause} {before : List Clause} (h : c.Idle depth scope (b :: before))
    (hb : ∀ s, ¬ b.Raises depth scope s) : c.Idle depth scope before := by
  cases h with
  | inert hinert => exact .inert hinert
  | dropped hrun => exact .dropped hrun
  | faulted hrun => exact .faulted hrun
  | behind hmem hraises =>
    rcases List.mem_cons.1 hmem with rfl | hmem
    · exact absurd hraises (hb _)
    · exact .behind hmem hraises

/-- Without some of its idle clauses a list makes the same calls and stops in the same way, and
leaves the faults of the clauses that are kept. -/
theorem evaluate_keepAt (hev : evaluate depth scope cs = some ev) (keep : Nat → Bool)
    (hidle : ∀ i c, cs[i]? = some c → keep i = false → c.Idle depth scope (cs.take i)) :
    evaluate depth scope (keepAt keep cs) =
      some ⟨ev.calls, (keepAt keep (faultsOf depth scope cs)).reduceOption, ev.stop?⟩ := by
  induction cs generalizing ev keep with
  | nil =>
    cases hev
    rfl
  | cons c cs ih =>
    rw [evaluate_cons] at hev
    obtain ⟨e, he, hev⟩ := Option.bind_eq_some_iff.1 hev
    have hfirst (hkeep : keep 0 = false) : e.alone.calls = [] ∧ e.alone.stop? = none :=
      (hidle 0 c rfl hkeep).alone he
    cases hstop : e.alone.stop? with
    -- the clause that stops the list is not idle, and none of those behind it leaves a fault
    | some s =>
      have hkeep : keep 0 = true := by
        by_contra hkeep
        cases hstop.symm.trans (hfirst (by simpa using hkeep)).2
      have hfaults : (keepAt keep (faultsOf depth scope (c :: cs))).reduceOption = [] := by
        rw [faultsOf_of_stop he hstop, keepAt_cons, if_pos hkeep, keepAt_map]
        simp [List.reduceOption]
      rw [Evaluation.andThen_of_stop hstop] at hev
      cases hev
      rw [hfaults, keepAt_cons, if_pos hkeep, evaluate_cons, he, Option.bind_some,
        Evaluation.andThen_of_stop hstop, ← Effect.faults_of_stop hstop]
    -- the clause raises no stop, so those behind it are idle without it too
    | none =>
      rw [Evaluation.andThen_of_continue hstop] at hev
      obtain ⟨later, hlater, rfl⟩ := Option.map_eq_some_iff.1 hev
      have htail : evaluate depth scope (keepAt (fun i => keep (i + 1)) cs) =
          some ⟨later.calls, (keepAt (fun i => keep (i + 1))
            (faultsOf depth scope cs)).reduceOption, later.stop?⟩ := by
        refine ih hlater _ fun i d hd hkeep => (hidle (i + 1) d hd hkeep).tail fun s hraises => ?_
        cases hstop.symm.trans ((raises_iff he).1 hraises)
      rw [faultsOf_of_continue he hstop, keepAt_cons, keepAt_cons, Evaluation.before]
      cases hkeep : keep 0 with
      | true =>
        rw [if_pos rfl, if_pos rfl, evaluate_cons, he, htail, Option.bind_some,
          Evaluation.andThen_of_continue hstop, Option.map_some, Evaluation.before,
          Effect.faults_alone]
        cases e.fault? <;> rfl
      | false =>
        rw [if_neg (by simp), if_neg (by simp), htail, (hfirst hkeep).1, List.nil_append]

/-- An error is that of the expression of a clause. -/
def Diagnoses (c : Clause) (error : CompileError) : Prop :=
  Expr.compile .template (String.ofList (Text.trim (split c.source.toList).2)) = .error error

section
variable {piece : List Char}

lemma compile_of_ok {e : Expr}
    (h : Expr.compile .template (String.ofList (Text.trim (split piece).2)) = .ok e) :
    compile piece =
      (⟨Target.ofKey (Text.trim (split piece).1), some e, String.ofList piece⟩, none) := by
  simp only [compile, h]

lemma compile_of_error {error : CompileError}
    (h : Expr.compile .template (String.ofList (Text.trim (split piece).2)) = .error error) :
    compile piece =
      (⟨Target.ofKey (Text.trim (split piece).1), none, String.ofList piece⟩, some error) := by
  simp only [compile, h]

/-- A clause is inert exactly if its expression does not compile. -/
lemma isInert_compile_iff :
    (compile piece).1.isInert ↔ ∃ error, (compile piece).1.Diagnoses error := by
  cases h : Expr.compile .template (String.ofList (Text.trim (split piece).2)) with
  | ok e => simp [compile_of_ok h, Diagnoses, isInert, h]
  | error error => simp [compile_of_error h, Diagnoses, isInert, h]

end

end Clause

namespace ClauseList

/-- Exactly the inert clauses have an error, in order. -/
lemma diagnosed (text : String) :
    List.Forall₂ Clause.Diagnoses ((compile text).clauses.filter Clause.isInert)
      (compile text).diagnostics := by
  simp only [compile]
  induction pieces text with
  | nil => exact .nil
  | cons piece rest ih =>
    rw [List.map_cons, List.map_cons, List.filterMap_cons]
    cases h : Expr.compile .template (String.ofList (Text.trim (Clause.split piece).2)) with
    | ok e =>
      rw [Clause.compile_of_ok h]
      exact ih
    | error error =>
      rw [Clause.compile_of_error h]
      refine .cons ?_ ih
      rw [Clause.Diagnoses, String.toList_ofList, h]

/-- The clauses of a text do not depend on those that did not compile, were dropped, failed, or
stand behind a stop. Any of these may be left out: the others make the same calls, stop in the same
way and leave their own faults. The errors of the list are those of its inert clauses, and an inert
clause neither writes nor stops nor fails. -/
theorem evaluate_without_idle (text : String) :
    (∀ scope depth ev, (compile text).evaluate depth scope = some ev →
      ev.faults = (Clause.faultsOf depth scope (compile text).clauses).reduceOption ∧
      ∀ keep : Nat → Bool,
        (∀ i c, (compile text).clauses[i]? = some c → keep i = false →
          c.Idle depth scope ((compile text).clauses.take i)) →
        Clause.evaluate depth scope (keepAt keep (compile text).clauses) =
          some ⟨ev.calls,
            (keepAt keep (Clause.faultsOf depth scope (compile text).clauses)).reduceOption,
            ev.stop?⟩) ∧
    List.Forall₂ Clause.Diagnoses ((compile text).clauses.filter Clause.isInert)
      (compile text).diagnostics ∧
    ∀ c ∈ (compile text).clauses, (c.isInert ↔ ∃ error, c.Diagnoses error) ∧
      (c.isInert → ∀ depth scope, c.effect depth scope = some (.write [] none)) := by
  refine ⟨fun scope depth ev hev => ⟨?_, Clause.evaluate_keepAt hev⟩, diagnosed text,
    fun c hc => ⟨?_, fun hinert depth scope => Clause.effect_of_isInert depth scope hinert⟩⟩
  · have hall := Clause.evaluate_keepAt hev (fun _ => true) (fun _ _ _ => nofun)
    rw [keepAt_true, keepAt_true] at hall
    exact congrArg Evaluation.faults (Option.some.inj (hev.symm.trans hall))
  · obtain ⟨_, hcompiled, rfl⟩ := List.mem_map.1 hc
    obtain ⟨piece, -, rfl⟩ := List.mem_map.1 hcompiled
    exact Clause.isInert_compile_iff

/-- Of six clauses only the first one and the one that stops are kept. -/
theorem evaluate_without_idle_six :
    let list := compile "x=true;a=';b=$.drop(item.v);c=item.v.w;$break=true;d=item"
    let scope := Scope.template .null (.object []) .null
    let keep : Nat → Bool := fun i => i = 0 ∨ i = 4
    list.evaluate 0 scope = some ⟨[.setAttribute "x" (.bool true)],
      [⟨"c=item.v.w", ⟨"w", .undefined⟩⟩], some .list⟩ ∧
    (∀ i c, list.clauses[i]? = some c → keep i = false → c.Idle 0 scope (list.clauses.take i)) ∧
    Clause.evaluate 0 scope (keepAt keep list.clauses) =
      some ⟨[.setAttribute "x" (.bool true)], [], some .list⟩ := by
  intro list scope keep
  have hclauses : list.clauses =
      [⟨.attr "x", some (.bool true), "x=true"⟩, ⟨.attr "a", none, "a='"⟩,
        ⟨.attr "b", some (.controlOn .drop (.member (.input .item) "v")), "b=$.drop(item.v)"⟩,
        ⟨.attr "c", some (.member (.member (.input .item) "v") "w"), "c=item.v.w"⟩,
        ⟨.control "$break", some (.bool true), "$break=true"⟩,
        ⟨.attr "d", some (.input .item), "d=item"⟩] := by
    cbv
  have hev : list.evaluate 0 scope = some ⟨[.setAttribute "x" (.bool true)],
      [⟨"c=item.v.w", ⟨"w", .undefined⟩⟩], some .list⟩ := by
    rw [evaluate, hclauses]
    rfl
  have hbreak : Clause.Raises 0 scope
      ⟨.control "$break", some (.bool true), "$break=true"⟩ .list := .setter rfl rfl
  have hidle : ∀ i c, list.clauses[i]? = some c → keep i = false →
      c.Idle 0 scope (list.clauses.take i) := by
    rw [hclauses]
    intro i c hc hkeep
    rcases i with _ | _ | _ | _ | _ | _ | i
    · cases hkeep
    · cases hc
      exact .inert rfl
    · cases hc
      exact .dropped rfl
    · cases hc
      exact .faulted rfl
    · cases hkeep
    · cases hc
      refine .behind ?_ hbreak
      simp
    · cases hc
  have hfaults : (keepAt keep (Clause.faultsOf 0 scope list.clauses)).reduceOption = [] := by
    rw [hclauses]
    rfl
  obtain ⟨hwithout, -⟩ := evaluate_without_idle
    "x=true;a=';b=$.drop(item.v);c=item.v.w;$break=true;d=item"
  refine ⟨hev, hidle, ?_⟩
  rw [(hwithout scope 0 _ hev).2 keep hidle, hfaults]

end ClauseList

end Timeline
