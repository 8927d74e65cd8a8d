import Mathlib
import Timeline.Proofs.Evaluation.CallFree
import Timeline.Scale.PrimeDate

/-! # Runs of prime date maps

The program of a prime date map can read a year, a month and a day and nothing else, and it cannot
call anything. So it gives a value or an error of a property, and there is always something to be
read as a moment. -/
namespace Timeline

namespace Bindings

lemma mem_of_input?_primeDate {name : String} {i : Input} (h : primeDate.input? name = some i) :
    i ∈ [.year, .month, .day] := by
  unfold input? at h
  split at h <;> cases h <;> simp_all

lemma notMem_of_input?_template {name : String} {i : Input} (h : template.input? name = some i) :
    i ∉ [.year, .month, .day] := by
  unfold input? at h
  split at h <;> cases h <;> simp_all

end Bindings

/-- Without calls a run gives the same at every depth, and neither drops nor stops. -/
lemma Expr.exists_run_of_callFree {e : Expr} {scope : Scope}
    (h : CallFree fun call => evalWith call scope .empty [] e) :
    ∃ result : Except EvalError Value,
      (∀ depth, e.run depth scope = some (result.map .value)) ∧ ∀ v, result = .ok v → v.Plain := by
  obtain ⟨result, hresult, hplain⟩ := h
  refine ⟨result, fun depth => ?_, hplain⟩
  have hwithin : e.evalWithin depth scope = result.mapError .error := hresult _
  cases result with
  | error cause =>
    rw [run, hwithin]
    rfl
  | ok v =>
    rw [run, hwithin]
    have hv : v.Plain := hplain v rfl
    cases v <;> first | rfl | exact hv.elim

namespace PrimeDateMap

variable {text : String} {p : PrimeDateMap}

lemma compile_program (h : compile text = .ok p) :
    p.source = String.ofList (Text.trim text.toList) ∧
      Expr.compile .primeDate p.source = .ok p.program := by
  obtain ⟨program, hprogram, ⟨⟩⟩ := Except.bind_eq_ok_iff.1 h
  exact ⟨rfl, hprogram⟩

/-- A map gives what its program gives as a moment, or says why there is none. -/
lemma map_cases {m : Moment} {result : Except EvalError Value}
    (h : p.program.run 0 (.date m.date.year m.date.month m.date.day) =
      some (result.map .value)) :
    (∃ v prime, result = .ok v ∧ momentOf? v = some prime ∧ p.map m = .ok prime) ∨
      (∃ v, result = .ok v ∧ momentOf? v = none ∧
        p.map m = .error (.invalidTime 0 v.toText)) ∨
      ∃ cause, result = .error cause ∧ p.map m = .error (.primeDateMap p.source cause) := by
  cases result with
  | error cause => exact .inr (.inr ⟨cause, rfl, by simp [map, h, Except.map]⟩)
  | ok v =>
    cases hv : momentOf? v with
    | some prime =>
      exact .inl ⟨v, prime, rfl, hv, by simp [map, h, Except.map, Outcome.value?, hv]⟩
    | none => exact .inr (.inl ⟨v, rfl, hv, by simp [map, h, Except.map, Outcome.value?, hv]⟩)

/-- No part of a compiled map is a control call or an input of a template, and each gives a plain
value or an error of a property, whatever the parameters around it are and whatever a call would
give. So a run has an outcome at every depth, which is no drop and no stop, and the map gives a
moment, an invalid time or an error of the program. A template never reads a part of a date. -/
theorem map_self_contained :
    (∀ text p, compile text = .ok p →
      p.source = String.ofList (Text.trim text.toList) ∧
      (∀ part, p.program.HasPart part → part.isControl = false ∧
        (∀ i, part = .input i → i ∈ [.year, .month, .day]) ∧
        ∀ year month day (env : Env) site, env.Plain →
          CallFree fun call => part.evalWith call (.date year month day) env site) ∧
      ∀ m : Moment, ∃ result : Except EvalError Value,
        (∀ depth, p.program.run depth (.date m.date.year m.date.month m.date.day) =
          some (result.map .value)) ∧
        (∀ v, result = .ok v → v.Plain) ∧
        ((∃ v prime, result = .ok v ∧ momentOf? v = some prime ∧ p.map m = .ok prime) ∨
          (∃ v, result = .ok v ∧ momentOf? v = none ∧
            p.map m = .error (.invalidTime 0 v.toText)) ∨
          ∃ cause, result = .error cause ∧ p.map m = .error (.primeDateMap p.source cause))) ∧
    ∀ s e, Expr.compile .template s = .ok e →
      ∀ i, e.HasPart (.input i) → i ∉ [.year, .month, .day] := by
  refine ⟨fun text p h => ?_, fun s e h i hi => ?_⟩
  · obtain ⟨hsource, hprogram⟩ := compile_program h
    have hcontrol : p.program.FreeOfControl := Expr.freeOfControl_of_compile hprogram rfl
    refine ⟨hsource, fun part hpart => ⟨hcontrol part hpart, ?_, ?_⟩, fun m => ?_⟩
    · rintro i rfl
      obtain ⟨name, hname⟩ := Expr.exists_input_of_hasPart hprogram hpart
      exact Bindings.mem_of_input?_primeDate hname
    · intro year month day env site henv
      exact Expr.callFree_evalWith (hcontrol.hasPart hpart) henv year month day site
    · have hempty : Env.empty.Plain := trivial
      obtain ⟨result, hrun, hplain⟩ := Expr.exists_run_of_callFree
        (Expr.callFree_evalWith hcontrol hempty m.date.year m.date.month m.date.day [])
      exact ⟨result, hrun, hplain, map_cases (hrun 0)⟩
  · obtain ⟨name, hname⟩ := Expr.exists_input_of_hasPart h hi
    exact Bindings.notMem_of_input?_template hname

/-- An arrow may call its parameter `$`; what is read off it then is a property. -/
def shadowed : PrimeDateMap where
  source := "month < day ? year + '-01-01' : ($ => $.drop)"
  program := .conditional (.binary .less (.input .month) (.input .day))
    (.binary .add (.input .year) (.text "-01-01")) (.arrow "$" (.member (.param "$") "drop"))

theorem map_self_contained_shadowed :
    compile " month < day ? year + '-01-01' : ($ => $.drop) " = .ok shadowed ∧
    (∀ part, shadowed.program.HasPart part → part.isControl = false) ∧
    (∀ m, (∃ prime, shadowed.map m = .ok prime) ∨
      (∃ text, shadowed.map m = .error (.invalidTime 0 text)) ∨
      ∃ cause, shadowed.map m = .error (.primeDateMap shadowed.source cause)) ∧
    Expr.compile .template "item.start" = .ok (.member (.input .item) "start") ∧
    ∀ i, (Expr.member (.input .item) "start").HasPart (.input i) → i ∉ [.year, .month, .day] := by
  have hcompile : compile " month < day ? year + '-01-01' : ($ => $.drop) " = .ok shadowed := by
    cbv
  have htemplate : Expr.compile .template "item.start" = .ok (.member (.input .item) "start") := by
    cbv
  obtain ⟨-, hparts, hmap⟩ := map_self_contained.1 _ _ hcompile
  refine ⟨hcompile, fun part hpart => (hparts part hpart).1, fun m => ?_, htemplate,
    map_self_contained.2 _ _ htemplate⟩
  obtain ⟨-, -, -, ⟨_, prime, -, -, h⟩ | ⟨v, -, -, h⟩ | ⟨cause, -, h⟩⟩ := hmap m
  · exact .inl ⟨prime, h⟩
  · exact .inr (.inl ⟨v.toText, h⟩)
  · exact .inr (.inr ⟨cause, h⟩)

end PrimeDateMap

end Timeline
