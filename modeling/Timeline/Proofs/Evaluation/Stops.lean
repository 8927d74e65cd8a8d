import Timeline.Proofs.Evaluation.Rank
import Timeline.Proofs.Expression.Sites

/-! # Stops

A stop is a value that carries another one out of its expression. Of what an arrow gives only the
truth is asked for, so every stop in the value of an expression was made by a control call that its
evaluation got to outside of its arrows. A stop is truthy and identical to nothing; only a predicate
makes a control call stop on one. -/
namespace Timeline

namespace Value

def isSignal : Value → Bool
  | signal .. => true
  | _ => false

/-- What holds of every stop in a value and what it carries. -/
def EveryStop (P : Stop → Value → Prop) : Value → Prop
  | signal s inner => P s inner ∧ inner.EveryStop P
  | _ => True

/-- Is a value an arrow that gives something truthy for an argument? -/
def HoldsOf (call : Call) : Value → Value → Prop
  | function site param body captured, argument =>
    ∃ result, call site param body captured argument = .ok result ∧ result.isTruthy
  | _, _ => False

variable {P : Stop → Value → Prop} {v w : Value}

lemma everyStop_of_isFlat (h : v.isFlat) : v.EveryStop P := by
  cases v with
  | function | signal => cases h
  | _ => trivial

lemma EveryStop.property {key : String} (hv : v.EveryStop P)
    (h : (v.property key).mapError Interrupt.error = .ok w) : w.EveryStop P := by
  cases hproperty : v.property key with
  | error e => simp [hproperty, Except.mapError] at h
  | ok u =>
    rw [hproperty] at h
    cases h
    obtain hflat | ⟨s, rfl⟩ := isFlat_or_of_property hproperty
    · exact everyStop_of_isFlat hflat
    · exact hv.2

lemma isTruthy_of_isSignal (h : v.isSignal) : v.isTruthy := by
  cases v with
  | signal => rfl
  | _ => cases h

lemma identical_eq_false_of_isSignal (h : v.isSignal) : v.identical w = false := by
  cases v with
  | signal => cases w <;> rfl
  | _ => cases h

end Value

namespace ControlFn

/-- The stop that a control function makes. -/
def stop? : ControlFn → Option Stop
  | stopList => some .list
  | stopPass => some .pass
  | drop => none

variable {f : ControlFn} {call : Call} {value c : Value}

/-- A control call gives its value, or a stop that carries it. -/
lemma settle_eq_ok {check : Option Value} {w : Value} (h : f.settle call value check = .ok w) :
    w = value ∨ fires call value check = .ok true ∧
      ∃ s, f.stop? = some s ∧ w = .signal s value := by
  rw [settle_eq_bind] at h
  obtain ⟨_ | _, hfires, h⟩ := Except.bind_eq_ok_iff.1 h
  · exact .inl (Except.ok.inj h).symm
  · cases f with
    | drop => cases h
    | stopList => exact .inr ⟨hfires, .list, rfl, (Except.ok.inj h).symm⟩
    | stopPass => exact .inr ⟨hfires, .pass, rfl, (Except.ok.inj h).symm⟩

lemma identical_or_holdsOf (h : fires call value (some c) = .ok true) :
    value.identical c ∨ c.HoldsOf call value := by
  cases c with
  | function site param body captured =>
    rw [fires_function] at h
    split_ifs at h with hidentical
    · exact .inl hidentical
    · obtain ⟨result, hresult, h⟩ := Except.bind_eq_ok_iff.1 h
      exact .inr ⟨result, hresult, Except.ok.inj h⟩
  | _ =>
    left
    simpa [fires] using h

end ControlFn

namespace Expr

/-- Does an expression ask for its second operand, once it knows the value of the first one? If it
does not, a condition asks for the third one. -/
def asksSecond : Expr → Value → Bool
  | logical op _ _, v => op.takesRight v
  | conditional .., v => v.isTruthy
  | _, _ => true

section
variable (call : Call) (scope : Scope) (env : Env)

/-- The parts of an expression that its evaluation gets to outside of its arrows, with their
sites. -/
inductive Evaluates (site : List Nat) (e : Expr) : List Nat → Expr → Prop
  | refl : Evaluates site e site e
  | first {site' part operand} (h : Evaluates site e site' part) (harrow : part.param? = none)
      (hoperand : part.operands[0]? = some operand) : Evaluates site e (0 :: site') operand
  | second {site' part left operand v} (h : Evaluates site e site' part)
      (hleft : part.operands[0]? = some left)
      (hv : evalWith call scope env (0 :: site') left = .ok v) (hasks : part.asksSecond v)
      (hoperand : part.operands[1]? = some operand) : Evaluates site e (1 :: site') operand
  | third {site' part test operand v} (h : Evaluates site e site' part)
      (htest : part.operands[0]? = some test)
      (hv : evalWith call scope env (0 :: site') test = .ok v) (hasks : part.asksSecond v = false)
      (hoperand : part.operands[2]? = some operand) : Evaluates site e (2 :: site') operand

/-- The expression is a control call that makes a stop, with what that carries. -/
inductive Makes (site : List Nat) : Expr → Stop → Value → Prop
  | always {f s} (hf : f.stop? = some s) : Makes site (.control f) s .undefined
  | falsy {f s value v} (hf : f.stop? = some s)
      (hvalue : evalWith call scope env (0 :: site) value = .ok v) (hv : v.isTruthy = false) :
      Makes site (.controlOn f value) s v
  | identical {f s value check v c} (hf : f.stop? = some s)
      (hvalue : evalWith call scope env (0 :: site) value = .ok v)
      (hcheck : evalWith call scope env (1 :: site) check = .ok c) (hc : v.identical c) :
      Makes site (.controlWhen f value check) s v
  | holds {f s value check v c} (hf : f.stop? = some s)
      (hvalue : evalWith call scope env (0 :: site) value = .ok v)
      (hcheck : evalWith call scope env (1 :: site) check = .ok c) (hc : c.HoldsOf call v) :
      Makes site (.controlWhen f value check) s v

/-- The expression is a control call whose check is a predicate that holds of a value. -/
def AsksPredicate (site : List Nat) (v : Value) : Expr → Prop
  | controlWhen _ _ check =>
    ∃ c, evalWith call scope env (1 :: site) check = .ok c ∧ c.HoldsOf call v
  | _ => False

end

variable {call : Call} {scope : Scope} {env : Env} {site site' site'' : List Nat}
  {e e' part : Expr} {s : Stop} {v : Value}

lemma Evaluates.trans (h : Evaluates call scope env site e site' e')
    (h' : Evaluates call scope env site' e' site'' part) :
    Evaluates call scope env site e site'' part := by
  induction h' with
  | refl => exact h
  | first _ harrow hoperand ih => exact ih.first harrow hoperand
  | second _ hleft hv hasks hoperand ih => exact ih.second hleft hv hasks hoperand
  | third _ htest hv hasks hoperand ih => exact ih.third htest hv hasks hoperand

/-- Only a predicate makes a control call stop on a stop. -/
lemma Makes.asksPredicate (h : Makes call scope env site part s v) (hv : v.isSignal) :
    part.AsksPredicate call scope env site v := by
  cases h with
  | always => cases hv
  | falsy _ _ hfalsy => cases hfalsy.symm.trans (Value.isTruthy_of_isSignal hv)
  | identical _ _ _ hc => cases (Value.identical_eq_false_of_isSignal hv).symm.trans hc
  | holds _ _ hcheck hc => exact ⟨_, hcheck, hc⟩

/-- What holds of all stops that control calls make, if the evaluation gets to them. -/
def EveryMade (call : Call) (scope : Scope) (env : Env) (P : Stop → Value → Prop)
    (site : List Nat) (e : Expr) : Prop :=
  ∀ site' part s v, Evaluates call scope env site e site' part →
    Makes call scope env site' part s v → P s v

namespace EveryMade

variable {P : Stop → Value → Prop}

lemma mono (h : EveryMade call scope env P site e) (he : Evaluates call scope env site e site' e') :
    EveryMade call scope env P site' e' :=
  fun _ _ _ _ hpart => h _ _ _ _ (he.trans hpart)

/-- A control call adds at most the stop that it makes. -/
lemma everyStop_settle {f : ControlFn} {check : Option Value} {w : Value}
    (h : f.settle call v check = .ok w) (hv : v.EveryStop P)
    (hmakes : ControlFn.fires call v check = .ok true → ∀ s, f.stop? = some s → P s v) :
    w.EveryStop P := by
  obtain rfl | ⟨hfires, s, hs, rfl⟩ := ControlFn.settle_eq_ok h
  · exact hv
  · exact ⟨hmakes hfires s hs, hv⟩

/-- The stops in the value of an expression come from its control calls, if none are at hand in its
parameters. -/
theorem everyStop (henv : ∀ name v, env.lookup? name = some v → v.EveryStop P)
    (hmade : EveryMade call scope env P site e) (h : evalWith call scope env site e = .ok v) :
    v.EveryStop P := by
  induction e generalizing site v with
  | number | text | bool | null | undefined | arrow =>
    cases h
    trivial
  | input i =>
    cases h
    exact Value.everyStop_of_isFlat (scope.isFlat_read i)
  | param name =>
    cases h
    cases hlookup : env.lookup? name with
    | none => trivial
    | some v => exact henv name v hlookup
  | member object key ih =>
    obtain ⟨object', hobject, h⟩ := Except.bind_eq_ok_iff.1 h
    exact (ih (hmade.mono (.first .refl rfl rfl)) hobject).property h
  | index object key ihObject _ =>
    obtain ⟨object', hobject, h⟩ := Except.bind_eq_ok_iff.1 h
    obtain ⟨key', -, h⟩ := Except.bind_eq_ok_iff.1 h
    exact (ihObject (hmade.mono (.first .refl rfl rfl)) hobject).property h
  | unary op operand _ =>
    obtain ⟨operand', -, ⟨⟩⟩ := Except.bind_eq_ok_iff.1 h
    exact Value.everyStop_of_isFlat (op.isFlat_apply operand')
  | binary op left right _ _ =>
    obtain ⟨l, -, h⟩ := Except.bind_eq_ok_iff.1 h
    obtain ⟨r, -, ⟨⟩⟩ := Except.bind_eq_ok_iff.1 h
    exact Value.everyStop_of_isFlat (op.isFlat_apply l r)
  | logical op left right ihLeft ihRight =>
    obtain ⟨l, hl, h⟩ := Except.bind_eq_ok_iff.1 h
    split_ifs at h with hasks
    · exact ihRight (hmade.mono (.second .refl rfl hl hasks rfl)) h
    · cases h
      exact ihLeft (hmade.mono (.first .refl rfl rfl)) hl
  | conditional test yes no _ ihYes ihNo =>
    obtain ⟨t, ht, h⟩ := Except.bind_eq_ok_iff.1 h
    split_ifs at h with hasks
    · exact ihYes (hmade.mono (.second .refl rfl ht hasks rfl)) h
    · exact ihNo (hmade.mono (.third .refl rfl ht (eq_false_of_ne_true hasks) rfl)) h
  -- a predicate only decides whether its call stops: what it gives is in no value
  | control f => exact everyStop_settle h trivial fun _ s hs => hmade _ _ _ _ .refl (.always hs)
  | controlOn f value ih =>
    obtain ⟨v, hv, h⟩ := Except.bind_eq_ok_iff.1 h
    refine everyStop_settle h (ih (hmade.mono (.first .refl rfl rfl)) hv) fun hfires s hs => ?_
    exact hmade _ _ _ _ .refl (.falsy hs hv (by simpa [ControlFn.fires] using hfires))
  | controlWhen f value check ihValue _ =>
    obtain ⟨v, hv, h⟩ := Except.bind_eq_ok_iff.1 h
    obtain ⟨c, hc, h⟩ := Except.bind_eq_ok_iff.1 h
    have hvalue := ihValue (hmade.mono (.first .refl rfl rfl)) hv
    refine everyStop_settle h hvalue fun hfires s hs => ?_
    obtain hidentical | hholds := ControlFn.identical_or_holdsOf hfires
    · exact hmade _ _ _ _ .refl (.identical hs hv hc hidentical)
    · exact hmade _ _ _ _ .refl (.holds hs hv hc hholds)

end EveryMade

end Expr

end Timeline
