import Mathlib
import Timeline.Proofs.Evaluation.Rank
import Timeline.Proofs.Expression.Sites

/-! # Lexical scoping

A parameter that a run reads is the argument of the innermost arrow of that name around it in the
text, however the predicates were passed on or captured; and an input is always one of the scope.
Every environment of a run holds one argument for each arrow around the site, so a run that stops
where a name would have no meaning gives what the run itself gives. -/
namespace Timeline

namespace Env

/-- The argument of an arrow around an expression, the innermost arrow being number zero. -/
def argument? : Env → Nat → Option Value
  | empty, _ => none
  | bind _ _ value, 0 => some value
  | bind outer _ _, n + 1 => outer.argument? n

lemma lookup?_eq_argument? (env : Env) (name : String) :
    env.lookup? name = (env.names.reverse.idxOf? name).bind env.argument? := by
  fun_induction env.lookup? name with
  | case1 => rfl
  | case2 outer value => simp [names, argument?, List.idxOf?_cons]
  | case3 outer param value hne ih =>
    have hindex : ((outer.bind param value).names.reverse.idxOf? name) =
        (outer.names.reverse.idxOf? name).map (· + 1) := by
      simp [names, List.idxOf?_cons, hne]
    rw [hindex, Option.bind_map, ih]
    rfl

lemma exists_lookup? {env : Env} {name : String} (h : name ∈ env.names) :
    ∃ v, env.lookup? name = some v := by
  fun_induction env.lookup? name with
  | case1 => simp [names] at h
  | case2 outer value => exact ⟨value, rfl⟩
  | case3 outer param value hne ih =>
    simp only [names, List.mem_append, List.mem_singleton, Ne.symm hne, or_false] at h
    exact ih h

end Env

namespace Scope

def bindings : Scope → Bindings
  | template .. => .template
  | date .. => .primeDate

/-- What an input is in a scope of its kind. -/
def read? : Scope → Input → Option Value
  | template project _ _, .project => some (.ofDocument 0 project)
  | template _ item _, .item => some (.ofDocument 1 item)
  | template _ _ layout, .layout => some (.ofDocument 2 layout)
  | date year _ _, .year => some (.number (Number.Binary64.ofInt year))
  | date _ month _, .month => some (.number (Number.Binary64.ofInt month))
  | date _ _ day, .day => some (.number (Number.Binary64.ofInt day))
  | _, _ => none

lemma read?_eq_some {scope : Scope} {name : String} {i : Input}
    (h : scope.bindings.input? name = some i) : scope.read? i = some (scope.read i) := by
  unfold Bindings.input? at h
  split at h <;> cases h <;> cases scope <;> first | rfl | contradiction

end Scope

/-- How an evaluation reads a parameter at a site, and an input. -/
structure NameReader where
  param : List Nat → Env → String → Except Interrupt Value
  input : Input → Except Interrupt Value

namespace NameReader

/-- Reads a name without a meaning as `undefined`. -/
def lenient (scope : Scope) : NameReader where
  param _ env name := .ok ((env.lookup? name).getD .undefined)
  input i := .ok (scope.read i)

/-- Reads a name as the text has it, and stops where that is not possible: the parameter must stand
at its site, the arguments at hand must be those of the arrows around it, and one of these must have
its name. -/
def lexical (stray : Interrupt) (tree : Tree) (scope : Scope) : NameReader where
  param site env name :=
    if (tree.at? site).bind Tree.name? = some name ∧ env.names = tree.around site then
      match ((tree.around site).reverse.idxOf? name).bind env.argument? with
      | some value => .ok value
      | none => .error stray
    else .error stray
  input i :=
    match scope.read? i with
    | some value => .ok value
    | none => .error stray

end NameReader

namespace Expr

/-- Evaluates an expression with its names read in a given way. -/
def evalBy (reader : NameReader) (call : Call) (env : Env) (site : List Nat) :
    Expr → Except Interrupt Value
  | number x => .ok (.number x)
  | text s => .ok (.text s)
  | bool b => .ok (.bool b)
  | null => .ok .null
  | undefined => .ok .undefined
  | input i => reader.input i
  | param key => reader.param site env key
  | member object key => do
    let object ← evalBy reader call env (0 :: site) object
    (object.property key).mapError .error
  | index object key => do
    let object ← evalBy reader call env (0 :: site) object
    let key ← evalBy reader call env (1 :: site) key
    (object.property key.toText).mapError .error
  | unary op operand => do
    let v ← evalBy reader call env (0 :: site) operand
    .ok (op.apply v)
  | binary op left right => do
    let l ← evalBy reader call env (0 :: site) left
    let r ← evalBy reader call env (1 :: site) right
    .ok (op.apply l r)
  | logical op left right => do
    let l ← evalBy reader call env (0 :: site) left
    if op.takesRight l then evalBy reader call env (1 :: site) right else .ok l
  | conditional test yes no => do
    let t ← evalBy reader call env (0 :: site) test
    if t.isTruthy then evalBy reader call env (1 :: site) yes
    else evalBy reader call env (2 :: site) no
  | arrow parameter body => .ok (.function site parameter body env)
  | control f => f.settle call .undefined none
  | controlOn f value => do
    let v ← evalBy reader call env (0 :: site) value
    f.settle call v none
  | controlWhen f value check => do
    let v ← evalBy reader call env (0 :: site) value
    let c ← evalBy reader call env (1 :: site) check
    f.settle call v (some c)

/-- Calls an arrow as `callWithin` does, with the names of its body read in a given way. -/
def callBy (reader : NameReader) : Nat → Call
  | 0 => fun _ _ _ _ _ => .error .tooDeep
  | depth + 1 => fun site param body captured argument =>
    evalBy reader (callBy reader depth) (captured.bind param argument) (0 :: site) body

def runBy (reader : NameReader) (depth : Nat) (e : Expr) : Except Interrupt Value :=
  evalBy reader (callBy reader depth) .empty [] e

lemma evalBy_lenient (call : Call) (scope : Scope) (e : Expr) (env : Env) (site : List Nat) :
    evalBy (.lenient scope) call env site e = evalWith call scope env site e := by
  induction e generalizing env site with
  | number | text | bool | null | undefined | input | param | arrow | control => rfl
  | _ => simp_all [evalBy, evalWith]

lemma callBy_lenient (scope : Scope) (depth : Nat) :
    callBy (.lenient scope) depth = callWithin scope depth := by
  induction depth with
  | zero => rfl
  | succ depth ih =>
    funext site param body captured argument
    exact (congrArg (evalBy _ · _ _ _) ih).trans (evalBy_lenient _ scope body _ _)

end Expr

mutual

/-- Is every function of a value an arrow of the text, together with one argument for each arrow
around it? -/
def Value.Lexical (bindings : Bindings) (tree : Tree) : Value → Prop
  | .function site param body captured =>
    tree.Stands bindings site (.arrow param body) ∧ captured.names = tree.around site ∧
      captured.Lexical bindings tree
  | .signal _ inner => inner.Lexical bindings tree
  | .undefined | .null | .bool _ | .number _ | .text _ | .data _ => True

def Env.Lexical (bindings : Bindings) (tree : Tree) : Env → Prop
  | .empty => True
  | .bind outer _ value => outer.Lexical bindings tree ∧ value.Lexical bindings tree

end

section
variable {bindings : Bindings} {tree : Tree}

lemma Value.lexical_of_isFlat {v : Value} (h : v.isFlat) : v.Lexical bindings tree := by
  cases v with
  | function | signal => cases h
  | _ => trivial

lemma Value.Lexical.property {v w : Value} {key : String} (hv : v.Lexical bindings tree)
    (h : v.property key = .ok w) : w.Lexical bindings tree := by
  obtain hflat | ⟨s, rfl⟩ := isFlat_or_of_property h
  · exact lexical_of_isFlat hflat
  · exact hv

lemma Env.Lexical.lookup? {env : Env} (h : env.Lexical bindings tree) {name : String} {v : Value}
    (hv : env.lookup? name = some v) : v.Lexical bindings tree := by
  cases env with
  | empty => cases hv
  | bind outer param value =>
    rw [Env.lookup?] at hv
    split_ifs at hv
    · cases hv
      exact h.2
    · exact lookup? h.1 hv

end

/-- Two computations give the same, and what they give has the property. -/
def Agree {α : Type} (P : α → Prop) (x y : Except Interrupt α) : Prop :=
  x = y ∧ ∀ a, y = .ok a → P a

namespace Agree

variable {α β : Type} {P : α → Prop} {Q : β → Prop} {x y : Except Interrupt α}

lemma ok {a : α} (h : P a) : Agree P (.ok a) (.ok a) := by
  refine ⟨rfl, ?_⟩
  rintro b ⟨⟩
  exact h

lemma error (i : Interrupt) : Agree P (.error i) (.error i) := ⟨rfl, nofun⟩

lemma bind {f g : α → Except Interrupt β} (hx : Agree P x y) (hf : ∀ a, P a → Agree Q (f a) (g a)) :
    Agree Q (x >>= f) (y >>= g) := by
  obtain ⟨rfl, hP⟩ := hx
  cases x with
  | error i => exact error i
  | ok a => exact hf a (hP a rfl)

end Agree

/-- An environment that holds one argument for each arrow around an expression of the text. -/
structure Env.Fits (scope : Scope) (tree : Tree) (site : List Nat) (e : Expr) (env : Env) :
    Prop where
  stands : tree.Stands scope.bindings site e
  names : env.names = tree.around site
  lexical : env.Lexical scope.bindings tree

variable {stray : Interrupt} {scope : Scope} {tree : Tree} {env : Env} {site : List Nat} {e : Expr}

namespace Env.Fits

lemma operand (h : env.Fits scope tree site e) (hparam : e.param? = none) {n : Nat} {e' : Expr}
    (he' : e.operands[n]? = some e') : env.Fits scope tree (n :: site) e' where
  stands := h.stands.operand he'
  names := by
    rw [h.names, h.stands.around_operand, hparam]
    simp
  lexical := h.lexical

lemma body {param : String} {body : Expr} {captured : Env} {argument : Value}
    (h : (Value.function site param body captured).Lexical scope.bindings tree)
    (hargument : argument.Lexical scope.bindings tree) :
    (captured.bind param argument).Fits scope tree (0 :: site) body := by
  obtain ⟨hstands, hnames, hcaptured⟩ := h
  refine ⟨hstands.operand rfl, ?_, hcaptured, hargument⟩
  rw [hstands.around_operand, Env.names, hnames]
  rfl

/-- A parameter is found, where the text has it. -/
lemma agree_param {name : String} (h : env.Fits scope tree site (.param name)) :
    Agree (Value.Lexical scope.bindings tree)
      ((NameReader.lexical stray tree scope).param site env name)
      ((NameReader.lenient scope).param site env name) := by
  obtain ⟨hname, hmem⟩ := h.stands.param
  simp only [NameReader.lexical, NameReader.lenient]
  rw [if_pos ⟨hname, h.names⟩, ← h.names, ← Env.lookup?_eq_argument?]
  obtain ⟨v, hv⟩ := Env.exists_lookup? (h.names ▸ hmem)
  rw [hv]
  exact .ok (h.lexical.lookup? hv)

lemma agree_input {i : Input} (h : env.Fits scope tree site (.input i)) :
    Agree (Value.Lexical scope.bindings tree) ((NameReader.lexical stray tree scope).input i)
      ((NameReader.lenient scope).input i) := by
  obtain ⟨name, hname⟩ := h.stands.input
  simp only [NameReader.lexical, NameReader.lenient, Scope.read?_eq_some hname]
  exact .ok (Value.lexical_of_isFlat (scope.isFlat_read i))

end Env.Fits

namespace Value

lemma Lexical.agree_property {v : Value} (key : String) (hv : v.Lexical scope.bindings tree) :
    Agree (Lexical scope.bindings tree) ((v.property key).mapError .error)
      ((v.property key).mapError .error) := by
  cases h : v.property key with
  | error e => exact .error _
  | ok w => exact .ok (hv.property h)

end Value

/-- Calling an arrow of the text with an argument gives the same. -/
def Call.AgreesWith (scope : Scope) (tree : Tree) (call call' : Call) : Prop :=
  ∀ site param body captured argument,
    (Value.function site param body captured).Lexical scope.bindings tree →
    argument.Lexical scope.bindings tree →
    Agree (Value.Lexical scope.bindings tree) (call site param body captured argument)
      (call' site param body captured argument)

namespace ControlFn

variable {call call' : Call}

lemma agree_settle (f : ControlFn) {value : Value} {check : Option Value}
    (hfires : Agree (fun _ => True) (fires call value check) (fires call' value check))
    (hvalue : value.Lexical scope.bindings tree) :
    Agree (Value.Lexical scope.bindings tree) (f.settle call value check)
      (f.settle call' value check) := by
  rw [settle_eq_bind, settle_eq_bind]
  refine hfires.bind fun fired _ => ?_
  cases fired with
  | false => exact .ok hvalue
  | true =>
    cases f with
    | drop => exact .error _
    | stopList | stopPass => exact .ok hvalue

lemma agree_fires (h : call.AgreesWith scope tree call') {value check : Value}
    (hvalue : value.Lexical scope.bindings tree) (hcheck : check.Lexical scope.bindings tree) :
    Agree (fun _ => True) (fires call value (some check)) (fires call' value (some check)) := by
  cases check with
  | function site param body captured =>
    rw [fires_function, fires_function]
    split_ifs
    · exact .ok trivial
    · exact (h site param body captured value hcheck hvalue).bind fun _ _ => .ok trivial
  | _ =>
    simp only [fires]
    split_ifs <;> exact .ok trivial

end ControlFn

namespace Expr

/-- What an expression of the text gives does not depend on how names without a meaning are read. -/
theorem evalBy_agree {call call' : Call} (h : call.AgreesWith scope tree call') (e : Expr)
    {env : Env} {site : List Nat} (hfits : env.Fits scope tree site e) :
    Agree (Value.Lexical scope.bindings tree) (evalBy (.lexical stray tree scope) call env site e)
      (evalBy (.lenient scope) call' env site e) := by
  induction e generalizing env site with
  | number | text | bool | null | undefined => exact .ok trivial
  | input i => exact hfits.agree_input
  | param name => exact hfits.agree_param
  | member object key ih =>
    exact (ih (hfits.operand rfl rfl)).bind fun object hobject => hobject.agree_property key
  | index object key ihObject ihKey =>
    exact (ihObject (hfits.operand rfl rfl)).bind fun object hobject =>
      (ihKey (hfits.operand rfl rfl)).bind fun key _ => hobject.agree_property key.toText
  | unary op operand ih =>
    exact (ih (hfits.operand rfl rfl)).bind fun v _ =>
      .ok (Value.lexical_of_isFlat (op.isFlat_apply v))
  | binary op left right ihLeft ihRight =>
    exact (ihLeft (hfits.operand rfl rfl)).bind fun l _ =>
      (ihRight (hfits.operand rfl rfl)).bind fun r _ =>
        .ok (Value.lexical_of_isFlat (op.isFlat_apply l r))
  | logical op left right ihLeft ihRight =>
    refine (ihLeft (hfits.operand rfl rfl)).bind fun l hl => ?_
    cases op.takesRight l with
    | true => exact ihRight (hfits.operand rfl rfl)
    | false => exact .ok hl
  | conditional test yes no ihTest ihYes ihNo =>
    refine (ihTest (hfits.operand rfl rfl)).bind fun t _ => ?_
    cases t.isTruthy with
    | true => exact ihYes (hfits.operand rfl rfl)
    | false => exact ihNo (hfits.operand rfl rfl)
  | arrow param body => exact .ok ⟨hfits.stands, hfits.names, hfits.lexical⟩
  | control f => exact f.agree_settle (.ok trivial) trivial
  | controlOn f value ih =>
    exact (ih (hfits.operand rfl rfl)).bind fun v hv => f.agree_settle (.ok trivial) hv
  | controlWhen f value check ihValue ihCheck =>
    exact (ihValue (hfits.operand rfl rfl)).bind fun v hv =>
      (ihCheck (hfits.operand rfl rfl)).bind fun c hc =>
        f.agree_settle (ControlFn.agree_fires h hv hc) hv

theorem callBy_agree (depth : Nat) :
    (callBy (.lexical stray tree scope) depth).AgreesWith scope tree
      (callBy (.lenient scope) depth) := by
  induction depth with
  | zero => exact fun _ _ _ _ _ _ _ => .error _
  | succ depth ih =>
    intro site param body captured argument hfunction hargument
    exact evalBy_agree ih body (.body hfunction hargument)

/-- A run of a compiled text never reads a name without a meaning: it gives what it gives with every
parameter read as the argument of the innermost arrow of that name around it in the text, and with
inputs of the scope only, whatever is to happen elsewhere. -/
theorem evalWithin_eq_lexical {s : String} {scope : Scope} {e : Expr}
    (h : compile scope.bindings s = .ok e) :
    ∃ tree, Tree.ofText? s = some tree ∧ ∀ stray depth,
      e.evalWithin depth scope = runBy (.lexical stray tree scope) depth e := by
  unfold compile at h
  split at h
  · next tree htree =>
    refine ⟨tree, htree, fun stray depth => ?_⟩
    have hfits : Env.empty.Fits scope tree [] e := ⟨Tree.stands_of_resolve h, rfl, trivial⟩
    obtain ⟨hsame, -⟩ : Agree _ (runBy (.lexical stray tree scope) depth e) _ :=
      evalBy_agree (callBy_agree depth) e hfits
    rw [hsame, callBy_lenient, evalBy_lenient, evalWithin]
  · cases h

/-- A predicate inside another one, which captures `v` and whose parameter hides an input. -/
def captures : Expr :=
  .controlWhen .drop (.member (.input .project) "limit")
    (.arrow "v" (.controlWhen .drop (.member (.input .item) "size")
      (.arrow "item" (.binary .greater (.param "item") (.param "v")))))

theorem evalWithin_eq_lexical_captures :
    compile .template "$.drop(project.limit, v => $.drop(item.size, item => item > v))" =
      .ok captures ∧
    ∀ project item layout, ∃ tree,
      Tree.ofText? "$.drop(project.limit, v => $.drop(item.size, item => item > v))" = some tree ∧
      ∀ stray depth, captures.evalWithin depth (.template project item layout) =
        runBy (.lexical stray tree (.template project item layout)) depth captures := by
  have hcompile : compile .template
      "$.drop(project.limit, v => $.drop(item.size, item => item > v))" = .ok captures := by cbv
  exact ⟨hcompile, fun project item layout =>
    @evalWithin_eq_lexical _ (.template project item layout) _ hcompile⟩

end Expr

end Timeline
