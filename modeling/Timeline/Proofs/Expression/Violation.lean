import Timeline.Proofs.Expression.Layout
import Timeline.Proofs.Expression.Sites
import Timeline.Proofs.Expression.Written

/-! # Violations

Why a text that can be read does not compile: a name that nothing binds, a call of anything but a
control function, or a control call with too many arguments. Each violation is detected at a place
of the text, wherever in the tree it is, and the one detected leftmost is what is reported. -/
namespace Timeline

/-- Does a name stand for something inside arrows with the given parameters? -/
def Bindings.Binds (bindings : Bindings) (params : List String) (name : String) : Prop :=
  name ∈ params ∨ (∃ i, bindings.input? name = some i) ∨ name = "NaN" ∨ name = "Infinity"

namespace Tree

/-- Is a callee a control function: a member of `$`, without parentheses, in a template and where no
parameter hides `$`? -/
def IsControl (bindings : Bindings) (params : List String) (callee : Tree) (f : ControlFn) : Prop :=
  bindings = .template ∧ "$" ∉ params ∧
    ∃ span key, callee = .member (.name ['$'] span) key ∧ String.ofList key = f.name

/-- The violation of a tree itself, where it is detected, and its error. -/
inductive Offence (bindings : Bindings) (params : List String) : Tree → Nat → CompileError → Prop
  | unbound {letters span} (h : ¬ bindings.Binds params (String.ofList letters))
    (hname : String.ofList letters ≠ "$") : Offence bindings params (.name letters span) span.start
      (.unknownName (String.ofList letters) bindings span)
  | stray {letters span} (h : ¬ bindings.Binds params (String.ofList letters))
    (hname : String.ofList letters = "$") : Offence bindings params (.name letters span) span.start
      (.invalidControlUse span)
  | unsupported {callee args span} (h : ∀ f, ¬ IsControl bindings params callee f) :
    Offence bindings params (.call callee args span) span.start (.unsupportedCall span)
  | excess {callee args span f} (h : IsControl bindings params callee f) (hargs : 2 < args.length) :
    Offence bindings params (.call callee args span) (span.start + span.length - 1)
      (.tooManyArguments f args.length span)

open Classical in
/-- The parts of a tree with the parameters around them. The callee of a control call is none. -/
noncomputable def parts (bindings : Bindings) (params : List String) :
    Tree → List (List String × Tree)
  | group inner => [(params, inner)]
  | member object _ => [(params, object)]
  | index object key => [(params, object), (params, key)]
  | call callee args _ =>
    (if ∃ f, IsControl bindings params callee f then [] else [(params, callee)]) ++
      args.map (params, ·)
  | unary _ operand => [(params, operand)]
  | operation _ left right => [(params, left), (params, right)]
  | conditional test yes no => [(params, test), (params, yes), (params, no)]
  | arrow param body => [(String.ofList param :: params, body)]
  | number _ | text _ | keyword _ | name _ _ => []

/-- A violation anywhere in a tree. -/
inductive Violation (bindings : Bindings) : List String → Tree → Nat → CompileError → Prop
  | here {params tree place error} (h : Offence bindings params tree place error) :
    Violation bindings params tree place error
  | within {params tree part place error} (hpart : part ∈ tree.parts bindings params)
    (h : Violation bindings part.1 part.2 place error) : Violation bindings params tree place error

end Tree

namespace Lexeme

/-- Do tokens follow one another? -/
def Ordered (ls : List Lexeme) : Prop :=
  ls.Pairwise (fun l l' => l.stop ≤ l'.start) ∧ ∀ l ∈ ls, l.start < l.stop

lemma Laid.ordered {offset : Nat} {ls : List Lexeme} {cs : List Char} (h : Laid offset ls cs) :
    Ordered ls :=
  ⟨h.pairwise, h.start_lt_stop⟩

lemma Ordered.sublist {ls ms : List Lexeme} (h : Ordered ls) (hms : ms.Sublist ls) : Ordered ms :=
  ⟨h.1.sublist hms, fun l hl => h.2 l (hms.subset hl)⟩

lemma Ordered.left {ls ms : List Lexeme} (h : Ordered (ls ++ ms)) : Ordered ls :=
  h.sublist (List.sublist_append_left ..)

lemma Ordered.right {ls ms : List Lexeme} (h : Ordered (ls ++ ms)) : Ordered ms :=
  h.sublist (List.sublist_append_right ..)

/-- Where a call with its parentheses ends. -/
lemma Ordered.inside_last {ls ms : List Lexeme} {l r : Lexeme}
    (h : Ordered (ls ++ l :: ms ++ [r])) :
    r.start ≤ l.start + (r.stop - l.start) - 1 ∧ l.start + (r.stop - l.start) - 1 < r.stop := by
  have hl : l.start < l.stop := h.2 l (by simp)
  have hr : r.start < r.stop := h.2 r (by simp)
  have hlr : l.stop ≤ r.start := (List.pairwise_append.1 h.1).2.2 l (by simp) r (by simp)
  constructor <;> omega

end Lexeme

namespace Tree
open Lexeme

variable {bindings : Bindings} {params : List String} {tree : Tree} {ls ms : List Lexeme}
  {place place' : Nat} {error error' : CompileError}

lemma sublist_middle (ls : List Lexeme) (l : Lexeme) (ms ns : List Lexeme) :
    ms.Sublist (ls ++ l :: ms ++ ns) :=
  ((List.sublist_cons_self l ms).trans (List.sublist_append_right ls _)).trans
    (List.sublist_append_left ..)

lemma sublist_outer (ls : List Lexeme) (l : Lexeme) (ms ns : List Lexeme) :
    (ls ++ ms).Sublist (ls ++ l :: ms ++ ns) :=
  ((List.sublist_cons_self l ms).append_left ls).trans (List.sublist_append_left ..)

lemma WrittenAll.exists_of_mem {trees : List Tree} {ls : List Lexeme} (h : WrittenAll trees ls)
    (htree : tree ∈ trees) : ∃ ms, Written tree ms ∧ ms.Sublist ls := by
  cases h with
  | nil => cases htree
  | one h =>
    obtain rfl := List.mem_singleton.1 htree
    exact ⟨ls, h, .refl _⟩
  | more h _ _ hrest =>
    rcases List.mem_cons.1 htree with rfl | htree
    · exact ⟨_, h, List.sublist_append_left ..⟩
    · obtain ⟨ms, hms, hsublist⟩ := exists_of_mem hrest htree
      exact ⟨ms, hms, (hsublist.cons _).trans (List.sublist_append_right ..)⟩

/-- The parts of a tree are written by some of its tokens. -/
lemma Written.exists_of_mem_parts {part : List String × Tree} (h : Written tree ls)
    (hpart : part ∈ tree.parts bindings params) : ∃ ms, Written part.2 ms ∧ ms.Sublist ls := by
  cases h with
  | number | text | keyword | name => cases hpart
  | group _ h _ =>
    obtain rfl := List.mem_singleton.1 hpart
    exact ⟨_, h, by simp⟩
  | member h _ _ =>
    obtain rfl := List.mem_singleton.1 hpart
    exact ⟨_, h, by simp⟩
  | index h _ hkey _ =>
    simp only [parts, List.mem_cons, List.not_mem_nil, or_false] at hpart
    rcases hpart with rfl | rfl
    · exact ⟨_, h, by simp⟩
    · exact ⟨_, hkey, sublist_middle ..⟩
  | call h _ hargs _ =>
    rcases List.mem_append.1 hpart with hcallee | harg
    · split_ifs at hcallee
      · cases hcallee
      · obtain rfl := List.mem_singleton.1 hcallee
        exact ⟨_, h, by simp⟩
    · obtain ⟨arg, hmem, rfl⟩ := List.mem_map.1 harg
      obtain ⟨ns, hns, hsublist⟩ := hargs.exists_of_mem hmem
      exact ⟨ns, hns, hsublist.trans (sublist_middle ..)⟩
  | unary _ h =>
    obtain rfl := List.mem_singleton.1 hpart
    exact ⟨_, h, by simp⟩
  | operation hleft _ hright =>
    simp only [parts, List.mem_cons, List.not_mem_nil, or_false] at hpart
    rcases hpart with rfl | rfl
    · exact ⟨_, hleft, by simp⟩
    · exact ⟨_, hright, by simp⟩
  | conditional htest _ hyes _ hno =>
    simp only [parts, List.mem_cons, List.not_mem_nil, or_false] at hpart
    rcases hpart with rfl | rfl | rfl
    · exact ⟨_, htest, by simp⟩
    · exact ⟨_, hyes, sublist_middle ..⟩
    · exact ⟨_, hno, (List.sublist_cons_self ..).trans (List.sublist_append_right ..)⟩
  | arrow _ _ h =>
    obtain rfl := List.mem_singleton.1 hpart
    exact ⟨_, h, by simp⟩
  | enclosedArrow _ _ _ _ h =>
    obtain rfl := List.mem_singleton.1 hpart
    exact ⟨_, h, List.sublist_append_right [_, _, _, _] _⟩

lemma Offence.exists_mem (hoffence : Offence bindings params tree place error)
    (h : Written tree ls) (hls : Ordered ls) : ∃ l ∈ ls, l.start ≤ place ∧ place < l.stop := by
  cases hoffence with
  | unbound | stray =>
    cases h with
    | @name l => exact ⟨l, by simp, Nat.le_refl _, hls.2 l (by simp)⟩
  | unsupported =>
    cases h with
    | @call _ _ _ l => exact ⟨l, by simp, Nat.le_refl _, hls.2 l (by simp)⟩
  | excess =>
    cases h with
    | @call _ _ _ l _ r =>
      exact ⟨r, by simp, hls.inside_last⟩

/-- A violation is detected inside a token of the tree. -/
lemma Violation.exists_mem (hviolation : Violation bindings params tree place error)
    (h : Written tree ls) (hls : Ordered ls) : ∃ l ∈ ls, l.start ≤ place ∧ place < l.stop := by
  induction hviolation generalizing ls with
  | here hoffence => exact hoffence.exists_mem h hls
  | within hpart _ ih =>
    obtain ⟨ms, hms, hsublist⟩ := h.exists_of_mem_parts hpart
    obtain ⟨l, hl, hplace⟩ := ih hms (hls.sublist hsublist)
    exact ⟨l, hsublist.subset hl, hplace⟩

end Tree

/-- Is a result the error of the leftmost violation, and a success if there is none? -/
def Leftmost {α : Type} (violations : Nat → CompileError → Prop) : Except CompileError α → Prop
  | .ok _ => ∀ place error, ¬ violations place error
  | .error error => ∃ place, violations place error ∧ ∀ place' error', violations place' error' →
    place' = place ∧ error' = error ∨ place < place'

/-- Are all violations detected inside the tokens? -/
def Inside (ls : List Lexeme) (violations : Nat → CompileError → Prop) : Prop :=
  ∀ place error, violations place error → ∃ l ∈ ls, l.start ≤ place ∧ place < l.stop

namespace Inside

variable {vs ws : Nat → CompileError → Prop} {ls ms : List Lexeme}

lemma or (hv : Inside ls vs) (hw : Inside ms ws) :
    Inside (ls ++ ms) fun place error => vs place error ∨ ws place error := by
  rintro place error (h | h)
  · obtain ⟨l, hl, hplace⟩ := hv place error h
    exact ⟨l, List.mem_append_left _ hl, hplace⟩
  · obtain ⟨l, hl, hplace⟩ := hw place error h
    exact ⟨l, List.mem_append_right _ hl, hplace⟩

lemma lt (hv : Inside ls vs) (hw : Inside ms ws) (h : Lexeme.Ordered (ls ++ ms))
    {place place' : Nat} {error error' : CompileError} (hplace : vs place error)
    (hplace' : ws place' error') : place < place' := by
  obtain ⟨l, hl, -, hstop⟩ := hv place error hplace
  obtain ⟨m, hm, hstart, -⟩ := hw place' error' hplace'
  have hlm : l.stop ≤ m.start := (List.pairwise_append.1 h.1).2.2 l hl m hm
  omega

end Inside

namespace Leftmost

variable {α β : Type} {vs ws : Nat → CompileError → Prop} {ls ms : List Lexeme}
  {x : Except CompileError α}

lemma congr (h : Leftmost vs x) (hiff : ∀ place error, ws place error ↔ vs place error) :
    Leftmost ws x := by
  obtain rfl : ws = vs := funext fun place => funext fun error => propext (hiff place error)
  exact h

lemma map (h : Leftmost vs x) (f : α → β) : Leftmost vs (x >>= fun a => .ok (f a)) := by
  cases x <;> exact h

/-- Of two steps with violations in tokens that follow one another the first one is decisive. -/
lemma bind {f : α → Except CompileError β} (hx : Leftmost vs x) (hv : Inside ls vs)
    (hf : ∀ a, x = .ok a → Leftmost ws (f a)) (hw : Inside ms ws)
    (hls : Lexeme.Ordered (ls ++ ms)) :
    Leftmost (fun place error => vs place error ∨ ws place error) (x >>= f) := by
  cases x with
  | ok a =>
    refine (hf a rfl).congr fun place error => ?_
    simp [hx place error]
  | error error =>
    obtain ⟨place, herror, hfirst⟩ := hx
    refine ⟨place, .inl herror, ?_⟩
    rintro place' error' (h | h)
    · exact hfirst place' error' h
    · exact .inr (hv.lt hw hls herror h)

end Leftmost

namespace Tree
open Lexeme

variable {bindings : Bindings} {params : List String} {tree : Tree} {ls ms : List Lexeme}

lemma violation_iff {place : Nat} {error : CompileError} :
    Violation bindings params tree place error ↔ Offence bindings params tree place error ∨
      ∃ part ∈ tree.parts bindings params, Violation bindings part.1 part.2 place error := by
  constructor
  · rintro (h | ⟨hpart, h⟩)
    · exact .inl h
    · exact .inr ⟨_, hpart, h⟩
  · rintro (h | ⟨part, hpart, h⟩)
    · exact .here h
    · exact .within hpart h

/-- The violations of a tree without one of its own are those of its parts. -/
lemma leftmost_of_parts {α : Type} {x : Except CompileError α} {vs : Nat → CompileError → Prop}
    (h : Leftmost vs x) (hown : ∀ place error, ¬ Offence bindings params tree place error)
    (hparts : ∀ place error, vs place error ↔
      ∃ part ∈ tree.parts bindings params, Violation bindings part.1 part.2 place error) :
    Leftmost (Violation bindings params tree) x := by
  refine h.congr fun place error => ?_
  rw [violation_iff, hparts]
  simp [hown]

lemma Written.inside (h : Written tree ls) (hls : Ordered ls) :
    Inside ls (Violation bindings params tree) :=
  fun _ _ hviolation => hviolation.exists_mem h hls

lemma WrittenAll.inside {trees : List Tree} (h : WrittenAll trees ls) (hls : Ordered ls) :
    Inside ls fun place error => ∃ tree ∈ trees, Violation bindings params tree place error := by
  rintro place error ⟨tree, htree, hviolation⟩
  obtain ⟨ms, hms, hsublist⟩ := h.exists_of_mem htree
  obtain ⟨l, hl, hplace⟩ := hviolation.exists_mem hms (hls.sublist hsublist)
  exact ⟨l, hsublist.subset hl, hplace⟩

lemma ofName?_eq_some_iff {key : String} {f : ControlFn} :
    ControlFn.ofName? key = some f ↔ key = f.name := by
  constructor
  · intro h
    unfold ControlFn.ofName? at h
    split at h <;> cases h <;> rfl
  · rintro rfl
    cases f <;> rfl

lemma controlFn?_eq_some_iff {callee : Tree} {f : ControlFn} :
    controlFn? bindings params callee = some f ↔ IsControl bindings params callee f := by
  constructor
  · intro h
    unfold controlFn? at h
    split at h
    · next span key =>
      split_ifs at h with hcontrol
      obtain ⟨hallows, hparam⟩ := hcontrol
      refine ⟨?_, by simpa using hparam, span, key, rfl, ofName?_eq_some_iff.1 h⟩
      cases bindings with
      | template => rfl
      | primeDate => cases hallows
    · cases h
  · rintro ⟨rfl, hparam, span, key, rfl, hkey⟩
    rw [controlFn?, if_pos ⟨rfl, by simpa using hparam⟩]
    exact ofName?_eq_some_iff.2 hkey

lemma violation_name_iff {letters : List Char} {span : Span} {place : Nat} {error : CompileError} :
    Violation bindings params (.name letters span) place error ↔
      ¬ bindings.Binds params (String.ofList letters) ∧ place = span.start ∧
        error = if String.ofList letters = "$" then .invalidControlUse span
          else .unknownName (String.ofList letters) bindings span := by
  have hown : Violation bindings params (.name letters span) place error ↔
      Offence bindings params (.name letters span) place error := by
    rw [violation_iff]
    simp [parts]
  rw [hown]
  constructor
  · rintro (⟨h, hname⟩ | ⟨h, hname⟩)
    · exact ⟨h, rfl, by rw [if_neg hname]⟩
    · exact ⟨h, rfl, by rw [if_pos hname]⟩
  · rintro ⟨h, rfl, rfl⟩
    split_ifs with hname
    · exact .stray h hname
    · exact .unbound h hname

lemma leftmost_resolveName (letters : List Char) (span : Span) :
    Leftmost (Violation bindings params (.name letters span))
      (resolveName bindings params (String.ofList letters) span) := by
  have hbound {e : Expr} (h : bindings.Binds params (String.ofList letters)) :
      Leftmost (Violation bindings params (.name letters span)) (.ok e) :=
    fun _ _ hviolation => (violation_name_iff.1 hviolation).1 h
  have hunbound {error : CompileError} (h : ¬ bindings.Binds params (String.ofList letters))
      (herror : error = if String.ofList letters = "$" then .invalidControlUse span
        else .unknownName (String.ofList letters) bindings span) :
      Leftmost (Violation bindings params (.name letters span)) (.error error : Except _ Expr) := by
    refine ⟨span.start, violation_name_iff.2 ⟨h, rfl, herror⟩, fun _ _ hviolation => .inl ?_⟩
    rw [herror]
    exact (violation_name_iff.1 hviolation).2
  unfold resolveName
  split
  · next hparam => exact hbound (.inl (List.contains_iff_mem.1 hparam))
  · next hparam =>
    split
    · next i hi => exact hbound (.inr (.inl ⟨i, hi⟩))
    · next hinput =>
      split_ifs with hnan hinfinity hdollar
      · exact hbound (.inr (.inr (.inl hnan)))
      · exact hbound (.inr (.inr (.inr hinfinity)))
      all_goals
        refine hunbound ?_ (by simp [hdollar])
        rintro (h | ⟨i, hi⟩ | h | h)
        · exact hparam (List.contains_iff_mem.2 h)
        · rw [hinput] at hi
          cases hi
        · exact hnan h
        · exact hinfinity h

lemma leftmost_controlCall (f : ControlFn) (span : Span) (place : Nat) (es : List Expr) :
    Leftmost (fun place' error' => 2 < es.length ∧ place' = place ∧
      error' = .tooManyArguments f es.length span) (controlCall f span es) := by
  unfold controlCall
  split
  · simp [Leftmost]
  · simp [Leftmost]
  · simp [Leftmost]
  · next h₀ h₁ h₂ =>
    have hlength : 2 < es.length := by
      rcases es with _ | ⟨e₀, _ | ⟨e₁, _ | ⟨e₂, es⟩⟩⟩
      · exact absurd rfl h₀
      · exact absurd rfl (h₁ e₀)
      · exact absurd rfl (h₂ e₀ e₁)
      · simp
    exact ⟨place, ⟨hlength, rfl, rfl⟩, fun _ _ h => .inl h.2⟩

lemma violation_controlCall_iff {callee : Tree} {f : ControlFn} {args : List Tree} {span : Span}
    (hf : IsControl bindings params callee f) {place : Nat} {error : CompileError} :
    Violation bindings params (.call callee args span) place error ↔
      (∃ arg ∈ args, Violation bindings params arg place error) ∨
        2 < args.length ∧ place = span.start + span.length - 1 ∧
          error = .tooManyArguments f args.length span := by
  have hparts : parts bindings params (.call callee args span) = args.map (params, ·) := by
    rw [parts, if_pos ⟨f, hf⟩, List.nil_append]
  have hown : Offence bindings params (.call callee args span) place error ↔
      2 < args.length ∧ place = span.start + span.length - 1 ∧
        error = .tooManyArguments f args.length span := by
    constructor
    · rintro (_ | _ | h | ⟨h, hargs⟩)
      · exact absurd hf (h f)
      · rw [← controlFn?_eq_some_iff, controlFn?_eq_some_iff.2 hf, Option.some.injEq] at h
        exact ⟨hargs, rfl, by rw [h]⟩
    · rintro ⟨hargs, rfl, rfl⟩
      exact .excess hf hargs
  rw [violation_iff, hparts, hown, or_comm]
  simp

lemma violation_call_iff {callee : Tree} {args : List Tree} {span : Span}
    (h : ∀ f, ¬ IsControl bindings params callee f) {place : Nat} {error : CompileError} :
    Violation bindings params (.call callee args span) place error ↔
      Violation bindings params callee place error ∨
        (place = span.start ∧ error = .unsupportedCall span) ∨
          ∃ arg ∈ args, Violation bindings params arg place error := by
  have hparts : parts bindings params (.call callee args span) =
      (params, callee) :: args.map (params, ·) := by
    rw [parts, if_neg (by simpa using h)]
    rfl
  have hown : Offence bindings params (.call callee args span) place error ↔
      place = span.start ∧ error = .unsupportedCall span := by
    constructor
    · rintro (_ | _ | _ | ⟨hf, -⟩)
      · exact ⟨rfl, rfl⟩
      · exact absurd hf (h _)
    · rintro ⟨rfl, rfl⟩
      exact .unsupported h
  rw [violation_iff, hparts, hown, List.exists_mem_cons_iff, or_left_comm]
  simp

lemma leftmost_pair {left right : Tree} (hleft : Written left ls) (hright : Written right ms)
    (h : Ordered (ls ++ ms))
    (ihLeft : Leftmost (Violation bindings params left) (resolve bindings params left))
    (ihRight : Leftmost (Violation bindings params right) (resolve bindings params right))
    (f : Expr → Expr → Expr) :
    Leftmost (fun place error => Violation bindings params left place error ∨
        Violation bindings params right place error)
      (resolve bindings params left >>= fun l => resolve bindings params right >>= fun r =>
        .ok (f l r)) :=
  ihLeft.bind (hleft.inside h.left) (fun l _ => ihRight.map (f l)) (hright.inside h.right) h

mutual

theorem leftmost_resolve {params : List String} {tree : Tree} {ls : List Lexeme}
    (h : Written tree ls) (hls : Ordered ls) :
    Leftmost (Violation bindings params tree) (resolve bindings params tree) := by
  cases h with
  | number | text | keyword =>
    have hnone {e : Expr} : Leftmost (fun _ _ => False) (.ok e) := nofun
    exact leftmost_of_parts hnone nofun (by simp [parts])
  | name => exact leftmost_resolveName ..
  | group _ h _ =>
    rw [resolve]
    exact leftmost_of_parts (leftmost_resolve h (hls.sublist (by simp))) nofun (by simp [parts])
  | member h _ _ =>
    exact leftmost_of_parts ((leftmost_resolve h (hls.sublist (by simp))).map _) nofun
      (by simp [parts])
  | index h _ hkey _ =>
    have hpair := hls.sublist (sublist_outer ..)
    exact leftmost_of_parts (leftmost_pair h hkey hpair (leftmost_resolve h hpair.left)
      (leftmost_resolve hkey hpair.right) .index) nofun (by simp [parts])
  | @call callee args ls l ms r h _ hargs _ =>
    have hpair := hls.sublist (sublist_outer ..)
    by_cases hcontrol : ∃ f, IsControl bindings params callee f
    · obtain ⟨f, hf⟩ := hcontrol
      have hargsr : Ordered (ms ++ [r]) := hls.sublist
        (((List.sublist_cons_self l ms).trans (List.sublist_append_right ls _)).append_right [r])
      rw [resolve, controlFn?_eq_some_iff.2 hf]
      refine ((leftmost_resolveAll hargs hpair.right).bind (hargs.inside hpair.right)
        (fun es hes => ?_) ?_ hargsr).congr fun _ _ => violation_controlCall_iff hf
      · rw [(forall₂_of_resolveAll hes).length_eq]
        exact leftmost_controlCall f _ _ es
      · rintro place error ⟨-, rfl, -⟩
        exact ⟨r, by simp, hls.inside_last⟩
    · have hcontrol : ∀ f, ¬ IsControl bindings params callee f := not_exists.1 hcontrol
      have hnone : controlFn? bindings params callee = none :=
        Option.eq_none_iff_forall_ne_some.2 fun f hf => hcontrol f (controlFn?_eq_some_iff.1 hf)
      have hparen : Inside [l] fun place error =>
          place = l.start ∧ error = .unsupportedCall ⟨l.start, r.stop - l.start⟩ := by
        rintro place error ⟨rfl, -⟩
        exact ⟨l, by simp, Nat.le_refl _, hls.2 l (by simp)⟩
      rw [resolve, hnone]
      refine ((leftmost_resolve h hpair.left).bind (h.inside hpair.left) (fun _ _ => ?_)
        (hparen.or (hargs.inside hpair.right)) hls.left).congr fun _ _ =>
          violation_call_iff hcontrol
      refine ⟨l.start, .inl ⟨rfl, rfl⟩, fun place error hplace => hplace.imp id fun harg => ?_⟩
      exact hparen.lt (hargs.inside hpair.right) hls.left.right ⟨rfl, rfl⟩ harg
  | unary _ h =>
    exact leftmost_of_parts ((leftmost_resolve h (hls.sublist (by simp))).map _) nofun
      (by simp [parts])
  | @operation op _ _ _ _ _ hleft _ hright =>
    have hpair := hls.sublist ((List.sublist_cons_self ..).append_left _)
    exact leftmost_of_parts (leftmost_pair hleft hright hpair (leftmost_resolve hleft hpair.left)
      (leftmost_resolve hright hpair.right) op.toExpr) nofun (by simp [parts])
  | @conditional test yes no ls l ms r ns htest _ hyes _ hno =>
    have hall : Ordered (ls ++ (ms ++ ns)) := by
      rw [← List.append_assoc]
      exact hls.sublist (((List.sublist_cons_self l ms).append_left ls).append
        (List.sublist_cons_self r ns))
    have hpair := hall.right
    refine leftmost_of_parts ((leftmost_resolve htest hall.left).bind (htest.inside hall.left)
      (fun test' _ => leftmost_pair hyes hno hpair (leftmost_resolve hyes hpair.left)
        (leftmost_resolve hno hpair.right) (.conditional test'))
      ((hyes.inside hpair.left).or (hno.inside hpair.right)) hall) nofun (by simp [parts])
  | arrow _ _ h =>
    exact leftmost_of_parts ((leftmost_resolve h (hls.sublist (by simp))).map _) nofun
      (by simp [parts])
  | enclosedArrow _ _ _ _ h =>
    exact leftmost_of_parts ((leftmost_resolve h
      (hls.sublist (List.sublist_append_right [_, _, _, _] _))).map _) nofun (by simp [parts])

theorem leftmost_resolveAll {params : List String} {trees : List Tree} {ls : List Lexeme}
    (h : WrittenAll trees ls) (hls : Ordered ls) :
    Leftmost (fun place error => ∃ tree ∈ trees, Violation bindings params tree place error)
      (resolveAll bindings params trees) := by
  cases h with
  | nil => exact nofun
  | one h =>
    exact ((leftmost_resolve h hls).map fun e => [e]).congr (by simp)
  | @more tree trees ls l ms h _ _ hrest =>
    have hpair : Ordered (ls ++ ms) := hls.sublist ((List.sublist_cons_self l ms).append_left ls)
    refine ((leftmost_resolve h hpair.left).bind (h.inside hpair.left)
      (fun first _ => (leftmost_resolveAll hrest hpair.right).map (first :: ·))
      (hrest.inside hpair.right) hpair).congr (by simp)

end

end Tree

end Timeline
