import Timeline.Proofs.Expression.Reading
import Timeline.Proofs.Result

/-! # Compiling what was written

Every well-formed expression is what any text that writes it compiles to. -/
namespace Timeline
open Timeline.Tree

lemma Text.unescape_escape {quote : Char} (hquote : quote ∈ ['"', '\'']) (cs : List Char) :
    unescape (escape quote cs) = cs := by
  induction cs with
  | nil => rw [escape, List.flatMap_nil, unescape]
  | cons c cs ih =>
    rw [escape_cons]
    split_ifs with hc
    · have hplain : c = '"' ∨ c = '\'' ∨ c = '\\' := by
        rcases hc with rfl | rfl
        · simp only [List.mem_cons, List.not_mem_nil, or_false] at hquote
          rcases hquote with h | h <;> simp [h]
        · simp
      rcases hplain with rfl | rfl | rfl <;> simp [unescape, ih]
    · have hslash : c ≠ '\\' := (not_or.1 hc).2
      rw [List.singleton_append, unescape, ih]
      exact hslash

lemma Keyword.ofName?_spelling (k : Keyword) : ofName? k.spelling = some k := by
  cases k <;> decide

lemma Input.ofName?_name (i : Input) : Keyword.ofName? i.name.toList = none := by
  cases i <;> decide

variable {bindings : Bindings} {params : List String}

lemma resolve_param {name : String} (h : name ∈ params) (span : Span) :
    resolve bindings params (.name name.toList span) = .ok (.param name) := by
  simp [resolve, resolveName, h]

lemma resolve_input {i : Input} (h : bindings.input? i.name = some i) (hparams : i.name ∉ params)
    (span : Span) : resolve bindings params (.name i.name.toList span) = .ok (.input i) := by
  simp [resolve, resolveName, h, hparams]

lemma resolve_call {f : ControlFn} (h : bindings.allowsControl ∧ "$" ∉ params)
    {arguments : List Tree} {es : List Expr}
    (harguments : resolveAll bindings params arguments = .ok es) {e : Expr} {callSpan : Span}
    (he : controlCall f callSpan es = .ok e) (span : Span) :
    resolve bindings params (.call (.member (.name ['$'] span) f.name.toList) arguments callSpan) =
      .ok e := by
  have hf : controlFn? bindings params (.member (.name ['$'] span) f.name.toList) = some f := by
    cases f <;> simp [controlFn?, h, ControlFn.name, ControlFn.ofName?]
  simp [resolve, hf, harguments, he]

lemma exists_of_map_eq_append_cons {ls : List Lexeme} {ts us : List Token} {t : Token}
    (h : ls.map Lexeme.token = ts ++ t :: us) : ∃ ls₁ l ls₂, ls = ls₁ ++ l :: ls₂ ∧
      ls₁.map Lexeme.token = ts ∧ l.token = t ∧ ls₂.map Lexeme.token = us := by
  obtain ⟨ls₁, ls', rfl, h₁, h'⟩ := List.map_eq_append_iff.1 h
  obtain ⟨l, ls₂, rfl, hl, h₂⟩ := List.map_eq_cons_iff.1 h'
  exact ⟨ls₁, l, ls₂, rfl, h₁, hl, h₂⟩

lemma ControlFn.reads_tokens (f : ControlFn) {ls : List Lexeme}
    (hls : ls.map Lexeme.token = f.tokens) : ∃ span,
      Reads accessLevel ls (.member (.name ['$'] span) f.name.toList) := by
  obtain ⟨l₁, ls, rfl, h₁, hls⟩ := List.map_eq_cons_iff.1 hls
  obtain ⟨l₂, ls, rfl, h₂, hls⟩ := List.map_eq_cons_iff.1 hls
  obtain ⟨l₃, rfl, h₃⟩ := List.map_eq_singleton_iff.1 hls
  have hname : Reads accessLevel [l₁] (.name ['$'] ⟨l₁.start, l₁.stop - l₁.start⟩) :=
    .primary (by rw [h₁]; rfl) fun rest => primary_name h₁ (by decide) rest
  exact ⟨_, hname.member h₂ h₃⟩

/-- A spelling of a well-formed expression is read at its level as a tree of that expression. -/
theorem Spells.reads {k : Nat} {e : Expr} {ts : List Token} (h : Spells k e ts)
    (he : e.WellFormed bindings params) {ls : List Lexeme} (hls : ls.map Lexeme.token = ts) :
    ∃ tree, resolve bindings params tree = .ok e ∧ Reads k ls tree := by
  -- inside an arrow there is one more parameter
  induction h generalizing params ls with
  | group _ ih =>
    obtain ⟨ls₁, l', ls₂, rfl, h₁, hl', h₂⟩ := exists_of_map_eq_append_cons hls
    obtain ⟨l, ls₁, rfl, hl, h₁⟩ := List.map_eq_cons_iff.1 h₁
    obtain rfl := List.map_eq_nil_iff.1 h₂
    obtain ⟨tree, htree, hreads⟩ := ih he h₁
    exact ⟨.group tree, by rw [resolve, htree], (hreads.group hl hl').of_access⟩
  | number h =>
    obtain ⟨l, rfl, hl⟩ := List.map_eq_singleton_iff.1 hls
    refine ⟨_, ?_, .single (by rw [hl]; rfl) fun rest => primary_number hl rest⟩
    rw [resolve, h.eq_numberOf]
  | @text k s quote h =>
    obtain ⟨l, rfl, hl⟩ := List.map_eq_singleton_iff.1 hls
    refine ⟨_, ?_, .single (by rw [hl]; rfl) fun rest => primary_text hl rest⟩
    rw [resolve, Text.unescape_escape h, String.ofList_toList]
  | keyword word =>
    obtain ⟨l, rfl, hl⟩ := List.map_eq_singleton_iff.1 hls
    exact ⟨_, rfl, .single (by rw [hl]; rfl) fun rest =>
      primary_keyword hl word.ofName?_spelling rest⟩
  | @input k i =>
    obtain ⟨l, rfl, hl⟩ := List.map_eq_singleton_iff.1 hls
    exact ⟨_, resolve_input he.1 he.2 _, .single (by rw [hl]; rfl) fun rest =>
      primary_name hl i.ofName?_name rest⟩
  | param =>
    obtain ⟨l, rfl, hl⟩ := List.map_eq_singleton_iff.1 hls
    exact ⟨_, resolve_param he.1 _, .single (by rw [hl]; rfl) fun rest =>
      primary_name hl he.2.2 rest⟩
  | member _ ih =>
    obtain ⟨ls₁, l, ls₂, rfl, h₁, hl, h₂⟩ := exists_of_map_eq_append_cons hls
    obtain ⟨l', rfl, hl'⟩ := List.map_eq_singleton_iff.1 h₂
    obtain ⟨object, hobject, hreads⟩ := ih he.1 h₁
    refine ⟨_, ?_, (hreads.member hl hl').of_access⟩
    rw [resolve, hobject, Except.ok_bind, String.ofList_toList]
  | index _ _ ihObject ihKey =>
    obtain ⟨ls₁, l', ls₂, rfl, h₁, hl', h₂⟩ := exists_of_map_eq_append_cons hls
    obtain rfl := List.map_eq_nil_iff.1 h₂
    obtain ⟨ls₁, l, ls₂, rfl, h₁, hl, h₂⟩ := exists_of_map_eq_append_cons h₁
    obtain ⟨object, hobject, hreadsObject⟩ := ihObject he.1 h₁
    obtain ⟨key, hkey, hreadsKey⟩ := ihKey he.2 h₂
    rw [List.append_assoc, List.cons_append]
    refine ⟨_, ?_, (hreadsObject.index hl hreadsKey hl').of_access⟩
    rw [resolve, hobject, Except.ok_bind, hkey, Except.ok_bind]
  | unary hk _ ih =>
    obtain ⟨l, ls, rfl, hl, hoperand⟩ := List.map_eq_cons_iff.1 hls
    obtain ⟨operand, hresolve, hreads⟩ := ih he hoperand
    refine ⟨_, ?_, (hreads.unary hl).le hk⟩
    rw [resolve, hresolve, Except.ok_bind]
  | operation hk _ _ ihLeft ihRight =>
    obtain ⟨hleft, hright⟩ := Expr.wellFormed_operation.1 he
    obtain ⟨ls₁, l, ls₂, rfl, h₁, hl, h₂⟩ := exists_of_map_eq_append_cons hls
    obtain ⟨left, hleft, hreadsLeft⟩ := ihLeft hleft h₁
    obtain ⟨right, hright, hreadsRight⟩ := ihRight hright h₂
    refine ⟨_, ?_, (hreadsLeft.operation hl hreadsRight).le hk⟩
    rw [resolve, hleft, Except.ok_bind, hright, Except.ok_bind]
  | conditional _ _ _ ihTest ihYes ihNo =>
    obtain ⟨ls₁, l', ls₃, rfl, h₁, hl', h₃⟩ := exists_of_map_eq_append_cons hls
    obtain ⟨ls₁, l, ls₂, rfl, h₁, hl, h₂⟩ := exists_of_map_eq_append_cons h₁
    obtain ⟨test, htest, hreadsTest⟩ := ihTest he.1 h₁
    obtain ⟨yes, hyes, hreadsYes⟩ := ihYes he.2.1 h₂
    obtain ⟨no, hno, hreadsNo⟩ := ihNo he.2.2 h₃
    rw [List.append_assoc, List.cons_append]
    refine ⟨_, ?_, hreadsTest.conditional hl hreadsYes hl' hreadsNo⟩
    rw [resolve, htest, Except.ok_bind, hyes, Except.ok_bind, hno, Except.ok_bind]
  | arrow _ ih =>
    obtain ⟨l, ls₁, rfl, hl, h₁⟩ := List.map_eq_cons_iff.1 hls
    obtain ⟨l', ls₂, rfl, hl', h₂⟩ := List.map_eq_cons_iff.1 h₁
    obtain ⟨body, hbody, hreads⟩ := ih he.2 h₂
    refine ⟨_, ?_, hreads.arrow hl hl'⟩
    rw [resolve, String.ofList_toList, hbody, Except.ok_bind]
  | enclosedArrow _ ih =>
    obtain ⟨l₁, ls₁, rfl, hl₁, h₁⟩ := List.map_eq_cons_iff.1 hls
    obtain ⟨l₂, ls₂, rfl, hl₂, h₂⟩ := List.map_eq_cons_iff.1 h₁
    obtain ⟨l₃, ls₃, rfl, hl₃, h₃⟩ := List.map_eq_cons_iff.1 h₂
    obtain ⟨l₄, ls₄, rfl, hl₄, h₄⟩ := List.map_eq_cons_iff.1 h₃
    obtain ⟨body, hbody, hreads⟩ := ih he.2 h₄
    refine ⟨_, ?_, hreads.enclosedArrow hl₁ hl₂ hl₃ hl₄⟩
    rw [resolve, String.ofList_toList, hbody, Except.ok_bind]
  | @control k f =>
    obtain ⟨ls₁, l, ls₂, rfl, h₁, hl, h₂⟩ := exists_of_map_eq_append_cons hls
    obtain ⟨l', rfl, hl'⟩ := List.map_eq_singleton_iff.1 h₂
    obtain ⟨span, hreads⟩ := f.reads_tokens h₁
    have harguments (rest : List Lexeme) : arguments ([l'] ++ rest) = some ([], l'.stop, rest) :=
      arguments_nil hl' rest
    exact ⟨_, resolve_call he rfl rfl span, (hreads.call hl harguments).of_access⟩
  | @controlOn k f value vs hvalue ih =>
    rw [List.append_assoc] at hls
    obtain ⟨ls₁, l, ls₂, rfl, h₁, hl, h₂⟩ := exists_of_map_eq_append_cons hls
    obtain ⟨ls₃, l', ls₄, rfl, h₃, hl', h₄⟩ := exists_of_map_eq_append_cons h₂
    obtain rfl := List.map_eq_nil_iff.1 h₄
    obtain ⟨span, hreads⟩ := f.reads_tokens h₁
    obtain ⟨tree, htree, hreadsValue⟩ := ih he.2 h₃
    have harguments := hreadsValue.argument (h₃ ▸ hvalue.phrase he.2) hl'
    have hresolve : resolveAll bindings params [tree] = .ok [value] := by
      rw [resolveAll, htree, Except.ok_bind, resolveAll, Except.ok_bind]
    exact ⟨_, resolve_call he.1 hresolve rfl span, (hreads.call hl harguments).of_access⟩
  | @controlWhen k f value check vs cs hvalue hcheck ihValue ihCheck =>
    obtain ⟨ls₁, l₃, ls₂, rfl, h₁, hl₃, h₂⟩ := exists_of_map_eq_append_cons hls
    obtain rfl := List.map_eq_nil_iff.1 h₂
    obtain ⟨ls₃, l₂, ls₄, rfl, h₃, hl₂, h₄⟩ := exists_of_map_eq_append_cons h₁
    obtain ⟨ls₅, l₁, ls₆, rfl, h₅, hl₁, h₆⟩ := exists_of_map_eq_append_cons h₃
    obtain ⟨span, hreads⟩ := f.reads_tokens h₅
    obtain ⟨valueTree, hvalueTree, hreadsValue⟩ := ihValue he.2.1 h₆
    obtain ⟨checkTree, hcheckTree, hreadsCheck⟩ := ihCheck he.2.2 h₄
    have harguments :=
      hreadsValue.argumentPair (h₆ ▸ hvalue.phrase he.2.1) hl₂ hreadsCheck hl₃
    have hresolve : resolveAll bindings params [valueTree, checkTree] = .ok [value, check] := by
      rw [resolveAll, hvalueTree, Except.ok_bind, resolveAll, hcheckTree, Except.ok_bind,
        resolveAll, Except.ok_bind, Except.ok_bind]
    have hcall := hreads.call hl₁ harguments
    simp only [List.append_assoc, List.cons_append] at hcall ⊢
    exact ⟨_, resolve_call he.1 hresolve rfl span, hcall.of_access⟩

/-- Every well-formed expression can be written, and every text that writes it, with any spaces and
any parentheses that it does not need, compiles to it. Every number literal stands for one number.
-/
theorem compile_eq_ok_of_spells {e : Expr} (he : e.WellFormed bindings []) :
    (∃ ts, Spells 0 e ts) ∧
      (∀ ts s, Spells 0 e ts → Spaced ts s.toList → Expr.compile bindings s = .ok e) ∧
      ∀ literal, IsNumeral literal → ∃! x, Number.Denotes literal x := by
  refine ⟨he.exists_spells 0, fun ts s hts hs => ?_, fun literal => Number.existsUnique_denotes⟩
  have hphrase := hts.phrase he
  obtain ⟨ls, hscan, hls⟩ := hs.scan?_eq_some hphrase.legible hphrase.linked 0
  obtain ⟨tree, hresolve, hreads⟩ := hts.reads he hls
  have hread : expression ls = some (tree, []) := by
    have := hreads [] nofun
    rwa [List.append_nil] at this
  obtain ⟨h, hread⟩ := unbound_eq_some_iff.1 hread
  have htree : Tree.ofText? s = some tree := by
    simp only [ofText?, Lexeme.ofText?, hscan, Option.bind_some, ofTokens?, hread]
  simp only [Expr.compile, htree, hresolve]

/-- The parentheses around `x` are not needed. -/
theorem compile_eq_ok_of_spells_exit :
    Expr.compile .template "$.exit( -item [\"a\\\"b\"]\n* .5e1,x=>(x)?1:item.x )" =
      .ok (.controlWhen .stopPass
        (.binary .multiply (.unary .negate (.index (.input .item) (.text "a\"b"))) (.number 5))
        (.arrow "x" (.conditional (.param "x") (.number 1) (.member (.input .item) "x")))) := by
  have hone : Number.Denotes ['1'] 1 :=
    Number.Decimal.WrittenAs.denotes (.plain (.whole ⟨by simp, by simp⟩))
  have hfive : Number.Denotes ['.', '5', 'e', '1'] 5 :=
    Number.Decimal.WrittenAs.denotes <| @Number.Decimal.WrittenAs.raised _ _ ['.', '5'] 'e' [] ['1']
      (.fraction ⟨by simp, by simp⟩) (by simp) (by simp) ⟨by simp, by simp⟩
  have hx : IsIdentifier "x".toList := ⟨'x', [], rfl, by decide, by simp⟩
  have hitem (k : Nat) : Spells k (.input .item) _ := .input
  have hkey : Spells 0 (.text "a\"b") _ := .text (List.mem_cons_self)
  have hnegated : Spells 6 (.unary .negate _) _ := .unary (by decide) (.index (hitem _) hkey)
  have hproduct : Spells 0 (Operator.toExpr (.binary .multiply) _ _) _ :=
    .operation (Nat.zero_le _) hnegated (.number hfive)
  have hmember : Spells 0 (.member _ "x") _ := .member (hitem _)
  have hchoice := Spells.conditional (.group (@Spells.param _ "x")) (.number hone) hmember
  refine (compile_eq_ok_of_spells ?_).2.1 _ _ (.controlWhen hproduct (.arrow hchoice)) ?_
  · refine ⟨⟨rfl, by simp⟩, ⟨⟨⟨rfl, by simp⟩, trivial⟩, _, hfive⟩, hx, ?_⟩
    exact ⟨⟨by simp, hx, by decide⟩, ⟨_, hone⟩, ⟨rfl, by decide⟩, hx⟩
  · have hrest : Spaced [.number ['1'], .symbol .colon, .name "item".toList, .symbol .dot,
        .name "x".toList, .symbol .closeParen] "1:item.x )".toList :=
      .token (.token (.token (.token (.token (.space rfl (.token .nil))))))
    have harrow : Spaced (.symbol .comma :: .name "x".toList :: .symbol .arrow ::
        .symbol .openParen :: .name "x".toList :: .symbol .closeParen ::
        .symbol .question :: _) ",x=>(x)?1:item.x )".toList :=
      .token (.token (.token (.token (.token (.token (.token hrest))))))
    have hfactor : Spaced (.symbol (.operator (.binary .multiply)) ::
        .number ['.', '5', 'e', '1'] :: _) "\n* .5e1,x=>(x)?1:item.x )".toList :=
      .space rfl (.token (.space rfl (.token harrow)))
    exact .token (.token (.token (.token (.space rfl (.token (.token (.space rfl (.token (.token
      (.token hfactor))))))))))

end Timeline
