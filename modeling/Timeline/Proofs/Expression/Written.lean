import Timeline.Expression.Tree
import Timeline.Proofs.Expression.Legible

/-! # Trees as they are written

The tokens of which a tree is the reading: the relation says what stands where in the text, and so
which bytes a name and a call take up, without saying how tightly operators bind. Every tree of the
parser is written by the tokens that it read. -/
namespace Timeline

namespace Tree

mutual

/-- Do the tokens write the tree? -/
inductive Written : Tree → List Lexeme → Prop
  | number {l literal} (h : l.token = .number literal) : Written (.number literal) [l]
  | text {l quote body} (h : l.token = .text quote body) : Written (.text body) [l]
  | keyword {l letters k} (h : l.token = .name letters) (hk : Keyword.ofName? letters = some k) :
    Written (.keyword k) [l]
  | name {l letters} (h : l.token = .name letters) (hk : Keyword.ofName? letters = none) :
    Written (.name letters ⟨l.start, l.stop - l.start⟩) [l]
  | group {inner l ls r} (hl : l.token = .symbol .openParen) (h : Written inner ls)
    (hr : r.token = .symbol .closeParen) : Written (.group inner) (l :: ls ++ [r])
  | member {object key ls l r} (h : Written object ls) (hl : l.token = .symbol .dot)
    (hr : r.token = .name key) : Written (.member object key) (ls ++ [l, r])
  | index {object key ls l ms r} (h : Written object ls) (hl : l.token = .symbol .openBracket)
    (hkey : Written key ms) (hr : r.token = .symbol .closeBracket) :
    Written (.index object key) (ls ++ l :: ms ++ [r])
  | call {callee args ls l ms r} (h : Written callee ls) (hl : l.token = .symbol .openParen)
    (hargs : WrittenAll args ms) (hr : r.token = .symbol .closeParen) :
    Written (.call callee args ⟨l.start, r.stop - l.start⟩) (ls ++ l :: ms ++ [r])
  | unary {op operand l ls} (hl : l.token.unaryOperator? = some op) (h : Written operand ls) :
    Written (.unary op operand) (l :: ls)
  | operation {op left right ls l ms} (hleft : Written left ls) (hl : l.token.operator? = some op)
    (hright : Written right ms) : Written (.operation op left right) (ls ++ l :: ms)
  | conditional {test yes no ls l ms r ns} (htest : Written test ls)
    (hl : l.token = .symbol .question) (hyes : Written yes ms) (hr : r.token = .symbol .colon)
    (hno : Written no ns) : Written (.conditional test yes no) (ls ++ l :: ms ++ r :: ns)
  | arrow {param body l r ls} (hl : l.token = .name param) (hr : r.token = .symbol .arrow)
    (h : Written body ls) : Written (.arrow param body) (l :: r :: ls)
  | enclosedArrow {param body l m n r ls} (hl : l.token = .symbol .openParen)
    (hm : m.token = .name param) (hn : n.token = .symbol .closeParen)
    (hr : r.token = .symbol .arrow) (h : Written body ls) :
    Written (.arrow param body) (l :: m :: n :: r :: ls)

/-- Do the tokens write the trees, with commas between them? -/
inductive WrittenAll : List Tree → List Lexeme → Prop
  | nil : WrittenAll [] []
  | one {tree ls} (h : Written tree ls) : WrittenAll [tree] ls
  | more {tree trees ls l ms} (h : Written tree ls) (hl : l.token = .symbol .comma)
    (hne : trees ≠ []) (hrest : WrittenAll trees ms) : WrittenAll (tree :: trees) (ls ++ l :: ms)

end

/-- The first token of an expression starts an operand. -/
lemma Written.exists_initial {tree : Tree} {ls : List Lexeme} (h : Written tree ls) :
    ∃ l rest, ls = l :: rest ∧ l.token.isInitial := by
  cases h with
  | number h | text h | keyword h | name h => exact ⟨_, _, rfl, by rw [h]; rfl⟩
  | group hl | enclosedArrow hl => exact ⟨_, _, rfl, by rw [hl]; rfl⟩
  | arrow hl => exact ⟨_, _, rfl, by rw [hl]; rfl⟩
  | unary hl =>
    refine ⟨_, _, rfl, ?_⟩
    unfold Token.unaryOperator? at hl
    split at hl
    · next heq => rw [heq]; rfl
    · next heq => rw [heq]; rfl
    · next heq => rw [heq]; rfl
    · cases hl
  | member h | index h | call h | operation h | conditional h =>
    obtain ⟨l, rest, rfl, hl⟩ := exists_initial h
    exact ⟨l, _, by simp; rfl, hl⟩

lemma eq_cons_of_expect? {s : Symbol} {ts : List Lexeme} {stop : Nat} {rest : List Lexeme} {hrest}
    (h : expect? s ts = some (stop, ⟨rest, hrest⟩)) :
    ∃ l, l.token = .symbol s ∧ l.stop = stop ∧ ts = l :: rest := by
  unfold expect? at h
  split at h
  · cases h
  · next t rest' =>
    split_ifs at h with ht
    cases h
    exact ⟨t, ht, rfl, rfl⟩

lemma exists_of_arrowHead? {ts : List Lexeme} {param : List Char} {rest : List Lexeme} {hrest}
    (h : arrowHead? ts = some (param, ⟨rest, hrest⟩)) : ∃ ls, ts = ls ++ rest ∧
      ∀ {body ms}, Written body ms → Written (.arrow param body) (ls ++ ms) := by
  unfold arrowHead? at h
  split at h
  · cases h
    exact ⟨[_, _], rfl, fun hbody => .arrow rfl rfl hbody⟩
  · cases h
    exact ⟨[_, _, _, _], rfl, fun hbody => .enclosedArrow rfl rfl rfl rfl hbody⟩
  · cases h

mutual

/-- The parser reads the tokens that write its tree. -/
theorem written_of_expression? {ts : List Lexeme} {tree : Tree} {rest : List Lexeme} {hrest}
    (h : expression? ts = some (tree, ⟨rest, hrest⟩)) :
    ∃ ls, ts = ls ++ rest ∧ Written tree ls := by
  rw [expression?] at h
  split at h
  · next param body _ parrow =>
    split at h
    · cases h
    · next tree rest' _ pbody =>
      cases h
      obtain ⟨ls, hls, harrow⟩ := exists_of_arrowHead? parrow
      obtain ⟨ms, hms, hbody⟩ := written_of_expression? pbody
      exact ⟨ls ++ ms, by rw [hls, hms, List.append_assoc], harrow hbody⟩
  · split at h
    · cases h
    · next test rest₁ _ ptest =>
      obtain ⟨ls, hls, htest⟩ := written_of_operand? ptest
      split at h
      · cases h
        exact ⟨ls, hls, htest⟩
      · next _ rest₂ _ hquestion =>
        obtain ⟨l, hl, -, hrest₁⟩ := eq_cons_of_expect? hquestion
        split at h
        · cases h
        · next yes rest₃ _ pyes =>
          obtain ⟨ms, hms, hyes⟩ := written_of_expression? pyes
          split at h
          · cases h
          · next _ rest₄ _ hcolon =>
            obtain ⟨r, hr, -, hrest₃⟩ := eq_cons_of_expect? hcolon
            split at h
            · cases h
            · next no rest₅ _ pno =>
              obtain ⟨ns, hns, hno⟩ := written_of_expression? pno
              cases h
              refine ⟨ls ++ l :: ms ++ r :: ns, ?_, .conditional htest hl hyes hr hno⟩
              rw [hls, hrest₁, hms, hrest₃, hns]
              simp
termination_by (ts.length, Operator.levels + 4)

theorem written_of_operand? {level : Nat} {ts : List Lexeme} {tree : Tree} {rest : List Lexeme}
    {hrest} (h : operand? level ts = some (tree, ⟨rest, hrest⟩)) :
    ∃ ls, ts = ls ++ rest ∧ Written tree ls := by
  rw [operand?] at h
  split_ifs at h
  · split at h
    · cases h
    · next first rest₁ _ pfirst =>
      split at h
      · cases h
      · next tree rest₂ _ pchain =>
        cases h
        obtain ⟨ls, hls, hfirst⟩ := written_of_operand? pfirst
        obtain ⟨ms, hms, htree⟩ := written_of_chain? pchain hfirst
        exact ⟨ls ++ ms, by rw [hls, hms, List.append_assoc], htree⟩
  · exact written_of_prefixed? h
termination_by (ts.length, Operator.levels - level + 3)

theorem written_of_chain? {level : Nat} {left : Tree} {ts : List Lexeme} {tree : Tree}
    {rest : List Lexeme} {hrest}
    (h : chain? level left ts = some (tree, ⟨rest, hrest⟩)) {ls : List Lexeme}
    (hleft : Written left ls) : ∃ ms, ts = ms ++ rest ∧ Written tree (ls ++ ms) := by
  have hstop : Written left (ls ++ []) := by rwa [List.append_nil]
  rw [chain?.eq_def] at h
  split at h
  · cases h
    exact ⟨[], rfl, hstop⟩
  · next t after =>
    split at h
    · next op hop =>
      split_ifs at h
      · split at h
        · cases h
        · next right rest₁ _ pright =>
          split at h
          · cases h
          · next tree rest₂ _ pchain =>
            cases h
            obtain ⟨ms, hms, hright⟩ := written_of_operand? pright
            obtain ⟨ns, hns, htree⟩ := written_of_chain? pchain (.operation hleft hop hright)
            refine ⟨t :: ms ++ ns, ?_, by simpa using htree⟩
            rw [hms, hns]
            simp
      · cases h
        exact ⟨[], rfl, hstop⟩
    · cases h
      exact ⟨[], rfl, hstop⟩
termination_by (ts.length, 0)
decreasing_by all_goals (subst_vars; decreasing_tactic)

theorem written_of_prefixed? {ts : List Lexeme} {tree : Tree} {rest : List Lexeme} {hrest}
    (h : prefixed? ts = some (tree, ⟨rest, hrest⟩)) : ∃ ls, ts = ls ++ rest ∧ Written tree ls := by
  rw [prefixed?.eq_def] at h
  split at h
  · cases h
  · next t after =>
    split at h
    · next op hop =>
      split at h
      · cases h
      · next operand rest₁ _ poperand =>
        cases h
        obtain ⟨ls, hls, hoperand⟩ := written_of_prefixed? poperand
        exact ⟨t :: ls, by rw [hls, List.cons_append], .unary hop hoperand⟩
    · split at h
      · cases h
      · next object rest₁ _ pobject =>
        split at h
        · cases h
        · next tree rest₂ _ paccessors =>
          cases h
          obtain ⟨ls, hls, hobject⟩ := written_of_primary? pobject
          obtain ⟨ms, hms, htree⟩ := written_of_accessors? paccessors hobject
          exact ⟨ls ++ ms, by rw [hls, hms, List.append_assoc], htree⟩
termination_by (ts.length, 2)
decreasing_by all_goals (subst_vars; decreasing_tactic)

theorem written_of_primary? {ts : List Lexeme} {tree : Tree} {rest : List Lexeme} {hrest}
    (h : primary? ts = some (tree, ⟨rest, hrest⟩)) : ∃ ls, ts = ls ++ rest ∧ Written tree ls := by
  rw [primary?.eq_def] at h
  split at h
  · cases h
    exact ⟨[_], rfl, .number rfl⟩
  · cases h
    exact ⟨[_], rfl, .text rfl⟩
  · next letters start stop after =>
    split at h
    · next k hk =>
      cases h
      exact ⟨[_], rfl, .keyword rfl hk⟩
    · next hk =>
      cases h
      exact ⟨_, rfl, .name (l := ⟨.name letters, start, stop⟩) rfl hk⟩
  · next start stop after =>
    split at h
    · cases h
    · next inner rest₁ _ pinner =>
      split at h
      · cases h
      · next _ rest₂ _ hclose =>
        cases h
        obtain ⟨ls, hls, hinner⟩ := written_of_expression? pinner
        obtain ⟨r, hr, -, hrest₁⟩ := eq_cons_of_expect? hclose
        refine ⟨⟨.symbol .openParen, start, stop⟩ :: ls ++ [r], ?_, .group rfl hinner hr⟩
        rw [hls, hrest₁]
        simp
  · cases h
termination_by (ts.length, 1)
decreasing_by all_goals (subst_vars; decreasing_tactic)

theorem written_of_accessors? {object : Tree} {ts : List Lexeme} {tree : Tree}
    {rest : List Lexeme} {hrest}
    (h : accessors? object ts = some (tree, ⟨rest, hrest⟩)) {ls : List Lexeme}
    (hobject : Written object ls) : ∃ ms, ts = ms ++ rest ∧ Written tree (ls ++ ms) := by
  rw [accessors?.eq_def] at h
  split at h
  · next start stop key start' stop' after =>
    split at h
    · cases h
    · next tree rest₁ _ paccessors =>
      cases h
      obtain ⟨ms, hms, htree⟩ := written_of_accessors? paccessors
        (.member hobject (l := ⟨.symbol .dot, start, stop⟩) (r := ⟨.name key, start', stop'⟩)
          rfl rfl)
      exact ⟨_ :: _ :: ms, by rw [hms]; rfl, by simpa using htree⟩
  · next start stop after =>
    split at h
    · cases h
    · next key rest₁ _ pkey =>
      split at h
      · cases h
      · next _ rest₂ _ hclose =>
        split at h
        · cases h
        · next tree rest₃ _ paccessors =>
          cases h
          obtain ⟨ms, hms, hkey⟩ := written_of_expression? pkey
          obtain ⟨r, hr, -, hrest₁⟩ := eq_cons_of_expect? hclose
          obtain ⟨ns, hns, htree⟩ := written_of_accessors? paccessors
            (.index hobject (l := ⟨.symbol .openBracket, start, stop⟩) rfl hkey hr)
          refine ⟨_ :: ms ++ r :: ns, ?_, by simpa using htree⟩
          rw [hms, hrest₁, hns]
          simp
  · next start stop after =>
    split at h
    · cases h
    · next args stop' rest₁ _ pargs =>
      split at h
      · cases h
      · next tree rest₂ _ paccessors =>
        cases h
        obtain ⟨ms, r, hms, hargs, hr, rfl⟩ := written_of_arguments? pargs
        obtain ⟨ns, hns, htree⟩ := written_of_accessors? paccessors
          (.call hobject (l := ⟨.symbol .openParen, start, stop⟩) rfl hargs hr)
        refine ⟨_ :: ms ++ r :: ns, ?_, by simpa using htree⟩
        rw [hms, hns]
        simp
  · cases h
    exact ⟨[], rfl, by rwa [List.append_nil]⟩
termination_by (ts.length, 0)
decreasing_by all_goals (subst_vars; decreasing_tactic)

theorem written_of_arguments? {ts : List Lexeme} {args : List Tree} {stop : Nat}
    {rest : List Lexeme} {hrest} (h : arguments? ts = some (args, stop, ⟨rest, hrest⟩)) :
    ∃ ls r, ts = ls ++ r :: rest ∧ WrittenAll args ls ∧ r.token = .symbol .closeParen ∧
      r.stop = stop := by
  rw [arguments?] at h
  split at h
  · next hclose =>
    cases h
    obtain ⟨r, hr, hstop, hts⟩ := eq_cons_of_expect? hclose
    exact ⟨[], r, hts, .nil, hr, hstop⟩
  · split at h
    · cases h
    · next first rest₁ _ pfirst =>
      split at h
      · cases h
      · next others stop' rest₂ _ pothers =>
        cases h
        obtain ⟨ls, hls, hfirst⟩ := written_of_expression? pfirst
        obtain ⟨ms, r, hms, hargs, hr, hstop⟩ := written_of_moreArguments? pothers hfirst
        exact ⟨ls ++ ms, r, by rw [hls, hms, List.append_assoc], hargs, hr, hstop⟩
termination_by (ts.length, Operator.levels + 5)

theorem written_of_moreArguments? {ts : List Lexeme} {others : List Tree} {stop : Nat}
    {rest : List Lexeme} {hrest} (h : moreArguments? ts = some (others, stop, ⟨rest, hrest⟩))
    {first : Tree} {ls : List Lexeme} (hfirst : Written first ls) :
    ∃ ms r, ts = ms ++ r :: rest ∧ WrittenAll (first :: others) (ls ++ ms) ∧
      r.token = .symbol .closeParen ∧ r.stop = stop := by
  rw [moreArguments?] at h
  split at h
  · next hclose =>
    cases h
    obtain ⟨r, hr, hstop, hts⟩ := eq_cons_of_expect? hclose
    refine ⟨[], r, hts, ?_, hr, hstop⟩
    rw [List.append_nil]
    exact .one hfirst
  · split at h
    · cases h
    · next _ rest₁ _ hcomma =>
      obtain ⟨l, hl, -, hts⟩ := eq_cons_of_expect? hcomma
      split at h
      · cases h
      · next next rest₂ _ pnext =>
        split at h
        · cases h
        · next others stop' rest₃ _ pothers =>
          cases h
          obtain ⟨ms, hms, hnext⟩ := written_of_expression? pnext
          obtain ⟨ns, r, hns, hargs, hr, hstop⟩ := written_of_moreArguments? pothers hnext
          refine ⟨l :: ms ++ ns, r, ?_, .more hfirst hl nofun hargs, hr, hstop⟩
          rw [hts, hms, hns]
          simp
termination_by (ts.length, 0)

end

/-- What is read as an expression is written by its tokens. -/
theorem written_of_ofTokens? {ts : List Lexeme} {tree : Tree} (h : ofTokens? ts = some tree) :
    Written tree ts := by
  unfold ofTokens? at h
  split at h
  · next heq =>
    cases h
    obtain ⟨ls, hls, hwritten⟩ := written_of_expression? heq
    rwa [hls, List.append_nil]
  · cases h

end Tree

end Timeline
