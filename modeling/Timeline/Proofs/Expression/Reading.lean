import Timeline.Proofs.Expression.Parser
import Timeline.Proofs.Expression.Spelling

/-! # What the parser reads at each level

A list of tokens is read at a level if the parser takes exactly these tokens off any longer list
that does not go on at that level. What is read at a level is read at all lower ones. -/
namespace Timeline
open Timeline.Tree

/-- The level at which a token goes on after an expression. -/
def Token.binding : Token → Nat
  | symbol .dot | symbol .openBracket | symbol .openParen => accessLevel
  | symbol (.operator op) => op.level + 1
  | _ => 0

lemma Token.binding_of_operator? {t : Token} {op : Operator} (h : t.operator? = some op) :
    t.binding = op.level + 1 := by
  unfold Token.operator? at h
  split at h
  · cases h
    rfl
  · cases h

/-- Nothing goes on above a level. -/
def Loose (k : Nat) (rest : List Lexeme) : Prop := ∀ t ∈ rest.head?, t.token.binding ≤ k

def Closed (rest : List Lexeme) : Prop :=
  ∀ t ∈ rest.head?, t.token ∈ [Token.symbol .closeParen, .symbol .closeBracket, .symbol .comma,
    .symbol .colon]

/-- The parser reads a tree from some tokens. Below the prefix operators it may go on with operators
of the level itself, and next to accessors with any. -/
def Reads : Nat → List Lexeme → Tree → Prop
  | 0, ls, tree => ∀ rest, Closed rest → expression (ls ++ rest) = some (tree, rest)
  | k + 1, ls, tree =>
    if k < Operator.levels then
      ∀ rest, Loose (k + 1) rest → operand k (ls ++ rest) = chain k tree rest
    else if k = Operator.levels then
      ∀ rest, Loose (k + 1) rest → prefixed (ls ++ rest) = some (tree, rest)
    else ∀ rest, prefixed (ls ++ rest) = accessors tree rest

variable {k : Nat} {ls ls' rest : List Lexeme} {tree : Tree}

lemma Loose.mono {j : Nat} (h : Loose j rest) (hjk : j ≤ k) : Loose k rest :=
  fun t ht => (h t ht).trans hjk

lemma Closed.loose (h : Closed rest) (k : Nat) : Loose k rest := by
  intro t ht
  have htoken := h t ht
  simp only [List.mem_cons, List.not_mem_nil, or_false] at htoken
  rcases htoken with h | h | h | h <;> simp [h, Token.binding]

lemma Closed.ne (h : Closed rest) {s : Symbol}
    (hs : s ∉ [.closeParen, .closeBracket, .comma, .colon]) :
    ∀ t ∈ rest.head?, t.token ≠ .symbol s := by
  rintro t ht heq
  have htoken := h t ht
  rw [heq] at htoken
  exact hs (by simpa using htoken)

lemma Phrase.head_ne_close (h : Phrase (ls.map Lexeme.token)) (rest : List Lexeme) :
    ∀ t ∈ (ls ++ rest).head?, t.token ≠ .symbol .closeParen := by
  obtain ⟨first, hfirst, hinitial⟩ := h.initial
  cases ls with
  | nil => cases hfirst
  | cons l ls =>
    cases hfirst
    rintro t ⟨⟩ ht
    rw [ht] at hinitial
    cases hinitial

namespace Reads

lemma operand_iff (hk : k < Operator.levels) :
    Reads (k + 1) ls tree ↔
      ∀ rest, Loose (k + 1) rest → operand k (ls ++ rest) = chain k tree rest := by
  rw [Reads, if_pos hk]

lemma prefix_iff : Reads prefixLevel ls tree ↔
    ∀ rest, Loose prefixLevel rest → prefixed (ls ++ rest) = some (tree, rest) := by
  rw [prefixLevel, Reads, if_neg (Nat.lt_irrefl _), if_pos rfl]

lemma access_iff (hk : accessLevel ≤ k) :
    Reads k ls tree ↔ ∀ rest, prefixed (ls ++ rest) = accessors tree rest := by
  unfold accessLevel at hk
  obtain ⟨k, rfl⟩ := Nat.exists_eq_succ_of_ne_zero (by omega : k ≠ 0)
  rw [Reads, if_neg (by omega), if_neg (by omega)]

/-- Before a token that does not go on, a chain of operators is read whole. -/
lemma operand_eq (h : Reads (k + 1) ls tree) (hk : k ≤ Operator.levels) (hrest : Loose k rest) :
    operand k (ls ++ rest) = some (tree, rest) := by
  rcases hk.lt_or_eq with hk | rfl
  · rw [(operand_iff hk).1 h rest (hrest.mono (Nat.le_succ k))]
    refine chain_stop (fun t ht op hop => ?_) tree
    have hbinding := hrest t ht
    rw [Token.binding_of_operator? hop] at hbinding
    omega
  · rw [operand_of_le (Nat.le_refl _)]
    exact prefix_iff.1 h rest (hrest.mono (Nat.le_succ _))

lemma down (h : Reads (k + 2) ls tree) : Reads (k + 1) ls tree := by
  rcases Nat.lt_trichotomy k Operator.levels with hk | rfl | hk
  · refine (operand_iff hk).2 fun rest hrest => operand_of_lt hk (h.operand_eq ?_ hrest)
    omega
  · refine prefix_iff.2 fun rest hrest => ?_
    rw [(access_iff (Nat.le_refl _)).1 h]
    refine accessors_stop (fun t ht => ?_) tree
    have hbinding := hrest t ht
    refine ⟨?_, ?_, ?_⟩ <;> intro hdot <;> rw [hdot] at hbinding <;>
      exact absurd hbinding (by decide)
  · exact (access_iff (by unfold accessLevel; omega)).2
      ((access_iff (by unfold accessLevel; omega)).1 h)

lemma mono {j : Nat} (h : Reads (k + 1) ls tree) (hjk : j ≤ k) : Reads (j + 1) ls tree := by
  induction hjk with
  | refl => exact h
  | step _ ih => exact ih h.down

lemma operand_zero (h : Reads (k + 1) ls tree) (hrest : Loose 0 rest) :
    operand 0 (ls ++ rest) = some (tree, rest) :=
  (h.mono (Nat.zero_le k)).operand_eq (Nat.zero_le _) hrest

lemma primary {l : Lexeme} (hl : l.token.unaryOperator? = none)
    (h : ∀ rest, Tree.primary (l :: ls ++ rest) = some (tree, rest)) :
    Reads accessLevel (l :: ls) tree :=
  (access_iff (Nat.le_refl _)).2 fun rest => prefixed_primary hl (h rest)

lemma name {l : Lexeme} {letters : List Char} (hl : l.token = .name letters) :
    ∃ tree, Reads accessLevel [l] tree := by
  have hprefix : l.token.unaryOperator? = none := by rw [hl]; rfl
  cases hk : Keyword.ofName? letters with
  | none => exact ⟨_, primary hprefix fun rest => primary_name hl hk rest⟩
  | some k => exact ⟨_, primary hprefix fun rest => primary_keyword hl hk rest⟩

lemma enclosed {l l' : Lexeme} (hl : l.token = .symbol .openParen)
    (hl' : l'.token = .symbol .closeParen)
    (h : ∀ rest, expression (ls ++ l' :: rest) = some (tree, l' :: rest)) :
    Reads accessLevel (l :: (ls ++ [l'])) (.group tree) := by
  refine primary (by rw [hl]; rfl) fun rest => ?_
  rw [List.cons_append, List.append_assoc]
  exact primary_group hl (h rest) hl'

lemma loose_zero {l : Lexeme} (hl : l.token.binding = 0) (rest : List Lexeme) :
    Loose 0 (l :: rest) := by
  rintro t ⟨⟩
  exact hl.le

/-- Where the head of an arrow stands, operators end before the arrow. -/
lemma arrow_of_arrowHead? {ts : List Lexeme} {param : List Char} {body : Lexeme.Rest ts}
    (h : arrowHead? ts = some (param, body)) : ∃ tree t rest,
      operand 0 ts = some (tree, t :: rest) ∧ t.token = .symbol .arrow := by
  unfold arrowHead? at h
  split at h
  · next param start stop start' stop' rest =>
    obtain ⟨tree, htree⟩ := name (l := ⟨.name param, start, stop⟩) rfl
    exact ⟨tree, ⟨.symbol .arrow, start', stop'⟩, rest,
      htree.operand_zero (loose_zero rfl rest), rfl⟩
  · next i j param start stop i' j' start' stop' rest =>
    obtain ⟨tree, htree⟩ := name (l := ⟨.name param, start, stop⟩) rfl
    have hgroup : Reads accessLevel ([⟨.symbol .openParen, i, j⟩] ++ [⟨.name param, start, stop⟩] ++
        [⟨.symbol .closeParen, i', j'⟩]) (.group tree) :=
      enclosed rfl rfl fun rest =>
        expression_test rfl (htree.operand_zero (loose_zero rfl rest)) (by simp)
    exact ⟨.group tree, ⟨.symbol .arrow, start', stop'⟩, rest,
      hgroup.operand_zero (loose_zero rfl rest), rfl⟩
  · cases h

lemma arrowHead?_eq_none {ts : List Lexeme} (h : operand 0 ts = some (tree, rest))
    (hrest : ∀ t ∈ rest.head?, t.token ≠ .symbol .arrow) : arrowHead? ts = none := by
  -- the operand before an arrow is all that its head reads
  cases harrow : arrowHead? ts with
  | none => rfl
  | some head =>
    obtain ⟨tree', t, rest', hoperand, ht⟩ := arrow_of_arrowHead? harrow
    cases h.symm.trans hoperand
    exact absurd ht (hrest t rfl)

lemma expression (h : Reads (k + 1) ls tree) : Reads 0 ls tree := by
  intro rest hrest
  have hoperand := h.operand_zero (hrest.loose 0)
  exact expression_test (arrowHead?_eq_none hoperand (hrest.ne (by decide))) hoperand
    (hrest.ne (by decide))

lemma le {j : Nat} (h : Reads k ls tree) (hjk : j ≤ k) : Reads j ls tree := by
  cases k with
  | zero => exact Nat.le_zero.1 hjk ▸ h
  | succ k =>
    cases j with
    | zero => exact h.expression
    | succ j => exact h.mono (Nat.le_of_succ_le_succ hjk)

/-- What is read before any accessor is read at every level. -/
lemma of_access (h : Reads accessLevel ls tree) : Reads k ls tree := by
  rcases Nat.le_total k accessLevel with hk | hk
  · exact h.le hk
  · exact (access_iff hk).2 ((access_iff (Nat.le_refl _)).1 h)

lemma single {l : Lexeme} (hl : l.token.unaryOperator? = none)
    (h : ∀ rest, Tree.primary (l :: rest) = some (tree, rest)) : Reads k [l] tree := by
  have haccess : Reads accessLevel [l] tree := primary hl h
  exact haccess.of_access

variable {l l' : Lexeme} {object key operand left right test yes no body : Tree}

lemma closed_of_mem {s : Symbol} (hl : l.token = .symbol s)
    (hs : s ∈ [.closeParen, .closeBracket, .comma, .colon]) (rest : List Lexeme) :
    Closed (l :: rest) := by
  rintro t ⟨⟩
  rw [hl]
  simpa using hs

lemma group (hl : l.token = .symbol .openParen) (h : Reads 0 ls tree)
    (hl' : l'.token = .symbol .closeParen) : Reads accessLevel (l :: (ls ++ [l'])) (.group tree) :=
  enclosed hl hl' fun rest => h _ (closed_of_mem hl' (by decide) rest)

lemma member (h : Reads accessLevel ls object) (hl : l.token = .symbol .dot) {letters : List Char}
    (hl' : l'.token = .name letters) :
    Reads accessLevel (ls ++ [l, l']) (.member object letters) := by
  refine (access_iff (Nat.le_refl _)).2 fun rest => ?_
  rw [List.append_assoc, (access_iff (Nat.le_refl _)).1 h]
  exact accessors_member hl hl' object rest

lemma index (h : Reads accessLevel ls object) (hl : l.token = .symbol .openBracket)
    (hkey : Reads 0 ls' key) (hl' : l'.token = .symbol .closeBracket) :
    Reads accessLevel (ls ++ l :: (ls' ++ [l'])) (.index object key) := by
  refine (access_iff (Nat.le_refl _)).2 fun rest => ?_
  have hread := hkey _ (closed_of_mem hl' (by decide) rest)
  rw [List.append_assoc, (access_iff (Nat.le_refl _)).1 h]
  simp only [List.cons_append, List.append_assoc, List.nil_append]
  exact accessors_index hl hread hl' object

lemma unary {op : UnaryOp} (hl : l.token = .symbol op.symbol)
    (h : Reads prefixLevel ls operand) : Reads prefixLevel (l :: ls) (.unary op operand) := by
  refine prefix_iff.2 fun rest hrest => ?_
  have hop : l.token.unaryOperator? = some op := by
    rw [hl]
    cases op <;> rfl
  exact prefixed_unary hop (prefix_iff.1 h rest hrest)

lemma operation {op : Operator} (hleft : Reads (op.level + 1) ls left)
    (hl : l.token = .symbol (.operator op)) (hright : Reads (op.level + 2) ls' right) :
    Reads (op.level + 1) (ls ++ l :: ls') (.operation op left right) := by
  refine (operand_iff op.level_lt).2 fun rest hrest => ?_
  have hloose : Loose (op.level + 1) (l :: (ls' ++ rest)) := by
    rintro t ⟨⟩
    rw [hl]
    exact Nat.le_refl _
  rw [List.append_assoc, List.cons_append, (operand_iff op.level_lt).1 hleft _ hloose]
  exact chain_operator hl (hright.operand_eq op.level_lt hrest) left

lemma conditional (htest : Reads 1 ls test) (hl : l.token = .symbol .question)
    (hyes : Reads 0 ls' yes) (hl' : l'.token = .symbol .colon) {ls'' : List Lexeme}
    (hno : Reads 0 ls'' no) :
    Reads 0 (ls ++ l :: (ls' ++ l' :: ls'')) (.conditional test yes no) := by
  intro rest hrest
  have hoperand : Tree.operand 0 (ls ++ l :: (ls' ++ l' :: (ls'' ++ rest))) =
      some (test, l :: (ls' ++ l' :: (ls'' ++ rest))) :=
    htest.operand_zero (loose_zero (by rw [hl]; rfl) _)
  have hbranch := hyes _ (closed_of_mem hl' (by decide) (ls'' ++ rest))
  simp only [List.append_assoc, List.cons_append]
  refine expression_conditional (arrowHead?_eq_none hoperand ?_) hoperand hl hbranch hl'
    (hno rest hrest)
  rintro t ⟨⟩
  rw [hl]
  nofun

lemma arrow {param : List Char} (hl : l.token = .name param) (hl' : l'.token = .symbol .arrow)
    (h : Reads 0 ls body) : Reads 0 (l :: l' :: ls) (.arrow param body) := by
  intro rest hrest
  obtain ⟨token, start, stop⟩ := l
  obtain ⟨token', start', stop'⟩ := l'
  obtain rfl := hl
  obtain rfl := hl'
  exact expression_arrow rfl (h rest hrest)

lemma enclosedArrow {l₁ l₂ l₃ l₄ : Lexeme} {param : List Char}
    (h₁ : l₁.token = .symbol .openParen) (h₂ : l₂.token = .name param)
    (h₃ : l₃.token = .symbol .closeParen) (h₄ : l₄.token = .symbol .arrow) (h : Reads 0 ls body) :
    Reads 0 (l₁ :: l₂ :: l₃ :: l₄ :: ls) (.arrow param body) := by
  intro rest hrest
  obtain ⟨token, start, stop⟩ := l₁
  obtain ⟨token, start, stop⟩ := l₂
  obtain ⟨token, start, stop⟩ := l₃
  obtain ⟨token, start, stop⟩ := l₄
  obtain rfl := h₁
  obtain rfl := h₂
  obtain rfl := h₃
  obtain rfl := h₄
  exact expression_arrow rfl (h rest hrest)

lemma argument (h : Reads 0 ls tree) (hls : Phrase (ls.map Lexeme.token))
    (hl : l.token = .symbol .closeParen) (rest : List Lexeme) :
    arguments (ls ++ [l] ++ rest) = some ([tree], l.stop, rest) := by
  rw [List.append_assoc]
  exact arguments_one (hls.head_ne_close _) (h _ (closed_of_mem hl (by decide) rest)) hl

lemma argumentPair (hleft : Reads 0 ls left) (hls : Phrase (ls.map Lexeme.token))
    (hl : l.token = .symbol .comma) (hright : Reads 0 ls' right)
    (hl' : l'.token = .symbol .closeParen) (rest : List Lexeme) :
    arguments (ls ++ l :: ls' ++ [l'] ++ rest) = some ([left, right], l'.stop, rest) := by
  simp only [List.append_assoc, List.cons_append]
  exact arguments_two (hls.head_ne_close _) (hleft _ (closed_of_mem hl (by decide) _)) hl
    (hright _ (closed_of_mem hl' (by decide) rest)) hl'

lemma call (h : Reads accessLevel ls object) (hl : l.token = .symbol .openParen)
    {arguments : List Tree} {stop : Nat}
    (harguments : ∀ rest, Tree.arguments (ls' ++ rest) = some (arguments, stop, rest)) :
    Reads accessLevel (ls ++ l :: ls')
      (.call object arguments ⟨l.start, stop - l.start⟩) := by
  refine (access_iff (Nat.le_refl _)).2 fun rest => ?_
  rw [List.append_assoc, (access_iff (Nat.le_refl _)).1 h]
  exact accessors_call hl (harguments rest) object

end Reads

end Timeline
