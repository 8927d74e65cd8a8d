import Mathlib.Data.List.DropRight
import Mathlib.Tactic.Common
import Timeline.Text.Blank
import Timeline.Text.Digits

/-! # Runs of blanks and of digits

What is left of a text when the blanks at its ends are trimmed, and where the digits at its front
end. -/
namespace Timeline.Text

lemma isBlank_eq_false {c : Char} (h : 33 ≤ c.toNat) (h' : c.toNat ≤ 126) :
    isBlank c = false := by
  simp only [isBlank, blankRanges, List.any_cons, List.any_nil, Bool.or_eq_false_iff,
    Bool.and_eq_false_iff, decide_eq_false_iff_not, and_true]
  refine ⟨?_, ?_, ?_, ?_, ?_, ?_, ?_, ?_, ?_, ?_⟩ <;> omega

lemma trimStart_append_cons {c : Char} (hc : isBlank c = false) (cs ds : List Char) :
    trimStart (cs ++ c :: ds) = trimStart cs ++ c :: ds := by
  induction cs with
  | nil => simp [trimStart, hc]
  | cons d cs ih =>
    unfold trimStart at ih ⊢
    by_cases hd : isBlank d <;> simp [hd, ih]

lemma trimEnd_append_cons {c : Char} (hc : isBlank c = false) (cs ds : List Char) :
    trimEnd (cs ++ c :: ds) = cs ++ c :: trimEnd ds := by
  simp [trimEnd, trimStart_append_cons hc]

lemma trim_middle {c : Char} (hc : isBlank c = false) (cs ds : List Char) :
    trim (cs ++ c :: ds) = trimStart cs ++ c :: trimEnd ds := by
  rw [trim, trimStart_append_cons hc, trimEnd_append_cons hc]

lemma trimStart_eq_self {cs : List Char} (h : ∀ c ∈ cs.head?, isBlank c = false) :
    trimStart cs = cs := by
  cases cs with
  | nil => rfl
  | cons c cs => exact List.dropWhile_cons_of_neg (by simpa using h c rfl)

lemma trimStart_eq_nil {cs : List Char} (h : ∀ c ∈ cs, isBlank c) : trimStart cs = [] :=
  List.dropWhile_eq_nil_iff.2 h

lemma trim_trimStart (cs : List Char) : trim (trimStart cs) = trim cs := by
  rw [trim, trim, trimStart, trimStart, List.dropWhile_idempotent]

lemma trimEnd_trimEnd (cs : List Char) : trimEnd (trimEnd cs) = trimEnd cs :=
  List.rdropWhile_idempotent isBlank cs

section
variable {blanks : List Char} {c : Char}

lemma trim_append_cons (hblanks : ∀ b ∈ blanks, isBlank b) (hc : isBlank c = false)
    (cs : List Char) : trim (blanks ++ c :: cs) = c :: trimEnd cs := by
  rw [trim_middle hc, trimStart_eq_nil hblanks, List.nil_append]

lemma trim_trimEnd (hblanks : ∀ b ∈ blanks, isBlank b) (hc : isBlank c = false) (cs : List Char) :
    trim (trimEnd (blanks ++ c :: cs)) = c :: trimEnd cs := by
  rw [trimEnd_append_cons hc, trim_append_cons hblanks hc, trimEnd_trimEnd]

/-- Blanks around a text make no difference to its trimmed form. -/
lemma trim_enclosed {cs after : List Char} (hblanks : ∀ b ∈ blanks, isBlank b)
    (hafter : ∀ b ∈ after, isBlank b) (hc : isBlank c = false) :
    trim (blanks ++ c :: (cs ++ after)) = trim (c :: cs) := by
  have hend : trimEnd (cs ++ after) = trimEnd cs := by
    rw [trimEnd, trimEnd, List.reverse_append, trimStart, trimStart,
      List.dropWhile_append_of_pos (by simpa using hafter)]
  have hnone : ∀ b ∈ ([] : List Char), isBlank b := nofun
  calc trim (blanks ++ c :: (cs ++ after))
    _ = c :: trimEnd (cs ++ after) := trim_append_cons hblanks hc _
    _ = c :: trimEnd cs := by rw [hend]
    _ = trim (c :: cs) := (trim_append_cons hnone hc cs).symm

end

/-- Trimming leaves what neither starts nor ends with a blank. -/
lemma trim_eq_self {cs : List Char} (hhead : ∀ c ∈ cs.head?, isBlank c = false)
    (hlast : ∀ c ∈ cs.getLast?, isBlank c = false) : trim cs = cs := by
  rw [trim, trimStart_eq_self hhead]
  rcases List.eq_nil_or_concat cs with rfl | ⟨rest, c, rfl⟩
  · rfl
  · rw [List.concat_eq_append] at hlast ⊢
    exact List.rdropWhile_concat_neg isBlank rest c (by simpa using hlast c (by simp))

/-- A text, not the empty one, without blanks. -/
def IsSolid (cs : List Char) : Prop := cs ≠ [] ∧ ∀ c ∈ cs, isBlank c = false

namespace IsSolid

variable {cs ds before after : List Char} {c : Char}

lemma append (hcs : IsSolid cs) (hds : ∀ d ∈ ds, isBlank d = false) : IsSolid (cs ++ ds) := by
  refine ⟨List.append_ne_nil_of_left_ne_nil hcs.1 ds, fun d hd => ?_⟩
  exact (List.mem_append.1 hd).elim (hcs.2 d) (hds d)

lemma cons (hc : isBlank c = false) (hcs : IsSolid cs) : IsSolid (c :: cs) := by
  have hsingle : IsSolid [c] := ⟨List.cons_ne_nil _ _, by simpa using hc⟩
  exact hsingle.append hcs.2

lemma trimStart_append (hcs : IsSolid cs) (ds : List Char) : trimStart (cs ++ ds) = cs ++ ds := by
  refine trimStart_eq_self fun c hc => hcs.2 c ?_
  rw [List.head?_append_of_ne_nil _ hcs.1] at hc
  exact List.mem_of_mem_head? hc

/-- What starts and ends without blanks is trimmed to itself. -/
lemma trim_enclosed (hcs : IsSolid cs) (hds : IsSolid ds) (between : List Char)
    (hbefore : ∀ b ∈ before, isBlank b) (hafter : ∀ b ∈ after, isBlank b) :
    trim (before ++ (cs ++ between ++ ds) ++ after) = cs ++ between ++ ds := by
  have hself : trim (cs ++ between ++ ds) = cs ++ between ++ ds := by
    refine trim_eq_self (fun c hc => hcs.2 c ?_) fun c hc => hds.2 c ?_
    · rw [List.append_assoc, List.head?_append_of_ne_nil _ hcs.1] at hc
      exact List.mem_of_mem_head? hc
    · rw [List.getLast?_append_of_ne_nil _ hds.1] at hc
      exact List.mem_of_mem_getLast? hc
  obtain ⟨c, rest, hcons⟩ := List.exists_cons_of_ne_nil hcs.1
  have hc : isBlank c = false := hcs.2 c (by simp [hcons])
  rw [hcons, List.cons_append, List.cons_append] at hself ⊢
  rw [List.append_assoc, List.cons_append, Text.trim_enclosed hbefore hafter hc, hself]

end IsSolid

lemma digits_append_eq {ds rest : List Char} (hds : ∀ c ∈ ds, c.isDigit)
    (hrest : ∀ c ∈ rest.head?, c.isDigit = false) : digits (ds ++ rest) = (ds, rest) := by
  unfold digits
  rw [List.takeWhile_append_of_pos hds, List.dropWhile_append_of_pos hds]
  cases rest with
  | nil => simp
  | cons c rest => simp [hrest c rfl]

lemma digits_eq_nil {cs : List Char} (h : ∀ c ∈ cs.head?, c.isDigit = false) :
    digits cs = ([], cs) :=
  @digits_append_eq [] cs nofun h

end Timeline.Text
