/-! # Backslash escapes

The text that stands between the quotes of an expression, with its escapes resolved. -/
namespace Timeline.Text

/-- The digits of a code point: hexadecimal, at least one, perhaps after a plus sign. -/
def hexDigit? (c : Char) : Option Nat :=
  if '0' ≤ c ∧ c ≤ '9' then some (c.toNat - '0'.toNat)
  else if 'a' ≤ c ∧ c ≤ 'f' then some (c.toNat - 'a'.toNat + 10)
  else if 'A' ≤ c ∧ c ≤ 'F' then some (c.toNat - 'A'.toNat + 10)
  else none

def hexDigits? (n : Nat) : List Char → Option Nat
  | [] => some n
  | c :: cs => (hexDigit? c).bind fun d => hexDigits? (16 * n + d) cs

def hexNumber? : List Char → Option Nat
  | [] => none
  | '+' :: cs => if cs.isEmpty then none else hexDigits? 0 cs
  | cs => hexDigits? 0 cs

/-- The character with a code point, unless that is a surrogate or too large. -/
def charOf? (n : Nat) : Option Char := if h : n.isValidChar then some (Char.ofNatAux n h) else none

/-- What up to four characters after `\u` stand for; if they are no code point, the `u` and they
themselves. -/
def codeEscape (hex : List Char) : List Char :=
  match (hexNumber? hex).bind charOf? with
  | some c => [c]
  | none => 'u' :: hex

/-- Resolves the escapes. A character without a special meaning stands for itself after a backslash,
and a backslash at the end for nothing. -/
def unescape (cs : List Char) : List Char :=
  match cs with
  | [] => []
  | '\\' :: rest =>
    match rest with
    | [] => []
    | 'n' :: rest => '\n' :: unescape rest
    | 't' :: rest => '\t' :: unescape rest
    | 'r' :: rest => '\r' :: unescape rest
    | '0' :: rest => '\x00' :: unescape rest
    | 'u' :: rest => codeEscape (rest.take 4) ++ unescape (rest.drop 4)
    | c :: rest => c :: unescape rest
  | c :: rest => c :: unescape rest
termination_by cs.length
decreasing_by all_goals simp only [List.length_cons, List.length_drop]; omega

end Timeline.Text
