/-! # Blank characters

The characters with the Unicode property White_Space, and text without them at either end. -/
namespace Timeline.Text

/-- First and last code point of each run of White_Space characters. -/
def blankRanges : List (Nat × Nat) :=
  [(0x9, 0xD), (0x20, 0x20), (0x85, 0x85), (0xA0, 0xA0), (0x1680, 0x1680), (0x2000, 0x200A),
    (0x2028, 0x2029), (0x202F, 0x202F), (0x205F, 0x205F), (0x3000, 0x3000)]

def isBlank (c : Char) : Bool :=
  blankRanges.any fun (first, last) => first ≤ c.toNat && c.toNat ≤ last

def trimStart (cs : List Char) : List Char := cs.dropWhile isBlank

def trimEnd (cs : List Char) : List Char := (trimStart cs.reverse).reverse

/-- The text between its first and its last character that is not blank. -/
def trim (cs : List Char) : List Char := trimEnd (trimStart cs)

/-- What follows `start` in a text that begins with it. -/
def after? : List Char → List Char → Option (List Char)
  | [], cs => some cs
  | s :: start, c :: cs => if s = c then after? start cs else none
  | _ :: _, [] => none

theorem after?_eq_some_iff {start cs rest : List Char} :
    after? start cs = some rest ↔ cs = start ++ rest := by
  induction start generalizing cs with
  | nil => simp [after?]
  | cons s start ih =>
    cases cs with
    | nil => simp [after?]
    | cons c cs =>
      simp only [after?, List.cons_append, List.cons.injEq]
      split
      · next h => simp [ih, h]
      · next h => simp [Ne.symm h]

/-- Number of bytes of the UTF-8 form. -/
def byteLength : List Char → Nat
  | [] => 0
  | c :: cs => c.utf8Size + byteLength cs

end Timeline.Text
