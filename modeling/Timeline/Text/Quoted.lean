import Timeline.Text.Unprintable

/-! # Quoted text

Text between double quotes, as messages show it. Quotes, backslashes and the common control
characters are written with a backslash; what has no printed form is written as its code point. -/
namespace Timeline.Text

/-- Hexadecimal digits of a code point, between braces. -/
def codePoint (c : Char) : List Char :=
  '\\' :: 'u' :: '\x7b' :: Nat.toDigits 16 c.toNat ++ ['\x7d']

def quoteChar (c : Char) : List Char :=
  match c with
  | '"' => ['\\', '"']
  | '\\' => ['\\', '\\']
  | '\n' => ['\\', 'n']
  | '\r' => ['\\', 'r']
  | '\t' => ['\\', 't']
  | '\x00' => ['\\', '0']
  | c => if isUnprintable c then codePoint c else [c]

def quote (s : String) : String :=
  String.ofList ('"' :: s.toList.flatMap quoteChar ++ ['"'])

end Timeline.Text
