import Timeline.Calendar.Moment
import Timeline.Text.Blank
import Timeline.Text.Digits

/-! # Reading moments

Times in the form of RFC 3339, where the offset is dropped, and times and dates in a few layouts.
Blank characters may stand before a number of a layout. -/
namespace Timeline.Calendar
open Text

/-- The numbers that a text gives for a moment. -/
structure Fields where
  year : Int
  month : Nat
  day : Nat
  hour : Nat
  minute : Nat
  second : Nat
  nano : Nat
  deriving DecidableEq, Repr

namespace Fields

def zero : Fields := ⟨0, 0, 0, 0, 0, 0, 0⟩

/-- The moment with these numbers. The second 60 is a leap second after the second 59. -/
def moment? (f : Fields) : Option Moment := do
  let date ← Date.ofYMD? f.year f.month f.day
  let time ←
    if f.second = 60 then TimeOfDay.ofHMSN? f.hour f.minute 59 (nanosPerSecond + f.nano)
    else if f.nano < nanosPerSecond then TimeOfDay.ofHMSN? f.hour f.minute f.second f.nano
    else none
  some ⟨date, time⟩

end Fields

/-- Between one and `most` digits. -/
def numberUpTo? (most : Nat) (cs : List Char) : Option (Nat × List Char) :=
  let ds := (digits (cs.take most)).1
  if ds.isEmpty then none else some (ofDigits ds, cs.drop ds.length)

/-- All digits at the front, at least one. -/
def number? (cs : List Char) : Option (Nat × List Char) :=
  match digits cs with
  | ([], _) => none
  | (ds, rest) => some (ofDigits ds, rest)

/-- Exactly `count` digits. -/
def numberOf? (count : Nat) (cs : List Char) : Option (Nat × List Char) :=
  let ds := (digits (cs.take count)).1
  if ds.length = count then some (ofDigits ds, cs.drop count) else none

/-- The nanoseconds written by the digits after a point; those beyond the ninth are left out. -/
def nanosOf (ds : List Char) : Nat :=
  let ds := ds.take 9
  ofDigits ds * Nat.pow 10 (9 - ds.length)

/-- Nothing, or a point with at least one digit. -/
def fraction? : List Char → Option (Nat × List Char)
  | '.' :: cs =>
    match digits cs with
    | ([], _) => none
    | (ds, rest) => some (nanosOf ds, rest)
  | cs => some (0, cs)

/-- Any number of digits after a sign, up to four without one. -/
def year? : List Char → Option (Int × List Char)
  | '-' :: cs => (number? cs).map fun (n, rest) => (-(n : Int), rest)
  | '+' :: cs => (number? cs).map fun (n, rest) => ((n : Int), rest)
  | cs => (numberUpTo? 4 cs).map fun (n, rest) => ((n : Int), rest)

inductive Part
  | year
  | month
  | day
  | hour
  | minute
  | second
  | fraction
  /-- Any blank characters, or none. -/
  | gap
  | mark (c : Char)
  deriving DecidableEq, Repr

namespace Part

def read? (part : Part) (f : Fields) (cs : List Char) : Option (Fields × List Char) :=
  let short := numberUpTo? 2 (trimStart cs)
  match part with
  | year => (year? (trimStart cs)).map fun (n, rest) => ({ f with year := n }, rest)
  | month => short.map fun (n, rest) => ({ f with month := n }, rest)
  | day => short.map fun (n, rest) => ({ f with day := n }, rest)
  | hour => short.map fun (n, rest) => ({ f with hour := n }, rest)
  | minute => short.map fun (n, rest) => ({ f with minute := n }, rest)
  | second => short.map fun (n, rest) => ({ f with second := n }, rest)
  | fraction => (fraction? cs).map fun (n, rest) => ({ f with nano := n }, rest)
  | gap => some (f, trimStart cs)
  | mark c =>
    match cs with
    | [] => none
    | d :: rest => if d = c then some (f, rest) else none

end Part

def readParts? : List Part → Fields → List Char → Option Fields
  | [], f, cs => if cs.isEmpty then some f else none
  | part :: parts, f, cs =>
    match part.read? f cs with
    | none => none
    | some (f, rest) => readParts? parts f rest

/-- The moment that a text in a layout stands for. -/
def readLayout? (layout : List Part) (cs : List Char) : Option Moment :=
  (readParts? layout .zero cs).bind Fields.moment?

def dateParts (c : Char) : List Part := [.year, .mark c, .month, .mark c, .day]

def clockParts : List Part := [.hour, .mark ':', .minute]

def fullClockParts : List Part := clockParts ++ [.mark ':', .second, .fraction]

def timeLayouts : List (List Part) :=
  [dateParts '-' ++ .mark 'T' :: fullClockParts,
    dateParts '-' ++ .mark 'T' :: clockParts,
    dateParts '-' ++ .gap :: fullClockParts,
    dateParts '-' ++ .gap :: clockParts,
    dateParts '/' ++ .gap :: fullClockParts,
    dateParts '/' ++ .gap :: clockParts]

/-- Dates alone stand for their midnight. -/
def dateLayouts : List (List Part) := [dateParts '-', dateParts '/']

def oneOf? (marks : List Char) : List Char → Option (List Char)
  | [] => none
  | c :: cs => if marks.contains c then some cs else none

/-- An offset: `Z`, or a sign with hours and minutes below 24 hours, up to the end of the text. -/
def isOffset (cs : List Char) : Bool :=
  match cs with
  | ['Z'] | ['z'] => true
  | sign :: cs =>
    (sign == '+' || sign == '-' || sign == '\u2212') &&
      match numberOf? 2 cs with
      | some (hours, ':' :: cs) =>
        match numberOf? 2 cs with
        | some (minutes, []) => hours < 24 && minutes < 60
        | _ => false
      | _ => false
  | [] => false

def readRfc3339? (cs : List Char) : Option Moment := do
  let (year, cs) ← numberOf? 4 cs
  let cs ← oneOf? ['-'] cs
  let (month, cs) ← numberOf? 2 cs
  let cs ← oneOf? ['-'] cs
  let (day, cs) ← numberOf? 2 cs
  let cs ← oneOf? ['T', 't', ' '] cs
  let (hour, cs) ← numberOf? 2 cs
  let cs ← oneOf? [':'] cs
  let (minute, cs) ← numberOf? 2 cs
  let cs ← oneOf? [':'] cs
  let (second, cs) ← numberOf? 2 cs
  let (nano, cs) ← fraction? cs
  if isOffset cs then Fields.moment? ⟨year, month, day, hour, minute, second, nano⟩ else none

/-- All ways to read a moment, in the order in which they are tried. -/
def readers : List (List Char → Option Moment) :=
  readRfc3339? :: (timeLayouts ++ dateLayouts).map readLayout?

end Timeline.Calendar

namespace Timeline.Moment

/-- The moment that a text stands for, without regard to blank characters around it. -/
def ofText? (s : String) : Option Moment :=
  Calendar.readers.findSome? fun read? => read? (Text.trim s.toList)

end Timeline.Moment
