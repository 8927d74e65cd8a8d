import Timeline.Proofs.Calendar.Exclusion
import Timeline.Proofs.Calendar.Order
import Timeline.Proofs.Calendar.Padding
import Timeline.Scale.Error

/-! # Written moments are read back

Messages show a moment by a text from which it is read back, with blanks around it and with other
marks in it too, and it is read back from its texts in the form of RFC 3339. It is enough that one
reader takes a text back, since no other reader accepts it. Leap seconds are those of
`Calendar.IsTime`, after a second 59. -/
namespace Timeline
open Text Calendar

/-- A date with a mark between its numbers. -/
def Date.writtenWith (mark : Char) (d : Date) : List Char :=
  writtenYear d.year ++ mark :: padded 2 d.month ++ mark :: padded 2 d.day

namespace TimeOfDay

/-- A leap second is the second 60. -/
def shownSecond (t : TimeOfDay) : Nat := if t.isLeap then t.second + 1 else t.second

/-- The part of the second that is shown. -/
def shownNano (t : TimeOfDay) : Nat := if t.isLeap then t.nano - nanosPerSecond else t.nano

/-- A time of day with a number of digits for the part of its second. -/
def writtenTo (places : Nat) (t : TimeOfDay) : List Char :=
  padded 2 t.hour ++ ':' :: padded 2 t.minute ++ ':' :: padded 2 t.shownSecond ++
    fractionOf places t.shownNano

lemma shownNano_lt (t : TimeOfDay) : t.shownNano < nanosPerSecond := by
  have hbound := t.valid.2.2.2
  unfold shownNano isLeap
  split_ifs with hleap
  · simp only [decide_eq_true_eq] at hleap
    omega
  · simpa using hleap

lemma shownSecond_le (t : TimeOfDay) : t.shownSecond ≤ 60 := by
  have hsecond := t.valid.2.2.1
  unfold shownSecond
  split_ifs <;> omega

lemma exists_written_eq (t : TimeOfDay) :
    ∃ places ≤ 9, 10 ^ (9 - places) ∣ t.shownNano ∧ t.written = t.writtenTo places := by
  obtain ⟨places, hplaces, hexact, hfraction⟩ := exists_writtenFraction_eq t.shownNano
  refine ⟨places, hplaces, hexact, ?_⟩
  rw [writtenTo, ← hfraction]
  rfl

end TimeOfDay

namespace Moment

/-- A moment with a mark between the numbers of its date, and one before its time of day. -/
def writtenWith (mark gap : Char) (m : Moment) : List Char :=
  m.date.writtenWith mark ++ gap :: m.time.written

/-- The text of a moment in the form of RFC 3339, with an offset. -/
def writtenRfc3339 (places : Nat) (offset : List Char) (m : Moment) : List Char :=
  m.date.writtenWith '-' ++ 'T' :: m.time.writtenTo places ++ offset

/-- The numbers that the text of a moment shows. -/
def fields (m : Moment) : Fields :=
  ⟨m.date.year, m.date.month, m.date.day, m.time.hour, m.time.minute, m.time.shownSecond,
    m.time.shownNano⟩

/-- The second 60 stands for the leap second that it is written for. -/
lemma moment?_fields (m : Moment) : m.fields.moment? = some m := by
  have hdate : Date.ofYMD? m.date.year m.date.month m.date.day = some m.date :=
    dif_pos m.date.valid
  have htime : TimeOfDay.ofHMSN? m.time.hour m.time.minute m.time.second m.time.nano =
      some m.time :=
    dif_pos m.time.valid
  have hsecond := m.time.valid.2.2.1
  have hnano := m.time.valid.2.2.2
  by_cases hleap : nanosPerSecond ≤ m.time.nano
  · have hlast : m.time.second = 59 := by omega
    rw [hlast] at htime
    simp [fields, Fields.moment?, TimeOfDay.shownSecond, TimeOfDay.shownNano, TimeOfDay.isLeap,
      hdate, htime, hleap, hlast]
  · have hbelow : m.time.nano < nanosPerSecond := by omega
    have hordinary : m.time.second ≠ 60 := by omega
    simp [fields, Fields.moment?, TimeOfDay.shownSecond, TimeOfDay.shownNano, TimeOfDay.isLeap,
      hdate, htime, hleap, hbelow, hordinary]

end Moment

namespace Calendar

variable {n : Nat} {c : Char} {rest : List Char}

lemma year?_padded (h : n < 10 ^ 4) : year? (padded 4 n ++ rest) = some ((n : Int), rest) := by
  have hdigit : ∀ c ∈ (padded 4 n ++ rest).head?, c.isDigit = true := by
    intro c hc
    rw [List.head?_append_of_ne_nil _ padded_ne_nil] at hc
    exact isDigit_of_mem_padded (List.mem_of_mem_head? hc)
  unfold year?
  split
  · next heq => exact absurd (hdigit '-' (by rw [heq]; rfl)) (by decide)
  · next heq => exact absurd (hdigit '+' (by rw [heq]; rfl)) (by decide)
  · rw [numberUpTo?_padded (by decide) h]
    rfl

/-- A year is read back, with or without a sign, if no digit follows. -/
lemma year?_writtenYear (year : Int) (hrest : ∀ c ∈ rest.head?, c.isDigit = false) :
    year? (Date.writtenYear year ++ rest) = some (year, rest) := by
  unfold Date.writtenYear
  split_ifs with hfour hnegative
  · rw [year?_padded (by omega)]
    exact congrArg some (Prod.ext (by omega) rfl)
  · have hcast : -(year.natAbs : Int) = year := by omega
    rw [List.cons_append, year?, number?_padded hrest]
    exact congrArg some (Prod.ext hcast rfl)
  · have hcast : (year.natAbs : Int) = year := by omega
    rw [List.cons_append, year?, number?_padded hrest]
    exact congrArg some (Prod.ext hcast rfl)

lemma isSolid_writtenYear (year : Int) : IsSolid (Date.writtenYear year) := by
  unfold Date.writtenYear
  split_ifs
  · exact isSolid_padded
  · exact isSolid_padded.cons (by decide)
  · exact isSolid_padded.cons (by decide)

variable {mark : Char} {parts : List Part} {f : Fields}

lemma numberUpTo?_short (h : n < 10 ^ 2) :
    numberUpTo? 2 (trimStart (padded 2 n ++ rest)) = some (n, rest) := by
  rw [isSolid_padded.trimStart_append, numberUpTo?_padded (by decide) h]

/-- The date at the front of a text is read. -/
lemma readParts?_date (hmark : mark.isDigit = false) (d : Date) :
    readParts? (dateParts mark ++ parts) f (d.writtenWith mark ++ rest) =
      readParts? parts { f with year := d.year, month := d.month, day := d.day } rest := by
  obtain ⟨-, hmonth, -, hday⟩ := d.bounds
  have hyear (rest : List Char) :
      year? (trimStart (Date.writtenYear d.year ++ mark :: rest)) =
        some (d.year, mark :: rest) := by
    rw [(isSolid_writtenYear _).trimStart_append, year?_writtenYear _ (by simpa using hmark)]
  simp [dateParts, readParts?, Part.read?, Date.writtenWith, hyear,
    numberUpTo?_short (show d.month < 10 ^ 2 by omega),
    numberUpTo?_short (show d.day < 10 ^ 2 by omega)]

/-- The time of day at the end of a text is read. -/
lemma readParts?_clock (t : TimeOfDay) :
    readParts? fullClockParts f t.written =
      some { f with hour := t.hour, minute := t.minute, second := t.shownSecond,
                    nano := t.shownNano } := by
  obtain ⟨hhour, hminute, -, -⟩ := t.bounds
  have hsecond := t.shownSecond_le
  obtain ⟨places, hplaces, hexact, hwritten⟩ := t.exists_written_eq
  have hfraction : fraction? (fractionOf places t.shownNano ++ []) = some (t.shownNano, []) :=
    fraction?_fractionOf hplaces t.shownNano_lt hexact (by simp)
  rw [List.append_nil] at hfraction
  rw [hwritten]
  simp [fullClockParts, clockParts, readParts?, Part.read?, TimeOfDay.writtenTo, hfraction,
    numberUpTo?_short (show t.hour < 10 ^ 2 by omega),
    numberUpTo?_short (show t.minute < 10 ^ 2 by omega),
    numberUpTo?_short (show t.shownSecond < 10 ^ 2 by omega)]

/-- A layout reads a moment whose text has the marks of the layout. -/
theorem readLayout?_writtenWith (m : Moment) {between : Part} {gap : Char}
    (hmark : mark.isDigit = false)
    (hgap : ∀ f, between.read? f (gap :: m.time.written) = some (f, m.time.written)) :
    readLayout? (dateParts mark ++ between :: fullClockParts) (m.writtenWith mark gap) =
      some m := by
  rw [readLayout?, Moment.writtenWith, readParts?_date hmark, readParts?, hgap]
  dsimp only
  rw [readParts?_clock]
  exact m.moment?_fields

/-- How an offset is written: as `Z`, or with a sign, hours below 24 and minutes. -/
inductive IsOffsetText : List Char → Prop
  | zero {c : Char} (hc : c ∈ ['Z', 'z']) : IsOffsetText [c]
  | shift {sign : Char} {hours minutes : Nat} (hsign : sign ∈ ['+', '-', '\u2212'])
      (hhours : hours < 24) (hminutes : minutes < 60) :
      IsOffsetText (sign :: (padded 2 hours ++ ':' :: padded 2 minutes))

variable {offset : List Char}

lemma IsOffsetText.isOffset (h : IsOffsetText offset) : isOffset offset = true := by
  cases h with
  | zero hc =>
    simp only [List.mem_cons, List.not_mem_nil, or_false] at hc
    rcases hc with rfl | rfl <;> rfl
  | @shift sign hours minutes hsign hhours hminutes =>
    have hread (rest : List Char) : numberOf? 2 (padded 2 hours ++ rest) = some (hours, rest) :=
      numberOf?_padded (by decide) (by omega)
    have hread' : numberOf? 2 (padded 2 minutes ++ []) = some (minutes, []) :=
      numberOf?_padded (by decide) (by omega)
    rw [List.append_nil] at hread'
    simp only [List.mem_cons, List.not_mem_nil, or_false] at hsign
    rcases hsign with rfl | rfl | rfl <;>
      simp [Calendar.isOffset, hread, hread', hhours, hminutes]

/-- A mark that can follow a second: no digit, no point and no blank. -/
def IsOffsetMark (c : Char) : Prop := (c.isDigit = false ∧ c ≠ '.') ∧ isBlank c = false

instance (c : Char) : Decidable (IsOffsetMark c) := inferInstanceAs (Decidable (_ ∧ _))

lemma IsOffsetText.head (h : IsOffsetText offset) : ∀ c ∈ offset.head?, IsOffsetMark c := by
  cases h with
  | @zero c hc =>
    have hmark : IsOffsetMark c := by
      simp only [List.mem_cons, List.not_mem_nil, or_false] at hc
      rcases hc with rfl | rfl <;> decide
    simpa using hmark
  | @shift sign hours minutes hsign =>
    have hmark : IsOffsetMark sign := by
      simp only [List.mem_cons, List.not_mem_nil, or_false] at hsign
      rcases hsign with rfl | rfl | rfl <;> decide
    simpa using hmark

lemma IsOffsetText.isSolid (h : IsOffsetText offset) : IsSolid offset := by
  have hblank (c : Char) (hc : c ∈ offset.head?) : isBlank c = false := (h.head c hc).2
  cases h with
  | @zero c => exact ⟨List.cons_ne_nil _ _, by simpa using hblank c rfl⟩
  | @shift sign =>
    exact (isSolid_padded.append (isSolid_padded.cons (by decide)).2).cons (hblank sign rfl)

/-- The form of RFC 3339 is read with any exact number of digits and any offset. -/
theorem readRfc3339?_written (m : Moment) {places : Nat}
    (hyear : 0 ≤ m.date.year ∧ m.date.year ≤ 9999) (hplaces : places ≤ 9)
    (hexact : 10 ^ (9 - places) ∣ m.time.shownNano) (hoffset : IsOffsetText offset) :
    readRfc3339? (m.writtenRfc3339 places offset) = some m := by
  obtain ⟨-, hmonth, -, hday⟩ := m.date.bounds
  obtain ⟨hhour, hminute, -, -⟩ := m.time.bounds
  have hsecond := m.time.shownSecond_le
  have hfour : m.date.year.natAbs < 10 ^ 4 := by omega
  have hcast : (m.date.year.natAbs : Int) = m.date.year := by omega
  have htwo {n : Nat} (h : n < 100) (rest : List Char) :
      numberOf? 2 (padded 2 n ++ rest) = some (n, rest) :=
    numberOf?_padded (by decide) h
  have hfraction := fraction?_fractionOf hplaces m.time.shownNano_lt hexact
    fun c hc => (hoffset.head c hc).1
  have hfields := m.moment?_fields
  simp only [Moment.fields] at hfields
  simp [readRfc3339?, oneOf?, Moment.writtenRfc3339, Date.writtenWith, Date.writtenYear, hyear,
    TimeOfDay.writtenTo, numberOf?_padded (show 0 < 4 by decide) hfour,
    htwo (show m.date.month < 100 by omega), htwo (show m.date.day < 100 by omega),
    htwo (show m.time.hour < 100 by omega), htwo (show m.time.minute < 100 by omega),
    htwo (show m.time.shownSecond < 100 by omega), hfraction, hoffset.isOffset, hcast, hfields]

end Calendar

namespace Moment

lemma ofText?_eq_some {read? : List Char → Option Moment} {s : String} {m : Moment}
    (hmem : read? ∈ readers) (hread : read? (trim s.toList) = some m) : ofText? s = some m :=
  findSome?_eq_some_of_mem (readers_pairwise _) hmem hread

variable {before after offset : List Char} {mark : Char} {places : Nat}

lemma isSolid_date (hmark : isBlank mark = false) (d : Date) : IsSolid (d.writtenWith mark) :=
  ((isSolid_writtenYear _).append (isSolid_padded.cons hmark).2).append
    (isSolid_padded.cons hmark).2

lemma isSolid_time (t : TimeOfDay) : IsSolid (t.writtenTo places) :=
  ((isSolid_padded.append (isSolid_padded.cons (by decide)).2).append
    (isSolid_padded.cons (by decide)).2).append fun _ hc => isBlank_of_mem_fractionOf hc

lemma isSolid_written (t : TimeOfDay) : IsSolid t.written := by
  obtain ⟨places, -, -, hwritten⟩ := t.exists_written_eq
  exact hwritten ▸ isSolid_time t

/-- What a layout reads is read with blanks around it. -/
lemma ofText?_writtenWith (m : Moment) {between : Part} {gap : Char}
    (hbefore : ∀ c ∈ before, isBlank c) (hafter : ∀ c ∈ after, isBlank c)
    (hlayout : dateParts mark ++ between :: fullClockParts ∈ timeLayouts)
    (hmark : mark.isDigit = false) (hblank : isBlank mark = false)
    (hgap : ∀ f, between.read? f (gap :: m.time.written) = some (f, m.time.written)) :
    ofText? (String.ofList (before ++ m.writtenWith mark gap ++ after)) = some m := by
  have hmem : readLayout? (dateParts mark ++ between :: fullClockParts) ∈ readers :=
    List.mem_cons_of_mem _ (List.mem_map_of_mem (List.mem_append_left _ hlayout))
  refine ofText?_eq_some hmem ?_
  have hsplit : m.writtenWith mark gap = m.date.writtenWith mark ++ [gap] ++ m.time.written := by
    simp [writtenWith]
  rw [String.toList_ofList, hsplit,
    (isSolid_date hblank m.date).trim_enclosed (isSolid_written m.time) _ hbefore hafter, ← hsplit]
  exact readLayout?_writtenWith m hmark hgap

lemma ofText?_writtenRfc3339 (m : Moment) (hbefore : ∀ c ∈ before, isBlank c)
    (hafter : ∀ c ∈ after, isBlank c) (hyear : 0 ≤ m.date.year ∧ m.date.year ≤ 9999)
    (hplaces : places ≤ 9) (hexact : 10 ^ (9 - places) ∣ m.time.shownNano)
    (hoffset : IsOffsetText offset) :
    ofText? (String.ofList (before ++ m.writtenRfc3339 places offset ++ after)) = some m := by
  refine ofText?_eq_some (List.mem_cons_self ..) ?_
  rw [String.toList_ofList, writtenRfc3339,
    (isSolid_date (by decide) m.date).trim_enclosed hoffset.isSolid _ hbefore hafter]
  exact readRfc3339?_written m hyear hplaces hexact hoffset

/-- A moment is what a text gives, with any blanks around it. -/
def ReadFrom (m : Moment) (cs : List Char) : Prop :=
  ∀ before after : List Char, (∀ c ∈ before, isBlank c) → (∀ c ∈ after, isBlank c) →
    ofText? (String.ofList (before ++ cs ++ after)) = some m

/-- A moment is read back from the text that messages show, with `T` in place of the space, and with
`/` in place of the hyphens of the date; one of the years 0 to 9999 is read back from each of its
texts in the form of RFC 3339, without regard to the offset. -/
structure ReadBack (m : Moment) : Prop where
  shown : m.ReadFrom (m.writtenWith '-' ' ')
  joined : m.ReadFrom (m.writtenWith '-' 'T')
  slashed : m.ReadFrom (m.writtenWith '/' ' ')
  rfc3339 : ∀ (places : Nat) (offset : List Char), 0 ≤ m.date.year → m.date.year ≤ 9999 →
    places ≤ 9 → 10 ^ (9 - places) ∣ m.time.shownNano → IsOffsetText offset →
    m.ReadFrom (m.writtenRfc3339 places offset)

lemma readBack (m : Moment) : m.ReadBack := by
  have hspace (f : Fields) :
      Part.gap.read? f (' ' :: m.time.written) = some (f, m.time.written) := by
    have htrim : trimStart (' ' :: m.time.written) = trimStart m.time.written :=
      List.dropWhile_cons_of_pos (by decide)
    have hself := (isSolid_written m.time).trimStart_append []
    rw [List.append_nil] at hself
    rw [Part.read?, htrim, hself]
  have hmark (f : Fields) :
      (Part.mark 'T').read? f ('T' :: m.time.written) = some (f, m.time.written) := rfl
  constructor
  case shown =>
    intro before after hbefore hafter
    exact ofText?_writtenWith m hbefore hafter (by decide) (by decide) (by decide) hspace
  case joined =>
    intro before after hbefore hafter
    exact ofText?_writtenWith m hbefore hafter (by decide) (by decide) (by decide) hmark
  case slashed =>
    intro before after hbefore hafter
    exact ofText?_writtenWith m hbefore hafter (by decide) (by decide) (by decide) hspace
  case rfc3339 =>
    intro places offset hlow hhigh hplaces hexact hoffset before after hbefore hafter
    exact ofText?_writtenRfc3339 m hbefore hafter ⟨hlow, hhigh⟩ hplaces hexact hoffset

end Moment

namespace ScaleError
open Moment

/-- The message of a leaf that would end before it starts shows both moments, and from what it shows
of any moment this moment is read back. -/
theorem message_readBack (index : Nat) (start stop : Moment) :
    (boundaryViolation index start stop).message =
        "scale item " ++ Nat.repr index ++
          " ends at " ++ String.ofList (stop.writtenWith '-' ' ') ++
          " before it starts at " ++ String.ofList (start.writtenWith '-' ' ') ∧
      start.ReadBack ∧ stop.ReadBack := by
  have hshown (m : Moment) : m.text = String.ofList (m.writtenWith '-' ' ') := rfl
  refine ⟨?_, start.readBack, stop.readBack⟩
  rw [← hshown, ← hshown]
  rfl

/-- Half a second into the leap second at the end of 2016. -/
def leapMoment : Moment :=
  ⟨⟨2016, 12, 31, by decide⟩, ⟨23, 59, 59, 1500000000, by decide⟩⟩

/-- A day of the first year, at the last nanosecond of an hour. -/
def firstMoment : Moment :=
  ⟨⟨-262143, 1, 2, by decide⟩, ⟨3, 59, 59, 999999999, by decide⟩⟩

theorem message_readBack_leapMoment :
    (boundaryViolation 3 leapMoment firstMoment).message =
        "scale item 3 ends at -262143-01-02 03:59:59.999999999 before it starts at " ++
          "2016-12-31 23:59:60.500" ∧
      (∀ c ∈ ['\u3000', '\n'], isBlank c) ∧ (∀ c ∈ ['\u0085'], isBlank c) ∧
      IsOffsetText "-23:59".toList ∧
      ofText? "\u3000\n-262143-01-02 03:59:59.999999999\u0085" = some firstMoment ∧
      ofText? "\u3000\n2016-12-31 23:59:60.500\u0085" = some leapMoment ∧
      ofText? "\u3000\n2016-12-31T23:59:60.5-23:59\u0085" = some leapMoment := by
  have hbefore : ∀ c ∈ ['\u3000', '\n'], isBlank c := List.all_eq_true.1 (by decide)
  have hafter : ∀ c ∈ ['\u0085'], isBlank c := List.all_eq_true.1 (by decide)
  have hshift : IsOffsetText ('-' :: (padded 2 23 ++ ':' :: padded 2 59)) :=
    .shift (by decide) (by decide) (by decide)
  have hoffset : IsOffsetText "-23:59".toList := hshift
  obtain ⟨hmessage, hleap, hfirst⟩ := message_readBack 3 leapMoment firstMoment
  have hleapText : String.ofList (leapMoment.writtenWith '-' ' ') = "2016-12-31 23:59:60.500" := by
    decide +kernel
  have hfirstText : String.ofList (firstMoment.writtenWith '-' ' ') =
      "-262143-01-02 03:59:59.999999999" := by decide +kernel
  have hleapShown := hleap.shown _ _ hbefore hafter
  have hfirstShown := hfirst.shown _ _ hbefore hafter
  have hread := hleap.rfc3339 1 _ (by decide) (by decide) (by decide) (by decide) hoffset
    _ _ hbefore hafter
  rw [hleapText, hfirstText] at hmessage
  refine ⟨hmessage.trans (by decide +kernel), hbefore, hafter, hoffset, ?_, ?_, ?_⟩
  · exact hfirstShown
  · exact hleapShown
  · exact hread

end ScaleError

end Timeline
