import Timeline.Proofs.Number.Finite
import Timeline.Scale.Display

/-! # Documents of descriptors and overlays

The ways to give a descriptor or an entry of an overlay by a document, as rules beside the readers.
What is written of a value reads back as the same. Documents may say more than is read from them,
and may say it in other ways; once they are read and written, they stay as they are. -/
namespace Timeline

/-- Numbers that a document can hold: integers of 64 bits with or without a sign, and floats that
are finite. -/
def JsonNumber.IsWritten : JsonNumber → Prop
  | integer n => -2 ^ 63 ≤ n ∧ n < 2 ^ 64
  | float x => x.isFinite = true

lemma JsonNumber.IsWritten.isFinite {n : JsonNumber} (h : n.IsWritten) :
    n.toFloat.isFinite = true := by
  cases n with
  | integer n =>
    obtain ⟨hlow, hhigh⟩ := h
    exact Number.Binary64.isFinite_ofInt (by omega)
  | float x => exact h

/-- Documents in which every number can be written, and the members of every object have names as
they are asked for. -/
inductive Json.Conforms (Names : List String → Prop) : Json → Prop
  | null : Conforms Names .null
  | bool (b : Bool) : Conforms Names (.bool b)
  | number {n : JsonNumber} (isWritten : n.IsWritten) : Conforms Names (.number n)
  | string (s : String) : Conforms Names (.string s)
  | array {items : List Json} (items_conforms : ∀ j ∈ items, Conforms Names j) :
      Conforms Names (.array items)
  | object {members : List (String × Json)} (names : Names (members.map Prod.fst))
      (members_conforms : ∀ m ∈ members, Conforms Names m.2) : Conforms Names (.object members)

/-- Documents that can be handed in. Members that are passed over may share a name. -/
def Json.IsDocument (j : Json) : Prop := j.Conforms fun _ => True

/-- Documents in which no two members of an object share a name. -/
def Json.IsUnambiguous (j : Json) : Prop := j.Conforms List.Nodup

/-- How the values of a kind are read from documents and written as documents. -/
structure DocumentForm (β : Type) where
  read? : Json → Option β
  write : β → Json

namespace DocumentForm

variable {β : Type}

/-- The document that a document becomes when it is read and written. -/
def rewrite? (form : DocumentForm β) (j : Json) : Option Json := (form.read? j).map form.write

/-- What is read are the values that documents give. Nothing is lost of those that can be written,
and documents give no others. -/
structure Faithful (form : DocumentForm β) (GivenBy : β → Json → Prop) (CanWrite : β → Prop) :
    Prop where
  read?_eq_some_iff : ∀ j a, form.read? j = some a ↔ GivenBy a j
  read?_write : ∀ a, CanWrite a → form.read? (form.write a) = some a
  isUnambiguous_write : ∀ a, CanWrite a → (form.write a).IsUnambiguous
  canWrite : ∀ j a, j.IsDocument → GivenBy a j → CanWrite a

/-- If a document is read, it is written as one that reads the same, and stays as it is then. -/
def Settles (form : DocumentForm β) (j : Json) : Prop :=
  ∀ j', form.rewrite? j = some j' →
    j'.IsUnambiguous ∧ form.read? j' = form.read? j ∧ form.rewrite? j' = some j'

lemma Faithful.settles {form : DocumentForm β} {GivenBy : β → Json → Prop} {CanWrite : β → Prop}
    (h : form.Faithful GivenBy CanWrite) {j : Json} (hj : j.IsDocument) : form.Settles j := by
  intro j' hwritten
  obtain ⟨a, hread, rfl⟩ := Option.map_eq_some_iff.1 hwritten
  have ha := h.canWrite j a hj ((h.read?_eq_some_iff j a).1 hread)
  have hagain := h.read?_write a ha
  exact ⟨h.isUnambiguous_write a ha, hagain.trans hread.symm, by rw [rewrite?, hagain, Option.map_some]⟩

end DocumentForm

namespace ScaleDescriptor

/-- An optional text may be left out or be `null`. -/
inductive TextGivenBy : Option String → Option Json → Prop
  | missing : TextGivenBy none none
  | null : TextGivenBy none (some .null)
  | string (s : String) : TextGivenBy (some s) (some (.string s))

inductive WeightGivenBy : Option Float → Option Json → Prop
  | missing : WeightGivenBy none none
  | null : WeightGivenBy none (some .null)
  | number (n : JsonNumber) : WeightGivenBy (some n.toFloat) (some (.number n))

/-- A field is the member of its name, or the entry at its place. -/
def field? (name : String) (place : Nat) : Json → Option Json
  | .object members => members.lookup name
  | .array items => items[place]?
  | _ => none

/-- An object gives a descriptor whatever other members it has, an array only if it has no more
entries than there are fields. -/
structure GivenBy (d : ScaleDescriptor Float) (j : Json) : Prop where
  length_le : ∀ items, j = .array items → items.length ≤ 5
  pathKey_eq : field? "pathKey" 0 j = some (.string d.pathKey)
  weight_givenBy : WeightGivenBy d.weight (field? "unitWeight" 1 j)
  start_givenBy : TextGivenBy d.startText (field? "start" 2 j)
  end_givenBy : TextGivenBy d.endText (field? "end" 3 j)
  label_givenBy : TextGivenBy d.label (field? "label" 4 j)

/-- A weight can be written unless it is infinite or no number. -/
def HasFiniteWeight (d : ScaleDescriptor Float) : Prop := ∀ w ∈ d.weight, w.isFinite = true

def form : DocumentForm (ScaleDescriptor Float) := ⟨ofJson?, toJson⟩

lemma textField?_eq_some_iff {field : Option Json} {text : Option String} :
    textField? field = some text ↔ TextGivenBy text field := by
  constructor
  · intro h
    unfold textField? at h
    split at h <;> cases h
    · exact .missing
    · exact .null
    · exact .string _
  · rintro (_ | _ | s) <;> rfl

lemma weightField?_eq_some_iff {field : Option Json} {weight : Option Float} :
    weightField? field = some weight ↔ WeightGivenBy weight field := by
  constructor
  · intro h
    unfold weightField? at h
    split at h <;> cases h
    · exact .missing
    · exact .null
    · exact .number _
  · rintro (_ | _ | n) <;> rfl

lemma ofFields?_eq_some_iff {pathKey weight start stop label : Option Json}
    {d : ScaleDescriptor Float} :
    ofFields? pathKey weight start stop label = some d ↔
      pathKey = some (.string d.pathKey) ∧ WeightGivenBy d.weight weight ∧
        TextGivenBy d.startText start ∧ TextGivenBy d.endText stop ∧ TextGivenBy d.label label := by
  simp only [← textField?_eq_some_iff, ← weightField?_eq_some_iff]
  unfold ofFields?
  constructor
  · intro h
    split at h
    · simp only [Option.bind_eq_bind, Option.bind_eq_some_iff, Option.some.injEq] at h
      obtain ⟨w, hw, a, ha, b, hb, c, hc, rfl⟩ := h
      exact ⟨rfl, hw, ha, hb, hc⟩
    · cases h
  · rintro ⟨rfl, hweight, hstart, hend, hlabel⟩
    simp [hweight, hstart, hend, hlabel]

theorem ofJson?_eq_some_iff {j : Json} {d : ScaleDescriptor Float} :
    ofJson? j = some d ↔ d.GivenBy j := by
  constructor
  · intro h
    cases j with
    | object members =>
      obtain ⟨hpath, hweight, hstart, hend, hlabel⟩ := ofFields?_eq_some_iff.1 h
      exact ⟨nofun, hpath, hweight, hstart, hend, hlabel⟩
    | array items =>
      simp only [ofJson?] at h
      split_ifs at h with hlength
      obtain ⟨hpath, hweight, hstart, hend, hlabel⟩ := ofFields?_eq_some_iff.1 h
      exact ⟨fun _ heq => by cases heq; omega, hpath, hweight, hstart, hend, hlabel⟩
    | _ => cases h
  · rintro ⟨hlength, hpath, hweight, hstart, hend, hlabel⟩
    have hfields := ofFields?_eq_some_iff.2 ⟨hpath, hweight, hstart, hend, hlabel⟩
    cases j with
    | object members => exact hfields
    | array items =>
      simp only [ofJson?]
      rw [if_neg (Nat.not_lt.2 (hlength items rfl))]
      exact hfields
    | _ => cases hpath

lemma isDocument_of_field? {j value : Json} {name : String} {place : Nat} (hj : j.IsDocument)
    (h : field? name place j = some value) : value.IsDocument := by
  cases hj with
  | object nodup hmembers =>
    obtain ⟨before, after, rfl, -⟩ := List.lookup_eq_some_iff.1 h
    exact hmembers (name, value) (by simp)
  | array hitems => exact hitems value (List.mem_of_getElem? h)
  | _ => cases h

/-- The weight of a descriptor is finite like all numbers of a document. -/
lemma GivenBy.hasFiniteWeight {j : Json} {d : ScaleDescriptor Float} (h : d.GivenBy j)
    (hj : j.IsDocument) : d.HasFiniteWeight := by
  intro w hw
  have hweight := h.weight_givenBy
  rw [hw] at hweight
  generalize hfield : field? "unitWeight" 1 j = field at hweight
  cases hweight with
  | number n =>
    cases isDocument_of_field? hj hfield with
    | number hn => exact hn.isFinite

/-! The written object. -/

lemma textGivenBy_map_string (text : Option String) : TextGivenBy text (text.map Json.string) := by
  cases text with
  | none => exact .missing
  | some s => exact .string s

lemma weightGivenBy_map_ofFloat {weight : Option Float} (h : ∀ w ∈ weight, w.isFinite = true) :
    WeightGivenBy weight (weight.map Json.ofFloat) := by
  cases weight with
  | none => exact .missing
  | some w =>
    rw [Option.map_some, Json.ofFloat, if_pos (h w rfl)]
    exact .number (.float w)

lemma lookup_member (key name : String) (value : Option Json) :
    (member key value).lookup name = if name == key then value else none := by
  cases value with
  | none => simp [member]
  | some v => cases h : name == key <;> simp [member, List.lookup_cons, h]

theorem givenBy_toJson {d : ScaleDescriptor Float} (h : d.HasFiniteWeight) :
    d.GivenBy d.toJson := by
  have hweight : field? "unitWeight" 1 d.toJson = d.weight.map Json.ofFloat := by
    simp [field?, toJson, List.lookup_append, List.lookup_cons, lookup_member]
  have hstart : field? "start" 2 d.toJson = d.startText.map Json.string := by
    simp [field?, toJson, List.lookup_append, List.lookup_cons, lookup_member]
  have hend : field? "end" 3 d.toJson = d.endText.map Json.string := by
    simp [field?, toJson, List.lookup_append, List.lookup_cons, lookup_member]
  have hlabel : field? "label" 4 d.toJson = d.label.map Json.string := by
    simp [field?, toJson, List.lookup_append, List.lookup_cons, lookup_member]
  exact ⟨nofun, rfl, hweight ▸ weightGivenBy_map_ofFloat h, hstart ▸ textGivenBy_map_string _,
    hend ▸ textGivenBy_map_string _, hlabel ▸ textGivenBy_map_string _⟩

lemma keys_member_sublist (key : String) (value : Option Json) :
    ((member key value).map Prod.fst).Sublist [key] := by
  cases value <;> simp [member]

lemma isUnambiguous_of_mem_member {key : String} {value : Option Json} {m : String × Json}
    (hvalue : ∀ j ∈ value, j.IsUnambiguous) (h : m ∈ member key value) : m.2.IsUnambiguous := by
  cases value with
  | none => cases h
  | some v => exact List.mem_singleton.1 h ▸ hvalue v rfl

lemma isUnambiguous_of_mem_map_string {text : Option String} {j : Json}
    (h : j ∈ text.map Json.string) : j.IsUnambiguous := by
  obtain ⟨s, -, rfl⟩ := Option.map_eq_some_iff.1 h
  exact .string s

theorem isUnambiguous_toJson {d : ScaleDescriptor Float} (h : d.HasFiniteWeight) :
    d.toJson.IsUnambiguous := by
  refine .object ?nodup fun m hm => ?members
  case nodup =>
    have hfields : ["pathKey", "unitWeight", "start", "end", "label"].Nodup := by decide
    refine hfields.sublist ?_
    simp only [List.map_append, List.map_cons]
    exact ((((keys_member_sublist _ _).cons_cons "pathKey").append (keys_member_sublist _ _)).append
      (keys_member_sublist _ _)).append (keys_member_sublist _ _)
  case members =>
    simp only [List.mem_append, List.mem_cons] at hm
    rcases hm with (((rfl | hm) | hm) | hm) | hm
    · exact .string _
    · refine isUnambiguous_of_mem_member (fun j hj => ?_) hm
      obtain ⟨w, hw, rfl⟩ := Option.map_eq_some_iff.1 hj
      rw [Json.ofFloat, if_pos (h w hw)]
      exact .number (h w hw)
    all_goals exact isUnambiguous_of_mem_member (fun _ => isUnambiguous_of_mem_map_string) hm

theorem faithful_form : form.Faithful GivenBy HasFiniteWeight where
  read?_eq_some_iff _ _ := ofJson?_eq_some_iff
  read?_write _ hd := ofJson?_eq_some_iff.2 (givenBy_toJson hd)
  isUnambiguous_write _ := isUnambiguous_toJson
  canWrite _ _ hj h := h.hasFiniteWeight hj

end ScaleDescriptor

namespace DisplayEntry

mutual

/-- A bare text is given by a string, a group by an object. -/
inductive GivenBy : DisplayEntry → Json → Prop
  | text (s : String) : GivenBy (text s) (.string s)
  | group {s : Option String} {entries : List (Option DisplayEntry)}
      {members : List (String × Json)}
      (text_givenBy : ScaleDescriptor.TextGivenBy s (members.lookup "text"))
      (entries_givenBy : EntriesGivenBy entries (members.lookup "subGroup")) :
      GivenBy (group s entries) (.object members)

/-- The entries of a group may be missing, but not `null`. -/
inductive EntriesGivenBy : List (Option DisplayEntry) → Option Json → Prop
  | missing : EntriesGivenBy [] none
  | array {entries : List (Option DisplayEntry)} {items : List Json}
      (level : LevelGivenBy entries items) : EntriesGivenBy entries (some (.array items))

/-- Where an entry is left out, `null` stands for it. -/
inductive LevelGivenBy : List (Option DisplayEntry) → List Json → Prop
  | nil : LevelGivenBy [] []
  | left {entries : List (Option DisplayEntry)} {items : List Json}
      (level : LevelGivenBy entries items) : LevelGivenBy (none :: entries) (.null :: items)
  | cons {entry : DisplayEntry} {item : Json} {entries : List (Option DisplayEntry)}
      {items : List Json} (entry_givenBy : GivenBy entry item)
      (level : LevelGivenBy entries items) : LevelGivenBy (some entry :: entries) (item :: items)

end

inductive OptionGivenBy : Option DisplayEntry → Json → Prop
  | null : OptionGivenBy none .null
  | some {entry : DisplayEntry} {j : Json} (h : GivenBy entry j) : OptionGivenBy (some entry) j

def form : DocumentForm (Option DisplayEntry) := ⟨optionOfJson?, optionToJson⟩

lemma GivenBy.ne_null {entry : DisplayEntry} {j : Json} (h : GivenBy entry j) : j ≠ .null := by
  cases h <;> exact nofun

/-- The first member of the name counts. -/
lemma subGroup?_cons (key : String) (value : Json) (members : List (String × Json)) :
    subGroup? ((key, value) :: members) =
      if key = "subGroup" then
        match value with
        | .array items => ofItems? items
        | _ => none
      else subGroup? members := by
  cases value <;> simp [subGroup?]

/-- What is not `null` is read as an entry. -/
lemma ofItems?_cons {item : Json} (h : item ≠ .null) (items : List Json) :
    ofItems? (item :: items) =
      (ofJson? item).bind fun entry => (ofItems? items).map (some entry :: ·) := by
  cases item <;> first | contradiction | simp [ofItems?, Option.map_eq_bind]

mutual

theorem ofJson?_eq_some_iff (j : Json) (entry : DisplayEntry) :
    ofJson? j = some entry ↔ GivenBy entry j := by
  cases j with
  | string s =>
    constructor
    · intro h
      simp only [ofJson?, Option.some.injEq] at h
      exact h ▸ .text s
    · rintro ⟨⟩
      simp [ofJson?]
  | object members =>
    simp only [ofJson?, Option.bind_eq_bind, Option.bind_eq_some_iff, Option.some.injEq]
    constructor
    · rintro ⟨s, hs, entries, hentries, rfl⟩
      exact .group (ScaleDescriptor.textField?_eq_some_iff.1 hs)
        ((subGroup?_eq_some_iff members entries).1 hentries)
    · rintro (_ | ⟨htext, hentries⟩)
      exact ⟨_, ScaleDescriptor.textField?_eq_some_iff.2 htext, _,
        (subGroup?_eq_some_iff members _).2 hentries, rfl⟩
  | null | bool | number | array =>
    simp only [ofJson?, reduceCtorEq, false_iff]
    exact nofun

theorem subGroup?_eq_some_iff (members : List (String × Json))
    (entries : List (Option DisplayEntry)) :
    subGroup? members = some entries ↔ EntriesGivenBy entries (members.lookup "subGroup") := by
  match members with
  | [] =>
    constructor
    · intro h
      simp only [subGroup?, Option.some.injEq] at h
      exact h ▸ .missing
    · rintro ⟨⟩
      simp [subGroup?]
  | (key, value) :: members =>
    rw [subGroup?_cons, List.lookup_cons]
    by_cases hkey : key = "subGroup"
    · rw [if_pos hkey, hkey, beq_self_eq_true]
      cases value with
      | array items =>
        constructor
        · exact fun h => .array ((ofItems?_eq_some_iff items entries).1 h)
        · rintro (_ | ⟨hlevel⟩)
          exact (ofItems?_eq_some_iff items entries).2 hlevel
      | _ => exact ⟨nofun, nofun⟩
    · rw [if_neg hkey, beq_false_of_ne (Ne.symm hkey)]
      exact subGroup?_eq_some_iff members entries

theorem ofItems?_eq_some_iff (items : List Json) (entries : List (Option DisplayEntry)) :
    ofItems? items = some entries ↔ LevelGivenBy entries items := by
  match items with
  | [] =>
    constructor
    · intro h
      simp only [ofItems?, Option.some.injEq] at h
      exact h ▸ .nil
    · rintro ⟨⟩
      simp [ofItems?]
  | item :: items =>
    by_cases hnull : item = .null
    · rw [hnull]
      simp only [ofItems?, Option.map_eq_some_iff]
      constructor
      · rintro ⟨later, hlater, rfl⟩
        exact .left ((ofItems?_eq_some_iff items later).1 hlater)
      · rintro (_ | hlevel | ⟨hentry, -⟩)
        · exact ⟨_, (ofItems?_eq_some_iff items _).2 hlevel, rfl⟩
        · exact absurd rfl hentry.ne_null
    · simp only [ofItems?_cons hnull, Option.bind_eq_some_iff, Option.map_eq_some_iff]
      constructor
      · rintro ⟨entry, hentry, later, hlater, rfl⟩
        exact .cons ((ofJson?_eq_some_iff item entry).1 hentry)
          ((ofItems?_eq_some_iff items later).1 hlater)
      · rintro (_ | _ | ⟨hentry, hlevel⟩)
        · exact absurd rfl hnull
        · exact ⟨_, (ofJson?_eq_some_iff item _).2 hentry, _,
            (ofItems?_eq_some_iff items _).2 hlevel, rfl⟩

end

theorem optionOfJson?_eq_some_iff {j : Json} {entry : Option DisplayEntry} :
    optionOfJson? j = some entry ↔ OptionGivenBy entry j := by
  by_cases hnull : j = .null
  · rw [hnull]
    constructor
    · rintro ⟨⟩
      exact .null
    · rintro (_ | h)
      · rfl
      · exact absurd rfl h.ne_null
  · have hread : optionOfJson? j = (ofJson? j).map some := by
      cases j <;> first | contradiction | rfl
    rw [hread, Option.map_eq_some_iff]
    constructor
    · rintro ⟨entry, hentry, rfl⟩
      exact .some ((ofJson?_eq_some_iff j entry).1 hentry)
    · rintro (_ | h)
      · exact absurd rfl hnull
      · exact ⟨_, (ofJson?_eq_some_iff j _).2 h, rfl⟩

/-! The written object. -/

lemma givenBy_object (s : Option String) {entries : List (Option DisplayEntry)}
    {members : List (String × Json)} (htext : members.lookup "text" = none)
    (hentries : EntriesGivenBy entries (members.lookup "subGroup")) :
    GivenBy (group s entries)
      (.object (ScaleDescriptor.member "text" (s.map Json.string) ++ members)) := by
  refine .group ?_ ?_ <;> rw [List.lookup_append, ScaleDescriptor.lookup_member]
  · rw [htext]
    simpa using ScaleDescriptor.textGivenBy_map_string s
  · simpa using hentries

mutual

theorem givenBy_toJson : ∀ entry : DisplayEntry, GivenBy entry (toJson entry)
  | .text s => .text s
  | .group s [] => givenBy_object s rfl .missing
  | .group s (entry :: entries) =>
    givenBy_object s rfl (.array (levelGivenBy_toItems (entry :: entries)))

theorem levelGivenBy_toItems :
    ∀ entries : List (Option DisplayEntry), LevelGivenBy entries (toItems entries)
  | [] => .nil
  | none :: entries => .left (levelGivenBy_toItems entries)
  | some entry :: entries => .cons (givenBy_toJson entry) (levelGivenBy_toItems entries)

end

lemma isUnambiguous_object {s : Option String} {members : List (String × Json)}
    (hkeys : (members.map Prod.fst).Sublist ["subGroup"])
    (hmembers : ∀ m ∈ members, m.2.IsUnambiguous) :
    (Json.object
      (ScaleDescriptor.member "text" (s.map Json.string) ++ members)).IsUnambiguous := by
  have hfields : ["text", "subGroup"].Nodup := by decide
  refine .object (hfields.sublist ?_) fun m hm => ?_
  · rw [List.map_append]
    exact (ScaleDescriptor.keys_member_sublist _ _).append hkeys
  · rcases List.mem_append.1 hm with hm | hm
    · exact ScaleDescriptor.isUnambiguous_of_mem_member
        (fun _ => ScaleDescriptor.isUnambiguous_of_mem_map_string) hm
    · exact hmembers m hm

mutual

theorem isUnambiguous_toJson : ∀ entry : DisplayEntry, (toJson entry).IsUnambiguous
  | .text s => .string s
  | .group _ [] => isUnambiguous_object (List.nil_sublist _) nofun
  | .group _ (entry :: entries) =>
    isUnambiguous_object (List.Sublist.refl _) fun _ hm =>
      List.mem_singleton.1 hm ▸ .array (isUnambiguous_toItems (entry :: entries))

theorem isUnambiguous_toItems : ∀ entries : List (Option DisplayEntry),
    ∀ j ∈ toItems entries, j.IsUnambiguous
  | [] => nofun
  | none :: entries => List.forall_mem_cons.2 ⟨.null, isUnambiguous_toItems entries⟩
  | some entry :: entries =>
    List.forall_mem_cons.2 ⟨isUnambiguous_toJson entry, isUnambiguous_toItems entries⟩

end

theorem faithful_form : form.Faithful OptionGivenBy fun _ => True where
  read?_eq_some_iff _ _ := optionOfJson?_eq_some_iff
  read?_write
    | none, _ => rfl
    | some entry, _ => optionOfJson?_eq_some_iff.2 (.some (givenBy_toJson entry))
  isUnambiguous_write
    | none, _ => .null
    | some entry, _ => isUnambiguous_toJson entry
  canWrite _ _ _ _ := trivial

end DisplayEntry

namespace DocumentForm

/-- Documents give the entries of an overlay and descriptors by their rules. Every entry and every
descriptor with a finite weight is written as a document that reads back as the same. Whatever
document is read, what is written of it is read as the same again, and stays as it is when it is
written again. -/
theorem written_reread :
    DisplayEntry.form.Faithful DisplayEntry.OptionGivenBy (fun _ => True) ∧
      ScaleDescriptor.form.Faithful ScaleDescriptor.GivenBy ScaleDescriptor.HasFiniteWeight ∧
      ∀ j : Json, j.IsDocument → DisplayEntry.form.Settles j ∧ ScaleDescriptor.form.Settles j :=
  ⟨DisplayEntry.faithful_form, ScaleDescriptor.faithful_form,
    fun _ hj => ⟨DisplayEntry.faithful_form.settles hj, ScaleDescriptor.faithful_form.settles hj⟩⟩

/-- A group without a text, with members that are passed over and an entry that is left out. -/
def halfYear : Json :=
  .object [("note", .number (.integer 1)), ("text", .null), ("note", .null),
    ("subGroup", .array [.string "Q1", .null])]

/-- An array of the fields but for the last one, with an integer for the weight. -/
def firstQuarter : Json :=
  .array [.string "2024-Q1", .number (.integer 2), .null, .string "2024-04-01"]

lemma isDocument_halfYear : halfYear.IsDocument := by
  have hentries : (Json.array [.string "Q1", .null]).IsDocument := by
    refine .array ?_
    simp only [List.forall_mem_cons]
    exact ⟨.string _, .null, nofun⟩
  refine .object trivial ?_
  simp only [List.forall_mem_cons]
  exact ⟨.number ⟨by decide, by decide⟩, .null, .null, hentries, nofun⟩

lemma isDocument_firstQuarter : firstQuarter.IsDocument := by
  refine .array ?_
  simp only [List.forall_mem_cons]
  exact ⟨.string _, .number ⟨by decide, by decide⟩, .null, .string _, nofun⟩

def rewrittenHalfYear : Json := .object [("subGroup", .array [.string "Q1", .null])]

def rewrittenFirstQuarter : Json :=
  .object [("pathKey", .string "2024-Q1"),
    ("unitWeight", .number (.float (Number.Binary64.ofInt 2))), ("end", .string "2024-04-01")]

theorem written_reread_quarters :
    halfYear.IsDocument ∧ firstQuarter.IsDocument ∧
      DisplayEntry.form.rewrite? halfYear = some rewrittenHalfYear ∧
      DisplayEntry.form.rewrite? rewrittenHalfYear = some rewrittenHalfYear ∧
      ScaleDescriptor.form.rewrite? firstQuarter = some rewrittenFirstQuarter ∧
      ScaleDescriptor.form.rewrite? rewrittenFirstQuarter = some rewrittenFirstQuarter := by
  have hhalf : DisplayEntry.form.rewrite? halfYear = some rewrittenHalfYear := rfl
  have hquarter : ScaleDescriptor.form.rewrite? firstQuarter = some rewrittenFirstQuarter := rfl
  obtain ⟨-, -, hsettles⟩ := written_reread
  exact ⟨isDocument_halfYear, isDocument_firstQuarter,
    hhalf, ((hsettles _ isDocument_halfYear).1 _ hhalf).2.2,
    hquarter, ((hsettles _ isDocument_firstQuarter).2 _ hquarter).2.2⟩

end DocumentForm

end Timeline
