/-! # Runs of digits

The ASCII digits at the front of a text, and the natural that they write. -/
namespace Timeline.Text

/-- The digits at the front and what follows them. -/
def digits (cs : List Char) : List Char × List Char :=
  (cs.takeWhile Char.isDigit, cs.dropWhile Char.isDigit)

theorem digits_append {cs ds rest : List Char} (h : digits cs = (ds, rest)) : cs = ds ++ rest := by
  obtain ⟨rfl, rfl⟩ := Prod.mk.inj h
  exact List.takeWhile_append_dropWhile.symm

def digitValue (c : Char) : Nat := c.toNat - '0'.toNat

/-- The natural written by a run of digits. -/
def ofDigits (ds : List Char) : Nat := ds.foldl (fun n c => 10 * n + digitValue c) 0

end Timeline.Text
