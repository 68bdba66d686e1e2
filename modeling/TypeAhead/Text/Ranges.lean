/-
  TypeAhead.Text.Ranges — CHARACTER CLASSES GIVEN BY RANGES.

  A class of characters is a list of inclusive ranges of code points, in
  increasing order and without overlap.
-/
namespace TypeAhead.Text

/-- A class of characters as inclusive ranges of code points. -/
abbrev Ranges := List (Nat × Nat)

/-- Membership in a class. -/
def Ranges.contains (table : Ranges) (c : Char) : Bool :=
  table.any fun (low, high) => low ≤ c.toNat && c.toNat ≤ high

end TypeAhead.Text
