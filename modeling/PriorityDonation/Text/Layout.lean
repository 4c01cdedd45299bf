/-!
# Columns and byte limits

Columns are padded with spaces and count characters. A byte limit counts the bytes of the UTF-8
form and never parts a character.
-/

namespace PriorityDonation.Text

/-- The text at the right end of a column of at least `width` characters. -/
def alignRight (width : Nat) (s : String) : String :=
  String.ofList (s.toList.leftpad width ' ')

/-- The text at the left end of a column of at least `width` characters. -/
def alignLeft (width : Nat) (s : String) : String :=
  String.ofList (s.toList.rightpad width ' ')

/-- The longest initial part of the text that fits into `room` bytes. -/
def fitting (room : Nat) : List Char → List Char
  | [] => []
  | c :: cs => if c.utf8Size ≤ room then c :: fitting (room - c.utf8Size) cs else []

theorem fitting_prefix (room : Nat) (cs : List Char) : fitting room cs <+: cs := by
  fun_induction fitting room cs with
  | case1 => exact List.prefix_refl _
  | case2 room c cs _ ih => exact (List.prefix_cons_inj c).mpr ih
  | case3 => exact List.nil_prefix

end PriorityDonation.Text
