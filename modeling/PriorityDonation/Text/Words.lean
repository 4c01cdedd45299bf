/-!
# Words of a line

A line of text is read as its words: the maximal runs of characters that are not blank. Blank
means the Unicode property White_Space, so a no-break space or an ideographic space parts two
words as a plain space does.
-/

namespace PriorityDonation.Text

/-- The code points with the property White_Space, as closed ranges. -/
def blankRanges : List (Nat × Nat) :=
  [(0x09, 0x0D), (0x20, 0x20), (0x85, 0x85), (0xA0, 0xA0), (0x1680, 0x1680), (0x2000, 0x200A),
    (0x2028, 0x2029), (0x202F, 0x202F), (0x205F, 0x205F), (0x3000, 0x3000)]

def isBlank (c : Char) : Bool :=
  blankRanges.any fun range => range.1 ≤ c.toNat && c.toNat ≤ range.2

/-- The maximal runs of non-blank characters, in order. -/
def words : List Char → List (List Char)
  | [] => []
  | c :: cs =>
      if isBlank c then words cs
      else (c :: cs.takeWhile (!isBlank ·)) :: words (cs.dropWhile (!isBlank ·))
termination_by cs => cs.length
decreasing_by
  · simp
  · have := (cs.dropWhile_suffix (!isBlank ·)).length_le
    simp only [List.length_cons]
    omega

@[simp] theorem words_nil : words [] = [] := by rw [words]

theorem words_cons_blank {c : Char} (h : isBlank c = true) (cs : List Char) :
    words (c :: cs) = words cs := by
  rw [words, if_pos h]

theorem words_cons_of_not_blank {c : Char} (h : isBlank c = false) (cs : List Char) :
    words (c :: cs) =
      (c :: cs.takeWhile (!isBlank ·)) :: words (cs.dropWhile (!isBlank ·)) := by
  rw [words, if_neg (by simp [h])]

example : words "a  bc\u3000d ".toList = [['a'], ['b', 'c'], ['d']] := by cbv

end PriorityDonation.Text
