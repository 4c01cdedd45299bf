import Mathlib.Algebra.Group.Nat.Defs
import Mathlib.Data.List.Forall2
import Mathlib.Data.List.TakeWhile
import PriorityDonation.Text.Decimal
import PriorityDonation.Text.Words

/-!
# The form of words and numerals

What splitting and reading compute is told here by the form of the text alone. A text has words if
it is made of gaps and words in turn, where every word is followed by a blank or by the end. Two
texts joined by a gap have the words of the one and then those of the other. Two spellings of a word
may differ in the case of ASCII letters and in nothing else. A signed numeral is a sign, if any, and
digits, each of which counts by its place.
-/

namespace PriorityDonation.Text

variable {cs ds gap w rest : List Char} {ws vs : List (List Char)} {a b c : Char} {n : Int}

def IsGap (gap : List Char) : Prop := ∀ c ∈ gap, isBlank c = true

def IsWord (w : List Char) : Prop := w ≠ [] ∧ ∀ c ∈ w, isBlank c = false

theorem IsWord.cons (hc : isBlank c = false) (hw : IsWord w) : IsWord (c :: w) :=
  ⟨List.cons_ne_nil c w, List.forall_mem_cons.mpr ⟨hc, hw.2⟩⟩

/-- The text is made of gaps and these words, none of which could be longer. -/
inductive Parts : List Char → List (List Char) → Prop
  | gap {gap : List Char} : IsGap gap → Parts gap []
  | word {gap w rest : List Char} {ws : List (List Char)} : IsGap gap → IsWord w →
      (∀ c ∈ rest.head?, isBlank c = true) → Parts rest ws → Parts (gap ++ w ++ rest) (w :: ws)

theorem Parts.blank_cons (hc : isBlank c = true) (h : Parts cs ws) : Parts (c :: cs) ws := by
  have longer {gap : List Char} (hgap : IsGap gap) : IsGap (c :: gap) :=
    List.forall_mem_cons.mpr ⟨hc, hgap⟩
  cases h with
  | gap hgap => exact .gap (longer hgap)
  | word hgap hw hrest h => exact .word (longer hgap) hw hrest h

theorem parts_words (cs : List Char) : Parts cs (words cs) := by
  fun_induction words cs with
  | case1 => exact .gap (by simp [IsGap])
  | case2 c cs hc ih => exact ih.blank_cons hc
  | case3 c cs hc ih =>
    have hword : IsWord (c :: cs.takeWhile (!isBlank ·)) := by
      refine ⟨by simp, List.forall_mem_cons.mpr ⟨by simpa using hc, fun c hc => ?_⟩⟩
      simpa using List.mem_takeWhile_imp hc
    have hrest : ∀ c ∈ (cs.dropWhile (!isBlank ·)).head?, isBlank c = true := by
      intro c hc
      have hstop := List.head?_dropWhile_not (!isBlank ·) cs
      rw [Option.mem_def.mp hc] at hstop
      simpa using hstop
    have hparts := Parts.word (List.forall_mem_nil _ : IsGap []) hword hrest ih
    simpa using hparts

theorem words_gap_append (hgap : IsGap gap) (rest : List Char) :
    words (gap ++ rest) = words rest := by
  induction gap with
  | nil => rfl
  | cons c gap ih =>
    obtain ⟨hc, hgap⟩ := List.forall_mem_cons.mp hgap
    rw [List.cons_append, words_cons_blank hc, ih hgap]

theorem words_word_append (hw : IsWord w) (hrest : ∀ c ∈ rest.head?, isBlank c = true) :
    words (w ++ rest) = w :: words rest := by
  obtain ⟨hne, hw⟩ := hw
  cases w with
  | nil => exact absurd rfl hne
  | cons c cs =>
    obtain ⟨hc, hcs⟩ := List.forall_mem_cons.mp hw
    have hin : ∀ a ∈ cs, (!isBlank a) = true := fun a ha => by simp [hcs a ha]
    have hout : rest.takeWhile (!isBlank ·) = [] ∧ rest.dropWhile (!isBlank ·) = rest := by
      cases rest with
      | nil => exact ⟨rfl, rfl⟩
      | cons b rest => simp [hrest b rfl]
    rw [List.cons_append, words_cons_of_not_blank hc, List.takeWhile_append_of_pos hin,
      List.dropWhile_append_of_pos hin, hout.1, hout.2, List.append_nil]

/-- There is one way to part a text, and splitting finds it. -/
theorem parts_iff : Parts cs ws ↔ words cs = ws := by
  constructor
  · intro h
    induction h with
    | gap hgap => simpa using words_gap_append hgap []
    | word hgap hw hrest _ ih =>
      rw [List.append_assoc, words_gap_append hgap, words_word_append hw hrest, ih]
  · rintro rfl
    exact parts_words cs

theorem Parts.gap_append (hgap : IsGap gap) (h : Parts cs ws) : Parts (gap ++ cs) ws := by
  rw [parts_iff, words_gap_append hgap, parts_iff.mp h]

/-- No word reaches across a gap. -/
theorem Parts.append (hcs : Parts cs ws) (hgap : IsGap gap) (hne : gap ≠ [])
    (hrest : Parts rest vs) : Parts (cs ++ gap ++ rest) (ws ++ vs) := by
  induction hcs with
  | gap hlead =>
    have hparts := (hrest.gap_append hgap).gap_append hlead
    rwa [← List.append_assoc] at hparts
  | @word lead w tail ws hlead hw htail _ ih =>
    -- A word at the very end is now followed by the gap.
    have hfollowed : ∀ c ∈ (tail ++ gap ++ rest).head?, isBlank c = true := by
      cases tail with
      | nil =>
        obtain ⟨b, gap, rfl⟩ := List.exists_cons_of_ne_nil hne
        rintro c ⟨⟩
        exact hgap b List.mem_cons_self
      | cons b tail =>
        rintro c ⟨⟩
        exact htail b rfl
    have hparts := Parts.word hlead hw hfollowed ih
    rwa [← List.append_assoc, ← List.append_assoc] at hparts

/-- Words can be written one after the other. -/
theorem exists_parts (h : ∀ w ∈ ws, IsWord w) : ∃ line : String, Parts line.toList ws := by
  refine ⟨.ofList (ws.flatMap (' ' :: ·)), ?_⟩
  rw [String.toList_ofList]
  induction ws with
  | nil => exact .gap (List.forall_mem_nil _)
  | cons w ws ih =>
    obtain ⟨hw, hws⟩ := List.forall_mem_cons.mp h
    have hgap : IsGap [' '] := List.forall_mem_singleton.mpr (by decide)
    have hrest : ∀ c ∈ (ws.flatMap (' ' :: ·)).head?, isBlank c = true := by
      cases ws with
      | nil => simp
      | cons w' ws =>
        rintro c ⟨⟩
        decide
    exact .word hgap hw hrest (ih hws)

/-- A capital ASCII letter. -/
def IsCapital (c : Char) : Prop := 'A' ≤ c ∧ c ≤ 'Z'

/-- One and the same character, or a capital and its small letter, which stands 32 code points
behind it. -/
inductive SameLetter : Char → Char → Prop
  | refl (c : Char) : SameLetter c c
  | small {a b : Char} : IsCapital a → b.toNat = a.toNat + 32 → SameLetter a b
  | capital {a b : Char} : IsCapital b → a.toNat = b.toNat + 32 → SameLetter a b

/-- The texts differ in the case of ASCII letters at most. -/
def SameLetters : List Char → List Char → Prop := List.Forall₂ SameLetter

theorem isCapital_iff : IsCapital c ↔ 65 ≤ c.toNat ∧ c.toNat ≤ 90 := Iff.rfl

theorem toNat_toLower (c : Char) :
    c.toLower.toNat = if 65 ≤ c.toNat ∧ c.toNat ≤ 90 then c.toNat + 32 else c.toNat := by
  unfold Char.toLower
  split
  · rename_i h
    have hcapital := isCapital_iff.mp h
    have hshift : ('a'.val - 'A'.val).toNat = 32 := rfl
    rw [if_pos hcapital, Char.toNat_mk, UInt32.toNat_add, Char.toNat_val, hshift]
    exact Nat.mod_eq_of_lt (by omega)
  · rename_i h
    rw [if_neg (mt isCapital_iff.mpr h)]

theorem sameLetter_iff : SameLetter a b ↔ a.toLower = b.toLower := by
  rw [← Char.toNat_inj, toNat_toLower, toNat_toLower]
  constructor
  · rintro (_ | ⟨hcapital, h⟩ | ⟨hcapital, h⟩)
    · rfl
    · rw [isCapital_iff] at hcapital
      rw [if_pos hcapital, if_neg (by omega), h]
    · rw [isCapital_iff] at hcapital
      rw [if_neg (by omega), if_pos hcapital, h]
  · intro h
    by_cases ha : IsCapital a <;> by_cases hb : IsCapital b
    all_goals rw [isCapital_iff] at ha hb
    · rw [if_pos ha, if_pos hb] at h
      rw [Char.toNat_inj.mp (Nat.add_right_cancel h)]
      exact .refl b
    · rw [if_pos ha, if_neg hb] at h
      exact .small (isCapital_iff.mpr ha) h.symm
    · rw [if_neg ha, if_pos hb] at h
      exact .capital (isCapital_iff.mpr hb) h
    · rw [if_neg ha, if_neg hb] at h
      rw [Char.toNat_inj.mp h]
      exact .refl b

theorem sameLetters_iff : SameLetters cs ds ↔ cs.map Char.toLower = ds.map Char.toLower := by
  have hsame : SameLetter = fun a b => a.toLower = b.toLower := by
    ext a b
    exact sameLetter_iff
  rw [SameLetters, hsame, ← List.forall₂_eq_eq_eq, List.forall₂_map_left_iff,
    List.forall₂_map_right_iff]

/-- Each digit counts by its place, the last one as it is. -/
def placeValue : List Char → Nat
  | [] => 0
  | c :: cs => (c.toNat - '0'.toNat) * 10 ^ cs.length + placeValue cs

def IsDigits (digits : List Char) : Prop := digits ≠ [] ∧ ∀ c ∈ digits, c.isDigit = true

/-- The text is a signed decimal numeral of this value. -/
inductive Numeral : List Char → Int → Prop
  | plain {digits : List Char} : IsDigits digits → Numeral digits (placeValue digits)
  | plus {digits : List Char} : IsDigits digits → Numeral ('+' :: digits) (placeValue digits)
  | minus {digits : List Char} : IsDigits digits → Numeral ('-' :: digits) (-placeValue digits)

theorem placeValue_eq (cs : List Char) : placeValue cs = Nat.ofDigitChars 10 cs 0 := by
  induction cs with
  | nil => rfl
  | cons c cs ih =>
    rw [placeValue, Nat.ofDigitChars_cons, Nat.ofDigitChars_eq_ofDigitChars_zero, ih]
    simp [Nat.mul_comm]

theorem natural?_of_isDigits (h : IsDigits cs) : natural? cs = some (placeValue cs) := by
  obtain ⟨hne, hdigits⟩ := h
  rw [natural?, if_neg, placeValue_eq]
  simpa [hne] using hdigits

theorem natural?_eq_some {n : Nat} (h : natural? cs = some n) :
    IsDigits cs ∧ placeValue cs = n := by
  unfold natural? at h
  split at h
  · cases h
  · rename_i hcs
    have hdigits : IsDigits cs := by simpa [IsDigits] using hcs
    rw [placeValue_eq]
    exact ⟨hdigits, Option.some.inj h⟩

theorem numeral_iff : Numeral cs n ↔ integer? cs = some n := by
  constructor
  · rintro (hd | hd | hd)
    · have hsign : ∀ c ∈ cs.head?, c ≠ '+' ∧ c ≠ '-' := by
        rintro c hc
        have hdigit := hd.2 c (List.mem_of_mem_head? hc)
        constructor <;> rintro rfl <;> simp [Char.isDigit] at hdigit
      unfold integer?
      split
      · exact absurd rfl (hsign '+' rfl).1
      · exact absurd rfl (hsign '-' rfl).2
      · rw [natural?_of_isDigits hd]
        rfl
    · simp [integer?, natural?_of_isDigits hd]
    · simp [integer?, natural?_of_isDigits hd]
  · intro h
    unfold integer? at h
    split at h
    all_goals
      obtain ⟨k, hk, rfl⟩ := Option.map_eq_some_iff.mp h
      obtain ⟨hd, rfl⟩ := natural?_eq_some hk
    · exact .plus hd
    · exact .minus hd
    · exact .plain hd

theorem isBlank_of_isDigit (h : c.isDigit = true) : isBlank c = false := by
  have hzero : '0'.toNat = 48 := rfl
  have hnine : '9'.toNat = 57 := rfl
  rw [Char.isDigit_iff_toNat, hzero, hnine] at h
  simp only [isBlank, blankRanges, List.any_cons, List.any_nil, Bool.or_eq_false_iff,
    Bool.and_eq_false_iff, decide_eq_false_iff_not, and_true]
  omega

theorem IsDigits.isWord (h : IsDigits cs) : IsWord cs :=
  ⟨h.1, fun c hc => isBlank_of_isDigit (h.2 c hc)⟩

theorem Numeral.isWord (h : Numeral cs n) : IsWord cs := by
  cases h with
  | plain hd => exact hd.isWord
  | plus hd => exact hd.isWord.cons (by decide)
  | minus hd => exact hd.isWord.cons (by decide)

theorem isDigits_repr (n : Nat) : IsDigits n.repr.toList ∧ placeValue n.repr.toList = n := by
  rw [Nat.repr_eq_ofList_toDigits, String.toList_ofList, placeValue_eq]
  refine ⟨⟨Nat.toDigits_ne_nil, fun c hc => ?_⟩, Nat.ofDigitChars_ten_toDigits⟩
  exact Nat.isDigit_of_mem_toDigits (by omega) (by omega) hc

/-- A number is written as a numeral of its value. -/
theorem numeral_toString (n : Int) : Numeral (toString n).toList n := by
  cases n with
  | ofNat k =>
    obtain ⟨hdigits, hvalue⟩ := isDigits_repr k
    have h := Numeral.plain hdigits
    rwa [hvalue] at h
  | negSucc k =>
    obtain ⟨hdigits, hvalue⟩ := isDigits_repr (k + 1)
    have htext : (toString (Int.negSucc k)).toList = '-' :: (k + 1).repr.toList := by
      change ("-" ++ (k + 1).repr).toList = _
      rw [String.toList_append]
      rfl
    have h := Numeral.minus hdigits
    rw [hvalue] at h
    rwa [htext]

end PriorityDonation.Text
