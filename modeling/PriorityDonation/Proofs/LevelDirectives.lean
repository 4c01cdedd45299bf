import Mathlib.Data.List.TakeDrop
import PriorityDonation.Log.Directive
import PriorityDonation.Proofs.Lexis

/-!
# What a command line says about the log level

A directive is a word with a key in front of its first equals sign and, behind it, a text that as a
whole denotes a level. The first directive decides, and a word that only resembles one says nothing.
No word reaches across a gap, so of two lines with a gap between them the second one is heard only
if there is no directive on the first.
-/

namespace PriorityDonation.Level

open Text

variable {word key value : List Char} {words : List (List Char)} {level : Level}
  {r : Option Level}

/-- The text is the name of the level, in whatever case. The level `warn` has a second name. -/
inductive Denotes : List Char → Level → Prop
  | name {text : List Char} {level : Level} : SameLetters text level.name.toList →
      Denotes text level
  | warning {text : List Char} : SameLetters text "warning".toList → Denotes text warn

def IsKey (text : List Char) : Prop :=
  SameLetters text "log".toList ∨ SameLetters text "loglevel".toList

/-- The word sets the level. What follows its first equals sign is taken as a whole, further equals
signs included. -/
inductive Directs : List Char → Level → Prop
  | intro {key value : List Char} {level : Level} : '=' ∉ key → IsKey key → Denotes value level →
      Directs (key ++ '=' :: value) level

/-- What words say about the level. -/
inductive Decides : List (List Char) → Option Level → Prop
  | first {before after : List (List Char)} {word : List Char} {level : Level} :
      (∀ w ∈ before, ∀ other, ¬ Directs w other) → Directs word level →
      Decides (before ++ word :: after) (some level)
  | silent {words : List (List Char)} : (∀ w ∈ words, ∀ other, ¬ Directs w other) →
      Decides words none

theorem ofWord?_congr {text other : List Char} (h : SameLetters text other) :
    ofWord? text = ofWord? other := by
  rw [ofWord?, ofWord?, sameLetters_iff.mp h]

theorem mem_spellings {text : List Char} (h : (text, level) ∈ spellings) :
    text = level.name.toList.map Char.toLower ∨ text = "warning".toList ∧ level = warn := by
  have hall : ∀ s ∈ spellings,
      s.1 = s.2.name.toList.map Char.toLower ∨ s.1 = "warning".toList ∧ s.2 = warn := by decide
  exact hall _ h

theorem denotes_iff {text : List Char} : Denotes text level ↔ ofWord? text = some level := by
  constructor
  · rintro (h | h)
    · rw [ofWord?_congr h, ofWord?_name]
    · rw [ofWord?_congr h]
      rfl
  · intro h
    obtain ⟨_, _, hspellings, -⟩ := List.lookup_eq_some_iff.mp h
    have hmem : (text.map Char.toLower, level) ∈ spellings := by
      rw [hspellings]
      exact List.mem_append_right _ List.mem_cons_self
    rcases mem_spellings hmem with hname | ⟨hwarning, rfl⟩
    · exact .name (sameLetters_iff.mpr hname)
    · exact .warning (sameLetters_iff.mpr hwarning)

theorem isKey_iff : IsKey key ↔
    key.map Char.toLower = "log".toList ∨ key.map Char.toLower = "loglevel".toList := by
  rw [IsKey, sameLetters_iff, sameLetters_iff]
  rfl

/-- A word is parted at its first equals sign. -/
theorem span_iff : word.span (· != '=') = (key, '=' :: value) ↔
    word = key ++ '=' :: value ∧ '=' ∉ key := by
  rw [List.span_eq_takeWhile_dropWhile]
  constructor
  · intro h
    obtain ⟨hkey, hvalue⟩ := Prod.mk.inj h
    refine ⟨?_, fun hmem => ?_⟩
    · rw [← hkey, ← hvalue, List.takeWhile_append_dropWhile]
    · rw [← hkey] at hmem
      simpa using List.mem_takeWhile_imp hmem
  · rintro ⟨rfl, hkey⟩
    have hin : ∀ c ∈ key, (c != '=') = true := by
      rintro c hc
      simpa using ne_of_mem_of_not_mem hc hkey
    rw [List.takeWhile_append_of_pos hin, List.dropWhile_append_of_pos hin]
    simp

theorem directs_iff : Directs word level ↔ ofDirective? word = some level := by
  unfold ofDirective?
  constructor
  · rintro ⟨hsign, hkey, hvalue⟩
    rw [span_iff.mpr ⟨rfl, hsign⟩]
    exact (if_pos (isKey_iff.mp hkey)).trans (denotes_iff.mp hvalue)
  · intro h
    split at h
    · rename_i key value hspan
      obtain ⟨rfl, hsign⟩ := span_iff.mp hspan
      split at h
      · rename_i hkey
        exact .intro hsign (isKey_iff.mpr hkey) (denotes_iff.mpr h)
      · cases h
    · cases h

theorem ofDirective?_eq_none : ofDirective? word = none ↔ ∀ level, ¬ Directs word level := by
  rw [Option.eq_none_iff_forall_ne_some]
  simp only [directs_iff, ne_eq]

theorem decides_iff : Decides words r ↔ words.findSome? ofDirective? = r := by
  constructor
  · rintro (⟨hbefore, hword⟩ | hwords)
    · refine List.findSome?_eq_some_iff.mpr ⟨_, _, _, rfl, directs_iff.mp hword, fun w hw => ?_⟩
      exact ofDirective?_eq_none.mpr (hbefore w hw)
    · exact List.findSome?_eq_none_iff.mpr fun w hw => ofDirective?_eq_none.mpr (hwords w hw)
  · intro h
    cases r with
    | none =>
      have hwords := List.findSome?_eq_none_iff.mp h
      exact .silent fun w hw => ofDirective?_eq_none.mp (hwords w hw)
    | some level =>
      obtain ⟨before, word, after, rfl, hword, hbefore⟩ := List.findSome?_eq_some_iff.mp h
      exact .first (fun w hw => ofDirective?_eq_none.mp (hbefore w hw)) (directs_iff.mpr hword)

/-- A command line sets the level that its first directive names, and none if it has no directive.
So of two lines with a gap between them the second one counts if the first one sets no level. -/
theorem first_directive_counts :
    (∀ (line : String) (r : Option Level),
      ofCommandLine? line = r ↔ ∃ words, Parts line.toList words ∧ Decides words r) ∧
    ∀ before gap after : String, gap ≠ "" → IsGap gap.toList →
      ofCommandLine? (before ++ gap ++ after) =
        (ofCommandLine? before).or (ofCommandLine? after) := by
  refine ⟨fun line r => ⟨fun h => ?_, ?_⟩, fun before gap after hne hgap => ?_⟩
  · exact ⟨_, parts_words _, decides_iff.mpr h⟩
  · rintro ⟨words, hwords, hdecides⟩
    rw [ofCommandLine?, parts_iff.mp hwords, decides_iff.mp hdecides]
  · have hparts := (parts_words before.toList).append hgap (by simpa using hne)
      (parts_words after.toList)
    rw [ofCommandLine?, String.toList_append, String.toList_append, parts_iff.mp hparts,
      List.findSome?_append]
    rfl

theorem first_directive_counts_resemblances :
    "\u2003" ≠ "" ∧ IsGap "\u2003".toList ∧
      ofCommandLine? ("log=\u0131nfo Log=info=1" ++ "\u2003" ++ "=warn LogLevel=WARNing log=panic") =
        some warn := by
  have hne : "\u2003" ≠ "" := by decide
  have hgap : IsGap "\u2003".toList := List.forall_mem_singleton.mpr (by decide)
  have hbefore : ofCommandLine? "log=\u0131nfo Log=info=1" = none := by decide +kernel
  have hafter : ofCommandLine? "=warn LogLevel=WARNing log=panic" = some warn := by decide +kernel
  refine ⟨hne, hgap, ?_⟩
  rw [first_directive_counts.2 _ _ _ hne hgap, hbefore, hafter]
  rfl

end PriorityDonation.Level
