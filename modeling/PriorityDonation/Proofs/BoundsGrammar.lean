import Mathlib.Data.List.Induction
import Mathlib.Data.List.Perm.Basic
import PriorityDonation.Bounds.CommandLine
import PriorityDonation.Proofs.Lexis

/-!
# What a command line says about the bounds

The first word that assigns a limit and is malformed decides. If there is none, each limit has the
value that the last word of its key gives, or the standard one, and only these final values have to
be in order. The reading takes the words from left to right. What it takes from well-formed words is
kept whatever follows, so the words before and after any one can be looked at apart.
-/

namespace PriorityDonation

open Text

namespace Limit

/-- What a word that assigns the limit begins with. -/
def opening (limit : Limit) : List Char := (limit.key ++ "=").toList

theorem isPrefixOf?_opening_append (limit other : Limit) (digits : List Char) :
    limit.opening.isPrefixOf? (other.opening ++ digits) =
      if limit = other then some digits else none := by
  cases limit <;> cases other <;> rfl

/-- A word assigns one limit at most. -/
theorem opening_append_inj {limit other : Limit} {digits digits' : List Char}
    (h : limit.opening ++ digits = other.opening ++ digits') :
    limit = other ∧ digits = digits' := by
  have hprefix := isPrefixOf?_opening_append limit other digits'
  rw [← h, isPrefixOf?_opening_append, if_pos rfl] at hprefix
  split at hprefix
  · rename_i heq
    exact ⟨heq, Option.some.inj hprefix⟩
  · cases hprefix

theorem assignment?_opening_append (limit : Limit) (digits : List Char) :
    assignment? (limit.opening ++ digits) = some (limit, digits) := by
  cases limit <;> rfl

theorem assignment?_of_foreign {w : List Char} (h : ∀ limit : Limit, ¬ limit.opening <+: w) :
    assignment? w = none := by
  have hnone (limit : Limit) : limit.opening.isPrefixOf? w = none := by
    rw [Option.eq_none_iff_forall_ne_some]
    intro digits hdigits
    exact h limit ⟨digits, List.isPrefixOf?_eq_some_iff_append_eq.mp hdigits⟩
  simp only [opening] at hnone
  simp only [assignment?, List.findSome?_cons, List.findSome?_nil, hnone, Option.map_none]

end Limit

/-- The text is a numeral of a value in the range of priorities. -/
def IsPriority (digits : List Char) : Prop :=
  ∃ n : Int, Numeral digits n ∧ -2147483648 ≤ n ∧ n ≤ 2147483647

theorem priority?_iff {digits : List Char} {priority : Priority} :
    priority? digits = some priority ↔ Numeral digits priority.toInt := by
  rw [numeral_iff, priority?]
  have hmin : Int32.minValue.toInt = -2147483648 := by decide
  have hmax : Int32.maxValue.toInt = 2147483647 := by decide
  rw [hmin, hmax]
  constructor
  · intro h
    split at h
    · rename_i n hn
      split at h
      · rename_i hrange
        cases h
        rw [hn, Int32.toInt_ofInt_of_le (by omega) (by omega)]
      · cases h
    · cases h
  · intro h
    have hle := priority.le_toInt
    have hlt := priority.toInt_lt
    simp only [h]
    rw [if_pos (by omega), Int32.ofInt_toInt]

theorem isPriority_iff {digits : List Char} :
    IsPriority digits ↔ ∃ priority, priority? digits = some priority := by
  constructor
  · rintro ⟨n, hn, hmin, hmax⟩
    refine ⟨.ofInt n, priority?_iff.mpr ?_⟩
    rwa [Int32.toInt_ofInt_of_le (by omega) (by omega)]
  · rintro ⟨priority, h⟩
    have hle := priority.le_toInt
    have hlt := priority.toInt_lt
    exact ⟨priority.toInt, priority?_iff.mp h, by omega, by omega⟩

/-- The word assigns no limit, or it gives a priority. -/
def WellFormed (w : List Char) : Prop :=
  ∀ (limit : Limit) (digits : List Char), w = limit.opening ++ digits → IsPriority digits

/-- The last word that assigns the limit gives it this value. If there is none, it is the standard
value. -/
def LastValue (words : List (List Char)) (limit : Limit) (priority : Priority) : Prop :=
  (∃ before digits after, words = before ++ (limit.opening ++ digits) :: after ∧
    Numeral digits priority.toInt ∧ ∀ w ∈ after, ¬ limit.opening <+: w) ∨
  (∀ w ∈ words, ¬ limit.opening <+: w) ∧ priority = Bounds.standard.get limit

/-- What words say about the bounds. -/
inductive Says (words : List (List Char)) : Except BoundsError Bounds → Prop
  | badValue {limit : Limit} {digits : List Char} {before after : List (List Char)} :
      words = before ++ (limit.opening ++ digits) :: after → (∀ w ∈ before, WellFormed w) →
      ¬ IsPriority digits → Says words (.error (.badValue limit))
  | ok {bounds : Bounds} : (∀ w ∈ words, WellFormed w) →
      (∀ limit, LastValue words limit (bounds.get limit)) → bounds.Valid → Says words (.ok bounds)
  | badBounds {bounds : Bounds} : (∀ w ∈ words, WellFormed w) →
      (∀ limit, LastValue words limit (bounds.get limit)) → ¬ bounds.Valid →
      Says words (.error (.badBounds bounds))

namespace BoundsReading

/-- What is read from the words of a line. -/
def ofWords (words : List (List Char)) : BoundsReading :=
  ofAssignments (words.filterMap Limit.assignment?)

variable {words before after : List (List Char)} {w digits : List Char} {limit : Limit}
  {priority : Priority} {bounds : Bounds}

theorem ofWords_cons_foreign (h : ∀ limit : Limit, ¬ limit.opening <+: w)
    (words : List (List Char)) : ofWords (w :: words) = ofWords words := by
  rw [ofWords, List.filterMap_cons_none (Limit.assignment?_of_foreign h), ofWords]

theorem ofWords_cons_malformed (h : ¬ IsPriority digits) (words : List (List Char)) :
    ofWords ((limit.opening ++ digits) :: words) = ⟨[], some limit⟩ := by
  have hnone : priority? digits = none := by
    rw [Option.eq_none_iff_forall_ne_some]
    exact fun priority hpriority => h (isPriority_iff.mpr ⟨priority, hpriority⟩)
  rw [ofWords, List.filterMap_cons_some (limit.assignment?_opening_append digits), ofAssignments,
    hnone]

theorem ofWords_cons_assigns (h : Numeral digits priority.toInt) (words : List (List Char)) :
    ofWords ((limit.opening ++ digits) :: words) =
      ⟨(limit, priority) :: (ofWords words).assigned, (ofWords words).malformed⟩ := by
  rw [ofWords, List.filterMap_cons_some (limit.assignment?_opening_append digits), ofAssignments,
    priority?_iff.mpr h]
  rfl

/-- A well-formed word is foreign or assigns a limit. -/
theorem wellFormed_cases (h : WellFormed w) : (∀ limit : Limit, ¬ limit.opening <+: w) ∨
    ∃ limit digits priority, w = Limit.opening limit ++ digits ∧
      Numeral digits (Int32.toInt priority) := by
  by_cases hforeign : ∀ limit : Limit, ¬ limit.opening <+: w
  · exact Or.inl hforeign
  · push Not at hforeign
    obtain ⟨limit, digits, rfl⟩ := hforeign
    obtain ⟨priority, hp⟩ := isPriority_iff.mp (h limit digits rfl)
    exact Or.inr ⟨limit, digits, priority, rfl, priority?_iff.mp hp⟩

/-- What is read from well-formed words is kept, and the reading goes on behind them. -/
theorem ofWords_append (h : ∀ w ∈ before, WellFormed w) (after : List (List Char)) :
    ofWords (before ++ after) =
      ⟨(ofWords before).assigned ++ (ofWords after).assigned, (ofWords after).malformed⟩ := by
  induction before with
  | nil => rfl
  | cons w before ih =>
    obtain ⟨hw, hbefore⟩ := List.forall_mem_cons.mp h
    rw [List.cons_append]
    rcases wellFormed_cases hw with hforeign | ⟨limit, digits, priority, rfl, hp⟩
    · rw [ofWords_cons_foreign hforeign, ofWords_cons_foreign hforeign, ih hbefore]
    · rw [ofWords_cons_assigns hp, ofWords_cons_assigns hp, ih hbefore]
      rfl

theorem malformed_ofWords (h : ∀ w ∈ words, WellFormed w) : (ofWords words).malformed = none := by
  have happend := ofWords_append h []
  rw [List.append_nil] at happend
  rw [happend]
  rfl

theorem assigned_ofWords (h : ∀ w ∈ words, ¬ limit.opening <+: w) :
    ∀ a ∈ (ofWords words).assigned, a.1 ≠ limit := by
  induction words with
  | nil => simp [ofWords, ofAssignments]
  | cons w words ih =>
    obtain ⟨hw, hwords⟩ := List.forall_mem_cons.mp h
    by_cases hforeign : ∀ limit : Limit, ¬ limit.opening <+: w
    · rw [ofWords_cons_foreign hforeign]
      exact ih hwords
    · push Not at hforeign
      obtain ⟨other, digits, rfl⟩ := hforeign
      by_cases hdigits : IsPriority digits
      · obtain ⟨priority, hp⟩ := isPriority_iff.mp hdigits
        rw [ofWords_cons_assigns (priority?_iff.mp hp)]
        refine List.forall_mem_cons.mpr ⟨?_, ih hwords⟩
        rintro rfl
        exact hw ⟨digits, rfl⟩
      · rw [ofWords_cons_malformed hdigits]
        simp

theorem get_foldl_set {assigned : List (Limit × Priority)} (h : ∀ a ∈ assigned, a.1 ≠ limit)
    (start : Bounds) :
    (assigned.foldl (fun bounds a => bounds.set a.1 a.2) start).get limit = start.get limit := by
  induction assigned generalizing start with
  | nil => rfl
  | cons a assigned ih =>
    obtain ⟨ha, hrest⟩ := List.forall_mem_cons.mp h
    rw [List.foldl_cons, ih hrest, Bounds.get_set, if_neg ha]

/-- The last value of a limit is the one that is taken. -/
theorem get_bounds_ofWords (h : ∀ w ∈ words, WellFormed w)
    (hlast : LastValue words limit priority) : (ofWords words).bounds.get limit = priority := by
  rcases hlast with ⟨before, digits, after, rfl, hp, hafter⟩ | ⟨hnone, rfl⟩
  · have hbefore := fun w hw => h w (List.mem_append_left _ hw)
    rw [ofWords_append hbefore, ofWords_cons_assigns hp, BoundsReading.bounds, List.foldl_append,
      List.foldl_cons]
    refine (get_foldl_set (assigned_ofWords hafter) _).trans ?_
    rw [Bounds.get_set, if_pos rfl]
  · exact get_foldl_set (assigned_ofWords hnone) _

theorem exists_lastValue (h : ∀ w ∈ words, WellFormed w) (limit : Limit) :
    ∃ priority, LastValue words limit priority := by
  induction words using List.reverseRecOn with
  | nil => exact ⟨_, Or.inr ⟨by simp, rfl⟩⟩
  | append_singleton words w ih =>
    by_cases hw : limit.opening <+: w
    · obtain ⟨digits, rfl⟩ := hw
      obtain ⟨priority, hp⟩ := isPriority_iff.mp (h _ (by simp) limit digits rfl)
      exact ⟨priority, Or.inl ⟨words, digits, [], rfl, priority?_iff.mp hp, by simp⟩⟩
    · obtain ⟨priority, hlast⟩ := ih fun w hw => h w (List.mem_append_left _ hw)
      refine ⟨priority, ?_⟩
      rcases hlast with ⟨before, digits, after, rfl, hp, hafter⟩ | ⟨hnone, rfl⟩
      · refine Or.inl ⟨before, digits, after ++ [w], by simp, hp, ?_⟩
        exact List.forall_mem_append.mpr ⟨hafter, by simpa using hw⟩
      · exact Or.inr ⟨List.forall_mem_append.mpr ⟨hnone, by simpa using hw⟩, rfl⟩

/-- Either all words are well formed or there is a first one that is not. -/
theorem first_malformed (words : List (List Char)) : (∀ w ∈ words, WellFormed w) ∨
    ∃ (limit : Limit) (digits : List Char) (before after : List (List Char)),
      words = before ++ (limit.opening ++ digits) :: after ∧ (∀ w ∈ before, WellFormed w) ∧
        ¬ IsPriority digits := by
  induction words with
  | nil => exact Or.inl (by simp)
  | cons w words ih =>
    by_cases hw : WellFormed w
    · rcases ih with hwords | ⟨limit, digits, before, after, rfl, hbefore, hdigits⟩
      · exact Or.inl (List.forall_mem_cons.mpr ⟨hw, hwords⟩)
      · exact Or.inr ⟨limit, digits, w :: before, after, rfl,
          List.forall_mem_cons.mpr ⟨hw, hbefore⟩, hdigits⟩
    · simp only [WellFormed, not_forall] at hw
      obtain ⟨limit, digits, rfl, hdigits⟩ := hw
      exact Or.inr ⟨limit, digits, [], words, rfl, by simp, hdigits⟩

theorem eq_of_get {bounds others : Bounds} (h : ∀ limit, bounds.get limit = others.get limit) :
    bounds = others := by
  obtain ⟨lowest, initial, highest⟩ := bounds
  have hlowest := h .lowest
  have hinitial := h .initial
  have hhighest := h .highest
  simp only [Bounds.get] at hlowest hinitial hhighest
  rw [hlowest, hinitial, hhighest]

theorem result_of_wellFormed (h : ∀ w ∈ words, WellFormed w)
    (hlast : ∀ limit, LastValue words limit (bounds.get limit)) :
    (ofWords words).result = bounds.checked := by
  have hbounds : (ofWords words).bounds = bounds :=
    eq_of_get fun limit => get_bounds_ofWords h (hlast limit)
  rw [result, malformed_ofWords h, hbounds]

theorem result_unique {r : Except BoundsError Bounds} (h : Says words r) :
    (ofWords words).result = r := by
  cases h with
  | badValue hwords hbefore hdigits =>
    rw [hwords, ofWords_append hbefore, ofWords_cons_malformed hdigits, result]
  | ok hwords hlast valid => rw [result_of_wellFormed hwords hlast, Bounds.checked, if_pos valid]
  | badBounds hwords hlast invalid =>
    rw [result_of_wellFormed hwords hlast, Bounds.checked, if_neg invalid]

theorem says_result (words : List (List Char)) : Says words (ofWords words).result := by
  rcases first_malformed words with h | ⟨limit, digits, before, after, hwords, hbefore, hdigits⟩
  · have hlast (limit : Limit) : LastValue words limit ((ofWords words).bounds.get limit) := by
      obtain ⟨priority, hlast⟩ := exists_lastValue h limit
      rwa [get_bounds_ofWords h hlast]
    rw [result_of_wellFormed h hlast, Bounds.checked]
    split
    · rename_i valid
      exact .ok h hlast valid
    · rename_i invalid
      exact .badBounds h hlast invalid
  · have hsays := Says.badValue hwords hbefore hdigits
    rwa [result_unique hsays]

end BoundsReading

namespace Bounds

/-- The word that assigns a limit what it is under the bounds. -/
def word (bounds : Bounds) (limit : Limit) : List Char :=
  limit.opening ++ (toString (bounds.get limit)).toList

/-- The words that assign all three limits. -/
def rendered (bounds : Bounds) : List (List Char) :=
  [bounds.word .lowest, bounds.word .highest, bounds.word .initial]

variable {bounds : Bounds} {words others : List (List Char)} {w : List Char}

theorem word_mem_rendered (bounds : Bounds) (limit : Limit) :
    bounds.word limit ∈ bounds.rendered := by
  cases limit <;> simp [rendered]

theorem mem_rendered (h : w ∈ bounds.rendered) : ∃ limit, w = bounds.word limit := by
  simp only [rendered, List.mem_cons, List.not_mem_nil, or_false] at h
  rcases h with h | h | h
  · exact ⟨_, h⟩
  · exact ⟨_, h⟩
  · exact ⟨_, h⟩

theorem eq_of_opening_prefix_word {limit other : Limit} (h : limit.opening <+: bounds.word other) :
    limit = other := by
  obtain ⟨digits, h⟩ := h
  exact (Limit.opening_append_inj h).1

theorem nodup_rendered (bounds : Bounds) : bounds.rendered.Nodup := by
  have inj {limit other : Limit} (h : bounds.word limit = bounds.word other) : limit = other :=
    (Limit.opening_append_inj h).1
  simp only [rendered, List.nodup_cons, List.mem_cons, List.not_mem_nil, or_false, not_or]
  refine ⟨⟨fun h => ?_, fun h => ?_⟩, fun h => ?_, not_false, List.nodup_nil⟩ <;> cases inj h

theorem numeral_get (bounds : Bounds) (limit : Limit) :
    Numeral (toString (bounds.get limit)).toList (bounds.get limit).toInt :=
  numeral_toString _

theorem isWord_rendered (bounds : Bounds) : ∀ w ∈ bounds.rendered, IsWord w := by
  intro w hw
  obtain ⟨limit, rfl⟩ := mem_rendered hw
  have hopening : ∀ c ∈ limit.opening, isBlank c = false := by
    have hall : limit.opening.all (!isBlank ·) = true := by cases limit <;> rfl
    simpa using hall
  have hvalue := (bounds.numeral_get limit).isWord
  exact ⟨by simp [word, hvalue.1], List.forall_mem_append.mpr ⟨hopening, hvalue.2⟩⟩

/-- Among words that hold the rendered ones once and no others of their keys, each limit has the
value it was rendered with. -/
theorem says_of_perm (valid : bounds.Valid)
    (foreign : ∀ w ∈ others, ∀ limit : Limit, ¬ limit.opening <+: w)
    (h : words.Perm (bounds.rendered ++ others)) : Says words (.ok bounds) := by
  refine .ok (fun w hw limit digits hdigits => ?_) (fun limit => Or.inl ?_) valid
  · rcases List.mem_append.mp (h.mem_iff.mp hw) with hmem | hmem
    · obtain ⟨other, rfl⟩ := mem_rendered hmem
      obtain ⟨rfl, rfl⟩ := Limit.opening_append_inj hdigits
      exact isPriority_iff.mpr ⟨_, priority?_iff.mpr (bounds.numeral_get _)⟩
    · exact absurd ⟨digits, hdigits.symm⟩ (foreign w hmem limit)
  · have hmem := bounds.word_mem_rendered limit
    obtain ⟨before, after, rfl⟩ := List.append_of_mem (h.mem_iff.mpr (List.mem_append_left _ hmem))
    refine ⟨before, _, after, rfl, bounds.numeral_get limit, fun w hw hopening => ?_⟩
    have hrest : (before ++ after).Perm (bounds.rendered.erase (bounds.word limit) ++ others) :=
      (List.perm_middle.symm.trans (h.trans ((List.perm_cons_erase hmem).append_right _))).cons_inv
    rcases List.mem_append.mp (hrest.mem_iff.mp (List.mem_append_right _ hw)) with hw | hw
    · obtain ⟨hne, hw⟩ := bounds.nodup_rendered.mem_erase_iff.mp hw
      obtain ⟨other, rfl⟩ := mem_rendered hw
      exact hne (by rw [eq_of_opening_prefix_word hopening])
    · exact foreign w hw limit hopening

end Bounds

/-- A command line is read as its words say. So bounds that are written on it are read back, in
whatever order and with whatever blanks and foreign words between them. -/
theorem reading_follows_grammar :
    (∀ (line : String) (r : Except BoundsError Bounds),
      (BoundsReading.ofCommandLine line).result = r ↔
        ∃ words, Parts line.toList words ∧ Says words r) ∧
    ∀ (bounds : Bounds) (words others : List (List Char)), bounds.Valid →
      (∀ w ∈ others, IsWord w ∧ ∀ limit : Limit, ¬ limit.opening <+: w) →
      words.Perm (bounds.rendered ++ others) →
      (∃ line : String, Parts line.toList words) ∧
        ∀ line : String, Parts line.toList words →
          (BoundsReading.ofCommandLine line).result = .ok bounds := by
  have hreading {line : String} {words : List (List Char)} (hwords : Parts line.toList words) :
      BoundsReading.ofCommandLine line = .ofWords words := by
    rw [BoundsReading.ofCommandLine, parts_iff.mp hwords]
    rfl
  refine ⟨fun line r => ⟨?_, ?_⟩, fun bounds words others valid hothers hperm => ⟨?_, ?_⟩⟩
  · rintro rfl
    exact ⟨_, parts_words _, BoundsReading.says_result _⟩
  · rintro ⟨words, hwords, hsays⟩
    rw [hreading hwords, BoundsReading.result_unique hsays]
  · refine exists_parts fun w hw => ?_
    rcases List.mem_append.mp (hperm.mem_iff.mp hw) with hmem | hmem
    · exact bounds.isWord_rendered w hmem
    · exact (hothers w hmem).1
  · intro line hwords
    have foreign := fun w hw => (hothers w hw).2
    rw [hreading hwords, BoundsReading.result_unique (Bounds.says_of_perm valid foreign hperm)]

example : (BoundsReading.ofCommandLine
    "prio_min=9 quiet\u3000prio_min=+003 prio_max=-2147483648").result =
      .error (.badBounds ⟨3, 1, -2147483648⟩) := by cbv

end PriorityDonation
