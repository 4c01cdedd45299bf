import Mathlib.Data.List.Infix
import PriorityDonation.Log.Buffer
import PriorityDonation.Proofs.LogSessions

/-!
# A line is the longest part that fits

A line is written piece by piece, and a piece that is too long is cut between two characters. Up to
three bytes stay free then, and nothing is written into them, so the line is what it would be if all
the pieces were one text: the longest initial part of it, in whole characters, that takes up 512
bytes at most. The buffer in which the line is put together finds the same place to cut by going
back from the limit to a character boundary, and its bytes decode to the line.
-/

namespace PriorityDonation

namespace Text

variable {room : Nat} {cs part : List Char}

theorem utf8ByteSize_ofList_cons (c : Char) (cs : List Char) :
    (String.ofList (c :: cs)).utf8ByteSize = c.utf8Size + (String.ofList cs).utf8ByteSize := by
  rw [String.ofList_cons, String.utf8ByteSize_append, String.utf8ByteSize_singleton]

theorem utf8ByteSize_ofList_append (cs ds : List Char) :
    (String.ofList (cs ++ ds)).utf8ByteSize =
      (String.ofList cs).utf8ByteSize + (String.ofList ds).utf8ByteSize := by
  rw [String.ofList_append, String.utf8ByteSize_append]

theorem utf8ByteSize_le_of_prefix (h : part <+: cs) :
    (String.ofList part).utf8ByteSize ≤ (String.ofList cs).utf8ByteSize := by
  obtain ⟨rest, rfl⟩ := h
  rw [utf8ByteSize_ofList_append]
  exact Nat.le_add_right _ _

theorem utf8ByteSize_fitting_le (room : Nat) (cs : List Char) :
    (String.ofList (fitting room cs)).utf8ByteSize ≤ room := by
  fun_induction fitting room cs with
  | case1 | case3 => exact Nat.zero_le _
  | case2 room c cs h ih =>
    rw [utf8ByteSize_ofList_cons]
    omega

/-- Every initial part that fits is part of the one that is taken. -/
theorem prefix_fitting (h : part <+: cs) (hsize : (String.ofList part).utf8ByteSize ≤ room) :
    part <+: fitting room cs := by
  induction cs generalizing room part with
  | nil => rwa [fitting]
  | cons c cs ih =>
    cases part with
    | nil => exact List.nil_prefix
    | cons d part =>
      obtain ⟨rfl, hrest⟩ := List.cons_prefix_cons.mp h
      rw [utf8ByteSize_ofList_cons] at hsize
      rw [fitting, if_pos (by omega)]
      exact (List.prefix_cons_inj d).mpr (ih hrest (by omega))

/-- What does not fit loses a character at most of what there is room for. -/
theorem room_lt_of_overflow (h : room < (String.ofList cs).utf8ByteSize) :
    room < (String.ofList (fitting room cs)).utf8ByteSize + 4 := by
  induction cs generalizing room with
  | nil => simp at h
  | cons c cs ih =>
    rw [utf8ByteSize_ofList_cons] at h
    rw [fitting]
    split
    · have hrest : room - c.utf8Size < (String.ofList cs).utf8ByteSize := by omega
      have := ih hrest
      rw [utf8ByteSize_ofList_cons]
      omega
    · have := c.utf8Size_le_four
      omega

theorem fitting_append_of_fits (h : (String.ofList cs).utf8ByteSize ≤ room) (ds : List Char) :
    fitting room (cs ++ ds) = cs ++ fitting (room - (String.ofList cs).utf8ByteSize) ds := by
  induction cs generalizing room with
  | nil => rfl
  | cons c cs ih =>
    rw [utf8ByteSize_ofList_cons] at h ⊢
    rw [List.cons_append, fitting, if_pos (by omega), ih (by omega), List.cons_append, Nat.sub_sub]

theorem fitting_of_fits (h : (String.ofList cs).utf8ByteSize ≤ room) : fitting room cs = cs := by
  have happend := fitting_append_of_fits h []
  rwa [List.append_nil, fitting, List.append_nil] at happend

theorem fitting_append_of_overflow (h : room < (String.ofList cs).utf8ByteSize) (ds : List Char) :
    fitting room (cs ++ ds) = fitting room cs := by
  induction cs generalizing room with
  | nil => simp at h
  | cons c cs ih =>
    rw [utf8ByteSize_ofList_cons] at h
    rw [List.cons_append, fitting, fitting]
    split
    · rw [ih (by omega)]
    · rfl

end Text

open Text

namespace Line

theorem foldl_write_closed (pieces : List String) (text : String) :
    pieces.foldl write ⟨text, true⟩ = ⟨text, true⟩ := by
  induction pieces with
  | nil => rfl
  | cons piece rest ih => rwa [List.foldl_cons, write, if_pos rfl]

theorem write_of_overflow {text piece : String}
    (h : capacity - text.utf8ByteSize < piece.utf8ByteSize) : write ⟨text, false⟩ piece =
      ⟨text ++ .ofList (fitting (capacity - text.utf8ByteSize) piece.toList), true⟩ := by
  have hroom : ¬ piece.utf8ByteSize ≤ room ⟨text, false⟩ := Nat.not_le.mpr h
  rw [write, if_neg (by simp), if_neg hroom]
  rfl

theorem foldl_write_of_fits (pieces : List String) {text : String}
    (h : text.utf8ByteSize + (String.join pieces).utf8ByteSize ≤ capacity) :
    pieces.foldl write ⟨text, false⟩ = ⟨text ++ String.join pieces, false⟩ := by
  induction pieces generalizing text with
  | nil => simp
  | cons piece rest ih =>
    rw [String.join_cons, String.utf8ByteSize_append] at h
    have hrest : (text ++ piece).utf8ByteSize + (String.join rest).utf8ByteSize ≤ capacity := by
      rw [String.utf8ByteSize_append]
      omega
    rw [List.foldl_cons, write_of_fits (by omega), ih hrest, String.join_cons, String.append_assoc]

/-- Pieces are written as one text would be, however it is parted. -/
theorem foldl_write (pieces : List String) {text : String} (h : text.utf8ByteSize ≤ capacity) :
    (pieces.foldl write ⟨text, false⟩).text =
      text ++ .ofList (fitting (capacity - text.utf8ByteSize) (String.join pieces).toList) := by
  induction pieces generalizing text with
  | nil => simp [fitting]
  | cons piece rest ih =>
    have hpiece : (String.ofList piece.toList).utf8ByteSize = piece.utf8ByteSize := by
      rw [String.ofList_toList]
    rw [List.foldl_cons, String.join_cons, String.toList_append]
    by_cases hfits : text.utf8ByteSize + piece.utf8ByteSize ≤ capacity
    · have hsize : (text ++ piece).utf8ByteSize ≤ capacity := by rwa [String.utf8ByteSize_append]
      rw [write_of_fits hfits, ih hsize, fitting_append_of_fits (by omega), String.ofList_append,
        String.ofList_toList, String.utf8ByteSize_append, Nat.sub_sub, String.append_assoc]
    · rw [write_of_overflow (by omega), foldl_write_closed, fitting_append_of_overflow (by omega)]

theorem text_ofPieces (pieces : List String) :
    (ofPieces pieces).text = .ofList (fitting capacity (String.join pieces).toList) := by
  have hempty : "".utf8ByteSize ≤ capacity := by decide
  refine (foldl_write pieces hempty).trans ?_
  rw [String.empty_append, String.utf8ByteSize_empty, Nat.sub_zero]

end Line

namespace Buffer

theorem lastBoundary_eq {s : String} {room cut : Nat} (valid : String.Pos.Raw.IsValid s ⟨cut⟩)
    (hle : cut ≤ room) (last : ∀ i ≤ room, String.Pos.Raw.IsValid s ⟨i⟩ → i ≤ cut) :
    lastBoundary s room = cut := by
  induction room with
  | zero => rw [lastBoundary, Nat.le_zero.mp hle]
  | succ room ih =>
    rw [lastBoundary]
    split
    · rename_i h
      exact Nat.le_antisymm (last _ (Nat.le_refl _) (String.Pos.Raw.isValid_eq_true_iff.mp h)) hle
    · rename_i h
      have hne : cut ≠ room + 1 := by
        rintro rfl
        exact h (String.Pos.Raw.isValid_eq_true_iff.mpr valid)
      exact ih (by omega) fun i hi => last i (by omega)

/-- Going back from the limit finds the end of the longest part that fits. -/
theorem extract_lastBoundary (s : String) (room : Nat) :
    s.toByteArray.extract 0 (lastBoundary s room) =
      (String.ofList (fitting room s.toList)).toByteArray := by
  have hpart := fitting_prefix room s.toList
  have ⟨rest, hrest⟩ := hpart
  have hsplit : s.toByteArray =
      (String.ofList (fitting room s.toList)).toByteArray ++ (String.ofList rest).toByteArray := by
    rw [← String.toByteArray_append, ← String.ofList_append, hrest, String.ofList_toList]
  have hcut : lastBoundary s room = (String.ofList (fitting room s.toList)).utf8ByteSize := by
    refine lastBoundary_eq ?_ (utf8ByteSize_fitting_le room s.toList) fun i hi valid => ?_
    · refine String.Pos.Raw.isValid_iff_exists_take_toList.mpr ⟨(fitting room s.toList).length, ?_⟩
      rw [← List.prefix_iff_eq_take.mp hpart]
    · obtain ⟨k, hk⟩ := String.Pos.Raw.isValid_iff_exists_take_toList.mp valid
      change i = _ at hk
      rw [hk] at hi ⊢
      exact utf8ByteSize_le_of_prefix (prefix_fitting (List.take_prefix k _) hi)
  rw [hsplit, hcut]
  exact ByteArray.extract_append_eq_left String.size_toByteArray.symm

/-- A buffer takes pieces as a line does. -/
theorem format_toByteArray (pieces : List String) (text : String) :
    format pieces text.toByteArray =
      (pieces.foldl Line.write ⟨text, false⟩).text.toByteArray := by
  induction pieces generalizing text with
  | nil => rfl
  | cons piece rest ih =>
    rw [format, write, String.size_toByteArray, List.foldl_cons]
    by_cases hfits : piece.utf8ByteSize ≤ Line.capacity - text.utf8ByteSize
    · have hwrite : Line.write ⟨text, false⟩ piece = ⟨text ++ piece, false⟩ := if_pos hfits
      simp only [hfits, if_true]
      rw [← String.toByteArray_append, ih, hwrite]
    · simp only [hfits, if_false]
      rw [extract_lastBoundary, ← String.toByteArray_append,
        Line.write_of_overflow (Nat.not_le.mp hfits), Line.foldl_write_closed]

theorem fromUTF8?_toByteArray (s : String) : String.fromUTF8? s.toByteArray = some s := by
  rw [String.fromUTF8?, dif_pos s.isValidUTF8]
  rfl

end Buffer

namespace Record

theorem join_heading (level : Level) (sequence : Nat) : String.join (heading level sequence) =
    "[" ++ alignRight 6 (toString sequence) ++ "] [" ++ alignLeft 5 level.name ++ "] " := by
  simp only [heading, String.join_cons, String.join_nil, String.append_assoc, String.append_empty]

theorem utf8ByteSize_heading_le (level : Level) {sequence : Nat} (few : sequence < UInt64.size) :
    (String.join (heading level sequence)).utf8ByteSize ≤ Line.capacity := by
  have hsequence := utf8ByteSize_sequence_le few
  have hlevel : (alignLeft 5 level.name).utf8ByteSize = 5 := by cases level <;> decide
  have hfirst : "[".utf8ByteSize = 1 := by decide
  have hmiddle : "] [".utf8ByteSize = 3 := by decide
  have hlast : "] ".utf8ByteSize = 2 := by decide
  simp only [join_heading, String.utf8ByteSize_append, Line.capacity]
  omega

theorem line_eq (record : Record) (sequence : Nat) : record.line sequence =
    .ofList (fitting Line.capacity
      (String.join (heading record.level sequence) ++ String.join record.pieces).toList) := by
  rw [line, Line.text_ofPieces, String.join_append]

/-- The heading always has room, so a cut can only happen in the message. -/
theorem bytes_eq (record : Record) {sequence : Nat} (few : sequence < UInt64.size) :
    record.bytes sequence = (record.line sequence).toByteArray := by
  have hheading : (heading record.level sequence).foldl Line.write {} =
      ⟨String.join (heading record.level sequence), false⟩ := by
    have hfits : "".utf8ByteSize + (String.join (heading record.level sequence)).utf8ByteSize ≤
        Line.capacity := by
      rw [String.utf8ByteSize_empty, Nat.zero_add]
      exact utf8ByteSize_heading_le record.level few
    exact (Line.foldl_write_of_fits _ hfits).trans (by rw [String.empty_append])
  have hbytes : Buffer.format (heading record.level sequence) .empty =
      (String.join (heading record.level sequence)).toByteArray := by
    rw [← String.toByteArray_empty, Buffer.format_toByteArray, hheading]
  rw [bytes, hbytes, Buffer.format_toByteArray, line, Line.ofPieces, List.foldl_append, hheading]

end Record

/-- A line that is handed to a sink is the longest initial part of the heading and the message that
takes up 512 bytes at most and parts no character. It loses three bytes of the limit at most, the
bytes in the buffer decode to it, and it does not matter into what pieces the message is parted. -/
theorem line_is_longest_prefix (record : Record) (sequence : Nat) :
    let whole := "[" ++ alignRight 6 (toString sequence) ++ "] [" ++
      alignLeft 5 record.level.name ++ "] " ++ String.join record.pieces
    let line := record.line sequence
    (∀ (depth : Nat) (logger : Logger), logger.sink.isSome = true →
      logger.admits record.level = true → logger.emitted = sequence →
      (Logger.takeWithin depth record logger).1.head? = some ⟨record.level, line⟩) ∧
    line.toList <+: whole.toList ∧ line.utf8ByteSize ≤ 512 ∧
    (∀ other : String, other.toList <+: whole.toList → other.utf8ByteSize ≤ 512 →
      other.toList <+: line.toList) ∧
    (512 < whole.utf8ByteSize → 509 ≤ line.utf8ByteSize) ∧
    (sequence < UInt64.size → String.fromUTF8? (record.bytes sequence) = some line ∧
      Buffer.text (record.bytes sequence) = line) ∧
    ∀ pieces : List String, String.join pieces = String.join record.pieces →
      (⟨record.level, pieces⟩ : Record).line sequence = line := by
  intro whole line
  have hwhole : whole =
      String.join (Record.heading record.level sequence) ++ String.join record.pieces := by
    rw [Record.join_heading]
  have hline : line = .ofList (fitting 512 whole.toList) := by
    rw [hwhole]
    exact record.line_eq sequence
  have hlist : line.toList = fitting 512 whole.toList := by rw [hline, String.toList_ofList]
  refine ⟨?_, ?_, ?_, ?_, ?_, ?_, ?_⟩
  · intro depth logger hsink hadmits hsequence
    obtain ⟨sink, hsink⟩ := Option.isSome_iff_exists.mp hsink
    cases depth <;>
      simp only [Logger.takeWithin, hadmits, if_true, Logger.accept, hsink, hsequence] <;> rfl
  · rw [hlist]
    exact fitting_prefix 512 whole.toList
  · rw [hline]
    exact utf8ByteSize_fitting_le 512 whole.toList
  · intro other hprefix hsize
    rw [hlist]
    exact prefix_fitting hprefix (by rwa [String.ofList_toList])
  · intro hlong
    rw [hline]
    have hoverflow : 512 < (String.ofList whole.toList).utf8ByteSize := by
      rwa [String.ofList_toList]
    have := room_lt_of_overflow hoverflow
    omega
  · intro few
    have hbytes : String.fromUTF8? (record.bytes sequence) = some line := by
      rw [record.bytes_eq few]
      exact Buffer.fromUTF8?_toByteArray line
    exact ⟨hbytes, by rw [Buffer.text, hbytes, Option.getD_some]⟩
  · intro pieces hpieces
    change _ = record.line sequence
    rw [Record.line_eq, Record.line_eq, hpieces]

end PriorityDonation
