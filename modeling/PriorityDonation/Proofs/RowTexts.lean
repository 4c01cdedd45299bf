import PriorityDonation.Proofs.Lexis
import PriorityDonation.Proofs.WholeCharacters
import PriorityDonation.Scheduler.Event

/-!
# What the lines of a table read

A line of a table is its number, its level and a text. The columns of the text have a least width
only: a name or a numeral that is longer moves what follows to the right, but a space always parts
it from the next one, so the words of a row are the name and the numerals. None of these lines
comes near 512 bytes while its numbers have 64 bits, so it reaches the sink whole.
-/

namespace PriorityDonation

namespace Text

variable {cs gap w : List Char} {ws vs : List (List Char)} {s left right : String} {c : Char}
  {n : Nat}

theorem utf8ByteSize_of_single_bytes (h : ∀ c ∈ cs, c.utf8Size = 1) :
    (String.ofList cs).utf8ByteSize = cs.length := by
  induction cs with
  | nil => rfl
  | cons c cs ih =>
    obtain ⟨hc, hcs⟩ := List.forall_mem_cons.mp h
    rw [utf8ByteSize_ofList_cons, hc, ih hcs, List.length_cons, Nat.add_comm]

theorem utf8Size_of_isDigit (h : c.isDigit = true) : c.utf8Size = 1 := by
  rw [Char.isDigit_iff_toNat] at h
  have hnine : '9'.toNat = 57 := rfl
  apply Char.utf8Size_eq_one_iff.mpr
  apply UInt32.le_iff_toNat_le.mpr
  change c.toNat ≤ 127
  omega

theorem utf8ByteSize_natural_le (few : n < UInt64.size) : (toString n).utf8ByteSize ≤ 20 := by
  change n.repr.utf8ByteSize ≤ 20
  have hdigits : ∀ c ∈ Nat.toDigits 10 n, c.utf8Size = 1 := fun c hc =>
    utf8Size_of_isDigit (Nat.isDigit_of_mem_toDigits (by decide) (by decide) hc)
  rw [Nat.repr_eq_ofList_toDigits, utf8ByteSize_of_single_bytes hdigits]
  exact length_toDigits_le few

theorem utf8ByteSize_identity_le (task : TaskId) : (toString task.val).utf8ByteSize ≤ 20 :=
  utf8ByteSize_natural_le task.val.toNat_lt_size

theorem utf8ByteSize_name_le (task : TaskId) : ("T" ++ toString task.val).utf8ByteSize ≤ 21 := by
  have hdigits := utf8ByteSize_identity_le task
  have hmark : "T".utf8ByteSize = 1 := by decide
  rw [String.utf8ByteSize_append]
  omega

theorem utf8ByteSize_priority_le (priority : Priority) :
    (toString priority).utf8ByteSize ≤ 21 := by
  have hleast := Int32.le_toInt priority
  have hgreatest := Int32.toInt_lt priority
  have hsize : UInt64.size = 2 ^ 64 := rfl
  change (toString priority.toInt).utf8ByteSize ≤ 21
  cases hvalue : priority.toInt with
  | ofNat k =>
    rw [hvalue, Int.ofNat_eq_natCast] at hgreatest
    have hdigits := utf8ByteSize_natural_le (n := k) (by omega)
    exact Nat.le_succ_of_le hdigits
  | negSucc k =>
    have hdigits := utf8ByteSize_natural_le (n := k + 1) (by omega)
    have hminus : "-".utf8ByteSize = 1 := by decide
    change ("-" ++ toString (k + 1)).utf8ByteSize ≤ 21
    rw [String.utf8ByteSize_append]
    omega

theorem alignLeft_eq (width : Nat) (s : String) :
    alignLeft width s = s ++ String.ofList (List.replicate (width - s.length) ' ') := by
  rw [alignLeft, List.rightpad, String.ofList_append, String.ofList_toList, String.length_toList]

theorem utf8ByteSize_alignLeft_le (width : Nat) (s : String) :
    (alignLeft width s).utf8ByteSize ≤ s.utf8ByteSize + width := by
  have hspaces : ∀ c ∈ List.replicate (width - s.length) ' ', c.utf8Size = 1 := by
    intro c hc
    rw [List.eq_of_mem_replicate hc]
    decide
  rw [alignLeft_eq, String.utf8ByteSize_append, utf8ByteSize_of_single_bytes hspaces,
    List.length_replicate]
  omega

theorem isWord_natural (n : Nat) : IsWord (toString n).toList := (numeral_toString n).isWord

theorem isWord_priority (priority : Priority) : IsWord (toString priority).toList :=
  (numeral_toString priority.toInt).isWord

theorem isWord_name (task : TaskId) : IsWord ("T" ++ toString task.val).toList := by
  rw [String.toList_append]
  exact (isWord_natural task.val.toNat).cons (by decide)

theorem isGap_replicate (n : Nat) : IsGap (List.replicate n ' ') := by
  intro c hc
  rw [List.eq_of_mem_replicate hc]
  decide

theorem parts_padded (hgap : IsGap gap) (hw : IsWord w) (n : Nat) :
    Parts (gap ++ w ++ List.replicate n ' ') [w] := by
  have hspaces := isGap_replicate n
  have hfollowed : ∀ c ∈ (List.replicate n ' ').head?, isBlank c = true := by
    intro c hc
    exact hspaces c (List.mem_of_mem_head? hc)
  exact .word hgap hw hfollowed (.gap hspaces)

theorem parts_word (hw : IsWord w) : Parts w [w] := by
  have h := parts_padded (List.forall_mem_nil _) hw 0
  rwa [List.nil_append, List.replicate_zero, List.append_nil] at h

/-- A column holds its word and nothing else. -/
theorem parts_alignLeft (width : Nat) (hw : IsWord s.toList) :
    Parts (alignLeft width s).toList [s.toList] := by
  rw [alignLeft_eq, String.toList_append, String.toList_ofList]
  exact parts_padded (List.forall_mem_nil _) hw (width - s.length)

theorem parts_position (n : Nat) : Parts ("  #" ++ alignLeft 3 (toString n)).toList
    [("#" ++ toString n).toList] := by
  have hword : IsWord ("#" ++ toString n).toList := by
    rw [String.toList_append]
    exact (isWord_natural n).cons (by decide)
  have hmark : "  #" = "  " ++ "#" := by decide
  have htext : "  #" ++ alignLeft 3 (toString n) = "  " ++ ("#" ++ toString n) ++
      String.ofList (List.replicate (3 - (toString n).length) ' ') := by
    rw [alignLeft_eq, hmark]
    simp only [String.append_assoc]
  have hgap : "  ".toList = List.replicate 2 ' ' := by decide
  rw [htext, String.toList_append, String.toList_append, hgap, String.toList_ofList]
  exact parts_padded (isGap_replicate 2) hword (3 - (toString n).length)

/-- A space parts what is joined by it. -/
theorem Parts.space (hleft : Parts left.toList ws) (hright : Parts right.toList vs) :
    Parts (left ++ " " ++ right).toList (ws ++ vs) := by
  rw [String.toList_append, String.toList_append]
  exact hleft.append (isGap_replicate 1) (List.cons_ne_nil ' ' []) hright

end Text

open Text

namespace Delivery

/-- The line has this text behind its number and its level. What is handed over is the longest part
of 512 bytes, and that is all of it when the number and the counts in the text have 64 bits. -/
def Shows (delivery : Delivery) (number : Nat) (text : String) (counts : List Nat) : Prop :=
  let whole := "[" ++ alignRight 6 (toString number) ++ "] [INFO ] " ++ text
  delivery.level = .info ∧ delivery.line.toList <+: whole.toList ∧
    (∀ part : String, part.toList <+: whole.toList → part.utf8ByteSize ≤ 512 →
      part.toList <+: delivery.line.toList) ∧
    ((∀ n ∈ number :: counts, n < UInt64.size) → delivery.line = whole)

/-- The row of a task: its name, its priorities and the numbers of queues. -/
def ShowsTask (row : Delivery) (number : Nat) (task : TaskId) (base effective : Priority)
    (held awaiting : Nat) : Prop :=
  let name := "T" ++ toString task.val
  let text := name ++ " " ++ alignLeft 5 (toString base) ++ " " ++
    alignLeft 5 (toString effective) ++ " " ++ alignLeft 5 (toString held) ++ " " ++
    alignLeft 8 (toString awaiting)
  row.Shows number text [held, awaiting] ∧
    Parts text.toList (List.map String.toList
      [name, toString base, toString effective, toString held, toString awaiting])

/-- The row of a waiter: its position, its name and its priority. -/
def ShowsWaiter (row : Delivery) (number position : Nat) (task : TaskId)
    (effective : Priority) : Prop :=
  let name := "T" ++ toString task.val
  let text := "  #" ++ alignLeft 3 (toString position) ++ " " ++ name ++ " " ++ "eff" ++ " " ++
    toString effective
  row.Shows number text [position] ∧
    Parts text.toList (List.map String.toList
      ["#" ++ toString position, name, "eff", toString effective])

/-- The line above the waiters of a queue. -/
def ShowsQueue (title : Delivery) (number : Nat) (queue : QueueHandle) (holder : Option TaskId)
    (donation : Priority) (transfers : Bool) : Prop :=
  let name := "Q" ++ toString queue.slot ++ "." ++ toString queue.generation
  let state := holder.elim "free" fun task => "held by T" ++ toString task.val
  title.Shows number ("=== " ++ name ++ " " ++ state ++ " (donation " ++ toString donation ++
    ", transfers " ++ toString transfers ++ ") ===") [queue.slot]

end Delivery

namespace Event

variable {event : Event} {number : Nat} {text : String} {counts : List Nat}

/-- The line of an event. -/
def delivery (event : Event) (number : Nat) : Delivery := ⟨event.level, event.record.line number⟩

theorem line_delivery (event : Event) (number : Nat) :
    (event.delivery number).line = .ofList (fitting Line.capacity
      (String.join (Record.heading event.level number) ++ event.message).toList) := by
  have hpieces : String.join event.record.pieces = event.message := by
    rw [record, String.join_cons, String.join_nil, String.append_empty]
  have hlevel : event.record.level = event.level := rfl
  have hline := event.record.line_eq number
  rw [hlevel, hpieces] at hline
  rw [delivery, hline]

theorem shows_text (level : event.level = .info) (message : event.message = text)
    (short : (∀ n ∈ counts, n < UInt64.size) → text.utf8ByteSize ≤ 400) :
    (event.delivery number).Shows number text counts := by
  have hinfo : alignLeft 5 Level.info.name = "INFO " := by decide
  have hopen : "] [INFO ] " = "] [" ++ ("INFO " ++ "] ") := by decide
  have hheading : String.join (Record.heading .info number) ++ text =
      "[" ++ alignRight 6 (toString number) ++ "] [INFO ] " ++ text := by
    rw [Record.join_heading, hinfo, hopen]
    simp only [String.append_assoc]
  have hline := event.line_delivery number
  rw [level, message, hheading] at hline
  unfold Delivery.Shows
  intro whole
  refine ⟨level, ?_, ?_, ?_⟩
  · rw [hline, String.toList_ofList]
    exact fitting_prefix Line.capacity whole.toList
  · intro part hpart hsize
    rw [hline, String.toList_ofList]
    exact prefix_fitting hpart (by rwa [String.ofList_toList])
  · intro few
    obtain ⟨hnumber, hcounts⟩ := List.forall_mem_cons.mp few
    have hsequence := utf8ByteSize_sequence_le hnumber
    have htext := short hcounts
    have hbracket : "[".utf8ByteSize = 1 := by decide
    have hlevel : "] [INFO ] ".utf8ByteSize = 10 := by decide
    have hfits : (String.ofList whole.toList).utf8ByteSize ≤ Line.capacity := by
      simp only [String.ofList_toList, whole, String.utf8ByteSize_append, Line.capacity]
      omega
    rw [hline, fitting_of_fits hfits, String.ofList_toList]

theorem message_taskRow (task : TaskId) (base effective : Priority) (held awaiting : Nat) :
    (taskRow task base effective held awaiting).message =
      "T" ++ toString task.val ++ " " ++ alignLeft 5 (toString base) ++ " " ++
        alignLeft 5 (toString effective) ++ " " ++ alignLeft 5 (toString held) ++ " " ++
        alignLeft 8 (toString awaiting) :=
  rfl

theorem message_waiterRow (position : Nat) (task : TaskId) (effective : Priority) :
    (waiterRow position task effective).message =
      "  #" ++ alignLeft 3 (toString position) ++ " " ++ ("T" ++ toString task.val) ++ " " ++
        "eff" ++ " " ++ toString effective := by
  have hmessage : (waiterRow position task effective).message =
    "  #" ++ alignLeft 3 (toString position) ++
      (" " ++ ("T" ++ toString task.val) ++ " eff " ++ toString effective) := rfl
  have heff : " eff " = " " ++ ("eff" ++ " ") := by decide
  simp only [hmessage, heff, String.append_assoc]

theorem message_queueTitle (queue : QueueHandle) (holder : Option TaskId) (donation : Priority)
    (transfers : Bool) : (queueTitle queue holder donation transfers).message =
      "=== " ++ ("Q" ++ toString queue.slot ++ "." ++ toString queue.generation) ++ " " ++
        (holder.elim "free" fun task => "held by T" ++ toString task.val) ++ " (donation " ++
        toString donation ++ ", transfers " ++ toString transfers ++ ") ===" := by
  cases holder with
  | none =>
    have hmessage : (queueTitle queue none donation transfers).message =
      "=== " ++ ("Q" ++ toString queue.slot ++ "." ++ toString queue.generation) ++
        " free (donation " ++ toString donation ++ ", transfers " ++ toString transfers ++
        ") ===" := rfl
    have hfree : " free (donation " = " " ++ ("free" ++ " (donation ") := by decide
    simp only [hmessage, hfree, String.append_assoc, Option.elim_none]
  | some task =>
    have hmessage : (queueTitle queue (some task) donation transfers).message =
      "=== " ++ ("Q" ++ toString queue.slot ++ "." ++ toString queue.generation) ++
        " held by " ++ ("T" ++ toString task.val) ++ " (donation " ++ toString donation ++
        ", transfers " ++ toString transfers ++ ") ===" := rfl
    have hheld : " held by " = " " ++ "held by " := by decide
    have hname : "held by T" = "held by " ++ "T" := by decide
    simp only [hmessage, hheld, hname, String.append_assoc, Option.elim_some]

theorem shows_taskRow (number : Nat) (task : TaskId) (base effective : Priority)
    (held awaiting : Nat) : ((taskRow task base effective held awaiting).delivery number).ShowsTask
      number task base effective held awaiting := by
  unfold Delivery.ShowsTask
  intro name text
  refine ⟨shows_text rfl (message_taskRow task base effective held awaiting) ?_, ?_⟩
  · intro few
    have hname : name.utf8ByteSize ≤ 21 := utf8ByteSize_name_le task
    have hbase := utf8ByteSize_priority_le base
    have heffective := utf8ByteSize_priority_le effective
    have hheld := utf8ByteSize_natural_le (few held (by simp))
    have hawaiting := utf8ByteSize_natural_le (few awaiting (by simp))
    have hbaseColumn := utf8ByteSize_alignLeft_le 5 (toString base)
    have heffectiveColumn := utf8ByteSize_alignLeft_le 5 (toString effective)
    have hheldColumn := utf8ByteSize_alignLeft_le 5 (toString held)
    have hawaitingColumn := utf8ByteSize_alignLeft_le 8 (toString awaiting)
    have hspace : " ".utf8ByteSize = 1 := by decide
    simp only [text, String.utf8ByteSize_append]
    omega
  · have hname := parts_word (isWord_name task)
    have hbase := hname.space (parts_alignLeft 5 (isWord_priority base))
    have heffective := hbase.space (parts_alignLeft 5 (isWord_priority effective))
    have hheld := heffective.space (parts_alignLeft 5 (isWord_natural held))
    exact hheld.space (parts_alignLeft 8 (isWord_natural awaiting))

theorem shows_waiterRow (number position : Nat) (task : TaskId) (effective : Priority) :
    ((waiterRow position task effective).delivery number).ShowsWaiter number position task
      effective := by
  unfold Delivery.ShowsWaiter
  intro name text
  refine ⟨shows_text rfl (message_waiterRow position task effective) ?_, ?_⟩
  · intro few
    have hposition := utf8ByteSize_natural_le (few position (by simp))
    have hcolumn := utf8ByteSize_alignLeft_le 3 (toString position)
    have hname : name.utf8ByteSize ≤ 21 := utf8ByteSize_name_le task
    have heffective := utf8ByteSize_priority_le effective
    have hspace : " ".utf8ByteSize = 1 := by decide
    have hopen : "  #".utf8ByteSize = 3 := by decide
    have heff : "eff".utf8ByteSize = 3 := by decide
    simp only [text, String.utf8ByteSize_append]
    omega
  · have hlast : IsWord ['f'] := ⟨List.cons_ne_nil _ _, List.forall_mem_singleton.mpr (by decide)⟩
    have heff : IsWord "eff".toList := .cons (by decide) (.cons (by decide) hlast)
    have hname := (parts_position position).space (parts_word (isWord_name task))
    exact (hname.space (parts_word heff)).space (parts_word (isWord_priority effective))

theorem shows_queueTitle (number : Nat) (queue : QueueHandle) (holder : Option TaskId)
    (donation : Priority) (transfers : Bool) :
    ((queueTitle queue holder donation transfers).delivery number).ShowsQueue number queue holder
      donation transfers := by
  unfold Delivery.ShowsQueue
  intro name state
  refine shows_text rfl (message_queueTitle queue holder donation transfers) ?_
  intro few
  have hslot := utf8ByteSize_natural_le (few queue.slot (by simp))
  have hgeneration : (toString queue.generation).utf8ByteSize ≤ 20 :=
    utf8ByteSize_natural_le (Nat.lt_trans queue.generation.toNat_lt_size (by decide))
  have hdonation := utf8ByteSize_priority_le donation
  have htransfers : (toString transfers).utf8ByteSize ≤ 5 := by cases transfers <;> decide
  have hstate : state.utf8ByteSize ≤ 29 := by
    cases holder with
    | none => decide
    | some task =>
      have hdigits := utf8ByteSize_identity_le task
      have hheld : "held by T".utf8ByteSize = 9 := by decide
      simp only [state, Option.elim_some, String.utf8ByteSize_append]
      omega
  have hmark : "Q".utf8ByteSize = 1 := by decide
  have hdot : ".".utf8ByteSize = 1 := by decide
  have hspace : " ".utf8ByteSize = 1 := by decide
  have hopen : "=== ".utf8ByteSize = 4 := by decide
  have hmiddle : " (donation ".utf8ByteSize = 11 := by decide
  have hlast : ", transfers ".utf8ByteSize = 12 := by decide
  have hclose : ") ===".utf8ByteSize = 5 := by decide
  simp only [name, String.utf8ByteSize_append]
  omega

/-- The lines of events that are numbered from the first number on. -/
def deliveries (first : Nat) (events : List Event) : List Delivery :=
  (events.zipIdx first).map fun (event, number) => event.delivery number

theorem deliveries_cons (first : Nat) (event : Event) (rest : List Event) :
    deliveries first (event :: rest) = event.delivery first :: deliveries (first + 1) rest :=
  rfl

theorem length_deliveries (first : Nat) (events : List Event) :
    (deliveries first events).length = events.length := by
  rw [deliveries, List.length_map, List.length_zipIdx]

theorem deliveries_zipIdx {ι : Type} (row : ι × Nat → Event) (items : List ι)
    (first start : Nat) : deliveries (first + start) ((items.zipIdx start).map row) =
      (items.zipIdx start).map fun item => (row item).delivery (first + item.2) := by
  induction items generalizing start with
  | nil => rfl
  | cons item rest ih =>
    rw [List.zipIdx_cons, List.map_cons, List.map_cons, deliveries_cons, Nat.add_assoc, ih]

/-- A row is as far behind the first one as its item is behind the first item. -/
theorem deliveries_rows {ι : Type} (row : ι × Nat → Event) (items : List ι) (first : Nat) :
    deliveries first (items.zipIdx.map row) =
      items.zipIdx.map fun item => (row item).delivery (first + item.2) :=
  deliveries_zipIdx row items first 0

end Event

end PriorityDonation
