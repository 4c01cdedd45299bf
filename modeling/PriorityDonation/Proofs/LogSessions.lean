import Mathlib.Data.List.Nodup
import PriorityDonation.Log.Logger
import PriorityDonation.Text.Decimal

/-!
# From the call to the sink

A sink is foreign code. While it is being handed a line it may log, and it may change the threshold
or put another sink in its own place. A session lists what is done to a logger, and says of each
record what is done while the sink has its line. Whatever the session is, the records that pass the
threshold are numbered in the order of the calls, those that find a sink are handed over in the
order of their numbers, and the numbers that are missing on the lines belong to the records that
were dropped.
-/

namespace PriorityDonation

theorem utf8ByteSize_ofList_le (cs : List Char) :
    (String.ofList cs).utf8ByteSize ≤ 4 * cs.length := by
  induction cs with
  | nil => exact Nat.le_refl 0
  | cons c cs ih =>
    have := c.utf8Size_le_four
    rw [String.ofList_cons, String.utf8ByteSize_append, String.utf8ByteSize_singleton,
      List.length_cons]
    omega

namespace Line

theorem write_of_fits {text piece : String}
    (hfits : text.utf8ByteSize + piece.utf8ByteSize ≤ capacity) :
    write ⟨text, false⟩ piece = ⟨text ++ piece, false⟩ := by
  have hroom : piece.utf8ByteSize ≤ room ⟨text, false⟩ := by
    change piece.utf8ByteSize ≤ capacity - text.utf8ByteSize
    omega
  rw [write, if_neg (by simp), if_pos hroom]

theorem write_extends (line : Line) (piece : String) :
    line.text.toList <+: (line.write piece).text.toList := by
  unfold write
  split
  · exact List.prefix_refl _
  · split <;> simp

theorem foldl_write_extends (line : Line) (pieces : List String) :
    line.text.toList <+: (pieces.foldl write line).text.toList := by
  induction pieces generalizing line with
  | nil => exact List.prefix_refl _
  | cons piece rest ih => exact (line.write_extends piece).trans (ih _)

end Line

theorem alignRight_sequence (sequence : Nat) : Text.alignRight 6 (toString sequence) =
    String.ofList ((Nat.toDigits 10 sequence).leftpad 6 ' ') := by
  simp [Text.alignRight, Nat.repr_eq_ofList_toDigits]

theorem length_toDigits_le {n : Nat} (few : n < UInt64.size) : (Nat.toDigits 10 n).length ≤ 20 :=
  (Nat.length_toDigits_le_iff (by decide) (by decide)).mpr (Nat.lt_trans few (by decide))

theorem utf8ByteSize_sequence_le {sequence : Nat} (few : sequence < UInt64.size) :
    (Text.alignRight 6 (toString sequence)).utf8ByteSize ≤ 80 := by
  have hlength := length_toDigits_le few
  rw [alignRight_sequence]
  refine Nat.le_trans (utf8ByteSize_ofList_le _) ?_
  rw [List.length_leftpad]
  omega

/-- A line begins with its number, if that is short enough. -/
theorem Record.line_number (record : Record) {sequence : Nat} (few : sequence < UInt64.size) :
    ∃ rest, (record.line sequence).toList =
      '[' :: (List.replicate (6 - (Nat.toDigits 10 sequence).length) ' ' ++
        (Nat.toDigits 10 sequence ++ ']' :: rest)) := by
  have hcolumn := alignRight_sequence sequence
  have hsize := utf8ByteSize_sequence_le few
  have hpieces : heading record.level sequence ++ record.pieces =
      ["[", Text.alignRight 6 (toString sequence), "] ["] ++
        (Text.alignLeft 5 record.level.name :: "] " :: record.pieces) := rfl
  have hheading : ["[", Text.alignRight 6 (toString sequence), "] ["].foldl Line.write ⟨"", false⟩ =
      ⟨"" ++ "[" ++ Text.alignRight 6 (toString sequence) ++ "] [", false⟩ := by
    have hbracket : "[".utf8ByteSize = 1 := by decide
    have hparting : "] [".utf8ByteSize = 3 := by decide
    simp only [List.foldl_cons, List.foldl_nil]
    rw [Line.write_of_fits, Line.write_of_fits, Line.write_of_fits]
    all_goals
      simp only [String.utf8ByteSize_append, String.utf8ByteSize_empty, hbracket, hparting,
        Line.capacity]
      omega
  obtain ⟨rest, hrest⟩ := Line.foldl_write_extends
    ⟨"" ++ "[" ++ Text.alignRight 6 (toString sequence) ++ "] [", false⟩
    (Text.alignLeft 5 record.level.name :: "] " :: record.pieces)
  refine ⟨" [".toList ++ rest, ?_⟩
  rw [line, Line.ofPieces, hpieces, List.foldl_append, hheading, ← hrest, hcolumn]
  simp [List.leftpad]

/-- The sequence number that a line begins with. -/
def Delivery.number? (delivery : Delivery) : Option Nat :=
  Text.natural? (((delivery.line.toList.drop 1).dropWhile (· = ' ')).takeWhile Char.isDigit)

theorem number?_line (record : Record) {sequence : Nat} (few : sequence < UInt64.size) :
    (Delivery.mk record.level (record.line sequence)).number? = some sequence := by
  obtain ⟨rest, hline⟩ := record.line_number few
  have hdigits : ∀ c ∈ Nat.toDigits 10 sequence, c.isDigit = true := fun c hc =>
    Nat.isDigit_of_mem_toDigits (by decide) (by decide) hc
  have hblanks : ((record.line sequence).toList.drop 1).dropWhile (· = ' ') =
      Nat.toDigits 10 sequence ++ ']' :: rest := by
    rw [hline, List.drop_succ_cons, List.drop_zero,
      List.dropWhile_append_of_pos fun c hc => by simp [List.eq_of_mem_replicate hc]]
    cases hnumeral : Nat.toDigits 10 sequence with
    | nil => exact absurd hnumeral Nat.toDigits_ne_nil
    | cons first others =>
      have hfirst : first ≠ ' ' := by
        rintro rfl
        exact absurd (hdigits ' ' (hnumeral ▸ List.mem_cons_self)) (by decide)
      simp [hfirst]
  have htaken : (Nat.toDigits 10 sequence ++ ']' :: rest).takeWhile Char.isDigit =
      Nat.toDigits 10 sequence := by
    rw [List.takeWhile_append_of_pos hdigits]
    simp [show ']'.isDigit = false from rfl]
  rw [Delivery.number?, hblanks, htaken, Text.natural?, if_neg, Nat.ofDigitChars_ten_toDigits]
  simpa [Nat.toDigits_ne_nil] using hdigits

/-- What is done to a logger, one thing after the other. With each record stands what is done while
the sink has its line, given what the sink answers. -/
inductive LogSession
  | done
  | setThreshold (level : Level) (rest : LogSession)
  | setSink (sink : Sink) (rest : LogSession)
  | clearSink (rest : LogSession)
  | log (record : Record) (meanwhile : List Record → LogSession) (rest : LogSession)

/-- A call to log: the record, and the logger as the call found it. -/
structure LogCall where
  record : Record
  logger : Logger

namespace LogCall

/-- Whether the record was at or below the threshold. -/
def passes (call : LogCall) : Bool := call.logger.admits call.record.level

/-- Whether a sink was installed. -/
def heard (call : LogCall) : Bool := call.logger.sink.isSome

/-- How many records had passed before. -/
def number (call : LogCall) : Nat := call.logger.emitted

/-- The record as the line of its number. -/
def delivery (call : LogCall) : Delivery := ⟨call.record.level, call.record.line call.number⟩

theorem number?_delivery (call : LogCall) (few : call.number < UInt64.size) :
    call.delivery.number? = some call.number :=
  number?_line call.record few

end LogCall

/-- Logs one record. Says what is done while the sink has its line, given what the sink answers. -/
def Logger.takeMeanwhile (record : Record)
    (meanwhile : List Record → StateM Logger (List Delivery)) : StateM Logger (List Delivery) :=
  fun logger => if logger.admits record.level then accept meanwhile record logger else ([], logger)

namespace Logger

variable {logger : Logger} {record : Record}
  {meanwhile : List Record → StateM Logger (List Delivery)}

theorem takeMeanwhile_of_filtered (h : logger.admits record.level = false) :
    takeMeanwhile record meanwhile logger = ([], logger) := by
  simp [takeMeanwhile, h]

theorem takeMeanwhile_of_unheard (h : logger.admits record.level = true)
    (hsink : logger.sink = none) : takeMeanwhile record meanwhile logger =
      ([], { logger with emitted := logger.emitted + 1, dropped := logger.dropped + 1 }) := by
  obtain ⟨threshold, sink, emitted, dropped⟩ := logger
  obtain rfl : sink = none := hsink
  exact if_pos h

theorem takeMeanwhile_of_heard (h : logger.admits record.level = true) {sink : Sink}
    (hsink : logger.sink = some sink) : takeMeanwhile record meanwhile logger =
      let nested := meanwhile (sink.answer record.level (record.line logger.emitted))
        { logger with emitted := logger.emitted + 1 }
      (⟨record.level, record.line logger.emitted⟩ :: nested.1, nested.2) := by
  obtain ⟨threshold, installed, emitted, dropped⟩ := logger
  obtain rfl : installed = some sink := hsink
  exact if_pos h

end Logger

namespace LogSession

/-- What reaches the sinks, in the order in which the deliveries begin. -/
def run : LogSession → StateM Logger (List Delivery)
  | done, logger => ([], logger)
  | setThreshold level rest, logger => rest.run { logger with threshold := level }
  | setSink sink rest, logger => rest.run { logger with sink := some sink }
  | clearSink rest, logger => rest.run { logger with sink := none }
  | log record meanwhile rest, logger =>
      let taken := Logger.takeMeanwhile record (fun answer => (meanwhile answer).run) logger
      let later := rest.run taken.2
      (taken.1 ++ later.1, later.2)

/-- The calls to log, in the order in which they begin. -/
def calls : LogSession → Logger → List LogCall
  | done, _ => []
  | setThreshold level rest, logger => rest.calls { logger with threshold := level }
  | setSink sink rest, logger => rest.calls { logger with sink := some sink }
  | clearSink rest, logger => rest.calls { logger with sink := none }
  | log record meanwhile rest, logger =>
      let taken := Logger.takeMeanwhile record (fun answer => (meanwhile answer).run) logger
      let nested := match logger.sink with
        | none => []
        | some sink =>
            if logger.admits record.level then
              (meanwhile (sink.answer record.level (record.line logger.emitted))).calls
                { logger with emitted := logger.emitted + 1 }
            else []
      ⟨record, logger⟩ :: (nested ++ rest.calls taken.2)

end LogSession

/-- The second logger is the first one after these calls, which led to these deliveries. -/
structure Logger.Accounts (logger : Logger) (calls : List LogCall) (delivered : List Delivery)
    (logger' : Logger) : Prop where
  emitted : logger'.emitted = logger.emitted + calls.countP LogCall.passes
  dropped : logger'.dropped =
    logger.dropped + (calls.filter LogCall.passes).countP fun call => !call.heard
  numbers : (calls.filter LogCall.passes).map LogCall.number =
    List.range' logger.emitted (calls.countP LogCall.passes)
  delivered : delivered =
    ((calls.filter LogCall.passes).filter LogCall.heard).map LogCall.delivery

namespace Logger

variable {logger logger' logger'' : Logger} {record : Record}

namespace Accounts

/-- Only the counts of the first logger matter. -/
theorem of_counts {calls : List LogCall} {delivered : List Delivery}
    (a : logger'.Accounts calls delivered logger'') (emitted : logger'.emitted = logger.emitted)
    (dropped : logger'.dropped = logger.dropped) : logger.Accounts calls delivered logger'' :=
  ⟨emitted ▸ a.emitted, dropped ▸ a.dropped, emitted ▸ a.numbers, a.delivered⟩

theorem append {calls calls' : List LogCall} {delivered delivered' : List Delivery}
    (a : logger.Accounts calls delivered logger')
    (b : logger'.Accounts calls' delivered' logger'') :
    logger.Accounts (calls ++ calls') (delivered ++ delivered') logger'' where
  emitted := by
    rw [b.emitted, a.emitted, List.countP_append]
    omega
  dropped := by
    rw [b.dropped, a.dropped, List.filter_append, List.countP_append]
    omega
  numbers := by
    rw [List.filter_append, List.map_append, a.numbers, b.numbers, a.emitted, List.countP_append]
    simp
  delivered := by rw [a.delivered, b.delivered, List.filter_append, List.filter_append,
    List.map_append]

theorem filtered (h : logger.admits record.level = false) :
    logger.Accounts [⟨record, logger⟩] [] logger := by
  constructor <;> simp [LogCall.passes, h]

theorem unheard (h : logger.admits record.level = true) (hsink : logger.sink = none) :
    logger.Accounts [⟨record, logger⟩] []
      { logger with emitted := logger.emitted + 1, dropped := logger.dropped + 1 } := by
  constructor <;> simp [LogCall.passes, LogCall.heard, LogCall.number, h, hsink]

theorem numbered (h : logger.admits record.level = true) {sink : Sink}
    (hsink : logger.sink = some sink) :
    logger.Accounts [⟨record, logger⟩] [⟨record.level, record.line logger.emitted⟩]
      { logger with emitted := logger.emitted + 1 } := by
  constructor <;> simp [LogCall.passes, LogCall.heard, LogCall.number, LogCall.delivery, h, hsink]

section Numbers

variable {calls : List LogCall} {delivered : List Delivery}
  (a : logger.Accounts calls delivered logger')
include a

theorem emitted_eq : logger'.emitted + logger.dropped =
    logger.emitted + delivered.length + logger'.dropped := by
  have hsplit := List.length_eq_length_filter_add (l := calls.filter LogCall.passes) LogCall.heard
  rw [a.emitted, a.dropped, a.delivered, List.length_map, List.countP_eq_length_filter,
    List.countP_eq_length_filter, hsplit]
  omega

theorem ascending : ((calls.filter LogCall.passes).map LogCall.number).Pairwise (· < ·) :=
  a.numbers ▸ List.pairwise_lt_range'

theorem mem_numbers {number : Nat} : number ∈ (calls.filter LogCall.passes).map LogCall.number ↔
    logger.emitted ≤ number ∧ number < logger'.emitted := by
  rw [a.numbers, List.mem_range'_1, a.emitted]

/-- The numbers that no line has are those of the dropped records. -/
theorem mem_missing (number : Nat) :
    number ∈ ((calls.filter LogCall.passes).filter fun call => !call.heard).map LogCall.number ↔
      (logger.emitted ≤ number ∧ number < logger'.emitted) ∧
        number ∉ ((calls.filter LogCall.passes).filter LogCall.heard).map LogCall.number := by
  rw [← a.mem_numbers]
  constructor
  · intro hunheard
    obtain ⟨call, hcall, rfl⟩ := List.mem_map.mp hunheard
    obtain ⟨hpassed, hsilent⟩ := List.mem_filter.mp hcall
    refine ⟨List.mem_map_of_mem hpassed, fun hheard => ?_⟩
    obtain ⟨other, hother, heq⟩ := List.mem_map.mp hheard
    obtain ⟨hpassed', hheard'⟩ := List.mem_filter.mp hother
    -- Two calls of one number are one call.
    obtain rfl := List.inj_on_of_nodup_map a.ascending.nodup hpassed' hpassed heq
    simp [hheard'] at hsilent
  · rintro ⟨hpassed, hnot⟩
    obtain ⟨call, hcall, rfl⟩ := List.mem_map.mp hpassed
    refine List.mem_map_of_mem (List.mem_filter.mpr ⟨hcall, ?_⟩)
    by_contra hheard
    exact hnot (List.mem_map_of_mem (List.mem_filter.mpr ⟨hcall, by simpa using hheard⟩))

theorem numbers_on_lines (few : logger'.emitted < UInt64.size) : delivered.map Delivery.number? =
    ((calls.filter LogCall.passes).filter LogCall.heard).map fun call => some call.number := by
  rw [a.delivered, List.map_map]
  refine List.map_congr_left fun call hcall => ?_
  have hlt := (a.mem_numbers.mp (List.mem_map_of_mem (List.mem_filter.mp hcall).1)).2
  exact call.number?_delivery (Nat.lt_trans hlt few)

end Numbers

end Accounts

end Logger

open Logger in
theorem LogSession.accounts (session : LogSession) (logger : Logger) :
    logger.Accounts (session.calls logger) (session.run logger).1 (session.run logger).2 := by
  induction session generalizing logger with
  | done => constructor <;> simp [calls, run]
  | setThreshold level rest ih => exact (ih _).of_counts rfl rfl
  | setSink sink rest ih => exact (ih _).of_counts rfl rfl
  | clearSink rest ih => exact (ih _).of_counts rfl rfl
  | log record meanwhile rest ihMeanwhile ih =>
    obtain ⟨threshold, sink, emitted, dropped⟩ := logger
    simp only [calls, run]
    cases hadmits : admits ⟨threshold, sink, emitted, dropped⟩ record.level with
    | false =>
      rw [takeMeanwhile_of_filtered hadmits]
      cases sink <;> exact (Accounts.filtered hadmits).append (ih _)
    | true =>
      cases sink with
      | none =>
        rw [takeMeanwhile_of_unheard hadmits rfl]
        exact (Accounts.unheard hadmits rfl).append (ih _)
      | some sink =>
        rw [takeMeanwhile_of_heard hadmits rfl]
        -- The record has its number before the sink does anything.
        exact (Accounts.numbered hadmits rfl).append ((ihMeanwhile _ _).append (ih _))

namespace LogSession

/-- Logs records whose deliveries are answered in turn, `depth` deep. -/
def answering : Nat → List Record → LogSession
  | 0, _ => done
  | depth + 1, records => records.foldr (fun record rest => log record (answering depth) rest) done

theorem run_log (record : Record) (meanwhile : List Record → LogSession) (rest : LogSession) :
    (log record meanwhile rest).run = do
      let delivered ← (log record meanwhile done).run
      let later ← rest.run
      return delivered ++ later := by
  funext logger
  simp only [run, List.append_nil]
  rfl

theorem run_answering_cons (depth : Nat) (record : Record) (records : List Record) :
    (answering (depth + 1) (record :: records)).run = do
      let delivered ← (log record (answering depth) done).run
      let later ← (answering (depth + 1) records).run
      return delivered ++ later :=
  run_log record (answering depth) _

/-- What the logger does with a sink that answers is a session. -/
theorem takeWithin_eq_run (depth : Nat) (record : Record) :
    Logger.takeWithin depth record = (log record (answering depth) done).run := by
  induction depth generalizing record with
  | zero =>
    funext logger
    simp only [run, List.append_nil]
    rfl
  | succ depth ih =>
    have hrecords (records : List Record) :
        List.flatten <$> records.mapM (Logger.takeWithin depth) =
          (answering (depth + 1) records).run := by
      induction records with
      | nil => rfl
      | cons record rest hrest =>
        rw [run_answering_cons, ← ih, ← hrest]
        simp [List.mapM_cons]
    funext logger
    simp only [run, List.append_nil, ← hrecords]
    rfl

end LogSession

/-- A record above the threshold leaves the logger as it is and reaches nobody. -/
theorem LogSession.log_filtered (record : Record) (meanwhile : List Record → LogSession)
    (rest : LogSession) (logger : Logger) (h : logger.admits record.level = false) :
    (log record meanwhile rest).run logger = rest.run logger ∧
      (log record meanwhile rest).calls logger = ⟨record, logger⟩ :: rest.calls logger := by
  simp only [run, calls, Logger.takeMeanwhile_of_filtered h, h]
  cases logger.sink <;> exact ⟨rfl, rfl⟩

/-- Whatever is done to a logger, and whatever sinks do while they have a line: each record that
passes the threshold gets the next number and reaches the sink or is dropped, and the lines come in
the order of their numbers. -/
theorem records_accounted (session : LogSession) :
    let passed := (session.calls {}).filter LogCall.passes
    let heard := passed.filter LogCall.heard
    let unheard := passed.filter fun call => !call.heard
    let delivered := (session.run {}).1
    let logger := (session.run {}).2
    logger.emitted = passed.length ∧ logger.emitted = delivered.length + logger.dropped ∧
      passed.map LogCall.number = List.range passed.length ∧
      delivered = heard.map LogCall.delivery ∧ logger.dropped = unheard.length ∧
      (heard.map LogCall.number).Pairwise (· < ·) ∧
      (logger.emitted < UInt64.size →
        delivered.map Delivery.number? = heard.map fun call => some call.number) ∧
      (∀ number, number ∈ unheard.map LogCall.number ↔
        number < logger.emitted ∧ number ∉ heard.map LogCall.number) ∧
      (∀ (record : Record) (meanwhile : List Record → LogSession) (rest : LogSession)
        (logger : Logger), logger.admits record.level = false →
        (LogSession.log record meanwhile rest).run logger = rest.run logger ∧
          (LogSession.log record meanwhile rest).calls logger =
            ⟨record, logger⟩ :: rest.calls logger) ∧
      ∀ (record : Record) (logger : Logger), Logger.take record logger =
        (LogSession.log record (.answering (logger.sink.elim 0 Sink.depth)) .done).run logger := by
  intro passed heard unheard delivered logger
  have a := session.accounts {}
  have hemitted : logger.emitted = passed.length := by
    rw [← List.countP_eq_length_filter]
    exact a.emitted.trans (Nat.zero_add _)
  have hdropped : logger.dropped = unheard.length := by
    rw [← List.countP_eq_length_filter]
    exact a.dropped.trans (Nat.zero_add _)
  have hbalance : logger.emitted = delivered.length + logger.dropped := by
    simpa using a.emitted_eq
  have hnumbers : passed.map LogCall.number = List.range passed.length := by
    rw [List.range_eq_range', ← List.countP_eq_length_filter]
    exact a.numbers
  have hascending : (heard.map LogCall.number).Pairwise (· < ·) :=
    a.ascending.sublist (List.filter_sublist.map _)
  have hmissing (number : Nat) : number ∈ unheard.map LogCall.number ↔
      number < logger.emitted ∧ number ∉ heard.map LogCall.number :=
    (a.mem_missing number).trans (and_congr_left' (and_iff_right (Nat.zero_le number)))
  exact ⟨hemitted, hbalance, hnumbers, a.delivered, hdropped, hascending, a.numbers_on_lines,
    hmissing, LogSession.log_filtered,
    fun record logger => congrFun (LogSession.takeWithin_eq_run _ record) logger⟩

/-- The first sink logs while it has a line, is taken away meanwhile, and logs once more. The second
one answers each line. -/
def interruptedSession : LogSession :=
  .log ⟨.info, ["early"]⟩ (fun _ => .done) <|
    .setSink .listener <|
      .log ⟨.warn, ["outer"]⟩
          (fun _ => .log ⟨.error, ["inner"]⟩ (fun _ => .done) <| .clearSink <|
            .log ⟨.info, ["lost"]⟩ (fun _ => .done) .done) <|
        .setSink { answer := fun level _ => [⟨level, ["again"]⟩] } <|
          .log ⟨.debug, ["filtered"]⟩ (.answering 1) <|
            .log ⟨.panic, ["late"]⟩ (.answering 1) .done

theorem records_accounted_interruptedSession :
    let delivered := (interruptedSession.run {}).1
    let logger := (interruptedSession.run {}).2
    logger.emitted = 6 ∧ delivered.length + logger.dropped = 6 ∧
      delivered.map Delivery.number? = [some 1, some 2, some 4, some 5] := by
  intro delivered logger
  obtain ⟨-, hsum, -, -, -, -, hnumbers, -⟩ := records_accounted interruptedSession
  have hemitted : logger.emitted = 6 := by decide +kernel
  have hheard : (((interruptedSession.calls {}).filter LogCall.passes).filter LogCall.heard).map
      (fun call => some call.number) = [some 1, some 2, some 4, some 5] := by decide +kernel
  have few : logger.emitted < UInt64.size := by
    rw [hemitted]
    decide
  exact ⟨hemitted, hsum.symm.trans hemitted, (hnumbers few).trans hheard⟩

end PriorityDonation
