import PriorityDonation.LoggedScheduler
import PriorityDonation.Proofs.Ledger
import PriorityDonation.Proofs.LogSessions
import PriorityDonation.Proofs.TableRows

/-!
# Logging in place

A scheduler with a logger hands over the events of a call when the call is over. Here calls are made
step by step with the logging in place: in the middle of an operation, after one step has been taken
and before the next one, an event goes to the logger, and a sink may do to the logger what it likes.
No step but a report touches the logger, and a report touches nothing else, so a scheduler answers
and changes as it does without a logger. To log afterwards comes to the same as to log in place.
-/

namespace PriorityDonation

/-- A call put together from the primitive ones. -/
inductive Call.Composed : {α : Type} → Call α → Prop
  | pure {α : Type} (a : α) : Composed (pure a)
  | bind {α β : Type} {call : Call α} {next : α → Call β} :
      Composed call → (∀ a, Composed (next a)) → Composed (call >>= next)
  | inspect {α : Type} (f : Scheduler → α) : Composed (inspect f)
  | onGraph {α : Type} (f : StateM Graph α) : Composed (onGraph f)
  | onInterrupts {α : Type} (f : InterruptFlag → α × InterruptFlag) : Composed (onInterrupts f)
  | report (events : List Event) : Composed (report events)
  | refuse {α : Type} (fault : Fault) (events : List Event) :
      Composed (refuse fault events : Call α)
  | lastly {α β : Type} {call : Call α} {last : Option α → Call β} :
      Composed call → (∀ a, Composed (last a)) → Composed (tryFinally' call last)

namespace Call.Composed

variable {α β : Type} {call : Call α}

theorem map (f : α → β) (h : Composed call) : Composed (f <$> call) := by
  rw [map_eq_pure_bind]
  exact h.bind fun _ => .pure _

theorem ite {p : Prop} [Decidable p] {call' : Call α} (h : Composed call)
    (h' : Composed call') : Composed (if p then call else call') := by
  split
  · exact h
  · exact h'

theorem updateGraph (f : Graph → Graph) : Composed (updateGraph f) := .onGraph _

theorem withoutInterrupts (h : Composed call) :
    Composed (withoutInterrupts interruptControl call) :=
  .bind (.onInterrupts InterruptFlag.disable) fun wereEnabled =>
    (h.lastly fun _ => .onInterrupts fun flag => ((), flag.restore wereEnabled)).map Prod.fst

end Call.Composed

namespace Scheduler

open Call

theorem composed_requireDisabled (call : GuardedCall) : Composed (requireDisabled call) :=
  .bind (.inspect _) fun _ => .ite (.pure _) (.refuse _ _)

theorem composed_enterQueue (call : GuardedCall) (queue : QueueHandle) :
    Composed (enterQueue call queue) :=
  .bind (composed_requireDisabled call) fun _ => .bind (.inspect _) fun
    | some slot => .pure slot
    | none => .refuse _ _

theorem composed_attach (task : TaskId) : Composed (attach task) :=
  .bind (.inspect _) fun _ => .bind (.inspect _) fun
    | some slot => .pure slot
    | none => .bind (.onGraph _) fun _ => .bind (.report _) fun _ => .pure _

theorem composed_adjustPriority (task : TaskId) (delta : Priority)
    (room : Bounds → Priority → Bool) : Composed (adjustPriority task delta room) :=
  .withoutInterrupts <| .bind (composed_attach task) fun _ => .bind (.inspect _) fun _ =>
    .bind (.inspect _) fun _ =>
      .ite (.bind (.updateGraph _) fun _ => .bind (.report _) fun _ => .pure _) (.pure _)

theorem composed_reportRows {ι : Type} (floor : Priority) (slot : ι → Nat)
    (row : Graph → ι → Priority → Event) (items : List ι) :
    Composed (reportRows floor slot row items) := by
  induction items with
  | nil => exact .pure ()
  | cons item rest ih =>
    exact .bind (.onGraph _) fun _ => .bind (.inspect _) fun _ => .bind (.report _) fun _ => ih

end Scheduler

open Call Scheduler in
/-- The operations are put together from primitive calls, the tables row by row. -/
theorem Operation.composed (operation : Operation) : Composed operation.perform := by
  cases operation with
  | newWaitQueue transfers =>
    exact .map _ <| .bind (.inspect _) fun _ => .bind (.onGraph _) fun _ =>
      .bind (.report _) fun _ => .pure _
  | destroyWaitQueue queue =>
    exact .map _ <| .bind (composed_enterQueue _ queue) fun _ => .bind (.inspect _) fun _ =>
      .ite (.refuse _ _) (.bind (.updateGraph _) fun _ => .report _)
  | waitForAccess queue task =>
    exact .map _ <| .bind (composed_enterQueue _ queue) fun _ =>
      .bind (composed_attach task) fun _ => .bind (.inspect _) fun _ =>
        .ite (.refuse _ _) (.bind (.updateGraph _) fun _ => .report _)
  | acquire queue task =>
    refine .map _ <| .bind (composed_enterQueue _ queue) fun _ =>
      .bind (composed_attach task) fun _ => .bind (.inspect _) fun previous =>
        .bind (.updateGraph _) fun _ => ?_
    cases previous with
    | none => exact .report _
    | some holder => exact .ite (.report _) (.pure _)
  | nextThread queue =>
    exact .map _ <| .bind (composed_enterQueue _ queue) fun _ => .bind (.inspect _) fun _ =>
      .bind (.onGraph _) fun
        | none => .pure _
        | some t => .bind (.inspect _) fun _ => .bind (.updateGraph _) fun _ =>
            .bind (.inspect _) fun _ => .bind (.report _) fun _ => .pure _
  | peekNext queue =>
    exact .map _ <| .bind (composed_enterQueue _ queue) fun _ => .bind (.inspect _) fun _ =>
      .bind (.onGraph _) fun
        | none => .pure _
        | some t => .inspect _
  | holder queue | waiters queue =>
    exact .map _ <| .bind (composed_enterQueue _ queue) fun _ => .inspect _
  | queuePriority queue =>
    exact .map _ <| .bind (composed_enterQueue _ queue) fun _ => .bind (.inspect _) fun _ =>
      .onGraph _
  | priority task =>
    exact .map _ <| .bind (composed_requireDisabled _) fun _ =>
      .bind (composed_attach task) fun _ => .inspect _
  | effectivePriority task =>
    exact .map _ <| .bind (composed_requireDisabled _) fun _ =>
      .bind (composed_attach task) fun _ => .bind (.inspect _) fun _ => .onGraph _
  | setPriority task base =>
    exact .map _ <| .bind (composed_requireDisabled _) fun _ => .bind (.inspect _) fun _ =>
      .ite (.bind (composed_attach task) fun _ => .bind (.inspect _) fun _ =>
        .bind (.updateGraph _) fun _ => .ite (.report _) (.pure _)) (.refuse _ _)
  | increasePriority task | decreasePriority task =>
    exact .map _ (composed_adjustPriority task _ _)
  | exitTask task =>
    exact .map _ <| .bind (composed_requireDisabled _) fun _ => .bind (.inspect _) fun
      | none => .pure _
      | some t => .bind (.onGraph _) fun _ => .bind (.report _) fun _ => .pure _
  | trackedPriority task =>
    exact .map _ <| .bind (composed_requireDisabled _) fun _ => .bind (.inspect _) fun
      | none => .refuse _ _
      | some t => .inspect _
  | isTracked _ | bounds | statistics | taskCount | queueCount => exact .map _ (.inspect _)
  | resetStatistics => exact .map _ (.updateGraph _)
  | listTasks =>
    rw [Operation.perform, listTasks_by_rows]
    exact .map _ <| .bind (composed_requireDisabled _) fun _ => .bind (.inspect _) fun _ =>
      .bind (.inspect _) fun _ => .bind (.report _) fun _ => composed_reportRows _ _ _ _
  | dumpQueue queue =>
    rw [Operation.perform, dumpQueue_by_rows]
    exact .map _ <| .bind (composed_enterQueue _ queue) fun _ => .bind (.inspect _) fun _ =>
      .bind (.onGraph _) fun _ => .bind (.inspect _) fun _ => .bind (.inspect _) fun _ =>
        .bind (.inspect _) fun _ => .bind (.report _) fun _ => composed_reportRows _ _ _ _

/-- The second logger is what the first one may be after it logged these events, the sinks doing to
it what they like while they have the lines. -/
inductive Logger.Hears : Logger → List Event → Logger → Prop
  | nil {logger : Logger} : Hears logger [] logger
  | cons {logger logger' : Logger} {event : Event} {events : List Event}
      (meanwhile : List Record → LogSession) :
      Hears (takeMeanwhile event.record (fun answer => (meanwhile answer).run) logger).2 events
        logger' →
      Hears logger (event :: events) logger'

namespace LoggedScheduler

/-- A call is made step by step, and what it reports is logged at the moment. -/
inductive Makes : {α : Type} → Call α → LoggedScheduler → Except Fault α → LoggedScheduler → Prop
  | pure {α : Type} {a : α} {logged : LoggedScheduler} : Makes (pure a) logged (.ok a) logged
  | bind {α β : Type} {call : Call α} {next : α → Call β} {before between after : LoggedScheduler}
      {a : α} {result : Except Fault β} : Makes call before (.ok a) between →
      Makes (next a) between result after → Makes (call >>= next) before result after
  | fail {α β : Type} {call : Call α} {next : α → Call β} {before after : LoggedScheduler}
      {fault : Fault} : Makes call before (.error fault) after →
      Makes (call >>= next) before (.error fault) after
  | inspect {α : Type} {f : Scheduler → α} {logged : LoggedScheduler} :
      Makes (.inspect f) logged (.ok (f logged.scheduler)) logged
  | onGraph {α : Type} {f : StateM Graph α} {s : Scheduler} {logger : Logger} :
      Makes (.onGraph f) ⟨s, logger⟩ (.ok (f s.graph).1) ⟨s.withGraph (f s.graph).2, logger⟩
  | onInterrupts {α : Type} {f : InterruptFlag → α × InterruptFlag} {s : Scheduler}
      {logger : Logger} : Makes (.onInterrupts f) ⟨s, logger⟩ (.ok (f s.interrupts).1)
        ⟨{ s with interrupts := (f s.interrupts).2 }, logger⟩
  | report {events : List Event} {s : Scheduler} {logger logger' : Logger} :
      logger.Hears events logger' →
      Makes (.report events) ⟨s, logger⟩ (.ok ()) ⟨s, logger'⟩
  | refuse {α : Type} {fault : Fault} {events : List Event} {s : Scheduler}
      {logger logger' : Logger} : logger.Hears events logger' →
      Makes (.refuse fault events : Call α) ⟨s, logger⟩ (.error fault) ⟨s, logger'⟩
  | lastly {α β : Type} {call : Call α} {last : Option α → Call β}
      {before between after : LoggedScheduler} {a : α} {result : Except Fault β} :
      Makes call before (.ok a) between → Makes (last (some a)) between result after →
      Makes (tryFinally' call last) before (result.map (a, ·)) after
  | failLastly {α β : Type} {call : Call α} {last : Option α → Call β}
      {before between after : LoggedScheduler} {fault : Fault} {result : Except Fault β} :
      Makes call before (.error fault) between → Makes (last none) between result after →
      Makes (tryFinally' call last) before (.error fault) after

/-- Whatever the logger is and the sinks do, the call answers and changes the scheduler as it does
by itself. -/
theorem Makes.effect {α : Type} {call : Call α} {before after : LoggedScheduler}
    {result : Except Fault α} (h : Makes call before result after) :
    call.effect before.scheduler = (result, after.scheduler) := by
  induction h with
  | pure | inspect | onGraph | onInterrupts | report | refuse => rfl
  | bind _ _ ihCall ihNext => rw [Call.effect_bind, ihCall]; exact ihNext
  | fail _ ih => rw [Call.effect_bind, ih]
  | lastly _ _ ihCall ihLast => rw [Call.effect_tryFinally', ihCall]; simp only [ihLast]
  | failLastly _ _ ihCall ihLast => rw [Call.effect_tryFinally', ihCall]; simp only [ihLast]

end LoggedScheduler

namespace Logger

variable {logger : Logger}

/-- The logger after it logged these events to sinks that react like this. -/
def hear (react : Logger → Event → List Record → LogSession) : Logger → List Event → Logger :=
  List.foldl fun logger event =>
    (takeMeanwhile event.record (fun answer => (react logger event answer).run) logger).2

theorem hears_hear (react : Logger → Event → List Record → LogSession) (events : List Event) :
    logger.Hears events (hear react logger events) := by
  induction events generalizing logger with
  | nil => exact .nil
  | cons event rest ih => exact .cons (react logger event) ih

/-- The sinks that answer are among them. -/
theorem takeAll_eq_hear (events : List Event) : (takeAll (events.map Event.record) logger).2 =
    hear (fun logger _ => .answering (logger.sink.elim 0 Sink.depth)) logger events := by
  induction events generalizing logger with
  | nil => rfl
  | cons event rest ih =>
    have hrun := congrFun (LogSession.takeWithin_eq_run (logger.sink.elim 0 Sink.depth)
      event.record) logger
    have htake : (take event.record logger).2 = (takeMeanwhile event.record (fun answer =>
        (LogSession.answering (logger.sink.elim 0 Sink.depth) answer).run) logger).2 := by
      rw [take, hrun]
      rfl
    rw [hear, List.foldl_cons, ← hear, ← ih, ← htake, List.map_cons, takeAll, List.mapM_cons]
    rfl

end Logger

namespace LoggedScheduler

theorem Makes.of_composed {α : Type} {call : Call α} (h : call.Composed)
    (react : Logger → Event → List Record → LogSession) (s : Scheduler) (logger : Logger) :
    Makes call ⟨s, logger⟩ (call.run s).result
      ⟨(call.run s).scheduler, .hear react logger (call.run s).events⟩ := by
  have hear_append (logger : Logger) (events more : List Event) :
      Logger.hear react logger (events ++ more) = .hear react (.hear react logger events) more :=
    List.foldl_append
  induction h generalizing s logger with
  | pure a => exact .pure
  | inspect f => exact .inspect
  | onGraph f => exact .onGraph
  | onInterrupts f => exact .onInterrupts
  | report events => exact .report (Logger.hears_hear react events)
  | refuse fault events => exact .refuse (Logger.hears_hear react events)
  | @bind _ _ call next _ _ ihCall ihNext =>
    have hcall := ihCall s logger
    change Makes _ _ (Call.bind call next s).result
      ⟨(Call.bind call next s).scheduler, .hear react logger (Call.bind call next s).events⟩
    simp only [Call.run, Call.bind] at hcall ⊢
    rcases hrun : call s with ⟨fault | a, between, events⟩
    · rw [hrun] at hcall
      exact .fail hcall
    · rw [hrun] at hcall
      simp only [hear_append]
      exact .bind hcall (ihNext a between (.hear react logger events))
  | @lastly _ _ call last _ _ ihCall ihLast =>
    have hcall := ihCall s logger
    simp only [Call.run, tryFinally'] at hcall ⊢
    rcases hrun : call s with ⟨fault | a, between, events⟩
    · rw [hrun] at hcall
      simp only [hear_append]
      exact .failLastly hcall (ihLast none between (.hear react logger events))
    · rw [hrun] at hcall
      simp only [hear_append]
      exact .lastly hcall (ihLast (some a) between (.hear react logger events))

theorem makes_perform (operation : Operation) (logged : LoggedScheduler) :
    Makes operation.perform logged (perform operation logged).1.1 (perform operation logged).2 := by
  have hmakes := Makes.of_composed operation.composed
    (fun logger _ => .answering (logger.sink.elim 0 Sink.depth)) logged.scheduler logged.logger
  rwa [← Logger.takeAll_eq_hear] at hmakes

end LoggedScheduler

/-- A scheduler is given a command, or something is done to its logger. -/
inductive Happening
  | command (command : Command)
  | logging (session : LogSession)

/-- The commands of a history. -/
def Happening.commands (history : List Happening) : List Command :=
  history.filterMap fun
    | command c => some c
    | logging _ => none

namespace LoggedScheduler

/-- A history with its transcript. All operations log in place. -/
inductive Lives : LoggedScheduler → List Happening → List (Command × Except Fault Reply) →
    LoggedScheduler → Prop
  | nil {logged : LoggedScheduler} : Lives logged [] [] logged
  | perform {operation : Operation} {answer : Except Fault Reply}
      {before between after : LoggedScheduler} {rest : List Happening}
      {transcript : List (Command × Except Fault Reply)} :
      Makes operation.perform before answer between → Lives between rest transcript after →
      Lives before (.command (.perform operation) :: rest)
        ((.perform operation, answer) :: transcript) after
  | setInterrupts {interrupts : InterruptFlag} {s : Scheduler} {logger : Logger}
      {after : LoggedScheduler} {rest : List Happening}
      {transcript : List (Command × Except Fault Reply)} :
      Lives ⟨{ s with interrupts }, logger⟩ rest transcript after →
      Lives ⟨s, logger⟩ (.command (.setInterrupts interrupts) :: rest)
        ((.setInterrupts interrupts, .ok .done) :: transcript) after
  | logging {session : LogSession} {s : Scheduler} {logger : Logger} {after : LoggedScheduler}
      {rest : List Happening} {transcript : List (Command × Except Fault Reply)} :
      Lives ⟨s, (session.run logger).2⟩ rest transcript after →
      Lives ⟨s, logger⟩ (.logging session :: rest) transcript after

/-- A history in which the events of an operation are logged when it is over. -/
def live : LoggedScheduler → List Happening → List (Command × Except Fault Reply) × LoggedScheduler
  | logged, [] => ([], logged)
  | logged, .command (.perform operation) :: rest =>
      let ((answer, _), between) := LoggedScheduler.perform operation logged
      let (transcript, after) := between.live rest
      ((.perform operation, answer) :: transcript, after)
  | logged, .command (.setInterrupts interrupts) :: rest =>
      let (transcript, after) :=
        live { logged with scheduler := { logged.scheduler with interrupts } } rest
      ((.setInterrupts interrupts, .ok .done) :: transcript, after)
  | logged, .logging session :: rest =>
      live { logged with logger := (session.run logged.logger).2 } rest

theorem lives_live (logged : LoggedScheduler) (history : List Happening) :
    logged.Lives history (logged.live history).1 (logged.live history).2 := by
  induction history generalizing logged with
  | nil => exact .nil
  | cons happening rest ih =>
    cases happening with
    | command command =>
      cases command with
      | perform operation =>
        exact .perform (makes_perform operation logged) (ih _)
      | setInterrupts interrupts => exact .setInterrupts (ih _)
    | logging session => exact .logging (ih _)

theorem Lives.alone {before after : LoggedScheduler} {history : List Happening}
    {transcript : List (Command × Except Fault Reply)} (h : before.Lives history transcript after) :
    transcript = before.scheduler.transcript (Happening.commands history) ∧
      after.scheduler = before.scheduler.after (Happening.commands history) := by
  induction h with
  | nil => exact ⟨rfl, rfl⟩
  | @perform operation answer before between after rest transcript made _ ih =>
    have heffect := made.effect
    have hanswer : before.scheduler.answer (.perform operation) = answer :=
      congrArg Prod.fst heffect
    have hnext : before.scheduler.next (.perform operation) = between.scheduler :=
      congrArg Prod.snd heffect
    have hcommands : Happening.commands (.command (.perform operation) :: rest) =
      .perform operation :: Happening.commands rest := rfl
    rw [hcommands, Scheduler.transcript, hanswer, hnext, ← ih.1, ih.2, ← hnext]
    exact ⟨rfl, rfl⟩
  | setInterrupts _ ih =>
    exact ⟨congrArg _ ih.1, ih.2⟩
  | logging _ ih => exact ih

/-- Whatever loggers two schedulers have, whatever is done to the loggers between the commands and
while the commands are carried out: the answers, faults included, are the same, and so are the
schedulers afterwards. -/
theorem logging_leaves_no_trace {first first' second second' : LoggedScheduler}
    {history history' : List Happening}
    {transcript transcript' : List (Command × Except Fault Reply)}
    (equal : second.scheduler = first.scheduler)
    (same : Happening.commands history' = Happening.commands history)
    (h : first.Lives history transcript first') (h' : second.Lives history' transcript' second') :
    transcript' = transcript ∧ second'.scheduler = first'.scheduler ∧
      second'.scheduler.graph.counters = first'.scheduler.graph.counters ∧
      (Happening.commands history = [] → first'.scheduler = first.scheduler) ∧
      transcript = first.scheduler.transcript (Happening.commands history) ∧
      first'.scheduler = first.scheduler.after (Happening.commands history) ∧
      first.Lives history (first.live history).1 (first.live history).2 := by
  obtain ⟨htranscript, hafter⟩ := h.alone
  obtain ⟨htranscript', hafter'⟩ := h'.alone
  rw [equal, same] at htranscript' hafter'
  have hscheduler := hafter'.trans hafter.symm
  refine ⟨htranscript'.trans htranscript.symm, hscheduler, by rw [hscheduler], fun hnone => ?_,
    htranscript, hafter, first.lives_live history⟩
  rw [hafter, hnone]
  rfl

/-- A queue changes hands and the tasks are listed, two calls are refused, and something is done to
the logger in between. -/
def interruptedHistory (session : LogSession) : List Happening :=
  let queue : QueueHandle := ⟨0, 0⟩
  let perform (operation : Operation) : Happening := .command (.perform operation)
  [perform (.newWaitQueue true), perform (.setPriority ⟨2⟩ 6), perform (.acquire queue ⟨1⟩),
    .logging session, perform (.waitForAccess queue ⟨2⟩), perform .listTasks,
    perform (.destroyWaitQueue queue), .logging session, perform (.nextThread queue),
    .command (.setInterrupts ⟨true⟩), perform (.holder queue), perform .statistics]

/-- A logger that lets everything through to a sink that repeats what it hears. -/
def loudLogger : Logger where
  threshold := .trace
  sink := some { answer := fun level _ => [⟨level, ["again"]⟩], depth := 2 }
  emitted := 40
  dropped := 2

/-- The sink is taken away while it has a line, and another one is installed. -/
def loudSession : LogSession :=
  .log ⟨.warn, ["between"]⟩ (fun _ => .clearSink .done) <| .setSink .listener .done

theorem logging_leaves_no_trace_interruptedHistory :
    let start : Scheduler := ⟨.standard, Bounds.standard_valid, ⟨false⟩, {}⟩
    let quiet := live ⟨start, {}⟩ (interruptedHistory .done)
    let loud := live ⟨start, loudLogger⟩ (interruptedHistory loudSession)
    loud.1 = quiet.1 ∧ loud.2.scheduler = quiet.2.scheduler ∧
      (quiet.1.map Prod.snd)[5]? = some (.error (.queueBusy ⟨0, 0⟩)) ∧
      (quiet.1.map Prod.snd)[6]? = some (.ok (.task (some ⟨2⟩))) ∧
      quiet.2.logger.emitted = 6 ∧ loud.2.logger.emitted = 65 := by
  intro start quiet loud
  have hquiet : Lives ⟨start, {}⟩ (interruptedHistory .done) quiet.1 quiet.2 := lives_live _ _
  have hloud : Lives ⟨start, loudLogger⟩ (interruptedHistory loudSession) loud.1 loud.2 :=
    lives_live _ _
  have h := logging_leaves_no_trace (by rfl) (by rfl) hquiet hloud
  exact ⟨h.1, h.2.1, by decide +kernel, by decide +kernel, by decide +kernel, by decide +kernel⟩

end LoggedScheduler

end PriorityDonation
