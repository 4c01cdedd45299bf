import PriorityDonation.Proofs.Caches
import PriorityDonation.Scheduler.Operation

/-!
# Tables row by row

The tables work out all priorities before they report the first row. That makes no difference to a
table which works out one priority at a time and reports the row before it goes on: what is still to
be worked out changes caches and flags only, and no row shows those.
-/

namespace PriorityDonation.Scheduler

open Call

/-- Numbering pairs is pairing what is numbered. -/
theorem map_zipIdx_zip {α β γ : Type} (f : α → β → Nat → γ) (first : List α) (second : List β)
    (start : Nat) : ((first.zip second).zipIdx start).map (fun ((a, b), n) => f a b n) =
      ((first.zipIdx start).zip second).map fun ((a, n), b) => f a b n := by
  induction first generalizing second start with
  | nil => rfl
  | cons a rest ih =>
    cases second with
    | nil => rfl
    | cons b others =>
      simp only [List.zip_cons_cons, List.zipIdx_cons, List.map_cons, ih]

section Rows

variable {ι : Type} (floor : Priority) (slot : ι → Nat) (row : Graph → ι → Priority → Event)

/-- Works out the priority of each item and reports its row before it goes on to the next one. -/
def reportRows : List ι → Call Unit
  | [] => pure ()
  | item :: rest => do
      let effective ← onGraph (Graph.evaluate floor (.task (slot item)))
      let event ← inspect fun s => row s.graph item effective
      report [event]
      reportRows rest

/-- Works out all priorities and lists the rows that follow some first events. -/
def reportAfter (events : List Event) (items : List ι) : Call Unit := do
  let effective ← onGraph (Graph.evaluateAll floor (items.map fun item => .task (slot item)))
  let rows ← inspect fun s => (items.zip effective).map fun (item, priority) =>
    row s.graph item priority
  report (events ++ rows)

theorem reportAfter_eq (events : List Event) (items : List ι) (s : Scheduler) :
    reportAfter floor slot row events items s =
      let all := Graph.evaluateAll floor (items.map fun item => .task (slot item)) s.graph
      { result := .ok (), scheduler := { s with graph := all.2 },
        events := events ++
          (items.zip all.1).map fun (item, priority) => row all.2 item priority } :=
  rfl

/-- Rows that are reported one by one are those that are listed at the end. -/
theorem report_reportRows (hrow : ∀ g h : Graph, g.SameTies h → row h = row g)
    (events : List Event) (items : List ι) :
    (do report events; reportRows floor slot row items) =
      reportAfter floor slot row events items := by
  induction items generalizing events with
  | nil =>
    funext s
    rw [reportAfter_eq]
    rfl
  | cons item rest ih =>
    funext s
    let first := Graph.evaluate floor (.task (slot item)) s.graph
    let event := row first.2 item first.1
    let outcome := (do report [event]; reportRows floor slot row rest : Call Unit)
      { s with graph := first.2 }
    have hsteps : (do report events; reportRows floor slot row (item :: rest) : Call Unit) s =
        ⟨outcome.result, outcome.scheduler, events ++ outcome.events⟩ := rfl
    have houtcome : outcome = _ := (congrFun (ih [event]) { s with graph := first.2 }).trans
      (reportAfter_eq floor slot row [event] rest _)
    have hlater := Graph.sameTies_evaluateAll floor (rest.map fun item => .task (slot item)) first.2
    rw [hsteps, houtcome, reportAfter_eq, List.map_cons, Graph.evaluateAll_cons]
    simp only [event, first, hrow _ _ hlater, List.zip_cons_cons, List.map_cons,
      List.singleton_append]

end Rows

/-- The row of a task. -/
def taskRowOf (g : Graph) (t : Nat) (effective : Priority) : Event :=
  .taskRow (g.task t).id (g.task t).base effective (g.task t).held.length
    (g.task t).awaiting.length

/-- The row of a waiter at some position. -/
def waiterRowOf (g : Graph) (item : Nat × Nat) (effective : Priority) : Event :=
  .waiterRow item.2 (g.task item.1).id effective

theorem listTasks_by_rows : listTasks = (do
    requireDisabled .listTasks
    let floor ← inspect (·.bounds.lowest)
    let slots ← inspect (·.graph.index.values)
    report [.taskTableTitle, .taskTableColumns]
    reportRows floor (fun t => t) taskRowOf slots) := by
  have hrow (g h : Graph) (ties : g.SameTies h) : taskRowOf h = taskRowOf g := by
    funext t effective
    simp only [taskRowOf, ties.id, ties.base, ties.held, ties.awaiting]
  simp only [report_reportRows _ _ taskRowOf hrow]
  rfl

theorem dumpQueue_by_rows (queue : QueueHandle) : dumpQueue queue = (do
    let slot ← enterQueue .dumpQueue queue
    let floor ← inspect (·.bounds.lowest)
    let donation ← onGraph (Graph.evaluate floor (.queue slot))
    let holder ← inspect (·.holderOf slot)
    let transfers ← inspect fun s => (s.graph.queue slot).transfers
    let waiters ← inspect fun s => (s.graph.queue slot).waiters
    report [.queueTitle queue holder donation transfers]
    reportRows floor Prod.fst waiterRowOf waiters.zipIdx) := by
  have hrow (g h : Graph) (ties : g.SameTies h) : waiterRowOf h = waiterRowOf g := by
    funext item effective
    simp only [waiterRowOf, ties.id]
  have hnodes (waiters : List Nat) :
      (waiters.zipIdx.map fun item => Node.task item.1) = waiters.map .task := by
    rw [← Function.comp_def, ← List.map_map, List.zipIdx_map_fst]
  have hrows (g : Graph) (waiters : List Nat) (effective : List Priority) :
      ((waiters.zip effective).zipIdx.map fun x => .waiterRow x.2 (g.task x.1.1).id x.1.2) =
        (waiters.zipIdx.zip effective).map fun x => waiterRowOf g x.1 x.2 :=
    map_zipIdx_zip (fun t priority position => waiterRowOf g (t, position) priority) _ _ 0
  simp only [report_reportRows _ _ waiterRowOf hrow, reportAfter, hnodes, dumpQueue, hrows]
  rfl

end PriorityDonation.Scheduler
