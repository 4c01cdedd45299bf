import PriorityDonation.Proofs.Histories

/-!
# The ledger of a scheduler

A ledger keeps what the clients of a scheduler agree on and nothing else: the base priority of each
tracked task, and for each live queue its holder and its waiters in order of arrival. Queues are
numbered in the order of their creation, and the numbers are never used twice. There are no slots,
no free lists, no caches and no flags.

A ledger answers the operations itself, apart from what depends on effective priorities and the
statistics. It replays the transcript of a run and takes two things from the answers there: the name
of a new queue, and which of the waiters a queue was granted to.
-/

namespace PriorityDonation

namespace Ledger

/-- What the clients know of a live queue. -/
structure Entry where
  transfers : Bool
  holder : Option TaskId := none
  waiters : List TaskId := []
deriving DecidableEq, Repr

namespace Entry

/-- A task queues up at the end. The holder gives the queue up first. -/
def wait (entry : Entry) (task : TaskId) : Entry :=
  { entry with
    holder := if entry.holder = some task then none else entry.holder
    waiters := entry.waiters ++ [task] }

/-- A task becomes the holder and waits no longer. The others keep their places. -/
def grant (entry : Entry) (task : TaskId) : Entry :=
  { entry with holder := some task, waiters := entry.waiters.filter (· ≠ task) }

/-- A task has nothing to do with the queue any more. -/
def forget (entry : Entry) (task : TaskId) : Entry :=
  { entry with
    holder := if entry.holder = some task then none else entry.holder
    waiters := entry.waiters.filter (· ≠ task) }

end Entry

end Ledger

structure Ledger where
  bounds : Bounds
  interrupts : InterruptFlag
  /-- The base priorities of the tracked tasks. -/
  bases : Std.TreeMap TaskId Priority := {}
  /-- The live queues by number. -/
  queues : Std.TreeMap Nat Ledger.Entry := {}
  /-- The names of all queues there have ever been, in the order of their numbers. -/
  names : List QueueHandle := []

/-- An answer, if the ledger has one, and the ledger afterwards. -/
abbrev Ledger.Outcome := Option (Except Fault Reply) × Ledger

namespace Ledger

/-- The number and the entry of the live queue of a name. -/
def find? (ledger : Ledger) (name : QueueHandle) : Option (Nat × Entry) :=
  (ledger.names.idxOf? name).bind fun number => ledger.queues[number]?.map (number, ·)

/-- Tracks a task from now on. -/
def attach (ledger : Ledger) (task : TaskId) : Ledger :=
  { ledger with bases := ledger.bases.insertIfNew task ledger.bounds.initial }

/-- The base priority of a task, once it is tracked. -/
def base (ledger : Ledger) (task : TaskId) : Priority :=
  ledger.bases[task]?.getD ledger.bounds.initial

def setBase (ledger : Ledger) (task : TaskId) (base : Priority) : Ledger :=
  { ledger with bases := ledger.bases.insert task base }

def setEntry (ledger : Ledger) (number : Nat) (entry : Entry) : Ledger :=
  { ledger with queues := ledger.queues.insert number entry }

def create (ledger : Ledger) (name : QueueHandle) (transfers : Bool) : Ledger :=
  { ledger with
    queues := ledger.queues.insert ledger.names.length { transfers }
    names := ledger.names ++ [name] }

def destroy (ledger : Ledger) (number : Nat) : Ledger :=
  { ledger with queues := ledger.queues.erase number }

/-- Forgets a task, which leaves all queues. -/
def exit (ledger : Ledger) (task : TaskId) : Ledger :=
  { ledger with
    bases := ledger.bases.erase task
    queues := ledger.queues.map fun _ entry => entry.forget task }

/-- The name of a new queue. -/
def nameIn : Except Fault Reply → Option QueueHandle
  | .ok (.queue name) => some name
  | _ => none

/-- The waiter that a queue was granted to: the one in the answer if it does wait. -/
def winnerIn (given : Except Fault Reply) (waiters : List TaskId) : Option TaskId :=
  match given with
  | .ok (.task (some task)) => if task ∈ waiters then some task else waiters.head?
  | _ => waiters.head?

def guarded (ledger : Ledger) (outcome : Outcome) : Outcome :=
  if ledger.interrupts.enabled then (some (.error .interruptsEnabled), ledger) else outcome

def onQueue (ledger : Ledger) (name : QueueHandle) (outcome : Nat → Entry → Outcome) : Outcome :=
  ledger.guarded <| match ledger.find? name with
    | some (number, entry) => outcome number entry
    | none => (some (.error (.unknownQueue name)), ledger)

/-- Moves a base priority if there is room for it. -/
def adjust (ledger : Ledger) (task : TaskId) (delta : Priority)
    (room : Bounds → Priority → Bool) : Outcome :=
  let current := ledger.base task
  if room ledger.bounds current then
    (some (.ok (.flag true)), (ledger.attach task).setBase task (current + delta))
  else (some (.ok (.flag false)), ledger.attach task)

/-- What the ledger answers to an operation, given the answer of a scheduler. -/
def perform (ledger : Ledger) (given : Except Fault Reply) : Operation → Outcome
  | .newWaitQueue transfers => match nameIn given with
      | some name => (some (.ok (.queue name)), ledger.create name transfers)
      | none => (none, ledger)
  | .destroyWaitQueue queue => ledger.onQueue queue fun number entry =>
      if entry.waiters.isEmpty then (some (.ok .done), ledger.destroy number)
      else (some (.error (.queueBusy queue)), ledger)
  | .waitForAccess queue task => ledger.onQueue queue fun number entry =>
      if task ∈ entry.waiters then
        (some (.error (.alreadyWaiting task queue)), ledger.attach task)
      else (some (.ok .done), (ledger.attach task).setEntry number (entry.wait task))
  | .acquire queue task => ledger.onQueue queue fun number entry =>
      (some (.ok .done), (ledger.attach task).setEntry number (entry.grant task))
  | .nextThread queue => ledger.onQueue queue fun number entry =>
      match winnerIn given entry.waiters with
      | none => (some (.ok (.task none)), ledger)
      | some task => (some (.ok (.task (some task))), ledger.setEntry number (entry.grant task))
  | .peekNext queue => ledger.onQueue queue fun _ _ => (none, ledger)
  | .holder queue => ledger.onQueue queue fun _ entry =>
      (some (.ok (.task entry.holder)), ledger)
  | .waiters queue => ledger.onQueue queue fun _ entry =>
      (some (.ok (.tasks entry.waiters)), ledger)
  | .queuePriority queue => ledger.onQueue queue fun _ _ => (none, ledger)
  | .priority task => ledger.guarded
      (some (.ok (.priority (ledger.base task))), ledger.attach task)
  | .effectivePriority task => ledger.guarded (none, ledger.attach task)
  | .setPriority task base => ledger.guarded <|
      if base ∈ ledger.bounds then (some (.ok .done), (ledger.attach task).setBase task base)
      else (some (.error (.invalidPriority base)), ledger)
  | .increasePriority task =>
      ledger.adjust task 1 fun bounds current => current < bounds.highest
  | .decreasePriority task =>
      ledger.adjust task (-1) fun bounds current => bounds.lowest < current
  | .isTracked task => (some (.ok (.flag (ledger.bases.contains task))), ledger)
  | .exitTask task => ledger.guarded <|
      if ledger.bases.contains task then (some (.ok (.flag true)), ledger.exit task)
      else (some (.ok (.flag false)), ledger)
  | .trackedPriority task => ledger.guarded <| match ledger.bases[task]? with
      | some base => (some (.ok (.priority base)), ledger)
      | none => (some (.error (.unknownTask task)), ledger)
  | .bounds => (some (.ok (.bounds ledger.bounds)), ledger)
  | .statistics => (none, ledger)
  | .resetStatistics => (some (.ok .done), ledger)
  | .taskCount => (some (.ok (.count ledger.bases.size)), ledger)
  | .queueCount => (some (.ok (.count ledger.queues.size)), ledger)
  | .listTasks => ledger.guarded (some (.ok .done), ledger)
  | .dumpQueue queue => ledger.onQueue queue fun _ _ => (some (.ok .done), ledger)

def next (ledger : Ledger) (given : Except Fault Reply) : Command → Outcome
  | .perform operation => ledger.perform given operation
  | .setInterrupts interrupts => (some (.ok .done), { ledger with interrupts })

/-- What a ledger answers to the commands of a transcript. -/
def replay (ledger : Ledger) : List (Command × Except Fault Reply) →
    List (Option (Except Fault Reply))
  | [] => []
  | (command, given) :: rest =>
      (ledger.next given command).1 :: (ledger.next given command).2.replay rest

end Ledger

/-- What a ledger can know of an answer: all of it, unless it depends on effective priorities or on
the work that was done. -/
def Operation.known (operation : Operation) (answer : Except Fault Reply) :
    Option (Except Fault Reply) :=
  match operation, answer with
  | .peekNext _, .ok _ => none
  | .queuePriority _, .ok _ => none
  | .effectivePriority _, .ok _ => none
  | .statistics, .ok _ => none
  | _, answer => some answer

def Command.known : Command → Except Fault Reply → Option (Except Fault Reply)
  | .perform operation, answer => operation.known answer
  | .setInterrupts _, answer => some answer

namespace Scheduler

def answer (s : Scheduler) : Command → Except Fault Reply
  | .perform operation => (operation.perform.run s).result
  | .setInterrupts _ => .ok .done

/-- The commands of a run, each with its answer. -/
def transcript (s : Scheduler) : List Command → List (Command × Except Fault Reply)
  | [] => []
  | command :: rest => (command, s.answer command) :: (s.next command).transcript rest

end Scheduler

/-- The names of the queues that are created in a run. -/
def created (transcript : List (Command × Except Fault Reply)) : List QueueHandle :=
  transcript.filterMap (Ledger.nameIn ·.2)

theorem created_cons (command : Command) (answer : Except Fault Reply)
    (rest : List (Command × Except Fault Reply)) :
    created ((command, answer) :: rest) = (Ledger.nameIn answer).toList ++ created rest := by
  unfold created
  rw [List.filterMap_cons]
  cases Ledger.nameIn answer <;> rfl

end PriorityDonation
