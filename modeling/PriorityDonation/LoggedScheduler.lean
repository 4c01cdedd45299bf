import PriorityDonation.Log.Logger
import PriorityDonation.Scheduler.Operation

/-!
# A scheduler that logs

A scheduler works without a logger: its calls only say what there is to report. Here the two are
joined, and the events of each call go to the logger once the call is over.
-/

namespace PriorityDonation

structure LoggedScheduler where
  scheduler : Scheduler
  logger : Logger

namespace LoggedScheduler

/-- Makes a call and logs its events. Yields the result of the call and the lines delivered. -/
def run {α : Type} (call : Call α) :
    StateM LoggedScheduler (Except Fault α × List Delivery) := fun logged =>
  match call.run logged.scheduler with
  | ⟨result, scheduler, events⟩ =>
      let (delivered, logger) := Logger.takeAll (events.map Event.record) logged.logger
      ((result, delivered), ⟨scheduler, logger⟩)

def perform (operation : Operation) : StateM LoggedScheduler (Except Fault Reply × List Delivery) :=
  run operation.perform

end LoggedScheduler

end PriorityDonation
