import PriorityDonation.Bounds.CommandLine
import PriorityDonation.Log.Directive
import PriorityDonation.LoggedScheduler
import PriorityDonation.Proofs.DirtyFlags
import PriorityDonation.Proofs.DonationValues
import PriorityDonation.Proofs.LedgerRefinement
import PriorityDonation.Proofs.Slots
import PriorityDonation.Proofs.PriorityBounds
import PriorityDonation.Proofs.Settlement
import PriorityDonation.Proofs.StickyAnswers
import PriorityDonation.Proofs.DirectDonation
import PriorityDonation.Proofs.Replicas
import PriorityDonation.Proofs.QueryIndependence
import PriorityDonation.Proofs.Occupants
import PriorityDonation.Proofs.RebuildBudget
import PriorityDonation.Proofs.Refusals
import PriorityDonation.Proofs.Sections
import PriorityDonation.Proofs.Grants
import PriorityDonation.Proofs.Draining
import PriorityDonation.Proofs.LogSessions
import PriorityDonation.Proofs.LoggingInPlace
import PriorityDonation.Proofs.DirtyPart
import PriorityDonation.Proofs.Mutations
import PriorityDonation.Proofs.WholeCharacters
import PriorityDonation.Proofs.Dumps
import PriorityDonation.Proofs.BoundsGrammar
import PriorityDonation.Proofs.LevelDirectives
