import JerkLimit.Main
import JerkLimit.Message
import JerkLimit.Proofs.Dense
import JerkLimit.Proofs.Seeding
import JerkLimit.Proofs.Correction
import JerkLimit.Proofs.Chain
import JerkLimit.Proofs.Surge
import JerkLimit.Proofs.Answer
import JerkLimit.Proofs.FirstSuccess
import JerkLimit.Proofs.Shortcut
import JerkLimit.Proofs.Untouched
import JerkLimit.Proofs.Interrupted
import JerkLimit.Proofs.Goal
import JerkLimit.Proofs.Pace
import JerkLimit.Proofs.Stretch
import JerkLimit.Proofs.WellFormed
import JerkLimit.Proofs.Transcript
import JerkLimit.Proofs.Failures
import JerkLimit.Proofs.SeamFailure
import JerkLimit.Proofs.Saved
import JerkLimit.Proofs.Shortest
import JerkLimit.Proofs.Unsynchronized
import JerkLimit.Proofs.Arrival
import JerkLimit.Proofs.Resolution
import JerkLimit.Proofs.Interpolation
import JerkLimit.Proofs.Reframing
import JerkLimit.Proofs.Derating
import JerkLimit.Proofs.Continuity
import JerkLimit.Proofs.Damping
import JerkLimit.Proofs.Restraint
import JerkLimit.Proofs.Hold
import JerkLimit.Proofs.Overrides
import JerkLimit.Proofs.Export
import JerkLimit.Proofs.Extension
import JerkLimit.Proofs.Isolation
import JerkLimit.Proofs.Settling
import JerkLimit.Proofs.Climb
import JerkLimit.Proofs.Rounds
