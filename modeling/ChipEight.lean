import ChipEight.Console.Turn
import ChipEight.Main
import ChipEight.Proofs.Checks
import ChipEight.Proofs.Coherence
import ChipEight.Proofs.Json.RoundTrip
import ChipEight.Proofs.Json.Endings
import ChipEight.Proofs.SavedText
import ChipEight.Proofs.Saving
import ChipEight.Proofs.Calls
import ChipEight.Proofs.Reachable
import ChipEight.Proofs.Faults
import ChipEight.Proofs.Obstacles
import ChipEight.Proofs.KeyWait
import ChipEight.Proofs.Forgetting
import ChipEight.Proofs.RandomBytes
import ChipEight.Proofs.Resumption
import ChipEight.Proofs.Execution
import ChipEight.Proofs.Completed
import ChipEight.Proofs.Rates
import ChipEight.Proofs.Bursts
import ChipEight.Proofs.CatchingUp
import ChipEight.Proofs.Notices
import ChipEight.Proofs.Outcomes
import ChipEight.Proofs.Timers
import ChipEight.Proofs.Noninterference
import ChipEight.Proofs.ClockRate
import ChipEight.Proofs.Fields
import ChipEight.Proofs.Schema
import ChipEight.Proofs.Normalising
import ChipEight.Proofs.Happenings
import ChipEight.Proofs.StateKeys
import ChipEight.Proofs.PressedKeys
import ChipEight.Proofs.Truncation
import ChipEight.Proofs.Picture
import ChipEight.Proofs.Tones
import ChipEight.Proofs.FailedUpdates
import ChipEight.Proofs.Failures
import ChipEight.Proofs.Speaker
import ChipEight.Proofs.Strict.Agreement
import ChipEight.Proofs.Footprint
import ChipEight.Proofs.Arithmetic
import ChipEight.Proofs.Untouched
import ChipEight.Proofs.RegisterBlocks
import ChipEight.Proofs.Drawing
import ChipEight.Proofs.Subroutines
