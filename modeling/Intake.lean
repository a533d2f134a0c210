import Intake.Channel.Monitor
import Intake.Config.File
import Intake.Config.Overlay
import Intake.Crew.Traffic
import Intake.Demo.Session
import Intake.Engine.Schedule
import Intake.Frame.Encoding
import Intake.Frame.Reader
import Intake.Main
import Intake.Pool.Traffic
import Intake.Spill.Slots
import Intake.Staging.Slots
import Intake.Proofs.Frame.Codec
import Intake.Proofs.Stream.Taking
import Intake.Proofs.Channel.Queue
import Intake.Proofs.Disk.Temporary
import Intake.Proofs.Spill.Keeping
import Intake.Proofs.Spill.Writing
import Intake.Proofs.Pool.Lending
import Intake.Proofs.Staging.Reading
import Intake.Proofs.Staging.Taking
import Intake.Proofs.Staging.Housing
import Intake.Proofs.Frame.Format
import Intake.Proofs.Frame.Fields
import Intake.Proofs.Frame.Calls
import Intake.Proofs.Frame.Parsing
import Intake.Proofs.Frame.Accounting
import Intake.Proofs.Crew.Shifts
import Intake.Proofs.Crew.Visiting
import Intake.Proofs.Crew.Stopping
import Intake.Proofs.Engine.Accounts
import Intake.Proofs.Engine.Underway
import Intake.Proofs.Engine.Steps
import Intake.Proofs.Engine.Contract
import Intake.Proofs.Crew.Fates
import Intake.Proofs.Engine.Service
import Intake.Proofs.Engine.Onward
import Intake.Proofs.Frame.Shelf
import Intake.Proofs.Channel.Turns
import Intake.Proofs.Pool.Custody
import Intake.Proofs.Staging.Balance
import Intake.Proofs.Engine.Season
import Intake.Proofs.Engine.Settling
import Intake.Proofs.Engine.Apart
import Intake.Proofs.Config.Naming
import Intake.Proofs.Config.Dictionary
import Intake.Proofs.Spill.Owners
import Intake.Proofs.Disk.Endings
import Intake.Proofs.Spill.Drawing
import Intake.Proofs.Staging.Twins
import Intake.Proofs.Frame.Pacing
import Intake.Proofs.Channel.Wakes
import Intake.Proofs.Channel.Interrupts
import Intake.Proofs.Channel.Wrapping
import Intake.Proofs.Milestones
import Intake.Proofs.Engine.Backpressure
import Intake.Proofs.Frame.Extent
import Intake.Proofs.Engine.Tally
import Intake.Proofs.Engine.Driving
import Intake.Proofs.Demo.Reporting
import Intake.Proofs.Text.Numerals
import Intake.Proofs.Staging.Backing
import Intake.Proofs.Frame.Finality
import Intake.Proofs.Spill.Copying
import Intake.Proofs.Config.Overlaying
import Intake.Proofs.Config.Integers
import Intake.Proofs.Config.Extensions
import Intake.Proofs.Config.Loading
import Intake.Proofs.Staging.Agreement
import Intake.Proofs.Crew.Containment
import Intake.Proofs.Crew.Backlog
import Intake.Proofs.Frame.Promises
import Intake.Proofs.Engine.Promises
import Intake.Proofs.Engine.Sizing
import Intake.Proofs.Grace
