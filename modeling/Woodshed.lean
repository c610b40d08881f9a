import Woodshed.Altered
import Woodshed.Approving
import Woodshed.Asking
import Woodshed.BaseDigits
import Woodshed.Calming
import Woodshed.Checkpoints
import Woodshed.Commands
import Woodshed.Consuming
import Woodshed.Converge
import Woodshed.Creation
import Woodshed.Cursors
import Woodshed.Cutting
import Woodshed.Disk
import Woodshed.Draining
import Woodshed.Durability
import Woodshed.Effects
import Woodshed.Entering
import Woodshed.Exhausting
import Woodshed.Failing
import Woodshed.Files
import Woodshed.Floors
import Woodshed.Frame
import Woodshed.FrameGrammar
import Woodshed.FrameLimit
import Woodshed.FrameRead
import Woodshed.FrameScan
import Woodshed.Framing
import Woodshed.Grouping
import Woodshed.Growing
import Woodshed.Histories
import Woodshed.Index
import Woodshed.Interrupting
import Woodshed.Iterating
import Woodshed.Journal
import Woodshed.Keeping
import Woodshed.KeyedWrites
import Woodshed.Layout
import Woodshed.Log
import Woodshed.Manifest
import Woodshed.Mending
import Woodshed.Metadata
import Woodshed.Names
import Woodshed.NextId
import Woodshed.OpCodec
import Woodshed.Openable
import Woodshed.Opening
import Woodshed.Outlasting
import Woodshed.PartitionPoint
import Woodshed.Pointing
import Woodshed.Reading
import Woodshed.Reclaiming
import Woodshed.Recording
import Woodshed.Recovery
import Woodshed.Refusing
import Woodshed.Reopening
import Woodshed.Repair
import Woodshed.Replaying
import Woodshed.Rescuing
import Woodshed.Retrying
import Woodshed.Revising
import Woodshed.Rewinding
import Woodshed.Runs
import Woodshed.Sample
import Woodshed.Scan
import Woodshed.ScanAll
import Woodshed.ScanFrom
import Woodshed.Sealing
import Woodshed.Sequencing
import Woodshed.Session
import Woodshed.Standing
import Woodshed.State
import Woodshed.Store
import Woodshed.Sturdy
import Woodshed.Suffix
import Woodshed.Survey
import Woodshed.Surviving
import Woodshed.Tallying
import Woodshed.Torn
import Woodshed.TornBatch
import Woodshed.Trimming
import Woodshed.Triples
import Woodshed.Truthful
import Woodshed.Types
import Woodshed.Untouched
import Woodshed.Upright
import Woodshed.Verdict
import Woodshed.Writers
import Woodshed.Writing
