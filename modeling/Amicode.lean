import Amicode.Attach.Classifier
import Amicode.Attach.Recovery
import Amicode.Attach.Synced
import Amicode.Attach.Window
import Amicode.Baseline.FillPoints
import Amicode.Calibration.DeviceStatus
import Amicode.Claims.Contradiction
import Amicode.Claims.CountedOnce
import Amicode.Client.Losses
import Amicode.Client.ReseedScheduler
import Amicode.Cloud.Mirror
import Amicode.Control.Handshake
import Amicode.Control.Relationship
import Amicode.Control.RouteMatrix
import Amicode.Curation.Synthesize
import Amicode.Distill.Drainer
import Amicode.Entities.Diff
import Amicode.EventResume.Exactness
import Amicode.ExternalDiff.Ownership
import Amicode.Fanin.CursorSkip
import Amicode.Fanin.ResumeSignal
import Amicode.Fanin.Rewriting
import Amicode.Fanin.Solo
import Amicode.Fanin.Sources
import Amicode.Fleet.SingleWriter
import Amicode.Fleet.StatusRead
import Amicode.Fleet.Writes
import Amicode.Frontdoor.Coalescing
import Amicode.Frontdoor.Snapshot
import Amicode.Frontdoor.Sticky
import Amicode.Hashing.SpecHashes
import Amicode.ImportGate.Soundness
import Amicode.Keepalive.Generations
import Amicode.ModeStaging.Coherence
import Amicode.ModeStaging.Declared
import Amicode.Mutation.Retry
import Amicode.Owner.History
import Amicode.Peer.Gate
import Amicode.Peer.Handles
import Amicode.PeerToken.AcceptSet
import Amicode.PeerToken.EnrollmentNonce
import Amicode.Plan.Advisories
import Amicode.Plan.Fileable
import Amicode.Plan.Review
import Amicode.Plan.SliceLimits
import Amicode.Problems.Invariant
import Amicode.Queue.Retry
import Amicode.Reachability.OneWriter
import Amicode.Reachability.Verdicts
import Amicode.Rebuild.AtomicAdoption
import Amicode.Registry.Files
import Amicode.Replay.Bus
import Amicode.Roster.Report
import Amicode.Routing.Resolve
import Amicode.RunLedger.Lanes
import Amicode.RunLedger.Selection
import Amicode.RunLog.ExactlyOnce
import Amicode.Runtime.Settlement
import Amicode.Scheduling.Scheduler
import Amicode.SessionReceipt.Conservation
import Amicode.SessionStatus.Turns
import Amicode.Signals.Queue
import Amicode.Sota.QueueLock
import Amicode.SpecReview.Review
import Amicode.Staging.Once
import Amicode.TomlLite.Denotation
import Amicode.Triage.Preserved
import Amicode.Upgrade.ServerBinary
import Amicode.Warrant.Budget
import Amicode.Warrant.FailClosed
