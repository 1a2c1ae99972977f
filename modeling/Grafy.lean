import Grafy.Replanning
import Grafy.SchedulerProgress
import Grafy.SchedulerIsolation
import Grafy.FingerprintIrrelevance
import Grafy.RootKeys
import Grafy.CheckpointHistory
import Grafy.CommandReloads
import Grafy.Openings
import Grafy.SessionDrain
import Grafy.RoomJoining
import Grafy.GraphReplay
import Grafy.LostUpdates
import Grafy.AcyclicExpansion
import Grafy.Egress
import Grafy.AgentRelease
import Grafy.TurnIsolation
import Grafy.TokenPower
import Grafy.InvitationOutcomes
import Grafy.DeletionSafety
import Grafy.RouteAgreement
import Grafy.ImportClosure
import Grafy.Readiness
import Grafy.CallSiteIssues
import Grafy.CanonicalOrder
import Grafy.CallCycles
import Grafy.PlugReplacement
import Grafy.LocalOrigin
import Grafy.SubmitAtomicity
import Grafy.MapFailures
import Grafy.LockedDependencies
import Grafy.ExecutionInvalidation
import Grafy.InputAssembly
import Grafy.LosslessPages
import Grafy.WellFormedDocuments
import Grafy.FolderEdits
import Grafy.StreamedParts
import Grafy.UploadCleanup
import Grafy.StreamedInspection
import Grafy.InstanceTexts
import Grafy.SavedFingerprints
