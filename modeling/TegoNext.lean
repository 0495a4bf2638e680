import TegoNext.ExpectedRevisions
import TegoNext.TaskOperations
import TegoNext.DeploymentLaw
import TegoNext.CapabilityCalls
import TegoNext.HostInvocationIds
import TegoNext.WorkerSafety
import TegoNext.ProcessReader
import TegoNext.ThreadMessages
import TegoNext.ProcessFrames
import TegoNext.PostgresCoordination
import TegoNext.CoordinationWatch
import TegoNext.LeadershipController
import TegoNext.ArtifactInstallation
import TegoNext.StateWatch
import TegoNext.StoreRefinement
import TegoNext.SessionDelivery
import TegoNext.PreparedArtifactCache
import TegoNext.AuthorityGate
import TegoNext.OutboxDrivers
import TegoNext.EndpointRegistration
import TegoNext.ComponentProvenance
import TegoNext.EpochFencing
import TegoNext.PermissionRearrangement
import TegoNext.CapabilityAdmission
import TegoNext.ResolutionOrder
import TegoNext.PublishIdempotence
import TegoNext.StoreAtomicity
import TegoNext.WorkerEpochs
import TegoNext.AttemptAgreement
import TegoNext.PlanUniqueness
import TegoNext.BindingFingerprints
import TegoNext.RequestSettlement
import TegoNext.ArchiveExtraction
import TegoNext.ControlFraming
import TegoNext.HookDeadlines
import TegoNext.OutboundWriter
import TegoNext.RetryDelay
import TegoNext.VersionPrecedence
import TegoNext.StatePages
import TegoNext.JsonParse
