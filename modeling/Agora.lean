import Agora.RowLocking
import Agora.LockWaiting
import Agora.RowTable
import Agora.AtomicTransactions
import Agora.TransitionSystem
import Agora.LinkedFileSystem
import Agora.ArtifactStorageKeys
import Agora.ArtifactWriteProgram
import Agora.ArtifactWriteOwnership
import Agora.NoClobberStorage
import Agora.DomainRecords
import Agora.AccessModels
import Agora.AccessServices
import Agora.AccountLocking
import Agora.DashboardServices
import Agora.RenderServices
import Agora.KeyedRollups
import Agora.AnalyticsServices
import Agora.AnalyticsRollups
import Agora.RevisionServices
import Agora.ArtifactDeleteProgram
import Agora.DatabaseChanges
import Agora.ServiceChanges
import Agora.RevisionServiceChanges
import Agora.RenderServiceChanges
import Agora.ServiceRuns
import Agora.AccountInterleavings
import Agora.ServiceLocking
import Agora.GrantAuditReconstruction
import Agora.DatabaseEvolution
import Agora.ServiceDiscipline
import Agora.DeadlockFreedom
import Agora.CredentialPermanence
import Agora.AuthorizationQueries
import Agora.RecordConsistency
import Agora.IssuePermission
import Agora.AuthorizationAgreement
import Agora.OwnershipChain
import Agora.RevisionNumbering
import Agora.AccessRequestEpisodes
import Agora.TransferConfirmations
import Agora.KeysetEnumeration
import Agora.CursorEncoding
import Agora.KeysetPagination
import Agora.PaginationWalks
import Agora.CursorScopes
import Agora.SqlConditions
import Agora.OpenCaptureParity
import Agora.DashboardLifecycle
import Agora.DashboardTriggers
import Agora.AccessRequestTrigger
import Agora.FailureWindows
import Agora.LoginThrottling
import Agora.PasswordGuessBound
import Agora.DashboardTags
import Agora.TagKeyListing
import Agora.ServiceSecrets
import Agora.ArtifactWriteOutcomes
import Agora.CleanupProgress
import Agora.CommentTracking
import Agora.HtmlStructure
import Agora.WindowedReaders
import Agora.DiscoveryNoninterference
import Agora.CaptureSessions
import Agora.PublicationMarkers
import Agora.RaisingPrograms
import Agora.TemporaryStaging
import Agora.StagingCleanup
import Agora.UploadManifest
import Agora.AssetReferences
import Agora.ReferenceDelivery
import Agora.ComparisonKeyPolicy
import Agora.ArtifactNameGuard
import Agora.CssValidation
import Agora.CssSyntax
import Agora.CsvReading
import Agora.CsvValidation
import Agora.UploadStaging
import Agora.StagedParts
import Agora.StagedReferences
import Agora.StagedPackages
import Agora.CssSoundness
import Agora.CodeInspection
import Agora.CodeIndependence
import Agora.DirectiveHeaders
import Agora.HttpOrigins
import Agora.PolicyHeaders
import Agora.OriginAgreement
import Agora.UploadAgreement
import Agora.SignInSessions
import Agora.SignInRaces
import Agora.SignInProgress
import Agora.SignInDeletions
import Agora.SignInSerialization
import Agora.InterleavedParties
import Agora.UploadSessions
import Agora.ReservationSteps
import Agora.OrphanFreeUploads
import Agora.CommittedBytes
import Agora.UploadIntegrity
import Agora.DeliveredParts
import Agora.AnalyticsLedger
import Agora.AggregationProgress
import Agora.ContentDelivery
import Agora.LogRedaction
