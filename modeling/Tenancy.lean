import Tenancy.Admission
import Tenancy.Anchor
import Tenancy.Backend.Hardware
import Tenancy.Backend.HookDelivery
import Tenancy.Backend.Identity
import Tenancy.Backend.Services
import Tenancy.Backend.Vault
import Tenancy.Call
import Tenancy.Cluster.Client
import Tenancy.Cluster.Report
import Tenancy.Cluster.Request
import Tenancy.Collection
import Tenancy.Decimal.Double
import Tenancy.Decimal.Shortest
import Tenancy.Dialogue
import Tenancy.Dispatch
import Tenancy.Duration
import Tenancy.Encryption
import Tenancy.Error
import Tenancy.Hardware
import Tenancy.Hierarchy
import Tenancy.Hook
import Tenancy.Http.Exchange
import Tenancy.Http.MediaType
import Tenancy.Http.Serving
import Tenancy.Http.Status
import Tenancy.Http.Url
import Tenancy.Identity
import Tenancy.IdentityGroup
import Tenancy.Instant
import Tenancy.Json.MergePatch
import Tenancy.Json.Pointer
import Tenancy.Json.Printer
import Tenancy.Json.Reader
import Tenancy.Json.Reading
import Tenancy.Json.Record
import Tenancy.Json.Value
import Tenancy.Lifecycle.Action
import Tenancy.Lifecycle.Deploy
import Tenancy.Lifecycle.Reconcile
import Tenancy.Lifecycle.StatusWrite
import Tenancy.Lifecycle.Teardown
import Tenancy.LogFormat
import Tenancy.Main
import Tenancy.Manifest.Definition
import Tenancy.Manifest.Kinds
import Tenancy.Manifest.Schema
import Tenancy.Membership
import Tenancy.Metadata
import Tenancy.Names
import Tenancy.Notice
import Tenancy.Options
import Tenancy.Outcome
import Tenancy.Proofs.Addresses
import Tenancy.Proofs.Administrators
import Tenancy.Proofs.Admissions
import Tenancy.Proofs.Agreement
import Tenancy.Proofs.Attempts
import Tenancy.Proofs.Checks
import Tenancy.Proofs.ClassExclusivity
import Tenancy.Proofs.Collections
import Tenancy.Proofs.ConcurrentWrites
import Tenancy.Proofs.Conduct
import Tenancy.Proofs.Convergence
import Tenancy.Proofs.Courses
import Tenancy.Proofs.Deletions
import Tenancy.Proofs.DeployRetries
import Tenancy.Proofs.DeploySteps
import Tenancy.Proofs.DeployedHardware
import Tenancy.Proofs.Domains
import Tenancy.Proofs.EncryptionDomain
import Tenancy.Proofs.Escapes
import Tenancy.Proofs.Estates
import Tenancy.Proofs.ExclusiveMembers
import Tenancy.Proofs.Exclusivity
import Tenancy.Proofs.FailedDomains
import Tenancy.Proofs.FinalizerGate
import Tenancy.Proofs.Footprints
import Tenancy.Proofs.ForgottenChildren
import Tenancy.Proofs.Grounds
import Tenancy.Proofs.GuardedWork
import Tenancy.Proofs.HardwareReplies
import Tenancy.Proofs.HardwareRequests
import Tenancy.Proofs.HardwareRetries
import Tenancy.Proofs.Histories
import Tenancy.Proofs.Holdings
import Tenancy.Proofs.Identities
import Tenancy.Proofs.Isolation
import Tenancy.Proofs.Jobs
import Tenancy.Proofs.KeyTypes
import Tenancy.Proofs.KeyUpdate
import Tenancy.Proofs.Markers
import Tenancy.Proofs.MergedRecords
import Tenancy.Proofs.Namespaces
import Tenancy.Proofs.ObservedState
import Tenancy.Proofs.Passes
import Tenancy.Proofs.PhaseChanges
import Tenancy.Proofs.Plans
import Tenancy.Proofs.PrintedTexts
import Tenancy.Proofs.Provisioning
import Tenancy.Proofs.QualifiedNames
import Tenancy.Proofs.Records
import Tenancy.Proofs.Relocations
import Tenancy.Proofs.Resumption
import Tenancy.Proofs.Retries
import Tenancy.Proofs.Reviews
import Tenancy.Proofs.Rewrites
import Tenancy.Proofs.Rounds
import Tenancy.Proofs.Runs
import Tenancy.Proofs.ScriptedRuns
import Tenancy.Proofs.SettledDomains
import Tenancy.Proofs.Settling
import Tenancy.Proofs.Stages
import Tenancy.Proofs.StaleChildren
import Tenancy.Proofs.StaleCopies
import Tenancy.Proofs.StatusPages
import Tenancy.Proofs.StatusPatches
import Tenancy.Proofs.Steady
import Tenancy.Proofs.StoreWrites
import Tenancy.Proofs.Systems
import Tenancy.Proofs.Teardown
import Tenancy.Proofs.TenantRecords
import Tenancy.Proofs.Turns
import Tenancy.Proofs.VersionGuards
import Tenancy.Proofs.WireCollections
import Tenancy.Proofs.WireJobs
import Tenancy.Rehearsal.Faults
import Tenancy.Rehearsal.Label
import Tenancy.Rehearsal.World
import Tenancy.Rest
import Tenancy.Retry
import Tenancy.Review.Request
import Tenancy.Review.Webhook
import Tenancy.Secret
import Tenancy.Setup
import Tenancy.StatusApi
import Tenancy.Tenant.Basic
import Tenancy.Tenant.Codec
import Tenancy.Text.Base64
import Tenancy.Text.Blank
import Tenancy.Text.Combining
import Tenancy.Text.Hex
import Tenancy.Text.Hidden
import Tenancy.Text.Percent
import Tenancy.Text.Printable
import Tenancy.Text.Quoted
import Tenancy.Text.Utf8
import Tenancy.Tokens
import Tenancy.Usage
