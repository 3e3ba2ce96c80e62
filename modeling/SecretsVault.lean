import SecretsVault.Activity
import SecretsVault.Acts
import SecretsVault.Admission
import SecretsVault.Approvals
import SecretsVault.Audit
import SecretsVault.AuditAppend
import SecretsVault.AuditChain
import SecretsVault.AuditFailure
import SecretsVault.AuditPaging
import SecretsVault.AuditPanic
import SecretsVault.AuditTamper
import SecretsVault.Authority
import SecretsVault.Broker
import SecretsVault.BrokerIdentity
import SecretsVault.CallActs
import SecretsVault.Calls
import SecretsVault.ChildEnv
import SecretsVault.Coherence
import SecretsVault.Collection
import SecretsVault.Commits
import SecretsVault.Creation
import SecretsVault.Creations
import SecretsVault.Crypto
import SecretsVault.Custody
import SecretsVault.Dashboard.App
import SecretsVault.Dashboard.Backend
import SecretsVault.Dashboard.Confinement
import SecretsVault.Dashboard.Forms
import SecretsVault.Dashboard.Lock
import SecretsVault.Dashboard.Moves
import SecretsVault.Dashboard.State
import SecretsVault.Dashboard.Timeline
import SecretsVault.Decisions
import SecretsVault.Destinations
import SecretsVault.Dotenv
import SecretsVault.DotenvReader
import SecretsVault.Effects
import SecretsVault.Envelope
import SecretsVault.Error
import SecretsVault.FailedCommits
import SecretsVault.Fdpass
import SecretsVault.Folders
import SecretsVault.Fs
import SecretsVault.FsOps
import SecretsVault.Handshake
import SecretsVault.History
import SecretsVault.Host
import SecretsVault.HostCalls
import SecretsVault.HumanProof
import SecretsVault.HumanSession
import SecretsVault.Injection
import SecretsVault.Ipc
import SecretsVault.Launches
import SecretsVault.Leases
import SecretsVault.Lib.Chronicle
import SecretsVault.Lib.Code
import SecretsVault.Lib.Copies
import SecretsVault.Lib.Coroutine
import SecretsVault.Lib.Disk
import SecretsVault.Lib.HashChain
import SecretsVault.Lib.Interleaving
import SecretsVault.Lib.Prog
import SecretsVault.Lib.Sweep
import SecretsVault.Lib.Text
import SecretsVault.Lib.Twins
import SecretsVault.Lib.Words
import SecretsVault.Lifetimes
import SecretsVault.Locking
import SecretsVault.ManagedRuns
import SecretsVault.Mcp.Adapter
import SecretsVault.Mcp.Answers
import SecretsVault.Mcp.Credentials
import SecretsVault.Mcp.Framing
import SecretsVault.Model
import SecretsVault.Operations
import SecretsVault.Paths
import SecretsVault.ProcessGroups
import SecretsVault.Progress
import SecretsVault.Publication
import SecretsVault.Reference
import SecretsVault.ReferenceRuns
import SecretsVault.Reopening
import SecretsVault.Requests
import SecretsVault.Runs
import SecretsVault.Session
import SecretsVault.SessionRegistry
import SecretsVault.SessionWindows
import SecretsVault.Store
import SecretsVault.Trust
import SecretsVault.Unrecorded
import SecretsVault.Watchdog
import SecretsVault.WellFormed
import SecretsVault.Wire
