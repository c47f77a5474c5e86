import Dbr2.Access.Credentials
import Dbr2.Access.Grants
import Dbr2.Agent.CopyTree
import Dbr2.Agent.DeadMan
import Dbr2.Agent.Exec
import Dbr2.Agent.Execution
import Dbr2.Agent.Finality
import Dbr2.Agent.Finalization
import Dbr2.Agent.HealthCheck
import Dbr2.Agent.Limiter
import Dbr2.Agent.RdbReader
import Dbr2.Agent.Recreate
import Dbr2.Agent.Redelivery
import Dbr2.Agent.SingleOwner
import Dbr2.Agent.SessionCache
import Dbr2.Auth.LoginAudit
import Dbr2.Auth.RateLimiter
import Dbr2.Backup.Agreement
import Dbr2.Backup.Coverage
import Dbr2.Backup.Rebuild
import Dbr2.Backup.Removal
import Dbr2.Fleet.Revocation
import Dbr2.Fsmeta.Confinement
import Dbr2.Fsmeta.Survival
import Dbr2.Gateway.Ingest
import Dbr2.Gateway.Isolation
import Dbr2.Gateway.Registry
import Dbr2.Inventory.Unprotected
import Dbr2.Notify.ExactlyOnce
import Dbr2.Notify.Presence
import Dbr2.Obs.ClientIP
import Dbr2.Platform.BackupRun
import Dbr2.Platform.RestoreFiles
import Dbr2.Protection.Contracts
import Dbr2.Protection.EscrowHealth
import Dbr2.Protection.Gfs
import Dbr2.Protection.Interleaving
import Dbr2.Protection.Jobs
import Dbr2.Protection.Newest
import Dbr2.Protection.PlanNames
import Dbr2.Protection.Replacement
import Dbr2.Protection.Retry
import Dbr2.Protection.Status
import Dbr2.Protection.Window
import Dbr2.Reposerver.Resume
import Dbr2.Restore.Bystanders
import Dbr2.Restore.Compensation
import Dbr2.Secrets.Documents
import Dbr2.Web.HookCommand
