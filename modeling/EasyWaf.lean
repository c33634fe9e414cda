import EasyWaf.Core.Machine
import EasyWaf.Core.Load
import EasyWaf.Core.Plan
import EasyWaf.Core.HashMap
import EasyWaf.Core.VersionedCache
import EasyWaf.Core.Freshness
import EasyWaf.Text.Basic
import EasyWaf.Text.Decimal
import EasyWaf.Net.IpAddr
import EasyWaf.Forwarded
import EasyWaf.Libraries
import EasyWaf.Modules.Transforms
import EasyWaf.Modules.Targets
import EasyWaf.Core.Relational
import EasyWaf.Db.Tables
import EasyWaf.Db.Statements
import EasyWaf.Db.Queries
import EasyWaf.Generation.Current
import EasyWaf.IpList
import EasyWaf.Modules.Waf
import EasyWaf.Modules.GeoIp
import EasyWaf.Upstream
import EasyWaf.RateLimit
import EasyWaf.Http.Header
import EasyWaf.Gateway.Settings
import EasyWaf.Proxy.SiteTable
import EasyWaf.Proxy.Caches
import EasyWaf.Proxy.CacheFreshness
import EasyWaf.Proxy.CacheFailures
import EasyWaf.Proxy.SignInReload
import EasyWaf.Forwarded.Noninterference
import EasyWaf.Text.Utf8
import EasyWaf.Http.Url
import EasyWaf.Modules.Paths
import EasyWaf.Gateway.SignInGate
import EasyWaf.Core.Pieces
import EasyWaf.Gateway.Strip
import EasyWaf.Core.Guessing
import EasyWaf.SlidingCounter
import EasyWaf.Gateway.Throttle
import EasyWaf.Routes.Login
import EasyWaf.SmartProtect
import EasyWaf.Modules.Verdict
import EasyWaf.Modules.Inspect
import EasyWaf.Proxy.Serve
import EasyWaf.Modules.Objection
import EasyWaf.Proxy.DetectionOnly
import EasyWaf.Core.Script
import EasyWaf.RuleSets.File
import EasyWaf.RuleSets.Tables
import EasyWaf.RuleSets.Install
import EasyWaf.RuleSets.Replace
import EasyWaf.RuleSets.Rollback
import EasyWaf.RuleSets.Operation
import EasyWaf.RuleSets.WayBack
import EasyWaf.RuleSets.SwitchedOff
import EasyWaf.RuleSets.Manifest
import EasyWaf.RuleSets.Update
import EasyWaf.Routes.SiteFields
import EasyWaf.Routes.HostTable
import EasyWaf.Routes.Sites
import EasyWaf.Import.Hosts
import EasyWaf.Routes.HostOwnership
import EasyWaf.Challenge.Store
import EasyWaf.Challenge.Answers
import EasyWaf.Challenge.Caps
import EasyWaf.Core.Breaker
import EasyWaf.Upstream.Choice
import EasyWaf.Net.IpText
import EasyWaf.Gateway.Passage
import EasyWaf.Proxy.Forward.Headers
import EasyWaf.Proxy.Forward.SendUpstream
import EasyWaf.Signed
import EasyWaf.Gateway.Session
import EasyWaf.Signature
import EasyWaf.Text.Base64
import EasyWaf.Gateway.RealmTables
import EasyWaf.Routes.Realms
import EasyWaf.Import.Realms
import EasyWaf.Gateway.RealmHistory
import EasyWaf.Gateway.EndedSessions
import EasyWaf.Core.Procedure
import EasyWaf.Management.Users
import EasyWaf.Management.Accounts
import EasyWaf.Management.Administrators
import EasyWaf.Management.LoginSessions
import EasyWaf.Core.Program
import EasyWaf.Backup.Disk
import EasyWaf.Backup.Restore
import EasyWaf.Backup.RestoreKept
import EasyWaf.Backup.RestoreRuns
import EasyWaf.Import.Application
import EasyWaf.Import.Keeps
import EasyWaf.Import.Swapped
import EasyWaf.Core.Interleaving
import EasyWaf.Tls.Certificates
import EasyWaf.Tls.Handlers
import EasyWaf.Tls.Rebuilds
import EasyWaf.Tls.Stale
import EasyWaf.Tls.Renewals
import EasyWaf.Tls.Routing
import EasyWaf.Channels.Bundle
import EasyWaf.Channels.Mirror
import EasyWaf.Channels.Whole
import EasyWaf.Channels.Installs
import EasyWaf.Text.Logfmt
import EasyWaf.Logging.Field
import EasyWaf.Logging.Lines
import EasyWaf.Geo.Store
import EasyWaf.Geo.Updates
import EasyWaf.Geo.Provenance
import EasyWaf.Geo.Versions
import EasyWaf.Modules.Exclusions
import EasyWaf.Modules.Inflate
import EasyWaf.Http.Location
import EasyWaf.Routes.Redirects
import EasyWaf.Ports.ProtocolRuns
import EasyWaf.Ports.ListenerRuns
import EasyWaf.Modules.NormalisedForms
import EasyWaf.Modules.MatchedRuns
import EasyWaf.Routes.PolicyForms
import EasyWaf.SmartProtect.Preview
import EasyWaf.Start.Restart
import EasyWaf.Assignments.Kept
import EasyWaf.Modules.NormalPaths
import EasyWaf.Upstream.Fair
import EasyWaf.Upstream.RoundTrip
import EasyWaf.Proxy.BodyPrefix
import EasyWaf.IpList.Lookup
import EasyWaf.IpList.Policies
import EasyWaf.RateLimit.Waiting
import EasyWaf.RateLimit.Counts
import EasyWaf.RateLimit.Preview
import EasyWaf.SlidingCounter.Runs
import EasyWaf.SlowClients
import EasyWaf.Routes.CopyPolicy
import EasyWaf.Upstream.SentPath
import EasyWaf.Core.Observed
import EasyWaf.Saves.Form
import EasyWaf.Saves.Pool
import EasyWaf.Saves.Stored
import EasyWaf.Saves.Reloads
import EasyWaf.Text.Templates
import EasyWaf.Modules.Substitution
import EasyWaf.Modules.Zones
import EasyWaf.Gateway.CarriedIdentity
import EasyWaf.Gateway.Remembered
import EasyWaf.Start.Adopted
import EasyWaf.Saves.Edits
import EasyWaf.Saves.TwoSaves
import EasyWaf.Net.IpRead
import EasyWaf.Routes.TrafficMarks
import EasyWaf.IpList.OneList
import EasyWaf.Core.KeyMap
import EasyWaf.Core.Cuts
import EasyWaf.Modules.JsonBody
import EasyWaf.Modules.PartContent
import EasyWaf.Modules.MultipartBody
import EasyWaf.Modules.BodyArguments
import EasyWaf.Modules.Chains
import EasyWaf.Modules.EscapeLoops
import EasyWaf.Modules.EscapeSizes
import EasyWaf.Proxy.Recorded
import EasyWaf.Proxy.OneRow
import EasyWaf.Modules.TrafficWriter
import EasyWaf.Routes.Settings
import EasyWaf.Routes.SettingsSave
import EasyWaf.Core.Calendar
import EasyWaf.Backup.Snapshots
import EasyWaf.Backup.Retention
import EasyWaf.Logging.Writer
import EasyWaf.Tls.Issuance
