import Zedspaces.Image.ExportConfined
import Zedspaces.Lib.Announce
import Zedspaces.Lib.Base64Url
import Zedspaces.Lib.CasLog
import Zedspaces.Lib.Crash
import Zedspaces.Lib.Destutter
import Zedspaces.Lib.Fields
import Zedspaces.Lib.Files
import Zedspaces.Lib.Fills
import Zedspaces.Lib.Framing
import Zedspaces.Lib.HeaderMap
import Zedspaces.Lib.HostText
import Zedspaces.Lib.IpAddr
import Zedspaces.Lib.JsonGrammar
import Zedspaces.Lib.JsonStrings
import Zedspaces.Lib.JsonText
import Zedspaces.Lib.Lease
import Zedspaces.Lib.Ledger
import Zedspaces.Lib.Maps
import Zedspaces.Lib.Processes
import Zedspaces.Lib.Promises
import Zedspaces.Lib.RedactedParts
import Zedspaces.Lib.Redaction
import Zedspaces.Lib.SortedMap
import Zedspaces.Lib.System
import Zedspaces.Lib.Text
import Zedspaces.Lib.TtlMap
import Zedspaces.Lib.UrlReference
import Zedspaces.Lib.Urls
import Zedspaces.Lib.Utf16
import Zedspaces.Lib.Utf8
import Zedspaces.Lib.Window
import Zedspaces.Lifecycle.Admission
import Zedspaces.Lifecycle.Capacity
import Zedspaces.Lifecycle.ChildPatience
import Zedspaces.Lifecycle.ChildStart
import Zedspaces.Lifecycle.Children
import Zedspaces.Lifecycle.GcOrphans
import Zedspaces.Lifecycle.GcRetention
import Zedspaces.Lifecycle.GcWarning
import Zedspaces.Lifecycle.Generations
import Zedspaces.Lifecycle.Lineage
import Zedspaces.Lifecycle.LostVm
import Zedspaces.Lifecycle.NewerEdits
import Zedspaces.Lifecycle.OneRun
import Zedspaces.Lifecycle.RunOwnership
import Zedspaces.Supervisor.AdapterLogs
import Zedspaces.Supervisor.BootCommands
import Zedspaces.Supervisor.Bootstrap
import Zedspaces.Supervisor.ChildEnv
import Zedspaces.Supervisor.CrashLoop
import Zedspaces.Supervisor.DapRequests
import Zedspaces.Supervisor.DebugService
import Zedspaces.Supervisor.DebugTokens
import Zedspaces.Supervisor.EnvironBlock
import Zedspaces.Supervisor.ForwardListing
import Zedspaces.Supervisor.ForwardTable
import Zedspaces.Supervisor.ForwardedHeaders
import Zedspaces.Supervisor.Forwards
import Zedspaces.Supervisor.ForwardsRace
import Zedspaces.Supervisor.LineReader
import Zedspaces.Supervisor.ListeningPorts
import Zedspaces.Supervisor.LogAccounting
import Zedspaces.Supervisor.LogBatches
import Zedspaces.Supervisor.LogConservation
import Zedspaces.Supervisor.LogOutage
import Zedspaces.Supervisor.LogRefusals
import Zedspaces.Supervisor.Logout
import Zedspaces.Supervisor.Logs
import Zedspaces.Supervisor.Manifest
import Zedspaces.Supervisor.Materialize
import Zedspaces.Supervisor.Notices
import Zedspaces.Supervisor.PercentDecode
import Zedspaces.Supervisor.PortAccess
import Zedspaces.Supervisor.PortAuth
import Zedspaces.Supervisor.PortSessions
import Zedspaces.Supervisor.PortTokenCodec
import Zedspaces.Supervisor.PrivatePorts
import Zedspaces.Supervisor.Proxy
import Zedspaces.Supervisor.RedirectTarget
import Zedspaces.Supervisor.Scrub
import Zedspaces.Supervisor.ServerEntries
import Zedspaces.Supervisor.ServerUp
import Zedspaces.Supervisor.SettingsMerge
import Zedspaces.Supervisor.SingleUse
import Zedspaces.Supervisor.SlotBinding
import Zedspaces.Supervisor.StderrLines
import Zedspaces.Supervisor.StopChild
import Zedspaces.Supervisor.Stopping
import Zedspaces.Supervisor.TarballHosts
import Zedspaces.Web.Activity
import Zedspaces.Web.AuthRedirect
import Zedspaces.Web.Branch
import Zedspaces.Web.ClientQueue
import Zedspaces.Web.Concurrency
import Zedspaces.Web.DocumentSaves
import Zedspaces.Web.Env
import Zedspaces.Web.ExtendTimeout
import Zedspaces.Web.ForwardHistory
import Zedspaces.Web.ForwardRows
import Zedspaces.Web.Forwards
import Zedspaces.Web.Idempotency
import Zedspaces.Web.IdleStop
import Zedspaces.Web.Jsonc
import Zedspaces.Web.Kv
import Zedspaces.Web.KvRefines
import Zedspaces.Web.LocalRecord
import Zedspaces.Web.Manifest
import Zedspaces.Web.ManifestAccepted
import Zedspaces.Web.ManifestFields
import Zedspaces.Web.PortToken
import Zedspaces.Web.RateLimit
import Zedspaces.Web.ReturnPath
import Zedspaces.Web.SaveQueue
import Zedspaces.Web.SettingsDocs
import Zedspaces.Web.SlotHandout
import Zedspaces.Web.TenantBound
