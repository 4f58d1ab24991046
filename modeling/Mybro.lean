import Mybro.Lib.Runs
import Mybro.Lib.Semaphore
import Mybro.Constants
import Mybro.Gate
import Mybro.GateRuns
import Mybro.Lib.Prog
import Mybro.Lib.Utf8
import Mybro.Lib.Json
import Mybro.Config
import Mybro.KeyPool
import Mybro.Catalog
import Mybro.Payload
import Mybro.SchemaNorm
import Mybro.SchemaRefs
import Mybro.Vision
import Mybro.Http
import Mybro.UsageStream
import Mybro.Lib.Distribute
import Mybro.Stats
import Mybro.StatsBuckets
import Mybro.Lib.Sql
import Mybro.Chat
import Mybro.Messages
import Mybro.Lib.Lru
import Mybro.Sessions
import Mybro.Affinity
import Mybro.KeyEdits
import Mybro.Panics
import Mybro.Account
import Mybro.Task
import Mybro.Responses
import Mybro.System
import Mybro.Usage
import Mybro.Admin
import Mybro.AdminRuns
import Mybro.Keys
import Mybro.Retry
import Mybro.StatsSql
import Mybro.SchemaPasses
import Mybro.SchemaForm
import Mybro.Lib.JsonFrame
import Mybro.PayloadFrame
import Mybro.Lib.JsonSchema
import Mybro.SchemaValid
import Mybro.StatsBreakdown
import Mybro.Flush
import Mybro.GenerationTime
import Mybro.ConfigFile
import Mybro.Credentials
import Mybro.Overrides
import Mybro.Lib.JsonText
import Mybro.Disclosure
import Mybro.Errlog
import Mybro.Lib.ReadModifyWrite
import Mybro.Updates
import Mybro.Lib.Notify
import Mybro.Saver
import Mybro.QueueWrap
import Mybro.Pointer
import Mybro.ImageLimit
import Mybro.Handoff
import Mybro.ImagesLeft
import Mybro.SchemaGuard
import Mybro.Migrations
import Mybro.Lib.Tasks
import Mybro.SingleFlight
import Mybro.ReplyAge
import Mybro.Throttled
import Mybro.HandoffCache
import Mybro.Lib.Cyclic
import Mybro.KeyAcquire
import Mybro.KeyRuns
import Mybro.UsageEvents
import Mybro.HitRate
import Mybro.ImagesForwarded
import Mybro.SessionTable
import Mybro.Redaction
import Mybro.Lib.JsonSyntax
import Mybro.Lib.EventStream
import Mybro.WrapLossless
import Mybro.ActiveKey
import Mybro.HandoffHistory
import Mybro.HandoffStore
import Mybro.Masking
import Mybro.BucketSums
import Mybro.Forwarding
import Mybro.Lib.Checked
import Mybro.StatsChecked
import Mybro.StatsQueries
import Mybro.CatalogOrder
import Mybro.Durations
import Mybro.GateTarget
import Mybro.Lib.Ring
import Mybro.Lib.UrlQuery
import Mybro.PortSearch
import Mybro.RecentRecords
import Mybro.UsageHistory
import Mybro.Completion
import Mybro.ConfigJson
import Mybro.ErrorLog
import Mybro.GateOrder
import Mybro.Restart
import Mybro.Retention
import Mybro.Metering
import Mybro.KeyHealth
import Mybro.Confidential
import Mybro.PayloadSent
import Mybro.Dashboard
