import MyPerson.Lib.Run
import MyPerson.Lib.SlidingWindow
import MyPerson.Lib.Exchange
import MyPerson.WriteLimits.Basic
import MyPerson.WriteLimits.System
import MyPerson.WriteLimits.Windows
import MyPerson.WriteLimits.RetryAfter
import MyPerson.WriteLimits.Pause
import MyPerson.WriteLimits.NewDialogs
import MyPerson.WriteSlot.Messenger
import MyPerson.WriteSlot.Requests
import MyPerson.WriteSlot.Outcome
import MyPerson.MaxSession.Store
import MyPerson.MaxSession.Supervisor
import MyPerson.MaxSession.Outcomes
import MyPerson.MaxSession.Import
import MyPerson.Lib.RouteTable
import MyPerson.Authz.Routes
import MyPerson.Authz.Dispatch
import MyPerson.Lib.Table
import MyPerson.Repo.Messages
import MyPerson.Repo.Merge
import MyPerson.Lib.Turns
import MyPerson.MaxIngest.Frames
import MyPerson.MaxIngest.System
import MyPerson.MaxIngest.Deletes
import MyPerson.Lib.Timeline
import MyPerson.MaxSync.System
import MyPerson.MaxSync.Coverage
import MyPerson.MaxSync.Jobs
import MyPerson.MaxSync.Gaps
import MyPerson.MaxSync.Forward
import MyPerson.MaxSync.Alone
import MyPerson.MaxSync.Backward
import MyPerson.MaxSync.Failures
import MyPerson.Lib.TaskRegistry
import MyPerson.MaxSync.Starts
import MyPerson.Lib.Rows
import MyPerson.Lib.Query
import MyPerson.People.Base
import MyPerson.People.Structure
import MyPerson.People.Carried
import MyPerson.People.Reach
import MyPerson.Lib.Cache
import MyPerson.Authz.Caches
import MyPerson.Authz.Revocation
import MyPerson.Authz.Policy
import MyPerson.Authz.Chain
import MyPerson.Authz.Confined
import MyPerson.Telegram.Pool
import MyPerson.Telegram.Handlers
import MyPerson.Telegram.Backfill
import MyPerson.Telegram.Cursors
import MyPerson.Telegram.Starts
import MyPerson.Lib.ReentrantLock
import MyPerson.Partitions.Lock
import MyPerson.Lib.Delimited
import MyPerson.Lib.FormData
import MyPerson.Mcp.Multipart
import MyPerson.Lib.Nesting
import MyPerson.Lib.Utf16
import MyPerson.MaxText.Html
import MyPerson.Lib.Dict
import MyPerson.Raw.Jsonable
import MyPerson.MaxMedia.Download
import MyPerson.WriteSlot.Forward
import MyPerson.Lib.Gossip
import MyPerson.People.AutoMerge
import MyPerson.Isolation.Legacy
import MyPerson.Isolation.Steps
import MyPerson.Isolation.System
import MyPerson.Isolation.Rows
import MyPerson.Isolation.Facts
import MyPerson.Isolation.Commits
import MyPerson.Isolation.Advance
import MyPerson.Isolation.Fresh
import MyPerson.Lib.Json
import MyPerson.Lib.Paging
import MyPerson.MaxGroups.Members
import MyPerson.Lib.Decimal
import MyPerson.Lib.Double
import MyPerson.Mcp.SafeInts
import MyPerson.MaxDialogs.Peer
import MyPerson.Lib.Scan
import MyPerson.Phone.Mask
import MyPerson.Lib.Edits
import MyPerson.MaxDialogs.Titles
import MyPerson.MaxRepair.Normalize
import MyPerson.MaxRepair.Repair
import MyPerson.MaxRepair.Undo
import MyPerson.Lib.Mailbox
import MyPerson.Stream.Manager
import MyPerson.Stream.Delivery
import MyPerson.Lib.RowSecurity
import MyPerson.Storage.Scope
import MyPerson.Storage.Confinement
import MyPerson.Storage.Noninterference
import MyPerson.Lib.Base64
import MyPerson.Lib.JsonText
import MyPerson.Lib.FileSystem
import MyPerson.Files.Links
import MyPerson.Files.Uploads
import MyPerson.Files.Confined
import MyPerson.Files.Sent
import MyPerson.Lib.FilledPath
import MyPerson.Mcp.Catalog
import MyPerson.Mcp.Invoke
import MyPerson.Mcp.Server
import MyPerson.Mcp.Confined
import MyPerson.Mcp.AsRest
import MyPerson.Lib.WaitFor
import MyPerson.MaxLogin.Controller
import MyPerson.MaxLogin.Passwords
import MyPerson.MaxLogin.Verdicts
