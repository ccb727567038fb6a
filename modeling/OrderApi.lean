import OrderApi.Lib.Pool
import OrderApi.Lib.Keyed
import OrderApi.Lib.Replay
import OrderApi.Lib.Scan
import OrderApi.Lib.Prog
import OrderApi.Lib.JsonText
import OrderApi.Lib.PercentText
import OrderApi.Crow.Json
import OrderApi.Crow.JsonLoad
import OrderApi.Crow.JsonRead
import OrderApi.Crow.JsonDump
import OrderApi.Crow.Http
import OrderApi.Crow.QueryString
import OrderApi.Crow.HttpParser
import OrderApi.Crow.HttpInvariant
import OrderApi.Crow.HttpBytes
import OrderApi.Crow.HttpSegments
import OrderApi.Crow.HttpHeaders
import OrderApi.Crow.HttpRoundTrip
import OrderApi.Crow.Router
import OrderApi.Crow.Trie
import OrderApi.Crow.Filename
import OrderApi.Model.State
import OrderApi.Model.Handlers
import OrderApi.Model.Steps
import OrderApi.Model.Columns
import OrderApi.Orders.Bodies
import OrderApi.Orders.Payment
import OrderApi.Orders.Delete
import OrderApi.Orders.CacheCoherence
import OrderApi.Orders.Sequential
import OrderApi.Orders.Serial
import OrderApi.Orders.Solo
import OrderApi.Orders.Accelerator
import OrderApi.Orders.Commit
import OrderApi.Orders.SqliteErrors
import OrderApi.Orders.Keys
import OrderApi.Orders.CachedRead
import OrderApi.Orders.Staleness
import OrderApi.Orders.RowInvariant
import OrderApi.Orders.Retry
import OrderApi.Orders.Listing
import OrderApi.Orders.OrderNumbers
import OrderApi.Orders.Linkage
import OrderApi.Orders.Malformed
import OrderApi.Orders.Snapshot
import OrderApi.Server.Ops
import OrderApi.Server.Middleware
import OrderApi.Server.Routes
import OrderApi.Server.Connection
import OrderApi.Server.Wire
import OrderApi.Server.Ledger
import OrderApi.Server.Workers
import OrderApi.Server.InFlight
import OrderApi.Server.Overload
import OrderApi.Server.Gate
import OrderApi.Server.Chain
import OrderApi.Server.Endings
import OrderApi.Server.Latency
import OrderApi.Server.Drain
import OrderApi.Server.ErrorBodies
import OrderApi.Server.Counters
import OrderApi.Server.Observe
import OrderApi.Server.Scrape
