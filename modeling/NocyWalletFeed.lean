import NocyWalletFeed.Agreement
import NocyWalletFeed.Amounts
import NocyWalletFeed.Assembly
import NocyWalletFeed.Attachments
import NocyWalletFeed.BackgroundSubscription
import NocyWalletFeed.Blocks
import NocyWalletFeed.Bootstrap
import NocyWalletFeed.CacheChain
import NocyWalletFeed.CacheLookup
import NocyWalletFeed.CacheWriters
import NocyWalletFeed.ConcurrentProfiles
import NocyWalletFeed.ConcurrentStarts
import NocyWalletFeed.Coverage
import NocyWalletFeed.Credentials
import NocyWalletFeed.Database
import NocyWalletFeed.Db
import NocyWalletFeed.Delivery
import NocyWalletFeed.Deltas
import NocyWalletFeed.Endpoints
import NocyWalletFeed.EventOrdering
import NocyWalletFeed.Evolution
import NocyWalletFeed.Feed
import NocyWalletFeed.FirstFree
import NocyWalletFeed.Flags
import NocyWalletFeed.GraphqlWs
import NocyWalletFeed.Handshake
import NocyWalletFeed.Holes
import NocyWalletFeed.Identifiers
import NocyWalletFeed.Injection
import NocyWalletFeed.Isolation
import NocyWalletFeed.Keepalive
import NocyWalletFeed.Keys
import NocyWalletFeed.Library.Bech32m
import NocyWalletFeed.Library.Channel
import NocyWalletFeed.Library.Codec
import NocyWalletFeed.Library.Ddl
import NocyWalletFeed.Library.EventLog
import NocyWalletFeed.Library.EventStream
import NocyWalletFeed.Library.Holdings
import NocyWalletFeed.Library.IntRange
import NocyWalletFeed.Library.Json
import NocyWalletFeed.Library.Machine
import NocyWalletFeed.Library.Memo
import NocyWalletFeed.Library.OrderBy
import NocyWalletFeed.Library.Pager
import NocyWalletFeed.Library.ReadCommitted
import NocyWalletFeed.Library.Register
import NocyWalletFeed.Library.Relational
import NocyWalletFeed.Library.Replace
import NocyWalletFeed.Library.Tiling
import NocyWalletFeed.Library.Walk
import NocyWalletFeed.LiveSessions
import NocyWalletFeed.MaxRegularTx
import NocyWalletFeed.Merkle
import NocyWalletFeed.MerkleCache
import NocyWalletFeed.MerkleUpdates
import NocyWalletFeed.Metadata
import NocyWalletFeed.Pages
import NocyWalletFeed.Polling
import NocyWalletFeed.ProfileFrame
import NocyWalletFeed.ProfileUpdates
import NocyWalletFeed.Ranges
import NocyWalletFeed.Readiness
import NocyWalletFeed.ReadyHeight
import NocyWalletFeed.Received
import NocyWalletFeed.RejectedSessions
import NocyWalletFeed.Reorgs
import NocyWalletFeed.Replies
import NocyWalletFeed.Resets
import NocyWalletFeed.RestartSignal
import NocyWalletFeed.Resume
import NocyWalletFeed.Rollback
import NocyWalletFeed.Routes.Bootstrap
import NocyWalletFeed.Routes.Feed
import NocyWalletFeed.Routes.Latest
import NocyWalletFeed.Routes.Profile
import NocyWalletFeed.Routes.Session
import NocyWalletFeed.Routes.Subscribe
import NocyWalletFeed.Routes.Zswap
import NocyWalletFeed.Schema
import NocyWalletFeed.SelfContained
import NocyWalletFeed.Sequence
import NocyWalletFeed.SessionTables
import NocyWalletFeed.Snapshot
import NocyWalletFeed.Stream
import NocyWalletFeed.StreamFeed
import NocyWalletFeed.StreamResume
import NocyWalletFeed.StreamWire
import NocyWalletFeed.Streaming
import NocyWalletFeed.Upstream
import NocyWalletFeed.UtxoOrder
import NocyWalletFeed.Wallet
import NocyWalletFeed.Windows
import NocyWalletFeed.Wire
import NocyWalletFeed.WireNumbers
import NocyWalletFeed.WriteThrough
import NocyWalletFeed.Zombies
