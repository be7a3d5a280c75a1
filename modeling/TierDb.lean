import TierDb.Library.Effect
import TierDb.Library.Session
import TierDb.Library.Runs
import TierDb.Library.Leases
import TierDb.Library.Keyed
import TierDb.Library.Transactions
import TierDb.Library.Batches
import TierDb.Library.Retry
import TierDb.Library.Delimited
import TierDb.Library.SelectList
import TierDb.Library.Locks
import TierDb.Library.JsonText
import TierDb.Library.Arena
import TierDb.Json
import TierDb.Core
import TierDb.Reference
import TierDb.Database
import TierDb.Conn
import TierDb.Write
import TierDb.Frame
import TierDb.Scan
import TierDb.LogicalType
import TierDb.LakeDml
import TierDb.Attempts
import TierDb.Transaction
import TierDb.System
import TierDb.Plan
import TierDb.Boundary
import TierDb.Stable
import TierDb.Calls
import TierDb.Atomicity
import TierDb.Serial
import TierDb.Pins
import TierDb.Merged
import TierDb.Tiered
import TierDb.Relational
import TierDb.Chunking
import TierDb.Sinks
import TierDb.Encoders
import TierDb.Encoding
import TierDb.Catalog
import TierDb.Projection
import TierDb.RowKeys
import TierDb.Images
import TierDb.JsonColumns
import TierDb.Blocks
import TierDb.Acquire
import TierDb.Refused
import TierDb.Direct
import TierDb.Endings
import TierDb.Released
import TierDb.Resolution
import TierDb.Missing
import TierDb.Scanned
import TierDb.Torn
import TierDb.Stores
import TierDb.Deleting
import TierDb.Reordering
import TierDb.LakeLocks
import TierDb.Cluster
import TierDb.Serialized
import TierDb.Overlay
import TierDb.NullKeys
import TierDb.Repinned
import TierDb.Untouched
import TierDb.Refined
import TierDb.Inserting
import TierDb.Updating
import TierDb.History
import TierDb.Statements
import TierDb.Ledger
import TierDb.Mutexes
import TierDb.Wire
import TierDb.Payload
import TierDb.Kept
