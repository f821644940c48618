import PagedStore.Error
import PagedStore.Checksum
import PagedStore.Text.Quoted
import PagedStore.Decimal.Layout
import PagedStore.Script.Datum
import PagedStore.Script.Grammar
import PagedStore.Script
import PagedStore.Options.Document
import PagedStore.Compression.Block
import PagedStore.Log.Writer
import PagedStore.Page.Header
import PagedStore.Page.Cache
import PagedStore.Pager.Opening
import PagedStore.Cursor
import PagedStore.Database.Call
import PagedStore.Database.Handle
import PagedStore.Proofs.Bisection
import PagedStore.Proofs.KeyOrder
import PagedStore.Proofs.NodeCodec
import PagedStore.Proofs.Division
import PagedStore.Proofs.PagerHistory
import PagedStore.Proofs.Sessions
import PagedStore.Proofs.FailedChanges
import PagedStore.Proofs.SerialHistories
import PagedStore.Proofs.CrashedReaders
import PagedStore.Proofs.Closing
import PagedStore.Proofs.PoisonedEngines
import PagedStore.Proofs.RolledBackTransactions
import PagedStore.Proofs.DetachedCursors
import PagedStore.Proofs.Traversals
import PagedStore.Proofs.HiddenCache
import PagedStore.Proofs.ReadOnlyEngines
import PagedStore.Proofs.TwoEngines
import PagedStore.Proofs.ScriptTransactions
import PagedStore.Proofs.Reopening
import PagedStore.Proofs.CompleteTransactions
import PagedStore.Proofs.LogRoundTrip
import PagedStore.Proofs.InterruptedReplay
import PagedStore.Proofs.SearchTrees
import PagedStore.Proofs.ChainRoundTrips
import PagedStore.Proofs.DescentsEnd
import PagedStore.Proofs.ByteDamage
import PagedStore.Proofs.Savepoints
import PagedStore.Proofs.FreeLists
import PagedStore.Proofs.RoomForChanges
import PagedStore.Proofs.NodeReading
import PagedStore.Proofs.LogGrammar
import PagedStore.Proofs.RecentPages
import PagedStore.Proofs.MemoryLists
import PagedStore.Proofs.HeaderReading
import PagedStore.Proofs.TransactionProtocol
import PagedStore.Proofs.LibraryLife
import PagedStore.Proofs.Splits
import PagedStore.Proofs.LeadingNumbers
