import MukhiDb.Foundation.Exec
import MukhiDb.Foundation.Bytes
import MukhiDb.Foundation.Utf8
import MukhiDb.Foundation.Medium
import MukhiDb.Foundation.Programs
import MukhiDb.Foundation.Stopping
import MukhiDb.Foundation.Runs
import MukhiDb.Foundation.Calls
import MukhiDb.Foundation.TwoMap
import MukhiDb.Foundation.Separation
import MukhiDb.Foundation.Rows
import MukhiDb.Foundation.Index
import MukhiDb.Foundation.FlatIndex
import MukhiDb.Foundation.LeafChain
import MukhiDb.Foundation.BPlusTree
import MukhiDb.Foundation.TreeSize
import MukhiDb.Foundation.OrderedTree
import MukhiDb.Model.Page
import MukhiDb.Model.Wal
import MukhiDb.Model.Pager
import MukhiDb.Model.BTree
import MukhiDb.Model.Protocol
import MukhiDb.Pager.Contents
import MukhiDb.Pager.DiskPages
import MukhiDb.Pager.Access
import MukhiDb.Pager.Transactions
import MukhiDb.Wal.Recovery
import MukhiDb.Pager.Opening
import MukhiDb.Pager.Calls
import MukhiDb.Pager.Refinement
import MukhiDb.Pager.Crash
import MukhiDb.Pager.CrashedFiles
import MukhiDb.Pager.TornCommit
import MukhiDb.Pager.ReplayCrash
import MukhiDb.Pager.History
import MukhiDb.Wal.Handle
import MukhiDb.BTree.PageParts
import MukhiDb.BTree.LeafPage
import MukhiDb.BTree.ValidLeaf
import MukhiDb.BTree.InternalPage
import MukhiDb.BTree.TreePages
import MukhiDb.BTree.Insertion
import MukhiDb.BTree.NodeLists
import MukhiDb.BTree.OnPager
import MukhiDb.BTree.Dump
import MukhiDb.BTree.Pointers
import MukhiDb.BTree.Runs
import MukhiDb.BTree.LeafSplits
import MukhiDb.BTree.SafeRows
import MukhiDb.Model.Row
import MukhiDb.Model.Storage
import MukhiDb.Model.Startup
import MukhiDb.Model.Session
import MukhiDb.Model.Database
import MukhiDb.Pager.Reading
import MukhiDb.Pager.Failures
import MukhiDb.Pager.Outcomes
import MukhiDb.Pager.Attempts
import MukhiDb.Pager.Readers
import MukhiDb.Pager.Stopped
import MukhiDb.Protocol.Stream
import MukhiDb.Protocol.Segments
import MukhiDb.Protocol.Decoding
import MukhiDb.Protocol.Lengths
import MukhiDb.Storage.Tables
import MukhiDb.Storage.Reachable
import MukhiDb.Storage.Invariants
import MukhiDb.Storage.Flags
import MukhiDb.Storage.Rollback
import MukhiDb.Storage.RootPages
import MukhiDb.Storage.RowBytes
import MukhiDb.Storage.Metadata
import MukhiDb.Storage.Creation
import MukhiDb.Storage.AtRest
import MukhiDb.Storage.Undoing
import MukhiDb.Storage.NewTable
import MukhiDb.Storage.CreatedInside
import MukhiDb.Storage.CreationCrash
import MukhiDb.Storage.Restart
import MukhiDb.Storage.Trees
import MukhiDb.Storage.Standing
import MukhiDb.Storage.Contents
import MukhiDb.Storage.Views
import MukhiDb.Storage.Refinement
import MukhiDb.Storage.Killed
import MukhiDb.Storage.Lives
import MukhiDb.Storage.Receipts
import MukhiDb.Foundation.Decimal
import MukhiDb.Foundation.Joins
import MukhiDb.Foundation.Unicode
import MukhiDb.Foundation.Text
import MukhiDb.Foundation.Pieces
import MukhiDb.Model.Statement
import MukhiDb.Model.Parser
import MukhiDb.Model.Executor
import MukhiDb.Parser.Slices
import MukhiDb.Parser.Literals
import MukhiDb.Parser.Insert
import MukhiDb.Parser.CreateTable
import MukhiDb.Parser.Select
import MukhiDb.Executor.Rows
import MukhiDb.Executor.Join
import MukhiDb.Executor.Exchange
import MukhiDb.Session.Gate
import MukhiDb.Session.Transactions
import MukhiDb.Session.Serial
import MukhiDb.Model.Service
import MukhiDb.Session.Answers
import MukhiDb.Model.Server
import MukhiDb.Server.Sections
import MukhiDb.Server.Dialogue
import MukhiDb.Model.Console
import MukhiDb.Console.Tables
import MukhiDb.Console.Prompts
import MukhiDb.Server.Histories
import MukhiDb.Server.Serving
