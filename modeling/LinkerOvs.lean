import LinkerOvs.Lib.Heap
import LinkerOvs.Lib.Run
import LinkerOvs.Lib.Outcome
import LinkerOvs.Lib.Chain
import LinkerOvs.Lib.Bytes
import LinkerOvs.Lib.CommonPrefix
import LinkerOvs.Lib.Keyed
import LinkerOvs.Util.ByteOrder
import LinkerOvs.Util.Hash
import LinkerOvs.Util.Reconnect
import LinkerOvs.Util.IdPool
import LinkerOvs.Util.BitwiseCopy
import LinkerOvs.Packet.DpPacket
import LinkerOvs.Gtp.Manager
import LinkerOvs.Gtp.Message
import LinkerOvs.Lib.Multimap
import LinkerOvs.Gtp.Entries
import LinkerOvs.Gtp.Maps
import LinkerOvs.Gtp.Sessions
import LinkerOvs.Gtp.Steps
import LinkerOvs.Gtp.Refcount
import LinkerOvs.Gtp.Affinity
import LinkerOvs.Gtp.Deletion
import LinkerOvs.Gtp.Crash
import LinkerOvs.Gtp.Decoding
import LinkerOvs.Classifier.Version
import LinkerOvs.Ofp.Ofpact
import LinkerOvs.Ofp.RawActions
import LinkerOvs.Ofp.Codec
import LinkerOvs.Ofp.GtpCodec
import LinkerOvs.FlowTable.Tables
import LinkerOvs.FlowTable.FlowMod
import LinkerOvs.FlowTable.Bundle
import LinkerOvs.FlowTable.Footprint
import LinkerOvs.FlowTable.Idle
import LinkerOvs.FlowTable.GtpTransport
import LinkerOvs.Upcall.Datapath
import LinkerOvs.Upcall.GtpCache
import LinkerOvs.Classifier.Trie
import LinkerOvs.Classifier.TrieBag
import LinkerOvs.Classifier.TrieRuns
import LinkerOvs.Classifier.Pvector
import LinkerOvs.Classifier.Flow
import LinkerOvs.Classifier.FlowBits
import LinkerOvs.Classifier.Subtable
import LinkerOvs.Classifier.Table
import LinkerOvs.Classifier.SubtableInv
import LinkerOvs.Classifier.SubtableOps
import LinkerOvs.Classifier.Invariant
import LinkerOvs.Classifier.Operations
import LinkerOvs.Classifier.Lookup
import LinkerOvs.Classifier.FindMatch
import LinkerOvs.Classifier.SoftLoop
import LinkerOvs.Classifier.MainLoop
import LinkerOvs.Classifier.SoftMatch
import LinkerOvs.Classifier.Megaflow
import LinkerOvs.Classifier.Conjunction
import LinkerOvs.Classifier.Priority
import LinkerOvs.L2.MacLearning
import LinkerOvs.L2.McastSnooping
import LinkerOvs.Xlate.Group
import LinkerOvs.Xlate.Normal
import LinkerOvs.Xlate.NormalDelivery
import LinkerOvs.Cmap.Buckets
import LinkerOvs.Cmap.Insert
import LinkerOvs.Cmap.Search
import LinkerOvs.Cmap.Displace
import LinkerOvs.Cmap.Rebuild
import LinkerOvs.Cmap.Multimap
import LinkerOvs.FlowTable.Effects
import LinkerOvs.FlowTable.CommitPoints
import LinkerOvs.FlowTable.Starts
import LinkerOvs.FlowTable.Rollback
import LinkerOvs.FlowTable.FailedCommit
import LinkerOvs.FlowTable.Accounting
import LinkerOvs.FlowTable.Finishing
import LinkerOvs.FlowTable.FlowCounts
import LinkerOvs.Flows.Fields
import LinkerOvs.Flows.HashFields
import LinkerOvs.Flows.HashSymmetry
import LinkerOvs.Flows.Extract
import LinkerOvs.Flows.MiniflowFill
import LinkerOvs.Flows.ExtractSpec
import LinkerOvs.Flows.ExtractRuns
import LinkerOvs.Flows.WcMap
import LinkerOvs.Dpcls.Miniflow
import LinkerOvs.Dpcls.Key
import LinkerOvs.Packet.Csum
import LinkerOvs.Packet.SetNd
import LinkerOvs.L2.McastReport
import LinkerOvs.Tunnel.TunRegisters
import LinkerOvs.Ofp.GroupMod
import LinkerOvs.Ofp.GroupSafety
import LinkerOvs.L2.Stp
import LinkerOvs.Lib.Loop
import LinkerOvs.L2.StpRoles
import LinkerOvs.L2.StpDelay
import LinkerOvs.Lib.Worklist
import LinkerOvs.Ovsdb.Data
import LinkerOvs.Ovsdb.Transaction
import LinkerOvs.Ovsdb.TxnRows
import LinkerOvs.Ovsdb.TxnPasses
import LinkerOvs.Gtp.PgwTable
import LinkerOvs.Lib.SignedWord
import LinkerOvs.Ovsdb.Mutation
import LinkerOvs.Json.Number
import LinkerOvs.Json.NumberExact
import LinkerOvs.Json.Value
import LinkerOvs.Lib.Search
import LinkerOvs.Ovsdb.Condition
import LinkerOvs.Ovsdb.ConditionMeaning
import LinkerOvs.Ovsdb.TxnEnd
import LinkerOvs.Ovsdb.Execution
import LinkerOvs.Classifier.Overlap
import LinkerOvs.L2.StpClock
import LinkerOvs.L2.McastRecords
