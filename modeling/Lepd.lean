import Lepd.Foundation.Cursor
import Lepd.CJson.Syntax
import Lepd.CJson.Parser
import Lepd.CJson.StringUnits
import Lepd.CJson.StringCodes
import Lepd.CJson.Grammar
import Lepd.CJson.StringText
import Lepd.CJson.Completeness
import Lepd.CJson.CutPlaces
import Lepd.CJson.LeafPrefixes
import Lepd.CJson.Prefixes
import Lepd.CJson.NumberStop
import Lepd.CJson.Overrun
import Lepd.CJson.Forward
import Lepd.Foundation.Block
import Lepd.Foundation.Runs
import Lepd.JsonRpc.BufferInvariant
import Lepd.JsonRpc.BufferRuns
import Lepd.JsonRpc.Dispatch
import Lepd.JsonRpc.SplitTolerance
import Lepd.Foundation.Descriptors
import Lepd.Foundation.Strtok
import Lepd.Server.Ownership
import Lepd.Server.Pipe
import Lepd.Server.Tokens
import Lepd.CJson.PrintedText
import Lepd.CJson.RoundTrip
import Lepd.Foundation.LinkedQueue
import Lepd.JsonRpc.Acceptor
import Lepd.JsonRpc.EvalRequest
import Lepd.JsonRpc.Workers
import Lepd.CJson.Transcoding
import Lepd.CJson.StringRoom
import Lepd.CJson.Soundness
import Lepd.JsonRpc.IdEcho
import Lepd.Sysstat.Iostat
import Lepd.Sysstat.IostatFlags
import Lepd.Sysstat.IostatOptions
import Lepd.Ps.History
import Lepd.JsonRpc.RegistryRuns
import Lepd.CJson.Spelling
import Lepd.CJson.TrailingCommas
import Lepd.Foundation.Programs
import Lepd.Foundation.Writer
import Lepd.CJson.PrintBuffers
import Lepd.Cgtop.Tasks
import Lepd.Cgtop.Blkio
import Lepd.Foundation.Ring
import Lepd.Cgtop.Process
import Lepd.Cgtop.Traversal
import Lepd.Cgtop.Leaks
import Lepd.Cgtop.Rates
import Lepd.Cgtop.Hierarchy
import Lepd.Cgtop.Coverage
import Lepd.Cgtop.KillSlashes
import Lepd.Cgtop.NormalForm
import Lepd.Cgtop.FreshStrings
import Lepd.Foundation.Columns
import Lepd.Cgtop.Display
import Lepd.Foundation.Qsort
import Lepd.Procrank.Report
import Lepd.Iotop.Diff
import Lepd.Foundation.Search
import Lepd.Sysstat.Cpuinfo
import Lepd.Server.Dmesg
import Lepd.Server.Listing
import Lepd.Customization.IrqInfo
import Lepd.Foundation.Ledger
import Lepd.Ps.Nodes
import Lepd.Ps.Columns
import Lepd.Ps.Settle
import Lepd.Ps.Reading
import Lepd.Ps.Wishes
import Lepd.Ps.Texts
import Lepd.Ps.ColumnNames
import Lepd.Ps.Release
import Lepd.Ps.Ways
import Lepd.Foundation.ExchangeSort
import Lepd.Iotop.Sort
import Lepd.Foundation.Forest
import Lepd.Ps.Processes
import Lepd.Ps.Forest
import Lepd.Foundation.Grafts
import Lepd.Foundation.Linked
import Lepd.CJson.Heap
import Lepd.CJson.HeapLists
import Lepd.CJson.HeapOwners
import Lepd.CJson.HeapRuns
import Lepd.CJson.HeapSessions
import Lepd.Foundation.Slots
import Lepd.Sysstat.Devices
import Lepd.Sysstat.DeviceRuns
import Lepd.Foundation.Shares
import Lepd.Procrank.Pages
import Lepd.Procrank.Frames
import Lepd.Procrank.Accounts
import Lepd.Foundation.Fuel
import Lepd.CJson.HeapItems
import Lepd.CJson.HeapTrees
import Lepd.Foundation.Builders
import Lepd.CJson.HeapParser
import Lepd.CJson.HeapParsing
import Lepd.JsonRpc.HeapRequests
import Lepd.JsonRpc.HeapResponses
import Lepd.JsonRpc.HeapService
