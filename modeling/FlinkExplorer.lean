import FlinkExplorer.Flink.RoundTrip
import FlinkExplorer.Flink.KeyInjective
import FlinkExplorer.Flink.PojoKeys
import FlinkExplorer.Flink.KeyBoundary
import FlinkExplorer.Reader.Scan
import FlinkExplorer.Parser.MetadataCounts
import FlinkExplorer.Flink.Savepoint
import FlinkExplorer.Reader.Accounted
import FlinkExplorer.Reader.Count
import FlinkExplorer.Parser.IsoMillis
import FlinkExplorer.Web.Streamed
import FlinkExplorer.Web.Guard
import FlinkExplorer.Web.Search
import FlinkExplorer.Parser.OperatorState
import FlinkExplorer.Reader.Entries
import FlinkExplorer.Parser.KeyGroups
import FlinkExplorer.KeyMatcher
import FlinkExplorer.Web.Preview
import FlinkExplorer.Flink.Instant
import FlinkExplorer.Parser.BigDecimal
import FlinkExplorer.Parser.BigInteger
import FlinkExplorer.Parser.BlockFilter
import FlinkExplorer.Flink.KeyedList
import FlinkExplorer.Flink.KeyedHeader
import FlinkExplorer.Flink.TypedKeys
import FlinkExplorer.Reader.Tiling
import FlinkExplorer.Web.Download
import FlinkExplorer.Reader.FilePool
import FlinkExplorer.Reader.Segment
import FlinkExplorer.Parser.ProtoFields
import FlinkExplorer.Tui.Window
import FlinkExplorer.Reader.Onward
import FlinkExplorer.Tui.Jobs
import FlinkExplorer.Tui.Tree
import FlinkExplorer.Tui.Total
import FlinkExplorer.Reader.Lookup
import FlinkExplorer.Tui.PatternFilter
import FlinkExplorer.Tui.KeyGroupRange
import FlinkExplorer.Tui.Browse
import FlinkExplorer.Tui.LoadedRows
import FlinkExplorer.Tui.Filtered
import FlinkExplorer.Tui.KeyWindow
import FlinkExplorer.Export.StateValue
import FlinkExplorer.Web.JobSlots
import FlinkExplorer.Web.JobTotals
import FlinkExplorer.Web.JobMachine
import FlinkExplorer.Export.MapObject
import FlinkExplorer.Export.Story
import FlinkExplorer.Export.Ndjson
import FlinkExplorer.Export.DocumentReads
import FlinkExplorer.Export.Formats
