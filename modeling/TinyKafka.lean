import TinyKafka.ForMathlib.Machine
import TinyKafka.ForMathlib.KeyedList
import TinyKafka.ForMathlib.FixedDigits
import TinyKafka.ForMathlib.Cursor
import TinyKafka.ForMathlib.Locality
import TinyKafka.ForMathlib.Relocation
import TinyKafka.ForMathlib.LastIndex
import TinyKafka.ForMathlib.Format
import TinyKafka.ForMathlib.Keeps
import TinyKafka.ForMathlib.PrefixFree
import TinyKafka.ForMathlib.Buffer
import TinyKafka.ForMathlib.Balance
import TinyKafka.ForMathlib.Expected
import TinyKafka.Util.Bytes
import TinyKafka.Util.Decimal
import TinyKafka.Util.Endian
import TinyKafka.Util.Varint
import TinyKafka.Util.ByteReader
import TinyKafka.Util.VarintLanguage
import TinyKafka.Util.ReaderBounds
import TinyKafka.Util.ByteWriter
import TinyKafka.Util.RecordBatch
import TinyKafka.Util.RecordLayout
import TinyKafka.Util.RecordCounts
import TinyKafka.Util.RecordConcat
import TinyKafka.Storage.PartitionLog
import TinyKafka.Storage.LogReader
import TinyKafka.Cluster.Metadata
import TinyKafka.Protocol.Request
import TinyKafka.Protocol.Response
import TinyKafka.Protocol.Parser
import TinyKafka.Protocol.Serializer
import TinyKafka.Protocol.ParserLocality
import TinyKafka.Protocol.RequestFormat
import TinyKafka.Protocol.NullArrays
import TinyKafka.Protocol.CheckedReads
import TinyKafka.Protocol.ResponseFormat
import TinyKafka.Protocol.DescribeFormat
import TinyKafka.Cluster.MetadataParser
import TinyKafka.Cluster.MetadataLog
import TinyKafka.Broker.PartitionContext
import TinyKafka.Broker.LogSteps
import TinyKafka.Broker.LogOffsets
import TinyKafka.Broker.ProduceFailures
import TinyKafka.Broker.SegmentedLog
import TinyKafka.Broker.LogContent
import TinyKafka.Broker.RingLog
import TinyKafka.Broker.FetchWindow
import TinyKafka.Broker.SparseIndex
import TinyKafka.Broker.LogFetch
import TinyKafka.Broker.ZeroCopy
import TinyKafka.Broker.GroupCoordinator
import TinyKafka.Broker.GroupSteps
import TinyKafka.Broker.GroupFencing
import TinyKafka.Broker.GroupStructure
import TinyKafka.Broker.GroupGenerations
import TinyKafka.Broker.GroupIsolation
import TinyKafka.Broker.GroupQueries
import TinyKafka.Broker.OffsetStore
import TinyKafka.Broker.GroupAssignment
import TinyKafka.Broker.GroupAgreement
import TinyKafka.Broker.GroupRebalance
import TinyKafka.Broker.MemberIds
import TinyKafka.Broker.SessionTimeouts
import TinyKafka.Broker.MetadataHandler
import TinyKafka.Broker.RecordHandler
import TinyKafka.Broker.Broker
import TinyKafka.Broker.TouchedContexts
import TinyKafka.Broker.PartitionIsolation
import TinyKafka.Broker.PartitionExistence
import TinyKafka.Broker.Answers
import TinyKafka.Shard.ShardRouter
import TinyKafka.Config.Properties
import TinyKafka.Config.Config
import TinyKafka.Net.Connection
import TinyKafka.Net.FrameStream
import TinyKafka.Net.SocketCalls
import TinyKafka.Net.Reactor
import TinyKafka.Net.ReactorSteps
import TinyKafka.Net.Framing
import TinyKafka.Net.Ownership
import TinyKafka.Net.Wakeup
import TinyKafka.Net.Delivery
import TinyKafka.Net.ResponseOrder
import TinyKafka.Net.ConnectionTable
import TinyKafka.Net.WritePipeline
import TinyKafka.Net.PipelineRuns
import TinyKafka.Net.ForwardedHandling
import TinyKafka.Net.Splices
import TinyKafka.Net.FetchFrames
import TinyKafka.Net.SingleBroker
import TinyKafka.Net.LogService
import TinyKafka.Net.RequestAccounts
import TinyKafka.Net.ConnectionInvariants
import TinyKafka.Net.OwnAnswers
import TinyKafka.Net.ReadStreams
import TinyKafka.Net.ByteOrder
import TinyKafka.Net.Conversation
import TinyKafka.Net.EndToEnd
