import TinyKafka.Broker.PartitionContext
import TinyKafka.Cluster.Metadata
import TinyKafka.ForMathlib.Keeps
import TinyKafka.Protocol.Request
import TinyKafka.Protocol.Response

/-!
# RecordHandler

The requests that read and write partition logs. A handler finds the context of a partition
in its map under `topic:partition`, or constructs it, calls it, and goes on with the next
partition. The loops thread the contexts, the log directories and the writes submitted to the
ring; an exception of a call leaves the handler with what has been done so far.
-/

namespace TinyKafka

/-- The contexts of a reactor, the log directories by path, and the writes that handling has
submitted to the ring, each with its directory. -/
structure LogState where
  contexts : Bytes → Option PartitionContext
  fs : Bytes → Dir
  submissions : List (Bytes × Submission) := []

/-- Computations of the record handler; failure is an exception. -/
abbrev Handler := OptionT (StateM LogState)

/-- What the operating system answers while one partition of a request is handled. -/
structure OsEnv where
  produce : ProduceEnv
  openRead : Bool := true

/-- What a call on a context leaves behind and returns; no result is an exception. -/
structure Called (α : Type) where
  ctx : PartitionContext
  dir : Dir
  submission : Option Submission := none
  result : Option α

/-- The directory of the context's log. -/
def PartitionContext.dirPath (c : PartitionContext) : Bytes :=
  TinyKafka.dirPath c.logRoot c.topicName c.partition

/-- `RecordHandler`: the metadata and the parameters of new contexts. -/
structure RecordHandler where
  metadata : ClusterMetadata
  logRoot : Bytes
  segmentBytes : ℕ
  ring : Bool

namespace RecordHandler

variable (h : RecordHandler)

/-- The key of a partition in the map of contexts. -/
def contextKey (topicName : Bytes) (partition : Int32) : Bytes :=
  topicName ++ ascii ":" ++ toDecimal partition.toInt

/-- The context `get_or_create_context` constructs. -/
def newContext (topicName : Bytes) (partition : Int32) : PartitionContext where
  logRoot := h.logRoot
  topicName := topicName
  partition := partition
  segmentBytes := h.segmentBytes
  ring := h.ring

/-- `get_or_create_context`: what is in the map under the key already stays. -/
def getOrCreateContext (s : LogState) (topicName : Bytes) (partition : Int32) :
    PartitionContext :=
  (s.contexts (contextKey topicName partition)).getD (h.newContext topicName partition)

/-- A call on the context of a partition. The context is in the map afterwards, changed as
the call changes it, and so is its directory. -/
def withContext {α : Type} (topicName : Bytes) (partition : Int32)
    (call : PartitionContext → Dir → Called α) : Handler α :=
  .ofRun fun s =>
    let ctx := h.getOrCreateContext s topicName partition
    let called := call ctx (s.fs ctx.dirPath)
    (called.result, {
      contexts := Function.update s.contexts (contextKey topicName partition) (some called.ctx)
      fs := Function.update s.fs ctx.dirPath called.dir
      submissions := s.submissions ++ called.submission.toList.map (ctx.dirPath, ·) })

/-- One partition of ListOffsets. -/
def listOffsetsPartition (topicName : Bytes) (req : ListOffsetsPartitionRequest) :
    Handler ListOffsetsPartitionResponse :=
  let response (errorCode : Int16) (offset : Int64) : ListOffsetsPartitionResponse :=
    { partitionIndex := req.partitionIndex, errorCode, offset, timestamp := -1 }
  if h.metadata.Lists topicName req.partitionIndex then
    if req.timestamp = -2 then pure (response 0 0)
    else if req.timestamp = -1 then
      h.withContext topicName req.partitionIndex fun ctx dir =>
        { ctx, dir, result := some (response 0 ctx.nextOffset) }
    else pure (response (-1) (-1))
  else pure (response 3 (-1))

/-- `handle_list_offsets`. -/
def handleListOffsets (r : ListOffsetsRequest) : Handler ListOffsetsResponse := do
  let topics ← r.topics.mapM fun t => do
    let partitions ← t.partitions.mapM (h.listOffsetsPartition t.topicName)
    return { topicName := t.topicName, partitions }
  return { correlationId := r.header.correlationId, throttleTimeMs := 0, topics }

/-- The entry of Produce for what `PartitionContext::produce` returned. -/
def producedResponse (partitionIndex : Int32) (result : ProduceResult) :
    ProducePartitionResponse where
  partitionIndex := partitionIndex
  errorCode := if result.baseOffset < 0 then 56 else 0
  baseOffset := result.baseOffset
  logAppendTimeMs := result.logAppendTimeMs
  logStartOffset := if result.baseOffset < 0 then -1 else 0

/-- One partition of Produce. An empty payload does not reach the context. -/
def producePartition (env : ProduceEnv) (topicName : Bytes) (req : ProducePartitionRequest) :
    Handler ProducePartitionResponse :=
  if h.metadata.Lists topicName req.partitionIndex then
    if req.records = [] then pure (producedResponse req.partitionIndex ⟨0, -1⟩)
    else
      h.withContext topicName req.partitionIndex fun ctx dir =>
        let p := ctx.produce dir env req.records
        { ctx := p.ctx, dir := p.dir, submission := p.submission,
          result := some (producedResponse req.partitionIndex p.result) }
  else
    pure { partitionIndex := req.partitionIndex, errorCode := 3, baseOffset := -1,
           logAppendTimeMs := -1, logStartOffset := -1 }

/-- `handle_produce`; `env ti pi` is for partition `pi` of topic `ti` of the request. -/
def handleProduce (env : ℕ → ℕ → OsEnv) (r : ProduceRequest) : Handler ProduceResponse := do
  let responses ← r.topics.zipIdx.mapM fun (t, ti) => do
    let partitions ← t.partitions.zipIdx.mapM fun (p, pi) =>
      h.producePartition (env ti pi).produce t.topicName p
    return { topicName := t.topicName, partitions }
  return { correlationId := r.header.correlationId, throttleTimeMs := 0, responses }

/-- The entry of Fetch whose records are in the response itself. -/
def recordsResponse (partitionIndex : Int32) (records : Bytes) : FetchPartitionResponse where
  partitionIndex := partitionIndex
  records := records

/-- The calls of Fetch on one context: a splice of the current segment when it offers one,
else the records from the offset, else the whole log. -/
def fetchContext (openRead : Bool) (req : FetchPartitionRequest) (ctx : PartitionContext)
    (dir : Dir) : Called FetchPartitionResponse :=
  let offset := if req.fetchOffset > 0 then req.fetchOffset else 0
  let maxBytes := if req.maxBytes > 0 then req.maxBytes else 1048576
  let splice := ctx.spliceInfo offset maxBytes
  match splice.fd with
  | some name =>
    { ctx, dir,
      result := some {
        partitionIndex := req.partitionIndex, records := []
        spliceFd := some ⟨ctx.dirPath, name⟩
        spliceOffset := splice.fileOffset, spliceLen := splice.length } }
  | none =>
    if req.fetchOffset > 0 ∨ req.maxBytes > 0 then
      let (ctx, records) := ctx.fetch dir req.fetchOffset req.maxBytes openRead
      { ctx, dir, result := records.toOption.map (recordsResponse req.partitionIndex) }
    else { ctx, dir, result := (readTopicLog dir).map (recordsResponse req.partitionIndex) }

/-- One topic of Fetch. Whether the partitions are listed is not asked. -/
def fetchTopic (env : ℕ → OsEnv) (t : FetchTopicRequest) : Handler FetchTopicResponse :=
  match h.metadata.findTopicByUuid t.topicId with
  | some info => do
    let partitions ← t.partitions.zipIdx.mapM fun (p, pi) =>
      h.withContext info.name p.partitionIndex (fetchContext (env pi).openRead p)
    return { topicId := t.topicId, partitions }
  | none =>
    pure { topicId := t.topicId,
           partitions := [{ partitionIndex := 0, errorCode := 100, records := [] }] }

/-- `handle_fetch`. -/
def handleFetch (env : ℕ → ℕ → OsEnv) (r : FetchRequest) : Handler FetchResponse := do
  let responses ← r.topics.zipIdx.mapM fun (t, ti) => h.fetchTopic (env ti) t
  return { correlationId := r.header.correlationId, throttleTimeMs := 0, errorCode := 0,
           sessionId := 0, responses }

end RecordHandler

end TinyKafka
