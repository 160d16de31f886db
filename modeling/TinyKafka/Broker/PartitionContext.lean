import TinyKafka.ForMathlib.Machine
import TinyKafka.Storage.LogReader
import TinyKafka.Util.RecordBatch

/-!
# PartitionContext

The log of one partition: the offset of the next record, the current segment with its size
and sparse index, and the two cached descriptors. A call also reads and changes the
partition's directory; what the operating system answers is part of its input.

`logMachine` puts the calls together: its runs are the sequences of calls on one context,
with the completions of the writes that went through the ring in between.
-/

namespace TinyKafka

/-- `SparseIndexEntry`. -/
structure SparseIndexEntry where
  offset : Int64
  filePosition : ℕ
  deriving DecidableEq, Repr

/-- `ProduceResult`; the defaults are the failure result. -/
structure ProduceResult where
  baseOffset : Int64 := -1
  logAppendTimeMs : Int64 := -1
  deriving DecidableEq, Repr

/-- `SpliceInfo`: the file to splice from, if any, and the range. -/
structure SpliceInfo where
  fd : Option Bytes := none
  fileOffset : ℕ := 0
  length : ℕ := 0
  deriving DecidableEq, Repr

/-- A write submitted to the ring: the segment file and the payload. -/
structure Submission where
  name : Bytes
  data : Bytes
  deriving DecidableEq, Repr

/-- `PartitionContext`. The descriptors are the names of the open segment files. -/
structure PartitionContext where
  logRoot : Bytes
  topicName : Bytes
  partition : Int32
  segmentBytes : ℕ := 0
  ring : Bool := false
  nextOffset : Int64 := 0
  currentSegmentBaseOffset : Int64 := 0
  currentSegmentBytes : ℕ := 0
  currentSegmentIndex : List SparseIndexEntry := []
  writeFd : Option Bytes := none
  readFd : Option Bytes := none
  deriving DecidableEq, Repr

/-- What the operating system answers during `produce`. -/
structure ProduceEnv where
  /-- `create_directories` succeeds. -/
  createDirs : Bool := true
  /-- `open` of the segment file succeeds. -/
  openSegment : Bool := true
  /-- `io_uring_get_sqe` has an entry to give. -/
  sqe : Bool := true
  /-- How many bytes `write` appends. -/
  written : ℕ
  /-- The system clock in milliseconds. -/
  nowMs : Int64 := 0
  deriving DecidableEq, Repr

namespace PartitionContext

/-- The payload does not fit into the current segment any more. -/
def Rolls (c : PartitionContext) (blobSize : ℕ) : Prop :=
  c.segmentBytes > 0 ∧ c.currentSegmentBytes + blobSize > c.segmentBytes

instance (c : PartitionContext) (blobSize : ℕ) : Decidable (c.Rolls blobSize) :=
  inferInstanceAs (Decidable (_ ∧ _))

/-- Close the current segment when the payload does not fit; the next one starts at the next
offset. -/
def roll (c : PartitionContext) (blobSize : ℕ) : PartitionContext :=
  if c.Rolls blobSize then
    { c with
      writeFd := none
      readFd := none
      currentSegmentBaseOffset := c.nextOffset
      currentSegmentBytes := 0
      currentSegmentIndex := [] }
  else c

/-- The context with its current segment open for writing. -/
def openCurrent (c : PartitionContext) : PartitionContext :=
  { c with writeFd := some (segmentName c.currentSegmentBaseOffset) }

/-- Open the current segment for writing unless it is open. -/
def ensureWriteFd (c : PartitionContext) (dir : Dir) (success : Bool) : PartitionContext × Dir :=
  match c.writeFd with
  | some _ => (c, dir)
  | none =>
    if success then (c.openCurrent, dir.create (segmentName c.currentSegmentBaseOffset))
    else (c, dir)

/-- `if (next_offset_ % kSparseIndexInterval == 0)` the position gets an index entry. -/
def pushIndex (c : PartitionContext) : PartitionContext :=
  if c.nextOffset % 1000 = 0 then
    { c with
      currentSegmentIndex := c.currentSegmentIndex ++ [⟨c.nextOffset, c.currentSegmentBytes⟩] }
  else c

/-- The write of the payload to the open segment: either submitted to the ring, or done at
once with the outcome the system gives. -/
def writePayload (c : PartitionContext) (dir : Dir) (env : ProduceEnv) (name data : Bytes) :
    Dir × Option Submission :=
  if c.ring ∧ env.sqe then (dir, some ⟨name, data⟩)
  else (dir.append name (data.take env.written), none)

/-- The counters after a payload has been taken up. -/
def advance (c : PartitionContext) (blobSize : ℕ) (recordCount : Int32) : PartitionContext :=
  { c with
    currentSegmentBytes := c.currentSegmentBytes + blobSize
    nextOffset := c.nextOffset + recordCount.toInt64 }

/-- What `produce` leaves behind and returns. -/
structure Produced where
  ctx : PartitionContext
  dir : Dir
  submission : Option Submission := none
  result : ProduceResult := {}

/-- The payload is written to the open segment `name` and counted. -/
def store (c : PartitionContext) (dir : Dir) (env : ProduceEnv) (name data : Bytes)
    (recordCount : Int32) : Produced where
  ctx := c.pushIndex.advance data.length recordCount
  dir := (c.writePayload dir env name data).1
  submission := (c.writePayload dir env name data).2
  result := ⟨c.nextOffset, env.nowMs⟩

/-- `PartitionContext::produce`. -/
def produce (c : PartitionContext) (dir : Dir) (env : ProduceEnv) (data : Bytes) : Produced :=
  match recordBatchCount data with
  | .error _ => { ctx := c, dir := dir }
  | .ok recordCount =>
    if env.createDirs then
      let (c, dir) := (c.roll data.length).ensureWriteFd dir env.openSegment
      match c.writeFd with
      | none => { ctx := c, dir := dir }
      | some name => c.store dir env name data recordCount
    else { ctx := c, dir := dir }

/-- The last index entry at or before the offset; the loop stops at the first one beyond. -/
def lookup (c : PartitionContext) (offset : Int64) : Option SparseIndexEntry :=
  (c.currentSegmentIndex.takeWhile (·.offset ≤ offset)).getLast?

/-- `ensure_read_fd`: a descriptor that is open stays as it is, whichever segment it is
for. -/
def ensureReadFd (c : PartitionContext) (dir : Dir) (segmentBase : Int64) (success : Bool) :
    PartitionContext :=
  match c.readFd with
  | some _ => c
  | none =>
    let name := segmentName segmentBase
    if success ∧ (dir.read? name).isSome then { c with readFd := some name } else c

/-- `kMaxFetchChunk`. -/
def maxFetchChunk : ℕ := 10 * 1024 * 1024

/-- The record loop of `fetch`: skip `skipCount` records, then collect until there are
`maxBytes` bytes. `i` counts the records seen. -/
def collectRecords (skipCount : Int64) (maxBytes : ℕ) : List Bytes → (i : ℕ) → Bytes → Bytes
  | [], _, result => result
  | v :: records, i, result =>
    if (i : ℤ) < skipCount.toInt then collectRecords skipCount maxBytes records (i + 1) result
    else if (result ++ v).length ≥ maxBytes then result ++ v
    else collectRecords skipCount maxBytes records (i + 1) (result ++ v)

/-- What `fetch` makes of the bytes it has read: the records from the offset on, or the bytes
themselves when they do not parse. An exception of the parser leaves `fetch`. -/
def fetchRecords (raw : Bytes) (skipCount : Int64) (maxBytes : ℕ) : Except Failure Bytes :=
  match parseRecordBatch raw with
  | .error .lengthError => .error .lengthError
  | .error (.errc _) => .ok (raw.take maxBytes)
  | .ok records =>
    if records = [] then .ok (raw.take maxBytes)
    else .ok ((collectRecords skipCount maxBytes records 0 []).take maxBytes)

/-- The difference of two `size_t`, which wraps below zero. -/
def sizeDiff (a b : ℕ) : ℕ := if b ≤ a then a - b else 2 ^ 64 - (b - a)

/-- `read_limit`. -/
def readLimit (maxBytes : ℕ) : ℕ := min (maxBytes * 2) maxFetchChunk

/-- The bytes `fetch` reads from the file behind the read descriptor; nothing from a closed
one, where `lseek` and `pread` fail. -/
def readChunk (dir : Dir) (fd : Option Bytes) (startPosition maxBytes : ℕ) : Bytes :=
  match fd.bind dir.read? with
  | none => []
  | some file =>
    let available := sizeDiff file.length startPosition
    (file.drop startPosition).take (min (readLimit maxBytes) available)

/-- `PartitionContext::fetch(offset, max_bytes)`. -/
def fetch (c : PartitionContext) (dir : Dir) (offset : Int64) (maxBytes : Int32)
    (openRead : Bool) : PartitionContext × Except Failure Bytes :=
  if maxBytes ≤ 0 then (c, .ok [])
  else
    let best := c.lookup offset
    let startPosition := (best.map SparseIndexEntry.filePosition).getD 0
    let entryOffset := (best.map SparseIndexEntry.offset).getD 0
    let segmentBase := (best.map fun _ => c.currentSegmentBaseOffset).getD 0
    let c := c.ensureReadFd dir segmentBase openRead
    let raw := readChunk dir c.readFd startPosition maxBytes.toInt.toNat
    if raw = [] then (c, .ok [])
    else (c, fetchRecords raw (offset - entryOffset) maxBytes.toInt.toNat)

/-- `PartitionContext::splice_info`. -/
def spliceInfo (c : PartitionContext) (fetchOffset : Int64) (maxBytes : Int32) : SpliceInfo :=
  match c.writeFd with
  | none => {}
  | some name =>
    let offset := ((c.lookup fetchOffset).map SparseIndexEntry.filePosition).getD 0
    let available := sizeDiff c.currentSegmentBytes offset
    if available < 65536 then {}
    else ⟨some name, offset, min available (maxBytes.toInt % 2 ^ 64).toNat⟩

/-- `PartitionContext::file_fd`. -/
def fileFd (c : PartitionContext) (dir : Dir) (openRead : Bool) :
    PartitionContext × Option Bytes :=
  let c := c.ensureReadFd dir c.currentSegmentBaseOffset openRead
  (c, c.readFd)

end PartitionContext

/-! ### Runs of calls -/

/-- A context with its directory and the writes the ring still holds. -/
structure PartitionStore where
  ctx : PartitionContext
  dir : Dir := []
  inFlight : List Submission := []
  deriving DecidableEq, Repr

/-- A call on the context, with what the system answers, or the completion of a write. -/
inductive LogInput
  | produce (env : ProduceEnv) (data : Bytes)
  | fetchAll
  | fetch (offset : Int64) (maxBytes : Int32) (openRead : Bool)
  | spliceInfo (fetchOffset : Int64) (maxBytes : Int32)
  | fileFd (openRead : Bool)
  /-- The `k`-th write in flight completes with `written` bytes. -/
  | complete (k written : ℕ)
  deriving DecidableEq, Repr

/-- What a call returns. -/
inductive LogOutput
  | produced (result : ProduceResult)
  | fetchedAll (bytes : Option Bytes)
  | fetched (result : Except Failure Bytes)
  | splice (info : SpliceInfo)
  | fd (file : Option Bytes)
  | completed

namespace PartitionStore

/-- A newly constructed context on an empty directory. -/
def fresh (logRoot topicName : Bytes) (partition : Int32) (segmentBytes : ℕ) (ring : Bool) :
    PartitionStore where
  ctx := {
    logRoot := logRoot, topicName := topicName, partition := partition
    segmentBytes := segmentBytes, ring := ring }

/-- `produce` on the store. -/
def produce (s : PartitionStore) (env : ProduceEnv) (data : Bytes) :
    PartitionStore × ProduceResult :=
  let p := s.ctx.produce s.dir env data
  (⟨p.ctx, p.dir, s.inFlight ++ p.submission.toList⟩, p.result)

/-- The kernel appends a submitted payload, or a part of it. -/
def complete (s : PartitionStore) (k written : ℕ) : PartitionStore :=
  match s.inFlight[k]? with
  | none => s
  | some w =>
    { s with dir := s.dir.append w.name (w.data.take written), inFlight := s.inFlight.eraseIdx k }

end PartitionStore

/-- The calls on one partition. -/
def logMachine : Machine PartitionStore LogInput LogOutput where
  step s
    | .produce env data => (s.produce env data).map id .produced
    | .fetchAll => (s, .fetchedAll (readTopicLog s.dir))
    | .fetch offset maxBytes openRead =>
      let (c, r) := s.ctx.fetch s.dir offset maxBytes openRead
      ({ s with ctx := c }, .fetched r)
    | .spliceInfo fetchOffset maxBytes => (s, .splice (s.ctx.spliceInfo fetchOffset maxBytes))
    | .fileFd openRead =>
      let (c, fd) := s.ctx.fileFd s.dir openRead
      ({ s with ctx := c }, .fd fd)
    | .complete k written => (s.complete k written, .completed)

theorem next_produce (s : PartitionStore) (env : ProduceEnv) (data : Bytes) :
    logMachine.next s (.produce env data) = (s.produce env data).1 := rfl

theorem out_produce (s : PartitionStore) (env : ProduceEnv) (data : Bytes) :
    logMachine.out s (.produce env data) = .produced (s.produce env data).2 := rfl

end TinyKafka
