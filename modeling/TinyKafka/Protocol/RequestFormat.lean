import TinyKafka.Protocol.Parser
import TinyKafka.ForMathlib.Format

/-!
# The wire format of requests, and that parsing undoes it

For each of the thirteen request kinds, the language of the byte strings that encode a given
request, field by field in the order of `parse_request`: big-endian integers, minimal varints,
compact strings and arrays with their length plus one, tag bytes. A field that the parser
skips ranges over all its values (`Wire.anyBytes`, `Wire.skippedString`,
`Wire.skippedArray`), so every request has many encodings. What has no encoding is left
out by the languages themselves: compact lengths from `2 ^ 28 - 1` on, which the varint reader
does not take, and names that do not fit a 16-bit length.

The languages of the second half, `Request.encodingsBy`, leave open how the length of an array
is written. An arm decodes them whenever the count it computes from what is written is the
number of elements (`Parser.Counted`); that is asked for in two forms, since one arm computes
the count in a way of its own (`Parser.decodes_request`).

The parser decodes every encoding to the request it encodes, and consumes exactly the encoding
(`request_of_mem_encodings`).
-/

namespace TinyKafka

open ByteReader CursorM

/-! ### Fields -/

namespace Wire

/-- One byte. -/
def int8 (b : UInt8) : Language UInt8 := {[b]}

/-- Two bytes, big-endian. -/
def int16 (v : Int16) : Language UInt8 := {writeInt16Be v}

/-- Four bytes, big-endian. -/
def int32 (v : Int32) : Language UInt8 := {writeInt32Be v}

/-- Eight bytes, big-endian. -/
def int64 (v : Int64) : Language UInt8 := {writeInt64Be v}

/-- A field of `n` bytes with any content. -/
def anyBytes (n : ℕ) : Language UInt8 := {bs | bs.length = n}

/-- A tag byte. -/
def tag : Language UInt8 := anyBytes 1

/-- The length of a compact string or array, plus one, as a minimal varint. -/
def compactLength (n : ℕ) : Language UInt8 :=
  {bs | n < 2 ^ 28 - 1 ∧ bs = writeUnsignedVarint (UInt32.ofNat (n + 1))}

/-- A compact string, or compact bytes. -/
def compactString (s : Bytes) : Language UInt8 := compactLength s.length * {s}

/-- A compact array, which is not null. -/
def array {α : Type} (element : α → Language UInt8) (l : List α) : Language UInt8 :=
  compactLength l.length * (l.map element).prod

/-- A nullable compact string with any content. -/
def skippedString : Language UInt8 := {writeUnsignedVarint 0} + ⨆ s, compactString s

/-- A compact array, not null, of any number of elements. -/
def skippedArray (element : Language UInt8) : Language UInt8 :=
  ⨆ n, compactLength n * element ^ n

/-- A string with a 16-bit length. -/
def shortString (s : Bytes) : Language UInt8 :=
  {bs | s.length ≤ 32767 ∧ bs = writeInt16Be (Int16.ofNat s.length) ++ s}

/-- The nullable client id and the tag byte of the header. -/
def clientId : Language UInt8 := (int16 (-1) + ⨆ s, shortString s) * tag

/-- The first eight bytes of every request. -/
def header (h : RequestHeader) : Language UInt8 :=
  int16 h.apiKey * int16 h.apiVersion * int32 h.correlationId

/-! ### Requests -/

/-- The cursor of DescribeTopicPartitions: absent, or under any other flag byte with a name, a
partition and a tag. -/
def cursor : Language UInt8 :=
  int8 0xFF + ⨆ flag : {b : UInt8 // b ≠ 0xFF},
    int8 flag * (⨆ name, compactString name) * anyBytes 4 * tag

/-- DescribeTopicPartitions: the names, the partition limit and the cursor. -/
def describeTopicPartitions (r : DescribeTopicPartitionsRequest) : Language UInt8 :=
  array (fun name => compactString name * tag) r.topicNames * anyBytes 4 * cursor * tag

/-- The 32-bit count of the topics of Metadata. -/
def metadataCount (n : ℕ) : Language UInt8 :=
  {bs | n < 2 ^ 31 ∧ bs = writeInt32Be (Int32.ofNat n)}

/-- A topic name of Metadata, which is not empty. -/
def metadataTopic (name : Bytes) : Language UInt8 := {bs | name ≠ [] ∧ bs ∈ shortString name}

/-- Metadata: the topic names and the flag. -/
def metadata (r : MetadataRequest) : Language UInt8 :=
  metadataCount r.topics.length * (r.topics.map metadataTopic).prod *
    int8 (if r.allowAutoTopicCreation then 1 else 0)

def producePartition (p : ProducePartitionRequest) : Language UInt8 :=
  int32 p.partitionIndex * compactString p.records * tag

def produceTopic (t : ProduceTopicRequest) : Language UInt8 :=
  compactString t.topicName * array producePartition t.partitions * tag

/-- Produce: transactional id, acks, timeout and the topics. -/
def produce (r : ProduceRequest) : Language UInt8 :=
  skippedString * anyBytes 2 * anyBytes 4 * array produceTopic r.topics * tag

/-- A partition of Fetch, with its leader epoch, last fetched epoch and log start offset. -/
def fetchPartition (p : FetchPartitionRequest) : Language UInt8 :=
  int32 p.partitionIndex * anyBytes 4 * int64 p.fetchOffset * anyBytes 4 * anyBytes 8 *
    int32 p.maxBytes * tag

def fetchTopic (t : FetchTopicRequest) : Language UInt8 :=
  {t.topicId.val} * array fetchPartition t.partitions * tag

/-- A forgotten topic of Fetch: its id and its partitions. -/
def forgottenTopic : Language UInt8 := anyBytes 16 * skippedArray (anyBytes 4) * tag

/-- Fetch: wait time, minimum and maximum size, isolation level, session id and epoch, the
topics, the forgotten topics and the rack id. -/
def fetch (r : FetchRequest) : Language UInt8 :=
  anyBytes 4 * anyBytes 4 * int32 r.maxBytes * anyBytes 1 * anyBytes 4 * anyBytes 4 *
    array fetchTopic r.topics * skippedArray forgottenTopic * skippedString * tag

def listOffsetsPartition (p : ListOffsetsPartitionRequest) : Language UInt8 :=
  int32 p.partitionIndex * int64 p.timestamp * tag

def listOffsetsTopic (t : ListOffsetsTopicRequest) : Language UInt8 :=
  compactString t.topicName * array listOffsetsPartition t.partitions * tag

def listOffsets (r : ListOffsetsRequest) : Language UInt8 :=
  int32 r.replicaId * int8 r.isolationLevel.toUInt8 * array listOffsetsTopic r.topics * tag

def offsetCommitPartition (p : OffsetCommitPartitionRequest) : Language UInt8 :=
  int32 p.partitionIndex * int64 p.committedOffset * tag

def offsetCommitTopic (t : OffsetCommitTopicRequest) : Language UInt8 :=
  compactString t.topicName * array offsetCommitPartition t.partitions * tag

def offsetCommit (r : OffsetCommitRequest) : Language UInt8 :=
  compactString r.groupId * compactString r.memberId * int32 r.generationId *
    array offsetCommitTopic r.topics * tag

def offsetFetchTopic (t : OffsetFetchTopicRequest) : Language UInt8 :=
  compactString t.topicName * array int32 t.partitionIndexes * tag

def offsetFetch (r : OffsetFetchRequest) : Language UInt8 :=
  compactString r.groupId * array offsetFetchTopic r.topics * tag

def findCoordinator (r : FindCoordinatorRequest) : Language UInt8 :=
  compactString r.coordinatorKey * int8 r.keyType.toUInt8 * tag

def joinGroupProtocol (p : JoinGroupProtocol) : Language UInt8 :=
  compactString p.name * compactString p.metadata * tag

def joinGroup (r : JoinGroupRequest) : Language UInt8 :=
  compactString r.groupId * int32 r.sessionTimeoutMs * compactString r.memberId *
    compactString r.protocolType * array joinGroupProtocol r.protocols * tag

def heartbeat (r : HeartbeatRequest) : Language UInt8 :=
  compactString r.groupId * int32 r.generationId * compactString r.memberId *
    compactString r.groupInstanceId * tag

def leaveGroup (r : LeaveGroupRequest) : Language UInt8 :=
  compactString r.groupId * compactString r.memberId * tag

def syncGroupAssignment (a : SyncGroupAssignment) : Language UInt8 :=
  compactString a.memberId * compactString a.assignment * tag

def syncGroup (r : SyncGroupRequest) : Language UInt8 :=
  compactString r.groupId * int32 r.generationId * compactString r.memberId *
    array syncGroupAssignment r.assignments * tag

/-! ### Requests whose arrays write their lengths in another way -/

section LengthsBy

variable (len : ℕ → Language UInt8)

/-- An array, where `len n` is what may stand for the length of `n` elements; `array` is the
case of `compactLength`. -/
def arrayBy {α : Type} (element : α → Language UInt8) (l : List α) : Language UInt8 :=
  len l.length * (l.map element).prod

/-- An array of any number of elements. -/
def skippedArrayBy (element : Language UInt8) : Language UInt8 := ⨆ n, len n * element ^ n

def describeTopicPartitionsBy (r : DescribeTopicPartitionsRequest) : Language UInt8 :=
  arrayBy len (fun name => compactString name * tag) r.topicNames * anyBytes 4 * cursor * tag

def produceTopicBy (t : ProduceTopicRequest) : Language UInt8 :=
  compactString t.topicName * arrayBy len producePartition t.partitions * tag

def produceBy (r : ProduceRequest) : Language UInt8 :=
  skippedString * anyBytes 2 * anyBytes 4 * arrayBy len (produceTopicBy len) r.topics * tag

def fetchTopicBy (t : FetchTopicRequest) : Language UInt8 :=
  {t.topicId.val} * arrayBy len fetchPartition t.partitions * tag

def forgottenTopicBy : Language UInt8 := anyBytes 16 * skippedArrayBy len (anyBytes 4) * tag

def fetchBy (r : FetchRequest) : Language UInt8 :=
  anyBytes 4 * anyBytes 4 * int32 r.maxBytes * anyBytes 1 * anyBytes 4 * anyBytes 4 *
    arrayBy len (fetchTopicBy len) r.topics * skippedArrayBy len (forgottenTopicBy len) *
    skippedString * tag

def listOffsetsTopicBy (t : ListOffsetsTopicRequest) : Language UInt8 :=
  compactString t.topicName * arrayBy len listOffsetsPartition t.partitions * tag

def listOffsetsBy (r : ListOffsetsRequest) : Language UInt8 :=
  int32 r.replicaId * int8 r.isolationLevel.toUInt8 *
    arrayBy len (listOffsetsTopicBy len) r.topics * tag

def offsetCommitTopicBy (t : OffsetCommitTopicRequest) : Language UInt8 :=
  compactString t.topicName * arrayBy len offsetCommitPartition t.partitions * tag

def offsetCommitBy (r : OffsetCommitRequest) : Language UInt8 :=
  compactString r.groupId * compactString r.memberId * int32 r.generationId *
    arrayBy len (offsetCommitTopicBy len) r.topics * tag

def offsetFetchTopicBy (t : OffsetFetchTopicRequest) : Language UInt8 :=
  compactString t.topicName * arrayBy len int32 t.partitionIndexes * tag

def offsetFetchBy (r : OffsetFetchRequest) : Language UInt8 :=
  compactString r.groupId * arrayBy len (offsetFetchTopicBy len) r.topics * tag

def joinGroupBy (r : JoinGroupRequest) : Language UInt8 :=
  compactString r.groupId * int32 r.sessionTimeoutMs * compactString r.memberId *
    compactString r.protocolType * arrayBy len joinGroupProtocol r.protocols * tag

def syncGroupBy (r : SyncGroupRequest) : Language UInt8 :=
  compactString r.groupId * int32 r.generationId * compactString r.memberId *
    arrayBy len syncGroupAssignment r.assignments * tag

end LengthsBy

end Wire

/-- The header of a request. -/
def Request.header : Request → RequestHeader
  | .apiVersions r => r.header
  | .describeTopicPartitions r => r.header
  | .fetch r => r.header
  | .findCoordinator r => r.header
  | .heartbeat r => r.header
  | .joinGroup r => r.header
  | .leaveGroup r => r.header
  | .listOffsets r => r.header
  | .metadata r => r.header
  | .offsetCommit r => r.header
  | .offsetFetch r => r.header
  | .produce r => r.header
  | .syncGroup r => r.header

/-- The api key of the kind of a request. -/
def Request.kindKey : Request → Int16
  | .apiVersions _ => 18
  | .describeTopicPartitions _ => 75
  | .fetch _ => 1
  | .findCoordinator _ => 10
  | .heartbeat _ => 12
  | .joinGroup _ => 11
  | .leaveGroup _ => 13
  | .listOffsets _ => 2
  | .metadata _ => 3
  | .offsetCommit _ => 8
  | .offsetFetch _ => 9
  | .produce _ => 0
  | .syncGroup _ => 14

/-- What follows the header; an ApiVersions request is only a header. -/
def Request.bodyEncodings : Request → Language UInt8
  | .apiVersions _ => 1
  | .describeTopicPartitions r => Wire.clientId * Wire.describeTopicPartitions r
  | .fetch r => Wire.clientId * Wire.fetch r
  | .findCoordinator r => Wire.clientId * Wire.findCoordinator r
  | .heartbeat r => Wire.clientId * Wire.heartbeat r
  | .joinGroup r => Wire.clientId * Wire.joinGroup r
  | .leaveGroup r => Wire.clientId * Wire.leaveGroup r
  | .listOffsets r => Wire.clientId * Wire.listOffsets r
  | .metadata r => Wire.clientId * Wire.metadata r
  | .offsetCommit r => Wire.clientId * Wire.offsetCommit r
  | .offsetFetch r => Wire.clientId * Wire.offsetFetch r
  | .produce r => Wire.clientId * Wire.produce r
  | .syncGroup r => Wire.clientId * Wire.syncGroup r

/-- **The encodings of a request.** -/
def Request.encodings (r : Request) : Language UInt8 := Wire.header r.header * r.bodyEncodings

section LengthsBy

variable (len : ℕ → Language UInt8)

/-- What follows the header, with array lengths as in `len`. -/
def Request.bodyEncodingsBy : Request → Language UInt8
  | .apiVersions _ => 1
  | .describeTopicPartitions r => Wire.clientId * Wire.describeTopicPartitionsBy len r
  | .fetch r => Wire.clientId * Wire.fetchBy len r
  | .findCoordinator r => Wire.clientId * Wire.findCoordinator r
  | .heartbeat r => Wire.clientId * Wire.heartbeat r
  | .joinGroup r => Wire.clientId * Wire.joinGroupBy len r
  | .leaveGroup r => Wire.clientId * Wire.leaveGroup r
  | .listOffsets r => Wire.clientId * Wire.listOffsetsBy len r
  | .metadata r => Wire.clientId * Wire.metadata r
  | .offsetCommit r => Wire.clientId * Wire.offsetCommitBy len r
  | .offsetFetch r => Wire.clientId * Wire.offsetFetchBy len r
  | .produce r => Wire.clientId * Wire.produceBy len r
  | .syncGroup r => Wire.clientId * Wire.syncGroupBy len r

/-- The encodings of a request with array lengths as in `len`. -/
def Request.encodingsBy (r : Request) : Language UInt8 :=
  Wire.header r.header * r.bodyEncodingsBy len

end LengthsBy

theorem Request.encodingsBy_compactLength (r : Request) :
    r.encodingsBy Wire.compactLength = r.encodings := by
  cases r <;> rfl

/-! ### The fields are decoded -/

namespace Parser

theorem decodes_readInt8 (b : UInt8) : Decodes readInt8 (Wire.int8 b) b :=
  (reads_readInt8 b).decodes

theorem decodes_readInt16 (v : Int16) : Decodes readInt16 (Wire.int16 v) v :=
  (reads_readInt16 v).decodes

theorem decodes_readInt32 (v : Int32) : Decodes readInt32 (Wire.int32 v) v :=
  (reads_readInt32 v).decodes

theorem decodes_readInt64 (v : Int64) : Decodes readInt64 (Wire.int64 v) v :=
  (reads_readInt64 v).decodes

/-- A read of fixed width reads over any bytes. -/
theorem skips_fixed {α : Type} (n : ℕ) (decode : Bytes → α) :
    Skips (fixed n decode) (Wire.anyBytes n) := by
  rintro bs rfl
  exact ⟨decode bs, reads_fixed decode bs⟩

theorem decodes_skip (n : ℕ) : Decodes (skip n) (Wire.anyBytes n) () := by
  rintro bs rfl
  exact reads_skip rfl

/-- The length that is read for `n` elements. -/
theorem toNat_compactLength {n : ℕ} (h : n < 2 ^ 28 - 1) :
    (UInt32.ofNat (n + 1)).toNat = n + 1 :=
  UInt32.toNat_ofNat_of_lt' (show n + 1 < 2 ^ 32 by omega)

theorem toNat_compactLength_sub {n : ℕ} (h : n < 2 ^ 28 - 1) :
    (UInt32.ofNat (n + 1) - 1).toNat = n := by
  have hone : (1 : UInt32) ≤ UInt32.ofNat (n + 1) := by
    rw [UInt32.le_iff_toNat_le, toNat_compactLength h]
    simp
  rw [UInt32.toNat_sub_of_le _ _ hone, toNat_compactLength h]
  simp

/-- The guarded count never wraps: it is one less than the length, and zero for zero. -/
theorem arrayCount_eq (len : UInt32) : arrayCount len = len.toNat - 1 := by
  rw [arrayCount]
  split
  next hpos =>
    have hone : (1 : UInt32) ≤ len := UInt32.le_iff_toNat_le.mpr (UInt32.lt_iff_toNat_lt.mp hpos)
    rw [UInt32.toNat_sub_of_le _ _ hone, UInt32.toNat_one]
  next hzero =>
    rw [gt_iff_lt, UInt32.lt_iff_toNat_lt, UInt32.toNat_zero] at hzero
    omega

theorem arrayCount_compactLength {n : ℕ} (h : n < 2 ^ 28 - 1) :
    arrayCount (UInt32.ofNat (n + 1)) = n := by
  rw [arrayCount_eq, toNat_compactLength h, Nat.add_sub_cancel]

theorem reads_compactLength {n : ℕ} (h : n < 2 ^ 28 - 1) :
    Reads readVarint (writeUnsignedVarint (UInt32.ofNat (n + 1))) (UInt32.ofNat (n + 1)) := by
  refine reads_readVarint ?_
  rw [toNat_compactLength h]
  omega

/-- Behind a length, the continuation gets that length, and may use its bound. -/
theorem decodes_readVarint_bind {γ : Type} {f : UInt32 → Reader γ} {n : ℕ}
    {K : Language UInt8} {b : γ}
    (hf : n < 2 ^ 28 - 1 → Decodes (f (UInt32.ofNat (n + 1))) K b) :
    Decodes (readVarint >>= f) (Wire.compactLength n * K) b := by
  intro bs hbs
  obtain ⟨x, ⟨hn, rfl⟩, y, hy, rfl⟩ := Language.mem_mul.mp hbs
  exact (reads_compactLength hn).bind (hf hn y hy)

theorem decodes_readCompactString (s : Bytes) :
    Decodes readCompactString (Wire.compactString s) s := by
  intro bs hbs
  obtain ⟨x, ⟨hn, rfl⟩, y, rfl, rfl⟩ := Language.mem_mul.mp hbs
  exact reads_readCompactString hn

theorem decodes_compactBytes (s : Bytes) : Decodes compactBytes (Wire.compactString s) s := by
  refine decodes_readVarint_bind fun hn => ?_
  split
  next =>
    rw [toNat_compactLength_sub hn]
    exact (reads_readBytes s).decodes
  next hle =>
    -- a length of one: no bytes follow, and none are read
    rw [gt_iff_lt, UInt32.lt_iff_toNat_lt, toNat_compactLength hn] at hle
    have hnil : s = [] := by simpa using hle
    subst hnil
    exact (Reads.pure []).decodes

theorem decodes_skipCompact : Decodes skipCompact Wire.skippedString () := by
  refine Decodes.add ?_ (Decodes.iSup fun s => ?_)
  · have hnull : Reads readVarint (writeUnsignedVarint 0) 0 := reads_readVarint (by decide)
    have hnone : Reads (if (0 : UInt32) > 1 then skip (0 - 1 : UInt32).toNat else pure ()) [] () :=
      Reads.pure ()
    exact (hnull.bind_nil hnone).decodes
  · refine decodes_readVarint_bind fun hn => ?_
    split
    next =>
      rw [toNat_compactLength_sub hn]
      exact (reads_skip rfl).decodes
    next hle =>
      rw [gt_iff_lt, UInt32.lt_iff_toNat_lt, toNat_compactLength hn] at hle
      have hnil : s = [] := by simpa using hle
      subst hnil
      exact (Reads.pure ()).decodes

/-! ### Repetitions -/

section Arrays

variable {α γ : Type} {p : Reader γ} {element : α → Language UInt8} {result : α → γ}

theorem decodes_readMany (l : List α) (h : ∀ a ∈ l, Decodes p (element a) (result a)) :
    Decodes (readMany p l.length) (l.map element).prod (l.map result) := by
  induction l with
  | nil => exact Decodes.pure []
  | cons a l ih =>
    rw [List.map_cons, List.prod_cons, List.map_cons, List.length_cons, readMany]
    refine (h a List.mem_cons_self).bind ?_
    exact (ih fun b hb => h b (List.mem_cons_of_mem a hb)).map _

/-- Elements that are read over one after another. -/
theorem skips_readMany {L : Language UInt8} (h : Skips p L) (n : ℕ) :
    Skips (readMany p n) (L ^ n) := by
  induction n with
  | zero => exact (Decodes.pure []).skips
  | succ n ih =>
    intro bs hbs
    rw [pow_succ'] at hbs
    obtain ⟨x, hx, y, hy, rfl⟩ := Language.mem_mul.mp hbs
    obtain ⟨a, ha⟩ := h x hx
    obtain ⟨as, has⟩ := ih y hy
    exact ⟨a :: as, ha.bind (has.bind_nil (Reads.pure (a :: as)))⟩

/-- Every word of `L` is read as a varint out of which `count` makes `n`. -/
def Counted (count : UInt32 → ℕ) (L : Language UInt8) (n : ℕ) : Prop :=
  ∀ bs ∈ L, ∃ v, Reads readVarint bs v ∧ count v = n

/-- Behind a counted length, the continuation may use the count. -/
theorem Counted.bind {count : UInt32 → ℕ} {L K : Language UInt8} {n : ℕ} {f : UInt32 → Reader γ}
    {b : γ} (h : Counted count L n) (hf : ∀ v, count v = n → Decodes (f v) K b) :
    Decodes (readVarint >>= f) (L * K) b := by
  intro bs hbs
  obtain ⟨x, hx, y, hy, rfl⟩ := Language.mem_mul.mp hbs
  obtain ⟨v, hread, hcount⟩ := h x hx
  exact hread.bind (hf v hcount y hy)

theorem counted_compactLength (n : ℕ) : Counted arrayCount (Wire.compactLength n) n := by
  rintro bs ⟨hn, rfl⟩
  exact ⟨_, reads_compactLength hn, arrayCount_compactLength hn⟩

/-- The same without asking for a length of zero, which no compact length is. -/
theorem counted_compactLength_sub (n : ℕ) :
    Counted (fun v => (v - 1).toNat) (Wire.compactLength n) n := by
  rintro bs ⟨hn, rfl⟩
  exact ⟨_, reads_compactLength hn, toNat_compactLength_sub hn⟩

variable {len : ℕ → Language UInt8} (hlen : ∀ n, Counted arrayCount (len n) n)
include hlen

theorem decodes_compactArray {p : Reader α} (h : ∀ a, Decodes p (element a) a) (l : List α) :
    Decodes (compactArray p) (Wire.arrayBy len element l) l := by
  refine (hlen l.length).bind fun v hv => ?_
  rw [hv]
  have hmany := decodes_readMany l fun a _ => h a
  rwa [List.map_id'] at hmany

/-- An array at the end of a record, with the tag byte behind it. -/
theorem decodes_compactArray_tag {p : Reader α} (h : ∀ a, Decodes p (element a) a) (l : List α)
    (g : List α → γ) :
    Decodes (compactArray p >>= fun as => skip 1 >>= fun _ => pure (g as))
      (Wire.arrayBy len element l * Wire.tag) (g l) :=
  (decodes_compactArray hlen h l).bind ((decodes_skip 1).map _)

theorem skips_compactArray {L : Language UInt8} (h : Skips p L) :
    Skips (compactArray p) (Wire.skippedArrayBy len L) := by
  refine Skips.iSup fun n => ?_
  intro bs hbs
  obtain ⟨x, hx, y, hy, rfl⟩ := Language.mem_mul.mp hbs
  obtain ⟨as, has⟩ := skips_readMany h n y hy
  have hread : Decodes (compactArray p) (len n * {y}) as := (hlen n).bind fun v hv => by
    rw [hv]
    exact has.decodes
  exact ⟨as, hread _ (Language.append_mem_mul hx rfl)⟩

end Arrays

/-! ### The client id and the header -/

/-- The length that is read for a short string. -/
theorem toNat_toInt_shortLength {s : Bytes} (h : s.length ≤ 32767) :
    (Int16.ofNat s.length).toInt = s.length :=
  Int16.toInt_ofNat_of_lt (by omega)

theorem decodes_skipClientId : Decodes skipClientId Wire.clientId () := by
  rw [Wire.clientId, add_mul, Language.iSup_mul]
  refine Decodes.add ?_ (Decodes.iSup fun s => ?_)
  · -- null: a length of `-1`, and no bytes are skipped
    exact (decodes_readInt16 (-1)).bind (decodes_skip 1)
  · intro bs hbs
    obtain ⟨x, ⟨hlen, rfl⟩, y, hy, rfl⟩ := Language.mem_mul.mp hbs
    have hint := toNat_toInt_shortLength hlen
    rw [List.append_assoc]
    refine (reads_readInt16 _).bind ?_
    dsimp only
    split
    next =>
      rw [hint, Int.toNat_natCast]
      exact (reads_skip rfl).bind (decodes_skip 1 y hy)
    next hle =>
      have hnil : s = [] := by
        rw [gt_iff_lt, Int16.lt_iff_toInt_lt, hint] at hle
        simpa using hle
      subst hnil
      exact decodes_skip 1 y hy

/-- Every arm begins with the client id, which it drops. -/
theorem decodes_skipClientId_bind {γ : Type} {f : Unit → Reader γ} {L : Language UInt8} {c : γ}
    (h : Decodes (f ()) L c) : Decodes (skipClientId >>= f) (Wire.clientId * L) c :=
  Decodes.bind decodes_skipClientId h

theorem decodes_requestHeader (h : RequestHeader) :
    Decodes requestHeader (Wire.header h) h := by
  rw [Wire.header, mul_assoc]
  refine (decodes_readInt16 h.apiKey).bind ((decodes_readInt16 h.apiVersion).bind ?_)
  exact (decodes_readInt32 h.correlationId).map _

/-! ### The arms -/

theorem decodes_skipCursor : Decodes skipCursor Wire.cursor () := by
  refine Decodes.add ?_ (Decodes.iSup fun flag => ?_)
  · exact ((reads_readInt8 0xFF).bind_nil (by simpa using Reads.pure ())).decodes
  · simp only [mul_assoc]
    refine (decodes_readInt8 flag).bind ?_
    rw [if_pos flag.property]
    refine (Skips.iSup fun name => (decodes_readCompactString name).skips).bind fun _ => ?_
    exact (skips_fixed 4 _).bind fun _ => decodes_skip 1

theorem decodes_describeTopic (name : Bytes) :
    Decodes describeTopic (Wire.compactString name * Wire.tag) name :=
  (decodes_readCompactString name).bind ((decodes_skip 1).map _)

theorem decodes_describeTopicPartitions {len : ℕ → Language UInt8}
    (r : DescribeTopicPartitionsRequest)
    -- here the parser subtracts without asking for zero
    (hlen : Counted (fun v => (v - 1).toNat) (len r.topicNames.length) r.topicNames.length) :
    Decodes (describeTopicPartitions r.header)
      (Wire.clientId * Wire.describeTopicPartitionsBy len r) (.describeTopicPartitions r) := by
  rw [Wire.describeTopicPartitionsBy, Wire.arrayBy]
  simp only [mul_assoc]
  refine decodes_skipClientId_bind (hlen.bind fun v hv => ?_)
  rw [hv]
  have hnames := decodes_readMany r.topicNames fun name _ => decodes_describeTopic name
  rw [List.map_id'] at hnames
  refine hnames.bind ((skips_fixed 4 _).bind fun _ => ?_)
  exact Decodes.bind decodes_skipCursor ((decodes_skip 1).map _)

theorem decodes_metadataTopic (name : Bytes) :
    Decodes metadataTopic (Wire.metadataTopic name) [name] := by
  rintro bs ⟨hne, hlen, rfl⟩
  have hint := toNat_toInt_shortLength hlen
  have hpos : Int16.ofNat name.length > 0 := by
    rw [gt_iff_lt, Int16.lt_iff_toInt_lt, hint]
    simpa using List.length_pos_of_ne_nil hne
  refine (reads_readInt16 _).bind ?_
  rw [if_pos hpos, hint, Int.toNat_natCast]
  exact (reads_readBytes name).bind_nil (Reads.pure [name])

theorem decodes_metadata (r : MetadataRequest) :
    Decodes (metadata r.header) (Wire.clientId * Wire.metadata r) (.metadata r) := by
  rw [Wire.metadata]
  simp only [mul_assoc]
  refine decodes_skipClientId_bind ?_
  intro bs hbs
  obtain ⟨x, ⟨hlen, rfl⟩, y, hy, rfl⟩ := Language.mem_mul.mp hbs
  have hint : (Int32.ofNat r.topics.length).toInt.toNat = r.topics.length := by
    rw [Int32.toInt_ofNat_of_lt (by omega), Int.toNat_natCast]
  -- every name is read as a list of one
  have hnames : Decodes (readMany metadataTopic r.topics.length)
      (r.topics.map Wire.metadataTopic).prod (r.topics.map fun name => [name]) :=
    decodes_readMany r.topics fun name _ => decodes_metadataTopic name
  have hresult : Request.metadata r = .metadata
      ⟨r.header, (r.topics.map fun name => [name]).flatten,
        decide ((if r.allowAutoTopicCreation then 1 else 0 : UInt8) ≠ 0)⟩ := by
    have hflat : (r.topics.map fun name => [name]).flatten = r.topics := by
      rw [← List.flatMap_def, List.flatMap_singleton']
    rw [hflat]
    cases r with
    | mk header topics allow => cases allow <;> rfl
  refine (reads_readInt32 _).bind ?_
  rw [hint, hresult]
  exact hnames.bind ((decodes_readInt8 _).map _) y hy

theorem decodes_producePartition (p : ProducePartitionRequest) :
    Decodes producePartition (Wire.producePartition p) p := by
  rw [Wire.producePartition, mul_assoc]
  refine (decodes_readInt32 p.partitionIndex).bind ((decodes_compactBytes p.records).bind ?_)
  exact (decodes_skip 1).map _

/-- The unchecked read is an ordinary one when the bytes are there. -/
theorem decodes_unchecked {α : Type} {p : Reader α} {L : Language UInt8} {a : α}
    (h : Decodes p L a) (junk : α) : Decodes (unchecked p junk) L a := by
  intro bs hbs pre post
  rw [unchecked, runOn_tryCatch, h bs hbs pre post]

theorem decodes_fetchPartition (junk : Int32) (p : FetchPartitionRequest) :
    Decodes (fetchPartition junk) (Wire.fetchPartition p) p := by
  rw [Wire.fetchPartition]
  simp only [mul_assoc]
  refine (decodes_readInt32 p.partitionIndex).bind ((decodes_skip 4).bind ?_)
  refine (decodes_readInt64 p.fetchOffset).bind ((decodes_skip 4).bind ((decodes_skip 8).bind ?_))
  exact (decodes_unchecked (decodes_readInt32 p.maxBytes) junk).bind ((decodes_skip 1).map _)

theorem decodes_readUuid (id : Uuid) : Decodes readUuid {id.val} id :=
  (reads_readUuid id).decodes

/-- A repetition of fields of `n` bytes has as many bytes as it should. -/
theorem length_of_mem_anyBytes_pow {n k : ℕ} {bs : Bytes} (h : bs ∈ Wire.anyBytes n ^ k) :
    bs.length = k * n := by
  induction k generalizing bs with
  | zero =>
    rw [pow_zero] at h
    rw [(Language.mem_one bs).mp h]
    simp
  | succ k ih =>
    rw [pow_succ'] at h
    obtain ⟨x, hx, y, hy, rfl⟩ := Language.mem_mul.mp h
    have hxlen : x.length = n := hx
    rw [List.length_append, hxlen, ih hy]
    ring

theorem decodes_listOffsetsPartition (p : ListOffsetsPartitionRequest) :
    Decodes listOffsetsPartition (Wire.listOffsetsPartition p) p := by
  rw [Wire.listOffsetsPartition, mul_assoc]
  refine (decodes_readInt32 p.partitionIndex).bind ((decodes_readInt64 p.timestamp).bind ?_)
  exact (decodes_skip 1).map _

theorem decodes_offsetCommitPartition (p : OffsetCommitPartitionRequest) :
    Decodes offsetCommitPartition (Wire.offsetCommitPartition p) p := by
  rw [Wire.offsetCommitPartition, mul_assoc]
  refine (decodes_readInt32 p.partitionIndex).bind ((decodes_readInt64 p.committedOffset).bind ?_)
  exact (decodes_skip 1).map _

theorem decodes_findCoordinator (r : FindCoordinatorRequest) :
    Decodes (findCoordinator r.header) (Wire.clientId * Wire.findCoordinator r)
      (.findCoordinator r) := by
  rw [Wire.findCoordinator]
  simp only [mul_assoc]
  refine decodes_skipClientId_bind ((decodes_readCompactString r.coordinatorKey).bind ?_)
  exact (decodes_readInt8 r.keyType.toUInt8).bind ((decodes_skip 1).map _)

theorem decodes_joinGroupProtocol (p : JoinGroupProtocol) :
    Decodes joinGroupProtocol (Wire.joinGroupProtocol p) p := by
  rw [Wire.joinGroupProtocol, mul_assoc]
  refine (decodes_readCompactString p.name).bind ((decodes_compactBytes p.metadata).bind ?_)
  exact (decodes_skip 1).map _

theorem decodes_heartbeat (r : HeartbeatRequest) :
    Decodes (heartbeat r.header) (Wire.clientId * Wire.heartbeat r) (.heartbeat r) := by
  rw [Wire.heartbeat]
  simp only [mul_assoc]
  refine decodes_skipClientId_bind ((decodes_readCompactString r.groupId).bind ?_)
  refine (decodes_readInt32 r.generationId).bind ((decodes_readCompactString r.memberId).bind ?_)
  exact (decodes_readCompactString r.groupInstanceId).bind ((decodes_skip 1).map _)

theorem decodes_leaveGroup (r : LeaveGroupRequest) :
    Decodes (leaveGroup r.header) (Wire.clientId * Wire.leaveGroup r) (.leaveGroup r) := by
  rw [Wire.leaveGroup]
  simp only [mul_assoc]
  refine decodes_skipClientId_bind ((decodes_readCompactString r.groupId).bind ?_)
  exact (decodes_readCompactString r.memberId).bind ((decodes_skip 1).map _)

theorem decodes_syncGroupAssignment (a : SyncGroupAssignment) :
    Decodes syncGroupAssignment (Wire.syncGroupAssignment a) a := by
  rw [Wire.syncGroupAssignment, mul_assoc]
  refine (decodes_readCompactString a.memberId).bind ((decodes_compactBytes a.assignment).bind ?_)
  exact (decodes_skip 1).map _

/-! ### The arms with arrays -/

section LengthsBy

variable {len : ℕ → Language UInt8} (hlen : ∀ n, Counted arrayCount (len n) n)
include hlen

theorem decodes_produceTopic (t : ProduceTopicRequest) :
    Decodes produceTopic (Wire.produceTopicBy len t) t := by
  rw [Wire.produceTopicBy, mul_assoc]
  refine (decodes_readCompactString t.topicName).bind ?_
  exact decodes_compactArray_tag hlen decodes_producePartition t.partitions _

theorem decodes_produce (r : ProduceRequest) :
    Decodes (produce r.header) (Wire.clientId * Wire.produceBy len r) (.produce r) := by
  rw [Wire.produceBy]
  simp only [mul_assoc]
  refine decodes_skipClientId_bind (Decodes.bind decodes_skipCompact ?_)
  refine (skips_fixed 2 _).bind fun _ => (skips_fixed 4 _).bind fun _ => ?_
  exact decodes_compactArray_tag hlen (decodes_produceTopic hlen) r.topics _

theorem decodes_fetchTopic (junk : Int32) (t : FetchTopicRequest) :
    Decodes (fetchTopic junk) (Wire.fetchTopicBy len t) t := by
  rw [Wire.fetchTopicBy, mul_assoc]
  refine (decodes_readUuid t.topicId).bind ?_
  exact decodes_compactArray_tag hlen (decodes_fetchPartition junk) t.partitions _

theorem decodes_skipForgotten : Decodes skipForgotten (Wire.forgottenTopicBy len) () := by
  rw [Wire.forgottenTopicBy, mul_assoc]
  refine (decodes_skip 16).bind ?_
  rw [Wire.skippedArrayBy, Language.iSup_mul]
  refine Decodes.iSup fun n => ?_
  rw [mul_assoc]
  refine (hlen n).bind fun v hv => ?_
  rw [hv]
  have hparts : Decodes (skip (n * 4)) (Wire.anyBytes 4 ^ n) () := fun bs hbs =>
    decodes_skip (n * 4) bs (length_of_mem_anyBytes_pow hbs)
  exact hparts.bind (decodes_skip 1)

theorem decodes_fetch (junk : Int32) (r : FetchRequest) :
    Decodes (fetch junk r.header) (Wire.clientId * Wire.fetchBy len r) (.fetch r) := by
  rw [Wire.fetchBy]
  simp only [mul_assoc]
  refine decodes_skipClientId_bind ?_
  refine (skips_fixed 4 _).bind fun _ => (skips_fixed 4 _).bind fun _ => ?_
  refine (decodes_readInt32 r.maxBytes).bind ((skips_fixed 1 _).bind fun _ => ?_)
  refine (skips_fixed 4 _).bind fun _ => (skips_fixed 4 _).bind fun _ => ?_
  refine (decodes_compactArray hlen (decodes_fetchTopic hlen junk) r.topics).bind ?_
  refine (skips_compactArray hlen (decodes_skipForgotten hlen).skips).bind fun _ => ?_
  exact Decodes.bind decodes_skipCompact ((decodes_skip 1).map _)

theorem decodes_listOffsetsTopic (t : ListOffsetsTopicRequest) :
    Decodes listOffsetsTopic (Wire.listOffsetsTopicBy len t) t := by
  rw [Wire.listOffsetsTopicBy, mul_assoc]
  refine (decodes_readCompactString t.topicName).bind ?_
  exact decodes_compactArray_tag hlen decodes_listOffsetsPartition t.partitions _

theorem decodes_listOffsets (r : ListOffsetsRequest) :
    Decodes (listOffsets r.header) (Wire.clientId * Wire.listOffsetsBy len r) (.listOffsets r) := by
  rw [Wire.listOffsetsBy]
  simp only [mul_assoc]
  refine decodes_skipClientId_bind ((decodes_readInt32 r.replicaId).bind ?_)
  refine (decodes_readInt8 r.isolationLevel.toUInt8).bind ?_
  exact decodes_compactArray_tag hlen (decodes_listOffsetsTopic hlen) r.topics _

theorem decodes_offsetCommitTopic (t : OffsetCommitTopicRequest) :
    Decodes offsetCommitTopic (Wire.offsetCommitTopicBy len t) t := by
  rw [Wire.offsetCommitTopicBy, mul_assoc]
  refine (decodes_readCompactString t.topicName).bind ?_
  exact decodes_compactArray_tag hlen decodes_offsetCommitPartition t.partitions _

theorem decodes_offsetCommit (r : OffsetCommitRequest) :
    Decodes (offsetCommit r.header) (Wire.clientId * Wire.offsetCommitBy len r)
      (.offsetCommit r) := by
  rw [Wire.offsetCommitBy]
  simp only [mul_assoc]
  refine decodes_skipClientId_bind ((decodes_readCompactString r.groupId).bind ?_)
  refine (decodes_readCompactString r.memberId).bind ((decodes_readInt32 r.generationId).bind ?_)
  exact decodes_compactArray_tag hlen (decodes_offsetCommitTopic hlen) r.topics _

theorem decodes_offsetFetchTopic (t : OffsetFetchTopicRequest) :
    Decodes offsetFetchTopic (Wire.offsetFetchTopicBy len t) t := by
  rw [Wire.offsetFetchTopicBy, mul_assoc]
  refine (decodes_readCompactString t.topicName).bind ?_
  exact decodes_compactArray_tag hlen decodes_readInt32 t.partitionIndexes _

theorem decodes_offsetFetch (r : OffsetFetchRequest) :
    Decodes (offsetFetch r.header) (Wire.clientId * Wire.offsetFetchBy len r) (.offsetFetch r) := by
  rw [Wire.offsetFetchBy]
  simp only [mul_assoc]
  refine decodes_skipClientId_bind ((decodes_readCompactString r.groupId).bind ?_)
  exact decodes_compactArray_tag hlen (decodes_offsetFetchTopic hlen) r.topics _

theorem decodes_joinGroup (r : JoinGroupRequest) :
    Decodes (joinGroup r.header) (Wire.clientId * Wire.joinGroupBy len r) (.joinGroup r) := by
  rw [Wire.joinGroupBy]
  simp only [mul_assoc]
  refine decodes_skipClientId_bind ((decodes_readCompactString r.groupId).bind ?_)
  refine (decodes_readInt32 r.sessionTimeoutMs).bind ?_
  refine (decodes_readCompactString r.memberId).bind ?_
  refine (decodes_readCompactString r.protocolType).bind ?_
  exact decodes_compactArray_tag hlen decodes_joinGroupProtocol r.protocols _

theorem decodes_syncGroup (r : SyncGroupRequest) :
    Decodes (syncGroup r.header) (Wire.clientId * Wire.syncGroupBy len r) (.syncGroup r) := by
  rw [Wire.syncGroupBy]
  simp only [mul_assoc]
  refine decodes_skipClientId_bind ((decodes_readCompactString r.groupId).bind ?_)
  refine (decodes_readInt32 r.generationId).bind ((decodes_readCompactString r.memberId).bind ?_)
  exact decodes_compactArray_tag hlen decodes_syncGroupAssignment r.assignments _

/-- The arm that the header selects decodes the body. -/
theorem decodes_body (junk : Int32) (r : Request) (hkey : r.header.apiKey = r.kindKey)
    (hnames : ∀ d, r = .describeTopicPartitions d →
      Counted (fun v => (v - 1).toNat) (len d.topicNames.length) d.topicNames.length) :
    Decodes (body junk r.header) (r.bodyEncodingsBy len) r := by
  cases r <;> simp only [Request.header, Request.kindKey] at hkey <;>
    simp only [Request.header, Request.bodyEncodingsBy, body, hkey]
  case apiVersions r => exact Decodes.pure _
  case describeTopicPartitions r => exact decodes_describeTopicPartitions r (hnames r rfl)
  case fetch r => exact decodes_fetch hlen junk r
  case findCoordinator r => exact decodes_findCoordinator r
  case heartbeat r => exact decodes_heartbeat r
  case joinGroup r => exact decodes_joinGroup hlen r
  case leaveGroup r => exact decodes_leaveGroup r
  case listOffsets r => exact decodes_listOffsets hlen r
  case metadata r => exact decodes_metadata r
  case offsetCommit r => exact decodes_offsetCommit hlen r
  case offsetFetch r => exact decodes_offsetFetch hlen r
  case produce r => exact decodes_produce hlen r
  case syncGroup r => exact decodes_syncGroup hlen r

theorem decodes_request (junk : Int32) (r : Request) (hkey : r.header.apiKey = r.kindKey)
    (hnames : ∀ d, r = .describeTopicPartitions d →
      Counted (fun v => (v - 1).toNat) (len d.topicNames.length) d.topicNames.length) :
    Decodes (request junk) (r.encodingsBy len) r :=
  (decodes_requestHeader r.header).bind (decodes_body hlen junk r hkey hnames)

end LengthsBy

theorem decodes_encodings (junk : Int32) (r : Request) (hkey : r.header.apiKey = r.kindKey) :
    Decodes (request junk) r.encodings r := by
  rw [← Request.encodingsBy_compactLength]
  exact decodes_request counted_compactLength junk r hkey
    fun d _ => counted_compactLength_sub d.topicNames.length

end Parser

/-- **Decoding undoes encoding.** Every encoding of a request of any of the thirteen kinds,
with whatever values in the fields that are skipped, is parsed as exactly that request, and
the reader ends at the end of the encoding. -/
theorem request_of_mem_encodings (junk : Int32) (r : Request) (bs : Bytes)
    (hkey : r.header.apiKey = r.kindKey) (hbs : bs ∈ r.encodings) :
    (Parser.request junk).runOn ⟨bs, 0⟩ = (.ok r, ⟨bs, bs.length⟩) :=
  (Parser.decodes_encodings junk r hkey bs hbs).run

/-- A Produce request with one topic and one partition. -/
def produceOneBatch : Request := .produce ⟨⟨0, 11, 7⟩, [⟨ascii "t", [⟨3, [1, 2]⟩]⟩]⟩

/-- One of its encodings: null client id, transactional id `x`, and tag bytes that are not
zero. -/
def produceOneBatchBytes : Bytes :=
  ([0, 0] ++ [0, 11] ++ [0, 0, 0, 7]) ++ (([255, 255] ++ [9]) ++
    (([2] ++ ascii "x") ++ [0, 1] ++ [0, 0, 0, 5] ++
      ([2] ++ (([2] ++ ascii "t") ++
        ([2] ++ ([0, 0, 0, 3] ++ ([3] ++ [1, 2]) ++ [8])) ++ [8])) ++ [9]))

theorem request_of_mem_encodings_produceOneBatch :
    produceOneBatchBytes ∈ produceOneBatch.encodings ∧
    (Parser.request 0).runOn ⟨produceOneBatchBytes, 0⟩ =
      (.ok produceOneBatch, ⟨produceOneBatchBytes, produceOneBatchBytes.length⟩) := by
  have hlength : ∀ n, n < 10 → [UInt8.ofNat (n + 1)] ∈ Wire.compactLength n := by
    intro n hn
    exact ⟨by omega, by interval_cases n <;> rfl⟩
  have hstring : ∀ s : Bytes, s.length < 10 →
      [UInt8.ofNat (s.length + 1)] ++ s ∈ Wire.compactString s :=
    fun s hs => Language.append_mem_mul (hlength _ hs) rfl
  have hpart : ([0, 0, 0, 3] ++ ([3] ++ [1, 2]) ++ [8] : Bytes) ∈
      Wire.producePartition ⟨3, [1, 2]⟩ :=
    Language.append_mem_mul (Language.append_mem_mul rfl (hstring [1, 2] (by decide))) rfl
  have htopic : (([2] ++ ascii "t") ++ ([2] ++ ([0, 0, 0, 3] ++ ([3] ++ [1, 2]) ++ [8])) ++
      [8] : Bytes) ∈ Wire.produceTopic ⟨ascii "t", [⟨3, [1, 2]⟩]⟩ := by
    refine Language.append_mem_mul (Language.append_mem_mul (hstring (ascii "t") (by decide))
      (Language.append_mem_mul (hlength 1 (by decide)) ?_)) rfl
    rw [List.map_singleton, List.prod_singleton]
    exact hpart
  have hmem : produceOneBatchBytes ∈ produceOneBatch.encodings := by
    refine Language.append_mem_mul
      (Language.append_mem_mul (Language.append_mem_mul rfl rfl) rfl)
      (Language.append_mem_mul (Language.append_mem_mul (.inl rfl) rfl) ?_)
    refine Language.append_mem_mul (Language.append_mem_mul (Language.append_mem_mul
      (Language.append_mem_mul (.inr ?_) rfl) rfl)
      (Language.append_mem_mul (hlength 1 (by decide)) ?_)) rfl
    · exact Language.mem_iSup.mpr ⟨ascii "x", hstring (ascii "x") (by decide)⟩
    · rw [List.map_singleton, List.prod_singleton]
      exact htopic
  exact ⟨hmem, request_of_mem_encodings 0 _ _ rfl hmem⟩

end TinyKafka
