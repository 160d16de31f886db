import TinyKafka.ForMathlib.LastIndex
import TinyKafka.Cluster.Metadata
import TinyKafka.Protocol.Parser

/-!
# Parsing the cluster metadata log

`parse_cluster_metadata` walks the batches of a metadata log, collects the topic records and
the partition records, and joins them on the topic's id.

Inside a batch nothing is an error: wherever a read fails, the record loop continues with the
next turn, from wherever the reader stands. Here such a `continue` is a failure of the turn,
which the loop ignores (`CursorM.attempt`). A failure of a read in the batch header is a
`break` of the outer loop.

The maps of the result hold indices of topics by their type. What they say is that each name
and each id leads to the last topic with it, for every input
(`parseClusterMetadata_consistent`).
-/

namespace TinyKafka

open CursorM ByteReader

/-! ### The records -/

/-- `RawTopicRecord`. -/
structure RawTopicRecord where
  name : Bytes
  uuid : Uuid
  deriving DecidableEq

/-- `RawPartitionRecord`. -/
structure RawPartitionRecord where
  partitionId : Int32
  uuid : Uuid
  deriving DecidableEq

/-- What one record of the log contributes. The vectors `topic_records` and
`partition_records` of the source are the two kinds of these in order. -/
inductive RawRecord
  | topic (tr : RawTopicRecord)
  | partition (pr : RawPartitionRecord)
  deriving DecidableEq

namespace RawRecord

def topic? : RawRecord → Option RawTopicRecord
  | topic tr => some tr
  | partition _ => none

def partition? : RawRecord → Option RawPartitionRecord
  | topic _ => none
  | partition pr => some pr

end RawRecord

/-- The source's `continue` and `break` on a condition that is not a failed read. -/
def giveUp {α : Type} : Reader α := throw (.errc .messageSize)

/-- `skip_varint`. -/
def skipVarint : Reader Unit := do
  let _ ← readVarint

/-- The value of a record, read by a reader of its own: a frame version, an api key and a
version, and then what the two known kinds of record start with. -/
def parseRecordValue : Reader (Option RawRecord) := do
  let _frameVersion ← readVarint
  let apiKey ← readVarint
  let _version ← readVarint
  if apiKey = 2 then
    let name ← readCompactString
    let uuid ← Parser.readUuid
    pure (some (.topic ⟨name, uuid⟩))
  else if apiKey = 3 then
    if (← remaining) < 4 + 16 then giveUp
    else
      let partitionId ← readInt32
      let uuid ← Parser.readUuid
      pure (some (.partition ⟨partitionId, uuid⟩))
  else pure none

/-- `if (len > 0) { ... skip(len) ... }` behind a length. -/
def skipSized : Reader Unit := do
  let len ← readSignedVarint
  if 0 < len then skip len.toInt.toNat

/-- The header loop. A header that cannot be read does not end it. -/
def skipRecordHeaders : (count : ℕ) → Reader Unit
  | 0 => pure ()
  | count + 1 => do
    let _ ← attempt do
      skipSized
      skipSized
    skipRecordHeaders count

/-- The headers of a record, and whatever is left of it up to `rec_end`. -/
def skipToRecordEnd (recEnd : ℕ) : Reader Unit := do
  let headerCount ← readSignedVarint
  skipRecordHeaders headerCount.toInt.toNat
  let here ← offset
  if here < recEnd then skip (recEnd - here)

/-- A record from the length of its value on. A value of less than three bytes is not read at
all, and behind a value that cannot be decoded the headers are not skipped. -/
def parseMetadataValue (recEnd : ℕ) : Reader (Option RawRecord) := do
  let valueLen ← readSignedVarint
  if valueLen < 3 then
    let _headerCount ← readSignedVarint
    pure none
  else
    let value ← readBytes valueLen.toInt.toNat
    match (parseRecordValue.runOn ⟨value, 0⟩).1 with
    | .error e => throw e
    | .ok raw =>
      -- the record has been taken up already when the rest of it cannot be skipped
      let _ ← attempt (skipToRecordEnd recEnd)
      pure raw

/-- One turn of the record loop. -/
def parseMetadataRecord : Reader (Option RawRecord) := do
  let recLen ← readSignedVarint
  if recLen < 0 then giveUp
  else
    let start ← offset
    let _attr ← readInt8
    skipVarint
    skipVarint
    skipSized
    parseMetadataValue (start + recLen.toInt.toNat)

/-- The record loop of a batch. -/
def parseMetadataRecords (batchEnd : ℕ) : (count : ℕ) → Reader (List RawRecord)
  | 0 => pure []
  | count + 1 => do
    let here ← offset
    if batchEnd ≤ here then pure []
    else
      let raw ← attempt parseMetadataRecord
      let raws ← parseMetadataRecords batchEnd count
      pure (raw.join.toList ++ raws)

/-- The header of a batch: where it ends, and its number of records. -/
def parseMetadataBatchHeader : Reader (ℕ × Int32) := do
  skip 8
  let batchLen ← readInt32
  if batchLen < 0 then giveUp
  else
    let start ← offset
    skip 4
    let magic ← readInt8
    if magic ≠ 2 then giveUp
    else
      skip 4
      skip 2
      let lastOffsetDelta ← readInt32
      skip 8
      skip 8
      skip 8
      skip 2
      skip 4
      pure (start + batchLen.toInt.toNat, lastOffsetDelta + 1)

/-- The batch loop. Every turn takes the 57 bytes of a batch header or is the last one, so the
size of the data bounds the number of turns. -/
def parseMetadataBatches : (fuel : ℕ) → Reader (List RawRecord)
  | 0 => pure []
  | fuel + 1 => do
    let left ← remaining
    if left < 57 then pure []
    else
      match ← attempt parseMetadataBatchHeader with
      | none => pure []
      | some (batchEnd, recordCount) =>
        let raws ← parseMetadataRecords batchEnd recordCount.toInt.toNat
        let more ← parseMetadataBatches fuel
        pure (raws ++ more)

/-- The records that the loops collect. -/
def rawRecords (data : Bytes) : List RawRecord :=
  match ((parseMetadataBatches data.length).runOn ⟨data, 0⟩).1 with
  | .ok raws => raws
  | .error _ => []

/-! ### The join -/

/-- `partitions.push_back`. -/
def TopicInfo.pushPartition (t : TopicInfo) (partitionId : Int32) : TopicInfo :=
  { t with partitions := t.partitions ++ [partitionId] }

namespace ClusterMetadata

/-- `ClusterMetadata{}`. -/
def empty : ClusterMetadata := ⟨[], fun _ => none, fun _ => none⟩

/-- A turn of the loop over the topic records. -/
def addTopic (m : ClusterMetadata) (tr : RawTopicRecord) : ClusterMetadata where
  topics := m.topics ++ [⟨tr.name, tr.uuid, []⟩]
  nameToTopic name :=
    if name = tr.name then some ⟨m.topics.length, by simp⟩
    else (m.nameToTopic name).map (Fin.castLE (by simp))
  uuidToTopic uuid :=
    if uuid = tr.uuid then some ⟨m.topics.length, by simp⟩
    else (m.uuidToTopic uuid).map (Fin.castLE (by simp))

/-- A turn of the loop over the partition records. -/
def addPartition (m : ClusterMetadata) (pr : RawPartitionRecord) : ClusterMetadata :=
  match m.uuidToTopic pr.uuid with
  | none => m
  | some i =>
    { topics := m.topics.modify i (·.pushPartition pr.partitionId)
      nameToTopic := fun name => (m.nameToTopic name).map (Fin.cast (by simp))
      uuidToTopic := fun uuid => (m.uuidToTopic uuid).map (Fin.cast (by simp)) }

/-- The two loops behind the parser. -/
def join (topicRecords : List RawTopicRecord) (partitionRecords : List RawPartitionRecord) :
    ClusterMetadata :=
  partitionRecords.foldl addPartition (topicRecords.foldl addTopic empty)

end ClusterMetadata

/-- `parse_cluster_metadata`; it never returns an error. -/
def parseClusterMetadata (data : Bytes) : ClusterMetadata :=
  let raws := rawRecords data
  .join (raws.filterMap RawRecord.topic?) (raws.filterMap RawRecord.partition?)

namespace ClusterMetadata

variable {m : ClusterMetadata}

/-- The names of the topics in order. -/
def names (m : ClusterMetadata) : List Bytes := m.topics.map TopicInfo.name

/-- The ids of the topics in order. -/
def uuids (m : ClusterMetadata) : List Uuid := m.topics.map TopicInfo.uuid

/-- `name_to_topic` with plain numbers. -/
def nameIndex (m : ClusterMetadata) (name : Bytes) : Option ℕ :=
  (m.nameToTopic name).map Fin.val

/-- `uuid_to_topic` with plain numbers. -/
def uuidIndex (m : ClusterMetadata) (uuid : Uuid) : Option ℕ :=
  (m.uuidToTopic uuid).map Fin.val

/-- The maps lead to the last topic with a name and with an id. -/
structure Indexed (m : ClusterMetadata) : Prop where
  byName : IndexesLast m.names m.nameIndex
  byUuid : IndexesLast m.uuids m.uuidIndex

theorem indexed_empty : empty.Indexed := ⟨.nil, .nil⟩

/-- An entry that is overwritten or kept, with plain numbers. -/
private theorem map_val_overwrite {n n' : ℕ} (hn : n ≤ n') (c : Prop) [Decidable c]
    (i : Fin n') (o : Option (Fin n)) :
    (if c then some i else o.map (Fin.castLE hn)).map Fin.val =
      if c then some i.val else o.map Fin.val := by
  split
  · rfl
  · rw [Option.map_map]
    rfl

theorem Indexed.addTopic (h : m.Indexed) (tr : RawTopicRecord) : (m.addTopic tr).Indexed := by
  have hnames : (m.addTopic tr).names = m.names ++ [tr.name] := by
    simp [names, ClusterMetadata.addTopic]
  have huuids : (m.addTopic tr).uuids = m.uuids ++ [tr.uuid] := by
    simp [uuids, ClusterMetadata.addTopic]
  have hnameIndex : (m.addTopic tr).nameIndex =
      fun name => if name = tr.name then some m.names.length else m.nameIndex name := by
    funext name
    rw [nameIndex, ClusterMetadata.addTopic, map_val_overwrite, names, List.length_map, nameIndex]
  have huuidIndex : (m.addTopic tr).uuidIndex =
      fun uuid => if uuid = tr.uuid then some m.uuids.length else m.uuidIndex uuid := by
    funext uuid
    rw [uuidIndex, ClusterMetadata.addTopic, map_val_overwrite, uuids, List.length_map, uuidIndex]
  constructor
  · rw [hnames, hnameIndex]
    exact h.byName.append tr.name
  · rw [huuids, huuidIndex]
    exact h.byUuid.append tr.uuid

/-- What a partition record changes: the partitions of the topic that its id leads to. -/
theorem getElem?_topics_addPartition (m : ClusterMetadata) (pr : RawPartitionRecord) (i : ℕ) :
    (m.addPartition pr).topics[i]? = m.topics[i]?.map fun t =>
      if m.uuidIndex pr.uuid = some i then t.pushPartition pr.partitionId else t := by
  rw [addPartition, uuidIndex]
  rcases m.uuidToTopic pr.uuid with _ | k
  · simp
  · dsimp only
    rw [List.getElem?_modify, Option.map_some]
    rcases m.topics[i]? with _ | t
    · rfl
    · by_cases hi : k.val = i <;> simp [hi]

/-- The names and the ids stay. -/
theorem map_topics_addPartition {β : Type} {g : TopicInfo → β}
    (hg : ∀ (t : TopicInfo) (p : Int32), g (t.pushPartition p) = g t) (m : ClusterMetadata)
    (pr : RawPartitionRecord) : (m.addPartition pr).topics.map g = m.topics.map g := by
  refine List.ext_getElem? fun i => ?_
  rw [List.getElem?_map, getElem?_topics_addPartition, Option.map_map, List.getElem?_map]
  refine congrArg (m.topics[i]?.map ·) (funext fun t => ?_)
  simp only [Function.comp_apply]
  split
  · exact hg t _
  · rfl

/-- The maps stay. -/
theorem index_addPartition (m : ClusterMetadata) (pr : RawPartitionRecord) :
    (m.addPartition pr).nameIndex = m.nameIndex ∧ (m.addPartition pr).uuidIndex = m.uuidIndex := by
  rw [addPartition]
  split
  next => exact ⟨rfl, rfl⟩
  next k _ =>
    constructor
    · funext name
      rw [nameIndex, Option.map_map]
      rfl
    · funext uuid
      rw [uuidIndex, Option.map_map]
      rfl

theorem Indexed.addPartition (h : m.Indexed) (pr : RawPartitionRecord) :
    (m.addPartition pr).Indexed := by
  obtain ⟨hnameIndex, huuidIndex⟩ := index_addPartition m pr
  constructor
  · rw [hnameIndex, names, map_topics_addPartition fun _ _ => rfl]
    exact h.byName
  · rw [huuidIndex, uuids, map_topics_addPartition fun _ _ => rfl]
    exact h.byUuid

/-! ### Both loops -/

theorem indexed_foldl_addTopic (h : m.Indexed) (trs : List RawTopicRecord) :
    (trs.foldl addTopic m).Indexed := by
  induction trs generalizing m with
  | nil => exact h
  | cons tr trs ih => exact ih (h.addTopic tr)

theorem indexed_foldl_addPartition (h : m.Indexed) (prs : List RawPartitionRecord) :
    (prs.foldl addPartition m).Indexed := by
  induction prs generalizing m with
  | nil => exact h
  | cons pr prs ih => exact ih (h.addPartition pr)

theorem indexed_join (trs : List RawTopicRecord) (prs : List RawPartitionRecord) :
    (join trs prs).Indexed :=
  indexed_foldl_addPartition (indexed_foldl_addTopic indexed_empty trs) prs

theorem topics_foldl_addTopic (m : ClusterMetadata) (trs : List RawTopicRecord) :
    (trs.foldl addTopic m).topics = m.topics ++ trs.map fun tr => ⟨tr.name, tr.uuid, []⟩ := by
  induction trs generalizing m with
  | nil => rw [List.foldl_nil, List.map_nil, List.append_nil]
  | cons tr trs ih =>
    rw [List.foldl_cons, ih, List.map_cons, addTopic, List.append_assoc, List.singleton_append]

/-- The loop over the partition records appends each of them to the topic that its id leads
to. -/
theorem getElem?_topics_foldl_addPartition (m : ClusterMetadata) (prs : List RawPartitionRecord)
    (i : ℕ) :
    (prs.foldl addPartition m).topics[i]? = m.topics[i]?.map fun t =>
      { t with
        partitions := t.partitions ++ (prs.filter fun pr => m.uuidIndex pr.uuid = some i).map
          RawPartitionRecord.partitionId } := by
  induction prs generalizing m with
  | nil =>
    simp only [List.foldl_nil, List.filter_nil, List.map_nil, List.append_nil]
    exact Option.map_id'.symm
  | cons pr prs ih =>
    rw [List.foldl_cons, ih, (index_addPartition m pr).2, getElem?_topics_addPartition,
      Option.map_map]
    refine congrArg (m.topics[i]?.map ·) (funext fun t => ?_)
    by_cases hi : m.uuidIndex pr.uuid = some i
    · simp [hi, TopicInfo.pushPartition]
    · simp [hi]

theorem uuidIndex_foldl_addPartition (m : ClusterMetadata) (prs : List RawPartitionRecord) :
    (prs.foldl addPartition m).uuidIndex = m.uuidIndex := by
  induction prs generalizing m with
  | nil => rfl
  | cons pr prs ih => rw [List.foldl_cons, ih, (index_addPartition m pr).2]

/-- The topics of a join: those of the topic records, with the partitions whose id leads to
them. -/
theorem getElem?_topics_join (trs : List RawTopicRecord) (prs : List RawPartitionRecord) (i : ℕ) :
    (join trs prs).topics[i]? = trs[i]?.map fun tr =>
      ⟨tr.name, tr.uuid, (prs.filter fun pr => (join trs prs).uuidIndex pr.uuid = some i).map
        RawPartitionRecord.partitionId⟩ := by
  have huuidIndex : (join trs prs).uuidIndex = (trs.foldl addTopic empty).uuidIndex :=
    uuidIndex_foldl_addPartition _ prs
  rw [huuidIndex, join, getElem?_topics_foldl_addPartition, topics_foldl_addTopic]
  simp [empty, Function.comp_def]

theorem uuids_join (trs : List RawTopicRecord) (prs : List RawPartitionRecord) :
    (join trs prs).uuids = trs.map RawTopicRecord.uuid := by
  refine List.ext_getElem? fun i => ?_
  rw [uuids, List.getElem?_map, getElem?_topics_join, Option.map_map, List.getElem?_map]
  rfl

/-! ### What the join is for -/

/-- The partitions of an id, in order. -/
def partitionsOf (prs : List RawPartitionRecord) (uuid : Uuid) : List Int32 :=
  (prs.filter fun pr => pr.uuid = uuid).map RawPartitionRecord.partitionId

/-- The topics in order, where the last one with an id has all partitions of the id, and the
ones before it have none. -/
def joinedTopics : List RawTopicRecord → List RawPartitionRecord → List TopicInfo
  | [], _ => []
  | tr :: trs, prs =>
    ⟨tr.name, tr.uuid, if tr.uuid ∈ trs.map RawTopicRecord.uuid then [] else
      partitionsOf prs tr.uuid⟩ :: joinedTopics trs prs

theorem getElem?_joinedTopics (trs : List RawTopicRecord) (prs : List RawPartitionRecord)
    (i : ℕ) :
    (joinedTopics trs prs)[i]? = trs[i]?.map fun tr =>
      ⟨tr.name, tr.uuid, if tr.uuid ∈ (trs.map RawTopicRecord.uuid).drop (i + 1) then [] else
        partitionsOf prs tr.uuid⟩ := by
  induction trs generalizing i with
  | nil => rfl
  | cons tr trs ih =>
    cases i with
    | zero => rfl
    | succ i =>
      rw [joinedTopics, List.getElem?_cons_succ, ih, List.getElem?_cons_succ]
      rfl

/-- An id leads to a topic when it is the topic's id and no later topic has it. -/
theorem uuidIndex_join_iff {trs : List RawTopicRecord} {prs : List RawPartitionRecord} {i : ℕ}
    {tr : RawTopicRecord} (htr : trs[i]? = some tr) (uuid : Uuid) :
    (join trs prs).uuidIndex uuid = some i ↔
      uuid = tr.uuid ∧ tr.uuid ∉ (trs.map RawTopicRecord.uuid).drop (i + 1) := by
  rw [(indexed_join trs prs).byUuid, IsLastIndex.iff_notMem_drop, uuids_join, List.getElem?_map,
    htr, Option.map_some, Option.some.injEq]
  constructor
  · rintro ⟨rfl, hlater⟩
    exact ⟨rfl, hlater⟩
  · rintro ⟨rfl, hlater⟩
    exact ⟨rfl, hlater⟩

/-- **The two loops compute the join.** -/
theorem topics_join (trs : List RawTopicRecord) (prs : List RawPartitionRecord) :
    (join trs prs).topics = joinedTopics trs prs := by
  refine List.ext_getElem? fun i => ?_
  rw [getElem?_topics_join, getElem?_joinedTopics]
  rcases htr : trs[i]? with _ | tr
  · rfl
  · simp only [Option.map_some, Option.some.injEq, TopicInfo.mk.injEq, true_and,
      uuidIndex_join_iff htr]
    split
    next hlater => simp [hlater]
    next hlater => simp [hlater, partitionsOf]

/-! ### Consistency -/

/-- Only the last topic with an id has partitions. -/
def PartitionsLast (m : ClusterMetadata) : Prop :=
  ∀ (i : ℕ) (t : TopicInfo), m.topics[i]? = some t → t.partitions ≠ [] →
    IsLastIndex m.uuids t.uuid i

/-- What the handlers rely on when they look up a topic. -/
structure Consistent (m : ClusterMetadata) : Prop where
  /-- A name leads to the last topic with it. -/
  name_iff : ∀ (name : Bytes) (i : Fin m.topics.length),
    m.nameToTopic name = some i ↔ IsLastIndex m.names name i
  /-- An id leads to the last topic with it. -/
  uuid_iff : ∀ (uuid : Uuid) (i : Fin m.topics.length),
    m.uuidToTopic uuid = some i ↔ IsLastIndex m.uuids uuid i
  /-- The keys are the names of the topics. -/
  name_isSome : ∀ name, (m.nameToTopic name).isSome ↔ ∃ t ∈ m.topics, t.name = name
  /-- The keys are the ids of the topics. -/
  uuid_isSome : ∀ uuid, (m.uuidToTopic uuid).isSome ↔ ∃ t ∈ m.topics, t.uuid = uuid
  /-- A lookup by name finds a topic of that name. -/
  findTopicByName : ∀ name t, m.findTopicByName name = some t → t ∈ m.topics ∧ t.name = name
  /-- A lookup by id finds a topic of that id. -/
  findTopicByUuid : ∀ uuid t, m.findTopicByUuid uuid = some t → t ∈ m.topics ∧ t.uuid = uuid
  partitions : m.PartitionsLast
  /-- When an id has one name only, it leads back to the topic found by name. -/
  uuid_of_name : (∀ t ∈ m.topics, ∀ t' ∈ m.topics, t.uuid = t'.uuid → t.name = t'.name) →
    ∀ (name : Bytes) (i : Fin m.topics.length), m.nameToTopic name = some i →
      m.uuidToTopic (m.topics.get i).uuid = some i

theorem partitionsLast_join (trs : List RawTopicRecord) (prs : List RawPartitionRecord) :
    (join trs prs).PartitionsLast := by
  intro i t ht hne
  rw [topics_join, getElem?_joinedTopics] at ht
  obtain ⟨tr, htr, rfl⟩ := Option.map_eq_some_iff.mp ht
  rw [← (indexed_join trs prs).byUuid, uuidIndex_join_iff htr]
  refine ⟨rfl, fun hlater => hne ?_⟩
  dsimp only
  rw [if_pos hlater]

theorem nameToTopic_eq_some_iff {name : Bytes} {i : Fin m.topics.length} :
    m.nameToTopic name = some i ↔ m.nameIndex name = some i.val := by
  rw [nameIndex, Option.map_eq_some_iff]
  constructor
  · intro h
    exact ⟨i, h, rfl⟩
  · rintro ⟨j, hj, hval⟩
    rw [hj, Fin.ext hval]

theorem uuidToTopic_eq_some_iff {uuid : Uuid} {i : Fin m.topics.length} :
    m.uuidToTopic uuid = some i ↔ m.uuidIndex uuid = some i.val := by
  rw [uuidIndex, Option.map_eq_some_iff]
  constructor
  · intro h
    exact ⟨i, h, rfl⟩
  · rintro ⟨j, hj, hval⟩
    rw [hj, Fin.ext hval]

/-- The maps and the partitions together give consistency. -/
theorem Indexed.consistent (h : m.Indexed) (hlast : m.PartitionsLast) : m.Consistent := by
  have hname : ∀ (name : Bytes) (i : Fin m.topics.length),
      m.nameToTopic name = some i ↔ IsLastIndex m.names name i :=
    fun name i => nameToTopic_eq_some_iff.trans (h.byName name i)
  have huuid : ∀ (uuid : Uuid) (i : Fin m.topics.length),
      m.uuidToTopic uuid = some i ↔ IsLastIndex m.uuids uuid i :=
    fun uuid i => uuidToTopic_eq_some_iff.trans (h.byUuid uuid i)
  refine ⟨hname, huuid, fun name => ?_, fun uuid => ?_, fun name t ht => ?_, fun uuid t ht => ?_,
    hlast, fun hnames name i hi => ?_⟩
  · have hmem := h.byName.isSome_iff_mem (k := name)
    rwa [nameIndex, Option.isSome_map, names, List.mem_map] at hmem
  · have hmem := h.byUuid.isSome_iff_mem (k := uuid)
    rwa [uuidIndex, Option.isSome_map, uuids, List.mem_map] at hmem
  · obtain ⟨i, hi, rfl⟩ := Option.map_eq_some_iff.mp ht
    have hget := ((hname name i).mp hi).getElem?
    exact ⟨List.getElem_mem _, by simpa [names] using hget⟩
  · obtain ⟨i, hi, rfl⟩ := Option.map_eq_some_iff.mp ht
    have hget := ((huuid uuid i).mp hi).getElem?
    exact ⟨List.getElem_mem _, by simpa [uuids] using hget⟩
  · obtain ⟨hget, hlater⟩ := (hname name i).mp hi
    have hni : (m.topics.get i).name = name := by simpa [names] using hget
    refine (huuid _ i).mpr ⟨by simp [uuids], fun j hj hjget => ?_⟩
    -- a later topic with the id has its name, and the name leads no further than `i`
    rw [uuids, List.getElem?_map] at hjget
    obtain ⟨t, ht, htuuid⟩ := Option.map_eq_some_iff.mp hjget
    have htname := hnames t (List.mem_of_getElem? ht) _ (List.getElem_mem i.isLt) htuuid
    refine hlater j hj ?_
    rw [names, List.getElem?_map, ht, Option.map_some, htname]
    exact congrArg some hni

end ClusterMetadata

/-- **The parsed metadata are consistent**, whatever the bytes are. -/
theorem parseClusterMetadata_consistent (data : Bytes) : (parseClusterMetadata data).Consistent :=
  (ClusterMetadata.indexed_join _ _).consistent (ClusterMetadata.partitionsLast_join _ _)

end TinyKafka
