import TinyKafka.Broker.Broker
import TinyKafka.Broker.GroupStructure
import TinyKafka.Broker.PartitionExistence

/-!
# What an answer is

`RecordHandler.Answers` says what a client can rely on in a response, whatever the state of the
broker: it is of the kind of the request and has its correlation id, and it has an entry for every
topic and partition that was asked for, in the order in which they were. DescribeTopicPartitions
sorts its entries by name, a Metadata request without topics asks for all of them, and for an
unknown topic Fetch answers with the one index `0`.

`answers_handle`: every response of `Broker::handle` is an answer in this sense.
-/

namespace TinyKafka

open OptionT (Yields)

/-- The response answers the request. -/
def RecordHandler.Answers (h : RecordHandler) : Request → Response → Prop
  | .apiVersions q, .apiVersions r => r.correlationId = q.header.correlationId
  | .describeTopicPartitions q, .describeTopicPartitions r =>
    r.correlationId = q.header.correlationId ∧
      (r.topics.map TopicMetadata.topicName).Perm q.topicNames ∧
      r.topics.Pairwise (fun t t' => t.topicName ≤ t'.topicName)
  | .fetch q, .fetch r =>
    r.correlationId = q.header.correlationId ∧
      List.Forall₂ (fun t tr => tr.topicId = t.topicId ∧
        tr.partitions.map FetchPartitionResponse.partitionIndex = h.answeredIndexes t)
        q.topics r.responses
  | .findCoordinator q, .findCoordinator r => r.correlationId = q.header.correlationId
  | .heartbeat q, .heartbeat r => r.correlationId = q.header.correlationId
  | .joinGroup q, .joinGroup r =>
    r.correlationId = q.header.correlationId ∧ (q.memberId ≠ [] → r.memberId = q.memberId) ∧
      r.memberId ∈ r.members.map JoinGroupMember.memberId
  | .leaveGroup q, .leaveGroup r => r.correlationId = q.header.correlationId
  | .listOffsets q, .listOffsets r =>
    r.correlationId = q.header.correlationId ∧
      List.Forall₂ (fun t tr => tr.topicName = t.topicName ∧
        tr.partitions.map ListOffsetsPartitionResponse.partitionIndex =
          t.partitions.map ListOffsetsPartitionRequest.partitionIndex) q.topics r.topics
  | .metadata q, .metadata r =>
    r.correlationId = q.header.correlationId ∧
      r.topics.map MetadataTopicResponse.topicName =
        MetadataHandler.requestedTopics h.metadata q
  | .offsetCommit q, .offsetCommit r =>
    r.correlationId = q.header.correlationId ∧
      List.Forall₂ (fun t tr => tr.topicName = t.topicName ∧
        tr.partitions.map OffsetCommitPartitionResponse.partitionIndex =
          t.partitions.map OffsetCommitPartitionRequest.partitionIndex) q.topics r.topics
  | .offsetFetch q, .offsetFetch r =>
    r.correlationId = q.header.correlationId ∧
      List.Forall₂ (fun t tr => tr.topicName = t.topicName ∧
        tr.partitions.map OffsetFetchPartitionResponse.partitionIndex = t.partitionIndexes)
        q.topics r.topics
  | .produce q, .produce r =>
    r.correlationId = q.header.correlationId ∧
      List.Forall₂ (fun t tr => tr.topicName = t.topicName ∧
        tr.partitions.map ProducePartitionResponse.partitionIndex =
          t.partitions.map ProducePartitionRequest.partitionIndex) q.topics r.responses
  | .syncGroup q, .syncGroup r => r.correlationId = q.header.correlationId
  | _, _ => False

namespace RecordHandler

variable {h : RecordHandler}

/-! ### Records -/

/-- A loop with one entry for every turn. -/
theorem map_eq_of_forall₂ {α β γ : Type} {f : α → γ} {g : β → γ} {l : List α} {l' : List β}
    (hl : List.Forall₂ (fun a b => g b = f a) l l') : l'.map g = l.map f := by
  rw [← List.forall₂_eq_eq_eq, List.forall₂_map_left_iff, List.forall₂_map_right_iff]
  exact hl.flip

theorem yields_listOffsetsPartition (topic : Bytes) (p : ListOffsetsPartitionRequest) :
    Yields (h.listOffsetsPartition topic p) fun q => q.partitionIndex = p.partitionIndex := by
  rw [listOffsetsPartition]
  dsimp only
  split
  · split
    · exact Yields.pure rfl
    · split
      · exact Yields.ofRun fun s q hq => Option.some.inj hq ▸ rfl
      · exact Yields.pure rfl
  · exact Yields.pure rfl

theorem yields_handleListOffsets (r : ListOffsetsRequest) :
    Yields (h.handleListOffsets r) fun resp => h.Answers (.listOffsets r) (.listOffsets resp) := by
  refine Yields.bind (Yields.mapM_forall₂ fun t _ => ?_) fun ts hts => Yields.pure ⟨rfl, hts⟩
  refine Yields.bind (Yields.mapM_forall₂ fun p _ => yields_listOffsetsPartition t.topicName p)
    fun ps hps => Yields.pure ⟨rfl, map_eq_of_forall₂ hps⟩

theorem yields_producePartition (env : ProduceEnv) (topic : Bytes) (p : ProducePartitionRequest) :
    Yields (h.producePartition env topic p) fun q => q.partitionIndex = p.partitionIndex := by
  rw [producePartition]
  split
  · split
    · exact Yields.pure rfl
    · exact Yields.ofRun fun s q hq => Option.some.inj hq ▸ rfl
  · exact Yields.pure rfl

theorem yields_handleProduce (env : ℕ → ℕ → OsEnv) (r : ProduceRequest) :
    Yields (h.handleProduce env r) fun resp => h.Answers (.produce r) (.produce resp) := by
  refine Yields.bind (Yields.mapM_zipIdx fun x _ => ?_) fun ts hts => Yields.pure ⟨rfl, hts⟩
  refine Yields.bind (Yields.mapM_zipIdx fun y _ =>
    yields_producePartition (env x.2 y.2).produce x.1.topicName y.1)
    fun ps hps => Yields.pure ⟨rfl, map_eq_of_forall₂ hps⟩

theorem answers_handleFetch (env : ℕ → ℕ → OsEnv) (r : FetchRequest) :
    Yields (h.handleFetch env r) fun resp => h.Answers (.fetch r) (.fetch resp) := by
  refine Yields.bind (Yields.mapM_zipIdx fun x _ => yields_fetchTopic (env x.2) x.1)
    fun ts hts => Yields.pure ⟨rfl, hts⟩

/-- A record request is answered if its handler yields an answer. -/
theorem answers_records {α : Type} {m : Handler α} {req : Request} {wrap : α → Response}
    (hm : Yields m fun a => h.Answers req (wrap a)) (b : BrokerState) {resp : Response}
    (hresp : (b.records m wrap).2 = some resp) : h.Answers req resp := by
  obtain ⟨a, ha, rfl⟩ := Option.map_eq_some_iff.mp hresp
  exact hm _ a ha

/-! ### Metadata -/

theorem topicName_buildTopicMetadata (metadata : ClusterMetadata) (name : Bytes) :
    (MetadataHandler.buildTopicMetadata metadata name).topicName = name := by
  rw [MetadataHandler.buildTopicMetadata]
  split <;> rfl

theorem answers_handleDescribeTopicPartitions (q : DescribeTopicPartitionsRequest) :
    h.Answers (.describeTopicPartitions q) (.describeTopicPartitions
      (MetadataHandler.handleDescribeTopicPartitions h.metadata q)) := by
  refine ⟨rfl, ?_, ?_⟩
  · refine ((List.mergeSort_perm _ _).map _).trans (.of_eq ?_)
    rw [List.map_map]
    exact List.map_id'' (topicName_buildTopicMetadata h.metadata) q.topicNames
  · refine (List.pairwise_mergeSort ?_ ?_ _).imp fun hle => of_decide_eq_true hle
    · intro t t' t'' hle hle'
      exact decide_eq_true (List.le_trans (of_decide_eq_true hle) (of_decide_eq_true hle'))
    · intro t t'
      rw [Bool.or_eq_true, decide_eq_true_iff, decide_eq_true_iff]
      exact List.le_total _ _

theorem answers_handleMetadata (q : MetadataRequest) :
    h.Answers (.metadata q) (.metadata (MetadataHandler.handleMetadata h.metadata q)) := by
  refine ⟨rfl, ?_⟩
  change (List.map _ _).map _ = _
  rw [List.map_map]
  exact List.map_id'' (topicName_buildTopicMetadata h.metadata) _

/-! ### Groups -/

theorem answers_handleJoinGroup (c : GroupCoordinator) (q : JoinGroupRequest) (now : ℤ) :
    h.Answers (.joinGroup q) (.joinGroup (c.handleJoinGroup q now).2) := by
  refine ⟨rfl, fun hne => if_neg hne, ?_⟩
  have hmem := (c.groupOrNew q.groupId).mem_memberIds_join (c.joinMember q) q now
  rw [GroupMetadata.memberIds] at hmem
  change c.joinMember q ∈ (List.map _ _).map JoinGroupMember.memberId
  rwa [List.map_map]

theorem answers_handleOffsetCommit (c : GroupCoordinator) (q : OffsetCommitRequest) :
    h.Answers (.offsetCommit q) (.offsetCommit (c.handleOffsetCommit q).2) := by
  refine ⟨rfl, List.forall₂_map_right_iff.mpr (List.forall₂_same.mpr fun t _ => ⟨rfl, ?_⟩)⟩
  rw [List.map_map]
  rfl

theorem answers_handleOffsetFetch (c : GroupCoordinator) (q : OffsetFetchRequest) :
    h.Answers (.offsetFetch q) (.offsetFetch (c.handleOffsetFetch q).2) := by
  refine ⟨rfl, List.forall₂_map_right_iff.mpr (List.forall₂_same.mpr fun t _ => ⟨rfl, ?_⟩)⟩
  rw [List.map_map]
  exact List.map_id _

theorem correlationId_handleHeartbeat (c : GroupCoordinator) (q : HeartbeatRequest) (now : ℤ) :
    (c.handleHeartbeat q now).2.correlationId = q.header.correlationId := by
  rw [GroupCoordinator.handleHeartbeat]
  split
  · rfl
  · split <;> rfl

theorem correlationId_handleLeaveGroup (c : GroupCoordinator) (q : LeaveGroupRequest) :
    (c.handleLeaveGroup q).2.correlationId = q.header.correlationId := by
  rw [GroupCoordinator.handleLeaveGroup]
  split
  · rfl
  · split <;> rfl

theorem correlationId_handleSyncGroup (c : GroupCoordinator) (q : SyncGroupRequest)
    (now : ℕ → ℤ) : (c.handleSyncGroup q now).2.correlationId = q.header.correlationId := by
  rw [GroupCoordinator.handleSyncGroup]
  split
  · rfl
  · split <;> rfl

end RecordHandler

open RecordHandler in
/-- **Every response is an answer**: in every state, and whatever the system and the clock say, what
`Broker::handle` returns answers the request it was given. -/
theorem answers_handle (h : RecordHandler) (env : BrokerEnv) (b : BrokerState) (req : Request)
    {resp : Response} (hresp : (Broker.handle h env b req).2 = some resp) : h.Answers req resp := by
  cases req with
  | listOffsets r => exact answers_records (yields_handleListOffsets r) b hresp
  | produce r => exact answers_records (yields_handleProduce env.os r) b hresp
  | fetch r => exact answers_records (answers_handleFetch env.os r) b hresp
  | apiVersions r =>
    obtain rfl := Option.some.inj hresp
    rfl
  | findCoordinator r =>
    obtain rfl := Option.some.inj hresp
    rfl
  | describeTopicPartitions r =>
    obtain rfl := Option.some.inj hresp
    exact answers_handleDescribeTopicPartitions r
  | metadata r =>
    obtain rfl := Option.some.inj hresp
    exact answers_handleMetadata r
  | joinGroup r =>
    obtain rfl := Option.some.inj hresp
    exact answers_handleJoinGroup b.coordinator r (env.now 0)
  | offsetCommit r =>
    obtain rfl := Option.some.inj hresp
    exact answers_handleOffsetCommit b.coordinator r
  | offsetFetch r =>
    obtain rfl := Option.some.inj hresp
    exact answers_handleOffsetFetch b.coordinator r
  | heartbeat r =>
    obtain rfl := Option.some.inj hresp
    exact correlationId_handleHeartbeat b.coordinator r (env.now 0)
  | leaveGroup r =>
    obtain rfl := Option.some.inj hresp
    exact correlationId_handleLeaveGroup b.coordinator r
  | syncGroup r =>
    obtain rfl := Option.some.inj hresp
    exact correlationId_handleSyncGroup b.coordinator r env.now

end TinyKafka
