import TinyKafka.Broker.TouchedContexts

/-!
# Partitions do not interfere

A record handler serves the partitions of a request one after the other, each through a
context found under `topic:partition` and a directory named `topic-partition`. Seen from one
listed partition, a run of Produce, Fetch and ListOffsets requests is a context of its own that
gets the payloads addressed to the partition and nothing else (`isolated_of_lists`).

The relation behind this is `Tracks`. Fetches, also of partitions that are not listed, change
no more than read descriptors; a Produce for another partition changes another context,
since keys are different (`contextKey_inj`), and another directory, since listed partitions are
not negative (`dirPath_inj`). That the names have no `/` and no NUL byte is what makes
different paths different directories of the file system, as `LogState.fs` has them.
-/

namespace TinyKafka

open OptionT (Ensures Follows Keeps)

/-! ### The read descriptor does not matter to the log -/

namespace PartitionContext

/-- The context with another read descriptor. -/
def setReadFd (c : PartitionContext) (fd : Option Bytes) : PartitionContext :=
  { c with readFd := fd }

/-- The contexts differ in the read descriptor at most. -/
def SameLog (c c' : PartitionContext) : Prop := ∃ fd, c' = c.setReadFd fd

variable {c c' c'' : PartitionContext}

theorem SameLog.refl (c : PartitionContext) : SameLog c c := ⟨c.readFd, rfl⟩

theorem SameLog.trans (h : SameLog c c') (h' : SameLog c' c'') : SameLog c c'' := by
  obtain ⟨fd, rfl⟩ := h
  obtain ⟨fd', rfl⟩ := h'
  exact ⟨fd', rfl⟩

theorem SameLog.nextOffset_eq (h : SameLog c c') : c'.nextOffset = c.nextOffset := by
  obtain ⟨fd, rfl⟩ := h
  rfl

theorem SameLog.place_eq (h : SameLog c c') : c'.place = c.place := by
  obtain ⟨fd, rfl⟩ := h
  rfl

theorem SameLog.roll (h : SameLog c c') (n : ℕ) : SameLog (c.roll n) (c'.roll n) := by
  obtain ⟨fd, rfl⟩ := h
  have hrolls : (c.setReadFd fd).Rolls n ↔ c.Rolls n := Iff.rfl
  by_cases hr : c.Rolls n
  · rw [PartitionContext.roll, PartitionContext.roll, if_pos hr, if_pos (hrolls.mpr hr)]
    exact SameLog.refl _
  · rw [PartitionContext.roll, PartitionContext.roll, if_neg hr, if_neg (mt hrolls.mp hr)]
    exact ⟨fd, rfl⟩

/-- What two calls of `produce` leave behind and return is the same up to the read
descriptor. -/
def SameProduced (p p' : Produced) : Prop :=
  SameLog p.ctx p'.ctx ∧ p'.dir = p.dir ∧ p'.result = p.result

theorem SameLog.store (h : SameLog c c') (dir : Dir) (env : ProduceEnv) (name data : Bytes)
    (n : Int32) : SameProduced (c.store dir env name data n) (c'.store dir env name data n) := by
  obtain ⟨fd, rfl⟩ := h
  refine ⟨?_, rfl, rfl⟩
  have hindex : (c.setReadFd fd).pushIndex = c.pushIndex.setReadFd fd := by
    rw [pushIndex, pushIndex, setReadFd]
    split <;> rfl
  refine ⟨fd, ?_⟩
  rw [PartitionContext.store, hindex]
  rfl

theorem SameLog.produce (h : SameLog c c') (dir : Dir) (env : ProduceEnv) (data : Bytes) :
    SameProduced (c.produce dir env data) (c'.produce dir env data) := by
  rw [PartitionContext.produce, PartitionContext.produce]
  rcases recordBatchCount data with _ | n
  · exact ⟨h, rfl, rfl⟩
  dsimp only
  split
  swap
  · exact ⟨h, rfl, rfl⟩
  obtain ⟨fd, hroll⟩ := h.roll data.length
  rw [hroll]
  generalize c.roll data.length = c
  have hsame (c : PartitionContext) : c.SameLog (c.setReadFd fd) := ⟨fd, rfl⟩
  have hwrite : (c.setReadFd fd).writeFd = c.writeFd := rfl
  rcases hfd : c.writeFd with _ | name
  · rcases env.openSegment with _ | _
    · simp only [ensureWriteFd, hwrite, hfd, Bool.false_eq_true, if_false]
      exact ⟨hsame c, rfl, rfl⟩
    · simp only [ensureWriteFd, hwrite, hfd, if_true]
      exact (hsame c.openCurrent).store _ _ _ _ _
  · simp only [ensureWriteFd, hwrite, hfd]
    exact (hsame c).store _ _ _ _ _

theorem sameLog_fetch (c : PartitionContext) (dir : Dir) (offset : Int64) (maxBytes : Int32)
    (openRead : Bool) : SameLog c (c.fetch dir offset maxBytes openRead).1 :=
  ctx_fetch_eq c dir offset maxBytes openRead

end PartitionContext

/-! ### Keys and directories -/

namespace RecordHandler

/-- Different partitions have different keys; a topic may have a `:` in it, so this is about
the last one. -/
theorem contextKey_inj {topic topic' : Bytes} {partition partition' : Int32} :
    contextKey topic partition = contextKey topic' partition' ↔
      topic = topic' ∧ partition = partition' := by
  refine ⟨fun h => ?_, fun h => by rw [h.1, h.2]⟩
  simp only [contextKey, List.append_assoc] at h
  obtain ⟨htopic, hnumber⟩ := List.append_cons_inj_of_notMem_right
    (colon_notMem_toDecimal _) (colon_notMem_toDecimal _) h
  exact ⟨htopic, Int32.toInt_inj.mp (toDecimal_injective hnumber)⟩

end RecordHandler

/-- The partitions of the topics are not negative. -/
def ClusterMetadata.NonnegPartitions (metadata : ClusterMetadata) : Prop :=
  ∀ info ∈ metadata.topics, ∀ p ∈ info.partitions, 0 ≤ p

theorem ClusterMetadata.NonnegPartitions.of_lists {metadata : ClusterMetadata}
    (hm : metadata.NonnegPartitions) {topic : Bytes} {partition : Int32}
    (h : metadata.Lists topic partition) : 0 ≤ partition := by
  obtain ⟨info, hinfo, hp⟩ := h
  obtain ⟨i, -, rfl⟩ := Option.map_eq_some_iff.mp hinfo
  exact hm _ (List.get_mem _ i) _ hp

/-! ### Requests and the calls they make on one partition -/

/-- A request to the record handler, with what the operating system answers meanwhile. -/
inductive LogRequest
  | produce (env : ℕ → ℕ → OsEnv) (r : ProduceRequest)
  | fetch (env : ℕ → ℕ → OsEnv) (r : FetchRequest)
  | listOffsets (r : ListOffsetsRequest)

/-- What the handler returns; nothing is an exception. -/
inductive LogAnswer
  | produce (r : Option ProduceResponse)
  | fetch (r : Option FetchResponse)
  | listOffsets (r : Option ListOffsetsResponse)

/-- The requests one record handler gets. -/
def RecordHandler.machine (h : RecordHandler) : Machine LogState LogRequest LogAnswer where
  step s
    | .produce env r => ((h.handleProduce env r).runFrom s).swap.map id .produce
    | .fetch env r => ((h.handleFetch env r).runFrom s).swap.map id .fetch
    | .listOffsets r => ((h.handleListOffsets r).runFrom s).swap.map id .listOffsets

/-- A context on its own that is fed with payloads; it gives out the base offsets. -/
def standAlone : Machine PartitionStore (ProduceEnv × Bytes) Int64 where
  step s i := (s.produce i.1 i.2).map id ProduceResult.baseOffset

/-- A handler that has not been called. -/
def LogState.initial (fs : Bytes → Dir) : LogState := ⟨fun _ => none, fs, []⟩

/-- The context for one partition that the handler would construct, on its own. -/
def RecordHandler.alone (h : RecordHandler) (key : PartitionKey) (fs : Bytes → Dir) :
    PartitionStore :=
  ⟨h.newContext key.topic key.partition, fs (dirPath h.logRoot key.topic key.partition), []⟩

/-- The entry of Produce has a payload for the partition. -/
def Addresses (key : PartitionKey) (topicName : Bytes) (p : ProducePartitionRequest) : Prop :=
  ⟨topicName, p.partitionIndex⟩ = key ∧ p.records ≠ []

instance (key : PartitionKey) (topicName : Bytes) (p : ProducePartitionRequest) :
    Decidable (Addresses key topicName p) :=
  inferInstanceAs (Decidable (_ ∧ _))

/-- The non-empty payloads for a partition, in the order of the request. -/
def LogRequest.payloads (key : PartitionKey) : LogRequest → List (ProduceEnv × Bytes)
  | .produce env r =>
    r.topics.zipIdx.flatMap fun t => t.1.partitions.zipIdx.flatMap fun p =>
      if Addresses key t.1.topicName p.1 then [((env t.2 p.2).produce, p.1.records)] else []
  | _ => []

/-- The base offset in an entry of Produce, when the payload is addressed to the partition. -/
def entryOffset (key : PartitionKey) (topicName : Bytes) (p : ProducePartitionRequest)
    (pr : ProducePartitionResponse) : List Int64 :=
  if Addresses key topicName p then [pr.baseOffset] else []

def topicOffsets (key : PartitionKey) (t : ProduceTopicRequest) (tr : ProduceTopicResponse) :
    List Int64 :=
  (t.partitions.zip tr.partitions).flatMap fun p => entryOffset key t.topicName p.1 p.2

/-- The base offsets a Produce response has for the payloads addressed to a partition. -/
def producedOffsets (key : PartitionKey) (r : ProduceRequest) (resp : ProduceResponse) :
    List Int64 :=
  (r.topics.zip resp.responses).flatMap fun t => topicOffsets key t.1 t.2

/-- The base offsets reported for the payloads addressed to a partition. -/
def reportedOffsets (key : PartitionKey) : LogRequest → LogAnswer → List Int64
  | .produce _ r, .produce (some resp) => producedOffsets key r resp
  | _, _ => []

/-- Every entry of ListOffsets that asks for the latest offset of the partition is answered
with `n`. -/
def ReportsLatest (key : PartitionKey) (n : Int64) (r : ListOffsetsRequest)
    (resp : ListOffsetsResponse) : Prop :=
  List.Forall₂ (fun t tr => List.Forall₂
    (fun (p : ListOffsetsPartitionRequest) (pr : ListOffsetsPartitionResponse) =>
      (⟨t.topicName, p.partitionIndex⟩ : PartitionKey) = key → p.timestamp = -1 →
        pr.errorCode = 0 ∧ pr.offset = n)
    t.partitions tr.partitions) r.topics resp.topics

/-! ### The partition seen through the handler -/

namespace RecordHandler

variable {h : RecordHandler} {key : PartitionKey} {a : PartitionStore} {s : LogState}

/-- The handler's state has, for one partition, the log that a context of its own has. -/
structure Tracks (h : RecordHandler) (key : PartitionKey) (a : PartitionStore) (s : LogState) :
    Prop where
  /-- Contexts stand under the keys of their partitions. -/
  named : ∀ name c, s.contexts name = some c →
    c.logRoot = h.logRoot ∧ name = contextKey c.topicName c.partition
  ctx : a.ctx.SameLog (h.getOrCreateContext s key.topic key.partition)
  dir : s.fs (dirPath h.logRoot key.topic key.partition) = a.dir

theorem tracks_init (h : RecordHandler) (key : PartitionKey) (fs : Bytes → Dir) :
    Tracks h key (h.alone key fs) (.initial fs) where
  named _ _ hc := by cases hc
  ctx := PartitionContext.SameLog.refl _
  dir := rfl

/-- The context a call is made on is that of the partition. -/
theorem Tracks.place_getOrCreateContext (hs : Tracks h key a s) (topic : Bytes)
    (partition : Int32) :
    (h.getOrCreateContext s topic partition).place = (h.logRoot, ⟨topic, partition⟩) := by
  rw [getOrCreateContext]
  rcases hc : s.contexts (contextKey topic partition) with _ | c
  · rfl
  · obtain ⟨hroot, hname⟩ := hs.named _ c hc
    obtain ⟨rfl, rfl⟩ := contextKey_inj.mp hname
    rw [Option.getD_some, PartitionContext.place, PartitionContext.key, hroot]

theorem dirPath_of_place {c : PartitionContext} {root : Bytes} {k : PartitionKey}
    (hc : c.place = (root, k)) : c.dirPath = dirPath root k.topic k.partition := by
  obtain ⟨rfl, rfl⟩ := Prod.ext_iff.mp hc
  rfl

/-- What a call on a context leaves behind. For the partition itself it is the log of the
stand-alone context; for another one, a directory that is as it was or not the partition's. -/
theorem Tracks.update (hs : Tracks h key a s) {a' : PartitionStore} {k : PartitionKey}
    {c' : PartitionContext} {dir' : Dir} (subs : List (Bytes × Submission))
    (hplace : c'.place = (h.logRoot, k))
    (hself : k = key → a'.ctx.SameLog c' ∧ dir' = a'.dir)
    (hother : k ≠ key → a' = a ∧
      (dir' = s.fs (dirPath h.logRoot k.topic k.partition) ∨
        dirPath h.logRoot k.topic k.partition ≠ dirPath h.logRoot key.topic key.partition)) :
    Tracks h key a' {
      contexts := Function.update s.contexts (contextKey k.topic k.partition) (some c')
      fs := Function.update s.fs (dirPath h.logRoot k.topic k.partition) dir'
      submissions := subs } := by
  refine ⟨fun name c hc => ?_, ?_, ?_⟩
  · dsimp only at hc
    rcases eq_or_ne name (contextKey k.topic k.partition) with rfl | hne
    · rw [Function.update_self] at hc
      cases hc
      obtain rfl : c'.key = k := congrArg Prod.snd hplace
      exact ⟨congrArg Prod.fst hplace, rfl⟩
    · rw [Function.update_of_ne hne] at hc
      exact hs.named name c hc
  · rw [getOrCreateContext]
    dsimp only
    by_cases hk : k = key
    · rw [← hk, Function.update_self]
      exact (hself hk).1
    · have hne : contextKey key.topic key.partition ≠ contextKey k.topic k.partition := by
        intro heq
        obtain ⟨htopic, hpartition⟩ := contextKey_inj.mp heq
        exact hk (by rw [PartitionKey.mk.injEq]; exact ⟨htopic.symm, hpartition.symm⟩)
      rw [Function.update_of_ne hne, (hother hk).1]
      exact hs.ctx
  · dsimp only
    by_cases hk : k = key
    · rw [← hk, Function.update_self]
      exact (hself hk).2
    · obtain ⟨rfl, hdir | hdir⟩ := hother hk
      · rw [hdir, Function.update_eq_self]
        exact hs.dir
      · rw [Function.update_of_ne hdir.symm]
        exact hs.dir

/-- Calls that read. They leave the log as it is, whichever partition they are for. -/
theorem keeps_read {α : Type} {call : PartitionContext → Dir → Called α}
    (hcall : ∀ c dir, c.SameLog (call c dir).ctx ∧ (call c dir).dir = dir) (topic : Bytes)
    (partition : Int32) : Keeps (Tracks h key a) (h.withContext topic partition call) := by
  refine Keeps.ofRun fun s hs => ?_
  have hplace := hs.place_getOrCreateContext topic partition
  obtain ⟨hlog, hdir⟩ := hcall (h.getOrCreateContext s topic partition)
    (s.fs (h.getOrCreateContext s topic partition).dirPath)
  dsimp only
  rw [dirPath_of_place hplace] at hlog hdir ⊢
  refine hs.update (k := ⟨topic, partition⟩) _ (hlog.place_eq.trans hplace) ?_ ?_
  · rintro rfl
    exact ⟨hs.ctx.trans hlog, hdir.trans hs.dir⟩
  · exact fun _ => ⟨rfl, .inl hdir⟩

theorem keeps_fetch (env : ℕ → ℕ → OsEnv) (r : FetchRequest) :
    Keeps (Tracks h key a) (h.handleFetch env r) := by
  have hread (openRead : Bool) (req : FetchPartitionRequest) (c : PartitionContext) (dir : Dir) :
      c.SameLog (fetchContext openRead req c dir).ctx ∧
        (fetchContext openRead req c dir).dir = dir := by
    rw [fetchContext]
    dsimp only
    split
    · exact ⟨.refl c, rfl⟩
    · split
      · exact ⟨c.sameLog_fetch _ _ _ _, rfl⟩
      · exact ⟨.refl c, rfl⟩
  refine (Keeps.mapM fun t _ => ?_).bind fun _ => Keeps.pure _
  change Keeps _ (h.fetchTopic (env t.2) t.1)
  rw [fetchTopic]
  split
  · refine (Keeps.mapM fun p _ => ?_).bind fun _ => Keeps.pure _
    exact keeps_read (hread _ p.1) _ _
  · exact Keeps.pure _

/-- One entry of ListOffsets. -/
theorem ensures_listOffsetsPartition (hlists : h.metadata.Lists key.topic key.partition)
    (topic : Bytes) (p : ListOffsetsPartitionRequest) :
    Ensures (Tracks h key a) (h.listOffsetsPartition topic p) fun pr s => Tracks h key a s ∧
      ((⟨topic, p.partitionIndex⟩ : PartitionKey) = key → p.timestamp = -1 →
        pr.errorCode = 0 ∧ pr.offset = a.ctx.nextOffset) := by
  rw [listOffsetsPartition]
  dsimp only
  split
  · split
    · next hearliest =>
      refine Ensures.pure fun s hs => ⟨hs, fun _ hlatest => ?_⟩
      rw [hearliest] at hlatest
      exact absurd hlatest (by decide)
    · split
      · refine (keeps_read (fun c _ => ⟨.refl c, rfl⟩) topic p.partitionIndex).ensures ?_
        refine fun s hs => ⟨_, rfl, ?_⟩
        rintro rfl -
        exact ⟨rfl, hs.ctx.nextOffset_eq⟩
      · next hlatest => exact Ensures.pure fun s hs => ⟨hs, fun _ h => absurd h hlatest⟩
  · next hunknown =>
    refine Ensures.pure fun s hs => ⟨hs, ?_⟩
    rintro rfl
    exact absurd hlists hunknown

theorem ensures_listOffsets (hlists : h.metadata.Lists key.topic key.partition)
    (r : ListOffsetsRequest) :
    Ensures (Tracks h key a) (h.handleListOffsets r) fun resp s => Tracks h key a s ∧
      ReportsLatest key a.ctx.nextOffset r resp := by
  refine (Ensures.mapM fun t _ => ?_).bind fun _ => Ensures.pure fun s hs => hs
  refine (Ensures.mapM fun p _ => ?_).bind fun _ => Ensures.pure fun s hs => hs
  exact ensures_listOffsetsPartition hlists t.topicName p

/-- One entry of Produce. -/
theorem follows_producePartition (hm : h.metadata.NonnegPartitions)
    (hlists : h.metadata.Lists key.topic key.partition) (env : ProduceEnv) (topic : Bytes)
    (p : ProducePartitionRequest) :
    Follows standAlone (Tracks h key) (h.producePartition env topic p)
      (if Addresses key topic p then [(env, p.records)] else []) (entryOffset key topic p) := by
  intro a
  rw [producePartition]
  by_cases haddr : Addresses key topic p
  · simp only [entryOffset, if_pos haddr]
    obtain ⟨rfl, hrecords⟩ := haddr
    rw [if_pos hlists, if_neg hrecords]
    intro s hs
    have hplace := hs.place_getOrCreateContext topic p.partitionIndex
    have hpath := dirPath_of_place hplace
    obtain ⟨hctx, hdir, hresult⟩ := hs.ctx.produce a.dir env p.records
    refine ⟨_, _, rfl, ?_, ?_⟩
    · dsimp only
      rw [hpath]
      refine hs.update _ ((PartitionContext.place_produce ..).trans hplace) (fun _ => ?_)
        fun hne => absurd rfl hne
      rw [hs.dir]
      exact ⟨hctx, hdir⟩
    · rw [hpath, hs.dir]
      exact congrArg (fun r => [ProduceResult.baseOffset r]) hresult
  · simp only [entryOffset, if_neg haddr]
    split
    · next hother =>
      split
      · exact Ensures.pure fun s hs => ⟨hs, rfl⟩
      · next hrecords =>
        have hne : (⟨topic, p.partitionIndex⟩ : PartitionKey) ≠ key :=
          fun heq => haddr ⟨heq, hrecords⟩
        intro s hs
        have hplace := hs.place_getOrCreateContext topic p.partitionIndex
        refine ⟨_, _, rfl, ?_, rfl⟩
        dsimp only
        rw [dirPath_of_place hplace]
        refine hs.update (k := ⟨topic, p.partitionIndex⟩) _
          ((PartitionContext.place_produce ..).trans hplace) (fun heq => absurd heq hne)
          fun _ => ⟨rfl, .inr fun hpath => hne ?_⟩
        obtain ⟨htopic, hpartition⟩ :=
          (dirPath_inj (hm.of_lists hother) (hm.of_lists hlists)).mp hpath
        exact PartitionKey.mk.injEq .. ▸ ⟨htopic, hpartition⟩
    · exact Ensures.pure fun s hs => ⟨hs, rfl⟩

theorem follows_produce (hm : h.metadata.NonnegPartitions)
    (hlists : h.metadata.Lists key.topic key.partition) (env : ℕ → ℕ → OsEnv)
    (r : ProduceRequest) :
    Follows standAlone (Tracks h key) (h.handleProduce env r)
      ((LogRequest.produce env r).payloads key) (producedOffsets key r) := by
  have hentry (t : ProduceTopicRequest × ℕ) (p : ProducePartitionRequest × ℕ) :=
    follows_producePartition hm hlists (env t.2 p.2).produce t.1.topicName p.1
  have htopic (t : ProduceTopicRequest × ℕ) :
      Follows standAlone (Tracks h key)
        (t.1.partitions.zipIdx.mapM (fun p =>
          h.producePartition (env t.2 p.2).produce t.1.topicName p.1) >>= fun partitions =>
            pure (ProduceTopicResponse.mk t.1.topicName partitions))
        _ (topicOffsets key t.1) :=
    Follows.map (Follows.mapM_zipIdx fun p _ => hentry t p) fun _ => rfl
  exact Follows.map (Follows.mapM_zipIdx fun t _ => htopic t) fun _ => rfl

/-- One request. What it reports for the partition is what the stand-alone context gives out
for the payloads in it. -/
theorem tracks_next (hm : h.metadata.NonnegPartitions)
    (hlists : h.metadata.Lists key.topic key.partition) (a : PartitionStore) (s : LogState)
    (req : LogRequest) (hs : Tracks h key a s) :
    Tracks h key (standAlone.exec a (req.payloads key)) (h.machine.next s req) ∧
      reportedOffsets key req (h.machine.out s req) =
        (standAlone.trace a (req.payloads key)).map Prod.snd := by
  cases req with
  | produce env r =>
    obtain ⟨resp, s', hrun, hs', hobserve⟩ := follows_produce hm hlists env r a s hs
    have hstep : h.machine.step s (.produce env r) = (s', .produce (some resp)) := by
      rw [machine]
      dsimp only
      rw [hrun]
      rfl
    rw [Machine.next, Machine.out, hstep]
    exact ⟨hs', hobserve⟩
  | fetch env r => exact ⟨keeps_fetch env r s hs, rfl⟩
  | listOffsets r =>
    obtain ⟨resp, s', hrun, hs', -⟩ := ensures_listOffsets hlists r s hs
    refine ⟨?_, rfl⟩
    have hnext : h.machine.next s (.listOffsets r) = s' := congrArg Prod.snd hrun
    rw [hnext]
    exact hs'

end RecordHandler

/-- The payloads of the requests for a partition, in order. -/
def payloadsFor (key : PartitionKey) (reqs : List LogRequest) : List (ProduceEnv × Bytes) :=
  reqs.flatMap (LogRequest.payloads key)

/-- What the requests do for the partition is what the payloads addressed to it do to a context
of its own. -/
structure Isolated (h : RecordHandler) (key : PartitionKey) (fs : Bytes → Dir)
    (reqs : List LogRequest) : Prop where
  /-- The same base offsets are reported. -/
  reported : (h.machine.trace (.initial fs) reqs).flatMap (fun e => reportedOffsets key e.1 e.2) =
    (standAlone.trace (h.alone key fs) (payloadsFor key reqs)).map Prod.snd
  /-- The next offset is the same. -/
  nextOffset : (h.getOrCreateContext (h.machine.exec (.initial fs) reqs) key.topic
      key.partition).nextOffset =
    (standAlone.exec (h.alone key fs) (payloadsFor key reqs)).ctx.nextOffset
  /-- The directory is the same. -/
  directory : (h.machine.exec (.initial fs) reqs).fs
      (dirPath h.logRoot key.topic key.partition) =
    (standAlone.exec (h.alone key fs) (payloadsFor key reqs)).dir
  /-- ListOffsets, asked after the requests, reports the next offset. -/
  latest : ∀ r, ∃ resp,
    h.machine.out (h.machine.exec (.initial fs) reqs) (.listOffsets r) =
      .listOffsets (some resp) ∧
    ReportsLatest key
      (standAlone.exec (h.alone key fs) (payloadsFor key reqs)).ctx.nextOffset r resp

/-- **Partitions do not interfere.** From a handler that has not been called, any sequence of
requests does for a listed partition what a context of its own does when it is fed with the
payloads addressed to the partition. -/
theorem isolated_of_lists (h : RecordHandler) (hm : h.metadata.NonnegPartitions)
    (key : PartitionKey) (hlists : h.metadata.Lists key.topic key.partition) (fs : Bytes → Dir)
    (reqs : List LogRequest) : Isolated h key fs reqs := by
  obtain ⟨hs, htrace⟩ := Machine.simulated_run (RecordHandler.tracks_next hm hlists)
    (RecordHandler.tracks_init h key fs) reqs
  refine ⟨htrace, hs.ctx.nextOffset_eq, hs.dir, fun r => ?_⟩
  obtain ⟨resp, s', hrun, -, hreports⟩ := RecordHandler.ensures_listOffsets hlists r _ hs
  refine ⟨resp, ?_, hreports⟩
  exact congrArg (fun x : Option ListOffsetsResponse × LogState => LogAnswer.listOffsets x.1) hrun

/-- Topics `a` and `a-1`, each with partition 1. -/
def similarTopics : ClusterMetadata where
  topics := [⟨ascii "a", uuidOf 0, [1]⟩, ⟨ascii "a-1", uuidOf 1, [1]⟩]
  nameToTopic name :=
    if name = ascii "a" then some ⟨0, by decide⟩
    else if name = ascii "a-1" then some ⟨1, by decide⟩ else none
  uuidToTopic _ := none

/-- Batches of two records for both topics, twice for `a`. -/
def similarTopicsProduce : LogRequest :=
  .produce (fun _ _ => ⟨{ written := 200 }, true⟩) ⟨⟨0, 0, 0⟩,
    [⟨ascii "a", [⟨1, makeRecordBatchV2 [[1], [2]]⟩]⟩,
      ⟨ascii "a-1", [⟨1, makeRecordBatchV2 [[3], [4]]⟩]⟩,
      ⟨ascii "a", [⟨1, makeRecordBatchV2 [[5], [6]]⟩]⟩]⟩

/-- The partition of `a` in a run with both topics. -/
theorem isolated_similarTopics :
    similarTopics.NonnegPartitions ∧ similarTopics.Lists (ascii "a") 1 ∧
      Isolated ⟨similarTopics, ascii "/tmp/logs", 0, false⟩ ⟨ascii "a", 1⟩ (fun _ => [])
        [similarTopicsProduce, .listOffsets ⟨⟨0, 0, 0⟩, -1, 0, [⟨ascii "a", [⟨1, -1⟩]⟩]⟩] := by
  have hm : similarTopics.NonnegPartitions := by
    intro info hinfo p hp
    simp only [similarTopics, List.mem_cons, List.not_mem_nil, or_false] at hinfo
    rcases hinfo with rfl | rfl <;> simp_all
  have hlists : similarTopics.Lists (ascii "a") 1 := by decide
  exact ⟨hm, hlists, isolated_of_lists ⟨similarTopics, ascii "/tmp/logs", 0, false⟩ hm
    ⟨ascii "a", 1⟩ hlists _ _⟩

example : (standAlone.trace ((⟨similarTopics, ascii "/tmp/logs", 0, false⟩ : RecordHandler).alone
    ⟨ascii "a", 1⟩ fun _ => []) (similarTopicsProduce.payloads ⟨ascii "a", 1⟩)).map Prod.snd =
    [0, 2] := by decide

end TinyKafka
