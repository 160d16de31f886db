import TinyKafka.Broker.RingLog
import TinyKafka.Net.SingleBroker

/-!
# A partition in the process

`isolated_of_lists` is about one record handler and leaves open what becomes of the writes. Here
the broker gets requests of all kinds, and the writes it has submitted complete one after the
other, in any order and among the requests. Seen from one listed partition this is a context of
its own that gets the payloads addressed to the partition and the completions of its own writes
(`exists_served`): it reports the same offsets, has the same directory and the same writes in
flight. So what `RingLog` says of the context is true of the partition in the broker, and, as the
reactors are one broker, of the partition in the process (`Server.keepsLog_of_readsTogether`).

`Serves` is the relation behind this: `Tracks`, with the writes in flight.
-/

namespace TinyKafka

open OptionT (Follows Keeps)

/-! ### The writes of one partition -/

/-- The writes to the directory `path` among those that are not complete. -/
def pendingAt (path : Bytes) (submissions : List (Bytes × Submission)) : List Submission :=
  submissions.filterMap fun x => if x.1 = path then some x.2 else none

section PendingAt

variable {path path' : Bytes} {submissions : List (Bytes × Submission)}

theorem pendingAt_append (l : List (Bytes × Submission)) :
    pendingAt path (submissions ++ l) = pendingAt path submissions ++ pendingAt path l :=
  List.filterMap_append

theorem pendingAt_map_self (ws : List Submission) : pendingAt path (ws.map (path, ·)) = ws := by
  rw [pendingAt, List.filterMap_map]
  simp

theorem pendingAt_map_of_ne (h : path' ≠ path) (ws : List Submission) :
    pendingAt path (ws.map (path', ·)) = [] := by
  rw [pendingAt, List.filterMap_map]
  simp [h]

theorem pendingAt_cons_self (w : Submission) :
    pendingAt path ((path, w) :: submissions) = w :: pendingAt path submissions := by
  simp [pendingAt]

theorem pendingAt_cons_of_ne (h : path' ≠ path) (w : Submission) :
    pendingAt path ((path', w) :: submissions) = pendingAt path submissions := by
  simp [pendingAt, h]

theorem pendingAt_erase_self (w : Submission) :
    pendingAt path (submissions.erase (path, w)) = (pendingAt path submissions).erase w := by
  induction submissions with
  | nil => rfl
  | cons x l ih =>
    obtain ⟨path', w'⟩ := x
    by_cases hpath : path' = path
    · subst hpath
      rw [pendingAt_cons_self]
      by_cases hw : w' = w
      · subst hw
        rw [List.erase_cons_head, List.erase_cons_head]
      · rw [List.erase_cons_tail (by simpa using hw), List.erase_cons_tail (by simpa using hw),
          pendingAt_cons_self, ih]
    · rw [pendingAt_cons_of_ne hpath, List.erase_cons_tail (by simp [hpath]),
        pendingAt_cons_of_ne hpath, ih]

theorem pendingAt_erase_of_ne (h : path' ≠ path) (w : Submission) :
    pendingAt path (submissions.erase (path', w)) = pendingAt path submissions := by
  induction submissions with
  | nil => rfl
  | cons x l ih =>
    by_cases hx : x = (path', w)
    · rw [hx, List.erase_cons_head, pendingAt_cons_of_ne h]
    · rw [List.erase_cons_tail (by simpa using hx)]
      obtain ⟨path'', w''⟩ := x
      by_cases hpath : path'' = path
      · rw [hpath, pendingAt_cons_self, pendingAt_cons_self, ih]
      · rw [pendingAt_cons_of_ne hpath, pendingAt_cons_of_ne hpath, ih]

theorem mem_pendingAt {w : Submission} (h : (path, w) ∈ submissions) :
    w ∈ pendingAt path submissions :=
  List.mem_filterMap.mpr ⟨(path, w), h, if_pos rfl⟩

end PendingAt

/-- The read descriptor does not matter to what is submitted. -/
theorem PartitionContext.SameLog.submission_eq {c c' : PartitionContext} (h : SameLog c c')
    (dir : Dir) (env : ProduceEnv) (data : Bytes) :
    (c'.produce dir env data).submission = (c.produce dir env data).submission := by
  rw [PartitionContext.produce, PartitionContext.produce]
  rcases recordBatchCount data with _ | n
  · rfl
  dsimp only
  split
  swap
  · rfl
  obtain ⟨fd, hroll⟩ := h.roll data.length
  rw [hroll]
  generalize c.roll data.length = c
  have hwrite : (c.setReadFd fd).writeFd = c.writeFd := rfl
  rcases hfd : c.writeFd with _ | name
  · rcases env.openSegment with _ | _
    · simp only [ensureWriteFd, hwrite, hfd, Bool.false_eq_true, if_false]
    · simp only [ensureWriteFd, hwrite, hfd, if_true]
      rfl
  · simp only [ensureWriteFd, hwrite, hfd]
    rfl

/-! ### The partition in the broker -/

namespace RecordHandler

variable {h : RecordHandler} {key : PartitionKey} {a : PartitionStore} {s : LogState}

/-- The state has, for one partition, the log and the writes in flight that a context of its own
has. -/
structure Serves (h : RecordHandler) (key : PartitionKey) (a : PartitionStore) (s : LogState) :
    Prop where
  tracks : Tracks h key a s
  pending : pendingAt (dirPath h.logRoot key.topic key.partition) s.submissions = a.inFlight

theorem serves_producePartition (hm : h.metadata.NonnegPartitions)
    (hlists : h.metadata.Lists key.topic key.partition) (env : ProduceEnv) (topic : Bytes)
    (p : ProducePartitionRequest) :
    Follows standAlone (Serves h key) (h.producePartition env topic p)
      (if Addresses key topic p then [(env, p.records)] else []) (entryOffset key topic p) := by
  intro a s hs
  obtain ⟨resp, s', hrun, htracks, hobserve⟩ :=
    follows_producePartition hm hlists env topic p a s hs.tracks
  refine ⟨resp, s', hrun, ⟨htracks, ?_⟩, hobserve⟩
  have hsubs : s'.submissions = ((h.producePartition env topic p).runFrom s).2.submissions := by
    rw [hrun]
  have hpath := dirPath_of_place (hs.tracks.place_getOrCreateContext topic p.partitionIndex)
  rw [hsubs, producePartition]
  by_cases haddr : Addresses key topic p
  · rw [if_pos haddr]
    obtain ⟨rfl, hrecords⟩ := haddr
    rw [if_pos hlists, if_neg hrecords]
    change pendingAt _ (s.submissions ++ _) = a.inFlight ++ _
    dsimp only at hpath ⊢
    rw [pendingAt_append, hs.pending, hpath, pendingAt_map_self, hs.tracks.dir,
      hs.tracks.ctx.submission_eq]
  · rw [if_neg haddr]
    split
    · next hother =>
      split
      · exact hs.pending
      · next hrecords =>
        have hne : dirPath h.logRoot topic p.partitionIndex ≠
            dirPath h.logRoot key.topic key.partition := by
          intro hpath
          obtain ⟨htopic, hpartition⟩ :=
            (dirPath_inj (hm.of_lists hother) (hm.of_lists hlists)).mp hpath
          exact haddr ⟨PartitionKey.mk.injEq .. ▸ ⟨htopic, hpartition⟩, hrecords⟩
        change pendingAt _ (s.submissions ++ _) = a.inFlight
        dsimp only at hpath ⊢
        rw [pendingAt_append, hs.pending, hpath, pendingAt_map_of_ne hne, List.append_nil]
    · exact hs.pending

theorem serves_produce (hm : h.metadata.NonnegPartitions)
    (hlists : h.metadata.Lists key.topic key.partition) (env : ℕ → ℕ → OsEnv)
    (r : ProduceRequest) :
    Follows standAlone (Serves h key) (h.handleProduce env r)
      ((LogRequest.produce env r).payloads key) (producedOffsets key r) := by
  have htopic (t : ProduceTopicRequest × ℕ) :
      Follows standAlone (Serves h key)
        (t.1.partitions.zipIdx.mapM (fun p =>
          h.producePartition (env t.2 p.2).produce t.1.topicName p.1) >>= fun partitions =>
            pure (ProduceTopicResponse.mk t.1.topicName partitions))
        _ (topicOffsets key t.1) :=
    Follows.map (Follows.mapM_zipIdx fun p _ =>
      serves_producePartition hm hlists (env t.2 p.2).produce t.1.topicName p.1) fun _ => rfl
  exact Follows.map (Follows.mapM_zipIdx fun t _ => htopic t) fun _ => rfl

/-! ### Requests that submit nothing -/

section Submissions

variable {subs : List (Bytes × Submission)}

theorem keeps_submissions_withContext {α : Type} {call : PartitionContext → Dir → Called α}
    (hcall : ∀ c dir, (call c dir).submission = none) (topic : Bytes) (partition : Int32) :
    Keeps (fun s => s.submissions = subs) (h.withContext topic partition call) := by
  refine Keeps.ofRun fun s hs => ?_
  dsimp only
  rw [hcall, hs]
  exact List.append_nil _

theorem submission_fetchContext (openRead : Bool) (req : FetchPartitionRequest)
    (c : PartitionContext) (dir : Dir) : (fetchContext openRead req c dir).submission = none := by
  rw [fetchContext]
  dsimp only
  split
  · rfl
  · split <;> rfl

theorem keeps_submissions_fetch (env : ℕ → ℕ → OsEnv) (r : FetchRequest) :
    Keeps (fun s => s.submissions = subs) (h.handleFetch env r) := by
  refine (Keeps.mapM fun t _ => ?_).bind fun _ => Keeps.pure _
  change Keeps _ (h.fetchTopic (env t.2) t.1)
  rw [fetchTopic]
  split
  · refine (Keeps.mapM fun p _ => ?_).bind fun _ => Keeps.pure _
    exact keeps_submissions_withContext (submission_fetchContext _ p.1) _ _
  · exact Keeps.pure _

theorem keeps_submissions_listOffsets (r : ListOffsetsRequest) :
    Keeps (fun s => s.submissions = subs) (h.handleListOffsets r) := by
  refine (Keeps.mapM fun t _ => ?_).bind fun _ => Keeps.pure _
  refine (Keeps.mapM fun p _ => ?_).bind fun _ => Keeps.pure _
  rw [listOffsetsPartition]
  dsimp only
  split
  · split
    · exact Keeps.pure _
    · split
      · exact keeps_submissions_withContext (fun _ _ => rfl) _ _
      · exact Keeps.pure _
  · exact Keeps.pure _

end Submissions

theorem Serves.of_same_submissions (hs : Serves h key a s) {s' : LogState}
    (htracks : Tracks h key a s') (hsubs : s'.submissions = s.submissions) :
    Serves h key a s' :=
  ⟨htracks, by rw [hsubs, hs.pending]⟩

/-! ### A write completes -/

/-- A write of the partition completes. -/
theorem Serves.land (hs : Serves h key a s) {w : Submission}
    (hw : (dirPath h.logRoot key.topic key.partition, w) ∈ s.submissions) (written : ℕ) :
    Serves h key (a.complete (a.inFlight.idxOf w) written) {
      contexts := s.contexts
      fs := Function.update s.fs (dirPath h.logRoot key.topic key.partition)
        ((s.fs (dirPath h.logRoot key.topic key.partition)).append w.name (w.data.take written))
      submissions := s.submissions.erase (dirPath h.logRoot key.topic key.partition, w) } := by
  have hmem : w ∈ a.inFlight := hs.pending ▸ mem_pendingAt hw
  have hcomplete : a.complete (a.inFlight.idxOf w) written =
      { a with
        dir := a.dir.append w.name (w.data.take written)
        inFlight := a.inFlight.erase w } := by
    rw [PartitionStore.complete, List.getElem?_idxOf hmem, List.erase_eq_eraseIdx_of_idxOf rfl]
  rw [hcomplete]
  refine ⟨⟨hs.tracks.named, hs.tracks.ctx, ?_⟩, ?_⟩
  · dsimp only
    rw [Function.update_self, hs.tracks.dir]
  · dsimp only
    rw [pendingAt_erase_self, hs.pending]

/-- A write of another partition completes. -/
theorem Serves.land_of_ne (hs : Serves h key a s) {path : Bytes}
    (hpath : path ≠ dirPath h.logRoot key.topic key.partition) (w : Submission) (dir : Dir) :
    Serves h key a {
      contexts := s.contexts
      fs := Function.update s.fs path dir
      submissions := s.submissions.erase (path, w) } := by
  refine ⟨⟨hs.tracks.named, hs.tracks.ctx, ?_⟩, ?_⟩
  · dsimp only
    rw [Function.update_of_ne hpath.symm, hs.tracks.dir]
  · dsimp only
    rw [pendingAt_erase_of_ne hpath, hs.pending]

end RecordHandler

/-! ### Runs of the broker -/

/-- The payload of a call. -/
def LogInput.payload? : LogInput → Option (ProduceEnv × Bytes)
  | .produce env data => some (env, data)
  | _ => none

/-- The base offset a call returns, also that of a failure. -/
def LogOutput.baseOffset? : LogOutput → Option Int64
  | .produced r => some r.baseOffset
  | _ => none

/-- The payloads for a partition. -/
def BrokerCall.payloads (key : PartitionKey) : BrokerCall → List (ProduceEnv × Bytes)
  | .handle env (.produce r) => (LogRequest.produce env.os r).payloads key
  | _ => []

/-- The base offsets reported for the payloads of a partition. -/
def BrokerCall.reported (key : PartitionKey) : BrokerCall → Option Response → List Int64
  | .handle _ (.produce r), some (.produce resp) => producedOffsets key r resp
  | _, _ => []

/-- The payloads as calls. -/
def produceCalls (payloads : List (ProduceEnv × Bytes)) : List LogInput :=
  payloads.map fun x => .produce x.1 x.2

theorem exec_produceCalls (a : PartitionStore) (payloads : List (ProduceEnv × Bytes)) :
    logMachine.exec a (produceCalls payloads) = standAlone.exec a payloads := by
  induction payloads generalizing a with
  | nil => rfl
  | cons x payloads ih => exact ih (standAlone.next a x)

theorem payload?_produceCalls (payloads : List (ProduceEnv × Bytes)) :
    (produceCalls payloads).filterMap LogInput.payload? = payloads := by
  rw [produceCalls, List.filterMap_map]
  exact List.filterMap_some

theorem baseOffset?_produceCalls (a : PartitionStore) (payloads : List (ProduceEnv × Bytes)) :
    (logMachine.trace a (produceCalls payloads)).filterMap (fun e => e.2.baseOffset?) =
      (standAlone.trace a payloads).map Prod.snd := by
  induction payloads generalizing a with
  | nil => rfl
  | cons x payloads ih =>
    exact congrArg ((a.produce x.1 x.2).2.baseOffset :: ·) (ih (standAlone.next a x))

namespace RecordHandler

variable {h : RecordHandler} {key : PartitionKey} {a : PartitionStore} {b : BrokerState}

/-- The calls are a run of the context that one call of the broker amounts to. -/
structure StepServed (h : RecordHandler) (key : PartitionKey) (a : PartitionStore)
    (b : BrokerState) (call : BrokerCall) (calls : List LogInput) : Prop where
  serves : Serves h key (logMachine.exec a calls) ((Broker.machine h).next b call).toLogState
  payloads : calls.filterMap LogInput.payload? = call.payloads key
  reported : (logMachine.trace a calls).filterMap (fun e => e.2.baseOffset?) =
    call.reported key ((Broker.machine h).out b call)

theorem stepServed_produce (hm : h.metadata.NonnegPartitions)
    (hlists : h.metadata.Lists key.topic key.partition) (hs : Serves h key a b.toLogState)
    (env : BrokerEnv) (r : ProduceRequest) :
    StepServed h key a b (.handle env (.produce r))
      (produceCalls ((LogRequest.produce env.os r).payloads key)) := by
  obtain ⟨resp, s', hrun, hs', hobserve⟩ := serves_produce hm hlists env.os r a b.toLogState hs
  have hstep : (Broker.machine h).step b (.handle env (.produce r)) =
      ({ b with toLogState := s' }, some (.produce resp)) := by
    change b.records (h.handleProduce env.os r) Response.produce = _
    rw [BrokerState.records, hrun]
    rfl
  refine ⟨?_, payload?_produceCalls _, ?_⟩
  · rw [exec_produceCalls, Machine.next, hstep]
    exact hs'
  · rw [baseOffset?_produceCalls, Machine.out, hstep]
    exact hobserve.symm

/-- A completion counts for the context when it is that of a write in flight for the
partition. -/
theorem exists_stepServed_complete (hs : Serves h key a b.toLogState) (path : Bytes)
    (w : Submission) (written : ℕ) :
    ∃ calls, StepServed h key a b (.complete path w written) calls := by
  have hnext : (Broker.machine h).next b (.complete path w written) =
      b.complete path w written := rfl
  by_cases hmem : (path, w) ∈ b.submissions
  · rw [BrokerState.complete, if_pos (List.contains_iff_mem.mpr hmem)] at hnext
    by_cases hpath : path = dirPath h.logRoot key.topic key.partition
    · subst hpath
      refine ⟨[.complete (a.inFlight.idxOf w) written], ?_, rfl, rfl⟩
      rw [hnext]
      exact hs.land hmem written
    · refine ⟨[], ?_, rfl, rfl⟩
      rw [hnext]
      exact hs.land_of_ne hpath w _
  · rw [BrokerState.complete, if_neg fun hc => hmem (List.contains_iff_mem.mp hc)] at hnext
    refine ⟨[], ?_, rfl, rfl⟩
    rw [hnext]
    exact hs

/-- One step of the broker is a run of the context. -/
theorem exists_stepServed (hm : h.metadata.NonnegPartitions)
    (hlists : h.metadata.Lists key.topic key.partition) (hs : Serves h key a b.toLogState)
    (call : BrokerCall) : ∃ calls, StepServed h key a b call calls := by
  cases call with
  | handle env req =>
    cases req with
    | produce r => exact ⟨_, stepServed_produce hm hlists hs env r⟩
    | fetch r =>
      exact ⟨[], hs.of_same_submissions (keeps_fetch env.os r _ hs.tracks)
        (keeps_submissions_fetch env.os r _ rfl), rfl, rfl⟩
    | listOffsets r =>
      obtain ⟨resp, s', hrun, htracks, -⟩ := ensures_listOffsets hlists r _ hs.tracks
      have hnext : ((Broker.machine h).next b (.handle env (.listOffsets r))).toLogState = s' :=
        congrArg Prod.snd hrun
      have hsubs := keeps_submissions_listOffsets (h := h) r b.toLogState rfl
      rw [hrun] at hsubs
      refine ⟨[], ?_, rfl, rfl⟩
      rw [hnext]
      exact hs.of_same_submissions htracks hsubs
    | _ => exact ⟨[], hs, rfl, rfl⟩
  | complete path w written => exact exists_stepServed_complete hs path w written

end RecordHandler

/-- What the run does for the partition is what the calls do to a context of its own. -/
structure Served (h : RecordHandler) (key : PartitionKey) (b : BrokerState)
    (run : List BrokerCall) (calls : List LogInput) : Prop where
  /-- The context gets the payloads addressed to the partition. -/
  payloads : calls.filterMap LogInput.payload? = run.flatMap (BrokerCall.payloads key)
  /-- The same base offsets are reported. -/
  reported : ((Broker.machine h).trace b run).flatMap (fun e => e.1.reported key e.2) =
    (logMachine.trace (h.alone key b.fs) calls).filterMap fun e => e.2.baseOffset?
  /-- The next offset is the same. -/
  nextOffset : (h.getOrCreateContext ((Broker.machine h).exec b run).toLogState key.topic
      key.partition).nextOffset =
    (logMachine.exec (h.alone key b.fs) calls).ctx.nextOffset
  /-- The directory is the same. -/
  directory : ((Broker.machine h).exec b run).fs (dirPath h.logRoot key.topic key.partition) =
    (logMachine.exec (h.alone key b.fs) calls).dir
  /-- The same writes are in flight. -/
  pending : pendingAt (dirPath h.logRoot key.topic key.partition)
      ((Broker.machine h).exec b run).submissions =
    (logMachine.exec (h.alone key b.fs) calls).inFlight

/-- A broker that has not been called. -/
def BrokerState.initial (fs : Bytes → Dir) (coordinator : GroupCoordinator) : BrokerState :=
  ⟨.initial fs, coordinator⟩

/-- The calls are a run of the context that a history of the broker amounts to. -/
structure ServedBy (h : RecordHandler) (key : PartitionKey) (fs : Bytes → Dir)
    (hist : List (BrokerCall × Option Response)) (b : BrokerState) (calls : List LogInput) :
    Prop where
  serves : RecordHandler.Serves h key (logMachine.exec (h.alone key fs) calls) b.toLogState
  payloads : calls.filterMap LogInput.payload? = hist.flatMap fun e => e.1.payloads key
  reported : hist.flatMap (fun e => e.1.reported key e.2) =
    (logMachine.trace (h.alone key fs) calls).filterMap fun e => e.2.baseOffset?

section Served

variable {h : RecordHandler} {key : PartitionKey}

theorem ServedBy.next (hm : h.metadata.NonnegPartitions)
    (hlists : h.metadata.Lists key.topic key.partition) {fs : Bytes → Dir}
    {hist : List (BrokerCall × Option Response)} {b : BrokerState} {calls : List LogInput}
    (hb : ServedBy h key fs hist b calls) (call : BrokerCall) :
    ∃ calls, ServedBy h key fs (hist ++ [(call, (Broker.machine h).out b call)])
      ((Broker.machine h).next b call) calls := by
  obtain ⟨more, hserves, hpayloads, hreported⟩ :=
    RecordHandler.exists_stepServed hm hlists hb.serves call
  refine ⟨calls ++ more, ?_, ?_, ?_⟩
  · rw [Machine.exec_append]
    exact hserves
  · rw [List.filterMap_append, List.flatMap_append, hb.payloads, hpayloads,
      List.flatMap_singleton]
  · rw [Machine.trace_append, List.filterMap_append, List.flatMap_append, hb.reported, hreported,
      List.flatMap_singleton]

/-- In every run of the broker a listed partition is served as a context of its own. -/
theorem exists_served (hm : h.metadata.NonnegPartitions)
    (hlists : h.metadata.Lists key.topic key.partition) (fs : Bytes → Dir)
    (coordinator : GroupCoordinator) (run : List BrokerCall) :
    ∃ calls, Served h key (.initial fs coordinator) run calls := by
  have hstep (hist : List (BrokerCall × Option Response)) (b : BrokerState) (call : BrokerCall)
      (hb : ∃ calls, ServedBy h key fs hist b calls) :
      ∃ calls, ServedBy h key fs (hist ++ [(call, (Broker.machine h).out b call)])
        ((Broker.machine h).next b call) calls := by
    obtain ⟨calls, hb⟩ := hb
    exact hb.next hm hlists call
  have hinit : ServedBy h key fs [] (.initial fs coordinator) [] :=
    ⟨⟨RecordHandler.tracks_init h key fs, rfl⟩, rfl, rfl⟩
  obtain ⟨calls, hserves, hpayloads, hreported⟩ :=
    Machine.invariant_trace_all hstep ⟨[], hinit⟩ run
  refine ⟨calls, ?_, hreported, hserves.tracks.ctx.nextOffset_eq, hserves.tracks.dir,
    hserves.pending⟩
  rw [hpayloads, List.nil_append]
  conv_rhs => rw [← Machine.map_fst_trace (Broker.machine h) (.initial fs coordinator) run]
  rw [List.flatMap_map]

end Served

/-! ### Offsets in range -/

/-- The record counts of the payloads, together. -/
def countTotal (payloads : List (ProduceEnv × Bytes)) : ℤ :=
  (payloads.map fun x => (countOf x.2).getD 0).sum

theorem getD_countOf_nonneg {data : Bytes} (h : ∀ n ∈ countOf data, 1 ≤ n) :
    0 ≤ (countOf data).getD 0 := by
  rcases hcount : countOf data with _ | n
  · exact le_rfl
  · exact le_trans (by decide) (h n hcount)

theorem countTotal_nonneg {payloads : List (ProduceEnv × Bytes)}
    (h : ∀ x ∈ payloads, ∀ n ∈ countOf x.2, 1 ≤ n) : 0 ≤ countTotal payloads := by
  induction payloads with
  | nil => exact le_rfl
  | cons x payloads ih =>
    have hfirst := getD_countOf_nonneg (h x List.mem_cons_self)
    exact Int.add_nonneg hfirst (ih fun y hy => h y (List.mem_cons_of_mem _ hy))

/-- There is room for the payloads: their counts are positive and stay in the range of `int64_t`
together. -/
structure HasRoom (s : PartitionStore) (payloads : List (ProduceEnv × Bytes)) : Prop where
  nonneg : 0 ≤ s.ctx.nextOffset.toInt
  pos : ∀ x ∈ payloads, ∀ n ∈ countOf x.2, 1 ≤ n
  fits : s.ctx.nextOffset.toInt + countTotal payloads < 2 ^ 63

namespace HasRoom

variable {s : PartitionStore} {payloads : List (ProduceEnv × Bytes)} {env : ProduceEnv}
  {data : Bytes}

theorem pos_tail (h : HasRoom s ((env, data) :: payloads)) :
    ∀ x ∈ payloads, ∀ n ∈ countOf x.2, 1 ≤ n :=
  fun x hx => h.pos x (List.mem_cons_of_mem _ hx)

theorem fits_cons (h : HasRoom s ((env, data) :: payloads)) :
    s.ctx.nextOffset.toInt + ((countOf data).getD 0 + countTotal payloads) < 2 ^ 63 :=
  h.fits

/-- The count of the first payload, when it is taken up. -/
theorem count (h : HasRoom s ((env, data) :: payloads)) {n : Int32}
    (hn : recordBatchCount data = .ok n) :
    1 ≤ n.toInt ∧ s.ctx.nextOffset.toInt + n.toInt + countTotal payloads < 2 ^ 63 := by
  have hcount := countOf_eq_some hn
  have hfits := h.fits_cons
  rw [hcount, Option.getD_some, ← add_assoc] at hfits
  exact ⟨h.pos _ List.mem_cons_self _ hcount, hfits⟩

theorem advancesForward (h : HasRoom s ((env, data) :: payloads)) :
    AdvancesForward s (.produce env data) := by
  intro n htaken _
  obtain ⟨hone, hfits⟩ := h.count htaken.1
  have hrest := countTotal_nonneg h.pos_tail
  exact ⟨hone, by omega⟩

theorem produce (h : HasRoom s ((env, data) :: payloads)) :
    HasRoom (logMachine.next s (.produce env data)) payloads := by
  have hrest := countTotal_nonneg h.pos_tail
  have hnonneg := h.nonneg
  rw [next_produce]
  rcases produce_offsets s env data with ⟨n, htaken, -, hnext⟩ | ⟨-, -, hnext⟩
  · obtain ⟨hone, hfits⟩ := h.count htaken.1
    have hadd := toInt_add_toInt64 (n := n) hnonneg
    rw [if_pos (by omega)] at hadd
    refine ⟨?_, h.pos_tail, ?_⟩
    · rw [hnext, hadd]
      omega
    · rw [hnext, hadd]
      exact hfits
  · have hcount : 0 ≤ (countOf data).getD 0 := getD_countOf_nonneg (h.pos _ List.mem_cons_self)
    have hfits := h.fits_cons
    refine ⟨?_, h.pos_tail, ?_⟩
    · rw [hnext]
      exact hnonneg
    · rw [hnext]
      omega

theorem other (h : HasRoom s payloads) {i : LogInput} (hi : ∀ env data, i ≠ .produce env data) :
    HasRoom (logMachine.next s i) payloads := by
  obtain ⟨fd, hfd⟩ := ctx_next_of_not_produce s hi
  refine ⟨?_, h.pos, ?_⟩
  · rw [hfd]
    exact h.nonneg
  · rw [hfd]
    exact h.fits

/-- Where there is room the offsets advance. -/
theorem advances {calls : List LogInput}
    (h : HasRoom s (calls.filterMap LogInput.payload?)) :
    logMachine.Within AdvancesForward s calls := by
  induction calls generalizing s with
  | nil => trivial
  | cons i calls ih =>
    cases i with
    | produce env data =>
      have hcons : HasRoom s ((env, data) :: calls.filterMap LogInput.payload?) := h
      exact ⟨hcons.advancesForward, ih hcons.produce⟩
    | _ => exact ⟨trivial, ih (other h fun _ _ => LogInput.noConfusion)⟩

end HasRoom

/-- **A partition in a broker with a ring.** From a broker that has not been called and an empty
directory, and in every run of requests of all kinds and of completions in any order, a listed
partition is served as a context of its own, and its files, its writes in flight and its
acknowledged payloads are those of one log. -/
theorem served_of_lists {h : RecordHandler} (hm : h.metadata.NonnegPartitions)
    {key : PartitionKey} (hlists : h.metadata.Lists key.topic key.partition) {fs : Bytes → Dir}
    (hempty : fs (dirPath h.logRoot key.topic key.partition) = [])
    (coordinator : GroupCoordinator) {run : List BrokerCall}
    (hpos : ∀ x ∈ run.flatMap (BrokerCall.payloads key), ∀ n ∈ countOf x.2, 1 ≤ n)
    (hsum : countTotal (run.flatMap (BrokerCall.payloads key)) < 2 ^ 63) :
    ∃ calls segs, Served h key (.initial fs coordinator) run calls ∧
      RingLog (h.alone key fs) calls segs := by
  obtain ⟨calls, hserved⟩ := exists_served hm hlists fs coordinator run
  have hfresh : h.alone key fs =
      .fresh h.logRoot key.topic key.partition h.segmentBytes h.ring := by
    rw [RecordHandler.alone, hempty]
    rfl
  have hroom : HasRoom (h.alone key fs) (calls.filterMap LogInput.payload?) := by
    rw [hserved.payloads]
    exact ⟨le_rfl, hpos, (zero_add _).trans_lt hsum⟩
  obtain ⟨segs, inv, hsegs⟩ := RingInv.of_run hfresh hroom.advances id
  exact ⟨calls, segs, hserved, inv.ringLog hsegs⟩

/-! ### The partition in the process -/

namespace Server

variable {n : ℕ} [NeZero n] {srv : Server n} {s : System n}

/-- The payloads for a partition that the reactors handle in a run. -/
def payloadsAt (srv : Server n) (s : System n) (key : PartitionKey)
    (inputs : List (ServerInput n)) : List (ProduceEnv × Bytes) :=
  ((srv.machine.observed srv.brokerCall s inputs).map Prod.fst).flatMap (BrokerCall.payloads key)

/-- What the reactors do for the partition is what the calls do to a context of its own. -/
structure KeepsLog (srv : Server n) (s : System n) (key : PartitionKey)
    (inputs : List (ServerInput n)) (calls : List LogInput) : Prop where
  payloads : calls.filterMap LogInput.payload? = srv.payloadsAt s key inputs
  reported : (srv.machine.observed srv.brokerCall s inputs).flatMap
      (fun e => e.1.reported key e.2) =
    (logMachine.trace (srv.records.alone key s.fs) calls).filterMap fun e => e.2.baseOffset?
  directory : (srv.machine.exec s inputs).fs
      (dirPath srv.records.logRoot key.topic key.partition) =
    (logMachine.exec (srv.records.alone key s.fs) calls).dir
  /-- The writes in flight are those for the partition in all rings together. -/
  pending : (srv.machine.exec s inputs).pendingWrites.filterMap
      (fun x => if x.1 = dirPath srv.records.logRoot key.topic key.partition then some x.2
        else none) =
    (logMachine.exec (srv.records.alone key s.fs) calls).inFlight

end Server

namespace TwoReactors

/-- A batch for partition 0 of `t`, in a request of its own. -/
def produceBatch : Bytes :=
  let batch := makeRecordBatchV2 [[1], [2]]
  produceBody 1 ([0, 0, 0, 0, UInt8.ofNat (batch.length + 1)] ++ batch ++ [0])

/-- The request is forwarded to the last reactor, where it is handled and its write completes
before the answer is taken back. -/
def batchRun : List (ServerInput 2) :=
  run produceBatch ++ [.harvest (Fin.last 1) 0 200, deliver]

theorem nonnegPartitions_metadata : metadata.NonnegPartitions := by
  intro info hinfo p hp
  rw [List.mem_singleton.mp hinfo] at hp
  simp only [List.mem_cons, List.not_mem_nil, or_false] at hp
  rcases hp with rfl | rfl <;> decide

end TwoReactors

end TinyKafka
