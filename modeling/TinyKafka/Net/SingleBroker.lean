import TinyKafka.Broker.PartitionIsolation
import TinyKafka.ForMathlib.Balance
import TinyKafka.Net.Ownership

/-!
# The reactors together are one broker

Every reactor has a map of contexts of its own, and requests travel between the reactors. As
long as a request touches only partitions of the reactor that handles it, none of this shows:
the calls of `Broker::handle` on all reactors, in the order in which they happen, are calls on
one broker with one map, and every one of them returns what it would return there
(`actsAsOne_of_readsTogether`). The order is that of the run, so the answer to a request is
determined at one moment between the read of the request and the response.

The argument is local. A handler only works through the contexts of the partitions it touches
(`CallsOnly`), so two states that agree on those give the same results (`CallsOnly.relates`).
`Merged` puts the maps together: the one broker has, for a partition, the context that the
reactor of the partition has.
-/

namespace TinyKafka

open OptionT (Relates)

variable {n : ℕ}

/-! ### A broker on its own -/

/-- What happens to a broker: it handles a request, or a write it has submitted completes. -/
inductive BrokerCall
  | handle (env : BrokerEnv) (req : Request)
  | complete (path : Bytes) (w : Submission) (written : ℕ)

/-- A write that has been submitted completes with `written` bytes. -/
def BrokerState.complete (b : BrokerState) (path : Bytes) (w : Submission) (written : ℕ) :
    BrokerState :=
  if b.submissions.contains (path, w) then
    { b with
      fs := Function.update b.fs path ((b.fs path).append w.name (w.data.take written))
      submissions := b.submissions.erase (path, w) }
  else b

/-- One broker with one map of contexts. Its submissions are the writes that are not
complete. -/
def Broker.machine (h : RecordHandler) : Machine BrokerState BrokerCall (Option Response) where
  step b
    | .handle env req => Broker.handle h env b req
    | .complete path w written => (b.complete path w written, none)

/-! ### Handlers and the contexts they call -/

/-- The name of a partition in a map of contexts. -/
def PartitionKey.contextName (key : PartitionKey) : Bytes :=
  RecordHandler.contextKey key.topic key.partition

theorem PartitionKey.contextName_injective : Function.Injective PartitionKey.contextName := by
  intro key key' h
  obtain ⟨htopic, hpartition⟩ := RecordHandler.contextKey_inj.mp h
  exact PartitionKey.mk.injEq .. ▸ ⟨htopic, hpartition⟩

/-- The computation is put together from calls on contexts of partitions with the property. -/
inductive RecordHandler.CallsOnly (h : RecordHandler) (P : PartitionKey → Prop) :
    {α : Type} → Handler α → Prop
  | pure {α : Type} (a : α) : CallsOnly h P (Pure.pure a : Handler α)
  | bind {α β : Type} {m : Handler α} {f : α → Handler β} (hm : CallsOnly h P m)
      (hf : ∀ a, CallsOnly h P (f a)) : CallsOnly h P (m >>= f)
  | call {α : Type} (key : PartitionKey) (hP : P key)
      (call : PartitionContext → Dir → Called α) :
      CallsOnly h P (h.withContext key.topic key.partition call)

namespace RecordHandler

variable {h : RecordHandler} {P : PartitionKey → Prop}

theorem CallsOnly.mapM {α β : Type} {l : List α} {f : α → Handler β}
    (hf : ∀ a ∈ l, CallsOnly h P (f a)) : CallsOnly h P (l.mapM f) := by
  induction l with
  | nil => exact .pure []
  | cons a l ih =>
    rw [List.mapM_cons]
    refine (hf a List.mem_cons_self).bind fun b => ?_
    exact (ih fun a ha => hf a (List.mem_cons_of_mem _ ha)).bind fun bs => .pure _

theorem callsOnly_listOffsets {r : ListOffsetsRequest}
    (hP : ∀ key ∈ touchedPartitions h.metadata (.listOffsets r), P key) :
    CallsOnly h P (h.handleListOffsets r) := by
  refine (CallsOnly.mapM fun t ht => ?_).bind fun _ => .pure _
  refine (CallsOnly.mapM fun p hp => ?_).bind fun _ => .pure _
  rw [listOffsetsPartition]
  dsimp only
  split
  · next hlists =>
    split
    · exact .pure _
    · split
      · next hlatest =>
        refine .call ⟨t.topicName, p.partitionIndex⟩ (hP _ ?_) _
        refine List.mem_flatMap.mpr ⟨t, ht, List.mem_map.mpr ⟨p, ?_, rfl⟩⟩
        exact List.mem_filter.mpr ⟨hp, decide_eq_true ⟨hlists, hlatest⟩⟩
      · exact .pure _
  · exact .pure _

theorem callsOnly_produce {env : ℕ → ℕ → OsEnv} {r : ProduceRequest}
    (hP : ∀ key ∈ touchedPartitions h.metadata (.produce r), P key) :
    CallsOnly h P (h.handleProduce env r) := by
  refine (CallsOnly.mapM fun t ht => ?_).bind fun _ => .pure _
  refine (CallsOnly.mapM fun p hp => ?_).bind fun _ => .pure _
  change CallsOnly h P (h.producePartition (env t.2 p.2).produce t.1.topicName p.1)
  rw [producePartition]
  split
  · next hlists =>
    split
    · exact .pure _
    · next hrecords =>
      refine .call ⟨t.1.topicName, p.1.partitionIndex⟩ (hP _ ?_) _
      refine List.mem_flatMap.mpr ⟨t.1, List.fst_mem_of_mem_zipIdx ht, ?_⟩
      refine List.mem_map.mpr ⟨p.1, List.mem_filter.mpr ⟨List.fst_mem_of_mem_zipIdx hp, ?_⟩, rfl⟩
      exact decide_eq_true ⟨hlists, hrecords⟩
  · exact .pure _

theorem callsOnly_fetch {env : ℕ → ℕ → OsEnv} {r : FetchRequest}
    (hP : ∀ key ∈ touchedPartitions h.metadata (.fetch r), P key) :
    CallsOnly h P (h.handleFetch env r) := by
  refine (CallsOnly.mapM fun t ht => ?_).bind fun _ => .pure _
  change CallsOnly h P (h.fetchTopic (env t.2) t.1)
  rw [fetchTopic]
  split
  · next info hinfo =>
    refine (CallsOnly.mapM fun p hp => ?_).bind fun _ => .pure _
    refine .call ⟨info.name, p.1.partitionIndex⟩ (hP _ ?_) _
    refine List.mem_flatMap.mpr ⟨t.1, List.fst_mem_of_mem_zipIdx ht, ?_⟩
    rw [hinfo]
    exact List.mem_map.mpr ⟨p.1, List.fst_mem_of_mem_zipIdx hp, rfl⟩
  · exact .pure _

/-! ### Two states that agree on some partitions -/

/-- State `b` agrees with `s` on the contexts of the partitions with the property and with
`b₀` on those of the others; files are the same. What has been submitted since is the same. -/
structure Agree (P : PartitionKey → Prop) (b₀ b s : LogState) : Prop where
  inside : ∀ key, P key → b.contexts key.contextName = s.contexts key.contextName
  outside : ∀ key, ¬ P key → b.contexts key.contextName = b₀.contexts key.contextName
  fs : b.fs = s.fs
  submissions : b.submissions = b₀.submissions ++ s.submissions

theorem relates_withContext {b₀ : LogState} {key : PartitionKey} (hP : P key) {α : Type}
    (call : PartitionContext → Dir → Called α) :
    Relates (Agree P b₀) (h.withContext key.topic key.partition call)
      (h.withContext key.topic key.partition call) := by
  refine Relates.ofRun fun b s hbs => ?_
  have hctx : h.getOrCreateContext b key.topic key.partition =
      h.getOrCreateContext s key.topic key.partition := by
    rw [getOrCreateContext, getOrCreateContext]
    exact congrArg (Option.getD · _) (hbs.inside key hP)
  dsimp only
  rw [hctx, hbs.fs]
  refine ⟨rfl, fun key' hP' => ?_, fun key' hP' => ?_, rfl, ?_⟩
  · dsimp only
    rcases eq_or_ne key'.contextName (contextKey key.topic key.partition) with heq | hne
    · rw [heq, Function.update_self, Function.update_self]
    · rw [Function.update_of_ne hne, Function.update_of_ne hne]
      exact hbs.inside key' hP'
  · have hne : key'.contextName ≠ contextKey key.topic key.partition := by
      intro heq
      rw [PartitionKey.contextName_injective heq] at hP'
      exact hP' hP
    dsimp only
    rw [Function.update_of_ne hne]
    exact hbs.outside key' hP'
  · dsimp only
    rw [hbs.submissions, List.append_assoc]

/-- States that agree on the partitions a handler calls cannot be told apart by it. -/
theorem CallsOnly.relates {b₀ : LogState} {α : Type} {m : Handler α} (hm : CallsOnly h P m) :
    Relates (Agree P b₀) m m := by
  induction hm with
  | pure a => exact Relates.pure a
  | bind _ _ ih ihf => exact ih.bind ihf
  | call key hP call => exact relates_withContext hP call

end RecordHandler

/-- The same for a request: the responses are the same, and so are the coordinators after. -/
theorem Broker.agree_handle {h : RecordHandler} (env : BrokerEnv) {P : PartitionKey → Prop}
    {b s : BrokerState} {req : Request} (hP : ∀ key ∈ touchedPartitions h.metadata req, P key)
    (hbs : RecordHandler.Agree P b.toLogState b.toLogState s.toLogState)
    (hcoord : b.coordinator = s.coordinator) :
    (Broker.handle h env b req).2 = (Broker.handle h env s req).2 ∧
      RecordHandler.Agree P b.toLogState (Broker.handle h env b req).1.toLogState
        (Broker.handle h env s req).1.toLogState ∧
      (Broker.handle h env b req).1.coordinator = (Broker.handle h env s req).1.coordinator := by
  have hrecords {α : Type} {m : Handler α} (hm : RecordHandler.CallsOnly h P m)
      (wrap : α → Response) :
      (b.records m wrap).2 = (s.records m wrap).2 ∧
        RecordHandler.Agree P b.toLogState (b.records m wrap).1.toLogState
          (s.records m wrap).1.toLogState ∧
        (b.records m wrap).1.coordinator = (s.records m wrap).1.coordinator := by
    obtain ⟨hval, hagree⟩ := hm.relates _ _ hbs
    exact ⟨congrArg (Option.map wrap) hval, hagree, hcoord⟩
  cases req with
  | produce r => exact hrecords (RecordHandler.callsOnly_produce hP) _
  | fetch r => exact hrecords (RecordHandler.callsOnly_fetch hP) _
  | listOffsets r => exact hrecords (RecordHandler.callsOnly_listOffsets hP) _
  | apiVersions r | findCoordinator r | metadata r | describeTopicPartitions r =>
    exact ⟨rfl, hbs, hcoord⟩
  | _ =>
    refine ⟨?_, hbs, ?_⟩ <;> simp only [Broker.handle, BrokerState.group, hcoord]

/-! ### The maps of the reactors put together -/

/-- The write an operation of the ring is for. -/
def RingOp.write? : RingOp → Option (Bytes × Submission)
  | .write path w => some (path, w)
  | .splice .. => none

/-- The writes in a ring. -/
def writesOf (ring : List RingOp) : Multiset (Bytes × Submission) :=
  (ring.filterMap RingOp.write? : List (Bytes × Submission))

theorem writesOf_append (ring ops : List RingOp) :
    writesOf (ring ++ ops) = writesOf ring + writesOf ops := by
  rw [writesOf, List.filterMap_append, ← Multiset.coe_add]
  rfl

theorem writesOf_eraseIdx {ring : List RingOp} {k : ℕ} {op : RingOp} (hop : ring[k]? = some op) :
    writesOf (ring.eraseIdx k) + writesOf [op] = writesOf ring := by
  obtain ⟨hk, rfl⟩ := List.getElem?_eq_some_iff.mp hop
  rw [← writesOf_append]
  refine Multiset.coe_eq_coe.mpr (List.Perm.filterMap _ ?_)
  exact (List.perm_append_singleton _ _).trans (List.getElem_cons_eraseIdx_perm hk)

theorem writesOf_map_write (l : List (Bytes × Submission)) :
    writesOf (l.map fun x => .write x.1 x.2) = l := by
  rw [writesOf, List.filterMap_map]
  exact congrArg _ List.filterMap_some

namespace System

/-- The writes in the rings of all reactors. -/
def pendingWrites (s : System n) : Multiset (Bytes × Submission) := ∑ i, writesOf (s.rings i)

/-- The process as one broker, before anything has happened. -/
def asBroker (s : System n) : BrokerState where
  contexts _ := none
  fs := s.fs
  coordinator := s.coordinator

/-- The states have the same logs, the same coordinator and the same writes to complete. -/
structure SameLogs (s s' : System n) : Prop where
  contexts : s'.contexts = s.contexts
  fs : s'.fs = s.fs
  coordinator : s'.coordinator = s.coordinator
  pendingWrites : s'.pendingWrites = s.pendingWrites

variable {s s' s'' : System n} {i : Fin n} {fd : ℕ} {conn : Connection}

theorem SameLogs.trans (h : SameLogs s s') (h' : SameLogs s' s'') : SameLogs s s'' :=
  ⟨h'.contexts.trans h.contexts, h'.fs.trans h.fs, h'.coordinator.trans h.coordinator,
    h'.pendingWrites.trans h.pendingWrites⟩

theorem sameLogs_refl : SameLogs s s := ⟨rfl, rfl, rfl, rfl⟩

theorem sameLogs_setConnection : SameLogs s (s.setConnection i fd conn) := ⟨rfl, rfl, rfl, rfl⟩

theorem sameLogs_closeConnection : SameLogs s (s.closeConnection i fd) := ⟨rfl, rfl, rfl, rfl⟩

theorem sameLogs_setWantWrite {b : Bool} : SameLogs s (s.setWantWrite i fd b) := by
  rw [setWantWrite_eq]
  exact ⟨rfl, rfl, rfl, rfl⟩

theorem sameLogs_putResponse {data : Bytes} : SameLogs s (s.putResponse i fd conn data) := by
  rcases s.putResponse_eq i fd conn data with h | h <;> rw [h]
  · exact sameLogs_setConnection
  · exact sameLogs_setConnection.trans sameLogs_setWantWrite

theorem sameLogs_advanceWriteQueue : SameLogs s (s.advanceWriteQueue i fd conn) := by
  unfold advanceWriteQueue
  dsimp only
  split
  · exact sameLogs_setConnection.trans sameLogs_setWantWrite
  · exact sameLogs_setConnection

theorem pendingWrites_append (ops : List RingOp) :
    { s with rings := Function.update s.rings i (s.rings i ++ ops) }.pendingWrites =
      s.pendingWrites + writesOf ops := by
  have hsum := sum_update_add writesOf s.rings i (s.rings i ++ ops)
  rw [writesOf_append, ← add_assoc, add_right_comm] at hsum
  exact add_right_cancel hsum

theorem pendingWrites_eraseIdx {k : ℕ} {op : RingOp} (hop : (s.rings i)[k]? = some op) :
    { s with rings := Function.update s.rings i ((s.rings i).eraseIdx k) }.pendingWrites +
      writesOf [op] = s.pendingWrites := by
  have hsum := sum_update_add writesOf s.rings i ((s.rings i).eraseIdx k)
  rw [← writesOf_eraseIdx hop, add_comm (writesOf _) (writesOf [op]), ← add_assoc] at hsum
  exact add_right_cancel hsum

theorem sameLogs_handleWrite {env : WriteEnv} : SameLogs s (s.handleWrite i fd env) := by
  rw [handleWrite]
  split
  · exact sameLogs_closeConnection
  · dsimp only
    split
    · split
      · refine ⟨rfl, rfl, rfl, ?_⟩
        exact (pendingWrites_append _).trans (add_zero _)
      · exact sameLogs_advanceWriteQueue
      · exact sameLogs_setConnection
    · exact sameLogs_setConnection

end System

namespace Server

variable [NeZero n] (srv : Server n)

/-- The maps of the reactors put together: `b` has for a partition the context that the reactor
of the partition has. The rest is shared already, except for the rings. -/
structure Merged (b : BrokerState) (s : System n) : Prop where
  contexts : ∀ key : PartitionKey,
    b.contexts key.contextName = s.contexts (srv.ownerOf key) key.contextName
  fs : b.fs = s.fs
  coordinator : b.coordinator = s.coordinator
  pending : (b.submissions : Multiset (Bytes × Submission)) = s.pendingWrites

/-- The call of `handle_read` on the broker of its own reactor, with what it returns. -/
def readCall (s : System n) (i : Fin n) (fd : ℕ) (read : ReadEnv) :
    Option (BrokerCall × Option Response) :=
  (srv.requestRead s i fd read).bind fun req =>
    if srv.router.target srv.records.metadata i req = i then
      some (.handle read.broker req, (srv.handle s i read.broker req).2)
    else none

/-- The call a step makes on the broker of one of the reactors, with what it returns. -/
def brokerCall (s : System n) : ServerInput n → Option (BrokerCall × Option Response)
  | .event i fd ev read _ =>
    if s.terminated ∨ s.owner i fd = none ∨ ev.errHup ∨ ¬ ev.readable then none
    else srv.readCall s i fd read
  | .drainRequest i env =>
    if s.terminated then none
    else
      (s.requests i).head?.map fun q =>
        (.handle env q.request, (srv.handle s i env q.request).2)
  | .harvest i k written =>
    if s.terminated then none
    else ((s.rings i)[k]?.bind RingOp.write?).map fun x => (.complete x.1 x.2 written, none)
  | .accept .. | .drainResponse _ => none

/-- One broker replays a step that gets the process into state `s'`. -/
def Replayed (b : BrokerState) (s' : System n) : Option (BrokerCall × Option Response) → Prop :=
  (Broker.machine srv.records).Replays srv.Merged b s'

variable {srv} {b : BrokerState} {s s' : System n} {i : Fin n}

theorem Merged.of_sameLogs (hb : srv.Merged b s) (h : s.SameLogs s') : srv.Merged b s' where
  contexts key := by rw [h.contexts, hb.contexts]
  fs := hb.fs.trans h.fs.symm
  coordinator := hb.coordinator.trans h.coordinator.symm
  pending := hb.pending.trans h.pendingWrites.symm

/-- The process as it starts. -/
theorem merged_asBroker (hfresh : s.Fresh) (hrings : ∀ i, s.rings i = []) :
    srv.Merged s.asBroker s where
  contexts key := (hfresh.contexts _ _).symm
  fs := rfl
  coordinator := rfl
  pending := by
    rw [System.pendingWrites, Finset.sum_congr rfl fun i _ => congrArg writesOf (hrings i)]
    exact (Finset.sum_const_zero).symm

/-- A request whose partitions belong to the reactor that handles it. -/
theorem Merged.handle (hb : srv.Merged b s) (env : BrokerEnv) {req : Request}
    (hreq : ∀ key ∈ touchedPartitions srv.records.metadata req, srv.ownerOf key = i) :
    (Broker.handle srv.records env b req).2 = (srv.handle s i env req).2 ∧
      srv.Merged (Broker.handle srv.records env b req).1 (srv.handle s i env req).1 := by
  obtain ⟨hval, hagree, hcoord⟩ := Broker.agree_handle env
    (P := fun key => srv.ownerOf key = i) (b := b)
    (s := { contexts := s.contexts i, fs := s.fs, coordinator := s.coordinator }) hreq
    ⟨fun key hkey => by rw [hb.contexts, hkey], fun _ _ => rfl, hb.fs, (List.append_nil _).symm⟩
    hb.coordinator
  refine ⟨hval, fun key => ?_, hagree.fs, hcoord, ?_⟩
  · change _ = Function.update s.contexts i _ (srv.ownerOf key) key.contextName
    rcases eq_or_ne (srv.ownerOf key) i with hkey | hkey
    · rw [hkey, Function.update_self]
      exact hagree.inside key hkey
    · rw [Function.update_of_ne hkey, ← hb.contexts key]
      exact hagree.outside key hkey
  · refine Eq.trans ?_ (System.pendingWrites_append (s := s) (i := i) _).symm
    rw [hagree.submissions, ← Multiset.coe_add, hb.pending]
    exact congrArg (s.pendingWrites + ·) (writesOf_map_write _).symm

/-- A write completes, or a splice, which is not the broker's. -/
theorem Merged.harvest (hb : srv.Merged b s) (k written : ℕ) :
    ((s.rings i)[k]?.bind RingOp.write? = none → srv.Merged b (s.harvest i k written)) ∧
      ∀ x, (s.rings i)[k]?.bind RingOp.write? = some x →
        srv.Merged (b.complete x.1 x.2 written) (s.harvest i k written) := by
  rw [System.harvest]
  rcases hop : (s.rings i)[k]? with _ | op
  · exact ⟨fun _ => hb, fun x hx => by cases hx⟩
  have hpending := System.pendingWrites_eraseIdx hop
  rcases op with ⟨path, w⟩ | ⟨fd, file, len⟩
  · refine ⟨fun hnone => absurd hnone (Option.some_ne_none _), ?_⟩
    rintro x ⟨⟩
    have hsub : (b.submissions : Multiset (Bytes × Submission)) =
        System.pendingWrites { s with
          rings := Function.update s.rings i ((s.rings i).eraseIdx k) } + {(path, w)} :=
      hb.pending.trans hpending.symm
    have hmem : (path, w) ∈ b.submissions := by
      rw [← Multiset.mem_coe, hsub]
      exact Multiset.mem_add.mpr (.inr (Multiset.mem_singleton_self _))
    rw [BrokerState.complete, if_pos (List.contains_iff_mem.mpr hmem)]
    refine ⟨hb.contexts, ?_, hb.coordinator, ?_⟩
    · dsimp only [System.complete]
      rw [hb.fs]
    · have herase := Multiset.coe_eq_coe.mpr (List.perm_cons_erase hmem)
      rw [hsub, ← Multiset.cons_coe, ← Multiset.singleton_add, add_comm] at herase
      exact (add_left_cancel herase).symm
  · refine ⟨fun _ => ?_, fun x hx => by cases hx⟩
    have hpopped : srv.Merged b
        { s with rings := Function.update s.rings i ((s.rings i).eraseIdx k) } :=
      ⟨hb.contexts, hb.fs, hb.coordinator, hb.pending.trans (hpending.symm.trans (add_zero _))⟩
    dsimp only [System.complete]
    split
    · split
      · exact hpopped
      · exact hpopped.of_sameLogs System.sameLogs_advanceWriteQueue
    · exact hpopped

omit [NeZero n] in
theorem sameLogs_answerLocally (fd : ℕ) (origin : Origin n) (env : BrokerEnv) (req : Request) :
    (srv.handle s i env req).1.SameLogs (srv.answerLocally s i fd origin env req).1 := by
  rcases srv.answerLocally_cases s i env req fd origin with
    ⟨-, heq⟩ | ⟨_, -, ⟨-, heq⟩ | ⟨-, heq⟩⟩ <;> rw [heq]
  · exact System.sameLogs_refl
  · exact System.sameLogs_closeConnection
  · exact System.sameLogs_putResponse

theorem Replayed.of_sameLogs {o : Option (BrokerCall × Option Response)}
    (hb : srv.Replayed b s o) (h : s.SameLogs s') : srv.Replayed b s' o := by
  rcases o with _ | o
  · exact Merged.of_sameLogs hb h
  · exact ⟨hb.1, hb.2.of_sameLogs h⟩

theorem Merged.handleRead (hb : srv.Merged b s) (fd : ℕ) (c : ConnId n) {env : ReadEnv}
    (hreq : ∀ req ∈ srv.requestRead s i fd env,
      ∀ key ∈ touchedPartitions srv.records.metadata req,
        srv.ownerOf key = srv.router.target srv.records.metadata i req) :
    srv.Replayed b (srv.handleRead s i fd c env).1 (srv.readCall s i fd env) := by
  have hread := srv.readOutcome s i fd c env
  rw [readCall]
  generalize srv.requestRead s i fd env = request at hread hreq ⊢
  generalize srv.handleRead s i fd c env = out at hread ⊢
  cases hread with
  | waited => exact hb.of_sameLogs System.sameLogs_setConnection
  | closed | refused => exact hb.of_sameLogs System.sameLogs_closeConnection
  | forwarded r body sock req hframe hparse htarget =>
    rw [Option.bind_some, if_neg htarget]
    exact hb.of_sameLogs ⟨rfl, rfl, rfl, rfl⟩
  | handled r body sock req hframe hparse htarget =>
    have hkeys := hreq req rfl
    rw [htarget] at hkeys
    rw [Option.bind_some, if_pos htarget]
    refine Replayed.of_sameLogs (o := some _) (hb.handle env.broker hkeys) ?_
    -- the handler sees neither the connection nor the count of reads
    refine System.SameLogs.trans ?_ (sameLogs_answerLocally ..)
    exact ⟨rfl, rfl, rfl, rfl⟩

theorem Merged.event (hb : srv.Merged b s) {fd : ℕ} {ev : EpollEvent} {read : ReadEnv}
    {write : WriteEnv} (hinput : srv.ReadsTogether s (.event i fd ev read write)) (c : ConnId n) :
    srv.Replayed b (srv.handleEvent s i fd c ev read write).1
      (if ev.errHup ∨ ¬ ev.readable then none else srv.readCall s i fd read) := by
  rw [handleEvent]
  by_cases herr : ev.errHup = true
  · rw [if_pos herr, if_pos (.inl herr)]
    exact hb.of_sameLogs System.sameLogs_closeConnection
  have hread : srv.Replayed b (srv.readPart s i fd c ev read).1
      (if ev.errHup ∨ ¬ ev.readable then none else srv.readCall s i fd read) := by
    rw [readPart]
    by_cases hreadable : ev.readable = true
    · rw [if_pos hreadable, if_neg fun h => h.elim herr fun h => h hreadable]
      exact hb.handleRead fd c (hinput (by simpa using herr) hreadable)
    · rw [if_neg hreadable, if_pos (.inr hreadable)]
      exact hb
  rw [if_neg herr, ← readPart]
  dsimp only
  split
  · exact hread.of_sameLogs System.sameLogs_handleWrite
  · exact hread

/-- Every step of every reactor is a call on the one broker, or none. -/
theorem Merged.next (hb : srv.Merged b s) (howned : srv.Owned s) {input : ServerInput n}
    (hinput : srv.ReadsTogether s input) :
    srv.Replayed b (srv.machine.next s input) (srv.brokerCall s input) := by
  rw [Machine.next, machine]
  dsimp only
  by_cases hterm : s.terminated = true
  · rw [if_pos hterm]
    have hnone : srv.brokerCall s input = none := by
      cases input <;> simp [brokerCall, hterm]
    rw [hnone]
    exact hb
  rw [if_neg hterm]
  cases input with
  | accept i fd ok =>
    refine hb.of_sameLogs ?_
    rw [step, System.handleAccept]
    split
    · exact ⟨rfl, rfl, rfl, rfl⟩
    · exact System.sameLogs_refl
  | event i fd ev read write =>
    rw [step, brokerCall]
    rcases howner : s.owner i fd with _ | c
    · rw [if_pos (.inr (.inl rfl))]
      exact hb
    · have hcall := hb.event hinput c
      simpa [hterm] using hcall
  | drainRequest i env =>
    rw [step, brokerCall, if_neg hterm]
    rcases hq : s.requests i with _ | ⟨q, rest⟩
    · rw [drainRequest_nil srv s i env hq]
      exact hb
    · have hkeys := howned.requests i q (by rw [hq]; exact List.mem_cons_self)
      obtain ⟨hval, hmerged⟩ := hb.handle env hkeys
      refine ⟨hval, hmerged.of_sameLogs ?_⟩
      obtain ⟨popped, rfl, hdrain | ⟨resp, hdrain⟩⟩ := srv.drainRequest_cases s i env hq <;>
        rw [hdrain] <;> exact ⟨rfl, rfl, rfl, rfl⟩
  | drainResponse i =>
    refine hb.of_sameLogs ?_
    rw [step]
    rcases hx : s.responses i with _ | ⟨x, rest⟩
    · rw [drainResponse, hx]
      exact System.sameLogs_refl
    · obtain ⟨popped, rfl, ⟨-, hdrain⟩ | ⟨conn, -, hdrain⟩⟩ := drainResponse_cases s i hx <;>
        rw [hdrain]
      · exact ⟨rfl, rfl, rfl, rfl⟩
      · refine System.SameLogs.trans ?_ System.sameLogs_putResponse
        exact ⟨rfl, rfl, rfl, rfl⟩
  | harvest i k written =>
    rw [step, brokerCall, if_neg hterm]
    obtain ⟨hsplice, hwrite⟩ := hb.harvest (i := i) k written
    rcases hop : (s.rings i)[k]?.bind RingOp.write? with _ | x
    · exact hsplice hop
    · exact ⟨rfl, hwrite x hop⟩

/-- A step of the process, as a step of the one broker. -/
theorem replays_next (b : BrokerState) (s : System n) (input : ServerInput n)
    (hs : srv.Owned s ∧ srv.Merged b s) (hinput : srv.ReadsTogether s input) :
    (Broker.machine srv.records).Replays (fun b s => srv.Owned s ∧ srv.Merged b s) b
      (srv.machine.next s input) (srv.brokerCall s input) :=
  (hs.2.next hs.1 hinput).mono fun _ hb => ⟨hs.1.next hinput, hb⟩

/-- The calls of a run, in order, are calls on one broker with one map of contexts, which
returns what was returned in the run; at the end it has for every partition the context of the
reactor of the partition, the same files and groups, and the same writes to complete. -/
structure ActsAsOne (srv : Server n) (s : System n) (inputs : List (ServerInput n)) : Prop where
  answers : (Broker.machine srv.records).trace s.asBroker
      ((srv.machine.observed srv.brokerCall s inputs).map Prod.fst) =
    srv.machine.observed srv.brokerCall s inputs
  state : srv.Merged
    ((Broker.machine srv.records).exec s.asBroker
      ((srv.machine.observed srv.brokerCall s inputs).map Prod.fst))
    (srv.machine.exec s inputs)

/-- **The reactors together are one broker**, in every run whose requests touch only partitions
of the reactor that handles them. -/
theorem actsAsOne_of_readsTogether {inputs : List (ServerInput n)} (hfresh : s.Fresh)
    (hrings : ∀ i, s.rings i = []) (h : srv.machine.Within srv.ReadsTogether s inputs) :
    srv.ActsAsOne s inputs := by
  obtain ⟨htrace, -, hmerged⟩ := Machine.replayed_run replays_next
    ⟨Owned.of_fresh hfresh, merged_asBroker hfresh hrings⟩ h
  exact ⟨htrace, hmerged⟩

end Server

open TwoReactors in
/-- A request for a partition of reactor 1 arrives on reactor 0, and its answer is delivered
there. -/
theorem actsAsOne_produceZero :
    (server fun _ => 0).ActsAsOne {} (run produceZero ++ [deliver]) :=
  Server.actsAsOne_of_readsTogether System.fresh_empty (fun _ => rfl) (by decide +kernel)

end TinyKafka
