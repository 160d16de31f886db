import TinyKafka.Net.Reactor

/-!
# What the operations of a reactor change

Small facts about the operations of `TinyKafka.Net.Reactor`: which connection is behind a
descriptor, which entry is kept under it, and what stays as it is.
-/

namespace TinyKafka

variable {n : ℕ}

/-- A process that has not done anything yet; there may be files. -/
structure System.Fresh (s : System n) : Prop where
  connections : ∀ i fd, s.connections i fd = none
  contexts : ∀ i name, s.contexts i name = none
  requests : ∀ i, s.requests i = []
  responses : ∀ i, s.responses i = []
  sockets : ∀ fd, s.sockets fd = none

/-- The process as it starts, with no files. -/
theorem System.fresh_empty : ({} : System n).Fresh :=
  ⟨fun _ _ => rfl, fun _ _ => rfl, fun _ => rfl, fun _ => rfl, fun _ => rfl⟩

/-! ### Entries of the connection table -/

namespace Connection

/-- The buffers of the writing side are not those of the reading side. -/
@[simp] theorem toFrameReader_setSplice (c : Connection) (splice : Option (FileRef × ℕ)) :
    (c.setSplice splice).toFrameReader = c.toFrameReader := by
  rcases splice with _ | ⟨fd, len⟩ <;> rfl

@[simp] theorem toFrameReader_enqueue (c : Connection) (data : Bytes) :
    (c.enqueue data).toFrameReader = c.toFrameReader := by
  unfold enqueue
  split <;> rfl

end Connection

namespace System

variable (s : System n) (i : Fin n) (fd : ℕ) (conn : Connection)

@[simp] theorem connection_setConnection :
    (s.setConnection i fd conn).connection i fd = conn := by
  simp [connection, setConnection]

@[simp] theorem setConnection_setConnection (conn' : Connection) :
    (s.setConnection i fd conn).setConnection i fd conn' = s.setConnection i fd conn' := by
  simp [setConnection]

/-! ### The descriptor table -/

@[simp] theorem owner_setConnection (j : Fin n) (fd' : ℕ) :
    (s.setConnection i fd conn).owner j fd' = s.owner j fd' := rfl

@[simp] theorem owner_closeConnection : (s.closeConnection i fd).owner i fd = none := by
  simp [owner, closeConnection]

theorem owner_eq_some {c : ConnId n} :
    s.owner i fd = some c ↔ ∃ b, s.sockets fd = some ⟨c, b⟩ ∧ c.reactor = i := by
  rw [owner, Option.filter_eq_some_iff, Option.map_eq_some_iff]
  constructor
  · rintro ⟨⟨⟨c', b⟩, hs, rfl⟩, hr⟩
    exact ⟨b, hs, of_decide_eq_true hr⟩
  · rintro ⟨b, hs, hr⟩
    exact ⟨⟨_, hs, rfl⟩, decide_eq_true hr⟩

/-- `epoll_ctl` changes the interest of the descriptor, not the connection behind it. -/
theorem map_conn_setWantWrite (b : Bool) (fd' : ℕ) :
    ((s.setWantWrite i fd b).sockets fd').map OpenSocket.conn =
      (s.sockets fd').map OpenSocket.conn := by
  rw [setWantWrite]
  split
  · next c hc =>
    obtain ⟨b', hsocket, -⟩ := (s.owner_eq_some i fd).mp hc
    rcases eq_or_ne fd' fd with rfl | hne
    · simp [hsocket]
    · simp [hne]
  · rfl

@[simp] theorem owner_setWantWrite (b : Bool) (j : Fin n) (fd' : ℕ) :
    (s.setWantWrite i fd b).owner j fd' = s.owner j fd' := by
  rw [owner, owner, map_conn_setWantWrite]

/-- Nothing but the descriptor table depends on the interest. -/
theorem setWantWrite_eq (b : Bool) :
    s.setWantWrite i fd b = { s with sockets := (s.setWantWrite i fd b).sockets } := by
  rw [setWantWrite]
  split <;> rfl

@[simp] theorem connections_setWantWrite (b : Bool) :
    (s.setWantWrite i fd b).connections = s.connections := by
  rw [setWantWrite_eq]

@[simp] theorem terminated_setWantWrite (b : Bool) :
    (s.setWantWrite i fd b).terminated = s.terminated := by
  rw [setWantWrite_eq]

/-! ### Responses -/

theorem putResponse_eq (data : Bytes) :
    s.putResponse i fd conn data = s.setConnection i fd (conn.enqueue data) ∨
      s.putResponse i fd conn data =
        (s.setConnection i fd (conn.enqueue data)).setWantWrite i fd true := by
  unfold putResponse
  dsimp only
  split
  · exact .inr rfl
  · exact .inl rfl

@[simp] theorem owner_putResponse (data : Bytes) (j : Fin n) (fd' : ℕ) :
    (s.putResponse i fd conn data).owner j fd' = s.owner j fd' := by
  rcases s.putResponse_eq i fd conn data with h | h <;> rw [h] <;> simp

@[simp] theorem terminated_putResponse (data : Bytes) :
    (s.putResponse i fd conn data).terminated = s.terminated := by
  rcases s.putResponse_eq i fd conn data with h | h <;> rw [h]
  · rfl
  · rw [terminated_setWantWrite]
    rfl

@[simp] theorem connection_putResponse (data : Bytes) :
    (s.putResponse i fd conn data).connection i fd = conn.enqueue data := by
  rcases s.putResponse_eq i fd conn data with h | h <;> rw [h]
  · simp
  · rw [connection, connections_setWantWrite]
    exact connection_setConnection s i fd _

/-! ### Queues -/

theorem mem_pushRequest {j j' : Fin n} {q q' : ForwardedRequest n} :
    q' ∈ (s.pushRequest j q).requests j' ↔ q' ∈ s.requests j' ∨ j' = j ∧ q' = q := by
  rcases eq_or_ne j' j with rfl | hne
  · simp [pushRequest]
  · simp [pushRequest, hne]

theorem mem_pushResponse {j j' : Fin n} {x x' : ForwardedResponse n} :
    x' ∈ (s.pushResponse j x).responses j' ↔ x' ∈ s.responses j' ∨ j' = j ∧ x' = x := by
  rcases eq_or_ne j' j with rfl | hne
  · simp [pushResponse]
  · simp [pushResponse, hne]

theorem requests_pushRequest_of_nil {j : Fin n} {q : ForwardedRequest n}
    (h : s.requests j = []) : (s.pushRequest j q).requests j = [q] := by
  simp [pushRequest, h]

/-! ### Input and output

The operations on connections, sockets, rings and files leave the contexts, the queues and
the counters alone. -/

/-- The states differ at most in their connections, sockets, rings and files. -/
def SameWork (s s' : System n) : Prop :=
  ∃ connections sockets rings fs, s' = { s with connections, sockets, rings, fs }

variable {s i fd conn}

theorem SameWork.trans {s' s'' : System n} (h : s.SameWork s') (h' : s'.SameWork s'') :
    s.SameWork s'' := by
  obtain ⟨_, _, _, _, rfl⟩ := h
  obtain ⟨_, _, _, _, rfl⟩ := h'
  exact ⟨_, _, _, _, rfl⟩

theorem SameWork.queues {s' : System n} (h : s.SameWork s') :
    s'.requests = s.requests ∧ s'.responses = s.responses := by
  obtain ⟨_, _, _, _, rfl⟩ := h
  exact ⟨rfl, rfl⟩

theorem sameWork_refl : s.SameWork s := ⟨_, _, _, _, rfl⟩

theorem sameWork_setConnection : s.SameWork (s.setConnection i fd conn) := ⟨_, _, _, _, rfl⟩

theorem sameWork_closeConnection : s.SameWork (s.closeConnection i fd) := ⟨_, _, _, _, rfl⟩

theorem sameWork_setWantWrite {b : Bool} : s.SameWork (s.setWantWrite i fd b) := by
  rw [setWantWrite_eq]
  exact ⟨_, _, _, _, rfl⟩

theorem sameWork_putResponse {data : Bytes} : s.SameWork (s.putResponse i fd conn data) := by
  unfold putResponse
  dsimp only
  split
  · exact sameWork_setConnection.trans sameWork_setWantWrite
  · exact sameWork_setConnection

theorem sameWork_advanceWriteQueue : s.SameWork (s.advanceWriteQueue i fd conn) := by
  unfold advanceWriteQueue
  dsimp only
  split
  · exact sameWork_setConnection.trans sameWork_setWantWrite
  · exact sameWork_setConnection

theorem sameWork_handleWrite {env : WriteEnv} : s.SameWork (s.handleWrite i fd env) := by
  rw [handleWrite]
  split
  · exact sameWork_closeConnection
  · dsimp only
    split
    · split
      · exact ⟨_, _, _, _, rfl⟩
      · exact sameWork_advanceWriteQueue
      · exact sameWork_setConnection
    · exact sameWork_setConnection

theorem sameWork_harvest {k written : ℕ} : s.SameWork (s.harvest i k written) := by
  rw [harvest]
  split
  · next op _ =>
    have hpop : s.SameWork
        { s with rings := Function.update s.rings i ((s.rings i).eraseIdx k) } :=
      ⟨_, _, _, _, rfl⟩
    refine hpop.trans ?_
    rcases op with ⟨path, w⟩ | ⟨fd, file, len⟩
    · exact ⟨_, _, _, _, rfl⟩
    · rw [complete]
      split
      · split
        · exact sameWork_refl
        · exact sameWork_advanceWriteQueue
      · exact sameWork_refl
  · exact sameWork_refl

end System

/-! ### Open descriptors and their entries -/

namespace System

/-- The same descriptors are open, and have entries in the connection tables. -/
structure SameTable (s s' : System n) : Prop where
  owner : ∀ i fd, s'.owner i fd = s.owner i fd
  entry : ∀ i fd, s'.connections i fd = none ↔ s.connections i fd = none

variable {s s' s'' : System n} {i : Fin n} {fd : ℕ}

theorem SameTable.trans (h : SameTable s s') (h' : SameTable s' s'') : SameTable s s'' :=
  ⟨fun i fd => (h'.owner i fd).trans (h.owner i fd),
    fun i fd => (h'.entry i fd).trans (h.entry i fd)⟩

theorem sameTable_of_eq (hconn : s'.connections = s.connections)
    (hsockets : s'.sockets = s.sockets) : SameTable s s' where
  owner i fd := by rw [owner, owner, hsockets]
  entry i fd := by rw [hconn]

theorem connections_setConnection (conn : Connection) (j : Fin n) (fd' : ℕ) :
    (s.setConnection i fd conn).connections j fd' =
      if j = i ∧ fd' = fd then some conn else s.connections j fd' := by
  rcases eq_or_ne j i with rfl | hj
  · rcases eq_or_ne fd' fd with rfl | hfd <;> simp [setConnection, *]
  · simp [setConnection, hj]

theorem connections_closeConnection (j : Fin n) (fd' : ℕ) :
    (s.closeConnection i fd).connections j fd' =
      if j = i ∧ fd' = fd then none else s.connections j fd' := by
  rcases eq_or_ne j i with rfl | hj
  · rcases eq_or_ne fd' fd with rfl | hfd <;> simp [closeConnection, *]
  · simp [closeConnection, hj]

theorem owner_closeConnection_of_ne {j : Fin n} {fd' : ℕ} (h : fd' ≠ fd) :
    (s.closeConnection i fd).owner j fd' = s.owner j fd' := by
  simp [owner, closeConnection, h]

theorem sameTable_setConnection {conn : Connection} (h : s.connections i fd ≠ none) :
    SameTable s (s.setConnection i fd conn) where
  owner _ _ := rfl
  entry j fd' := by
    rw [connections_setConnection]
    split
    · next heq => simpa [heq.1, heq.2] using h
    · rfl

theorem sameTable_setWantWrite {b : Bool} : SameTable s (s.setWantWrite i fd b) where
  owner := s.owner_setWantWrite i fd b
  entry j fd' := by rw [connections_setWantWrite]

theorem sameTable_putResponse {conn : Connection} {data : Bytes} :
    SameTable (s.setConnection i fd (conn.enqueue data)) (s.putResponse i fd conn data) := by
  rcases s.putResponse_eq i fd conn data with h | h <;> rw [h]
  · exact sameTable_of_eq rfl rfl
  · exact sameTable_setWantWrite

theorem sameTable_advanceWriteQueue {conn : Connection} :
    SameTable (s.setConnection i fd conn.advanceWriteQueue)
      (s.advanceWriteQueue i fd conn) := by
  unfold advanceWriteQueue
  dsimp only
  split
  · exact sameTable_setWantWrite
  · exact sameTable_of_eq rfl rfl

/-- A splice only completes for an entry that is still there. -/
theorem sameTable_complete (written : ℕ) (op : RingOp) : SameTable s (s.complete i written op) := by
  rcases op with ⟨path, w⟩ | ⟨fd, file, len⟩
  · exact sameTable_of_eq rfl rfl
  · rw [complete]
    split
    · next conn hconn =>
      split
      · exact sameTable_of_eq rfl rfl
      · exact (sameTable_setConnection (by simp [hconn])).trans sameTable_advanceWriteQueue
    · exact sameTable_of_eq rfl rfl

theorem sameTable_harvest {k written : ℕ} : SameTable s (s.harvest i k written) := by
  rw [harvest]
  split
  · refine SameTable.trans ?_ (sameTable_complete written _)
    exact sameTable_of_eq rfl rfl
  · exact sameTable_of_eq rfl rfl

end System

namespace System

variable (s : System n) {i j : Fin n} {fd fd' : ℕ}

theorem connections_handleAccept (hfree : s.sockets fd = none) :
    (s.handleAccept i fd true).connections = (s.setConnection i fd {}).connections := by
  rw [handleAccept, if_pos ⟨rfl, hfree⟩]

theorem owner_handleAccept_of_ne (hfree : s.sockets fd = none) (hne : fd' ≠ fd) :
    (s.handleAccept i fd true).owner j fd' = s.owner j fd' := by
  rw [handleAccept, if_pos ⟨rfl, hfree⟩]
  simp [owner, hne]

theorem reactor_of_owner_handleAccept {c : ConnId n} (hfree : s.sockets fd = none)
    (h : (s.handleAccept i fd true).owner j fd = some c) : j = i := by
  rw [handleAccept, if_pos ⟨rfl, hfree⟩, owner_eq_some] at h
  obtain ⟨b, hsocket, rfl⟩ := h
  dsimp only at hsocket
  rw [Function.update_self, Option.some_inj, OpenSocket.mk.injEq] at hsocket
  rw [← hsocket.1]

end System

/-! ### Handling a request -/

namespace Server

variable (srv : Server n) (s : System n) (i : Fin n) (env : BrokerEnv) (req : Request)

@[simp] theorem owner_handle (j : Fin n) (fd : ℕ) :
    (srv.handle s i env req).1.owner j fd = s.owner j fd := rfl

@[simp] theorem connection_handle (j : Fin n) (fd : ℕ) :
    (srv.handle s i env req).1.connection j fd = s.connection j fd := rfl

theorem terminated_handle :
    (srv.handle s i env req).1.terminated = (srv.handle s i env req).2.isNone := rfl

/-- The three ways a request that is handled here can end. -/
theorem answerLocally_cases (fd : ℕ) (origin : Origin n) :
    (srv.handle s i env req).2 = none ∧
        srv.answerLocally s i fd origin env req = ((srv.handle s i env req).1, []) ∨
      ∃ resp, (srv.handle s i env req).2 = some resp ∧
        (srv.maxWriteBufferBytes < (srv.serialize resp).length ∧
            srv.answerLocally s i fd origin env req =
              ((srv.handle s i env req).1.closeConnection i fd, []) ∨
          (srv.serialize resp).length ≤ srv.maxWriteBufferBytes ∧
            srv.answerLocally s i fd origin env req =
              ((srv.handle s i env req).1.putResponse i fd
                ((s.connection i fd).setSplice resp.lastSplice) (srv.serialize resp),
                [.enqueued (s.owner i fd) origin false])) := by
  rw [answerLocally, ← srv.connection_handle s i env req, ← srv.owner_handle s i env req]
  rcases srv.handle s i env req with ⟨s', _ | resp⟩
  · exact .inl ⟨rfl, rfl⟩
  · refine .inr ⟨resp, rfl, ?_⟩
    dsimp only
    split
    · next h => exact .inl ⟨h, rfl⟩
    · next h => exact .inr ⟨not_lt.mp h, rfl⟩

/-- Of what an answer does, only the handling concerns the contexts. -/
theorem contexts_answerLocally (fd : ℕ) (origin : Origin n) :
    (srv.answerLocally s i fd origin env req).1.contexts =
      (srv.handle s i env req).1.contexts := by
  rcases srv.answerLocally_cases s i env req fd origin with
    ⟨-, h⟩ | ⟨_, -, ⟨-, h⟩ | ⟨-, h⟩⟩ <;> rw [h]
  · rfl
  · obtain ⟨_, _, _, _, h⟩ := System.sameWork_putResponse
    rw [h]

theorem queues_answerLocally (fd : ℕ) (origin : Origin n) :
    (srv.answerLocally s i fd origin env req).1.requests = s.requests ∧
      (srv.answerLocally s i fd origin env req).1.responses = s.responses := by
  rcases srv.answerLocally_cases s i env req fd origin with
    ⟨-, h⟩ | ⟨_, -, ⟨-, h⟩ | ⟨-, h⟩⟩ <;> rw [h]
  · exact ⟨rfl, rfl⟩
  · exact ⟨rfl, rfl⟩
  · exact System.sameWork_putResponse.queues

/-- An answer reports at most that the response has been put into the buffers. -/
theorem events_answerLocally (fd : ℕ) (origin : Origin n) :
    (srv.answerLocally s i fd origin env req).2 = [] ∨
      (srv.answerLocally s i fd origin env req).2 = [.enqueued (s.owner i fd) origin false] := by
  rcases srv.answerLocally_cases s i env req fd origin with
    ⟨-, h⟩ | ⟨_, -, ⟨-, h⟩ | ⟨-, h⟩⟩ <;> rw [h]
  · exact .inl rfl
  · exact .inl rfl
  · exact .inr rfl

theorem drainRequest_nil (h : s.requests i = []) : srv.drainRequest s i env = s := by
  rw [drainRequest, h]

/-- The queue without its first request, and then the answer unless handling throws. -/
theorem drainRequest_cases {q : ForwardedRequest n} {rest : List (ForwardedRequest n)}
    (h : s.requests i = q :: rest) :
    ∃ popped, popped = { s with requests := Function.update s.requests i rest } ∧
      (srv.drainRequest s i env = (srv.handle popped i env q.request).1 ∨
        ∃ resp, srv.drainRequest s i env =
          (srv.handle popped i env q.request).1.pushResponse q.sourceReactorId
            ⟨q.clientFd, srv.serialize resp, resp.lastSplice, q.origin⟩) := by
  refine ⟨_, rfl, ?_⟩
  rw [drainRequest, h]
  dsimp only
  generalize srv.handle _ i env q.request = out
  obtain ⟨s', _ | resp⟩ := out
  · exact .inl rfl
  · exact .inr ⟨resp, rfl⟩

theorem drainRequest_of_none {env : BrokerEnv} {q : ForwardedRequest n}
    {rest : List (ForwardedRequest n)} (h : s.requests i = q :: rest)
    (hnone : (srv.handle s i env q.request).2 = none) :
    srv.drainRequest s i env =
      (srv.handle { s with requests := Function.update s.requests i rest } i env q.request).1 := by
  have hsame : (srv.handle { s with requests := Function.update s.requests i rest } i env
      q.request).2 = none := hnone
  rw [drainRequest, h]
  dsimp only
  generalize srv.handle _ i env q.request = out at hsame ⊢
  obtain ⟨s', r⟩ := out
  obtain rfl : r = none := hsame
  rfl

theorem drainRequest_of_some {env : BrokerEnv} {q : ForwardedRequest n}
    {rest : List (ForwardedRequest n)} {resp : Response} (h : s.requests i = q :: rest)
    (hsome : (srv.handle s i env q.request).2 = some resp) :
    srv.drainRequest s i env =
      (srv.handle { s with requests := Function.update s.requests i rest } i env
        q.request).1.pushResponse q.sourceReactorId
          ⟨q.clientFd, srv.serialize resp, resp.lastSplice, q.origin⟩ := by
  have hsame : (srv.handle { s with requests := Function.update s.requests i rest } i env
      q.request).2 = some resp := hsome
  rw [drainRequest, h]
  dsimp only
  generalize srv.handle _ i env q.request = out at hsame ⊢
  obtain ⟨s', r⟩ := out
  obtain rfl : r = some resp := hsame
  rfl

theorem contexts_drainRequest {q : ForwardedRequest n} {rest : List (ForwardedRequest n)}
    (h : s.requests i = q :: rest) :
    (srv.drainRequest s i env).contexts = (srv.handle s i env q.request).1.contexts := by
  obtain ⟨popped, rfl, hdrain | ⟨resp, hdrain⟩⟩ := srv.drainRequest_cases s i env h <;>
    rw [hdrain] <;> rfl

/-- The first response is dropped, or put into the buffers kept under its descriptor. -/
theorem drainResponse_cases {x : ForwardedResponse n} {rest : List (ForwardedResponse n)}
    (h : s.responses i = x :: rest) :
    ∃ popped, popped = { s with responses := Function.update s.responses i rest } ∧
      (s.connections i x.clientFd = none ∧ drainResponse s i = (popped, [.dropped x.origin]) ∨
        ∃ conn, s.connections i x.clientFd = some conn ∧
          drainResponse s i =
            (popped.putResponse i x.clientFd (conn.setSplice x.splice) x.data,
              [.enqueued (s.owner i x.clientFd) x.origin true])) := by
  refine ⟨_, rfl, ?_⟩
  rw [drainResponse, h]
  dsimp only
  rcases s.connections i x.clientFd with _ | conn
  · exact .inl ⟨rfl, rfl⟩
  · exact .inr ⟨conn, rfl, rfl⟩

variable [NeZero n]

/-- The request `handle_read` finds complete in the socket and parses. -/
def requestRead (fd : ℕ) (env : ReadEnv) : Option Request :=
  match ((s.connection i fd).readFrame srv.maxMessageBytes env.socket).2.1 with
  | .frame body => (parseRequest env.junk body).toOption
  | .wait | .close => none

/-- The outcomes of `handle_read`. -/
inductive ReadStep (fd : ℕ) (c : ConnId n) (env : ReadEnv) : System n × List (Event n) → Prop
  /-- The frame is not complete. -/
  | waited (conn : Connection) : ReadStep fd c env (s.setConnection i fd conn, [])
  /-- There is no frame to come, or its body does not parse. -/
  | closed (events : List (Event n)) (hevents : ∀ on origin b, .enqueued on origin b ∉ events)
      (hframe : ((s.connection i fd).readFrame srv.maxMessageBytes env.socket).2.1 ≠ .wait)
      (hnone : srv.requestRead s i fd env = none) :
      ReadStep fd c env (s.closeConnection i fd, events)
  /-- The request is for another reactor. -/
  | forwarded (conn : Connection) (body : Bytes) (req : Request)
      (hreq : srv.requestRead s i fd env = some req)
      (htarget : srv.router.target srv.records.metadata i req ≠ i) :
      ReadStep fd c env
        ({ s.setConnection i fd conn with reads := s.reads + 1 }.pushRequest
            (srv.router.target srv.records.metadata i req) ⟨fd, i, req, ⟨c, s.reads⟩⟩,
          [.parsed c body, .read ⟨c, s.reads⟩])
  /-- The request is handled here. -/
  | handled (conn : Connection) (body : Bytes) (req : Request)
      (hreq : srv.requestRead s i fd env = some req)
      (htarget : srv.router.target srv.records.metadata i req = i)
      (out : System n × List (Event n))
      (hout : srv.answerLocally { s.setConnection i fd conn with reads := s.reads + 1 } i fd
        ⟨c, s.reads⟩ env.broker req = out) :
      ReadStep fd c env (out.1, .parsed c body :: .read ⟨c, s.reads⟩ :: out.2)

theorem readStep (fd : ℕ) (c : ConnId n) (env : ReadEnv) :
    srv.ReadStep s i fd c env (srv.handleRead s i fd c env) := by
  rw [handleRead]
  rcases hframe : (s.connection i fd).readFrame srv.maxMessageBytes env.socket with
    ⟨r, _ | _ | body, sock⟩
  · exact .waited _
  · refine .closed [] (by simp) (by rw [hframe]; simp) ?_
    rw [requestRead, hframe]
  · dsimp only
    rw [handleBody]
    split
    · next e hparse =>
      have hclose : (s.setConnection i fd { s.connection i fd with toFrameReader := r
          }).closeConnection i fd = s.closeConnection i fd := by
        simp [System.closeConnection, System.setConnection]
      rw [hclose]
      refine .closed _ (by simp) (by rw [hframe]; simp) ?_
      rw [requestRead, hframe]
      dsimp only
      rw [hparse]
      rfl
    · next req hparse =>
      have hreq : srv.requestRead s i fd env = some req := by
        rw [requestRead, hframe]
        dsimp only
        rw [hparse]
        rfl
      dsimp only
      split
      · next htarget => exact .forwarded _ body req hreq htarget
      · next htarget => exact .handled _ body req hreq (not_not.mp htarget) _ rfl

/-- The connection's entry with another reader, and a request counted. -/
def counted (fd : ℕ) (r : FrameReader) : System n :=
  { s.setConnection i fd { s.connection i fd with toFrameReader := r } with reads := s.reads + 1 }

/-- The outcomes of `handle_read` with everything that leads to them; the first index is the
request that has been read. -/
inductive ReadOutcome (fd : ℕ) (c : ConnId n) (env : ReadEnv) :
    Option Request → System n × List (Event n) → Prop
  /-- The frame is not complete. -/
  | waited (r : FrameReader) (sock : Socket)
      (hframe : (s.connection i fd).readFrame srv.maxMessageBytes env.socket = (r, .wait, sock)) :
      ReadOutcome fd c env none
        (s.setConnection i fd { s.connection i fd with toFrameReader := r }, [])
  /-- There is no frame to come. -/
  | closed (r : FrameReader) (sock : Socket)
      (hframe : (s.connection i fd).readFrame srv.maxMessageBytes env.socket = (r, .close, sock)) :
      ReadOutcome fd c env none (s.closeConnection i fd, [])
  /-- The body does not parse. -/
  | refused (r : FrameReader) (body : Bytes) (sock : Socket)
      (hframe : (s.connection i fd).readFrame srv.maxMessageBytes env.socket =
        (r, .frame body, sock)) :
      ReadOutcome fd c env none (s.closeConnection i fd, [.parsed c body])
  /-- The request is for another reactor. -/
  | forwarded (r : FrameReader) (body : Bytes) (sock : Socket) (req : Request)
      (hframe : (s.connection i fd).readFrame srv.maxMessageBytes env.socket =
        (r, .frame body, sock))
      (hparse : parseRequest env.junk body = .ok req)
      (htarget : srv.router.target srv.records.metadata i req ≠ i) :
      ReadOutcome fd c env (some req)
        ((counted s i fd r).pushRequest (srv.router.target srv.records.metadata i req)
            ⟨fd, i, req, ⟨c, s.reads⟩⟩,
          [.parsed c body, .read ⟨c, s.reads⟩])
  /-- The request is handled here. -/
  | handled (r : FrameReader) (body : Bytes) (sock : Socket) (req : Request)
      (hframe : (s.connection i fd).readFrame srv.maxMessageBytes env.socket =
        (r, .frame body, sock))
      (hparse : parseRequest env.junk body = .ok req)
      (htarget : srv.router.target srv.records.metadata i req = i) :
      ReadOutcome fd c env (some req)
        ((srv.answerLocally (counted s i fd r) i fd ⟨c, s.reads⟩ env.broker req).1,
          .parsed c body :: .read ⟨c, s.reads⟩ ::
            (srv.answerLocally (counted s i fd r) i fd ⟨c, s.reads⟩ env.broker req).2)

theorem readOutcome (fd : ℕ) (c : ConnId n) (env : ReadEnv) :
    srv.ReadOutcome s i fd c env (srv.requestRead s i fd env) (srv.handleRead s i fd c env) := by
  rw [handleRead, requestRead]
  rcases hframe : (s.connection i fd).readFrame srv.maxMessageBytes env.socket with
    ⟨r, _ | _ | body, sock⟩
  · exact .waited r sock hframe
  · exact .closed r sock hframe
  dsimp only
  rw [handleBody]
  rcases hparse : parseRequest env.junk body with e | req
  · have hclose : (s.setConnection i fd { s.connection i fd with toFrameReader := r
        }).closeConnection i fd = s.closeConnection i fd := by
      simp [System.closeConnection, System.setConnection]
    dsimp only
    rw [hclose]
    exact .refused r body sock hframe
  dsimp only
  split
  · next htarget => exact .forwarded r body sock req hframe hparse htarget
  · next htarget => exact .handled r body sock req hframe hparse (not_not.mp htarget)

/-! ### Steps -/

/-- The read of an event, if there is one. -/
def readPart (fd : ℕ) (c : ConnId n) (ev : EpollEvent) (env : ReadEnv) :
    System n × List (Event n) :=
  if ev.readable then srv.handleRead s i fd c env else (s, [])

theorem machine_step_of_terminated (input : ServerInput n) (h : s.terminated = true) :
    srv.machine.step s input = (s, []) :=
  if_pos h

theorem machine_step (input : ServerInput n) (h : ¬ s.terminated = true) :
    srv.machine.step s input = srv.step s input :=
  if_neg h

/-- An event that is not a hang-up is a read and, perhaps, a write after it. -/
theorem handleEvent_cases (fd : ℕ) (c : ConnId n) {ev : EpollEvent} (read : ReadEnv)
    (write : WriteEnv) (herr : ¬ ev.errHup = true) :
    srv.handleEvent s i fd c ev read write = srv.readPart s i fd c ev read ∨
      srv.handleEvent s i fd c ev read write =
        ((srv.readPart s i fd c ev read).1.handleWrite i fd write,
          (srv.readPart s i fd c ev read).2) := by
  rw [handleEvent, if_neg herr, ← readPart]
  dsimp only
  split
  · exact .inr rfl
  · exact .inl rfl

/-- What a step of the process can be. -/
inductive ServerStep : ServerInput n → System n × List (Event n) → Prop
  /-- The process has ended, or there is nothing to do. -/
  | idle (input : ServerInput n) : ServerStep input (s, [])
  | accepted (i : Fin n) (fd : ℕ) (hfree : s.sockets fd = none) :
      ServerStep (.accept i fd true) (s.handleAccept i fd true, [])
  | hungUp (i : Fin n) (fd : ℕ) (c : ConnId n) (ev : EpollEvent) (read : ReadEnv)
      (write : WriteEnv) (howner : s.owner i fd = some c) :
      ServerStep (.event i fd ev read write) (s.closeConnection i fd, [])
  | event (i : Fin n) (fd : ℕ) (c : ConnId n) (ev : EpollEvent) (read : ReadEnv)
      (write : WriteEnv) (howner : s.owner i fd = some c) (herr : ev.errHup = false) :
      ServerStep (.event i fd ev read write) (srv.readPart s i fd c ev read)
  /-- After the read the connection is also written to. -/
  | eventWrite (i : Fin n) (fd : ℕ) (c : ConnId n) (ev : EpollEvent) (read : ReadEnv)
      (write : WriteEnv) (howner : s.owner i fd = some c) (herr : ev.errHup = false)
      (hwritable : ev.writable = true) (hwant : (s.sockets fd).any OpenSocket.wantWrite) :
      ServerStep (.event i fd ev read write)
        ((srv.readPart s i fd c ev read).1.handleWrite i fd write,
          (srv.readPart s i fd c ev read).2)
  | requestDrained (i : Fin n) (env : BrokerEnv) (q : ForwardedRequest n)
      (rest : List (ForwardedRequest n)) (hq : s.requests i = q :: rest) :
      ServerStep (.drainRequest i env) (srv.drainRequest s i env, [])
  | responseDrained (i : Fin n) (x : ForwardedResponse n) (rest : List (ForwardedResponse n))
      (hx : s.responses i = x :: rest) : ServerStep (.drainResponse i) (drainResponse s i)
  | harvested (i : Fin n) (k written : ℕ) :
      ServerStep (.harvest i k written) (s.harvest i k written, [])

theorem serverStep (input : ServerInput n) :
    srv.ServerStep s input (srv.machine.step s input) := by
  rw [machine]
  dsimp only
  split
  · exact .idle input
  cases input with
  | accept i fd ok =>
    rw [step]
    by_cases hok : ok ∧ s.sockets fd = none
    · obtain ⟨rfl, hfree⟩ := hok
      exact .accepted i fd hfree
    · rw [System.handleAccept, if_neg hok]
      exact .idle _
  | event i fd ev read write =>
    rw [step]
    split
    · next c howner =>
      rw [handleEvent]
      split
      · exact .hungUp i fd c ev read write howner
      · next herr =>
        have herr' : ev.errHup = false := by simpa using herr
        rw [← readPart]
        dsimp only
        split
        · next hwrite => exact .eventWrite i fd c ev read write howner herr' hwrite.1 hwrite.2.1
        · exact .event i fd c ev read write howner herr'
    · exact .idle _
  | drainRequest i env =>
    rw [step]
    rcases hq : s.requests i with _ | ⟨q, rest⟩
    · rw [drainRequest_nil srv s i env hq]
      exact .idle _
    · exact .requestDrained i env q rest hq
  | drainResponse i =>
    rw [step]
    rcases hx : s.responses i with _ | ⟨x, rest⟩
    · rw [drainResponse, hx]
      exact .idle _
    · exact .responseDrained i x rest hx
  | harvest i k written => exact .harvested i k written

end Server

end TinyKafka
