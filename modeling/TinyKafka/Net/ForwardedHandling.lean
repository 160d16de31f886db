import TinyKafka.Net.ReactorSteps
import TinyKafka.Protocol.ResponseFormat

/-!
# Local and forwarded handling

A request is handled by the reactor that owns its partition. When this is the reactor that
holds the connection, `handle_read` puts the response into the buffers itself; otherwise the
request and the response go through the queues of the two reactors. The two ways are written
separately, and they differ in one point: only `handle_read` compares the size of the response
with `max_write_buffer_bytes` and closes the connection when it is larger. So the client gets
the same in both cases exactly when the response is within the limit
(`client_handledLocally_eq_iff`).
-/

namespace TinyKafka

variable {n : ℕ}

namespace System

/-- What a client depends on: the entry kept for its descriptor, with the buffers and the
splice slot, and its socket. -/
def client (s : System n) (i : Fin n) (fd : ℕ) : Option Connection × Option (OpenSocket n) :=
  (s.connections i fd, s.sockets fd)

/-- The system with the partition contexts `contexts` on reactor `i`. -/
def withContexts (s : System n) (i : Fin n) (contexts : Bytes → Option PartitionContext) :
    System n :=
  { s with contexts := Function.update s.contexts i contexts }

/-- The system as the broker of reactor `i` sees it. -/
def brokerState (s : System n) (contexts : Bytes → Option PartitionContext) : BrokerState where
  contexts := contexts
  fs := s.fs
  coordinator := s.coordinator

variable {s s' : System n} {i : Fin n} {fd : ℕ}

theorem client_closeConnection : (s.closeConnection i fd).client i fd = (none, none) := by
  simp [client, closeConnection]

/-- `EPOLL_CTL_MOD` on one socket. -/
theorem sockets_setWantWrite (b : Bool) :
    (s.setWantWrite i fd b).sockets fd = (s.sockets fd).map fun sock =>
      if sock.conn.reactor = i then ⟨sock.conn, b⟩ else sock := by
  rcases hsocket : s.sockets fd with _ | sock
  · have howner : s.owner i fd = none := by rw [owner, hsocket]; rfl
    rw [setWantWrite, howner]
    exact hsocket
  · by_cases hc : sock.conn.reactor = i
    · have howner : s.owner i fd = some sock.conn := by simp [owner, hsocket, hc]
      rw [setWantWrite, howner]
      simp [hc]
    · have howner : s.owner i fd = none := by simp [owner, hsocket, hc]
      rw [setWantWrite, howner]
      simp [hc, hsocket]

/-- The entry and the socket after a response has been put into the entry `conn`; the first
one asks for output events. -/
theorem client_putResponse (conn : Connection) (data : Bytes) :
    (s.putResponse i fd conn data).client i fd =
      (some (conn.enqueue data), if conn.Idle then
        (s.sockets fd).map fun sock => if sock.conn.reactor = i then ⟨sock.conn, true⟩ else sock
        else s.sockets fd) := by
  have hentry :
      (s.putResponse i fd conn data).connections i fd = some (conn.enqueue data) := by
    rcases s.putResponse_eq i fd conn data with h | h <;> rw [h]
    · rw [connections_setConnection, if_pos ⟨rfl, rfl⟩]
    · rw [connections_setWantWrite, connections_setConnection, if_pos ⟨rfl, rfl⟩]
  rw [client, hentry, putResponse]
  split
  · rw [sockets_setWantWrite]
    rfl
  · rfl

end System

namespace Server

variable (srv : Server n) (s : System n)

/-- The request is handled on the reactor of the connection. -/
def handledLocally (i : Fin n) (fd : ℕ) (origin : Origin n) (env : BrokerEnv) (req : Request) :
    System n :=
  (srv.answerLocally s i fd origin env req).1

/-- The request is pushed to reactor `j`, which handles it and pushes the response back. -/
def handledByForwarding (i j : Fin n) (fd : ℕ) (origin : Origin n) (env : BrokerEnv)
    (req : Request) : System n :=
  (drainResponse (srv.drainRequest (s.pushRequest j ⟨fd, i, req, origin⟩) j env) i).1

/-- Neither the connections nor the queues change while a broker handles a request. -/
theorem handle_frame (j : Fin n) (env : BrokerEnv) (req : Request) :
    (srv.handle s j env req).1.connections = s.connections ∧
      (srv.handle s j env req).1.sockets = s.sockets ∧
      (srv.handle s j env req).1.responses = s.responses := ⟨rfl, rfl, rfl⟩

variable {s} {i j : Fin n} {fd : ℕ} {conn : Connection}

/-- One request in the queue of reactor `j` is handled and answered, when no other response
waits on the reactor it comes from. -/
theorem client_drain {q : ForwardedRequest n} (hrequests : s.requests j = [q])
    (hresponses : s.responses q.sourceReactorId = [])
    (hconn : s.connections q.sourceReactorId q.clientFd = some conn) (env : BrokerEnv) :
    (drainResponse (srv.drainRequest s j env) q.sourceReactorId).1.client
        q.sourceReactorId q.clientFd =
      match (srv.handle s j env q.request).2 with
      | none => s.client q.sourceReactorId q.clientFd
      | some resp => (s.putResponse q.sourceReactorId q.clientFd
          (conn.setSplice resp.lastSplice) (srv.serialize resp)).client
            q.sourceReactorId q.clientFd := by
  obtain ⟨hconns, hsockets, hresps⟩ :=
    srv.handle_frame { s with requests := Function.update s.requests j [] } j env q.request
  have hreply : (srv.handle { s with requests := Function.update s.requests j [] } j env
      q.request).2 = (srv.handle s j env q.request).2 := rfl
  rw [drainRequest, hrequests]
  dsimp only
  generalize srv.handle { s with requests := Function.update s.requests j [] } j env q.request =
    out at hconns hsockets hresps hreply
  obtain ⟨s', _ | resp⟩ := out
  · rw [← hreply, drainResponse]
    dsimp only at hresps ⊢
    rw [hresps, hresponses]
    exact Prod.ext (congrFun (congrFun hconns _) _) (congrFun hsockets _)
  · rw [← hreply, drainResponse]
    dsimp only [System.pushResponse] at hconns hsockets hresps ⊢
    rw [Function.update_self, hresps, hresponses, List.nil_append]
    dsimp only
    rw [hconns, hconn]
    dsimp only
    rw [System.client_putResponse, System.client_putResponse, ← hsockets]

variable (contexts : Bytes → Option PartitionContext) (origin : Origin n) (env : BrokerEnv)
  (req : Request)

/-- What the client gets by forwarding, when nothing else is in the queues: the response,
however long it is. -/
theorem client_handledByForwarding (hconn : s.connections i fd = some conn)
    (hrequests : s.requests j = []) (hresponses : s.responses i = []) :
    (srv.handledByForwarding (s.withContexts j contexts) i j fd origin env req).client i fd =
      match (Broker.handle srv.records env (s.brokerState contexts) req).2 with
      | none => s.client i fd
      | some resp => (s.putResponse i fd (conn.setSplice resp.lastSplice)
          (srv.serialize resp)).client i fd := by
  have hpushed : ((s.withContexts j contexts).pushRequest j ⟨fd, i, req, origin⟩).requests j =
      [⟨fd, i, req, origin⟩] := by
    simp [System.pushRequest, System.withContexts, hrequests]
  have hreply : (srv.handle ((s.withContexts j contexts).pushRequest j ⟨fd, i, req, origin⟩) j env
      req).2 = (Broker.handle srv.records env (s.brokerState contexts) req).2 := by
    simp [handle, System.pushRequest, System.withContexts, System.brokerState]
  rw [handledByForwarding, srv.client_drain hpushed hresponses hconn env, hreply]
  rcases (Broker.handle srv.records env (s.brokerState contexts) req).2 with _ | resp
  · rfl
  · dsimp only
    rw [System.client_putResponse, System.client_putResponse]
    rfl

/-- What the client gets locally: the response if it is within the limit. -/
theorem client_handledLocally (hconn : s.connections i fd = some conn) :
    (srv.handledLocally (s.withContexts i contexts) i fd origin env req).client i fd =
      match (Broker.handle srv.records env (s.brokerState contexts) req).2 with
      | none => s.client i fd
      | some resp =>
        if srv.maxWriteBufferBytes < (srv.serialize resp).length then (none, none)
        else (s.putResponse i fd (conn.setSplice resp.lastSplice)
          (srv.serialize resp)).client i fd := by
  have hreply : (srv.handle (s.withContexts i contexts) i env req).2 =
      (Broker.handle srv.records env (s.brokerState contexts) req).2 := by
    simp [handle, System.withContexts, System.brokerState]
  have hentry : (s.withContexts i contexts).connection i fd = conn := by
    rw [System.connection, System.withContexts, hconn, Option.getD_some]
  rw [handledLocally, ← hreply]
  rcases srv.answerLocally_cases (s.withContexts i contexts) i env req fd origin with
    ⟨hnone, h⟩ | ⟨resp, hresp, ⟨hlarge, h⟩ | ⟨hfits, h⟩⟩
  · rw [h, hnone]
    rfl
  · rw [h, hresp]
    dsimp only
    rw [if_pos hlarge, System.client_closeConnection]
  · rw [h, hresp]
    dsimp only
    rw [if_neg (not_lt.mpr hfits), System.client_putResponse, System.client_putResponse, hentry]
    rfl

/-- **Local and forwarded handling.** Let a request be handled in the same broker state on the
reactor `i` of its connection, and on reactor `j` with the queues in between. The client gets
the same exactly when the response, if there is one, is within `max_write_buffer_bytes`. -/
theorem client_handledLocally_eq_iff (hconn : s.connections i fd = some conn)
    (hrequests : s.requests j = []) (hresponses : s.responses i = []) :
    (srv.handledLocally (s.withContexts i contexts) i fd origin env req).client i fd =
        (srv.handledByForwarding (s.withContexts j contexts) i j fd origin env req).client i fd ↔
      ∀ resp ∈ (Broker.handle srv.records env (s.brokerState contexts) req).2,
        (srv.serialize resp).length ≤ srv.maxWriteBufferBytes := by
  rw [srv.client_handledLocally contexts origin env req hconn,
    srv.client_handledByForwarding contexts origin env req hconn hrequests hresponses]
  rcases (Broker.handle srv.records env (s.brokerState contexts) req).2 with _ | resp
  · simp
  · dsimp only
    split
    · next hlarge =>
      -- closed on the one side, and an entry with the response on the other
      refine iff_of_false (fun heq => ?_) fun hfits => absurd (hfits resp rfl) (not_le.mpr hlarge)
      rw [System.client_putResponse] at heq
      cases congrArg Prod.fst heq
    · next hfits =>
      refine iff_of_true rfl fun resp' hresp' => ?_
      rw [← Option.some.inj hresp']
      exact not_lt.mp hfits

end Server

/-! ### A response beyond the limit -/

/-- Two reactors without topics, and a limit for responses. -/
def limitedServer (limit : ℕ) : Server 2 where
  router := ⟨fun _ => 0⟩
  records := ⟨⟨[], fun _ => none, fun _ => none⟩, ascii "/tmp/logs", 0, true⟩
  maxMessageBytes := 1048576
  maxWriteBufferBytes := limit
  serialize r := (serialize r).getD []

/-- A client on reactor 0, under descriptor 7. -/
def oneClient : System 2 where
  connections i fd := if i = ⟨0, by decide⟩ ∧ fd = 7 then some {} else none
  sockets fd := if fd = 7 then some ⟨⟨⟨0, by decide⟩, 0⟩, false⟩ else none

theorem connections_oneClient : oneClient.connections 0 7 = some {} := rfl

/-- Nothing is written, and the clock stands still. -/
def idleEnv : BrokerEnv := ⟨fun _ => 0, fun _ _ => ⟨{ written := 0 }, true⟩⟩

/-- Produce to a topic that does not exist. -/
def produceUnknown : Request := .produce ⟨⟨0, 11, 1⟩, [⟨ascii "t", [⟨0, [1]⟩]⟩]⟩

/-- The answer, with error code 3. -/
def unknownTopic : Response :=
  .produce
    { correlationId := 1, throttleTimeMs := 0
      responses := [⟨ascii "t", [{
        partitionIndex := 0, errorCode := 3, baseOffset := -1, logAppendTimeMs := -1
        logStartOffset := -1 }]⟩] }

theorem handle_produceUnknown (limit : ℕ) :
    (Broker.handle (limitedServer limit).records idleEnv (oneClient.brokerState fun _ => none)
      produceUnknown).2 = some unknownTopic := rfl

theorem bodySize_unknownTopic : unknownTopic.bodySize = 48 := by decide

theorem length_unknownTopic (limit : ℕ) :
    ((limitedServer limit).serialize unknownTopic).length = 52 := by
  obtain ⟨bs, -, hlen, hwrite⟩ :=
    @Response.exists_write_eq unknownTopic fun _ h => Response.noConfusion h
  rw [limitedServer]
  dsimp only
  rw [serialize, hwrite, Option.map_some, Option.getD_some, List.length_append,
    length_writeInt32Be, hlen, bodySize_unknownTopic]

/-- With room for the answer both ways are the same. -/
theorem client_handledLocally_eq_unknownTopic :
    ((limitedServer 52).handledLocally (oneClient.withContexts 0 fun _ => none) 0 7 ⟨⟨0, 0⟩, 0⟩
        idleEnv produceUnknown).client 0 7 =
      ((limitedServer 52).handledByForwarding (oneClient.withContexts 1 fun _ => none) 0 1 7
        ⟨⟨0, 0⟩, 0⟩ idleEnv produceUnknown).client 0 7 := by
  refine ((limitedServer 52).client_handledLocally_eq_iff _ _ _ _ connections_oneClient rfl
    rfl).mpr fun resp hresp => ?_
  rw [handle_produceUnknown] at hresp
  rw [← Option.some.inj hresp, length_unknownTopic]
  exact le_rfl

/-- **The client is cut off or served**, depending on the reactor that owns the partition: the
answer to a Produce request takes 52 bytes, and the limit is 51. -/
theorem client_handledLocally_ne_unknownTopic :
    ((limitedServer 51).handledLocally (oneClient.withContexts 0 fun _ => none) 0 7 ⟨⟨0, 0⟩, 0⟩
        idleEnv produceUnknown).client 0 7 ≠
      ((limitedServer 51).handledByForwarding (oneClient.withContexts 1 fun _ => none) 0 1 7
        ⟨⟨0, 0⟩, 0⟩ idleEnv produceUnknown).client 0 7 := by
  have hlimit : (limitedServer 51).maxWriteBufferBytes = 51 := rfl
  rw [Server.client_handledLocally _ _ _ _ _ connections_oneClient,
    Server.client_handledByForwarding _ _ _ _ _ connections_oneClient rfl rfl,
    handle_produceUnknown]
  dsimp only
  rw [hlimit, length_unknownTopic, if_pos (by decide), System.client_putResponse]
  intro h
  cases congrArg Prod.fst h

end TinyKafka
