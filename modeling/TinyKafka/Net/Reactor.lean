import TinyKafka.Broker.Broker
import TinyKafka.ForMathlib.Machine
import TinyKafka.Net.Connection
import TinyKafka.Protocol.Parser
import TinyKafka.Shard.ShardRouter

/-!
# The reactors

`n` reactors in one process, each with its connections, its partition contexts, its ring and
the two queues other reactors push to; the group coordinator, the files and the descriptor
table are shared. `Server.machine` takes the steps of all reactors in any order: an accept, a
readiness event, the drain of one forwarded request or response, the completion of a ring
operation. What the operating system and the clients do is the input of a step.

Two things are recorded that the program does not have. The descriptor table remembers which
accept a socket comes from (`ConnId`), and a request carries the connection it was read from
and a number counted over all reads (`Origin`). No step looks at them except to pass them on
and to report them in its events.
-/

namespace TinyKafka

/-- A connection: the reactor that accepted it and the number of the accept. -/
structure ConnId (n : ℕ) where
  reactor : Fin n
  serial : ℕ
  deriving DecidableEq

/-- Where a request comes from: its connection and its place among all reads. -/
structure Origin (n : ℕ) where
  conn : ConnId n
  number : ℕ
  deriving DecidableEq

/-- `ForwardedRequest`. -/
structure ForwardedRequest (n : ℕ) where
  clientFd : ℕ
  sourceReactorId : Fin n
  request : Request
  origin : Origin n
  deriving DecidableEq

/-- `ForwardedResponse`. -/
structure ForwardedResponse (n : ℕ) where
  clientFd : ℕ
  data : Bytes
  splice : Option (FileRef × ℕ) := none
  origin : Origin n
  deriving DecidableEq

/-- A submission to the ring of a reactor. -/
inductive RingOp
  | write (path : Bytes) (w : Submission)
  | splice (fd : ℕ) (file : FileRef) (len : ℕ)
  deriving DecidableEq

/-- An open socket in the descriptor table. It is registered with the epoll instance of its
reactor, for input and, if `wantWrite`, for output. -/
structure OpenSocket (n : ℕ) where
  conn : ConnId n
  wantWrite : Bool := false
  deriving DecidableEq

/-- The state of the process. -/
structure System (n : ℕ) where
  connections : Fin n → ℕ → Option Connection := fun _ _ => none
  contexts : Fin n → Bytes → Option PartitionContext := fun _ _ => none
  requests : Fin n → List (ForwardedRequest n) := fun _ => []
  responses : Fin n → List (ForwardedResponse n) := fun _ => []
  rings : Fin n → List RingOp := fun _ => []
  coordinator : GroupCoordinator := {}
  fs : Bytes → Dir := fun _ => []
  sockets : ℕ → Option (OpenSocket n) := fun _ => none
  accepted : ℕ := 0
  reads : ℕ := 0
  terminated : Bool := false

/-- What the reactors share and never change. Serialization is a parameter. -/
structure Server (n : ℕ) where
  router : ShardRouter n
  records : RecordHandler
  maxMessageBytes : UInt32
  maxWriteBufferBytes : ℕ
  serialize : Response → Bytes

/-- What a step reports. -/
inductive Event (n : ℕ)
  /-- `parse_request` is called on a body read from the connection. -/
  | parsed (conn : ConnId n) (body : Bytes)
  /-- A request has been read. -/
  | read (origin : Origin n)
  /-- The response to a request is put into the buffers kept under a descriptor; `on` is the
  connection behind the descriptor, if there is one. -/
  | enqueued (on : Option (ConnId n)) (origin : Origin n) (forwarded : Bool)
  /-- The response to a forwarded request is dropped. -/
  | dropped (origin : Origin n)
  deriving DecidableEq

/-- What the environment answers during `handle_read`. -/
structure ReadEnv where
  socket : Socket
  /-- The value of the read that `parse_request` does not check. -/
  junk : Int32 := 0
  broker : BrokerEnv

/-- What the environment answers during `handle_write`. -/
structure WriteEnv where
  /-- What `send` takes, or nothing for an error. -/
  sent : Option ℕ
  /-- `io_uring_get_sqe` has an entry to give. -/
  sqe : Bool := true

/-- The mask `epoll_wait` reports. -/
structure EpollEvent where
  errHup : Bool := false
  readable : Bool := false
  writable : Bool := false
  deriving DecidableEq

/-- A step of one reactor. -/
inductive ServerInput (n : ℕ)
  /-- `accept` returns `fd`, and the following calls succeed or not. -/
  | accept (i : Fin n) (fd : ℕ) (ok : Bool)
  | event (i : Fin n) (fd : ℕ) (ev : EpollEvent) (read : ReadEnv) (write : WriteEnv)
  | drainRequest (i : Fin n) (env : BrokerEnv)
  | drainResponse (i : Fin n)
  /-- The `k`-th operation of the ring completes; a write has written `written` bytes. -/
  | harvest (i : Fin n) (k written : ℕ)

namespace System

variable {n : ℕ} (s : System n)

/-- The connection behind a descriptor that is registered with reactor `i`. -/
def owner (i : Fin n) (fd : ℕ) : Option (ConnId n) :=
  ((s.sockets fd).map OpenSocket.conn).filter (·.reactor = i)

/-- `connections_[fd] = conn`. -/
def setConnection (i : Fin n) (fd : ℕ) (conn : Connection) : System n :=
  { s with
    connections :=
      Function.update s.connections i (Function.update (s.connections i) fd (some conn)) }

/-- `connections_[fd]`, which constructs an entry when there is none. -/
def connection (i : Fin n) (fd : ℕ) : Connection := (s.connections i fd).getD {}

/-- `epoll_ctl` with `EPOLL_CTL_MOD`; it fails for a descriptor of another reactor. -/
def setWantWrite (i : Fin n) (fd : ℕ) (b : Bool) : System n :=
  match s.owner i fd with
  | some conn => { s with sockets := Function.update s.sockets fd (some ⟨conn, b⟩) }
  | none => s

/-- `close_connection`. -/
def closeConnection (i : Fin n) (fd : ℕ) : System n :=
  { s with
    connections := Function.update s.connections i (Function.update (s.connections i) fd none)
    sockets := Function.update s.sockets fd none }

/-- A response for the entry `conn` under `fd`; the first one asks for output events. -/
def putResponse (i : Fin n) (fd : ℕ) (conn : Connection) (data : Bytes) : System n :=
  let s' := s.setConnection i fd (conn.enqueue data)
  if conn.Idle then s'.setWantWrite i fd true else s'

/-- `advance_write_queue` for the entry `conn` under `fd`; with an empty queue output events
are not wanted any more. -/
def advanceWriteQueue (i : Fin n) (fd : ℕ) (conn : Connection) : System n :=
  let s' := s.setConnection i fd conn.advanceWriteQueue
  if conn.writeQueue = [] then s'.setWantWrite i fd false else s'

/-- `handle_accept`. The kernel returns a number that is not in use. -/
def handleAccept (i : Fin n) (fd : ℕ) (ok : Bool) : System n :=
  if ok ∧ s.sockets fd = none then
    { s.setConnection i fd {} with
      sockets := Function.update s.sockets fd (some ⟨⟨i, s.accepted⟩, false⟩)
      accepted := s.accepted + 1 }
  else s

/-- `push_request` to reactor `j`. -/
def pushRequest (j : Fin n) (q : ForwardedRequest n) : System n :=
  { s with requests := Function.update s.requests j (s.requests j ++ [q]) }

/-- `push_response` to reactor `j`. -/
def pushResponse (j : Fin n) (x : ForwardedResponse n) : System n :=
  { s with responses := Function.update s.responses j (s.responses j ++ [x]) }

/-- The splice that follows a response is submitted. -/
def submitSplice (i : Fin n) (fd : ℕ) (conn : Connection) (file : FileRef) : System n :=
  { s.setConnection i fd { conn with splicePending := true, spliceFd := none, spliceLen := 0 } with
    rings := Function.update s.rings i (s.rings i ++ [.splice fd file conn.spliceLen]) }

/-- `handle_write`. -/
def handleWrite (i : Fin n) (fd : ℕ) (env : WriteEnv) : System n :=
  match (s.connection i fd).sendAll env.sent with
  | none => s.closeConnection i fd
  | some sent =>
    let conn := s.connection i fd
    let conn := { conn with writeOffset := conn.writeOffset + sent }
    if conn.writeOffset ≥ conn.writeBuf.length then
      match conn.spliceFd, conn.splicePending, env.sqe with
      | some file, false, true => s.submitSplice i fd conn file
      | _, false, _ => s.advanceWriteQueue i fd conn
      | _, true, _ => s.setConnection i fd conn
    else s.setConnection i fd conn

/-- One completion of `harvest_io_completions`. The user data of a splice is the descriptor
of the socket, shifted; zero stands for nothing to do. -/
def complete (i : Fin n) (written : ℕ) : RingOp → System n
  | .write path w =>
    { s with fs := Function.update s.fs path ((s.fs path).append w.name (w.data.take written)) }
  | .splice fd _ _ =>
    match s.connections i fd with
    | some conn =>
      if fd = 0 then s else s.advanceWriteQueue i fd { conn with splicePending := false }
    | none => s

/-- `harvest_io_completions` for the `k`-th operation. -/
def harvest (i : Fin n) (k written : ℕ) : System n :=
  match (s.rings i)[k]? with
  | some op =>
    { s with rings := Function.update s.rings i ((s.rings i).eraseIdx k) }.complete i written op
  | none => s

end System

namespace Server

variable {n : ℕ} [NeZero n] (srv : Server n) (s : System n)

/-- `broker_.handle` on reactor `i`. An exception ends the process. -/
def handle (i : Fin n) (env : BrokerEnv) (req : Request) : System n × Option Response :=
  let (b, r) := Broker.handle srv.records env
    { contexts := s.contexts i, fs := s.fs, coordinator := s.coordinator } req
  ({ s with
      contexts := Function.update s.contexts i b.contexts
      fs := b.fs
      coordinator := b.coordinator
      rings := Function.update s.rings i
        (s.rings i ++ b.submissions.map fun (path, w) => .write path w)
      terminated := r.isNone }, r)

/-- The end of `handle_read` for a request that is not forwarded. -/
def answerLocally (i : Fin n) (fd : ℕ) (origin : Origin n) (env : BrokerEnv) (req : Request) :
    System n × List (Event n) :=
  match srv.handle s i env req with
  | (s, none) => (s, [])
  | (s, some resp) =>
    let data := srv.serialize resp
    let conn := (s.connection i fd).setSplice resp.lastSplice
    if data.length > srv.maxWriteBufferBytes then (s.closeConnection i fd, [])
    else (s.putResponse i fd conn data, [.enqueued (s.owner i fd) origin false])

/-- `handle_read` from `parse_request` on: the request goes to the reactor of its key, or is
handled here. -/
def handleBody (i : Fin n) (fd : ℕ) (c : ConnId n) (env : ReadEnv) (body : Bytes) :
    System n × List (Event n) :=
  match parseRequest env.junk body with
  | .error _ => (s.closeConnection i fd, [.parsed c body])
  | .ok req =>
    let origin : Origin n := ⟨c, s.reads⟩
    let s := { s with reads := s.reads + 1 }
    let target := srv.router.target srv.records.metadata i req
    if target ≠ i then
      (s.pushRequest target ⟨fd, i, req, origin⟩, [.parsed c body, .read origin])
    else
      let (s, events) := srv.answerLocally s i fd origin env.broker req
      (s, .parsed c body :: .read origin :: events)

/-- `handle_read` for the descriptor of connection `c`. -/
def handleRead (i : Fin n) (fd : ℕ) (c : ConnId n) (env : ReadEnv) :
    System n × List (Event n) :=
  let conn := s.connection i fd
  match conn.readFrame srv.maxMessageBytes env.socket with
  | (r, .wait, _) => (s.setConnection i fd { conn with toFrameReader := r }, [])
  | (_, .close, _) => (s.closeConnection i fd, [])
  | (r, .frame body, _) =>
    srv.handleBody (s.setConnection i fd { conn with toFrameReader := r }) i fd c env body

/-- The branch of `run` for a client socket. Output is only reported when it was wanted at
the time of `epoll_wait`, before the read. -/
def handleEvent (i : Fin n) (fd : ℕ) (c : ConnId n) (ev : EpollEvent) (read : ReadEnv)
    (write : WriteEnv) : System n × List (Event n) :=
  if ev.errHup then (s.closeConnection i fd, [])
  else
    let (s', events) := if ev.readable then srv.handleRead s i fd c read else (s, [])
    if ev.writable ∧ (s.sockets fd).any OpenSocket.wantWrite ∧ ¬ s'.terminated then
      (s'.handleWrite i fd write, events)
    else (s', events)

/-- One turn of `drain_cross_reactor_requests`. -/
def drainRequest (i : Fin n) (env : BrokerEnv) : System n :=
  match s.requests i with
  | [] => s
  | q :: rest =>
    match srv.handle { s with requests := Function.update s.requests i rest } i env q.request with
    | (s, none) => s
    | (s, some resp) =>
      s.pushResponse q.sourceReactorId
        ⟨q.clientFd, srv.serialize resp, resp.lastSplice, q.origin⟩

/-- One turn of `drain_cross_reactor_responses`. -/
def drainResponse (i : Fin n) : System n × List (Event n) :=
  match s.responses i with
  | [] => (s, [])
  | x :: rest =>
    let s := { s with responses := Function.update s.responses i rest }
    match s.connections i x.clientFd with
    | none => (s, [.dropped x.origin])
    | some conn =>
      (s.putResponse i x.clientFd (conn.setSplice x.splice) x.data,
        [.enqueued (s.owner i x.clientFd) x.origin true])

/-- One step of one reactor. Events are for descriptors registered with the reactor. -/
def step : ServerInput n → System n × List (Event n)
  | .accept i fd ok => (s.handleAccept i fd ok, [])
  | .event i fd ev read write =>
    match s.owner i fd with
    | some c => srv.handleEvent s i fd c ev read write
    | none => (s, [])
  | .drainRequest i env => (srv.drainRequest s i env, [])
  | .drainResponse i => drainResponse s i
  | .harvest i k written => (s.harvest i k written, [])

/-- The process: the steps of all reactors in any order, until it is terminated. -/
def machine : Machine (System n) (ServerInput n) (List (Event n)) where
  step s input := if s.terminated then (s, []) else srv.step s input

end Server

end TinyKafka
