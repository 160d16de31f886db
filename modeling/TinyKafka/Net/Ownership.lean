import TinyKafka.Broker.TouchedContexts
import TinyKafka.Net.Framing
import Mathlib.Data.Nat.Bitwise

/-!
# Which reactor holds the context of a partition

The router assigns every partition to a reactor, and a request goes as a whole to the reactor
of its first partition. When all partitions a request touches are routed to the reactor that
handles it, contexts exist on their own reactors only (`singleOwner_of_readsTogether`). A
request for two partitions of one topic need not be of that kind.
-/

namespace TinyKafka

variable {n : ℕ} [NeZero n]

namespace Server

variable (srv : Server n)

/-- The reactor of a partition. -/
def ownerOf (key : PartitionKey) : Fin n := srv.router.route key.topic key.partition

/-- A context exists only on the reactor its partition is routed to; so no two reactors hold a
context for the same partition. -/
def SingleOwner (s : System n) : Prop :=
  (∀ i name c, s.contexts i name = some c → srv.router.route c.topicName c.partition = i) ∧
    ∀ i j name name' c c', s.contexts i name = some c → s.contexts j name' = some c' →
      c.topicName = c'.topicName → c.partition = c'.partition → i = j

/-- If the step reads a request on reactor `i`, then all partitions the request touches are
routed to the reactor that will handle it. -/
def ReadsTogether (s : System n) : ServerInput n → Prop
  | .event i fd ev read _ =>
    ev.errHup = false → ev.readable = true → ∀ req ∈ srv.requestRead s i fd read,
      ∀ key ∈ touchedPartitions srv.records.metadata req,
        srv.ownerOf key = srv.router.target srv.records.metadata i req
  | .accept .. | .drainRequest .. | .drainResponse .. | .harvest .. => True

instance (s : System n) : (input : ServerInput n) → Decidable (srv.ReadsTogether s input)
  | .event _ _ _ _ _ => inferInstanceAs (Decidable (_ → _ → ∀ req ∈ (_ : Option Request), _))
  | .accept .. | .drainRequest .. | .drainResponse .. | .harvest .. => .isTrue trivial

/-- Contexts are where they belong, and waiting requests will not create others. -/
structure Owned (s : System n) : Prop where
  contexts : ∀ i name c, s.contexts i name = some c → srv.ownerOf c.key = i
  requests : ∀ i, ∀ q ∈ s.requests i,
    ∀ key ∈ touchedPartitions srv.records.metadata q.request, srv.ownerOf key = i

variable {srv} {s : System n}

theorem Owned.singleOwner (h : srv.Owned s) : srv.SingleOwner s := by
  refine ⟨h.contexts, ?_⟩
  intro i j name name' c c' hc hc' htopic hpartition
  have hkey : c.key = c'.key := by rw [PartitionContext.key, htopic, hpartition]; rfl
  rw [← h.contexts i name c hc, ← h.contexts j name' c' hc', hkey]

theorem Owned.of_fresh (h : s.Fresh) : srv.Owned s where
  contexts i name c hc := by
    rw [h.contexts] at hc
    cases hc
  requests i q hq := by
    rw [h.requests] at hq
    cases hq

theorem Owned.of_sameWork {s' : System n} (h : srv.Owned s) (hsame : s.SameWork s') :
    srv.Owned s' := by
  obtain ⟨_, _, _, _, rfl⟩ := hsame
  exact ⟨h.contexts, h.requests⟩

/-- Handling on reactor `i` a request all of whose partitions belong there. -/
theorem Owned.handle (h : srv.Owned s) (env : BrokerEnv) {i : Fin n} {req : Request}
    (hreq : ∀ key ∈ touchedPartitions srv.records.metadata req, srv.ownerOf key = i) :
    srv.Owned (srv.handle s i env req).1 where
  contexts := by
    intro j name c hc
    change Function.update s.contexts i _ j name = some c at hc
    rcases eq_or_ne j i with rfl | hne
    · rw [Function.update_self] at hc
      refine holdsOnly_handle (P := fun key => srv.ownerOf key = j) ?_ hreq name c hc
      exact h.contexts j
    · rw [Function.update_of_ne hne] at hc
      exact h.contexts j name c hc
  requests := h.requests

theorem Owned.answerLocally (h : srv.Owned s) {i : Fin n} {fd : ℕ} {origin : Origin n}
    {env : BrokerEnv} {req : Request}
    (hreq : ∀ key ∈ touchedPartitions srv.records.metadata req, srv.ownerOf key = i) :
    srv.Owned (srv.answerLocally s i fd origin env req).1 := by
  have hhandled : srv.Owned (srv.handle s i env req).1 := h.handle env hreq
  rcases srv.answerLocally_cases s i env req fd origin with
    ⟨-, h'⟩ | ⟨_, -, ⟨-, h'⟩ | ⟨-, h'⟩⟩ <;> rw [h']
  · exact hhandled
  · exact hhandled.of_sameWork System.sameWork_closeConnection
  · exact hhandled.of_sameWork System.sameWork_putResponse

theorem Owned.handleRead (h : srv.Owned s) {i : Fin n} {fd : ℕ} {c : ConnId n} {env : ReadEnv}
    (hreq : ∀ req ∈ srv.requestRead s i fd env,
      ∀ key ∈ touchedPartitions srv.records.metadata req,
        srv.ownerOf key = srv.router.target srv.records.metadata i req) :
    srv.Owned (srv.handleRead s i fd c env).1 := by
  have hstep := srv.readStep s i fd c env
  generalize srv.handleRead s i fd c env = out at hstep ⊢
  cases hstep with
  | waited conn => exact h.of_sameWork System.sameWork_setConnection
  | closed => exact h.of_sameWork System.sameWork_closeConnection
  | forwarded conn body req hread htarget =>
    refine ⟨h.contexts, fun j q hq => ?_⟩
    rw [System.mem_pushRequest] at hq
    rcases hq with hq | ⟨rfl, rfl⟩
    · exact h.requests j q hq
    · exact hreq req hread
  | handled conn body req hread htarget out hout =>
    have hkeys := hreq req hread
    rw [htarget] at hkeys
    rw [← hout]
    exact Owned.answerLocally (s := { s.setConnection i fd conn with reads := s.reads + 1 })
      ⟨h.contexts, h.requests⟩ hkeys

/-- A queue that has become shorter promises no less. -/
theorem Owned.popRequest (h : srv.Owned s) {i : Fin n} {q : ForwardedRequest n}
    {rest : List (ForwardedRequest n)} (hq : s.requests i = q :: rest) :
    srv.Owned { s with requests := Function.update s.requests i rest } := by
  refine ⟨h.contexts, fun j q' hq' => ?_⟩
  dsimp only at hq'
  rcases eq_or_ne j i with rfl | hne
  · rw [Function.update_self] at hq'
    exact h.requests j q' (by rw [hq]; exact List.mem_cons_of_mem _ hq')
  · rw [Function.update_of_ne hne] at hq'
    exact h.requests j q' hq'

theorem Owned.readPart (h : srv.Owned s) {i : Fin n} {fd : ℕ} {c : ConnId n}
    {ev : EpollEvent} {read : ReadEnv} {write : WriteEnv} (herr : ev.errHup = false)
    (hinput : srv.ReadsTogether s (.event i fd ev read write)) :
    srv.Owned (srv.readPart s i fd c ev read).1 := by
  rw [Server.readPart]
  split
  · next hreadable => exact h.handleRead (hinput herr hreadable)
  · exact h

/-- Every step of every reactor keeps the contexts where they belong. -/
theorem Owned.next (h : srv.Owned s) {input : ServerInput n}
    (hinput : srv.ReadsTogether s input) : srv.Owned (srv.machine.next s input) := by
  have hstep := srv.serverStep s input
  rw [Machine.next]
  generalize srv.machine.step s input = out at hstep ⊢
  cases hstep with
  | idle => exact h
  | accepted i fd hfree =>
    rw [System.handleAccept, if_pos ⟨rfl, hfree⟩]
    exact ⟨h.contexts, h.requests⟩
  | hungUp => exact h.of_sameWork System.sameWork_closeConnection
  | event i fd c ev read write _ herr => exact h.readPart herr hinput
  | eventWrite i fd c ev read write _ herr _ _ =>
    exact (h.readPart herr hinput).of_sameWork System.sameWork_handleWrite
  | requestDrained i env q rest hq =>
    have hhandled := (h.popRequest hq).handle env
      (h.requests i q (by rw [hq]; exact List.mem_cons_self))
    obtain ⟨popped, rfl, hdrain | ⟨resp, hdrain⟩⟩ := srv.drainRequest_cases s i env hq <;>
      rw [hdrain]
    · exact hhandled
    · exact ⟨hhandled.contexts, hhandled.requests⟩
  | responseDrained i x rest hx =>
    have hpopped : srv.Owned { s with responses := Function.update s.responses i rest } :=
      ⟨h.contexts, h.requests⟩
    obtain ⟨popped, rfl, ⟨-, hdrain⟩ | ⟨conn, -, hdrain⟩⟩ := drainResponse_cases s i hx <;>
      rw [hdrain]
    · exact hpopped
    · exact hpopped.of_sameWork System.sameWork_putResponse
  | harvested => exact h.of_sameWork System.sameWork_harvest

/-- In every run whose requests touch only partitions of the reactor that handles them, every
context is on the reactor of its partition. -/
theorem singleOwner_of_readsTogether {inputs : List (ServerInput n)} (hfresh : s.Fresh)
    (h : srv.machine.Within srv.ReadsTogether s inputs) :
    srv.SingleOwner (srv.machine.exec s inputs) := by
  have howned : srv.Owned (srv.machine.exec s inputs) :=
    Machine.invariant_exec (fun _ _ hs hinput => hs.next hinput) (Owned.of_fresh hfresh) h
  exact howned.singleOwner

end Server

/-! ### Two partitions of one topic -/

namespace TwoReactors

/-- Topic `t` with partitions 0 and 1. -/
def metadata : ClusterMetadata where
  topics := [⟨ascii "t", ⟨List.replicate 16 1, rfl⟩, [0, 1]⟩]
  nameToTopic name := if name = ascii "t" then some 0 else none
  uuidToTopic _ := none

/-- Two reactors, with any hash function; every response is an empty frame. -/
def server (hash : Bytes → UInt64) : Server 2 where
  router := ⟨hash⟩
  records := ⟨metadata, ascii "/tmp/logs", 0, true⟩
  maxMessageBytes := 1048576
  maxWriteBufferBytes := 1048576
  serialize _ := [0, 0, 0, 0]

/-- A broker environment in which nothing is written. -/
def idleBroker : BrokerEnv := ⟨fun _ => 0, fun _ _ => ⟨{ written := 0 }, true⟩⟩

/-- The partitions of a Produce request, each with one byte of records. -/
def partitionBytes (p : UInt8) : Bytes := [0, 0, 0, p, 2, 9, 0]

/-- A Produce request for partitions of `t`. -/
def produceBody (count : UInt8) (partitions : Bytes) : Bytes :=
  [0, 0, 0, 11, 0, 0, 0, 1, 255, 255, 0, 0, 0, 1, 0, 0, 0, 0, 2, 2, 116, count + 1] ++
    partitions ++ [0, 0]

/-- A short request arrives on reactor 0, under descriptor 7. -/
def arrive (body : Bytes) : ServerInput 2 :=
  .event 0 7 { readable := true }
    ⟨⟨[0, 0, 0, UInt8.ofNat body.length] ++ body, .again⟩, 0, idleBroker⟩ { sent := none }

/-- The connection under descriptor 7 is readable and writable; four bytes can be sent. -/
def readAndWrite (sock : Socket) : ServerInput 2 :=
  .event 0 7 { readable := true, writable := true } ⟨sock, 0, idleBroker⟩ { sent := some 4 }

/-- A client connects to reactor 0, which the kernel gives descriptor 7. -/
def connect : ServerInput 2 := .accept 0 7 true

/-- The client hangs up. -/
def hangUp : ServerInput 2 :=
  .event 0 7 { errHup := true } ⟨⟨[], .again⟩, 0, idleBroker⟩ { sent := none }

/-- Reactor 1 handles a request that was forwarded to it. -/
def serve : ServerInput 2 := .drainRequest 1 idleBroker

/-- Reactor 0 takes a response back. -/
def deliver : ServerInput 2 := .drainResponse 0

/-- The request arrives on reactor 0; if it is forwarded, reactor 1 handles it. -/
def run (body : Bytes) : List (ServerInput 2) := [connect, arrive body, serve]

/-- A Produce request for partition 0 of `t`, which belongs to reactor 1 when all hashes are
zero. -/
def produceZero : Bytes := produceBody 1 (partitionBytes 0)

/-- Both partitions in one request. -/
def bothPartitions : Bytes := produceBody 2 (partitionBytes 0 ++ partitionBytes 1)

end TwoReactors

open TwoReactors in
theorem singleOwner_onePartition :
    (server fun _ => 0).SingleOwner
      ((server fun _ => 0).machine.exec {} (run (produceBody 1 (partitionBytes 1)))) :=
  Server.singleOwner_of_readsTogether System.fresh_empty (by decide +kernel)

namespace TwoReactors

/-- The request as `parse_request` returns it. -/
def request : Request :=
  .produce ⟨⟨0, 11, 1⟩, [⟨ascii "t", [⟨0, [9]⟩, ⟨1, [9]⟩]⟩]⟩

/-- The contexts that handling the request creates. -/
def created : Bytes → Option PartitionContext :=
  (Broker.handle (server fun _ => 0).records idleBroker
    { contexts := fun _ => none, fs := fun _ => [], coordinator := {} } request).1.contexts

theorem created_contains (p : Int32) (h : p = 0 ∨ p = 1) :
    ∃ c ∈ created (RecordHandler.contextKey (ascii "t") p),
      c.topicName = ascii "t" ∧ c.partition = p := by
  rcases h with rfl | rfl <;> decide +kernel

variable (hash : Bytes → UInt64)

/-- The connection on reactor 0. -/
def session : Session 2 where
  server := server hash
  reactor := 0
  fd := 7
  conn := ⟨0, 0⟩
  env _ := ⟨⟨[], .again⟩, 0, idleBroker⟩

/-- The system after the accept. -/
def start : System 2 := ({} : System 2).handleAccept 0 7 true

theorem eq_ok_of_toOption {ε α : Type} {x : Except ε α} {a : α} (h : x.toOption = some a) :
    x = .ok a := by
  rcases x with e | b
  · cases h
  · exact congrArg Except.ok (Option.some.inj h)

theorem open_start : (session hash).Open start := by
  have howner : start.owner 0 7 = some ⟨0, 0⟩ := by decide
  exact ⟨howner, rfl⟩

/-- The run, when the bytes of the second step are a frame. -/
theorem exec_run {body : Bytes} {rest : Socket}
    (hread : (start.connection 0 7).readFrame 1048576
      ⟨[0, 0, 0, UInt8.ofNat body.length] ++ body, .again⟩ =
        (.fresh body.length, .frame body, rest)) :
    (server hash).machine.exec {} (run body) =
      (server hash).machine.next ((server hash).handleBody
        ((session hash).finishFrame start body.length) 0 7 ⟨0, 0⟩
        ((session hash).env 0) body).1 serve := by
  have haccept : (server hash).machine.next {} connect = start := rfl
  have hstep : (server hash).machine.next start (arrive body) =
      ((session hash).onReadable start 0
        ([0, 0, 0, UInt8.ofNat body.length] ++ body)).1 := rfl
  rw [run, Machine.exec_cons, Machine.exec_cons, Machine.exec_cons, Machine.exec_nil, haccept,
    hstep, Session.onReadable_frame (open_start hash) hread]
  rfl

/-- Whichever reactor handles the request has both contexts afterwards. -/
theorem contexts_handleBody {body : Bytes}
    (hparse : parseRequest ((session hash).env 0).junk body = .ok request) :
    ∃ i, ((server hash).machine.next ((server hash).handleBody
        ((session hash).finishFrame start body.length) 0 7 ⟨0, 0⟩
        ((session hash).env 0) body).1 serve).contexts i = created := by
  rw [Server.handleBody, hparse, serve]
  dsimp only
  split
  · next hforward =>
    have htarget : (server hash).router.target (server hash).records.metadata 0 request = 1 := by
      omega
    rw [htarget]
    refine ⟨1, ?_⟩
    rw [Machine.next, Server.machine]
    dsimp only
    split
    · next hterm => cases hterm
    · rw [Server.step, Server.contexts_drainRequest (server hash) _ (1 : Fin 2) idleBroker
        (System.requests_pushRequest_of_nil _ rfl)]
      rfl
  · next hlocal =>
    refine ⟨0, ?_⟩
    rw [Machine.next, Server.machine]
    dsimp only
    split
    · rw [Server.contexts_answerLocally]
      rfl
    · rw [Server.step, Server.drainRequest_nil, Server.contexts_answerLocally]
      · rfl
      · rw [(Server.queues_answerLocally _ _ _ _ _ _ _).1]
        rfl

/-- The request is handled on one of the reactors, and both contexts are created there. -/
theorem exists_created :
    ∃ i, ((server hash).machine.exec {} (run bothPartitions)).contexts i = created := by
  have hread : (start.connection 0 7).readFrame 1048576
      ⟨[0, 0, 0, UInt8.ofNat bothPartitions.length] ++ bothPartitions, .again⟩ =
        (.fresh bothPartitions.length, .frame bothPartitions, ⟨[], .again⟩) := by decide +kernel
  have hparse : (parseRequest 0 bothPartitions).toOption = some request := by decide +kernel
  rw [exec_run hash hread]
  exact contexts_handleBody hash (eq_ok_of_toOption hparse)

/-- Neighbouring partitions are on different reactors of two, whatever the hash function. -/
theorem route_ne (topic : Bytes) :
    (server hash).router.route topic 0 ≠ (server hash).router.route topic 1 := by
  intro heq
  have hval := congrArg Fin.val heq
  have hzero : (Int32.toInt64 0).toUInt64.toNat = 0 := by decide
  have hone : (Int32.toInt64 1).toUInt64.toNat = 1 := by decide
  simp only [ShardRouter.route, Fin.ofNat, UInt64.toNat_xor, Nat.xor_mod_two_eq,
    UInt64.toNat_add, hzero, hone] at hval
  omega

end TwoReactors

open TwoReactors in
/-- With two reactors a Produce request for partitions 0 and 1 of one topic leaves a context
on the wrong reactor, whatever the hash function is. -/
theorem not_singleOwner_bothPartitions :
    ¬ ∃ hash : Bytes → UInt64, (server hash).SingleOwner
      ((server hash).machine.exec {} (run bothPartitions)) := by
  rintro ⟨hash, howner, -⟩
  obtain ⟨i, hcreated⟩ := exists_created hash
  have hroute (p : Int32) (hp : p = 0 ∨ p = 1) :
      (server hash).router.route (ascii "t") p = i := by
    obtain ⟨c, hc, htopic, hpartition⟩ := created_contains p hp
    rw [← htopic, ← hpartition]
    refine howner i (RecordHandler.contextKey (ascii "t") p) c ?_
    rw [hcreated]
    exact hc
  exact route_ne hash (ascii "t") ((hroute 0 (.inl rfl)).trans (hroute 1 (.inr rfl)).symm)

end TinyKafka
