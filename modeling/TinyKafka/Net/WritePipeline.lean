import TinyKafka.Net.Delivery

/-!
# The write pipeline of a connection

`handle_read`, `drain_cross_reactor_responses` and `handle_write` share the write buffer of a
connection, the offset in it, the queue of buffers that wait, and the registration for
output. Together they are a queue of bytes: responses are put in at one end, `send` takes
bytes out at the other, in pieces of any size (`writePipeline_fifo`). Output is asked for
exactly as long as there is something to send.

This is so for connections that are never given a splice. A connection is followed through
the calls that concern it; between them the process may do anything that leaves the entry and
the registration of the connection alone.
-/

namespace TinyKafka

variable {n : ℕ}

/-! ### The buffers of a connection -/

namespace Connection

variable {c : Connection}

@[simp] theorem writeQueue_setSplice (c : Connection) (splice : Option (FileRef × ℕ)) :
    (c.setSplice splice).writeQueue = c.writeQueue := by
  rcases splice with _ | ⟨file, len⟩ <;> rfl

/-- What has been put into the buffers and not been sent: the rest of the write buffer, then
the buffers that wait. -/
def unsent (c : Connection) : Bytes := c.writeBuf.drop c.writeOffset ++ c.writeQueue.flatten

/-- The buffers between two calls. -/
structure Steady (c : Connection) : Prop where
  /-- There is nothing at all, or something of the write buffer is left to send. -/
  idle_or_busy : c.Idle ∧ c.writeQueue = [] ∨ c.writeOffset < c.writeBuf.length
  /-- No empty buffer waits. -/
  waiting : [] ∉ c.writeQueue
  spliceFd : c.spliceFd = none
  splicePending : c.splicePending = false

theorem steady_new : ({} : Connection).Steady :=
  ⟨.inl ⟨⟨rfl, rfl⟩, rfl⟩, List.not_mem_nil, rfl, rfl⟩

@[simp] theorem setSplice_none (c : Connection) : c.setSplice none = c := rfl

@[simp] theorem idle_setSplice (c : Connection) (splice : Option (FileRef × ℕ)) :
    (c.setSplice splice).Idle ↔ c.Idle := by
  rcases splice with _ | ⟨file, len⟩ <;> rfl

theorem Steady.withReader (h : c.Steady) (r : FrameReader) :
    { c with toFrameReader := r }.Steady :=
  ⟨h.idle_or_busy, h.waiting, h.spliceFd, h.splicePending⟩

theorem unsent_ne_nil_of_lt (h : c.writeOffset < c.writeBuf.length) : c.unsent ≠ [] := by
  intro hnil
  have hdrop := (List.append_eq_nil_iff.mp hnil).1
  rw [List.drop_eq_nil_iff] at hdrop
  omega

/-- Nothing waits behind an idle write buffer. -/
theorem Steady.writeQueue_of_idle (h : c.Steady) (hidle : c.Idle) : c.writeQueue = [] := by
  rcases h.idle_or_busy with ⟨-, hqueue⟩ | hbusy
  · exact hqueue
  · rw [hidle.2] at hbusy
    exact absurd hbusy (Nat.not_lt_zero _)

theorem Steady.unsent_eq_nil_iff (h : c.Steady) : c.unsent = [] ↔ c.Idle := by
  constructor
  · intro hnil
    rcases h.idle_or_busy with ⟨hidle, -⟩ | hbusy
    · exact hidle
    · exact absurd hnil (unsent_ne_nil_of_lt hbusy)
  · intro hidle
    rw [unsent, hidle.2, h.writeQueue_of_idle hidle, List.drop_nil, List.flatten_nil,
      List.append_nil]

/-- A buffer waits only behind another one. -/
theorem Steady.writeBuf_ne_nil (h : c.Steady) (hqueue : c.writeQueue ≠ []) : c.writeBuf ≠ [] := by
  rcases h.idle_or_busy with ⟨-, hnil⟩ | hbusy
  · exact absurd hnil hqueue
  · exact List.length_pos_iff.mp (Nat.zero_lt_of_lt hbusy)

/-! ### Putting a response in -/

theorem Steady.unsent_enqueue (h : c.Steady) (data : Bytes) :
    (c.enqueue data).unsent = c.unsent ++ data := by
  rw [enqueue]
  split
  next hidle =>
    rw [h.unsent_eq_nil_iff.mpr hidle]
    simp [unsent, h.writeQueue_of_idle hidle]
  next => simp [unsent]

theorem Steady.enqueue (h : c.Steady) {data : Bytes} (hdata : data ≠ []) :
    (c.enqueue data).Steady := by
  have hpos := List.length_pos_iff.mpr hdata
  rw [Connection.enqueue]
  split
  next => exact ⟨.inr hpos, h.waiting, h.spliceFd, h.splicePending⟩
  next hidle =>
    refine ⟨?_, ?_, h.spliceFd, h.splicePending⟩
    · rcases h.idle_or_busy with ⟨hidle', -⟩ | hbusy
      · exact absurd hidle' hidle
      · exact .inr hbusy
    · rw [List.mem_append, List.mem_singleton]
      rintro (hmem | hnil)
      · exact h.waiting hmem
      · exact hdata hnil.symm

/-- The first response asks for output. -/
theorem Steady.wants_enqueue (h : c.Steady) {want : Bool} (hwant : want = true ↔ c.unsent ≠ [])
    {data : Bytes} (hdata : data ≠ []) :
    (if c.Idle then true else want) = true ↔ (c.enqueue data).unsent ≠ [] := by
  have hne : (c.enqueue data).unsent ≠ [] := by
    rw [h.unsent_enqueue]
    exact List.append_ne_nil_of_right_ne_nil _ hdata
  rw [iff_true_right hne]
  split
  · rfl
  · next hidle => exact hwant.mpr fun hnil => hidle (h.unsent_eq_nil_iff.mp hnil)

/-! ### Sending -/

/-- The connection after `m` bytes have been sent. -/
def afterSend (c : Connection) (m : ℕ) : Connection :=
  let c' := { c with writeOffset := c.writeOffset + m }
  if c'.writeOffset ≥ c'.writeBuf.length then c'.advanceWriteQueue else c'

/-- The bytes that `send` takes from the write buffer. -/
def sentBytes (c : Connection) (sent : Option ℕ) : Bytes :=
  (c.writeBuf.drop c.writeOffset).take ((c.sendAll sent).getD 0)

theorem exists_sendAll (c : Connection) (k : ℕ) : ∃ m, c.sendAll (some k) = some m := by
  rw [sendAll]
  split
  · exact ⟨_, rfl⟩
  · exact ⟨_, rfl⟩

/-- The next buffer is taken when the write buffer has been sent. -/
theorem unsent_advanceWriteQueue (c : Connection) :
    c.advanceWriteQueue.unsent = c.writeQueue.flatten := by
  rw [advanceWriteQueue]
  split
  next front queue hqueue => simp [unsent, hqueue]
  next hqueue => simp [unsent, hqueue]

theorem unsent_afterSend (c : Connection) (m : ℕ) :
    c.unsent = (c.writeBuf.drop c.writeOffset).take m ++ (c.afterSend m).unsent := by
  have hsplit : c.writeBuf.drop c.writeOffset =
      (c.writeBuf.drop c.writeOffset).take m ++ c.writeBuf.drop (c.writeOffset + m) := by
    rw [← List.drop_drop, List.take_append_drop]
  rw [afterSend]
  dsimp only
  split
  next hdone =>
    have hnil : c.writeBuf.drop (c.writeOffset + m) = [] := List.drop_eq_nil_iff.mpr hdone
    rw [unsent_advanceWriteQueue, unsent]
    nth_rewrite 1 [hsplit]
    rw [hnil, List.append_nil]
  next =>
    rw [unsent, unsent]
    nth_rewrite 1 [hsplit]
    rw [List.append_assoc]

/-- The response that `advance_write_queue` takes up has bytes to send. -/
theorem Steady.waiting_cons (h : c.Steady) {front : Bytes} {queue : List Bytes}
    (hqueue : c.writeQueue = front :: queue) : front ≠ [] ∧ [] ∉ queue := by
  have hwaiting := h.waiting
  rw [hqueue, List.mem_cons, not_or] at hwaiting
  exact ⟨Ne.symm hwaiting.1, hwaiting.2⟩

theorem Steady.afterSend (h : c.Steady) (m : ℕ) : (c.afterSend m).Steady := by
  rw [Connection.afterSend]
  dsimp only
  split
  next hdone =>
    rw [advanceWriteQueue]
    split
    next front queue hqueue =>
      obtain ⟨hfront, hwaiting⟩ := h.waiting_cons hqueue
      exact ⟨.inr (List.length_pos_iff.mpr hfront), hwaiting, h.spliceFd, h.splicePending⟩
    next hqueue =>
      exact ⟨.inl ⟨⟨rfl, rfl⟩, hqueue⟩, h.waiting, h.spliceFd, h.splicePending⟩
  next hrest => exact ⟨.inr (not_le.mp hrest), h.waiting, h.spliceFd, h.splicePending⟩

theorem Steady.idle_afterSend (h : c.Steady) {m : ℕ} :
    (c.afterSend m).Idle ↔ c.writeOffset + m ≥ c.writeBuf.length ∧ c.writeQueue = [] := by
  rw [Connection.afterSend]
  dsimp only
  split
  next hdone =>
    rw [and_iff_right hdone, advanceWriteQueue]
    split
    next front queue hqueue =>
      refine iff_of_false (fun hidle => (h.waiting_cons hqueue).1 hidle.2) ?_
      dsimp only at hqueue
      rw [hqueue]
      exact List.cons_ne_nil _ _
    next hqueue => exact iff_of_true ⟨rfl, rfl⟩ hqueue
  next hrest =>
    refine iff_of_false (fun hidle => hrest ?_) fun hdone => hrest hdone.1
    rw [show c.writeBuf = [] from hidle.2]
    exact Nat.zero_le _

end Connection

/-! ### The entry and the registration of a connection -/

namespace System

variable {s s' : System n} {i : Fin n} {fd : ℕ} {c : ConnId n} {conn : Connection} {want : Bool}

/-- Connection `c` has the entry `conn` under `fd`, and is registered there for output or
not. -/
structure Holds (s : System n) (i : Fin n) (fd : ℕ) (c : ConnId n) (conn : Connection)
    (want : Bool) : Prop where
  entry : s.connections i fd = some conn
  socket : s.sockets fd = some ⟨c, want⟩
  reactor : c.reactor = i

theorem Holds.owner (h : s.Holds i fd c conn want) : s.owner i fd = some c :=
  (s.owner_eq_some i fd).mpr ⟨want, h.socket, h.reactor⟩

theorem Holds.connection (h : s.Holds i fd c conn want) : s.connection i fd = conn := by
  rw [System.connection, h.entry]
  rfl

/-- The entry and the registration under `fd` stay as they are. -/
def LeavesAlone (s : System n) (i : Fin n) (fd : ℕ) (s' : System n) : Prop :=
  s'.connections i fd = s.connections i fd ∧ s'.sockets fd = s.sockets fd

instance : Decidable (s.LeavesAlone i fd s') := inferInstanceAs (Decidable (_ ∧ _))

theorem Holds.of_leavesAlone (h : s.Holds i fd c conn want) (halone : s.LeavesAlone i fd s') :
    s'.Holds i fd c conn want :=
  ⟨halone.1.trans h.entry, halone.2.trans h.socket, h.reactor⟩

theorem Holds.setConnection (h : s.Holds i fd c conn want) (conn' : Connection) :
    (s.setConnection i fd conn').Holds i fd c conn' want := by
  refine ⟨?_, h.socket, h.reactor⟩
  rw [connections_setConnection, if_pos ⟨rfl, rfl⟩]

theorem Holds.setWantWrite (h : s.Holds i fd c conn want) (b : Bool) :
    (s.setWantWrite i fd b).Holds i fd c conn b := by
  refine ⟨?_, ?_, h.reactor⟩
  · rw [connections_setWantWrite]
    exact h.entry
  · rw [System.setWantWrite, h.owner]
    exact Function.update_self ..

theorem Holds.putResponse (h : s.Holds i fd c conn want) (conn' : Connection) (data : Bytes) :
    (s.putResponse i fd conn' data).Holds i fd c (conn'.enqueue data)
      (if conn'.Idle then true else want) := by
  have hset := h.setConnection (conn'.enqueue data)
  rw [System.putResponse]
  split
  next => exact hset.setWantWrite true
  next => exact hset

theorem Holds.advanceWriteQueue (h : s.Holds i fd c conn want) (conn' : Connection) :
    (s.advanceWriteQueue i fd conn').Holds i fd c conn'.advanceWriteQueue
      (if conn'.writeQueue = [] then false else want) := by
  have hset := h.setConnection conn'.advanceWriteQueue
  rw [System.advanceWriteQueue]
  split
  next => exact hset.setWantWrite false
  next => exact hset

/-- `handle_write` without a splice: the bytes sent are dropped, and when nothing is left
output is not asked for any more. -/
theorem Holds.handleWrite (h : s.Holds i fd c conn want) (hsteady : conn.Steady) {env : WriteEnv}
    {m : ℕ} (hsend : conn.sendAll env.sent = some m) :
    (s.handleWrite i fd env).Holds i fd c (conn.afterSend m)
      (if conn.writeOffset + m ≥ conn.writeBuf.length ∧ conn.writeQueue = [] then false
        else want) := by
  obtain ⟨reader, buf, offset, queue, spliceFd, spliceLen, pending⟩ := conn
  obtain rfl : spliceFd = none := hsteady.spliceFd
  obtain rfl : pending = false := hsteady.splicePending
  rw [System.handleWrite, h.connection, hsend, Connection.afterSend]
  dsimp only
  split
  next hdone =>
    simp only [hdone, true_and]
    exact h.advanceWriteQueue _
  next hrest =>
    rw [if_neg fun hdone => hrest hdone.1]
    exact h.setConnection _

/-! ### The invariant -/

/-- What holds of a connection between two calls: its buffers are as they should be, and
output is asked for exactly when there is something to send. -/
def Pumps (s : System n) (i : Fin n) (fd : ℕ) (c : ConnId n) : Prop :=
  ∃ conn want, s.Holds i fd c conn want ∧ conn.Steady ∧ (want = true ↔ conn.unsent ≠ [])

/-- The bytes that wait to be sent to the connection. -/
def unsent (s : System n) (i : Fin n) (fd : ℕ) : Bytes := (s.connection i fd).unsent

theorem Holds.unsent (h : s.Holds i fd c conn want) : s.unsent i fd = conn.unsent := by
  rw [System.unsent, h.connection]

/-- A connection that has just been accepted. -/
theorem holds_handleAccept (hfree : s.sockets fd = none) :
    (s.handleAccept i fd true).Holds i fd ⟨i, s.accepted⟩ {} false := by
  refine ⟨?_, ?_, rfl⟩
  · rw [s.connections_handleAccept hfree, connections_setConnection, if_pos ⟨rfl, rfl⟩]
  · rw [handleAccept, if_pos ⟨rfl, hfree⟩]
    exact Function.update_self ..

theorem pumps_handleAccept (hfree : s.sockets fd = none) :
    (s.handleAccept i fd true).Pumps i fd ⟨i, s.accepted⟩ ∧
      (s.handleAccept i fd true).unsent i fd = [] := by
  have hholds := holds_handleAccept (i := i) hfree
  exact ⟨⟨{}, false, hholds, Connection.steady_new, by simp [Connection.unsent]⟩, hholds.unsent⟩

theorem Holds.pumps (h : s.Holds i fd c conn want) (hsteady : conn.Steady)
    (hwant : want = true ↔ conn.unsent ≠ []) :
    s.Pumps i fd c ∧ s.unsent i fd = conn.unsent :=
  ⟨⟨conn, want, h, hsteady, hwant⟩, h.unsent⟩

/-- Bytes are taken out at the front. -/
theorem Pumps.handleWrite (h : s.Pumps i fd c) {env : WriteEnv} (hsent : env.sent.isSome) :
    (s.handleWrite i fd env).Pumps i fd c ∧
      s.unsent i fd =
        (s.connection i fd).sentBytes env.sent ++ (s.handleWrite i fd env).unsent i fd := by
  obtain ⟨conn, want, hholds, hsteady, hwant⟩ := h
  obtain ⟨k, hk⟩ := Option.isSome_iff_exists.mp hsent
  obtain ⟨m, hsend⟩ := conn.exists_sendAll k
  rw [← hk] at hsend
  have hwrite := hholds.handleWrite hsteady hsend
  constructor
  · refine ⟨_, _, hwrite, hsteady.afterSend m, ?_⟩
    rw [Ne, (hsteady.afterSend m).unsent_eq_nil_iff, hsteady.idle_afterSend]
    split
    next hdone => simp [hdone]
    next hrest =>
      -- something was left to send before, so that output was asked for
      refine iff_of_true (hwant.mpr fun hnil => hrest ?_) hrest
      have hidle := hsteady.unsent_eq_nil_iff.mp hnil
      exact ⟨by simp [hidle.2], hsteady.writeQueue_of_idle hidle⟩
  · rw [hholds.unsent, hholds.connection, hwrite.unsent, Connection.sentBytes, hsend]
    exact conn.unsent_afterSend m

end System

/-! ### The calls that concern the connection -/

/-- A call of one of the handlers, or something else that happens in the process. -/
inductive HandlerCall (n : ℕ)
  /-- `handle_read`. -/
  | read (env : ReadEnv)
  /-- One turn of `drain_cross_reactor_responses`. -/
  | drain
  /-- `handle_write`. -/
  | write (env : WriteEnv)
  /-- The process gets into another state without one of these calls. -/
  | other (s' : System n)

/-- What a call does to the pipeline of the connection. -/
structure Traffic where
  /-- The buffers that are put in. -/
  enqueued : List Bytes
  /-- The bytes that are sent. -/
  sent : Bytes
  deriving DecidableEq

/-- The buffers put in during some calls. -/
def allEnqueued (trace : List (HandlerCall n × Traffic)) : List Bytes :=
  trace.flatMap fun e => e.2.enqueued

/-- The bytes sent during some calls. -/
def allSent (trace : List (HandlerCall n × Traffic)) : Bytes := trace.flatMap fun e => e.2.sent

namespace Server

variable [NeZero n] (srv : Server n) (i : Fin n) (fd : ℕ) (c : ConnId n) (s : System n)

/-- The response of a request that `handle_read` finds complete and handles itself. -/
def answerRead (env : ReadEnv) : Option Response :=
  (srv.requestRead s i fd env).bind fun req =>
    if srv.router.target srv.records.metadata i req = i then (srv.handle s i env.broker req).2
    else none

/-- The entry of a connection with the response of a call put in, if there is one. -/
def withAnswer (conn : Connection) : Option Response → Connection
  | some resp => (conn.setSplice resp.lastSplice).enqueue (srv.serialize resp)
  | none => conn

/-- The buffers a call puts into the pipeline of the connection. -/
def enqueuedBy : HandlerCall n → List Bytes
  | .read env => ((srv.answerRead i fd s env).map srv.serialize).toList
  | .drain => ((s.responses i).head?.map ForwardedResponse.data).toList
  | .write _ | .other _ => []

/-- The bytes a call sends. -/
def sentBy : HandlerCall n → Bytes
  | .write env => (s.connection i fd).sentBytes env.sent
  | .read _ | .drain | .other _ => []

/-- The state after a call. -/
def afterCall : HandlerCall n → System n
  | .read env => (srv.handleRead s i fd c env).1
  | .drain => (drainResponse s i).1
  | .write env => s.handleWrite i fd env
  | .other s' => s'

/-- The calls that concern connection `c`, which reactor `i` keeps under `fd`. -/
def pipeline : Machine (System n) (HandlerCall n) Traffic where
  step s call :=
    (srv.afterCall i fd c s call, ⟨srv.enqueuedBy i fd s call, sentBy i fd s call⟩)

/-- The calls under consideration. None closes the connection, the buffers that are put in are
not empty, and no response comes with a splice. What else happens leaves the connection alone:
a response for another descriptor that is drained, for example. -/
def Undisturbed : HandlerCall n → Prop
  | .read env =>
    ¬ srv.ClosesOnRead s i fd env ∧
      ∀ resp ∈ srv.answerRead i fd s env, resp.lastSplice = none ∧ srv.serialize resp ≠ []
  | .drain => ∃ x ∈ (s.responses i).head?, x.clientFd = fd ∧ x.splice = none ∧ x.data ≠ []
  | .write env => env.sent.isSome
  | .other s' => s.LeavesAlone i fd s'

instance : (call : HandlerCall n) → Decidable (srv.Undisturbed i fd s call)
  | .read _ => inferInstanceAs (Decidable (¬ _ ∧ ∀ resp ∈ (_ : Option Response), _))
  | .drain => inferInstanceAs (Decidable (∃ x ∈ (_ : Option (ForwardedResponse n)), _))
  | .write env => inferInstanceAs (Decidable (env.sent.isSome = true))
  | .other s' => inferInstanceAs (Decidable (s.LeavesAlone i fd s'))

variable {srv i fd c s} {conn : Connection} {want : Bool} {req : Request}

omit [NeZero n] in
@[simp] theorem withAnswer_none : srv.withAnswer conn none = conn := rfl

omit [NeZero n] in
@[simp] theorem withAnswer_some (resp : Response) : srv.withAnswer conn (some resp) =
    (conn.setSplice resp.lastSplice).enqueue (srv.serialize resp) := rfl

omit [NeZero n] in
theorem holds_answerLocally {env : BrokerEnv} (h : s.Holds i fd c conn want) (origin : Origin n)
    (hfits : ∀ resp ∈ (srv.handle s i env req).2,
      (srv.serialize resp).length ≤ srv.maxWriteBufferBytes) :
    (srv.answerLocally s i fd origin env req).1.Holds i fd c
      (srv.withAnswer conn (srv.handle s i env req).2)
      (if conn.Idle ∧ (srv.handle s i env req).2.isSome then true else want) := by
  have hhandled : (srv.handle s i env req).1.Holds i fd c conn want := h.of_leavesAlone ⟨rfl, rfl⟩
  rcases srv.answerLocally_cases s i env req fd origin with
    ⟨hnone, heq⟩ | ⟨resp, hresp, ⟨hlong, -⟩ | ⟨-, heq⟩⟩
  · rw [heq, hnone]
    simpa using hhandled
  · exact absurd hlong (not_lt.mpr (hfits resp hresp))
  · have hput := hhandled.putResponse (conn.setSplice resp.lastSplice) (srv.serialize resp)
    rw [heq, hresp, h.connection]
    simpa using hput

/-- A request that is forwarded leaves the buffers alone. -/
theorem holds_handleBody {env : ReadEnv} {body : Bytes} (h : s.Holds i fd c conn want)
    (hparse : parseRequest env.junk body = .ok req)
    (hfits : srv.router.target srv.records.metadata i req = i →
      ∀ resp ∈ (srv.handle s i env.broker req).2,
        (srv.serialize resp).length ≤ srv.maxWriteBufferBytes)
    {answer : Option Response} (hanswer : answer =
      if srv.router.target srv.records.metadata i req = i then (srv.handle s i env.broker req).2
      else none) :
    (srv.handleBody s i fd c env body).1.Holds i fd c (srv.withAnswer conn answer)
      (if conn.Idle ∧ answer.isSome then true else want) := by
  have hcounted : { s with reads := s.reads + 1 }.Holds i fd c conn want :=
    h.of_leavesAlone ⟨rfl, rfl⟩
  subst hanswer
  rw [handleBody, hparse]
  dsimp only
  by_cases hlocal : srv.router.target srv.records.metadata i req = i
  · rw [if_neg (not_not.mpr hlocal), if_pos hlocal]
    exact holds_answerLocally hcounted _ (hfits hlocal)
  · have hpushed : ({ s with reads := s.reads + 1 }.pushRequest
        (srv.router.target srv.records.metadata i req) ⟨fd, i, req, ⟨c, s.reads⟩⟩).Holds
          i fd c conn want := hcounted.of_leavesAlone ⟨rfl, rfl⟩
    rw [if_pos hlocal, if_neg hlocal]
    simpa using hpushed

/-- `handle_read` puts in the response to a request that it handles itself, and nothing
else. -/
theorem holds_handleRead {env : ReadEnv} (h : s.Holds i fd c conn want)
    (hopen : ¬ srv.ClosesOnRead s i fd env) :
    ∃ r, (srv.handleRead s i fd c env).1.Holds i fd c
      (srv.withAnswer { conn with toFrameReader := r } (srv.answerRead i fd s env))
      (if conn.Idle ∧ (srv.answerRead i fd s env).isSome then true else want) := by
  have hread := fun r => h.setConnection { conn with toFrameReader := r }
  rw [handleRead, answerRead]
  rcases hframe : (s.connection i fd).readFrame srv.maxMessageBytes env.socket with
    ⟨r, _ | _ | body, sock⟩
  · -- no complete frame yet
    have hnone : srv.requestRead s i fd env = none := by rw [requestRead, hframe]
    rw [hnone, h.connection]
    exact ⟨r, by simpa using hread r⟩
  · -- end of file, an error, or a length that is refused
    have hnone : srv.requestRead s i fd env = none := by rw [requestRead, hframe]
    exact absurd (.inl ⟨by rw [hframe]; simp, hnone⟩) hopen
  · have hreq : srv.requestRead s i fd env = (parseRequest env.junk body).toOption := by
      rw [requestRead, hframe]
    rcases hparse : parseRequest env.junk body with e | req
    · rw [hparse] at hreq
      exact absurd (.inl ⟨by rw [hframe]; simp, hreq⟩) hopen
    · rw [hparse] at hreq
      rw [hreq, h.connection]
      refine ⟨r, holds_handleBody (hread r) hparse (fun hlocal resp hresp => ?_) rfl⟩
      by_contra hlong
      exact hopen (.inr ⟨req, hreq, hlocal, resp, hresp, not_le.mp hlong⟩)

omit [NeZero n] in
/-- A response from another reactor is put in with its splice. -/
theorem holds_drainResponse {x : ForwardedResponse n} (h : s.Holds i fd c conn want)
    (hhead : x ∈ (s.responses i).head?) (hfd : x.clientFd = fd) :
    (drainResponse s i).1.Holds i fd c ((conn.setSplice x.splice).enqueue x.data)
      (if conn.Idle then true else want) := by
  subst hfd
  obtain ⟨rest, hx⟩ := List.head?_eq_some_iff.mp hhead
  obtain ⟨popped, rfl, ⟨hnone, -⟩ | ⟨conn', hentry, heq⟩⟩ := drainResponse_cases s i hx
  · exact absurd (h.entry.symm.trans hnone) (Option.some_ne_none conn)
  · obtain rfl : conn' = conn := Option.some.inj (hentry.symm.trans h.entry)
    have hpopped : { s with responses := Function.update s.responses i rest }.Holds i x.clientFd c
        conn' want := h.of_leavesAlone ⟨rfl, rfl⟩
    rw [heq]
    simpa using hpopped.putResponse (conn'.setSplice x.splice) x.data

theorem pumps_handleRead {env : ReadEnv} (h : s.Pumps i fd c)
    (hcall : srv.Undisturbed i fd s (.read env)) :
    (srv.handleRead s i fd c env).1.Pumps i fd c ∧
      (srv.handleRead s i fd c env).1.unsent i fd =
        s.unsent i fd ++ (srv.enqueuedBy i fd s (.read env)).flatten := by
  obtain ⟨hopen, hplain⟩ := hcall
  obtain ⟨conn, want, hholds, hsteady, hwant⟩ := h
  obtain ⟨r, hread⟩ := holds_handleRead hholds hopen
  have hsteady' := hsteady.withReader r
  rw [hholds.unsent, enqueuedBy]
  rcases hanswer : srv.answerRead i fd s env with _ | resp
  · simp only [hanswer, withAnswer_none, Option.isSome_none, Bool.false_eq_true, and_false,
      if_false] at hread
    obtain ⟨hpumps, heq⟩ := hread.pumps hsteady' hwant
    exact ⟨hpumps, heq.trans (List.append_nil _).symm⟩
  · obtain ⟨hsplice, hdata⟩ := hplain resp hanswer
    simp only [hanswer, withAnswer_some, hsplice, Connection.setSplice_none, Option.isSome_some,
      and_true] at hread
    obtain ⟨hpumps, heq⟩ :=
      hread.pumps (hsteady'.enqueue hdata) (hsteady'.wants_enqueue hwant hdata)
    refine ⟨hpumps, heq.trans ((hsteady'.unsent_enqueue _).trans ?_)⟩
    simp [Connection.unsent]

theorem pumps_drainResponse (h : s.Pumps i fd c) (hcall : srv.Undisturbed i fd s .drain) :
    (drainResponse s i).1.Pumps i fd c ∧
      (drainResponse s i).1.unsent i fd =
        s.unsent i fd ++ (srv.enqueuedBy i fd s .drain).flatten := by
  obtain ⟨conn, want, hholds, hsteady, hwant⟩ := h
  obtain ⟨x, hhead, hfd, hsplice, hdata⟩ := hcall
  have hdrain := holds_drainResponse hholds hhead hfd
  rw [hsplice, Connection.setSplice_none] at hdrain
  obtain ⟨hpumps, heq⟩ := hdrain.pumps (hsteady.enqueue hdata) (hsteady.wants_enqueue hwant hdata)
  rw [hholds.unsent, enqueuedBy, hhead]
  refine ⟨hpumps, heq.trans ((hsteady.unsent_enqueue _).trans ?_)⟩
  simp

/-- One call: the connection stays as it should be, and what waited, followed by what is put
in, is what is sent, followed by what waits then. -/
theorem pumps_next {call : HandlerCall n} (h : s.Pumps i fd c)
    (hcall : srv.Undisturbed i fd s call) :
    ((srv.pipeline i fd c).next s call).Pumps i fd c ∧
      s.unsent i fd ++ (srv.enqueuedBy i fd s call).flatten =
        sentBy i fd s call ++ ((srv.pipeline i fd c).next s call).unsent i fd := by
  cases call with
  | read env =>
    obtain ⟨hpumps, heq⟩ := pumps_handleRead h hcall
    exact ⟨hpumps, heq.symm⟩
  | drain =>
    obtain ⟨hpumps, heq⟩ := pumps_drainResponse h hcall
    exact ⟨hpumps, heq.symm⟩
  | write env =>
    obtain ⟨hpumps, heq⟩ := h.handleWrite hcall
    exact ⟨hpumps, (List.append_nil _).trans heq⟩
  | other s' =>
    obtain ⟨conn, want, hholds, hsteady, hwant⟩ := h
    obtain ⟨hpumps, heq⟩ := (hholds.of_leavesAlone hcall).pumps hsteady hwant
    rw [hholds.unsent]
    exact ⟨hpumps, (List.append_nil _).trans heq.symm⟩

/-- A run of calls: the connection is as it should be at the end, and the bytes put in come
out in order. -/
theorem pumps_exec {calls : List (HandlerCall n)} (h : s.Pumps i fd c)
    (hcalls : (srv.pipeline i fd c).Within (srv.Undisturbed i fd) s calls) :
    ((srv.pipeline i fd c).exec s calls).Pumps i fd c ∧
      s.unsent i fd ++ (allEnqueued ((srv.pipeline i fd c).trace s calls)).flatten =
        allSent ((srv.pipeline i fd c).trace s calls) ++
          ((srv.pipeline i fd c).exec s calls).unsent i fd := by
  have hinv : ∀ s call, s.Pumps i fd c → srv.Undisturbed i fd s call →
      ((srv.pipeline i fd c).next s call).Pumps i fd c :=
    fun _ _ h hcall => (pumps_next h hcall).1
  constructor
  · exact Machine.invariant_exec hinv h hcalls
  · have hqueue := Machine.queue_run (c := fun s => s.unsent i fd)
      (f := fun t : Traffic => t.enqueued.flatten) (g := Traffic.sent) hinv
      (fun _ _ h hcall => (pumps_next h hcall).2) h hcalls
    rw [allEnqueued, allSent, List.flatten_eq_flatMap, List.flatMap_assoc]
    simpa only [List.flatten_eq_flatMap] using hqueue

end Server

/-- The connection when `enqueued` has been put in and `sent` been sent:

* the bytes sent, followed by the rest of the write buffer and by the buffers that wait, are
  the buffers that have been put in, in this order;
* a buffer waits only behind another one;
* output is asked for exactly when something is left to send. -/
def System.IsFifo (s : System n) (i : Fin n) (fd : ℕ) (c : ConnId n) (enqueued : List Bytes)
    (sent : Bytes) : Prop :=
  ∃ conn want, s.Holds i fd c conn want ∧
    sent ++ (conn.writeBuf.drop conn.writeOffset ++ conn.writeQueue.flatten) =
      enqueued.flatten ∧
    (conn.writeQueue ≠ [] → conn.writeBuf ≠ []) ∧
    (want = true ↔ conn.writeBuf.drop conn.writeOffset ++ conn.writeQueue.flatten ≠ [])

theorem System.Pumps.isFifo {s : System n} {i : Fin n} {fd : ℕ} {c : ConnId n}
    {enqueued : List Bytes} {sent : Bytes} (h : s.Pumps i fd c)
    (hbytes : enqueued.flatten = sent ++ s.unsent i fd) : s.IsFifo i fd c enqueued sent := by
  obtain ⟨conn, want, hholds, hsteady, hwant⟩ := h
  rw [hholds.unsent] at hbytes
  exact ⟨conn, want, hholds, hbytes.symm, hsteady.writeBuf_ne_nil, hwant⟩

/-- **The write pipeline is a queue of bytes.** Reactor `i` has just accepted a connection
under `fd`, and then there are any calls of the handlers, in any order, with any number of
bytes taken by each `send`: at the end (and so after each of the calls, which is the end of a
shorter run) nothing of what was put in is lost, doubled or out of order. -/
theorem Server.writePipeline_fifo [NeZero n] (srv : Server n) (i : Fin n) (fd : ℕ) (s : System n)
    (hfree : s.sockets fd = none) (calls : List (HandlerCall n))
    (hcalls : (srv.pipeline i fd ⟨i, s.accepted⟩).Within (srv.Undisturbed i fd)
      (s.handleAccept i fd true) calls) :
    ((srv.pipeline i fd ⟨i, s.accepted⟩).exec (s.handleAccept i fd true) calls).IsFifo i fd
      ⟨i, s.accepted⟩
      (allEnqueued ((srv.pipeline i fd ⟨i, s.accepted⟩).trace (s.handleAccept i fd true) calls))
      (allSent ((srv.pipeline i fd ⟨i, s.accepted⟩).trace (s.handleAccept i fd true) calls)) := by
  obtain ⟨hstart, hempty⟩ := System.pumps_handleAccept (i := i) hfree
  obtain ⟨hpumps, hbytes⟩ := pumps_exec hstart hcalls
  rw [hempty, List.nil_append] at hbytes
  exact hpumps.isFifo hbytes

namespace TwoReactors

/-- An ApiVersions request, which every reactor handles itself, arrives under descriptor 7. -/
def readApiVersions : HandlerCall 2 :=
  .read ⟨⟨[0, 0, 0, 10, 0, 18, 0, 4, 0, 0, 0, 1, 255, 255], .again⟩, 0, idleBroker⟩

/-- A response comes from another reactor. -/
def arrived : System 2 :=
  { start with
    responses := fun _ => [⟨7, [1, 2, 3], none, ⟨(session fun _ => 0).conn, 0⟩⟩] }

/-- Two responses, of three and four bytes, are sent in three pieces. -/
def pumping : List (HandlerCall 2) :=
  [.other arrived, .drain, .write ⟨some 1, true⟩, readApiVersions, .write ⟨some 9, true⟩,
    .write ⟨some 2, true⟩]

end TwoReactors

open TwoReactors in
theorem writePipeline_fifo_pumping :
    (((server fun _ => 0).pipeline 0 7 ⟨0, 0⟩).exec start pumping).IsFifo 0 7 ⟨0, 0⟩
      [[1, 2, 3], [0, 0, 0, 0]] [1, 2, 3, 0, 0] := by
  have hfifo := (server fun _ => 0).writePipeline_fifo 0 7 {} rfl pumping (by decide +kernel)
  have henqueued : allEnqueued (((server fun _ => 0).pipeline 0 7 ⟨0, 0⟩).trace start pumping) =
      [[1, 2, 3], [0, 0, 0, 0]] := by decide +kernel
  have hsent : allSent (((server fun _ => 0).pipeline 0 7 ⟨0, 0⟩).trace start pumping) =
      [1, 2, 3, 0, 0] := by decide +kernel
  rw [← henqueued, ← hsent]
  exact hfifo

end TinyKafka
