import TinyKafka.Net.Ownership

/-!
# Where forwarded responses go

A forwarded request and its response carry the number of the client's descriptor and nothing
else that names the connection, and `drain_cross_reactor_responses` looks the number up in the
connection table. `Server.deliversToOrigin_of_quiet`: as long as no number gets a new entry
while a request or response for it is on its way (`Server.KeepsQuiet`), a response is put into
the buffers of the connection its request was read from, or dropped when that connection has
been closed.

Two steps can make an entry: an accept, and `handle_write` after a `handle_read` that has just
closed the connection, since `connections_[fd]` then constructs an entry again. An accept that
reuses a number too early delivers a response to the wrong client
(`not_deliversToOrigin_reused`).
-/

namespace TinyKafka

variable {n : ℕ}

/-! ### The property -/

/-- The next forwarded response of reactor `i` goes to the connection its request was read
from if that is still the one behind the descriptor; otherwise it is dropped and the
connections stay as they are. -/
def DeliversToOrigin (s : System n) (i : Fin n) : Prop :=
  ∀ x rest, s.responses i = x :: rest →
    (s.owner i x.clientFd = some x.origin.conn →
      (Server.drainResponse s i).2 = [.enqueued (some x.origin.conn) x.origin true]) ∧
    (s.owner i x.clientFd ≠ some x.origin.conn →
      (Server.drainResponse s i).2 = [.dropped x.origin] ∧
        (Server.drainResponse s i).1.connections = s.connections)

/-! ### The condition -/

/-- Nothing is on its way that was read by reactor `i` from the descriptor `fd`. -/
def System.Quiet (s : System n) (i : Fin n) (fd : ℕ) : Prop :=
  (∀ j, ∀ q ∈ s.requests j, ¬ (q.sourceReactorId = i ∧ q.clientFd = fd)) ∧
    ∀ x ∈ s.responses i, x.clientFd ≠ fd

instance (s : System n) (i : Fin n) (fd : ℕ) : Decidable (s.Quiet i fd) :=
  inferInstanceAs (Decidable (_ ∧ _))

namespace Server

variable [NeZero n] (srv : Server n)

/-- A read that closes the connection: there is no frame to come, or its body does not parse,
or the response to a request handled here is too long for the buffer. -/
def ClosesOnRead (s : System n) (i : Fin n) (fd : ℕ) (env : ReadEnv) : Prop :=
  ((s.connection i fd).readFrame srv.maxMessageBytes env.socket).2.1 ≠ .wait ∧
      srv.requestRead s i fd env = none ∨
    ∃ req ∈ srv.requestRead s i fd env, srv.router.target srv.records.metadata i req = i ∧
      ∃ resp ∈ (srv.handle s i env.broker req).2,
        srv.maxWriteBufferBytes < (srv.serialize resp).length

instance (s : System n) (i : Fin n) (fd : ℕ) (env : ReadEnv) :
    Decidable (srv.ClosesOnRead s i fd env) :=
  inferInstanceAs (Decidable (_ ∧ _ ∨ ∃ req ∈ (_ : Option Request), _ ∧
    ∃ resp ∈ (_ : Option Response), _))

/-- The condition: where a step makes a new entry for a descriptor, nothing is on its way for
the old one. -/
def KeepsQuiet (s : System n) : ServerInput n → Prop
  | .accept i fd ok => ok = true → s.Quiet i fd
  | .event i fd ev read _ =>
    ev.errHup = false → ev.readable = true → ev.writable = true →
      (s.sockets fd).any OpenSocket.wantWrite → srv.ClosesOnRead s i fd read → s.Quiet i fd
  | .drainRequest .. | .drainResponse .. | .harvest .. => True

instance (s : System n) : (input : ServerInput n) → Decidable (srv.KeepsQuiet s input)
  | .accept _ _ _ => inferInstanceAs (Decidable (_ → _))
  | .event _ _ _ _ _ => inferInstanceAs (Decidable (_ → _ → _ → _ → _ → _))
  | .drainRequest .. | .drainResponse .. | .harvest .. => .isTrue trivial

end Server

/-! ### The invariant -/

/-- Nothing is on its way that was not before. -/
structure System.WaitsLess (s s' : System n) : Prop where
  requests : ∀ {j}, s'.requests j ⊆ s.requests j
  responses : ∀ {i}, s'.responses i ⊆ s.responses i

theorem System.WaitsLess.quiet {s s' : System n} {i : Fin n} {fd : ℕ} (h : s.WaitsLess s')
    (hquiet : s.Quiet i fd) : s'.Quiet i fd :=
  ⟨fun j q hq => hquiet.1 j q (h.requests hq), fun x hx => hquiet.2 x (h.responses hx)⟩

/-- Only the connection `c` itself may have an entry under `fd` with its reactor. -/
def System.Reserved (s : System n) (c : ConnId n) (fd : ℕ) : Prop :=
  s.connections c.reactor fd ≠ none → s.owner c.reactor fd = some c

/-- The invariant: open descriptors have entries, and the entry that a request or response on
its way will be delivered to can only be the one of its connection. -/
structure System.Routed (s : System n) : Prop where
  entry : ∀ {i fd c}, s.owner i fd = some c → s.connections i fd ≠ none
  source : ∀ {j}, ∀ q ∈ s.requests j, q.sourceReactorId = q.origin.conn.reactor
  requests : ∀ {j}, ∀ q ∈ s.requests j, s.Reserved q.origin.conn q.clientFd
  reactor : ∀ {i}, ∀ x ∈ s.responses i, x.origin.conn.reactor = i
  responses : ∀ {i}, ∀ x ∈ s.responses i, s.Reserved x.origin.conn x.clientFd

namespace System

variable {s s' : System n} {i j : Fin n} {fd : ℕ} {c : ConnId n}

theorem waitsLess_of_eq (hreq : s'.requests = s.requests) (hresp : s'.responses = s.responses) :
    s.WaitsLess s' :=
  ⟨by simp [hreq], by simp [hresp]⟩

theorem SameWork.waitsLess (h : s.SameWork s') : s.WaitsLess s' := by
  obtain ⟨_, _, _, _, rfl⟩ := h
  exact waitsLess_of_eq rfl rfl

/-- Where nothing new is on its way only the tables matter, and only for descriptors that
something is on its way for. -/
theorem Routed.of_reserved (h : s.Routed) (hless : s.WaitsLess s')
    (hentry : ∀ {i fd c}, s'.owner i fd = some c → s'.connections i fd ≠ none)
    (hreserved : ∀ {c fd}, ¬ s.Quiet c.reactor fd → s.Reserved c fd → s'.Reserved c fd) :
    s'.Routed := by
  refine ⟨hentry, fun q hq => h.source q (hless.requests hq), ?_,
    fun x hx => h.reactor x (hless.responses hx), ?_⟩
  · intro j q hq
    have hq' := hless.requests hq
    exact hreserved (fun hquiet => hquiet.1 j q hq' ⟨h.source q hq', rfl⟩) (h.requests q hq')
  · intro i x hx
    have hx' := hless.responses hx
    refine hreserved (fun hquiet => ?_) (h.responses x hx')
    rw [h.reactor x hx'] at hquiet
    exact hquiet.2 x hx' rfl

theorem SameTable.reserved (h : SameTable s s') : s'.Reserved c fd ↔ s.Reserved c fd := by
  rw [Reserved, Reserved, Ne, Ne, h.entry, h.owner]

theorem Routed.of_sameTable (h : s.Routed) (hless : s.WaitsLess s') (htable : SameTable s s') :
    s'.Routed := by
  refine h.of_reserved hless (fun howner => ?_) fun _ hres => htable.reserved.mpr hres
  rw [htable.owner] at howner
  rw [Ne, htable.entry]
  exact h.entry howner

theorem Routed.setConnection (h : s.Routed) (hentry : s.connections i fd ≠ none)
    (conn : Connection) : (s.setConnection i fd conn).Routed :=
  h.of_sameTable (waitsLess_of_eq rfl rfl) (sameTable_setConnection hentry)

theorem Routed.putResponse (h : s.Routed) (hentry : s.connections i fd ≠ none)
    (conn : Connection) (data : Bytes) : (s.putResponse i fd conn data).Routed :=
  h.of_sameTable sameWork_putResponse.waitsLess
    ((sameTable_setConnection hentry).trans sameTable_putResponse)

/-- Closing the connection behind a descriptor: afterwards nothing is open under its number,
so no entry of another reactor under it can be reserved, and there was none. -/
theorem Routed.closeConnection (h : s.Routed) (howner : s.owner i fd = some c) :
    (s.closeConnection i fd).Routed := by
  obtain ⟨b, hsocket, hreactor⟩ := (s.owner_eq_some i fd).mp howner
  refine h.of_reserved (waitsLess_of_eq rfl rfl) ?_ ?_
  · intro j fd' c' howner'
    rcases eq_or_ne fd' fd with rfl | hne
    · simp [owner, System.closeConnection] at howner'
    · rw [owner_closeConnection_of_ne hne] at howner'
      rw [connections_closeConnection, if_neg fun heq => hne heq.2]
      exact h.entry howner'
  · intro c' fd' _ hres
    rw [Reserved, connections_closeConnection]
    split
    · exact fun hnone => absurd rfl hnone
    · next hother =>
      intro hsome
      have howner' := hres hsome
      rcases eq_or_ne fd' fd with rfl | hne
      · -- the descriptor has one connection, and it is registered with `i`
        obtain ⟨b', hsocket', -⟩ := (s.owner_eq_some _ _).mp howner'
        rw [hsocket, Option.some_inj, OpenSocket.mk.injEq] at hsocket'
        exact absurd ⟨hsocket'.1 ▸ hreactor, rfl⟩ hother
      · rw [owner_closeConnection_of_ne hne, howner']

/-- A new entry for a descriptor that nothing is on its way for. -/
theorem Routed.setConnection_of_quiet (h : s.Routed) (hquiet : s.Quiet i fd)
    (conn : Connection) : (s.setConnection i fd conn).Routed := by
  refine h.of_reserved (waitsLess_of_eq rfl rfl) ?_ ?_
  · intro j fd' c' howner
    rw [connections_setConnection]
    split
    · simp
    · exact h.entry howner
  · intro c' fd' hbusy hres
    rw [Reserved, connections_setConnection, if_neg]
    · exact hres
    · rintro ⟨hreactor, rfl⟩
      rw [hreactor] at hbusy
      exact hbusy hquiet

theorem Routed.handleAccept (h : s.Routed) (hfree : s.sockets fd = none)
    (hquiet : s.Quiet i fd) : (s.handleAccept i fd true).Routed := by
  have hconn := s.connections_handleAccept (i := i) hfree
  have howner {j : Fin n} {fd' : ℕ} (hne : fd' ≠ fd) :=
    s.owner_handleAccept_of_ne (i := i) (j := j) hfree hne
  have hless : s.WaitsLess (s.handleAccept i fd true) := by
    rw [System.handleAccept, if_pos ⟨rfl, hfree⟩]
    exact waitsLess_of_eq rfl rfl
  refine h.of_reserved hless ?_ ?_
  · intro j fd' c' hopen
    rw [hconn, connections_setConnection]
    split
    · simp
    · next hother =>
      rcases eq_or_ne fd' fd with rfl | hne
      · exact absurd ⟨s.reactor_of_owner_handleAccept hfree hopen, rfl⟩ hother
      · exact h.entry ((howner hne).symm.trans hopen)
  · intro c' fd' hbusy hres
    rw [Reserved, hconn, connections_setConnection]
    split
    · next heq => exact absurd (heq.1 ▸ heq.2 ▸ hquiet) hbusy
    · intro hsome
      have hopen := hres hsome
      have hne : fd' ≠ fd := by
        rintro rfl
        simp [owner, hfree] at hopen
      rw [howner hne, hopen]

theorem Routed.pushRequest (h : s.Routed) {q : ForwardedRequest n}
    (hsource : q.sourceReactorId = q.origin.conn.reactor)
    (hres : s.Reserved q.origin.conn q.clientFd) : (s.pushRequest j q).Routed := by
  refine ⟨h.entry, ?_, ?_, h.reactor, h.responses⟩
  · intro j' q' hq
    rcases s.mem_pushRequest.mp hq with hq | ⟨-, rfl⟩
    · exact h.source q' hq
    · exact hsource
  · intro j' q' hq
    rcases s.mem_pushRequest.mp hq with hq | ⟨-, rfl⟩
    · exact h.requests q' hq
    · exact hres

theorem Routed.pushResponse (h : s.Routed) {x : ForwardedResponse n}
    (hreactor : x.origin.conn.reactor = i)
    (hres : s.Reserved x.origin.conn x.clientFd) : (s.pushResponse i x).Routed := by
  refine ⟨h.entry, h.source, h.requests, ?_, ?_⟩
  · intro i' x' hx
    rcases s.mem_pushResponse.mp hx with hx | ⟨rfl, rfl⟩
    · exact h.reactor x' hx
    · exact hreactor
  · intro i' x' hx
    rcases s.mem_pushResponse.mp hx with hx | ⟨-, rfl⟩
    · exact h.responses x' hx
    · exact hres

theorem Routed.popRequest (h : s.Routed) {q : ForwardedRequest n}
    {rest : List (ForwardedRequest n)} (hq : s.requests i = q :: rest) :
    ({ s with requests := Function.update s.requests i rest } : System n).Routed := by
  refine h.of_sameTable ⟨?_, by simp⟩ (sameTable_of_eq rfl rfl)
  intro j
  rcases eq_or_ne j i with rfl | hne
  · simp [hq]
  · simp [hne]

theorem Routed.popResponse (h : s.Routed) {x : ForwardedResponse n}
    {rest : List (ForwardedResponse n)} (hx : s.responses i = x :: rest) :
    ({ s with responses := Function.update s.responses i rest } : System n).Routed := by
  refine h.of_sameTable ⟨by simp, ?_⟩ (sameTable_of_eq rfl rfl)
  intro j
  rcases eq_or_ne j i with rfl | hne
  · simp [hx]
  · simp [hne]

/-- `handle_write` only fails when there was something to send; otherwise there is an entry
afterwards, made on the way if need be. -/
theorem handleWrite_cases (env : WriteEnv) :
    s.connections i fd ≠ none ∧ s.handleWrite i fd env = s.closeConnection i fd ∨
      ∃ conn, SameTable (s.setConnection i fd conn) (s.handleWrite i fd env) := by
  rw [handleWrite]
  split
  · next hsend =>
    refine .inl ⟨fun hnone => ?_, rfl⟩
    simp [connection, hnone, Connection.sendAll] at hsend
  · refine .inr ?_
    dsimp only
    split
    · split
      · exact ⟨_, sameTable_of_eq rfl rfl⟩
      · exact ⟨_, sameTable_advanceWriteQueue⟩
      · exact ⟨_, sameTable_of_eq rfl rfl⟩
    · exact ⟨_, sameTable_of_eq rfl rfl⟩

theorem Routed.handleWrite (h : s.Routed) (howner : s.owner i fd = some c) (env : WriteEnv) :
    (s.handleWrite i fd env).Routed := by
  rcases handleWrite_cases env with ⟨-, heq⟩ | ⟨conn, htable⟩
  · rw [heq]
    exact h.closeConnection howner
  · exact h.of_sameTable sameWork_handleWrite.waitsLess
      ((sameTable_setConnection (h.entry howner)).trans htable)

/-- The entry that `handle_write` makes for a connection that is closed already. -/
theorem Routed.handleWrite_of_quiet (h : s.Routed) (hnone : s.connections i fd = none)
    (hquiet : s.Quiet i fd) (env : WriteEnv) : (s.handleWrite i fd env).Routed := by
  rcases handleWrite_cases env with ⟨hsome, -⟩ | ⟨conn, htable⟩
  · exact absurd hnone hsome
  · refine (h.setConnection_of_quiet hquiet conn).of_sameTable ?_ htable
    exact waitsLess_of_eq sameWork_handleWrite.queues.1 sameWork_handleWrite.queues.2

end System

/-! ### Steps -/

namespace Server

variable {srv : Server n} {s : System n} {i : Fin n} {fd : ℕ} {c : ConnId n}

theorem routed_handle (h : s.Routed) (env : BrokerEnv) (req : Request) :
    (srv.handle s i env req).1.Routed :=
  h.of_sameTable (System.waitsLess_of_eq rfl rfl) (System.sameTable_of_eq rfl rfl)

theorem routed_answerLocally (h : s.Routed) (howner : s.owner i fd = some c) (origin : Origin n)
    (env : BrokerEnv) (req : Request) :
    (srv.answerLocally s i fd origin env req).1.Routed := by
  have hhandle : (srv.handle s i env req).1.Routed := routed_handle h env req
  rcases srv.answerLocally_cases s i env req fd origin with
    ⟨-, heq⟩ | ⟨resp, -, ⟨-, heq⟩ | ⟨-, heq⟩⟩ <;> rw [heq]
  · exact hhandle
  · exact hhandle.closeConnection howner
  · exact hhandle.putResponse (h.entry howner) _ _

theorem routed_drainRequest (h : s.Routed) (env : BrokerEnv) {q : ForwardedRequest n}
    {rest : List (ForwardedRequest n)} (hq : s.requests i = q :: rest) :
    (srv.drainRequest s i env).Routed := by
  obtain ⟨popped, hpopped, hcases⟩ := srv.drainRequest_cases s i env hq
  have hpop : popped.Routed := hpopped ▸ h.popRequest hq
  have hmem : q ∈ s.requests i := hq ▸ List.mem_cons_self
  rcases hcases with heq | ⟨resp, heq⟩ <;> rw [heq]
  · exact routed_handle hpop env q.request
  · refine (routed_handle hpop env q.request).pushResponse (h.source q hmem).symm ?_
    subst hpopped
    exact h.requests q hmem

theorem routed_drainResponse (h : s.Routed) {x : ForwardedResponse n}
    {rest : List (ForwardedResponse n)} (hx : s.responses i = x :: rest) :
    (drainResponse s i).1.Routed := by
  obtain ⟨popped, hpopped, hcases⟩ := drainResponse_cases s i hx
  have hpop : popped.Routed := hpopped ▸ h.popResponse hx
  rcases hcases with ⟨-, heq⟩ | ⟨conn, hconn, heq⟩ <;> rw [heq]
  · exact hpop
  · refine hpop.putResponse ?_ _ _
    rw [hpopped, hconn]
    simp

variable [NeZero n]

theorem routed_handleRead (h : s.Routed) (howner : s.owner i fd = some c) (env : ReadEnv) :
    (srv.handleRead s i fd c env).1.Routed := by
  have hstep := srv.readStep s i fd c env
  generalize srv.handleRead s i fd c env = out at hstep ⊢
  have hentry := h.entry howner
  -- The request is counted after the frame has been taken from the connection.
  have hcounted (conn : Connection) :
      ({ s.setConnection i fd conn with reads := s.reads + 1 } : System n).Routed :=
    (h.setConnection hentry conn).of_sameTable (System.waitsLess_of_eq rfl rfl)
      (System.sameTable_of_eq rfl rfl)
  cases hstep with
  | waited conn => exact h.setConnection hentry conn
  | closed => exact h.closeConnection howner
  | forwarded conn =>
    obtain ⟨b, hsocket, rfl⟩ := (s.owner_eq_some i fd).mp howner
    exact (hcounted conn).pushRequest rfl fun _ => howner
  | handled conn body req hreq htarget out hout =>
    subst hout
    exact routed_answerLocally (hcounted conn) howner _ _ _

/-- After a read the connection is open as before, or the read has closed it and forwarded
nothing. -/
theorem handleRead_open_or_closed (howner : s.owner i fd = some c) (env : ReadEnv) :
    (srv.handleRead s i fd c env).1.owner i fd = some c ∨
      srv.ClosesOnRead s i fd env ∧
        (srv.handleRead s i fd c env).1.connections i fd = none ∧
        s.WaitsLess (srv.handleRead s i fd c env).1 := by
  have hstep := srv.readStep s i fd c env
  generalize srv.handleRead s i fd c env = out at hstep ⊢
  cases hstep with
  | waited => exact .inl howner
  | closed _ _ hframe hnone =>
    refine .inr ⟨.inl ⟨hframe, hnone⟩, ?_, System.waitsLess_of_eq rfl rfl⟩
    rw [System.connections_closeConnection, if_pos ⟨rfl, rfl⟩]
  | forwarded => exact .inl howner
  | handled conn body req hreq htarget out hout =>
    subst hout
    rcases srv.answerLocally_cases { s.setConnection i fd conn with reads := s.reads + 1 } i
        env.broker req fd ⟨c, s.reads⟩ with
      ⟨-, heq⟩ | ⟨resp, hresp, ⟨hlong, heq⟩ | ⟨-, heq⟩⟩ <;> dsimp only <;> rw [heq]
    · exact .inl howner
    · refine .inr ⟨.inr ⟨req, hreq, htarget, resp, hresp, hlong⟩, ?_,
        System.waitsLess_of_eq rfl rfl⟩
      rw [System.connections_closeConnection, if_pos ⟨rfl, rfl⟩]
    · refine .inl ?_
      rw [System.owner_putResponse]
      exact howner

/-- Every step of every reactor keeps the invariant. -/
theorem routed_next (h : s.Routed) {input : ServerInput n} (hinput : srv.KeepsQuiet s input) :
    (srv.machine.next s input).Routed := by
  have hstep := srv.serverStep s input
  rw [Machine.next]
  generalize srv.machine.step s input = out at hstep ⊢
  cases hstep with
  | idle => exact h
  | accepted i fd hfree => exact h.handleAccept hfree (hinput rfl)
  | hungUp i fd c ev read write howner => exact h.closeConnection howner
  | event i fd c ev read write howner =>
    rw [readPart]
    split
    · exact routed_handleRead h howner read
    · exact h
  | eventWrite i fd c ev read write howner herr hwritable hwant =>
    rw [readPart]
    split
    · next hreadable =>
      have hread : (srv.handleRead s i fd c read).1.Routed := routed_handleRead h howner read
      rcases handleRead_open_or_closed howner read with hopen | ⟨hcloses, hnone, hless⟩
      · exact hread.handleWrite hopen write
      · have hquiet : s.Quiet i fd := hinput herr hreadable hwritable hwant hcloses
        exact hread.handleWrite_of_quiet hnone (hless.quiet hquiet) write
    · exact h.handleWrite howner write
  | requestDrained i env q rest hq => exact routed_drainRequest h env hq
  | responseDrained i x rest hx => exact routed_drainResponse h hx
  | harvested i k written =>
    exact h.of_sameTable System.sameWork_harvest.waitsLess System.sameTable_harvest

end Server

/-! ### Delivery -/

theorem System.Fresh.routed {s : System n} (h : s.Fresh) : s.Routed where
  entry howner := by simp [System.owner, h.sockets] at howner
  source q hq := by simp [h.requests] at hq
  requests q hq := by simp [h.requests] at hq
  reactor x hx := by simp [h.responses] at hx
  responses x hx := by simp [h.responses] at hx

/-- What the invariant says about the next response. -/
theorem System.Routed.deliversToOrigin {s : System n} (h : s.Routed) (i : Fin n) :
    DeliversToOrigin s i := by
  intro x rest hx
  have hmem : x ∈ s.responses i := hx ▸ List.mem_cons_self
  have hres : s.Reserved x.origin.conn x.clientFd := h.responses x hmem
  rw [System.Reserved, h.reactor x hmem] at hres
  obtain ⟨popped, rfl, ⟨hnone, heq⟩ | ⟨conn, hconn, heq⟩⟩ := Server.drainResponse_cases s i hx
  · rw [heq]
    exact ⟨fun howner => absurd hnone (h.entry howner), fun _ => ⟨rfl, rfl⟩⟩
  · have howner := hres (by simp [hconn])
    rw [heq]
    exact ⟨fun _ => by rw [howner], fun hne => absurd howner hne⟩

/-- In every run from a fresh process in which no descriptor gets a new entry while something
is on its way for it, forwarded responses reach the connections of their requests or are
dropped. -/
theorem Server.deliversToOrigin_of_quiet [NeZero n] {srv : Server n} {s : System n}
    {inputs : List (ServerInput n)} (hfresh : s.Fresh)
    (h : srv.machine.Within srv.KeepsQuiet s inputs) (i : Fin n) :
    DeliversToOrigin (srv.machine.exec s inputs) i := by
  have hrouted : (srv.machine.exec s inputs).Routed :=
    Machine.invariant_exec (I := System.Routed) (fun _ _ hs hinput => routed_next hs hinput)
      hfresh.routed h
  exact hrouted.deliversToOrigin i

namespace TwoReactors

/-- A Produce request is read on reactor 0, forwarded and answered, and its client hangs up
before the response is back. -/
def abandoned : List (ServerInput 2) :=
  [connect, arrive produceZero, serve, hangUp]

/-- The next client gets the descriptor. -/
def reused : List (ServerInput 2) := abandoned ++ [connect]

end TwoReactors

open TwoReactors in
theorem deliversToOrigin_abandoned :
    DeliversToOrigin ((server fun _ => 0).machine.exec {} abandoned) 0 :=
  Server.deliversToOrigin_of_quiet System.fresh_empty (by decide +kernel) 0

open TwoReactors in
/-- The response to the first client is put into the buffers of the second. -/
theorem not_deliversToOrigin_reused :
    ¬ DeliversToOrigin ((server fun _ => 0).machine.exec {} reused) 0 := by
  intro h
  obtain ⟨x, rest, hx⟩ : ∃ x rest,
      ((server fun _ => 0).machine.exec {} reused).responses 0 = x :: rest :=
    List.exists_cons_of_length_pos (by decide +kernel)
  have hevents : (Server.drainResponse ((server fun _ => 0).machine.exec {} reused) 0).2 =
      [.enqueued (some ⟨0, 1⟩) ⟨⟨0, 0⟩, 0⟩ true] := by decide +kernel
  obtain ⟨hopen, hclosed⟩ := h x rest hx
  rw [hevents] at hopen hclosed
  -- It is not enqueued on the connection of its request, and not dropped either.
  by_cases howner : ((server fun _ => 0).machine.exec {} reused).owner 0 x.clientFd =
      some x.origin.conn
  · have heq := hopen howner
    rw [List.cons.injEq, Event.enqueued.injEq, Option.some_inj] at heq
    have horigin : x.origin = ⟨⟨0, 0⟩, 0⟩ := heq.1.2.1.symm
    rw [horigin] at heq
    exact absurd heq.1.1 (by decide)
  · exact absurd (hclosed howner).1 (by simp)

end TinyKafka
