import TinyKafka.Net.WritePipeline

/-!
# Runs of the process, seen from one connection

A step of the process that concerns a connection is a call of `handle_read`, of `handle_write`
or of both, or a turn of `drain_cross_reactor_responses`. Every other step leaves the entry
and the registration of the connection alone, because a descriptor belongs to one connection
at a time. So every run of the process is a run of calls, and the write pipeline of the
connection is a queue of bytes in the middle of everything else that the reactors do
(`Server.isFifo_of_run`).
-/

namespace TinyKafka

variable {n : ℕ}

/-! ### What leaves a connection alone -/

namespace System

variable {s s' s'' : System n} {i j : Fin n} {fd fd' : ℕ} {c : ConnId n} {conn : Connection}

theorem LeavesAlone.refl (s : System n) (i : Fin n) (fd : ℕ) : s.LeavesAlone i fd s := ⟨rfl, rfl⟩

theorem LeavesAlone.trans (h : s.LeavesAlone i fd s') (h' : s'.LeavesAlone i fd s'') :
    s.LeavesAlone i fd s'' :=
  ⟨h'.1.trans h.1, h'.2.trans h.2⟩

/-- Reactor `j` and descriptor `fd'` are not those of the connection: the descriptor is
another one, or it is not registered with `j`. -/
def Elsewhere (s : System n) (i : Fin n) (fd : ℕ) (j : Fin n) (fd' : ℕ) : Prop :=
  fd' = fd → j ≠ i ∧ s.owner j fd' = none

theorem elsewhere_of_ne (h : fd' ≠ fd) : s.Elsewhere i fd j fd' := fun heq => absurd heq h

theorem Holds.elsewhere {want : Bool} (h : s.Holds i fd c conn want)
    (hne : ¬ (j = i ∧ fd' = fd)) : s.Elsewhere i fd j fd' := by
  rintro rfl
  have hj : j ≠ i := fun heq => hne ⟨heq, rfl⟩
  refine ⟨hj, Option.eq_none_iff_forall_ne_some.mpr fun c' hc' => hj ?_⟩
  obtain ⟨b, hsocket, hreactor⟩ := (s.owner_eq_some j fd').mp hc'
  rw [h.socket, Option.some_inj, OpenSocket.mk.injEq] at hsocket
  rw [← hreactor, ← hsocket.1, h.reactor]

theorem leavesAlone_setConnection (h : s.Elsewhere i fd j fd') (conn : Connection) :
    s.LeavesAlone i fd (s.setConnection j fd' conn) := by
  refine ⟨?_, rfl⟩
  rw [connections_setConnection, if_neg]
  rintro ⟨rfl, rfl⟩
  exact (h rfl).1 rfl

theorem leavesAlone_setWantWrite (h : s.Elsewhere i fd j fd') (b : Bool) :
    s.LeavesAlone i fd (s.setWantWrite j fd' b) := by
  constructor
  · rw [connections_setWantWrite]
  · rw [setWantWrite]
    split
    next c hc =>
      have hne : fd ≠ fd' := by
        rintro rfl
        exact absurd ((h rfl).2.symm.trans hc) (by simp)
      exact Function.update_of_ne hne _ _
    next => rfl

theorem leavesAlone_closeConnection (h : fd' ≠ fd) :
    s.LeavesAlone i fd (s.closeConnection j fd') := by
  constructor
  · rw [connections_closeConnection, if_neg fun heq => h heq.2.symm]
  · exact Function.update_of_ne (Ne.symm h) _ _

theorem leavesAlone_putResponse (h : s.Elsewhere i fd j fd') (data : Bytes) :
    s.LeavesAlone i fd (s.putResponse j fd' conn data) := by
  have hset := leavesAlone_setConnection h (conn.enqueue data)
  have helse : (s.setConnection j fd' (conn.enqueue data)).Elsewhere i fd j fd' := h
  rcases s.putResponse_eq j fd' conn data with heq | heq <;> rw [heq]
  · exact hset
  · exact hset.trans (leavesAlone_setWantWrite helse true)

theorem leavesAlone_advanceWriteQueue (h : s.Elsewhere i fd j fd') :
    s.LeavesAlone i fd (s.advanceWriteQueue j fd' conn) := by
  have hset := leavesAlone_setConnection h conn.advanceWriteQueue
  have helse : (s.setConnection j fd' conn.advanceWriteQueue).Elsewhere i fd j fd' := h
  rw [advanceWriteQueue]
  split
  next => exact hset.trans (leavesAlone_setWantWrite helse false)
  next => exact hset

theorem leavesAlone_handleWrite (h : fd' ≠ fd) (env : WriteEnv) :
    s.LeavesAlone i fd (s.handleWrite j fd' env) := by
  have helse : s.Elsewhere i fd j fd' := elsewhere_of_ne h
  rw [handleWrite]
  split
  next => exact leavesAlone_closeConnection h
  next =>
    dsimp only
    split
    · split
      · exact leavesAlone_setConnection helse _
      · exact leavesAlone_advanceWriteQueue helse
      · exact leavesAlone_setConnection helse _
    · exact leavesAlone_setConnection helse _

theorem leavesAlone_complete {written : ℕ} {op : RingOp}
    (h : ∀ fd' file len, op = .splice fd' file len → s.Elsewhere i fd j fd') :
    s.LeavesAlone i fd (s.complete j written op) := by
  rcases op with ⟨path, w⟩ | ⟨fd', file, len⟩
  · exact ⟨rfl, rfl⟩
  · rw [complete]
    split
    next =>
      split
      · exact .refl s i fd
      · exact leavesAlone_advanceWriteQueue (h fd' file len rfl)
    next => exact .refl s i fd

/-- A new connection is registered under a descriptor that is not in use. -/
theorem leavesAlone_handleAccept (h : s.sockets fd ≠ none) (ok : Bool) :
    s.LeavesAlone i fd (s.handleAccept j fd' ok) := by
  rw [handleAccept]
  split
  next hok =>
    have hne : fd' ≠ fd := by
      rintro rfl
      exact h hok.2
    exact ⟨(leavesAlone_setConnection (elsewhere_of_ne hne) _).1,
      Function.update_of_ne (Ne.symm hne) _ _⟩
  next => exact .refl s i fd

theorem leavesAlone_harvest {k written : ℕ}
    (h : ∀ fd' file len, (s.rings j)[k]? = some (.splice fd' file len) → s.Elsewhere i fd j fd') :
    s.LeavesAlone i fd (s.harvest j k written) := by
  rw [harvest]
  split
  next op hop =>
    have hpop : s.LeavesAlone i fd
        { s with rings := Function.update s.rings j ((s.rings j).eraseIdx k) } := ⟨rfl, rfl⟩
    refine hpop.trans (leavesAlone_complete fun fd' file len heq => ?_)
    exact h fd' file len (heq ▸ hop)
  next => exact .refl s i fd

end System

namespace Server

variable {srv : Server n} {s : System n} {i j : Fin n} {fd fd' : ℕ} {c : ConnId n}

theorem leavesAlone_answerLocally (h : fd' ≠ fd) (origin : Origin n) (env : BrokerEnv)
    (req : Request) : s.LeavesAlone i fd (srv.answerLocally s j fd' origin env req).1 := by
  have hhandled : s.LeavesAlone i fd (srv.handle s j env req).1 := ⟨rfl, rfl⟩
  rcases srv.answerLocally_cases s j env req fd' origin with
    ⟨-, heq⟩ | ⟨resp, -, ⟨-, heq⟩ | ⟨-, heq⟩⟩ <;> rw [heq]
  · exact hhandled
  · exact hhandled.trans (System.leavesAlone_closeConnection h)
  · exact hhandled.trans (System.leavesAlone_putResponse (System.elsewhere_of_ne h) _)

variable [NeZero n]

theorem leavesAlone_handleRead (h : fd' ≠ fd) (c : ConnId n) (env : ReadEnv) :
    s.LeavesAlone i fd (srv.handleRead s j fd' c env).1 := by
  have hset := fun conn => System.leavesAlone_setConnection
    (s := s) (i := i) (System.elsewhere_of_ne (j := j) h) conn
  have hstep := srv.readStep s j fd' c env
  generalize srv.handleRead s j fd' c env = out at hstep ⊢
  cases hstep with
  | waited conn => exact hset conn
  | closed => exact System.leavesAlone_closeConnection h
  | forwarded conn => exact (hset conn).trans ⟨rfl, rfl⟩
  | handled conn body req hreq htarget out hout =>
    subst hout
    have hcounted : s.LeavesAlone i fd { s.setConnection j fd' conn with reads := s.reads + 1 } :=
      (hset conn).trans ⟨rfl, rfl⟩
    exact hcounted.trans (leavesAlone_answerLocally h _ _ _)

/-- An event for another descriptor. -/
theorem leavesAlone_handleEvent (h : fd' ≠ fd) (c : ConnId n) (ev : EpollEvent) (read : ReadEnv)
    (write : WriteEnv) : s.LeavesAlone i fd (srv.handleEvent s j fd' c ev read write).1 := by
  have hread : s.LeavesAlone i fd (srv.readPart s j fd' c ev read).1 := by
    rw [readPart]
    split
    next => exact leavesAlone_handleRead h c read
    next => exact .refl s i fd
  rw [handleEvent]
  split
  next => exact System.leavesAlone_closeConnection h
  next =>
    rw [← readPart]
    dsimp only
    split
    next => exact hread.trans (System.leavesAlone_handleWrite h write)
    next => exact hread

omit [NeZero n] in
theorem leavesAlone_drainRequest (env : BrokerEnv) :
    s.LeavesAlone i fd (srv.drainRequest s j env) := by
  rcases hq : s.requests j with _ | ⟨q, rest⟩
  · rw [srv.drainRequest_nil s j env hq]
    exact .refl s i fd
  · obtain ⟨popped, rfl, heq | ⟨resp, heq⟩⟩ := srv.drainRequest_cases s j env hq <;> rw [heq]
    · exact ⟨rfl, rfl⟩
    · exact ⟨rfl, rfl⟩

omit [NeZero n] in
theorem leavesAlone_drainResponse
    (h : ∀ x ∈ (s.responses j).head?, s.Elsewhere i fd j x.clientFd) :
    s.LeavesAlone i fd (drainResponse s j).1 := by
  rcases hx : s.responses j with _ | ⟨x, rest⟩
  · rw [drainResponse, hx]
    exact .refl s i fd
  · obtain ⟨popped, rfl, ⟨-, heq⟩ | ⟨conn, -, heq⟩⟩ := drainResponse_cases s j hx <;> rw [heq]
    · exact ⟨rfl, rfl⟩
    · have hpopped : s.LeavesAlone i fd
          { s with responses := Function.update s.responses j rest } := ⟨rfl, rfl⟩
      have helse : { s with responses := Function.update s.responses j rest }.Elsewhere i fd j
          x.clientFd := h x (by rw [hx]; rfl)
      exact hpopped.trans (System.leavesAlone_putResponse helse _)

/-! ### Steps of the process as calls -/

/-- The steps under consideration: those that concern the connection are undisturbed calls,
and no splice completes under its descriptor, not even one of an earlier connection. -/
def SparesConnection (srv : Server n) (i : Fin n) (fd : ℕ) (s : System n) : ServerInput n → Prop
  | .event j fd' ev read write =>
    j = i → fd' = fd → ev.errHup = false ∧
      (ev.readable = true → srv.Undisturbed i fd s (.read read)) ∧ write.sent.isSome
  | .drainResponse j =>
    j = i → ∀ x ∈ (s.responses i).head?, x.clientFd = fd → x.splice = none ∧ x.data ≠ []
  | .harvest j k _ => j = i → ∀ file len, (s.rings i)[k]? ≠ some (.splice fd file len)
  | .accept .. | .drainRequest .. => True

/-- The step is the run of `calls`. -/
def IsRunOf (srv : Server n) (i : Fin n) (fd : ℕ) (c : ConnId n) (s s' : System n)
    (calls : List (HandlerCall n)) : Prop :=
  (srv.pipeline i fd c).Within (srv.Undisturbed i fd) s calls ∧
    (srv.pipeline i fd c).exec s calls = s'

/-- A step that leaves the connection alone is no call at all. -/
theorem isRunOf_other {s' : System n} (h : s.LeavesAlone i fd s') :
    srv.IsRunOf i fd c s s' [.other s'] :=
  ⟨⟨h, trivial⟩, rfl⟩

theorem isRunOf_write {env : WriteEnv} (h : env.sent.isSome) :
    srv.IsRunOf i fd c s (s.handleWrite i fd env) [.write env] :=
  ⟨⟨h, trivial⟩, rfl⟩

theorem IsRunOf.append {s' s'' : System n} {calls calls' : List (HandlerCall n)}
    (h : srv.IsRunOf i fd c s s' calls) (h' : srv.IsRunOf i fd c s' s'' calls') :
    srv.IsRunOf i fd c s s'' (calls ++ calls') := by
  obtain ⟨hwithin, rfl⟩ := h
  constructor
  · exact (Machine.within_append _).mpr ⟨hwithin, h'.1⟩
  · rw [Machine.exec_append]
    exact h'.2

/-- An event for the connection is a read, a write, both or neither. -/
theorem exists_calls_event {ev : EpollEvent} {read : ReadEnv} {write : WriteEnv}
    (herr : ev.errHup = false)
    (hread : ev.readable = true → srv.Undisturbed i fd s (.read read))
    (hwrite : write.sent.isSome) :
    ∃ calls, srv.IsRunOf i fd c s (srv.handleEvent s i fd c ev read write).1 calls := by
  obtain ⟨calls, hcalls⟩ : ∃ calls,
      srv.IsRunOf i fd c s (srv.readPart s i fd c ev read).1 calls := by
    rw [readPart]
    split
    next hreadable => exact ⟨[.read read], ⟨hread hreadable, trivial⟩, rfl⟩
    next => exact ⟨[], trivial, rfl⟩
  rw [handleEvent, if_neg (by rw [herr]; decide), ← readPart]
  dsimp only
  split
  next => exact ⟨calls ++ [.write write], hcalls.append (isRunOf_write hwrite)⟩
  next => exact ⟨calls, hcalls⟩

/-- Every step of the process is a run of calls. -/
theorem exists_calls_next {input : ServerInput n} (h : s.Pumps i fd c)
    (hinput : srv.SparesConnection i fd s input) :
    ∃ calls, srv.IsRunOf i fd c s (srv.machine.next s input) calls := by
  obtain ⟨conn, want, hholds, -, -⟩ := h
  rw [Machine.next, machine]
  dsimp only
  split
  next => exact ⟨[], trivial, rfl⟩
  next =>
    cases input with
    | accept j fd' ok =>
      refine ⟨_, isRunOf_other (System.leavesAlone_handleAccept ?_ ok)⟩
      rw [hholds.socket]
      exact Option.some_ne_none _
    | event j fd' ev read write =>
      rw [step]
      split
      next c' hc' =>
        by_cases hne : j = i ∧ fd' = fd
        · obtain ⟨rfl, rfl⟩ := hne
          obtain rfl : c' = c := Option.some.inj (hc'.symm.trans hholds.owner)
          obtain ⟨herr, hread, hwrite⟩ := hinput rfl rfl
          exact exists_calls_event herr hread hwrite
        · -- the descriptor of the connection is registered with its own reactor only
          have hfd : fd' ≠ fd := fun heq =>
            absurd ((hholds.elsewhere hne heq).2.symm.trans hc') (by simp)
          exact ⟨_, isRunOf_other (leavesAlone_handleEvent hfd c' ev read write)⟩
      next => exact ⟨[], trivial, rfl⟩
    | drainRequest j env => exact ⟨_, isRunOf_other (leavesAlone_drainRequest env)⟩
    | drainResponse j =>
      by_cases hours : ∃ x ∈ (s.responses j).head?, j = i ∧ x.clientFd = fd
      · obtain ⟨x, hx, rfl, hfd⟩ := hours
        obtain ⟨hsplice, hdata⟩ := hinput rfl x hx hfd
        exact ⟨[.drain], ⟨⟨x, hx, hfd, hsplice, hdata⟩, trivial⟩, rfl⟩
      · refine ⟨_, isRunOf_other (leavesAlone_drainResponse fun x hx => ?_)⟩
        exact hholds.elsewhere fun heq => hours ⟨x, hx, heq⟩
    | harvest j k written =>
      refine ⟨_, isRunOf_other (System.leavesAlone_harvest fun fd' file len hop => ?_)⟩
      refine hholds.elsewhere ?_
      rintro ⟨rfl, rfl⟩
      exact hinput rfl file len hop

/-- Every run of the process is a run of calls. -/
theorem exists_calls_exec {inputs : List (ServerInput n)} (h : s.Pumps i fd c)
    (hinputs : srv.machine.Within (srv.SparesConnection i fd) s inputs) :
    ∃ calls, srv.IsRunOf i fd c s (srv.machine.exec s inputs) calls := by
  induction inputs generalizing s with
  | nil => exact ⟨[], trivial, rfl⟩
  | cons input inputs ih =>
    obtain ⟨calls, hcalls⟩ := exists_calls_next h hinputs.1
    have hpumps : (srv.machine.next s input).Pumps i fd c := by
      rw [← hcalls.2]
      exact (pumps_exec h hcalls.1).1
    obtain ⟨calls', hcalls'⟩ := ih hpumps hinputs.2
    exact ⟨calls ++ calls', hcalls.append hcalls'⟩

/-- **The write pipeline among everything else.** Reactor `i` has just accepted a connection
under `fd`. After any run of the process that spares it, the buffers put in by the calls that
concern the connection, and the bytes they have sent, are those of a queue. -/
theorem isFifo_of_run (hfree : s.sockets fd = none) {inputs : List (ServerInput n)}
    (hinputs : srv.machine.Within (srv.SparesConnection i fd) (s.handleAccept i fd true) inputs) :
    ∃ calls, srv.IsRunOf i fd ⟨i, s.accepted⟩ (s.handleAccept i fd true)
        (srv.machine.exec (s.handleAccept i fd true) inputs) calls ∧
      (srv.machine.exec (s.handleAccept i fd true) inputs).IsFifo i fd ⟨i, s.accepted⟩
        (allEnqueued ((srv.pipeline i fd ⟨i, s.accepted⟩).trace (s.handleAccept i fd true) calls))
        (allSent ((srv.pipeline i fd ⟨i, s.accepted⟩).trace (s.handleAccept i fd true) calls)) := by
  obtain ⟨hstart, hempty⟩ := System.pumps_handleAccept (i := i) hfree
  obtain ⟨calls, hcalls⟩ := exists_calls_exec hstart hinputs
  obtain ⟨hpumps, hbytes⟩ := pumps_exec hstart hcalls.1
  rw [hempty, List.nil_append] at hbytes
  refine ⟨calls, hcalls, ?_⟩
  rw [← hcalls.2]
  exact hpumps.isFifo hbytes

end Server

end TinyKafka
