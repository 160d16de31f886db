import TinyKafka.Net.Delivery
import TinyKafka.Net.ResponseOrder

/-!
# The connection table and the open descriptors

The keys of `connections_` should be the client descriptors that the reactor has accepted and
not closed, and after a handler has closed a descriptor no other handler should run on it
(`Server.TableAccurate`). `Server.tableAccurate_iff`: in a run from a fresh process this is so
exactly when no event reports a connection readable and writable whose `handle_read` closes it
(`Server.KeepsOpen`).

Such an event calls `handle_write` on the closed descriptor. The lookup `connections_[fd]` there
constructs an entry, the empty buffer needs no system call that could fail, and the entry stays
when the number is in nobody's use any more (`Server.not_tableMatches_next`). All other steps
look an entry up before they touch it, or have the descriptor from the kernel.
-/

namespace TinyKafka

variable {n : ℕ}

/-! ### The property -/

/-- The keys of the table of each reactor are the descriptors it has accepted and not closed. -/
def System.TableMatches (s : System n) : Prop :=
  ∀ i fd, s.connections i fd ≠ none ↔ s.owner i fd ≠ none

namespace Server

variable [NeZero n] (srv : Server n)

/-- `handle_write` is run on a descriptor that `handle_read` has closed in the same event. -/
def WritesToClosed (s : System n) : ServerInput n → Prop
  | .event i fd ev read _ =>
    s.terminated = false ∧ ev.errHup = false ∧ ev.readable = true ∧ ev.writable = true ∧
      (s.sockets fd).any OpenSocket.wantWrite ∧
      ∃ c ∈ s.owner i fd, (srv.handleRead s i fd c read).1.terminated = false ∧
        (srv.handleRead s i fd c read).1.owner i fd = none
  | .accept .. | .drainRequest .. | .drainResponse .. | .harvest .. => False

/-- After every step the tables match the open descriptors, and no handler is run on a
descriptor that has been closed in the same event. -/
structure TableAccurate (s : System n) (inputs : List (ServerInput n)) : Prop where
  tables : ∀ pre, pre <+: inputs → (srv.machine.exec s pre).TableMatches
  handlers : srv.machine.Within (fun s input => ¬ srv.WritesToClosed s input) s inputs

/-- The condition: no read closes a connection that is then written to. -/
def KeepsOpen (s : System n) : ServerInput n → Prop
  | .event i fd ev read _ =>
    s.terminated = false → (s.owner i fd).isSome → ev.errHup = false → ev.readable = true →
      ev.writable = true → (s.sockets fd).any OpenSocket.wantWrite →
      ¬ srv.ClosesOnRead s i fd read
  | .accept .. | .drainRequest .. | .drainResponse .. | .harvest .. => True

instance (s : System n) : (input : ServerInput n) → Decidable (srv.KeepsOpen s input)
  | .event _ _ _ _ _ => inferInstanceAs (Decidable (_ → _ → _ → _ → _ → _ → ¬ _))
  | .accept .. | .drainRequest .. | .drainResponse .. | .harvest .. => .isTrue trivial

end Server

/-! ### Operations that keep the match -/

namespace System

variable {s s' : System n} {i : Fin n} {fd : ℕ} {c : ConnId n}

theorem Fresh.tableMatches (h : s.Fresh) : s.TableMatches := by
  intro i fd
  simp [h.connections, owner, h.sockets]

theorem TableMatches.of_sameTable (h : s.TableMatches) (htable : SameTable s s') :
    s'.TableMatches := by
  intro i fd
  rw [htable.owner, Ne, htable.entry]
  exact h i fd

theorem TableMatches.entry (h : s.TableMatches) (howner : s.owner i fd = some c) :
    s.connections i fd ≠ none := by
  rw [h i fd, howner]
  simp

/-- A descriptor is registered with one reactor. -/
theorem owner_eq_none_of_ne (howner : s.owner i fd = some c) {j : Fin n} (hne : j ≠ i) :
    s.owner j fd = none := by
  obtain ⟨b, hsocket, rfl⟩ := (s.owner_eq_some i fd).mp howner
  simp [owner, hsocket, hne.symm]

theorem TableMatches.closeConnection (h : s.TableMatches) (howner : s.owner i fd = some c) :
    (s.closeConnection i fd).TableMatches := by
  intro j fd'
  rw [connections_closeConnection]
  rcases eq_or_ne fd' fd with rfl | hfd
  · have hclosed : (s.closeConnection i fd').owner j fd' = none := by
      simp [owner, System.closeConnection]
    rw [hclosed]
    rcases eq_or_ne j i with rfl | hj
    · simp
    · -- another reactor has no entry, since the descriptor was not its own
      rw [if_neg fun heq => hj heq.1, h j fd', owner_eq_none_of_ne howner hj]
  · rw [if_neg fun heq => hfd heq.2, owner_closeConnection_of_ne hfd]
    exact h j fd'

theorem TableMatches.handleAccept (h : s.TableMatches) (hfree : s.sockets fd = none) :
    (s.handleAccept i fd true).TableMatches := by
  intro j fd'
  rw [s.connections_handleAccept hfree, connections_setConnection]
  rcases eq_or_ne fd' fd with rfl | hfd
  · rcases eq_or_ne j i with rfl | hj
    · simp [System.handleAccept, hfree, owner]
    · have hbefore : s.connections j fd' = none := by
        rw [← not_not (a := s.connections j fd' = none), ← Ne, h j fd']
        simp [owner, hfree]
      have hafter : (s.handleAccept i fd' true).owner j fd' = none := by
        rw [Option.eq_none_iff_forall_ne_some]
        exact fun c hc => hj (s.reactor_of_owner_handleAccept hfree hc)
      simp [hj, hbefore, hafter]
  · rw [if_neg fun heq => hfd heq.2, s.owner_handleAccept_of_ne hfree hfd]
    exact h j fd'

theorem TableMatches.handleWrite (h : s.TableMatches) (howner : s.owner i fd = some c)
    (env : WriteEnv) : (s.handleWrite i fd env).TableMatches := by
  rcases handleWrite_cases env with ⟨-, heq⟩ | ⟨conn, htable⟩
  · rw [heq]
    exact h.closeConnection howner
  · exact h.of_sameTable ((sameTable_setConnection (h.entry howner)).trans htable)

end System

/-! ### Steps -/

namespace Server

variable {srv : Server n} {s : System n} {i : Fin n} {fd : ℕ} {c : ConnId n}

theorem tableMatches_answerLocally (h : s.TableMatches) (howner : s.owner i fd = some c)
    (origin : Origin n) (env : BrokerEnv) (req : Request) :
    (srv.answerLocally s i fd origin env req).1.TableMatches := by
  have hhandle : (srv.handle s i env req).1.TableMatches :=
    h.of_sameTable (System.sameTable_of_eq rfl rfl)
  rcases srv.answerLocally_cases s i env req fd origin with
    ⟨-, heq⟩ | ⟨resp, -, ⟨-, heq⟩ | ⟨-, heq⟩⟩ <;> rw [heq]
  · exact hhandle
  · exact hhandle.closeConnection howner
  · refine hhandle.of_sameTable (.trans ?_ System.sameTable_putResponse)
    exact System.sameTable_setConnection (hhandle.entry howner)

theorem tableMatches_drainRequest (h : s.TableMatches) (env : BrokerEnv)
    {q : ForwardedRequest n} {rest : List (ForwardedRequest n)} (hq : s.requests i = q :: rest) :
    (srv.drainRequest s i env).TableMatches := by
  obtain ⟨popped, rfl, heq | ⟨resp, heq⟩⟩ := srv.drainRequest_cases s i env hq <;> rw [heq]
  · exact h.of_sameTable (System.sameTable_of_eq rfl rfl)
  · exact h.of_sameTable (System.sameTable_of_eq rfl rfl)

/-- A response is only put into the buffers of an entry that is found. -/
theorem tableMatches_drainResponse (h : s.TableMatches) {x : ForwardedResponse n}
    {rest : List (ForwardedResponse n)} (hx : s.responses i = x :: rest) :
    (drainResponse s i).1.TableMatches := by
  obtain ⟨popped, rfl, ⟨-, heq⟩ | ⟨conn, hconn, heq⟩⟩ := drainResponse_cases s i hx <;> rw [heq]
  · exact h.of_sameTable (System.sameTable_of_eq rfl rfl)
  · have hpopped : System.SameTable s
        { s with responses := Function.update s.responses i rest } :=
      System.sameTable_of_eq rfl rfl
    refine h.of_sameTable (hpopped.trans (.trans ?_ System.sameTable_putResponse))
    exact System.sameTable_setConnection (by simp [hconn])

variable [NeZero n]

theorem tableMatches_handleRead (h : s.TableMatches) (howner : s.owner i fd = some c)
    (env : ReadEnv) : (srv.handleRead s i fd c env).1.TableMatches := by
  have hstep := srv.readStep s i fd c env
  generalize srv.handleRead s i fd c env = out at hstep ⊢
  have hset (conn : Connection) : (s.setConnection i fd conn).TableMatches :=
    h.of_sameTable (System.sameTable_setConnection (h.entry howner))
  cases hstep with
  | waited conn => exact hset conn
  | closed => exact h.closeConnection howner
  | forwarded conn => exact (hset conn).of_sameTable (System.sameTable_of_eq rfl rfl)
  | handled conn body req hreq htarget out hout =>
    subst hout
    have hcounted : ({ s.setConnection i fd conn with reads := s.reads + 1 } :
        System n).TableMatches :=
      (hset conn).of_sameTable (System.sameTable_of_eq rfl rfl)
    exact tableMatches_answerLocally hcounted howner _ _ _

/-- A step within the condition keeps the match. -/
theorem tableMatches_next (h : s.TableMatches) {input : ServerInput n}
    (hinput : srv.KeepsOpen s input) : (srv.machine.next s input).TableMatches := by
  rcases hlive : s.terminated with _ | _
  · have hstep := srv.serverStep s input
    rw [Machine.next]
    generalize srv.machine.step s input = out at hstep ⊢
    cases hstep with
    | idle => exact h
    | accepted i fd hfree => exact h.handleAccept hfree
    | hungUp i fd c ev read write howner => exact h.closeConnection howner
    | event i fd c ev read write howner =>
      rw [readPart]
      split
      · exact tableMatches_handleRead h howner read
      · exact h
    | eventWrite i fd c ev read write howner herr hwritable hwant =>
      rw [readPart]
      split
      · next hreadable =>
        have hkeeps : ¬ srv.ClosesOnRead s i fd read :=
          hinput hlive (by simp [howner]) herr hreadable hwritable hwant
        rcases handleRead_open_or_closed howner read with hopen | ⟨hcloses, -⟩
        · exact (tableMatches_handleRead h howner read).handleWrite hopen write
        · exact absurd hcloses hkeeps
      · exact h.handleWrite howner write
    | requestDrained i env q rest hq => exact tableMatches_drainRequest h env hq
    | responseDrained i x rest hx => exact tableMatches_drainResponse h hx
    | harvested i k written => exact h.of_sameTable System.sameTable_harvest
  · rw [Machine.next, machine]
    simpa [hlive] using h

/-! ### The entry that is left over -/

omit [NeZero n] in
theorem answerLocally_of_long {env : BrokerEnv} {req : Request} {resp : Response}
    (hresp : (srv.handle s i env req).2 = some resp)
    (hlong : srv.maxWriteBufferBytes < (srv.serialize resp).length) (fd : ℕ)
    (origin : Origin n) :
    srv.answerLocally s i fd origin env req =
      ((srv.handle s i env req).1.closeConnection i fd, []) := by
  rcases srv.answerLocally_cases s i env req fd origin with
    ⟨hnone, -⟩ | ⟨resp', hresp', ⟨-, heq⟩ | ⟨hshort, -⟩⟩
  · rw [hresp] at hnone
    cases hnone
  · exact heq
  · rw [hresp, Option.some_inj] at hresp'
    subst hresp'
    exact absurd hlong (not_lt.mpr hshort)

/-- A body that does not parse, or a response that is too long: closing the connection is the
last thing that is done, and the process goes on. -/
theorem handleBody_of_closes (hlive : s.terminated = false) {env : ReadEnv} {body : Bytes}
    (h : (parseRequest env.junk body).toOption = none ∨
      ∃ req ∈ (parseRequest env.junk body).toOption,
        srv.router.target srv.records.metadata i req = i ∧
          ∃ resp ∈ (srv.handle s i env.broker req).2,
            srv.maxWriteBufferBytes < (srv.serialize resp).length) :
    ∃ t : System n, t.terminated = false ∧
      (srv.handleBody s i fd c env body).1 = t.closeConnection i fd := by
  rw [handleBody]
  split
  · exact ⟨s, hlive, rfl⟩
  · next req hparse =>
    rw [hparse] at h
    obtain hnone | ⟨req', hreq', htarget, resp, hresp, hlong⟩ := h
    · cases hnone
    · cases hreq'
      dsimp only
      -- counting the read changes nothing for the broker
      have hlast := answerLocally_of_long (s := { s with reads := s.reads + 1 }) hresp hlong fd
        ⟨c, s.reads⟩
      rw [if_neg (not_not.mpr htarget), hlast]
      refine ⟨_, ?_, rfl⟩
      rw [terminated_handle]
      exact congrArg Option.isNone hresp

theorem handleRead_of_closes (hlive : s.terminated = false) {env : ReadEnv}
    (h : srv.ClosesOnRead s i fd env) :
    ∃ t : System n, t.terminated = false ∧
      (srv.handleRead s i fd c env).1 = t.closeConnection i fd := by
  rw [ClosesOnRead, requestRead] at h
  rw [handleRead]
  rcases hframe : (s.connection i fd).readFrame srv.maxMessageBytes env.socket with
    ⟨r, _ | _ | body, sock⟩ <;> rw [hframe] at h <;> dsimp only at h ⊢
  · simp at h
  · exact ⟨s, hlive, rfl⟩
  · exact handleBody_of_closes (s := s.setConnection i fd _) hlive (h.imp_left And.right)

theorem writesToClosed_iff {input : ServerInput n} :
    srv.WritesToClosed s input ↔ ¬ srv.KeepsOpen s input := by
  cases input with
  | event i fd ev read write =>
    simp only [WritesToClosed, KeepsOpen, not_forall, not_not]
    constructor
    · rintro ⟨hlive, herr, hreadable, hwritable, hwant, c, howner, -, hclosed⟩
      refine ⟨hlive, Option.isSome_iff_exists.mpr ⟨c, howner⟩, herr, hreadable, hwritable,
        hwant, ?_⟩
      rcases handleRead_open_or_closed howner read with hopen | ⟨hcloses, -⟩
      · rw [hclosed] at hopen
        cases hopen
      · exact hcloses
    · rintro ⟨hlive, hsome, herr, hreadable, hwritable, hwant, hcloses⟩
      obtain ⟨c, howner⟩ := Option.isSome_iff_exists.mp hsome
      obtain ⟨t, ht, heq⟩ := handleRead_of_closes (c := c) hlive hcloses
      refine ⟨hlive, herr, hreadable, hwritable, hwant, c, howner, ?_⟩
      rw [heq]
      exact ⟨ht, t.owner_closeConnection i fd⟩
  | accept | drainRequest | drainResponse | harvest => simp [WritesToClosed, KeepsOpen]

/-- A step outside the condition leaves an entry for a descriptor that nobody has open. -/
theorem not_tableMatches_next {input : ServerInput n} (hinput : ¬ srv.KeepsOpen s input) :
    ¬ (srv.machine.next s input).TableMatches := by
  rw [← writesToClosed_iff] at hinput
  cases input with
  | event i fd ev read write =>
    obtain ⟨hlive, herr, hreadable, hwritable, hwant, c, howner, hlive', hclosed⟩ := hinput
    have hnext : srv.machine.next s (.event i fd ev read write) =
        (srv.handleRead s i fd c read).1.handleWrite i fd write := by
      rw [Option.mem_def] at howner
      simp [Machine.next, machine, hlive, step, howner, handleEvent, herr, hreadable, hwritable,
        hwant, hlive']
    have hnone : (srv.handleRead s i fd c read).1.connections i fd = none := by
      rcases handleRead_open_or_closed howner read with hopen | ⟨-, hnone, -⟩
      · rw [hclosed] at hopen
        cases hopen
      · exact hnone
    intro hmatch
    rw [hnext] at hmatch
    rcases System.handleWrite_cases write with ⟨hsome, -⟩ | ⟨conn, htable⟩
    · exact hsome hnone
    · -- the inserting lookup has made an entry, and the descriptor is still closed
      have hentry : ((srv.handleRead s i fd c read).1.handleWrite i fd write).connections i fd ≠
          none := by
        rw [Ne, htable.entry, System.connections_setConnection, if_pos ⟨rfl, rfl⟩]
        simp
      exact (hmatch i fd).mp hentry ((htable.owner i fd).trans hclosed)
  | accept | drainRequest | drainResponse | harvest => exact hinput.elim

/-! ### Runs -/

/-- In a run from a fresh process the tables match the open descriptors after every step, and
no handler is run on a descriptor closed in the same event, exactly when no event reports a
connection readable and writable whose read closes it. -/
theorem tableAccurate_iff (hfresh : s.Fresh) (inputs : List (ServerInput n)) :
    srv.TableAccurate s inputs ↔ srv.machine.Within srv.KeepsOpen s inputs := by
  have htables : (∀ pre, pre <+: inputs → (srv.machine.exec s pre).TableMatches) ↔
      srv.machine.Within srv.KeepsOpen s inputs :=
    Machine.forall_exec_iff_within (I := System.TableMatches)
      (fun _ _ hs hinput => tableMatches_next hs hinput)
      (fun _ _ _ hinput => not_tableMatches_next hinput) hfresh.tableMatches
  constructor
  · intro h
    exact htables.mp h.tables
  · intro h
    refine ⟨htables.mpr h, h.mono fun s input hkeeps hwrites => ?_⟩
    exact writesToClosed_iff.mp hwrites hkeeps

end Server

namespace TwoReactors

/-- The client sends a second request while the response to the first is written, and hangs
up. -/
def served : List (ServerInput 2) :=
  [connect, arrive apiVersions, readAndWrite ⟨[0, 0, 0, 8] ++ apiVersions, .again⟩, hangUp]

/-- The client shuts its side down while the response is waiting. -/
def shutDown : List (ServerInput 2) :=
  [connect, arrive apiVersions, readAndWrite ⟨[], .endOfStream⟩]

end TwoReactors

open TwoReactors in
theorem tableAccurate_served : (server fun _ => 0).TableAccurate {} served :=
  (Server.tableAccurate_iff System.fresh_empty served).mpr (by decide +kernel)

open TwoReactors in
/-- At the end descriptor 7 is closed, and there is an entry for it. -/
theorem not_tableAccurate_shutDown : ¬ (server fun _ => 0).TableAccurate {} shutDown := by
  intro h
  have hentry : ((server fun _ => 0).machine.exec {} shutDown).connections 0 7 ≠ none := by
    decide +kernel
  have howner : ((server fun _ => 0).machine.exec {} shutDown).owner 0 7 = none := by
    decide +kernel
  exact (h.tables shutDown (List.prefix_refl _) 0 7).mp hentry howner

end TinyKafka
