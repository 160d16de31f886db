import TinyKafka.ForMathlib.Balance
import TinyKafka.Net.ResponseOrder

/-!
# What becomes of the requests

A request that has been read is answered on the spot, or waits in the queue of another reactor;
there it is handled, and its response waits in the queue of the reactor that read it, which puts
it into a buffer or drops it. `Server.accounted_run` is the account of all requests in every
run: each one is in exactly one of these places, or it has been given up because handling it
threw an exception or because its response was too long. No request is lost on the way and none
is answered twice, whatever the order of the steps.

`Server.settled_of_drained`: draining the queues as often as they are long leaves nothing
waiting.
-/

namespace TinyKafka

variable {n : ℕ}

/-! ### The places -/

/-- The request that the event says has been read. -/
def Event.readOrigin? : Event n → Option (Origin n)
  | .read origin => some origin
  | _ => none

/-- The request whose response the event says has been put into a buffer or dropped. -/
def Event.settledOrigin? : Event n → Option (Origin n)
  | .enqueued _ origin _ => some origin
  | .dropped origin => some origin
  | _ => none

/-- The requests read, according to the events. -/
def readOrigins (events : List (Event n)) : List (Origin n) :=
  events.filterMap Event.readOrigin?

/-- The requests whose responses have been put into buffers or dropped. -/
def settledOrigins (events : List (Event n)) : List (Origin n) :=
  events.filterMap Event.settledOrigin?

namespace System

/-- The requests on their way between the reactors, and those whose responses are. -/
def underway (s : System n) : Multiset (Origin n) :=
  inQueues ForwardedRequest.origin s.requests + inQueues ForwardedResponse.origin s.responses

/-- The account of a step: what is on its way before it and what it reads is settled, given up
or on its way after it. -/
def Balanced (s s' : System n) (events : List (Event n)) (lost : Option (Origin n)) : Prop :=
  s.underway + readOrigins events = settledOrigins events + lost.toList + s'.underway

variable {s s' s'' : System n} {i : Fin n}

theorem underway_congr (h : s'.requests = s.requests ∧ s'.responses = s.responses) :
    s'.underway = s.underway := by
  rw [underway, underway, h.1, h.2]

theorem underway_pushRequest (j : Fin n) (q : ForwardedRequest n) :
    (s.pushRequest j q).underway = s.underway + {q.origin} := by
  have hpush := inQueues_push ForwardedRequest.origin (f := s.requests) j q
  rw [underway, underway, add_right_comm, ← hpush]
  rfl

theorem underway_pushResponse (j : Fin n) (x : ForwardedResponse n) :
    (s.pushResponse j x).underway = s.underway + {x.origin} := by
  have hpush := inQueues_push ForwardedResponse.origin (f := s.responses) j x
  rw [underway, underway, add_assoc, ← hpush]
  rfl

theorem underway_popRequest {q : ForwardedRequest n} {rest : List (ForwardedRequest n)}
    (hq : s.requests i = q :: rest) :
    { s with requests := Function.update s.requests i rest }.underway + {q.origin} =
      s.underway := by
  rw [underway, underway, add_right_comm, inQueues_pop ForwardedRequest.origin hq]

theorem underway_popResponse {x : ForwardedResponse n} {rest : List (ForwardedResponse n)}
    (hx : s.responses i = x :: rest) :
    { s with responses := Function.update s.responses i rest }.underway + {x.origin} =
      s.underway := by
  rw [underway, underway, add_assoc, inQueues_pop ForwardedResponse.origin hx]

/-- Something that was on its way is settled. -/
theorem balanced_of_settled {events : List (Event n)} {origin : Origin n}
    (h : s'.underway + {origin} = s.underway) (hread : readOrigins events = [])
    (hsettled : settledOrigins events = [origin]) : Balanced s s' events none := by
  rw [Balanced, hread, hsettled, ← h]
  exact (add_zero _).trans (add_comm _ _)

/-- Something that was on its way is given up. -/
theorem balanced_of_lost {origin : Origin n} (h : s'.underway + {origin} = s.underway) :
    Balanced s s' [] (some origin) := by
  rw [Balanced, ← h]
  exact (add_zero _).trans (add_comm _ _)

/-- What is on its way stays on its way. -/
theorem balanced_of_moved (h : s'.underway = s.underway) : Balanced s s' [] none := by
  rw [Balanced, h]
  exact (add_zero _).trans (zero_add _).symm

/-- A step that has nothing to do with requests. -/
theorem balanced_of_eq (h : s'.requests = s.requests ∧ s'.responses = s.responses) :
    Balanced s s' [] none :=
  balanced_of_moved (underway_congr h)

theorem Balanced.of_eq {events : List (Event n)} {lost : Option (Origin n)}
    (hb : Balanced s s' events lost)
    (h : s''.requests = s'.requests ∧ s''.responses = s'.responses) :
    Balanced s s'' events lost := by
  rw [Balanced, underway_congr h]
  exact hb

end System

namespace Server

variable [NeZero n] (srv : Server n)

/-- Handling the request on reactor `i` brings nothing into the buffers: it throws, or the
response is too long. -/
def comesToNothing (s : System n) (i : Fin n) (env : BrokerEnv) (req : Request) : Bool :=
  (srv.handle s i env req).2.all fun resp =>
    decide (srv.maxWriteBufferBytes < (srv.serialize resp).length)

/-- The request that a step gives up. There is no limit for the response to a request that
came from another reactor. -/
def givenUp (s : System n) : ServerInput n → Option (Origin n)
  | .event i fd ev read _ =>
    if s.terminated ∨ ev.errHup ∨ ¬ ev.readable then none
    else
      (s.owner i fd).bind fun c => (srv.requestRead s i fd read).bind fun req =>
        if srv.router.target srv.records.metadata i req = i ∧
            srv.comesToNothing s i read.broker req then some ⟨c, s.reads⟩
        else none
  | .drainRequest i env =>
    if s.terminated then none
    else
      (s.requests i).head?.bind fun q =>
        if (srv.handle s i env q.request).2.isNone then some q.origin else none
  | .accept .. | .drainResponse _ | .harvest .. => none

variable {s : System n} {i : Fin n}

omit [NeZero n] in
/-- A request that is handled where it has been read. -/
theorem balanced_answerLocally (s₁ : System n)
    (hsame : s₁.requests = s.requests ∧ s₁.responses = s.responses) (fd : ℕ) (c : ConnId n)
    (origin : Origin n) (body : Bytes) (env : BrokerEnv) (req : Request) :
    System.Balanced s (srv.answerLocally s₁ i fd origin env req).1
      (.parsed c body :: .read origin :: (srv.answerLocally s₁ i fd origin env req).2)
      (if srv.comesToNothing s₁ i env req then some origin else none) := by
  obtain ⟨hrequests, hresponses⟩ := srv.queues_answerLocally s₁ i env req fd origin
  refine System.Balanced.of_eq ?_ ⟨hrequests.trans hsame.1, hresponses.trans hsame.2⟩
  rw [comesToNothing]
  rcases srv.answerLocally_cases s₁ i env req fd origin with
    ⟨hnone, heq⟩ | ⟨resp, hresp, ⟨hlong, heq⟩ | ⟨hfits, heq⟩⟩ <;> rw [heq]
  · rw [hnone]
    exact add_comm _ _
  · rw [hresp, Option.all_some, decide_eq_true hlong]
    exact add_comm _ _
  · rw [hresp, Option.all_some, decide_eq_false (not_lt.mpr hfits)]
    exact add_comm _ _

theorem balanced_handleRead (fd : ℕ) (c : ConnId n) (env : ReadEnv) :
    System.Balanced s (srv.handleRead s i fd c env).1 (srv.handleRead s i fd c env).2
      ((srv.requestRead s i fd env).bind fun req =>
        if srv.router.target srv.records.metadata i req = i ∧
            srv.comesToNothing s i env.broker req then some ⟨c, s.reads⟩
        else none) := by
  have hread := srv.readOutcome s i fd c env
  generalize srv.requestRead s i fd env = request at hread ⊢
  generalize srv.handleRead s i fd c env = out at hread ⊢
  cases hread with
  | waited => exact System.balanced_of_eq ⟨rfl, rfl⟩
  | closed => exact System.balanced_of_eq ⟨rfl, rfl⟩
  | refused => exact System.balanced_of_eq ⟨rfl, rfl⟩
  | forwarded r body sock req hframe hparse htarget =>
    rw [Option.bind_some, if_neg fun h => htarget h.1, System.Balanced,
      System.underway_pushRequest]
    exact (zero_add _).symm
  | handled r body sock req hframe hparse htarget =>
    have hbalanced := srv.balanced_answerLocally (s := s) (i := i) (counted s i fd r) ⟨rfl, rfl⟩ fd
      c ⟨c, s.reads⟩ body env.broker req
    have hsame : srv.comesToNothing (counted s i fd r) i env.broker req =
        srv.comesToNothing s i env.broker req := rfl
    simpa [htarget, hsame] using hbalanced

omit [NeZero n] in
theorem balanced_drainRequest (env : BrokerEnv) {q : ForwardedRequest n}
    {rest : List (ForwardedRequest n)} (hq : s.requests i = q :: rest) :
    System.Balanced s (srv.drainRequest s i env) []
      (if (srv.handle s i env q.request).2.isNone then some q.origin else none) := by
  have hpop := System.underway_popRequest hq
  rw [drainRequest, hq]
  dsimp only
  generalize hpopped : { s with requests := Function.update s.requests i rest } = popped at hpop ⊢
  have hval : (srv.handle s i env q.request).2 = (srv.handle popped i env q.request).2 := by
    rw [← hpopped]
    rfl
  have hqueues : (srv.handle popped i env q.request).1.underway = popped.underway :=
    System.underway_congr ⟨rfl, rfl⟩
  rw [hval]
  generalize srv.handle popped i env q.request = out at hqueues ⊢
  rw [← hqueues] at hpop
  obtain ⟨s', _ | resp⟩ := out
  · exact System.balanced_of_lost hpop
  · refine System.balanced_of_moved ?_
    rw [System.underway_pushResponse]
    exact hpop

omit [NeZero n] in
theorem balanced_drainResponse {x : ForwardedResponse n} {rest : List (ForwardedResponse n)}
    (hx : s.responses i = x :: rest) :
    System.Balanced s (drainResponse s i).1 (drainResponse s i).2 none := by
  have hpop := System.underway_popResponse hx
  obtain ⟨popped, rfl, ⟨-, hdrain⟩ | ⟨conn, -, hdrain⟩⟩ := drainResponse_cases s i hx <;>
    rw [hdrain]
  · exact System.balanced_of_settled hpop rfl rfl
  · refine System.balanced_of_settled ?_ rfl rfl
    rw [System.underway_congr System.sameWork_putResponse.queues]
    exact hpop

theorem balanced_next (input : ServerInput n) :
    System.Balanced s (srv.machine.next s input) (srv.machine.out s input)
      (srv.givenUp s input) := by
  rw [Machine.next, Machine.out]
  by_cases hterm : s.terminated = true
  · have hnone : srv.givenUp s input = none := by cases input <;> simp [givenUp, hterm]
    rw [srv.machine_step_of_terminated s input hterm, hnone]
    exact System.balanced_of_eq ⟨rfl, rfl⟩
  rw [srv.machine_step s input hterm]
  cases input with
  | accept i fd ok =>
    refine System.balanced_of_eq ?_
    rw [step, System.handleAccept]
    split <;> exact ⟨rfl, rfl⟩
  | event i fd ev read write =>
    rw [step, givenUp]
    rcases s.owner i fd with _ | c
    · rw [Option.bind_none, ite_self]
      exact System.balanced_of_eq ⟨rfl, rfl⟩
    by_cases herr : ev.errHup = true
    · rw [if_pos (.inr (.inl herr))]
      dsimp only
      rw [handleEvent, if_pos herr]
      exact System.balanced_of_eq ⟨rfl, rfl⟩
    have hread : System.Balanced s (srv.readPart s i fd c ev read).1
        (srv.readPart s i fd c ev read).2
        (if s.terminated ∨ ev.errHup ∨ ¬ ev.readable then none
        else
          (srv.requestRead s i fd read).bind fun req =>
            if srv.router.target srv.records.metadata i req = i ∧
                srv.comesToNothing s i read.broker req then some ⟨c, s.reads⟩
            else none) := by
      rw [readPart]
      by_cases hreadable : ev.readable = true
      · have hcond : ¬ (s.terminated = true ∨ ev.errHup = true ∨ ¬ ev.readable = true) := by
          simp [hterm, herr, hreadable]
        rw [if_pos hreadable, if_neg hcond]
        exact srv.balanced_handleRead fd c read
      · rw [if_neg hreadable, if_pos (.inr (.inr hreadable))]
        exact System.balanced_of_eq ⟨rfl, rfl⟩
    rcases srv.handleEvent_cases s i fd c read write herr with heq | heq <;> dsimp only <;> rw [heq]
    · exact hread
    · exact hread.of_eq System.sameWork_handleWrite.queues
  | drainRequest i env =>
    rw [step, givenUp, if_neg hterm]
    rcases hq : s.requests i with _ | ⟨q, rest⟩
    · rw [srv.drainRequest_nil s i env hq]
      exact System.balanced_of_eq ⟨rfl, rfl⟩
    exact srv.balanced_drainRequest env hq
  | drainResponse i =>
    rw [step, givenUp]
    rcases hx : s.responses i with _ | ⟨x, rest⟩
    · rw [drainResponse, hx]
      exact System.balanced_of_eq ⟨rfl, rfl⟩
    exact balanced_drainResponse hx
  | harvest i k written => exact System.balanced_of_eq System.sameWork_harvest.queues

/-! ### Every request is read once -/

omit [NeZero n] in
theorem reads_answerLocally (fd : ℕ) (origin : Origin n) (env : BrokerEnv) (req : Request) :
    (srv.answerLocally s i fd origin env req).1.reads = s.reads ∧
      readOrigins (srv.answerLocally s i fd origin env req).2 = [] := by
  rcases srv.answerLocally_cases s i env req fd origin with
    ⟨-, heq⟩ | ⟨_, -, ⟨-, heq⟩ | ⟨-, heq⟩⟩ <;> rw [heq]
  · exact ⟨rfl, rfl⟩
  · exact ⟨rfl, rfl⟩
  · obtain ⟨_, _, _, _, hput⟩ := System.sameWork_putResponse
    rw [hput]
    exact ⟨rfl, rfl⟩

/-- At most one request has been read, and it got the next number. -/
def CountsRead (s s' : System n) (events : List (Event n)) : Prop :=
  s'.reads = s.reads ∧ readOrigins events = [] ∨
    s'.reads = s.reads + 1 ∧ ∃ c, readOrigins events = [⟨c, s.reads⟩]

theorem countsRead_handleRead (fd : ℕ) (c : ConnId n) (env : ReadEnv) :
    CountsRead s (srv.handleRead s i fd c env).1 (srv.handleRead s i fd c env).2 := by
  have hread := srv.readOutcome s i fd c env
  generalize srv.requestRead s i fd env = request at hread
  generalize srv.handleRead s i fd c env = out at hread ⊢
  cases hread with
  | waited => exact .inl ⟨rfl, rfl⟩
  | closed => exact .inl ⟨rfl, rfl⟩
  | refused => exact .inl ⟨rfl, rfl⟩
  | forwarded => exact .inr ⟨rfl, c, rfl⟩
  | handled r body sock req =>
    obtain ⟨hreads, hevents⟩ := srv.reads_answerLocally (s := counted s i fd r) (i := i)
      fd ⟨c, s.reads⟩ env.broker req
    exact .inr ⟨hreads, c, congrArg (List.cons (⟨c, s.reads⟩ : Origin n)) hevents⟩

theorem countsRead_next (input : ServerInput n) :
    CountsRead s (srv.machine.next s input) (srv.machine.out s input) := by
  have hstep := srv.serverStep s input
  rw [Machine.next, Machine.out]
  generalize srv.machine.step s input = out at hstep ⊢
  have hpart (i : Fin n) (fd : ℕ) (c : ConnId n) (ev : EpollEvent) (read : ReadEnv) :
      CountsRead s (srv.readPart s i fd c ev read).1 (srv.readPart s i fd c ev read).2 := by
    rw [readPart]
    split
    · exact srv.countsRead_handleRead fd c read
    · exact .inl ⟨rfl, rfl⟩
  cases hstep with
  | idle => exact .inl ⟨rfl, rfl⟩
  | accepted i fd hfree =>
    rw [System.handleAccept, if_pos ⟨rfl, hfree⟩]
    exact .inl ⟨rfl, rfl⟩
  | hungUp => exact .inl ⟨rfl, rfl⟩
  | event i fd c ev read => exact hpart i fd c ev read
  | eventWrite i fd c ev read write =>
    have hsame : (srv.readPart s i fd c ev read).1.SameWork
        ((srv.readPart s i fd c ev read).1.handleWrite i fd write) := System.sameWork_handleWrite
    obtain ⟨_, _, _, _, hwrite⟩ := hsame
    rw [hwrite]
    exact hpart i fd c ev read
  | requestDrained i env q rest hq =>
    obtain ⟨popped, rfl, hdrain | ⟨resp, hdrain⟩⟩ := srv.drainRequest_cases s i env hq <;>
      rw [hdrain] <;> exact .inl ⟨rfl, rfl⟩
  | responseDrained i x rest hx =>
    obtain ⟨popped, rfl, ⟨-, hdrain⟩ | ⟨conn, -, hdrain⟩⟩ := drainResponse_cases s i hx <;>
      rw [hdrain]
    · exact .inl ⟨rfl, rfl⟩
    · obtain ⟨_, _, _, _, hput⟩ := System.sameWork_putResponse
      rw [hput]
      exact .inl ⟨rfl, rfl⟩
  | harvested =>
    obtain ⟨_, _, _, _, hharvest⟩ := System.sameWork_harvest
    rw [hharvest]
    exact .inl ⟨rfl, rfl⟩

omit [NeZero n] in
theorem readOrigins_append (events events' : List (Event n)) :
    readOrigins (events ++ events') = readOrigins events ++ readOrigins events' :=
  List.filterMap_append

/-- The requests of a run have increasing numbers. -/
theorem pairwise_readOrigins (inputs : List (ServerInput n)) :
    (readOrigins (allEvents (srv.machine.trace s inputs))).Pairwise
      fun a b => a.number < b.number := by
  have hinv := Machine.invariant_trace_all (M := srv.machine)
    (I := fun h s => (readOrigins (allEvents h)).Pairwise (fun a b => a.number < b.number) ∧
      ∀ o ∈ readOrigins (allEvents h), o.number < s.reads) (h := []) (s := s) ?_
    ⟨List.Pairwise.nil, by simp [readOrigins, allEvents]⟩ inputs
  · exact hinv.1
  rintro h s input ⟨hsorted, hbound⟩
  rw [allEvents_snoc, readOrigins_append]
  rcases srv.countsRead_next (s := s) input with ⟨hreads, hnone⟩ | ⟨hreads, c, hone⟩
  · rw [hnone, hreads, List.append_nil]
    exact ⟨hsorted, hbound⟩
  · rw [hone, hreads]
    refine ⟨List.pairwise_append.mpr ⟨hsorted, List.pairwise_singleton _ _, ?_⟩, ?_⟩
    · intro a ha b hb
      rw [List.mem_singleton.mp hb]
      exact hbound a ha
    · intro o ho
      rcases List.mem_append.mp ho with ho | ho
      · exact Nat.lt_succ_of_lt (hbound o ho)
      · rw [List.mem_singleton.mp ho]
        exact Nat.lt_succ_self _

/-! ### The account of a run -/

/-- All requests of a run are different, and each of them has been settled (once), has been
given up, or is on its way. -/
structure Accounted (s : System n) (inputs : List (ServerInput n)) : Prop where
  once : (readOrigins (allEvents (srv.machine.trace s inputs))).Nodup
  balance : (readOrigins (allEvents (srv.machine.trace s inputs)) : Multiset (Origin n)) =
    settledOrigins (allEvents (srv.machine.trace s inputs)) +
      srv.machine.observed srv.givenUp s inputs + (srv.machine.exec s inputs).underway

theorem balance_of_run (inputs : List (ServerInput n)) :
    s.underway + readOrigins (allEvents (srv.machine.trace s inputs)) =
      settledOrigins (allEvents (srv.machine.trace s inputs)) +
        srv.machine.observed srv.givenUp s inputs + (srv.machine.exec s inputs).underway := by
  have hrun := Machine.balance_run (M := srv.machine) (c := System.underway)
    (f := fun s input => (readOrigins (srv.machine.out s input) : Multiset (Origin n)))
    (g := fun s input => (settledOrigins (srv.machine.out s input) : Multiset (Origin n)) +
      ((srv.givenUp s input).toList : Multiset (Origin n)))
    (fun s input => srv.balanced_next input) s inputs
  rw [Machine.total_add, ← Machine.coe_observed, ← Machine.coe_flatMap_trace,
    ← Machine.coe_flatMap_trace] at hrun
  rw [allEvents, readOrigins, settledOrigins, List.filterMap_flatMap, List.filterMap_flatMap]
  exact hrun

omit [NeZero n] in
theorem underway_eq_zero (hrequests : ∀ i, s.requests i = [])
    (hresponses : ∀ i, s.responses i = []) : s.underway = 0 := by
  simp [System.underway, inQueues, hrequests, hresponses]

theorem nodup_readOrigins (inputs : List (ServerInput n)) :
    (readOrigins (allEvents (srv.machine.trace s inputs))).Nodup := by
  refine (srv.pairwise_readOrigins inputs).imp fun hlt heq => ?_
  rw [heq] at hlt
  exact lt_irrefl _ hlt

theorem balance_of_fresh (hfresh : s.Fresh) (inputs : List (ServerInput n)) :
    (readOrigins (allEvents (srv.machine.trace s inputs)) : Multiset (Origin n)) =
      settledOrigins (allEvents (srv.machine.trace s inputs)) +
        srv.machine.observed srv.givenUp s inputs + (srv.machine.exec s inputs).underway := by
  have hbalance := srv.balance_of_run (s := s) inputs
  rwa [underway_eq_zero hfresh.requests hfresh.responses, zero_add] at hbalance

/-- **No request is lost or answered twice**, in any run from a fresh process. -/
theorem accounted_run (hfresh : s.Fresh) (inputs : List (ServerInput n)) :
    srv.Accounted s inputs :=
  ⟨srv.nodup_readOrigins inputs, srv.balance_of_fresh hfresh inputs⟩

/-! ### Draining the queues -/

/-- A process that has ended stays as it is. -/
theorem terminated_exec (inputs : List (ServerInput n)) (h : s.terminated = true) :
    srv.machine.exec s inputs = s := by
  induction inputs with
  | nil => rfl
  | cons input inputs ih =>
    have hnext : srv.machine.next s input = s :=
      congrArg Prod.fst (srv.machine_step_of_terminated s input h)
    rw [Machine.exec_cons, hnext, ih]

/-- A process that has not ended has not ended before. -/
theorem not_terminated_of_exec (inputs : List (ServerInput n))
    (h : ¬ (srv.machine.exec s inputs).terminated = true) : ¬ s.terminated = true := by
  intro hterm
  rw [srv.terminated_exec inputs hterm] at h
  exact h hterm

theorem requests_next_drainRequest (hterm : ¬ s.terminated = true) (j : Fin n)
    (env : BrokerEnv) :
    (srv.machine.next s (.drainRequest j env)).requests =
      Function.update s.requests j (s.requests j).tail := by
  rw [Machine.next, srv.machine_step s _ hterm, step]
  rcases hq : s.requests j with _ | ⟨q, rest⟩
  · rw [srv.drainRequest_nil s j env hq, List.tail_nil, ← hq, Function.update_eq_self]
  · obtain ⟨popped, rfl, hdrain | ⟨resp, hdrain⟩⟩ := srv.drainRequest_cases s j env hq <;>
      rw [hdrain] <;> rfl

/-- Draining takes the requests off the queues in order, whichever reactor drains when. -/
theorem requests_drains (drains : List (Fin n × BrokerEnv)) (i : Fin n)
    (hterm : ¬ (srv.machine.exec s (drains.map fun d => .drainRequest d.1 d.2)).terminated = true) :
    (srv.machine.exec s (drains.map fun d => .drainRequest d.1 d.2)).requests i =
      (s.requests i).drop ((drains.map Prod.fst).count i) := by
  induction drains generalizing s with
  | nil => rfl
  | cons d drains ih =>
    have hnow := srv.not_terminated_of_exec (_ :: _) hterm
    rw [List.map_cons, Machine.exec_cons, ih hterm, srv.requests_next_drainRequest hnow,
      update_tail_apply, List.drop_drop, List.map_cons, List.count_cons, add_comm]

theorem next_drainResponse (hterm : ¬ s.terminated = true) (j : Fin n) :
    (srv.machine.next s (.drainResponse j)).responses =
        Function.update s.responses j (s.responses j).tail ∧
      (srv.machine.next s (.drainResponse j)).requests = s.requests := by
  rw [Machine.next, srv.machine_step s _ hterm, step]
  rcases hx : s.responses j with _ | ⟨x, rest⟩
  · have hidle : (drainResponse s j).1 = s := by rw [drainResponse, hx]
    rw [hidle, List.tail_nil, ← hx, Function.update_eq_self]
    exact ⟨rfl, rfl⟩
  · obtain ⟨popped, rfl, ⟨-, hdrain⟩ | ⟨conn, -, hdrain⟩⟩ := drainResponse_cases s j hx <;>
      rw [hdrain]
    · exact ⟨rfl, rfl⟩
    · obtain ⟨hrequests, hresponses⟩ := System.sameWork_putResponse.queues
      rw [hrequests, hresponses]
      exact ⟨rfl, rfl⟩

theorem responses_drains (drains : List (Fin n)) (i : Fin n)
    (hterm : ¬ (srv.machine.exec s (drains.map .drainResponse)).terminated = true) :
    (srv.machine.exec s (drains.map .drainResponse)).responses i =
        (s.responses i).drop (drains.count i) ∧
      (srv.machine.exec s (drains.map .drainResponse)).requests = s.requests := by
  induction drains generalizing s with
  | nil => exact ⟨rfl, rfl⟩
  | cons d drains ih =>
    have hnow := srv.not_terminated_of_exec (_ :: _) hterm
    obtain ⟨hresponses, hrequests⟩ := ih hterm
    obtain ⟨hfirst, hfirstRequests⟩ := srv.next_drainResponse hnow d
    rw [List.map_cons, Machine.exec_cons, hresponses, hrequests, hfirst, hfirstRequests,
      update_tail_apply, List.drop_drop, List.count_cons, add_comm]
    exact ⟨rfl, rfl⟩

/-- A run, then drains of the requests and then of the responses. -/
def drained (inputs : List (ServerInput n)) (requests : List (Fin n × BrokerEnv))
    (responses : List (Fin n)) : List (ServerInput n) :=
  (inputs ++ requests.map fun d => .drainRequest d.1 d.2) ++ responses.map .drainResponse

/-- **Every request comes to an end.** After any run, drain every queue of requests and then
every queue of responses as often as it is long, in any order of the reactors: then each request
that has ever been read has been settled, exactly once, or given up. -/
theorem settled_of_drained (hfresh : s.Fresh) (inputs : List (ServerInput n))
    (requests : List (Fin n × BrokerEnv)) (responses : List (Fin n))
    (hrequests : ∀ i, ((srv.machine.exec s inputs).requests i).length ≤
      (requests.map Prod.fst).count i)
    (hresponses : ∀ i, ((srv.machine.exec s
        (inputs ++ requests.map fun d => .drainRequest d.1 d.2)).responses i).length ≤
      responses.count i)
    (hterm : (srv.machine.exec s (drained inputs requests responses)).terminated = false) :
    (readOrigins (allEvents (srv.machine.trace s (drained inputs requests responses)))).Nodup ∧
      (readOrigins (allEvents (srv.machine.trace s (drained inputs requests responses)))).Perm
        (settledOrigins (allEvents (srv.machine.trace s (drained inputs requests responses))) ++
          srv.machine.observed srv.givenUp s (drained inputs requests responses)) := by
  refine ⟨srv.nodup_readOrigins _, Multiset.coe_eq_coe.mp ?_⟩
  rw [srv.balance_of_fresh hfresh, ← Multiset.coe_add]
  have hend : ¬ (srv.machine.exec s (drained inputs requests responses)).terminated = true := by
    simp [hterm]
  rw [drained, Machine.exec_append] at hend
  have hmid := srv.not_terminated_of_exec _ hend
  rw [Machine.exec_append] at hmid
  have hempty (i : Fin n) :
      (srv.machine.exec s (drained inputs requests responses)).requests i = [] ∧
        (srv.machine.exec s (drained inputs requests responses)).responses i = [] := by
    obtain ⟨hlast, hsame⟩ := srv.responses_drains responses i hend
    rw [drained, Machine.exec_append, hlast, hsame, List.drop_eq_nil_iff.mpr (hresponses i),
      Machine.exec_append, srv.requests_drains requests i hmid,
      List.drop_eq_nil_iff.mpr (hrequests i)]
    exact ⟨rfl, rfl⟩
  rw [underway_eq_zero (fun i => (hempty i).1) fun i => (hempty i).2, add_zero]

end Server

open TwoReactors in
/-- A request is forwarded and answered, its client hangs up, and the response is dropped. -/
theorem accounted_hungUp :
    (server fun _ => 0).Accounted {} (run produceZero ++ [hangUp, deliver]) :=
  Server.accounted_run _ System.fresh_empty _

open TwoReactors in
theorem settled_produceZero :
    (readOrigins (allEvents ((server fun _ => 0).machine.trace {}
      (Server.drained [connect, arrive produceZero] [(1, idleBroker)] [0])))).Perm
      [⟨⟨0, 0⟩, 0⟩] := by
  have hperm := ((server fun _ => 0).settled_of_drained System.fresh_empty
    [connect, arrive produceZero] [(1, idleBroker)] [0] (by decide +kernel) (by decide +kernel)
    (by decide +kernel)).2
  have hsettled : settledOrigins (allEvents ((server fun _ => 0).machine.trace {}
      (Server.drained [connect, arrive produceZero] [(1, idleBroker)] [0]))) ++
        (server fun _ => 0).machine.observed (server fun _ => 0).givenUp {}
          (Server.drained [connect, arrive produceZero] [(1, idleBroker)] [0]) =
      [⟨⟨0, 0⟩, 0⟩] := by decide +kernel
  rwa [hsettled] at hperm

end TinyKafka
