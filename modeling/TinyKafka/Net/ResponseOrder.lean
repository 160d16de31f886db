import TinyKafka.Net.Ownership

/-!
# The order of the responses on a connection

A request that is forwarded leaves nothing behind in the buffers of its connection. Its
response comes back through two queues, while the response to a request that is handled on
the spot is in the buffers at once. So the responses to pipelined requests keep the order of
the requests only if a request never overtakes an earlier one (`responsesInOrder_of_inTurn`).

The invariant follows one connection: the responses that have been put into its buffers, then
those that wait in the queue of its reactor, then the requests that wait at another reactor
are, in this order, among the requests read from it.
-/

namespace TinyKafka

variable {n : ℕ}

/-- The numbers of the requests read from the connection, in order. -/
def readNumbers (c : ConnId n) (events : List (Event n)) : List ℕ :=
  events.filterMap fun
    | .read origin => if origin.conn = c then some origin.number else none
    | _ => none

/-- The numbers of the requests from the connection whose responses are put into the buffers
of the connection, in order. -/
def enqueuedNumbers (c : ConnId n) (events : List (Event n)) : List ℕ :=
  events.filterMap fun
    | .enqueued on origin _ => if on = some c ∧ origin.conn = c then some origin.number else none
    | _ => none

/-- On every connection the responses come in the order of the requests. -/
def ResponsesInOrder (events : List (Event n)) : Prop :=
  ∀ c, (enqueuedNumbers c events).Sublist (readNumbers c events)

/-- All events of a run. -/
def allEvents (trace : List (ServerInput n × List (Event n))) : List (Event n) :=
  trace.flatMap Prod.snd

theorem allEvents_snoc (trace : List (ServerInput n × List (Event n))) (input : ServerInput n)
    (events : List (Event n)) :
    allEvents (trace ++ [(input, events)]) = allEvents trace ++ events := by
  simp [allEvents]

/-- The numbers of the connection's requests that wait at reactor `j`. -/
def waitingRequests (s : System n) (c : ConnId n) (j : Fin n) : List ℕ :=
  (s.requests j).filterMap fun q => if q.origin.conn = c then some q.origin.number else none

/-- The numbers of the connection's requests whose responses wait at its reactor. -/
def waitingResponses (s : System n) (c : ConnId n) : List ℕ :=
  (s.responses c.reactor).filterMap fun x =>
    if x.origin.conn = c then some x.origin.number else none

namespace Server

variable [NeZero n] (srv : Server n)

/-- If the step reads a request from a connection, then the requests of the connection that
still wait are at the reactor this one goes to; and if it is handled on the spot, nothing of
the connection waits, neither a request nor a response. -/
def ReadsInTurn (s : System n) : ServerInput n → Prop
  | .event i fd ev read _ =>
    ev.errHup = false → ev.readable = true → ∀ c ∈ s.owner i fd,
      ∀ req ∈ srv.requestRead s i fd read,
        (∀ j, ∀ q ∈ s.requests j, q.origin.conn = c →
          j = srv.router.target srv.records.metadata i req ∧ j ≠ i) ∧
        (srv.router.target srv.records.metadata i req = i →
          ∀ x ∈ s.responses i, x.origin.conn ≠ c)
  | .accept .. | .drainRequest .. | .drainResponse .. | .harvest .. => True

instance (s : System n) : (input : ServerInput n) → Decidable (srv.ReadsInTurn s input)
  | .event _ _ _ _ _ =>
    inferInstanceAs (Decidable (_ → _ → ∀ c ∈ (_ : Option (ConnId n)),
      ∀ req ∈ (_ : Option Request), _ ∧ _))
  | .accept .. | .drainRequest .. | .drainResponse .. | .harvest .. => .isTrue trivial

end Server

/-- The invariant. The connection's requests wait at one reactor at most, `j`. -/
def Pipelined (events : List (Event n)) (s : System n) (c : ConnId n) : Prop :=
  ∃ j, (∀ j', j' ≠ j → waitingRequests s c j' = []) ∧
    (enqueuedNumbers c events ++ waitingResponses s c ++ waitingRequests s c j).Sublist
      (readNumbers c events)

/-! ### Events and queues -/

section Numbers

variable {c : ConnId n} {s s' : System n} {events : List (Event n)}

theorem readNumbers_append (events events' : List (Event n)) :
    readNumbers c (events ++ events') = readNumbers c events ++ readNumbers c events' :=
  List.filterMap_append

theorem enqueuedNumbers_append (events events' : List (Event n)) :
    enqueuedNumbers c (events ++ events') =
      enqueuedNumbers c events ++ enqueuedNumbers c events' :=
  List.filterMap_append

theorem waitingRequests_eq_nil {j : Fin n} (h : ∀ q ∈ s.requests j, q.origin.conn ≠ c) :
    waitingRequests s c j = [] := by
  refine List.filterMap_eq_nil_iff.mpr fun q hq => ?_
  rw [if_neg (h q hq)]

theorem waitingResponses_eq_nil (h : ∀ x ∈ s.responses c.reactor, x.origin.conn ≠ c) :
    waitingResponses s c = [] := by
  refine List.filterMap_eq_nil_iff.mpr fun x hx => ?_
  rw [if_neg (h x hx)]

theorem waitingRequests_cons {j : Fin n} {q : ForwardedRequest n}
    {rest : List (ForwardedRequest n)} (h : s.requests j = q :: rest)
    (h' : s'.requests j = rest) :
    waitingRequests s c j =
      (if q.origin.conn = c then [q.origin.number] else []) ++ waitingRequests s' c j := by
  rw [waitingRequests, waitingRequests, h, h', List.filterMap_cons]
  split <;> simp_all

theorem waitingResponses_cons {x : ForwardedResponse n} {rest : List (ForwardedResponse n)}
    (h : s.responses c.reactor = x :: rest) (h' : s'.responses c.reactor = rest) :
    waitingResponses s c =
      (if x.origin.conn = c then [x.origin.number] else []) ++ waitingResponses s' c := by
  rw [waitingResponses, waitingResponses, h, h', List.filterMap_cons]
  split <;> simp_all

/-- Nothing that concerns the order has happened: at most something has left the queues. -/
theorem Pipelined.mono (h : Pipelined events s c) {events' : List (Event n)}
    (henqueued : enqueuedNumbers c events' = [])
    (hresponses : (waitingResponses s' c).Sublist (waitingResponses s c))
    (hrequests : ∀ j, (waitingRequests s' c j).Sublist (waitingRequests s c j)) :
    Pipelined (events ++ events') s' c := by
  obtain ⟨j, hone, hsub⟩ := h
  refine ⟨j, fun j' hj' => ?_, ?_⟩
  · have hnil := hrequests j'
    rw [hone j' hj'] at hnil
    exact List.sublist_nil.mp hnil
  · rw [enqueuedNumbers_append, henqueued, List.append_nil, readNumbers_append]
    have hqueues := ((List.Sublist.refl (enqueuedNumbers c events)).append hresponses).append
      (hrequests j)
    exact (hqueues.trans hsub).trans (List.sublist_append_left _ _)

/-- Input and output leave the order alone. -/
theorem Pipelined.of_sameWork (h : Pipelined events s c) (hsame : s.SameWork s')
    {events' : List (Event n)} (henqueued : enqueuedNumbers c events' = []) :
    Pipelined (events ++ events') s' c := by
  obtain ⟨_, _, _, _, rfl⟩ := hsame
  exact h.mono henqueued (List.Sublist.refl _) fun _ => List.Sublist.refl _

theorem Pipelined.of_sameWork_nil (h : Pipelined events s c) (hsame : s.SameWork s') :
    Pipelined events s' c := by
  have h' : Pipelined (events ++ []) s' c := h.of_sameWork hsame rfl
  rwa [List.append_nil] at h'

end Numbers

/-! ### Steps -/

section Steps

variable {s : System n} {events : List (Event n)} {c : ConnId n}

/-- What is reported of a request that is read, and perhaps answered, concerns its connection
only. -/
theorem numbers_of_ne {c₀ : ConnId n} (hne : c₀ ≠ c) (number : ℕ) (body : Bytes)
    {rest : List (Event n)}
    (hrest : rest = [] ∨ ∃ on, rest = [.enqueued on ⟨c₀, number⟩ false]) :
    enqueuedNumbers c (.parsed c₀ body :: .read ⟨c₀, number⟩ :: rest) = [] := by
  rcases hrest with rfl | ⟨on, rfl⟩ <;> simp [enqueuedNumbers, hne]

/-- A request goes to the reactor where the earlier ones of its connection wait. -/
theorem Pipelined.forward (h : Pipelined events s c) {s' : System n} {j : Fin n}
    {q : ForwardedRequest n} (hrequests : s'.requests = s.requests)
    (hresponses : s'.responses = s.responses)
    (hturn : ∀ j', ∀ q' ∈ s.requests j', q'.origin.conn = q.origin.conn → j' = j)
    (body : Bytes) :
    Pipelined (events ++ [.parsed q.origin.conn body, .read q.origin]) (s'.pushRequest j q) c := by
  have hpush (j' : Fin n) : waitingRequests (s'.pushRequest j q) c j' =
      waitingRequests s c j' ++
        if j' = j ∧ q.origin.conn = c then [q.origin.number] else [] := by
    rw [waitingRequests, waitingRequests, System.pushRequest]
    dsimp only
    rw [hrequests]
    rcases eq_or_ne j' j with rfl | hne
    · rw [Function.update_self, List.filterMap_append]
      split <;> simp_all
    · rw [Function.update_of_ne hne, if_neg fun hc => hne hc.1, List.append_nil]
  have hresp : waitingResponses (s'.pushRequest j q) c = waitingResponses s c := by
    rw [waitingResponses, waitingResponses, System.pushRequest]
    dsimp only
    rw [hresponses]
  have henq : enqueuedNumbers c [.parsed q.origin.conn body, .read q.origin] = [] := rfl
  by_cases hc : q.origin.conn = c
  · obtain ⟨j₀, hone, hsub⟩ := h
    have hother (j' : Fin n) (hj' : j' ≠ j) : waitingRequests s c j' = [] :=
      waitingRequests_eq_nil fun q' hq' hqc => hj' (hturn j' q' hq' (hqc.trans hc.symm))
    -- Where something waited before is the reactor the request goes to.
    have hall : (enqueuedNumbers c events ++ waitingResponses s c ++
        waitingRequests s c j).Sublist (readNumbers c events) := by
      rcases eq_or_ne j j₀ with rfl | hne
      · exact hsub
      · rw [hone j hne, List.append_nil]
        exact (List.sublist_append_left _ _).trans hsub
    refine ⟨j, fun j' hj' => ?_, ?_⟩
    · rw [hpush, hother j' hj', if_neg fun hc => hj' hc.1, List.append_nil]
    · have hread : readNumbers c [.parsed q.origin.conn body, .read q.origin] =
          [q.origin.number] := by simp [readNumbers, hc]
      rw [hpush, if_pos ⟨rfl, hc⟩, hresp, enqueuedNumbers_append, henq, List.append_nil,
        readNumbers_append, hread, ← List.append_assoc]
      exact hall.append (List.Sublist.refl _)
  · refine h.mono henq ?_ fun j' => ?_
    · rw [hresp]
    · rw [hpush, if_neg fun hcc => hc hcc.2, List.append_nil]

/-- A request is answered on the spot when nothing of its connection waits. -/
theorem Pipelined.answer (h : Pipelined events s c) {s' : System n} (origin : Origin n)
    (hrequests : s'.requests = s.requests) (hresponses : s'.responses = s.responses)
    (hturn : ∀ j, ∀ q ∈ s.requests j, q.origin.conn ≠ origin.conn)
    (hidle : ∀ x ∈ s.responses origin.conn.reactor, x.origin.conn ≠ origin.conn)
    (body : Bytes) {rest : List (Event n)}
    (hrest : rest = [] ∨ ∃ on, rest = [.enqueued on origin false]) :
    Pipelined (events ++ .parsed origin.conn body :: .read origin :: rest) s' c := by
  have hreq (j : Fin n) : waitingRequests s' c j = waitingRequests s c j := by
    rw [waitingRequests, hrequests]
    rfl
  have hresp : waitingResponses s' c = waitingResponses s c := by
    rw [waitingResponses, hresponses]
    rfl
  by_cases hc : origin.conn = c
  · subst hc
    obtain ⟨j, -, hsub⟩ := h
    have hnone (j' : Fin n) : waitingRequests s origin.conn j' = [] :=
      waitingRequests_eq_nil (hturn j')
    rw [waitingResponses_eq_nil hidle, hnone j, List.append_nil, List.append_nil] at hsub
    refine ⟨j, fun j' _ => by rw [hreq, hnone], ?_⟩
    rw [hreq, hnone, hresp, waitingResponses_eq_nil hidle, List.append_nil, List.append_nil,
      enqueuedNumbers_append, readNumbers_append]
    refine hsub.append ?_
    rcases hrest with rfl | ⟨on, rfl⟩
    · exact List.nil_sublist _
    · by_cases hon : on = some origin.conn <;> simp [enqueuedNumbers, readNumbers, hon]
  · refine h.mono (numbers_of_ne hc origin.number body hrest) ?_ fun j => ?_
    · rw [hresp]
    · rw [hreq]

/-- The first request of a queue is handled; its response, if there is one, goes to the end of
a queue of responses. -/
theorem Pipelined.relay (h : Pipelined events s c) {s' : System n} {i : Fin n}
    {q : ForwardedRequest n} {rest : List (ForwardedRequest n)} (hq : s.requests i = q :: rest)
    (hrequests : s'.requests = Function.update s.requests i rest)
    (hresponses : s'.responses = s.responses ∨ ∃ x : ForwardedResponse n, x.origin = q.origin ∧
      s'.responses = Function.update s.responses q.sourceReactorId
        (s.responses q.sourceReactorId ++ [x])) :
    Pipelined events s' c := by
  have hhead : waitingRequests s c i =
      (if q.origin.conn = c then [q.origin.number] else []) ++ waitingRequests s' c i :=
    waitingRequests_cons hq (by rw [hrequests, Function.update_self])
  have hother (j : Fin n) (hj : j ≠ i) : waitingRequests s' c j = waitingRequests s c j := by
    rw [waitingRequests, waitingRequests, hrequests, Function.update_of_ne hj]
  have hresp : (waitingResponses s' c).Sublist
      (waitingResponses s c ++ if q.origin.conn = c then [q.origin.number] else []) := by
    rcases hresponses with hsame | ⟨x, hx, hpush⟩
    · rw [waitingResponses, hsame]
      exact List.sublist_append_left _ _
    · rw [waitingResponses, hpush]
      rcases eq_or_ne c.reactor q.sourceReactorId with heq | hne
      · rw [heq, Function.update_self, List.filterMap_append, waitingResponses, heq]
        refine (List.Sublist.refl _).append ?_
        rw [List.filterMap_cons, hx]
        split <;> simp_all
      · rw [Function.update_of_ne hne]
        exact List.sublist_append_left _ _
  obtain ⟨j, hone, hsub⟩ := h
  by_cases hc : q.origin.conn = c
  · -- the number moves from the front of the requests to the end of the responses
    rw [if_pos hc] at hhead hresp
    obtain rfl : j = i := by
      by_contra hne
      have hnil := hone i (Ne.symm hne)
      rw [hhead] at hnil
      cases hnil
    refine ⟨j, fun j' hj' => by rw [hother j' hj', hone j' hj'], ?_⟩
    rw [hhead, ← List.append_assoc, List.append_assoc _ _ [q.origin.number]] at hsub
    exact (((List.Sublist.refl _).append hresp).append (List.Sublist.refl _)).trans hsub
  · rw [if_neg hc, List.nil_append] at hhead
    rw [if_neg hc, List.append_nil] at hresp
    have hreq (j' : Fin n) : waitingRequests s' c j' = waitingRequests s c j' := by
      rcases eq_or_ne j' i with rfl | hne
      · exact hhead.symm
      · exact hother j' hne
    refine ⟨j, fun j' hj' => by rw [hreq, hone j' hj'], ?_⟩
    rw [hreq]
    exact (((List.Sublist.refl _).append hresp).append (List.Sublist.refl _)).trans hsub

/-- The first response of a queue is put into the buffers of a connection, or dropped. -/
theorem Pipelined.deliver (h : Pipelined events s c) {s' : System n} {i : Fin n}
    {x : ForwardedResponse n} {rest : List (ForwardedResponse n)}
    (hx : s.responses i = x :: rest) (hrequests : s'.requests = s.requests)
    (hresponses : s'.responses = Function.update s.responses i rest) (fd : ℕ)
    {es : List (Event n)}
    (hes : es = [.dropped x.origin] ∨ es = [.enqueued (s.owner i fd) x.origin true]) :
    Pipelined (events ++ es) s' c := by
  have hreq (j : Fin n) : waitingRequests s' c j = waitingRequests s c j := by
    rw [waitingRequests, waitingRequests, hrequests]
  -- What is reported was first in the queue of the connection's reactor.
  have hmoved : (enqueuedNumbers c es ++ waitingResponses s' c).Sublist
      (waitingResponses s c) := by
    by_cases hi : c.reactor = i
    · have hpop : waitingResponses s c =
          (if x.origin.conn = c then [x.origin.number] else []) ++ waitingResponses s' c :=
        waitingResponses_cons (by rw [hi, hx]) (by rw [hresponses, hi, Function.update_self])
      rw [hpop]
      refine List.Sublist.append ?_ (List.Sublist.refl _)
      rcases hes with rfl | rfl
      · exact List.nil_sublist _
      · by_cases hc : x.origin.conn = c <;> by_cases hon : s.owner i fd = some c <;>
          simp [enqueuedNumbers, hc, hon]
    · have hsame : waitingResponses s' c = waitingResponses s c := by
        rw [waitingResponses, waitingResponses, hresponses, Function.update_of_ne hi]
      have hnone : enqueuedNumbers c es = [] := by
        rcases hes with rfl | rfl
        · rfl
        · have hon : s.owner i fd ≠ some c := by
            intro howner
            obtain ⟨_, _, hreactor⟩ := (s.owner_eq_some i fd).mp howner
            exact hi hreactor
          simp [enqueuedNumbers, hon]
      rw [hsame, hnone, List.nil_append]
  have hread : readNumbers c es = [] := by
    rcases hes with rfl | rfl <;> rfl
  obtain ⟨j, hone, hsub⟩ := h
  refine ⟨j, fun j' hj' => by rw [hreq, hone j' hj'], ?_⟩
  rw [enqueuedNumbers_append, readNumbers_append, hread, List.append_nil, hreq,
    List.append_assoc (enqueuedNumbers c events)]
  exact (((List.Sublist.refl _).append hmoved).append (List.Sublist.refl _)).trans hsub

end Steps

namespace Server

variable [NeZero n] {srv : Server n} {s : System n} {events : List (Event n)} {c : ConnId n}

theorem pipelined_handleRead (h : Pipelined events s c) {i : Fin n} {fd : ℕ} {c₀ : ConnId n}
    {env : ReadEnv} (howner : s.owner i fd = some c₀)
    (hturn : ∀ req ∈ srv.requestRead s i fd env,
      (∀ j, ∀ q ∈ s.requests j, q.origin.conn = c₀ →
        j = srv.router.target srv.records.metadata i req ∧ j ≠ i) ∧
      (srv.router.target srv.records.metadata i req = i →
        ∀ x ∈ s.responses i, x.origin.conn ≠ c₀)) :
    Pipelined (events ++ (srv.handleRead s i fd c₀ env).2)
      (srv.handleRead s i fd c₀ env).1 c := by
  obtain ⟨_, -, rfl⟩ := (s.owner_eq_some i fd).mp howner
  have hstep := srv.readStep s c₀.reactor fd c₀ env
  generalize srv.handleRead s c₀.reactor fd c₀ env = out at hstep ⊢
  cases hstep with
  | waited conn => exact h.of_sameWork System.sameWork_setConnection rfl
  | closed es henq =>
    refine h.of_sameWork System.sameWork_closeConnection ?_
    refine List.filterMap_eq_nil_iff.mpr fun e he => ?_
    cases e with
    | enqueued on origin b => exact absurd he (henq on origin b)
    | _ => rfl
  | forwarded conn body req hread htarget =>
    refine h.forward rfl rfl (fun j q hq hc => ?_) body
    exact ((hturn req hread).1 j q hq hc).1
  | handled conn body req hread htarget out hout =>
    subst hout
    obtain ⟨hrequests, hresponses⟩ := srv.queues_answerLocally
      { s.setConnection c₀.reactor fd conn with reads := s.reads + 1 } c₀.reactor env.broker req
      fd ⟨c₀, s.reads⟩
    refine h.answer ⟨c₀, s.reads⟩ hrequests hresponses ?_ ?_ body ?_
    · intro j q hq hc
      have hj := (hturn req hread).1 j q hq hc
      exact hj.2 (hj.1.trans htarget)
    · exact (hturn req hread).2 htarget
    · rcases srv.events_answerLocally
        { s.setConnection c₀.reactor fd conn with reads := s.reads + 1 } c₀.reactor env.broker
        req fd ⟨c₀, s.reads⟩ with hnone | hone
      · exact .inl hnone
      · exact .inr ⟨_, hone⟩

theorem pipelined_readPart (h : Pipelined events s c) {i : Fin n} {fd : ℕ} {c₀ : ConnId n}
    {ev : EpollEvent} {read : ReadEnv} {write : WriteEnv} (howner : s.owner i fd = some c₀)
    (herr : ev.errHup = false) (hinput : srv.ReadsInTurn s (.event i fd ev read write)) :
    Pipelined (events ++ (srv.readPart s i fd c₀ ev read).2)
      (srv.readPart s i fd c₀ ev read).1 c := by
  rw [readPart]
  split
  · next hreadable => exact pipelined_handleRead h howner (hinput herr hreadable c₀ howner)
  · rw [List.append_nil]
    exact h

/-- Every step of every reactor keeps the order of every connection. -/
theorem pipelined_next (h : Pipelined events s c) {input : ServerInput n}
    (hinput : srv.ReadsInTurn s input) :
    Pipelined (events ++ srv.machine.out s input) (srv.machine.next s input) c := by
  have hstep := srv.serverStep s input
  rw [Machine.next, Machine.out]
  generalize srv.machine.step s input = out at hstep ⊢
  cases hstep with
  | idle => exact h.of_sameWork System.sameWork_refl rfl
  | accepted i fd hfree =>
    rw [System.handleAccept, if_pos ⟨rfl, hfree⟩]
    exact h.mono rfl (List.Sublist.refl _) fun _ => List.Sublist.refl _
  | hungUp => exact h.of_sameWork System.sameWork_closeConnection rfl
  | event i fd c₀ ev read write howner herr => exact pipelined_readPart h howner herr hinput
  | eventWrite i fd c₀ ev read write howner herr _ _ =>
    exact (pipelined_readPart h howner herr hinput).of_sameWork_nil System.sameWork_handleWrite
  | requestDrained i env q rest hq =>
    rw [List.append_nil]
    obtain ⟨popped, rfl, hdrain | ⟨resp, hdrain⟩⟩ := srv.drainRequest_cases s i env hq <;>
      rw [hdrain]
    · exact h.relay hq rfl (.inl rfl)
    · exact h.relay hq rfl (.inr ⟨_, rfl, rfl⟩)
  | responseDrained i x rest hx =>
    obtain ⟨popped, rfl, ⟨-, hdrain⟩ | ⟨conn, -, hdrain⟩⟩ := drainResponse_cases s i hx <;>
      rw [hdrain]
    · exact h.deliver hx (by rfl) (by rfl) x.clientFd (.inl rfl)
    · refine Pipelined.of_sameWork_nil ?_ System.sameWork_putResponse
      exact h.deliver hx (by rfl) (by rfl) x.clientFd (.inr rfl)
  | harvested => exact h.of_sameWork System.sameWork_harvest rfl

/-- In every run in which no request overtakes an earlier one of its connection, the responses
on every connection come in the order of the requests. -/
theorem responsesInOrder_of_inTurn {inputs : List (ServerInput n)} (hfresh : s.Fresh)
    (h : srv.machine.Within srv.ReadsInTurn s inputs) :
    ResponsesInOrder (allEvents (srv.machine.trace s inputs)) := by
  have hinit : ∀ c, Pipelined (allEvents ([] : List (ServerInput n × List (Event n)))) s c := by
    intro c
    have hreq (j : Fin n) : waitingRequests s c j = [] := by
      rw [waitingRequests, hfresh.requests]
      rfl
    have hresp : waitingResponses s c = [] := by
      rw [waitingResponses, hfresh.responses]
      rfl
    refine ⟨0, fun j _ => hreq j, ?_⟩
    rw [hreq, hresp]
    exact List.Sublist.refl _
  have hrun := Machine.invariant_trace
    (I := fun trace s => ∀ c, Pipelined (allEvents trace) s c)
    (fun trace s input hs hinput c => by
      rw [allEvents_snoc]
      exact pipelined_next (hs c) hinput) hinit h
  intro c
  obtain ⟨j, -, hsub⟩ := hrun c
  rw [List.append_assoc] at hsub
  exact (List.sublist_append_left _ _).trans hsub

end Server

/-! ### Two pipelined requests -/

namespace TwoReactors

/-- An ApiVersions request, which is always handled on the spot. -/
def apiVersions : Bytes := [0, 18, 0, 4, 0, 0, 0, 7]

/-- The second request is read when the first one has been answered. -/
def oneByOne : List (ServerInput 2) :=
  [connect, arrive produceZero, serve, deliver, arrive apiVersions]

/-- The second request is read while the first one is still at the other reactor. -/
def overtaking : List (ServerInput 2) :=
  [connect, arrive produceZero, arrive apiVersions, serve, deliver]

end TwoReactors

open TwoReactors in
theorem responsesInOrder_oneByOne :
    ResponsesInOrder (allEvents ((server fun _ => 0).machine.trace {} oneByOne)) :=
  Server.responsesInOrder_of_inTurn System.fresh_empty (by decide +kernel)

open TwoReactors in
/-- The response to the second request is in the buffers before the one to the first. -/
theorem not_responsesInOrder_overtaking :
    ¬ ResponsesInOrder (allEvents ((server fun _ => 0).machine.trace {} overtaking)) := by
  intro h
  have hnumbers : ¬ (enqueuedNumbers ⟨0, 0⟩
      (allEvents ((server fun _ => 0).machine.trace {} overtaking))).Sublist
        (readNumbers ⟨0, 0⟩ (allEvents ((server fun _ => 0).machine.trace {} overtaking))) := by
    decide +kernel
  exact hnumbers (h ⟨0, 0⟩)

end TinyKafka
