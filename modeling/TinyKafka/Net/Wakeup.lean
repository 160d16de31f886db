import TinyKafka.Net.Ownership

/-!
# Wake-ups between the reactors

The threads of `main`, each from the constructor of its reactor on. A reactor creates its
eventfd, publishes it in its queues (`set_wakeup_fd`), and then runs its loop: `epoll_wait`, the
events that were reported, among them the read of the eventfd, the two drains, the harvest. A
push is two steps: the element is put into the queue, and then the other reactor is woken by a
write to its eventfd, which is left out while none is published. What a reactor does between
these points of control are the steps of `Server.machine` (`exists_exec_sys`), which of them
depending on the part of the loop.

As long as no wake is left out, a reactor that waits with something in a queue has been
signalled, or is about to be (`noLostWakeup_of_published`): whoever has pushed an element wakes
the reactor afterwards, and the reactor takes the signal back only when it is going to drain
both queues. But a reactor enters its loop with a wait and not with a drain. An element that
was pushed, and whose wake was left out, before the eventfd was published stays in the queue
while the reactor sleeps.

The model has the effects of `handle_write` in front of the wake of the same event, where the
program has them behind it; they concern the reactor's own connections only.
-/

namespace TinyKafka

variable {n : ℕ}

/-! ### Queues and pushes -/

/-- The queues of a reactor. -/
inductive QueueKind
  | request
  | response
  deriving DecidableEq

/-- The number of elements in a queue. -/
def System.waiting (s : System n) : Fin n × QueueKind → ℕ
  | (i, .request) => (s.requests i).length
  | (i, .response) => (s.responses i).length

/-- The queue a step has pushed to: it is longer than before. -/
def System.pushed (s s' : System n) : Option (Fin n × QueueKind) :=
  ((List.finRange n).product [.request, .response]).find? fun q => s.waiting q < s'.waiting q

/-! ### The threads -/

/-- Where a reactor stands, in its constructor or in the loop of `run`. -/
inductive Phase
  | constructing
  /-- `eventfd` has returned a descriptor. -/
  | created
  /-- In front of `epoll_wait`. -/
  | looping
  /-- In `epoll_wait`. -/
  | waiting
  /-- At the events that `epoll_wait` has reported; with the eventfd still to be read, or not. -/
  | handling (wakeup : Bool)
  | drainingRequests
  | drainingResponses
  | harvesting
  deriving DecidableEq

/-- The reactor goes through its queues of this kind before it waits again. -/
def Phase.drains : Phase → QueueKind → Bool
  | .handling _, _ | .drainingRequests, _ | .drainingResponses, .response => true
  | _, _ => false

/-- The part of the loop a step belongs to. -/
def Phase.runs : Phase → ServerInput n → Bool
  | .handling _, .accept .. | .handling _, .event .. | .drainingRequests, .drainRequest ..
  | .drainingResponses, .drainResponse .. | .harvesting, .harvest .. => true
  | _, _ => false

/-- The reactor that takes a step. -/
def ServerInput.reactor : ServerInput n → Fin n
  | .accept i .. | .event i .. | .drainRequest i .. | .drainResponse i | .harvest i .. => i

/-- How a reactor gets from one phase to the next. -/
inductive Move
  /-- `eventfd` returns, with a descriptor or not. Without one the reactor runs all the same. -/
  | eventfd (ok : Bool)
  | setWakeupFd
  | epollWait
  /-- `epoll_wait` returns; it may report the eventfd if its counter is positive. -/
  | ready (wakeup : Bool)
  /-- `epoll_wait` returns with `EINTR`. -/
  | interrupted
  | readEventfd
  /-- On to the next part of the loop. -/
  | proceed
  deriving DecidableEq

/-- The process with the control state of its threads. -/
structure Threads (n : ℕ) where
  sys : System n
  phase : Fin n → Phase := fun _ => .constructing
  /-- The counter of the eventfd. -/
  counter : Fin n → ℕ := fun _ => 0
  /-- `wakeup_fd_ >= 0` in the queues of the reactor. -/
  published : Fin n → Bool := fun _ => false
  /-- The queue the reactor has pushed to and not yet woken. -/
  waking : Fin n → Option (Fin n × QueueKind) := fun _ => none

/-- A step of one thread. -/
inductive ThreadInput (n : ℕ)
  | move (i : Fin n) (m : Move)
  | act (input : ServerInput n)
  /-- `wake`, the second half of a push. -/
  | wake (i : Fin n)

namespace Threads

variable (s : Threads n)

/-- The phase that a move leads to. A drain ends when the queue is found empty. -/
def nextPhase (i : Fin n) (m : Move) : Option Phase :=
  match s.phase i, m with
  | .constructing, .eventfd ok => some (if ok then .created else .looping)
  | .created, .setWakeupFd => some .looping
  | .looping, .epollWait => some .waiting
  | .waiting, .ready wakeup => some (.handling (wakeup && 0 < s.counter i))
  | .waiting, .interrupted => some .looping
  | .handling true, .readEventfd => some (.handling false)
  | .handling false, .proceed => some .drainingRequests
  | .drainingRequests, .proceed =>
    if s.sys.waiting (i, .request) = 0 then some .drainingResponses else none
  | .drainingResponses, .proceed =>
    if s.sys.waiting (i, .response) = 0 then some .harvesting else none
  | .harvesting, .proceed => some .looping
  | _, _ => none

/-- The effect of a move into phase `p`. Reading the eventfd resets its counter. -/
def enter (i : Fin n) (m : Move) (p : Phase) : Threads n :=
  { s with
    phase := Function.update s.phase i p
    counter := if m = .readEventfd then Function.update s.counter i 0 else s.counter
    published := if m = .setWakeupFd then Function.update s.published i true else s.published }

/-- `wake`. The write adds one to the counter, unless it is at its maximum. -/
def wake (i : Fin n) : Threads n :=
  match s.waking i with
  | none => s
  | some (j, _) =>
    { s with
      waking := Function.update s.waking i none
      counter :=
        if s.published j then
          Function.update s.counter j (min (s.counter j + 1) (2 ^ 64 - 2))
        else s.counter }

end Threads

namespace Server

variable [NeZero n] (srv : Server n) (s : Threads n)

/-- A step of one thread; after a push a reactor goes on with the wake. -/
def threadStep : ThreadInput n → Threads n × List (Event n)
  | .move i m =>
    match s.waking i, s.nextPhase i m with
    | none, some p => (s.enter i m p, [])
    | _, _ => (s, [])
  | .act input =>
    if s.waking input.reactor = none ∧ (s.phase input.reactor).runs input then
      let (sys, events) := srv.machine.step s.sys input
      ({ s with
          sys := sys
          waking := Function.update s.waking input.reactor (s.sys.pushed sys) }, events)
    else (s, [])
  | .wake i => (s.wake i, [])

/-- The threads in any interleaving, until the process is terminated. -/
def threads : Machine (Threads n) (ThreadInput n) (List (Event n)) where
  step s input := if s.sys.terminated then (s, []) else srv.threadStep s input

end Server

/-- **No lost wake-up.** If reactor `i` is in `epoll_wait` while there is something in one of its
queues, its eventfd is signalled, or another reactor is between its push to that queue and the
wake. -/
def Threads.NoLostWakeup (s : Threads n) (i : Fin n) : Prop :=
  s.phase i = .waiting → ∀ k, 0 < s.sys.waiting (i, k) →
    0 < s.counter i ∨ ∃ j ≠ i, s.waking j = some (i, k)

/-- If the step is a wake of reactor `i`, there is an eventfd to write to. -/
def WakesPublished (i : Fin n) (s : Threads n) : ThreadInput n → Prop
  | .wake j => ∀ q ∈ s.waking j, q.1 = i → s.published i = true
  | .move .. | .act .. => True

instance (i : Fin n) (s : Threads n) :
    (input : ThreadInput n) → Decidable (WakesPublished i s input)
  | .wake _ => inferInstanceAs (Decidable (∀ q ∈ (_ : Option (Fin n × QueueKind)), _))
  | .move .. | .act .. => .isTrue trivial

/-! ### A step pushes to one queue -/

namespace System

variable {s s' : System n} {i : Fin n}

/-- No queue but `q` has become longer. -/
def GrowsOnly (s s' : System n) (q : Option (Fin n × QueueKind)) : Prop :=
  ∀ x, q ≠ some x → s'.waiting x ≤ s.waiting x

theorem growsOnly_of_queues {q : Option (Fin n × QueueKind)} (hreq : s'.requests = s.requests)
    (hresp : s'.responses = s.responses) : s.GrowsOnly s' q := by
  rintro ⟨j, k⟩ -
  cases k with
  | request => rw [waiting, waiting, hreq]
  | response => rw [waiting, waiting, hresp]

theorem SameWork.growsOnly {q : Option (Fin n × QueueKind)} (h : s.SameWork s') :
    s.GrowsOnly s' q :=
  growsOnly_of_queues h.queues.1 h.queues.2

theorem GrowsOnly.trans {s'' : System n} {q : Option (Fin n × QueueKind)}
    (h : s.GrowsOnly s' q) (h' : s'.GrowsOnly s'' q) : s.GrowsOnly s'' q :=
  fun x hx => (h' x hx).trans (h x hx)

theorem growsOnly_pushRequest (j : Fin n) (q : ForwardedRequest n) :
    s.GrowsOnly (s.pushRequest j q) (some (j, .request)) := by
  rintro ⟨j', k⟩ hne
  cases k with
  | request =>
    have hj : j' ≠ j := by
      rintro rfl
      exact hne rfl
    simp [waiting, pushRequest, hj]
  | response => exact Nat.le_refl _

theorem growsOnly_pushResponse (j : Fin n) (x : ForwardedResponse n) :
    s.GrowsOnly (s.pushResponse j x) (some (j, .response)) := by
  rintro ⟨j', k⟩ hne
  cases k with
  | request => exact Nat.le_refl _
  | response =>
    have hj : j' ≠ j := by
      rintro rfl
      exact hne rfl
    simp [waiting, pushResponse, hj]

theorem growsOnly_popRequest {x : Option (Fin n × QueueKind)} {q : ForwardedRequest n}
    {rest : List (ForwardedRequest n)} (h : s.requests i = q :: rest) :
    s.GrowsOnly { s with requests := Function.update s.requests i rest } x := by
  rintro ⟨j, k⟩ -
  cases k with
  | request =>
    rcases eq_or_ne j i with rfl | hne
    · simp [waiting, h]
    · simp [waiting, hne]
  | response => exact Nat.le_refl _

theorem growsOnly_popResponse {y : Option (Fin n × QueueKind)} {x : ForwardedResponse n}
    {rest : List (ForwardedResponse n)} (h : s.responses i = x :: rest) :
    s.GrowsOnly { s with responses := Function.update s.responses i rest } y := by
  rintro ⟨j, k⟩ -
  cases k with
  | request => exact Nat.le_refl _
  | response =>
    rcases eq_or_ne j i with rfl | hne
    · simp [waiting, h]
    · simp [waiting, hne]

/-- If one queue grows, it is the one that is found. -/
theorem GrowsOnly.pushed_eq {q : Option (Fin n × QueueKind)} (h : s.GrowsOnly s' q)
    {x : Fin n × QueueKind} (hx : s.waiting x < s'.waiting x) : s.pushed s' = some x := by
  have honly : ∀ y, s.waiting y < s'.waiting y → q = some y := by
    intro y hy
    by_contra hne
    exact absurd (h y hne) (not_le.mpr hy)
  have hsome : (s.pushed s').isSome := by
    rw [pushed, List.find?_isSome]
    refine ⟨x, ?_, decide_eq_true hx⟩
    obtain ⟨j, k⟩ := x
    refine List.mem_product.mpr ⟨List.mem_finRange j, ?_⟩
    cases k <;> simp
  obtain ⟨y, hy⟩ := Option.isSome_iff_exists.mp hsome
  have hgrows : s.waiting y < s'.waiting y := by
    have hfound := List.find?_some hy
    exact of_decide_eq_true hfound
  rw [hy, ← honly y hgrows, honly x hx]

end System

namespace Server

variable [NeZero n] (srv : Server n) (s : System n)

theorem exists_growsOnly_readPart (i : Fin n) (fd : ℕ) (c : ConnId n) (ev : EpollEvent)
    (env : ReadEnv) : ∃ q, s.GrowsOnly (srv.readPart s i fd c ev env).1 q := by
  rw [readPart]
  split
  · have hstep := srv.readStep s i fd c env
    generalize srv.handleRead s i fd c env = out at hstep ⊢
    cases hstep with
    | waited conn => exact ⟨none, System.sameWork_setConnection.growsOnly⟩
    | closed => exact ⟨none, System.sameWork_closeConnection.growsOnly⟩
    | forwarded conn body req hread htarget =>
      have hread : s.GrowsOnly { s.setConnection i fd conn with reads := s.reads + 1 }
          (some (srv.router.target srv.records.metadata i req, .request)) :=
        System.growsOnly_of_queues rfl rfl
      exact ⟨_, hread.trans (System.growsOnly_pushRequest _ _)⟩
    | handled conn body req hread htarget out hout =>
      obtain ⟨hreq, hresp⟩ := srv.queues_answerLocally
        { s.setConnection i fd conn with reads := s.reads + 1 } i env.broker req fd ⟨c, s.reads⟩
      rw [hout] at hreq hresp
      exact ⟨none, System.growsOnly_of_queues hreq hresp⟩
  · exact ⟨none, System.growsOnly_of_queues rfl rfl⟩

/-- **One push at most.** A step of a reactor makes at most one queue longer. -/
theorem exists_growsOnly (input : ServerInput n) :
    ∃ q, s.GrowsOnly (srv.machine.next s input) q := by
  have hstep := srv.serverStep s input
  rw [Machine.next]
  generalize srv.machine.step s input = out at hstep ⊢
  cases hstep with
  | idle => exact ⟨none, System.growsOnly_of_queues rfl rfl⟩
  | accepted i fd hfree =>
    rw [System.handleAccept, if_pos ⟨rfl, hfree⟩]
    exact ⟨none, System.growsOnly_of_queues rfl rfl⟩
  | hungUp => exact ⟨none, System.sameWork_closeConnection.growsOnly⟩
  | event i fd c ev read => exact srv.exists_growsOnly_readPart s i fd c ev read
  | eventWrite i fd c ev read =>
    obtain ⟨q, hq⟩ := srv.exists_growsOnly_readPart s i fd c ev read
    exact ⟨q, hq.trans System.sameWork_handleWrite.growsOnly⟩
  | requestDrained i env q rest hq =>
    obtain ⟨popped, rfl, hdrain | ⟨resp, hdrain⟩⟩ := srv.drainRequest_cases s i env hq
    · rw [hdrain]
      exact ⟨none, (System.growsOnly_popRequest hq).trans (System.growsOnly_of_queues rfl rfl)⟩
    · rw [hdrain]
      refine ⟨some (q.sourceReactorId, .response), (System.growsOnly_popRequest hq).trans ?_⟩
      exact (System.growsOnly_of_queues rfl rfl).trans (System.growsOnly_pushResponse _ _)
  | responseDrained i x rest hx =>
    obtain ⟨popped, rfl, ⟨-, hdrain⟩ | ⟨conn, -, hdrain⟩⟩ := drainResponse_cases s i hx
    · rw [hdrain]
      exact ⟨none, System.growsOnly_popResponse hx⟩
    · rw [hdrain]
      exact ⟨none, (System.growsOnly_popResponse hx).trans System.sameWork_putResponse.growsOnly⟩
  | harvested => exact ⟨none, System.sameWork_harvest.growsOnly⟩

end Server

/-! ### Signals -/

theorem Phase.ne_waiting_of_runs {p : Phase} {input : ServerInput n} (h : p.runs input = true) :
    p ≠ .waiting := by
  rintro rfl
  cases h

namespace Threads

variable {s : Threads n} {i : Fin n}

/-- Nothing is forgotten in the queues of reactor `i`: it will go through them, or it is
signalled, or whoever has pushed is about to signal it. -/
structure Attended (s : Threads n) (i : Fin n) : Prop where
  queue : ∀ k, s.sys.waiting (i, k) = 0 ∨ (s.phase i).drains k = true ∨ 0 < s.counter i ∨
    ∃ j, s.waking j = some (i, k)
  /-- A reactor wakes others before it waits itself. -/
  pushing : ∀ j, s.waking j ≠ none → s.phase j ≠ .waiting

theorem Attended.noLostWakeup (h : s.Attended i) : s.NoLostWakeup i := by
  intro hwaiting k hpos
  rcases h.queue k with hzero | hdrains | hcounter | ⟨j, hj⟩
  · exact absurd hzero hpos.ne'
  · rw [hwaiting] at hdrains
    cases hdrains
  · exact .inl hcounter
  · refine .inr ⟨j, ?_, hj⟩
    rintro rfl
    exact h.pushing j (by simp [hj]) hwaiting

section Enter

variable {j : Fin n} {m : Move} {p : Phase}

@[simp] theorem phase_enter_self : (s.enter j m p).phase j = p := Function.update_self ..

@[simp] theorem phase_enter_of_ne (h : i ≠ j) : (s.enter j m p).phase i = s.phase i :=
  Function.update_of_ne h ..

theorem counter_enter (h : m = .readEventfd → i ≠ j) : (s.enter j m p).counter i = s.counter i := by
  rw [enter]
  dsimp only
  split
  · next hread => exact Function.update_of_ne (h hread) ..
  · rfl

end Enter

/-- A reactor leaves the part of the loop that drains a queue when the queue is empty. -/
theorem drains_nextPhase {m : Move} {p : Phase} {k : QueueKind} (h : s.nextPhase i m = some p)
    (hdrains : (s.phase i).drains k = true) :
    p.drains k = true ∨ s.sys.waiting (i, k) = 0 := by
  unfold nextPhase at h
  split at h
  case h_6 =>
    cases h
    exact .inl rfl
  case h_7 =>
    cases h
    exact .inl rfl
  case h_8 =>
    split at h
    · next hempty =>
      cases h
      cases k with
      | request => exact .inr hempty
      | response => exact .inl rfl
    · cases h
  case h_9 hphase =>
    split at h
    · next hempty =>
      cases k with
      | request =>
        rw [hphase] at hdrains
        cases hdrains
      | response => exact .inr hempty
    · cases h
  -- in the other phases nothing is going to be drained
  all_goals simp_all [Phase.drains]

/-- The counter is reset on the way to the drains. -/
theorem drains_of_readEventfd {p : Phase} (h : s.nextPhase i .readEventfd = some p)
    (k : QueueKind) : p.drains k = true := by
  unfold nextPhase at h
  split at h
  case h_6 =>
    cases h
    rfl
  all_goals simp_all

theorem Attended.enter (h : s.Attended i) {j : Fin n} {m : Move} {p : Phase}
    (hwaking : s.waking j = none) (hp : s.nextPhase j m = some p) :
    (s.enter j m p).Attended i where
  queue k := by
    rcases eq_or_ne i j with rfl | hne
    · rw [phase_enter_self]
      rcases h.queue k with hzero | hdrains | hcounter | hpushed
      · exact .inl hzero
      · rcases drains_nextPhase hp hdrains with hnext | hzero
        · exact .inr (.inl hnext)
        · exact .inl hzero
      · by_cases hread : m = .readEventfd
        · subst hread
          exact .inr (.inl (drains_of_readEventfd hp k))
        · rw [counter_enter fun heq => absurd heq hread]
          exact .inr (.inr (.inl hcounter))
      · exact .inr (.inr (.inr hpushed))
    · rw [phase_enter_of_ne hne, counter_enter fun _ => hne]
      exact h.queue k
  pushing j' hj' := by
    have hne : j' ≠ j := by
      rintro rfl
      exact hj' hwaking
    rw [phase_enter_of_ne hne]
    exact h.pushing j' hj'

section Wake

variable {j : Fin n}

@[simp] theorem sys_wake : (s.wake j).sys = s.sys := by
  rw [wake]
  split <;> rfl

@[simp] theorem phase_wake : (s.wake j).phase = s.phase := by
  rw [wake]
  split <;> rfl

@[simp] theorem waking_wake : (s.wake j).waking = Function.update s.waking j none := by
  rw [wake]
  split
  · next hnone => rw [← hnone, Function.update_eq_self]
  · rfl

theorem counter_wake_pos (h : 0 < s.counter i) : 0 < (s.wake j).counter i := by
  rw [wake]
  split
  · exact h
  · next j₁ _ _ =>
    dsimp only
    split
    · rcases eq_or_ne i j₁ with rfl | hne
      · simp
      · rwa [Function.update_of_ne hne]
    · exact h

theorem counter_wake_of_published {k : QueueKind} (hwaking : s.waking j = some (i, k))
    (hpublished : s.published i = true) : 0 < (s.wake j).counter i := by
  rw [wake, hwaking]
  simp [hpublished]

end Wake

theorem Attended.wake (h : s.Attended i) {j : Fin n}
    (hpublished : WakesPublished i s (.wake j)) : (s.wake j).Attended i := by
  refine ⟨fun k => ?_, fun j' hj' => ?_⟩
  · rw [sys_wake, phase_wake, waking_wake]
    rcases h.queue k with hzero | hdrains | hcounter | ⟨j', hj'⟩
    · exact .inl hzero
    · exact .inr (.inl hdrains)
    · exact .inr (.inr (.inl (counter_wake_pos hcounter)))
    · rcases eq_or_ne j' j with rfl | hne
      · -- this is the wake that was outstanding
        exact .inr (.inr (.inl (counter_wake_of_published hj' (hpublished _ hj' rfl))))
      · exact .inr (.inr (.inr ⟨j', by rwa [Function.update_of_ne hne]⟩))
  · rw [waking_wake] at hj'
    rw [phase_wake]
    refine h.pushing j' fun hnone => hj' ?_
    rcases eq_or_ne j' j with rfl | hne
    · exact Function.update_self ..
    · rwa [Function.update_of_ne hne]

/-- A step of a reactor pushes to at most one queue, and is followed by the wake. -/
theorem Attended.act (h : s.Attended i) {j : Fin n} {sys : System n}
    {q : Option (Fin n × QueueKind)} (hwaking : s.waking j = none) (hphase : s.phase j ≠ .waiting)
    (hgrows : s.sys.GrowsOnly sys q) :
    { s with
      sys := sys
      waking := Function.update s.waking j (s.sys.pushed sys) }.Attended i where
  queue k := by
    dsimp only
    by_cases hle : sys.waiting (i, k) ≤ s.sys.waiting (i, k)
    · rcases h.queue k with hzero | hdrains | hcounter | ⟨j', hj'⟩
      · exact .inl (Nat.le_zero.mp (hzero ▸ hle))
      · exact .inr (.inl hdrains)
      · exact .inr (.inr (.inl hcounter))
      · have hne : j' ≠ j := by
          rintro rfl
          rw [hwaking] at hj'
          cases hj'
        exact .inr (.inr (.inr ⟨j', by rwa [Function.update_of_ne hne]⟩))
    · have hpushed := hgrows.pushed_eq (not_le.mp hle)
      exact .inr (.inr (.inr ⟨j, by rw [Function.update_self, hpushed]⟩))
  pushing j' hj' := by
    rcases eq_or_ne j' j with rfl | hne
    · exact hphase
    · dsimp only at hj'
      rw [Function.update_of_ne hne] at hj'
      exact h.pushing j' hj'

/-- At the start of the process nothing is in the queues. -/
theorem attended_start {sys : System n} (hfresh : sys.Fresh) (i : Fin n) :
    ({ sys } : Threads n).Attended i where
  queue k := by
    left
    cases k with
    | request => simp [System.waiting, hfresh.requests]
    | response => simp [System.waiting, hfresh.responses]
  pushing _ hj := absurd rfl hj

end Threads

namespace Server

variable [NeZero n]

/-- What a step of a thread can be. -/
inductive ThreadStep (srv : Server n) (s : Threads n) : ThreadInput n → Threads n → Prop
  /-- The process has ended, or the thread is not at that point. -/
  | idle (input : ThreadInput n) : ThreadStep srv s input s
  | moved (i : Fin n) (m : Move) (p : Phase) (hwaking : s.waking i = none)
      (hp : s.nextPhase i m = some p) : ThreadStep srv s (.move i m) (s.enter i m p)
  | acted (input : ServerInput n) (hwaking : s.waking input.reactor = none)
      (hruns : (s.phase input.reactor).runs input = true) :
      ThreadStep srv s (.act input)
        { s with
          sys := srv.machine.next s.sys input
          waking := Function.update s.waking input.reactor
            (s.sys.pushed (srv.machine.next s.sys input)) }
  | woken (i : Fin n) : ThreadStep srv s (.wake i) (s.wake i)

theorem threadStep_next (srv : Server n) (s : Threads n) (input : ThreadInput n) :
    ThreadStep srv s input (srv.threads.next s input) := by
  rw [Machine.next, threads]
  dsimp only
  split
  · exact .idle input
  cases input with
  | move i m =>
    rw [threadStep]
    split
    · next p hwaking hp => exact .moved i m p hwaking hp
    · exact .idle _
  | act input =>
    rw [threadStep]
    split
    · next hrun => exact .acted input hrun.1 hrun.2
    · exact .idle _
  | wake i => exact .woken i

variable {srv : Server n} {s : Threads n} {i : Fin n}

/-- **A step keeps every queue attended** to, unless it is a wake without an eventfd. -/
theorem attended_next (h : s.Attended i) {input : ThreadInput n}
    (hpublished : WakesPublished i s input) : (srv.threads.next s input).Attended i := by
  have hstep := threadStep_next srv s input
  generalize srv.threads.next s input = s' at hstep ⊢
  cases hstep with
  | idle => exact h
  | moved j m p hwaking hp => exact h.enter hwaking hp
  | acted input hwaking hruns =>
    obtain ⟨q, hq⟩ := srv.exists_growsOnly s.sys input
    exact h.act hwaking (Phase.ne_waiting_of_runs hruns) hq
  | woken j => exact h.wake hpublished

/-- The process under the threads takes steps of the reactors only. -/
theorem exists_exec_sys (s : Threads n) (inputs : List (ThreadInput n)) :
    ∃ acts, (srv.threads.exec s inputs).sys = srv.machine.exec s.sys acts := by
  refine Machine.invariant_exec_all (I := fun t : Threads n =>
    ∃ acts, t.sys = srv.machine.exec s.sys acts) ?_ ⟨[], rfl⟩ inputs
  rintro t input ⟨acts, hacts⟩
  have hstep := threadStep_next srv t input
  generalize srv.threads.next t input = t' at hstep ⊢
  cases hstep with
  | idle => exact ⟨acts, hacts⟩
  | moved => exact ⟨acts, hacts⟩
  | acted input =>
    refine ⟨acts ++ [input], ?_⟩
    rw [Machine.exec_append, ← hacts]
    rfl
  | woken j => exact ⟨acts, by rw [Threads.sys_wake, hacts]⟩

/-- **No wake-up is lost once the eventfd is published.** In every run of the threads from the
start of the process, with any interleaving, in which every wake of reactor `i` finds its
eventfd published. -/
theorem noLostWakeup_of_published {sys : System n} (hfresh : sys.Fresh)
    {inputs : List (ThreadInput n)} (i : Fin n)
    (h : srv.threads.Within (WakesPublished i) { sys } inputs) :
    (srv.threads.exec { sys } inputs).NoLostWakeup i := by
  have hattended : (srv.threads.exec { sys } inputs).Attended i :=
    Machine.invariant_exec (I := fun t => t.Attended i)
      (fun _ _ hs hinput => attended_next hs hinput)
      (Threads.attended_start hfresh i) h
  exact hattended.noLostWakeup

end Server

/-! ### A request before the eventfd is published -/

namespace TwoReactors

/-- The constructor of reactor `i`, and on to its first wait. -/
def startUp (i : Fin 2) : List (ThreadInput 2) :=
  [.move i (.eventfd true), .move i .setWakeupFd, .move i .epollWait]

/-- Once around the loop for one event, which is this step. -/
def turn (input : ServerInput 2) : List (ThreadInput 2) :=
  let i := input.reactor
  [.move i (.ready false), .act input, .wake i, .move i .proceed, .move i .proceed,
    .move i .proceed, .move i .proceed, .move i .epollWait]

/-- The reactor is up to which a client connects; then there is a request for the other one. -/
def earlyRequest : List (ThreadInput 2) :=
  startUp connect.reactor ++ turn connect ++ turn (arrive produceZero)

end TwoReactors

open TwoReactors in
theorem noLostWakeup_startedFirst :
    ((server fun _ => 0).threads.exec { sys := {} } (startUp 1 ++ earlyRequest)).NoLostWakeup 1 :=
  Server.noLostWakeup_of_published System.fresh_empty 1 (by decide +kernel)

open TwoReactors in
/-- Reactor 1 starts up when the request is in its queue and the wake has been left out. -/
theorem not_noLostWakeup_startedLate :
    ¬ ((server fun _ => 0).threads.exec { sys := {} }
      (earlyRequest ++ startUp 1)).NoLostWakeup 1 := by
  intro h
  have hsignal := h (by decide +kernel) .request (by decide +kernel)
  revert hsignal
  decide +kernel

end TinyKafka
