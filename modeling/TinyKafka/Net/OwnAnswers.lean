import TinyKafka.Broker.Answers
import TinyKafka.Net.Delivery
import TinyKafka.Net.Entries

/-!
# What a client is sent

Everything that waits to be sent on a connection comes from a request that was read from that
connection. `Server.Attributed` follows requests and responses through the process: a request in a
queue has been read (`Server.asked`), a response in a queue has been returned by a broker for it
(`Server.answered`), and so has every buffer of a connection, for a request of this connection.

`Server.answers_run`: every response given in a run is an answer to its request, in the sense of
`RecordHandler.Answers`.

`Server.ownAnswers_of_quiet`: in every run in which no descriptor gets a new entry while something
is on its way for it (`Server.KeepsQuiet`), what is in the buffers of an open connection are
serialized responses, each of which answers a request read from this very connection.
-/

namespace TinyKafka

variable {n : ℕ}

/-! ### What waits to be sent -/

namespace Connection

variable {conn : Connection} {buf : Bytes}

/-- There is something to send in `buf`, which is the write buffer or in the queue. -/
def Sends (conn : Connection) (buf : Bytes) : Prop :=
  buf ≠ [] ∧ (buf = conn.writeBuf ∨ buf ∈ conn.writeQueue)

theorem not_sends_empty : ¬ Sends {} buf := by
  rintro ⟨hne, rfl | hmem⟩
  · exact hne rfl
  · cases hmem

theorem sends_setSplice (splice : Option (FileRef × ℕ)) :
    (conn.setSplice splice).Sends buf ↔ conn.Sends buf := by
  rcases splice with _ | ⟨file, len⟩ <;> rfl

theorem Sends.of_enqueue {data : Bytes} (h : (conn.enqueue data).Sends buf) :
    conn.Sends buf ∨ buf = data := by
  obtain ⟨hne, h⟩ := h
  rw [enqueue] at h
  split at h
  · exact h.elim .inr fun hmem => .inl ⟨hne, .inr hmem⟩
  · rcases h with rfl | hmem
    · exact .inl ⟨hne, .inl rfl⟩
    · rcases List.mem_append.mp hmem with hmem | hmem
      · exact .inl ⟨hne, .inr hmem⟩
      · exact .inr (List.mem_singleton.mp hmem)

theorem Sends.of_advanceWriteQueue (h : conn.advanceWriteQueue.Sends buf) : conn.Sends buf := by
  obtain ⟨hne, h⟩ := h
  refine ⟨hne, .inr ?_⟩
  rw [advanceWriteQueue] at h
  split at h
  · next front queue hqueue =>
    rw [hqueue]
    exact List.mem_cons.mpr h
  · next hqueue =>
    rcases h with rfl | hmem
    · exact absurd rfl hne
    · exact hmem

/-- Nothing waits to be sent that did not before. -/
def SendsLess (conn conn' : Connection) : Prop := ∀ buf, conn'.Sends buf → conn.Sends buf

theorem ignoresSending_sendsLess : IgnoresSending SendsLess where
  refl _ _ h := h
  trans h h' buf hbuf := h buf (h' buf hbuf)
  sent _ _ _ h := h
  submitted _ _ h := h
  completed _ _ h := h
  advanced _ _ h := h.of_advanceWriteQueue

end Connection

open Connection (SendsLess ignoresSending_sendsLess)

namespace System

variable {s s' : System n} {i : Fin n} {fd : ℕ}

theorem waitsLess_popRequest {q : ForwardedRequest n} {rest : List (ForwardedRequest n)}
    (hq : s.requests i = q :: rest) :
    s.WaitsLess { s with requests := Function.update s.requests i rest } := by
  refine ⟨fun {j} => ?_, fun {j} => List.Subset.refl _⟩
  change Function.update s.requests i rest j ⊆ s.requests j
  rcases eq_or_ne j i with rfl | hne
  · rw [Function.update_self, hq]
    exact List.subset_cons_self q rest
  · rw [Function.update_of_ne hne]
    exact List.Subset.refl _

theorem waitsLess_popResponse {x : ForwardedResponse n} {rest : List (ForwardedResponse n)}
    (hx : s.responses i = x :: rest) :
    s.WaitsLess { s with responses := Function.update s.responses i rest } := by
  refine ⟨fun {j} => List.Subset.refl _, fun {j} => ?_⟩
  change Function.update s.responses i rest j ⊆ s.responses j
  rcases eq_or_ne j i with rfl | hne
  · rw [Function.update_self, hx]
    exact List.subset_cons_self x rest
  · rw [Function.update_of_ne hne]
    exact List.Subset.refl _

end System

/-! ### Requests and responses -/

namespace Server

variable (srv : Server n)

/-- Where what is on its way and what waits to be sent comes from, given the requests that have
been read and those that have been answered. -/
structure Attributed (asked : List (Origin n × Request))
    (answered : List (Origin n × Request × Response)) (s : System n) : Prop where
  answers : ∀ a ∈ answered, (a.1, a.2.1) ∈ asked ∧ srv.records.Answers a.2.1 a.2.2
  requests : ∀ j, ∀ q ∈ s.requests j, (q.origin, q.request) ∈ asked
  responses : ∀ i, ∀ x ∈ s.responses i, ∃ a ∈ answered, a.1 = x.origin ∧
    x.data = srv.serialize a.2.2
  buffers : ∀ i fd c buf, s.owner i fd = some c → (s.connection i fd).Sends buf →
    ∃ a ∈ answered, a.1.conn = c ∧ buf = srv.serialize a.2.2

variable {srv} {s s' : System n} {i : Fin n} {fd : ℕ} {c : ConnId n}
  {asks : List (Origin n × Request)} {answers : List (Origin n × Request × Response)}

namespace Attributed

theorem of_sendsLess (h : srv.Attributed asks answers s) (hwaits : s.WaitsLess s')
    (hsends : s.Entrywise SendsLess s') : srv.Attributed asks answers s' where
  answers := h.answers
  requests j q hq := h.requests j q (hwaits.requests hq)
  responses i x hx := h.responses i x (hwaits.responses hx)
  buffers i fd c buf howner hbuf := by
    obtain ⟨howner', hless⟩ := hsends i fd c howner
    exact h.buffers i fd c buf howner' (hless buf hbuf)

/-- A new connection has nothing to send. -/
theorem handleAccept (h : srv.Attributed asks answers s) (hfree : s.sockets fd = none) :
    srv.Attributed asks answers (s.handleAccept i fd true) := by
  have hwaits : s.WaitsLess (s.handleAccept i fd true) := by
    rw [System.handleAccept, if_pos ⟨rfl, hfree⟩]
    exact System.waitsLess_of_eq rfl rfl
  refine ⟨h.answers, fun j q hq => h.requests j q (hwaits.requests hq),
    fun j x hx => h.responses j x (hwaits.responses hx), fun j fd' c buf howner hsends => ?_⟩
  rw [System.connection, s.connections_handleAccept hfree, ← System.connection,
    System.connection_setConnection_ite] at hsends
  split at hsends
  · exact absurd hsends Connection.not_sends_empty
  · next hne =>
    rcases eq_or_ne fd' fd with rfl | hfd
    · exact absurd ⟨s.reactor_of_owner_handleAccept hfree howner, rfl⟩ hne
    · rw [s.owner_handleAccept_of_ne hfree hfd] at howner
      exact h.buffers j fd' c buf howner hsends

/-- One more request has been read. -/
theorem ask (h : srv.Attributed asks answers s) (a : Origin n × Request) :
    srv.Attributed (asks ++ [a]) answers s where
  answers b hb := ⟨List.mem_append_left _ (h.answers b hb).1, (h.answers b hb).2⟩
  requests j q hq := List.mem_append_left _ (h.requests j q hq)
  responses := h.responses
  buffers := h.buffers

/-- One more request has been answered. -/
theorem answer (h : srv.Attributed asks answers s) {a : Origin n × Request × Response}
    (hasked : (a.1, a.2.1) ∈ asks) (hanswers : srv.records.Answers a.2.1 a.2.2) :
    srv.Attributed asks (answers ++ [a]) s where
  answers b hb := by
    rcases List.mem_append.mp hb with hb | hb
    · exact h.answers b hb
    · obtain rfl := List.mem_singleton.mp hb
      exact ⟨hasked, hanswers⟩
  requests := h.requests
  responses i x hx := by
    obtain ⟨b, hb, hx⟩ := h.responses i x hx
    exact ⟨b, List.mem_append_left _ hb, hx⟩
  buffers i fd c buf howner hbuf := by
    obtain ⟨b, hb, hbuf⟩ := h.buffers i fd c buf howner hbuf
    exact ⟨b, List.mem_append_left _ hb, hbuf⟩

theorem handle (h : srv.Attributed asks answers s) (env : BrokerEnv) (req : Request) :
    srv.Attributed asks answers (srv.handle s i env req).1 :=
  h.of_sendsLess (System.waitsLess_of_eq rfl rfl)
    (System.entrywise_of_eq ignoresSending_sendsLess rfl fun _ _ => rfl)

theorem pushRequest (h : srv.Attributed asks answers s) {q : ForwardedRequest n}
    (hq : (q.origin, q.request) ∈ asks) (j : Fin n) :
    srv.Attributed asks answers (s.pushRequest j q) where
  answers := h.answers
  requests j' q' hq' := by
    rcases s.mem_pushRequest.mp hq' with hq' | ⟨-, rfl⟩
    · exact h.requests j' q' hq'
    · exact hq
  responses := h.responses
  buffers := h.buffers

theorem pushResponse (h : srv.Attributed asks answers s) {x : ForwardedResponse n}
    (hx : ∃ a ∈ answers, a.1 = x.origin ∧ x.data = srv.serialize a.2.2) (j : Fin n) :
    srv.Attributed asks answers (s.pushResponse j x) where
  answers := h.answers
  requests := h.requests
  responses j' x' hx' := by
    rcases s.mem_pushResponse.mp hx' with hx' | ⟨-, rfl⟩
    · exact h.responses j' x' hx'
    · exact hx
  buffers := h.buffers

/-- A response is put into the buffers of the connection that its request was read from. -/
theorem putResponse (h : srv.Attributed asks answers s) (splice : Option (FileRef × ℕ))
    {a : Origin n × Request × Response} (ha : a ∈ answers)
    (howner : ∀ c, s.owner i fd = some c → a.1.conn = c) :
    srv.Attributed asks answers
      (s.putResponse i fd ((s.connection i fd).setSplice splice) (srv.serialize a.2.2)) where
  answers := h.answers
  requests j q hq := h.requests j q (System.sameWork_putResponse.waitsLess.requests hq)
  responses j x hx := h.responses j x (System.sameWork_putResponse.waitsLess.responses hx)
  buffers j fd' c buf hopen hsends := by
    rw [System.owner_putResponse] at hopen
    have hentry : ((s.setConnection i fd (((s.connection i fd).setSplice splice).enqueue
        (srv.serialize a.2.2))).connection j fd').Sends buf := by
      rcases s.putResponse_eq i fd ((s.connection i fd).setSplice splice)
        (srv.serialize a.2.2) with heq | heq <;> rw [heq] at hsends
      · exact hsends
      · rwa [System.connection, System.connections_setWantWrite] at hsends
    rw [System.connection_setConnection_ite] at hentry
    split at hentry
    · next heq =>
      obtain ⟨rfl, rfl⟩ := heq
      rcases hentry.of_enqueue with hold | rfl
      · exact h.buffers j fd' c buf hopen ((Connection.sends_setSplice splice).mp hold)
      · exact ⟨a, ha, howner c hopen, rfl⟩
    · exact h.buffers j fd' c buf hopen hentry

end Attributed

/-! ### Steps -/

section

variable [NeZero n] (srv : Server n)

/-- The request that `handle_read` takes from connection `c`, with its origin. -/
def askedBy (s : System n) (i : Fin n) (fd : ℕ) (c : ConnId n) (read : ReadEnv) :
    Option (Origin n × Request) :=
  (srv.requestRead s i fd read).map fun req => (⟨c, s.reads⟩, req)

/-- The request that a step reads. -/
def asked (s : System n) : ServerInput n → Option (Origin n × Request)
  | .event i fd ev read _ =>
    if s.terminated ∨ ev.errHup ∨ ¬ ev.readable then none
    else (s.owner i fd).bind fun c => srv.askedBy s i fd c read
  | .accept .. | .drainRequest .. | .drainResponse _ | .harvest .. => none

/-- The request that `handle_read` takes from connection `c` and handles, with its response. -/
def answeredHere (s : System n) (i : Fin n) (fd : ℕ) (c : ConnId n) (read : ReadEnv) :
    Option (Origin n × Request × Response) :=
  (srv.requestRead s i fd read).bind fun req =>
    if srv.router.target srv.records.metadata i req = i then
      (srv.handle s i read.broker req).2.map fun resp => (⟨c, s.reads⟩, req, resp)
    else none

/-- The request that a step handles, with the response of the broker. -/
def answered (s : System n) : ServerInput n → Option (Origin n × Request × Response)
  | .event i fd ev read _ =>
    if s.terminated ∨ ev.errHup ∨ ¬ ev.readable then none
    else (s.owner i fd).bind fun c => srv.answeredHere s i fd c read
  | .drainRequest i env =>
    if s.terminated then none
    else
      (s.requests i).head?.bind fun q =>
        (srv.handle s i env q.request).2.map fun resp => (q.origin, q.request, resp)
  | .accept .. | .drainResponse _ | .harvest .. => none

end

variable [NeZero n]

/-- What a broker returns, for a request that has just been read or for one that was forwarded. -/
theorem answers_of_answered {input : ServerInput n} {a : Origin n × Request × Response}
    (h : srv.answered s input = some a) : srv.records.Answers a.2.1 a.2.2 := by
  have hhandle {i : Fin n} {env : BrokerEnv} {req : Request} {origin : Origin n}
      (ha : ((srv.handle s i env req).2.map fun resp => (origin, req, resp)) = some a) :
      srv.records.Answers a.2.1 a.2.2 := by
    obtain ⟨resp, hresp, rfl⟩ := Option.map_eq_some_iff.mp ha
    exact answers_handle _ _ _ _ hresp
  cases input with
  | event i fd ev read write =>
    rw [answered] at h
    split at h
    · cases h
    obtain ⟨c, -, hhere⟩ := Option.bind_eq_some_iff.mp h
    obtain ⟨req, -, hlocal⟩ := Option.bind_eq_some_iff.mp hhere
    split at hlocal
    · exact hhandle hlocal
    · cases hlocal
  | drainRequest i env =>
    rw [answered] at h
    split at h
    · cases h
    obtain ⟨q, -, hq⟩ := Option.bind_eq_some_iff.mp h
    exact hhandle hq
  | accept | drainResponse | harvest => cases h

/-- **Every response is an answer.** In every run, whatever the clients send, the system returns and
the order of the steps is, each response that a broker gives answers the request it was given
for. -/
theorem answers_run (srv : Server n) (s : System n) (inputs : List (ServerInput n)) :
    ∀ a ∈ srv.machine.observed srv.answered s inputs, srv.records.Answers a.2.1 a.2.2 :=
  Machine.forall_mem_observed (fun _ _ _ ha => answers_of_answered ha) s inputs

theorem attributed_handleRead (h : srv.Attributed asks answers s)
    (howner : s.owner i fd = some c) (read : ReadEnv) :
    srv.Attributed (asks ++ (srv.askedBy s i fd c read).toList)
      (answers ++ (srv.answeredHere s i fd c read).toList) (srv.handleRead s i fd c read).1 := by
  have hread := srv.readOutcome s i fd c read
  rw [askedBy, answeredHere]
  generalize srv.requestRead s i fd read = request at hread ⊢
  generalize srv.handleRead s i fd c read = out at hread ⊢
  have hreader (r : FrameReader) : s.Entrywise SendsLess
      (s.setConnection i fd { s.connection i fd with toFrameReader := r }) :=
    System.entrywise_setConnection ignoresSending_sendsLess fun buf hsends => hsends
  have hcounted (r : FrameReader) (req : Request) :
      srv.Attributed (asks ++ [(⟨c, s.reads⟩, req)]) answers (counted s i fd r) :=
    (h.ask _).of_sendsLess (System.waitsLess_of_eq rfl rfl) (hreader r)
  have hasked (req : Request) : ((⟨c, s.reads⟩ : Origin n), req) ∈ asks ++ [(⟨c, s.reads⟩, req)] :=
    List.mem_append_right _ List.mem_cons_self
  cases hread with
  | waited r =>
    simp only [Option.map_none, Option.bind_none, Option.toList_none, List.append_nil]
    exact h.of_sendsLess (System.waitsLess_of_eq rfl rfl) (hreader r)
  | closed | refused =>
    simp only [Option.map_none, Option.bind_none, Option.toList_none, List.append_nil]
    exact h.of_sendsLess (System.waitsLess_of_eq rfl rfl)
      (System.entrywise_closeConnection ignoresSending_sendsLess)
  | forwarded r body sock req hframe hparse htarget =>
    rw [Option.map_some, Option.bind_some, if_neg htarget, Option.toList_none, List.append_nil]
    exact (hcounted r req).pushRequest (hasked req) _
  | handled r body sock req hframe hparse htarget =>
    rw [Option.map_some, Option.bind_some, if_pos htarget]
    -- the handler sees neither the connection nor the count of reads
    have hsame : (srv.handle (counted s i fd r) i read.broker req).2 =
        (srv.handle s i read.broker req).2 := rfl
    have hhandled : srv.Attributed (asks ++ [(⟨c, s.reads⟩, req)]) answers
        (srv.handle (counted s i fd r) i read.broker req).1 := (hcounted r req).handle _ req
    rcases srv.answerLocally_cases (counted s i fd r) i read.broker req fd ⟨c, s.reads⟩ with
      ⟨hnone, heq⟩ | ⟨resp, hresp, hcases⟩
    · rw [heq, ← hsame, hnone, Option.map_none, Option.toList_none, List.append_nil]
      exact hhandled
    · rw [← hsame, hresp, Option.map_some]
      have hanswers : srv.records.Answers req resp := answers_handle _ _ _ _ hresp
      have hnew := hhandled.answer (a := (⟨c, s.reads⟩, req, resp)) (hasked req) hanswers
      rcases hcases with ⟨-, heq⟩ | ⟨-, heq⟩ <;> rw [heq]
      · exact hnew.of_sendsLess (System.waitsLess_of_eq rfl rfl)
          (System.entrywise_closeConnection ignoresSending_sendsLess)
      · refine hnew.putResponse (a := (⟨c, s.reads⟩, req, resp)) resp.lastSplice
          (List.mem_append_right _ List.mem_cons_self) fun c' hc' => ?_
        exact Option.some.inj (howner.symm.trans hc')

omit [NeZero n] in
/-- A response to a forwarded request goes to the reactor that has read it. -/
theorem attributed_drainRequest (h : srv.Attributed asks answers s) (env : BrokerEnv)
    {q : ForwardedRequest n} {rest : List (ForwardedRequest n)} (hq : s.requests i = q :: rest) :
    srv.Attributed asks (answers ++ ((srv.handle s i env q.request).2.map fun resp =>
      (q.origin, q.request, resp)).toList) (srv.drainRequest s i env) := by
  have hmem : q ∈ s.requests i := hq ▸ List.mem_cons_self
  have hhandled : srv.Attributed asks answers
      (srv.handle { s with requests := Function.update s.requests i rest } i env q.request).1 :=
    Attributed.handle (h.of_sendsLess (System.waitsLess_popRequest hq)
      (System.entrywise_of_eq ignoresSending_sendsLess rfl fun _ _ => rfl)) env q.request
  have hsame : (srv.handle { s with requests := Function.update s.requests i rest } i env
      q.request).2 = (srv.handle s i env q.request).2 := rfl
  have hanswer (resp : Response) (hresp : (srv.handle s i env q.request).2 = some resp) :
      srv.records.Answers q.request resp := answers_handle _ _ _ _ hresp
  rw [drainRequest, hq]
  dsimp only
  generalize srv.handle _ i env q.request = out at hhandled hsame ⊢
  obtain ⟨s', _ | resp⟩ := out
  · rw [← hsame, Option.map_none, Option.toList_none, List.append_nil]
    exact hhandled
  · rw [← hsame, Option.map_some]
    have hnew := hhandled.answer (a := (q.origin, q.request, resp)) (h.requests i q hmem)
      (hanswer resp hsame.symm)
    refine hnew.pushResponse ⟨(q.origin, q.request, resp), ?_, rfl, rfl⟩ q.sourceReactorId
    exact List.mem_append_right _ List.mem_cons_self

omit [NeZero n] in
theorem attributed_drainResponse (h : srv.Attributed asks answers s) (hrouted : s.Routed)
    {x : ForwardedResponse n} {rest : List (ForwardedResponse n)} (hx : s.responses i = x :: rest) :
    srv.Attributed asks answers (drainResponse s i).1 := by
  have hmem : x ∈ s.responses i := hx ▸ List.mem_cons_self
  have hpopped := h.of_sendsLess (System.waitsLess_popResponse hx)
    (System.entrywise_of_eq ignoresSending_sendsLess rfl fun _ _ => rfl)
  obtain ⟨popped, rfl, ⟨-, heq⟩ | ⟨conn, hconn, heq⟩⟩ := drainResponse_cases s i hx <;> rw [heq]
  · exact hpopped
  · obtain ⟨a, ha, horigin, hdata⟩ := h.responses i x hmem
    have hentry : conn = s.connection i x.clientFd := by
      rw [System.connection, hconn]
      rfl
    rw [hdata, hentry]
    refine hpopped.putResponse x.splice ha fun c howner => ?_
    -- the entry is there, so that it is the one of the connection
    have hres := hrouted.responses x hmem
    rw [System.Reserved, hrouted.reactor x hmem] at hres
    rw [horigin]
    exact Option.some.inj ((hres (by simp [hconn])).symm.trans howner)

/-- Every step of every reactor. -/
theorem attributed_next (h : srv.Attributed asks answers s) (hrouted : s.Routed)
    (input : ServerInput n) :
    srv.Attributed (asks ++ (srv.asked s input).toList)
      (answers ++ (srv.answered s input).toList) (srv.machine.next s input) := by
  rw [Machine.next]
  by_cases hterm : s.terminated = true
  · rw [machine_step_of_terminated srv s input hterm]
    cases input <;> simpa [asked, answered, hterm] using h
  rw [machine_step srv s input hterm]
  cases input with
  | accept i fd ok =>
    rw [asked, answered, Option.toList_none, List.append_nil, Option.toList_none, List.append_nil,
      step]
    by_cases hok : ok ∧ s.sockets fd = none
    · obtain ⟨rfl, hfree⟩ := hok
      exact h.handleAccept hfree
    · rw [System.handleAccept, if_neg hok]
      exact h
  | event i fd ev read write =>
    rw [step]
    rcases howner : s.owner i fd with _ | c
    · simpa [asked, answered, howner] using h
    dsimp only
    by_cases herr : ev.errHup = true
    · rw [handleEvent, if_pos herr]
      have hclosed : srv.Attributed asks answers (s.closeConnection i fd) :=
        h.of_sendsLess (System.waitsLess_of_eq rfl rfl)
          (System.entrywise_closeConnection ignoresSending_sendsLess)
      simpa [asked, answered, herr] using hclosed
    have hpart : srv.Attributed (asks ++ (srv.asked s (.event i fd ev read write)).toList)
        (answers ++ (srv.answered s (.event i fd ev read write)).toList)
        (srv.readPart s i fd c ev read).1 := by
      rw [readPart]
      by_cases hreadable : ev.readable = true
      · rw [if_pos hreadable]
        simpa [asked, answered, hterm, herr, hreadable, howner] using
          attributed_handleRead h howner read
      · rw [if_neg hreadable]
        simpa [asked, answered, hreadable] using h
    rcases srv.handleEvent_cases s i fd c read write herr with heq | heq <;> rw [heq]
    · exact hpart
    · exact hpart.of_sendsLess System.sameWork_handleWrite.waitsLess
        (System.entrywise_handleWrite ignoresSending_sendsLess write)
  | drainRequest i env =>
    rw [step]
    rcases hq : s.requests i with _ | ⟨q, rest⟩
    · rw [drainRequest_nil srv s i env hq]
      simpa [asked, answered, hterm, hq] using h
    · simpa [asked, answered, hterm, hq] using attributed_drainRequest h env hq
  | drainResponse i =>
    rw [asked, answered, Option.toList_none, List.append_nil, Option.toList_none, List.append_nil,
      step]
    rcases hx : s.responses i with _ | ⟨x, rest⟩
    · rw [drainResponse, hx]
      exact h
    · exact attributed_drainResponse h hrouted hx
  | harvest i k written =>
    rw [asked, answered, Option.toList_none, List.append_nil, Option.toList_none, List.append_nil]
    exact h.of_sendsLess System.sameWork_harvest.waitsLess
      (System.entrywise_harvest ignoresSending_sendsLess k written)

/-- **A client is sent answers to its own requests.** In every run in which no descriptor gets a new
entry while something is on its way for it, whatever waits to be sent on an open connection is the
response of a broker to a request that was read from this connection, and answers it. -/
theorem ownAnswers_of_quiet (srv : Server n) (hfresh : s.Fresh) {inputs : List (ServerInput n)}
    (h : srv.machine.Within srv.KeepsQuiet s inputs) {buf : Bytes}
    (howner : (srv.machine.exec s inputs).owner i fd = some c)
    (hsends : ((srv.machine.exec s inputs).connection i fd).Sends buf) :
    ∃ origin req resp, origin.conn = c ∧
      (origin, req) ∈ srv.machine.observed srv.asked s inputs ∧
      (origin, req, resp) ∈ srv.machine.observed srv.answered s inputs ∧
      srv.records.Answers req resp ∧ buf = srv.serialize resp := by
  have hstart : s.Routed ∧ srv.Attributed [] [] s := by
    refine ⟨hfresh.routed, by simp, fun j q hq => ?_, fun j x hx => ?_, fun j fd c buf hopen => ?_⟩
    · simp [hfresh.requests] at hq
    · simp [hfresh.responses] at hx
    · simp [System.owner, hfresh.sockets] at hopen
  obtain ⟨-, hattributed⟩ := Machine.invariant_inputs (M := srv.machine)
    (I := fun pre t => t.Routed ∧ srv.Attributed (srv.machine.observed srv.asked s pre)
      (srv.machine.observed srv.answered s pre) t)
    (fun pre input hpre hinput => by
      rw [Machine.observed_concat, Machine.observed_concat]
      exact ⟨routed_next hpre.1 hinput, attributed_next hpre.2 hpre.1 input⟩) hstart h
  obtain ⟨a, ha, hconn, hbuf⟩ := hattributed.buffers i fd c buf howner hsends
  obtain ⟨hasked, hanswers⟩ := hattributed.answers a ha
  exact ⟨a.1, a.2.1, a.2.2, hconn, hasked, ha, hanswers, hbuf⟩

end Server

open TwoReactors in
/-- A forwarded request is answered. -/
theorem answers_run_produceZero :
    ∃ a ∈ (server fun _ => 0).machine.observed (server fun _ => 0).answered {} (run produceZero),
      (server fun _ => 0).records.Answers a.2.1 a.2.2 := by
  have hone : 0 < ((server fun _ => 0).machine.observed (server fun _ => 0).answered {}
      (run produceZero)).length := by decide +kernel
  obtain ⟨a, ha⟩ := List.exists_mem_of_length_pos hone
  exact ⟨a, ha, Server.answers_run (server fun _ => 0) {} (run produceZero) a ha⟩

open TwoReactors in
/-- The answer to a forwarded request waits to be sent. -/
theorem ownAnswers_produceZero :
    ∃ origin req resp, origin.conn = ⟨0, 0⟩ ∧
      (origin, req) ∈ (server fun _ => 0).machine.observed (server fun _ => 0).asked {}
        (run produceZero ++ [deliver]) ∧
      (origin, req, resp) ∈ (server fun _ => 0).machine.observed (server fun _ => 0).answered {}
        (run produceZero ++ [deliver]) ∧
      (server fun _ => 0).records.Answers req resp ∧
        [0, 0, 0, 0] = (server fun _ => 0).serialize resp := by
  have hsends : (((server fun _ => 0).machine.exec {} (run produceZero ++ [deliver])).connection
      0 7).writeBuf = [0, 0, 0, 0] := by decide +kernel
  have howner : ((server fun _ => 0).machine.exec {} (run produceZero ++ [deliver])).owner 0 7 =
      some ⟨0, 0⟩ := by decide +kernel
  exact Server.ownAnswers_of_quiet (server fun _ => 0) System.fresh_empty (by decide +kernel)
    howner ⟨by simp, .inl hsends.symm⟩

end TinyKafka
