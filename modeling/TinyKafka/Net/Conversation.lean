import TinyKafka.Broker.Answers
import TinyKafka.Net.ByteOrder
import TinyKafka.Net.Delivery
import TinyKafka.Net.ReadStreams

/-!
# The conversation on a connection

From the bytes a client sends to the bytes it is sent. On one connection these pass through three
queues, each of which keeps its order:

* the requests read from the connection, of which those for another reactor wait there;
* the responses to them, of which those to forwarded requests wait at the reactor of the
  connection;
* the bytes of the responses, in the buffers of the connection.

`Server.Converses` says what has passed through them and what is in them, and
`Server.converses_next` that every step keeps it. The conditions are those of the parts: no
descriptor gets a new entry while something is on its way for it, no request overtakes an earlier
one of its connection, and no completion comes for a splice that the connection does not wait for.
`EndToEnd` puts the bytes received in front.
-/

namespace TinyKafka

variable {n : ℕ}

/-! ### What is on its way -/

namespace System

section

variable (s : System n) (c : ConnId n)

/-- The requests of the connection that wait at reactor `j`. -/
def requestsFrom (j : Fin n) : List (ForwardedRequest n) :=
  (s.requests j).filter (·.origin.conn = c)

/-- The responses for the connection that wait at its reactor. -/
def responsesFrom : List (ForwardedResponse n) :=
  (s.responses c.reactor).filter (·.origin.conn = c)

end

variable {s s' : System n} {c : ConnId n} {i : Fin n} {fd : ℕ}

theorem requestsFrom_congr (h : s'.requests = s.requests) (j : Fin n) :
    s'.requestsFrom c j = s.requestsFrom c j := by
  rw [requestsFrom, h, requestsFrom]

theorem responsesFrom_congr (h : s'.responses = s.responses) :
    s'.responsesFrom c = s.responsesFrom c := by
  rw [responsesFrom, h, responsesFrom]

theorem requestsFrom_eq_nil {j : Fin n} (h : ∀ q ∈ s.requests j, q.origin.conn ≠ c) :
    s.requestsFrom c j = [] :=
  List.filter_eq_nil_iff.mpr fun q hq => by simpa using h q hq

theorem responsesFrom_eq_nil (h : ∀ x ∈ s.responses c.reactor, x.origin.conn ≠ c) :
    s.responsesFrom c = [] :=
  List.filter_eq_nil_iff.mpr fun x hx => by simpa using h x hx

theorem requestsFrom_pushRequest (j j' : Fin n) (q : ForwardedRequest n) :
    (s.pushRequest j q).requestsFrom c j' =
      s.requestsFrom c j' ++ if j' = j ∧ q.origin.conn = c then [q] else [] := by
  rw [requestsFrom, pushRequest, requestsFrom]
  dsimp only
  rcases eq_or_ne j' j with rfl | hne
  · rw [Function.update_self, List.filter_append]
    by_cases hq : q.origin.conn = c <;> simp [hq]
  · rw [Function.update_of_ne hne, if_neg fun heq => hne heq.1, List.append_nil]

theorem responsesFrom_pushResponse (j : Fin n) (x : ForwardedResponse n) :
    (s.pushResponse j x).responsesFrom c =
      s.responsesFrom c ++ if c.reactor = j ∧ x.origin.conn = c then [x] else [] := by
  rw [responsesFrom, pushResponse, responsesFrom]
  dsimp only
  rcases eq_or_ne c.reactor j with rfl | hne
  · rw [Function.update_self, List.filter_append]
    by_cases hx : x.origin.conn = c <;> simp [hx]
  · rw [Function.update_of_ne hne, if_neg fun heq => hne heq.1, List.append_nil]

theorem requestsFrom_popRequest {q : ForwardedRequest n} {rest : List (ForwardedRequest n)}
    (hq : s.requests i = q :: rest) (j : Fin n) :
    s.requestsFrom c j = (if j = i ∧ q.origin.conn = c then [q] else []) ++
      { s with requests := Function.update s.requests i rest }.requestsFrom c j := by
  rw [requestsFrom, requestsFrom]
  dsimp only
  rcases eq_or_ne j i with rfl | hne
  · rw [Function.update_self, hq, List.filter_cons]
    by_cases hc : q.origin.conn = c <;> simp [hc]
  · rw [Function.update_of_ne hne, if_neg fun heq => hne heq.1, List.nil_append]

theorem responsesFrom_popResponse {x : ForwardedResponse n} {rest : List (ForwardedResponse n)}
    (hx : s.responses i = x :: rest) :
    s.responsesFrom c = (if c.reactor = i ∧ x.origin.conn = c then [x] else []) ++
      { s with responses := Function.update s.responses i rest }.responsesFrom c := by
  rw [responsesFrom, responsesFrom]
  dsimp only
  rcases eq_or_ne c.reactor i with rfl | hne
  · rw [Function.update_self, hx, List.filter_cons]
    by_cases hc : x.origin.conn = c <;> simp [hc]
  · rw [Function.update_of_ne hne, if_neg fun heq => hne heq.1, List.nil_append]

theorem LeavesAlone.owner (h : s.LeavesAlone i fd s') : s'.owner i fd = s.owner i fd := by
  rw [System.owner, System.owner, h.2]

end System

/-! ### What is seen of a connection -/

namespace Server

section

variable [NeZero n] (srv : Server n) (c : ConnId n)

/-- The request that a step reads from connection `c`. -/
def askedOn (s : System n) : ServerInput n → Option Request
  | .event i fd ev read _ =>
    if s.terminated ∨ ev.errHup ∨ ¬ ev.readable ∨ s.owner i fd ≠ some c then none
    else srv.requestRead s i fd read
  | .accept .. | .drainRequest .. | .drainResponse _ | .harvest .. => none

/-- The request that `handle_read` takes from a connection and handles, with its response. -/
def answeredNow (s : System n) (i : Fin n) (fd : ℕ) (read : ReadEnv) :
    Option (Request × Response) :=
  (srv.requestRead s i fd read).bind fun req =>
    if srv.router.target srv.records.metadata i req = i then
      (srv.handle s i read.broker req).2.map fun resp => (req, resp)
    else none

/-- The request of connection `c` that a step handles, with the response of the broker. -/
def answeredOn (s : System n) : ServerInput n → Option (Request × Response)
  | .event i fd ev read _ =>
    if s.terminated ∨ ev.errHup ∨ ¬ ev.readable ∨ s.owner i fd ≠ some c then none
    else srv.answeredNow s i fd read
  | .drainRequest i env =>
    if s.terminated then none
    else
      (s.requests i).head?.bind fun q =>
        if q.origin.conn = c then
          (srv.handle s i env q.request).2.map fun resp => (q.request, resp)
        else none
  | .accept .. | .drainResponse _ | .harvest .. => none

/-- The bytes that a step sends on connection `c`. -/
def sentOn (s : System n) : ServerInput n → Option Bytes
  | .event i fd ev read write =>
    if s.terminated ∨ ev.errHup ∨ s.owner i fd ≠ some c then none
    else
      let s' := (srv.readPart s i fd c ev read).1
      if ev.writable ∧ (s.sockets fd).any OpenSocket.wantWrite ∧ ¬ s'.terminated then
        some ((s'.connection i fd).sentBytes write.sent)
      else none
  | .accept .. | .drainRequest .. | .drainResponse _ | .harvest .. => none

end

/-- A splice of connection `c` completes only while the connection waits for it. -/
def CompletesInTurn (c : ConnId n) (s : System n) : ServerInput n → Prop
  | .harvest i k _ => ∀ fd file len, s.owner i fd = some c →
    (s.rings i)[k]? = some (.splice fd file len) → (s.connection i fd).splicePending = true
  | .accept .. | .event .. | .drainRequest .. | .drainResponse _ => True

/-! ### The invariant -/

/-- The conversation on `c` so far: the requests read, those answered with their responses, and the
bytes sent. -/
structure Converses (srv : Server n) (c : ConnId n) (reqs : List Request)
    (pairs : List (Request × Response)) (sent : Bytes) (s : System n) : Prop where
  ordered : pairs.map Prod.fst <+: reqs
  /-- What is not answered waits at one reactor. -/
  inTurn : s.terminated = false → ∃ j, (∀ j', j' ≠ j → s.requestsFrom c j' = []) ∧
    pairs.map Prod.fst ++ (s.requestsFrom c j).map ForwardedRequest.request = reqs
  /-- What is not sent waits in the buffers and in the queue of the reactor. -/
  output : ∀ {i fd}, s.owner i fd = some c → ∃ rest, s.Flows i fd c rest ∧
    sent ++ rest ++ (s.responsesFrom c).flatMap ForwardedResponse.data =
      pairs.flatMap fun p => srv.serialize p.2
  requests : ∀ {i fd}, s.owner i fd = some c → ∀ j, ∀ q ∈ s.requestsFrom c j, q.clientFd = fd
  responses : ∀ x ∈ s.responsesFrom c,
    x.data ≠ [] ∧ ∀ i fd, s.owner i fd = some c → x.clientFd = fd
  unused : s.accepted ≤ c.serial → reqs = [] ∧ pairs = [] ∧ sent = [] ∧
    (∀ j, s.requestsFrom c j = []) ∧ s.responsesFrom c = []

open Connection (ignoresSending_sameReader)

variable {srv : Server n} {s s' : System n} {c : ConnId n} {i : Fin n} {fd : ℕ}
  {reqs : List Request} {pairs : List (Request × Response)} {sent : Bytes}

namespace Converses

/-- A step that takes nothing from the connection and gives it nothing. -/
theorem frame (h : srv.Converses c reqs pairs sent s) (hrunning : s.terminated = false)
    (hrequests : ∀ j, s'.requestsFrom c j = s.requestsFrom c j)
    (hresponses : s'.responsesFrom c = s.responsesFrom c) (haccepted : s.accepted ≤ s'.accepted)
    (hflows : ∀ {i fd}, s'.owner i fd = some c → s.owner i fd = some c ∧
      ∀ {rest}, s.Flows i fd c rest → s'.Flows i fd c rest) :
    srv.Converses c reqs pairs sent s' where
  ordered := h.ordered
  inTurn _ := by
    obtain ⟨j, hone, heq⟩ := h.inTurn hrunning
    exact ⟨j, fun j' hj' => (hrequests j').trans (hone j' hj'), (hrequests j) ▸ heq⟩
  output howner := by
    obtain ⟨rest, hrest, heq⟩ := h.output (hflows howner).1
    exact ⟨rest, (hflows howner).2 hrest, hresponses ▸ heq⟩
  requests howner j q hq := h.requests (hflows howner).1 j q (hrequests j ▸ hq)
  responses x hx := by
    obtain ⟨hdata, hfd⟩ := h.responses x (hresponses ▸ hx)
    exact ⟨hdata, fun i fd howner => hfd i fd (hflows howner).1⟩
  unused hle := by
    obtain ⟨hreqs, hpairs, hsent, hnone, hresp⟩ := h.unused (haccepted.trans hle)
    exact ⟨hreqs, hpairs, hsent, fun j => (hrequests j).trans (hnone j), hresponses.trans hresp⟩

/-- A step about another connection. -/
theorem of_leavesAlone (h : srv.Converses c reqs pairs sent s) (hrunning : s.terminated = false)
    (hrequests : ∀ j, s'.requestsFrom c j = s.requestsFrom c j)
    (hresponses : s'.responsesFrom c = s.responsesFrom c) (haccepted : s.accepted ≤ s'.accepted)
    (halone : ∀ {i fd}, s'.owner i fd = some c → s.LeavesAlone i fd s') :
    srv.Converses c reqs pairs sent s' :=
  h.frame hrunning hrequests hresponses haccepted fun howner =>
    ⟨(halone howner).owner ▸ howner, fun hflows => hflows.of_leavesAlone (halone howner)⟩

/-- A connection is accepted. If it is this one, nothing has been said on it. -/
theorem handleAccept (h : srv.Converses c reqs pairs sent s) (hrunning : s.terminated = false)
    (hnumbered : s.Numbered) (hfree : s.sockets fd = none) :
    srv.Converses c reqs pairs sent (s.handleAccept i fd true) := by
  have hqueues : (s.handleAccept i fd true).requests = s.requests ∧
      (s.handleAccept i fd true).responses = s.responses := by
    rw [System.handleAccept, if_pos ⟨rfl, hfree⟩]
    exact ⟨rfl, rfl⟩
  have hrequests := System.requestsFrom_congr (c := c) hqueues.1
  have hresponses := System.responsesFrom_congr (c := c) hqueues.2
  rcases eq_or_ne c ⟨i, s.accepted⟩ with rfl | hne
  · obtain ⟨rfl, rfl, rfl, hnone, hresp⟩ := h.unused le_rfl
    have hnone' := fun j => (hrequests j).trans (hnone j)
    have hresp' := hresponses.trans hresp
    refine ⟨List.prefix_rfl, fun _ => ⟨i, fun j _ => hnone' j, ?_⟩, fun {j fd'} howner => ?_,
      fun _ j q hq => ?_, fun x hx => ?_, fun _ => ⟨rfl, rfl, rfl, hnone', hresp'⟩⟩
    · rw [hnone']
      rfl
    · rcases System.owner_handleAccept_cases hfree howner with ⟨rfl, rfl, -⟩ | ⟨-, hold⟩
      · exact ⟨[], System.flows_handleAccept hfree, by rw [hresp']; rfl⟩
      · exact absurd (hnumbered.below hold) (lt_irrefl _)
    · rw [hnone'] at hq
      cases hq
    · rw [hresp'] at hx
      cases hx
  · refine h.of_leavesAlone hrunning hrequests hresponses ?_ fun {j fd'} howner => ?_
    · rw [System.accepted_handleAccept hfree]
      exact Nat.le_succ _
    · rcases System.owner_handleAccept_cases hfree howner with ⟨-, -, rfl⟩ | ⟨-, hold⟩
      · exact absurd rfl hne
      · obtain ⟨b, hsocket, -⟩ := (s.owner_eq_some j fd').mp hold
        exact System.leavesAlone_handleAccept (by simp [hsocket]) true

/-- A connection is closed. -/
theorem closeConnection (h : srv.Converses c reqs pairs sent s) (hrunning : s.terminated = false) :
    srv.Converses c reqs pairs sent (s.closeConnection i fd) := by
  refine h.of_leavesAlone hrunning (fun _ => rfl) rfl le_rfl fun {j fd'} howner => ?_
  refine System.leavesAlone_closeConnection ?_
  rintro rfl
  simp [System.owner, System.closeConnection] at howner

/-- A step of the connection itself, which is open under `fd` and under no other number. -/
theorem own (h : srv.Converses c reqs pairs sent s) (howner : s.owner i fd = some c)
    {reqs' : List Request} {pairs' : List (Request × Response)} {sent' : Bytes}
    (honly : ∀ {j fd'}, s'.owner j fd' = some c → j = i ∧ fd' = fd)
    (hused : c.serial < s'.accepted) (hordered : pairs'.map Prod.fst <+: reqs')
    (hinTurn : s'.terminated = false → ∃ j, (∀ j', j' ≠ j → s'.requestsFrom c j' = []) ∧
      pairs'.map Prod.fst ++ (s'.requestsFrom c j).map ForwardedRequest.request = reqs')
    (hrequests : ∀ j, ∀ q ∈ s'.requestsFrom c j, q.clientFd = fd)
    (hresponses : s'.responsesFrom c = s.responsesFrom c)
    (houtput : s'.owner i fd = some c → ∃ rest, s'.Flows i fd c rest ∧
      sent' ++ rest ++ (s'.responsesFrom c).flatMap ForwardedResponse.data =
        pairs'.flatMap fun p => srv.serialize p.2) :
    srv.Converses c reqs' pairs' sent' s' where
  ordered := hordered
  inTurn := hinTurn
  output hopen := by
    obtain ⟨rfl, rfl⟩ := honly hopen
    exact houtput hopen
  requests hopen j q hq := by
    obtain ⟨rfl, rfl⟩ := honly hopen
    exact hrequests j q hq
  responses x hx := by
    obtain ⟨hdata, hfd⟩ := h.responses x (hresponses ▸ hx)
    refine ⟨hdata, fun j fd' hopen => ?_⟩
    obtain ⟨rfl, rfl⟩ := honly hopen
    exact hfd j fd' howner
  unused hle := absurd hused (not_lt.mpr hle)

/-- A request of the connection goes to the reactor where the earlier ones wait. -/
theorem forward (h : srv.Converses c reqs pairs sent s) (hrunning : s.terminated = false)
    (howner : s.owner i fd = some c) (r : FrameReader) (req : Request) {target : Fin n}
    (hnumbered : s.Numbered)
    (hturn : ∀ j, ∀ q ∈ s.requests j, q.origin.conn = c → j = target) :
    srv.Converses c (reqs ++ [req]) pairs sent
      ((counted s i fd r).pushRequest target ⟨fd, i, req, ⟨c, s.reads⟩⟩) := by
  have hpush (j : Fin n) : ((counted s i fd r).pushRequest target
      ⟨fd, i, req, ⟨c, s.reads⟩⟩).requestsFrom c j =
        s.requestsFrom c j ++ if j = target then [⟨fd, i, req, ⟨c, s.reads⟩⟩] else [] := by
    rw [System.requestsFrom_pushRequest]
    simp only [and_true]
    rfl
  have helsewhere (j : Fin n) (hj : j ≠ target) : s.requestsFrom c j = [] :=
    System.requestsFrom_eq_nil fun q hq hc => hj (hturn j q hq hc)
  refine h.own howner (fun hopen => ?_) (hnumbered.below howner)
    (h.ordered.trans (List.prefix_append _ _)) (fun _ => ⟨target, fun j hj => ?_, ?_⟩)
    (fun j q hq => ?_) rfl fun _ => ?_
  · obtain ⟨rfl, rfl⟩ := hnumbered.unique howner hopen
    exact ⟨rfl, rfl⟩
  · rw [hpush, helsewhere j hj, if_neg hj]
    rfl
  · -- where something waited before is the reactor the request goes to
    obtain ⟨j, hone, heq⟩ := h.inTurn hrunning
    have htarget : pairs.map Prod.fst ++
        (s.requestsFrom c target).map ForwardedRequest.request = reqs := by
      rcases eq_or_ne target j with rfl | hne
      · exact heq
      · rw [hone target hne]
        rwa [helsewhere j (Ne.symm hne)] at heq
    rw [hpush, if_pos rfl, List.map_append, ← List.append_assoc, htarget]
    rfl
  · rw [hpush] at hq
    rcases List.mem_append.mp hq with hq | hq
    · exact h.requests howner j q hq
    · split at hq
      · rw [List.mem_singleton.mp hq]
      · cases hq
  · obtain ⟨rest, hflows, heq⟩ := h.output howner
    exact ⟨rest, (hflows.setReader r).of_leavesAlone ⟨rfl, rfl⟩, heq⟩

end Converses

theorem accepted_answerLocally (origin : Origin n) (env : BrokerEnv) (req : Request) :
    (srv.answerLocally s i fd origin env req).1.accepted = s.accepted := by
  rcases srv.answerLocally_cases s i env req fd origin with
    ⟨-, heq⟩ | ⟨resp, -, ⟨-, heq⟩ | ⟨-, heq⟩⟩ <;> rw [heq]
  · rfl
  · rfl
  · exact System.sameWork_putResponse.accepted

namespace Converses

/-- A request of the connection is answered on the spot when nothing of the connection waits. -/
theorem answer (h : srv.Converses c reqs pairs sent s) (hrunning : s.terminated = false)
    (howner : s.owner i fd = some c) (r : FrameReader) (env : BrokerEnv) (req : Request)
    (hnumbered : s.Numbered) (hwrites : ∀ resp, srv.serialize resp ≠ [])
    (hturn : ∀ j, ∀ q ∈ s.requests j, q.origin.conn ≠ c)
    (hidle : ∀ x ∈ s.responses i, x.origin.conn ≠ c) :
    srv.Converses c (reqs ++ [req])
      (pairs ++ ((srv.handle s i env req).2.map fun resp => (req, resp)).toList) sent
      (srv.answerLocally (counted s i fd r) i fd ⟨c, s.reads⟩ env req).1 := by
  obtain ⟨-, -, hreactor⟩ := (s.owner_eq_some i fd).mp howner
  have hnone (j : Fin n) : s.requestsFrom c j = [] := System.requestsFrom_eq_nil (hturn j)
  have hresp : s.responsesFrom c = [] := System.responsesFrom_eq_nil (hreactor ▸ hidle)
  have hall : pairs.map Prod.fst = reqs := by
    obtain ⟨j, -, heq⟩ := h.inTurn hrunning
    rwa [hnone, List.map_nil, List.append_nil] at heq
  obtain ⟨hrequests, hresponses⟩ := srv.queues_answerLocally (counted s i fd r) i env req fd
    ⟨c, s.reads⟩
  have hnone' (j : Fin n) : (srv.answerLocally (counted s i fd r) i fd ⟨c, s.reads⟩ env
      req).1.requestsFrom c j = [] := (System.requestsFrom_congr hrequests j).trans (hnone j)
  have hresp' : (srv.answerLocally (counted s i fd r) i fd ⟨c, s.reads⟩ env
      req).1.responsesFrom c = s.responsesFrom c := System.responsesFrom_congr hresponses
  -- so that only the answer and the buffers are left to look at
  have hkeep {pairs' : List (Request × Response)} (hordered : pairs'.map Prod.fst <+: reqs ++ [req])
      (hinTurn : (srv.answerLocally (counted s i fd r) i fd ⟨c, s.reads⟩ env req).1.terminated =
        false → pairs'.map Prod.fst = reqs ++ [req])
      (houtput : (srv.answerLocally (counted s i fd r) i fd ⟨c, s.reads⟩ env req).1.owner i fd =
        some c → ∃ rest, (srv.answerLocally (counted s i fd r) i fd ⟨c, s.reads⟩ env
          req).1.Flows i fd c rest ∧ sent ++ rest = pairs'.flatMap fun p => srv.serialize p.2) :
      srv.Converses c (reqs ++ [req]) pairs' sent
        (srv.answerLocally (counted s i fd r) i fd ⟨c, s.reads⟩ env req).1 := by
    refine h.own howner (fun hopen => ?_) ?_ hordered (fun hterm => ⟨i, fun j _ => hnone' j, ?_⟩)
      (fun j q hq => ?_) hresp' fun hopen => ?_
    · have hold : s.owner _ _ = some c := (entrywise_answerLocally _ env req _ _ c hopen).1
      obtain ⟨rfl, rfl⟩ := hnumbered.unique howner hold
      exact ⟨rfl, rfl⟩
    · rw [accepted_answerLocally]
      exact hnumbered.below howner
    · rw [hnone', List.map_nil, List.append_nil]
      exact hinTurn hterm
    · rw [hnone'] at hq
      cases hq
    · obtain ⟨rest, hflows, heq⟩ := houtput hopen
      exact ⟨rest, hflows, by rw [hresp', hresp, List.flatMap_nil, List.append_nil, heq]⟩
  obtain ⟨rest, hflows, hbytes⟩ := h.output howner
  rw [hresp, List.flatMap_nil, List.append_nil] at hbytes
  -- the handler sees neither the connection nor the count of reads
  have hsame : (srv.handle (counted s i fd r) i env req).2 = (srv.handle s i env req).2 := rfl
  have hhandled : (srv.handle (counted s i fd r) i env req).1.Flows i fd c rest :=
    (hflows.setReader r).of_leavesAlone ⟨rfl, rfl⟩
  rcases srv.answerLocally_cases (counted s i fd r) i env req fd ⟨c, s.reads⟩ with
    ⟨hnil, heq⟩ | ⟨resp, hsome, hcases⟩
  · rw [← hsame, hnil, Option.map_none, Option.toList_none, List.append_nil]
    refine hkeep (h.ordered.trans (List.prefix_append _ _)) (fun hterm => ?_) fun _ => ?_
    · rw [heq, terminated_handle, hnil] at hterm
      cases hterm
    · rw [heq]
      exact ⟨rest, hhandled, hbytes⟩
  · rw [← hsame, hsome, Option.map_some]
    have hpairs : (pairs ++ (some (req, resp)).toList).map Prod.fst = reqs ++ [req] := by
      rw [List.map_append, hall]
      rfl
    refine hkeep (by rw [hpairs]) (fun _ => hpairs) fun hopen => ?_
    rcases hcases with ⟨-, heq⟩ | ⟨-, heq⟩ <;> rw [heq] at hopen ⊢
    · rw [System.owner_closeConnection] at hopen
      cases hopen
    · refine ⟨rest ++ srv.serialize resp, hhandled.putResponse resp.lastSplice (hwrites resp), ?_⟩
      rw [← List.append_assoc, hbytes, List.flatMap_append]
      simp

/-- `handle_write` on the connection. -/
theorem handleWrite (h : srv.Converses c reqs pairs sent s) (hrunning : s.terminated = false)
    (howner : s.owner i fd = some c) (hnumbered : s.Numbered)
    (hbuf : (s.connection i fd).writeBuf ≠ []) (env : WriteEnv) :
    srv.Converses c reqs pairs (sent ++ (s.connection i fd).sentBytes env.sent)
      (s.handleWrite i fd env) := by
  have hsame : s.SameWork (s.handleWrite i fd env) := System.sameWork_handleWrite
  have hrequests := System.requestsFrom_congr (c := c) hsame.queues.1
  have hresponses := System.responsesFrom_congr (c := c) hsame.queues.2
  refine h.own howner (fun hopen => ?_) (hsame.accepted ▸ hnumbered.below howner) h.ordered
    (fun _ => ?_) (fun j q hq => h.requests howner j q (hrequests j ▸ hq)) hresponses
    fun hopen => ?_
  · have hold : s.owner _ _ = some c :=
      (System.entrywise_handleWrite ignoresSending_sameReader env _ _ c hopen).1
    obtain ⟨rfl, rfl⟩ := hnumbered.unique howner hold
    exact ⟨rfl, rfl⟩
  · simp only [hrequests]
    exact h.inTurn hrunning
  · obtain ⟨rest, hflows, hbytes⟩ := h.output howner
    obtain ⟨rest', hflows', rfl⟩ := hflows.handleWrite hbuf hopen
    refine ⟨rest', hflows', ?_⟩
    rw [hresponses, ← hbytes]
    simp only [List.append_assoc]

/-- `handle_write` under a descriptor that is not the one of the connection. -/
theorem handleWrite_of_ne (h : srv.Converses c reqs pairs sent s) (hrunning : s.terminated = false)
    (hother : ∀ j, s.owner j fd ≠ some c) (env : WriteEnv) :
    srv.Converses c reqs pairs sent (s.handleWrite i fd env) := by
  have hsame : s.SameWork (s.handleWrite i fd env) := System.sameWork_handleWrite
  refine h.of_leavesAlone hrunning (System.requestsFrom_congr hsame.queues.1)
    (System.responsesFrom_congr hsame.queues.2) hsame.accepted.ge
    fun {j fd'} hopen => System.leavesAlone_handleWrite ?_ env
  have hold : s.owner j fd' = some c :=
    (System.entrywise_handleWrite ignoresSending_sameReader env j fd' c hopen).1
  rintro rfl
  exact hother j hold

/-- What is sent does not matter when the connection is not open. -/
theorem of_closed (h : srv.Converses c reqs pairs sent s) (hclosed : ∀ i fd, s.owner i fd ≠ some c)
    (hused : c.serial < s.accepted) (sent' : Bytes) : srv.Converses c reqs pairs sent' s where
  ordered := h.ordered
  inTurn := h.inTurn
  output howner := absurd howner (hclosed _ _)
  requests := h.requests
  responses := h.responses
  unused hle := absurd hused (not_lt.mpr hle)

/-- A forwarded request of the connection is handled; the response goes back to its reactor. -/
theorem relay (h : srv.Converses c reqs pairs sent s) (hrunning : s.terminated = false)
    (hrouted : s.Routed) (hwrites : ∀ resp, srv.serialize resp ≠ []) (env : BrokerEnv)
    {q : ForwardedRequest n} {rest : List (ForwardedRequest n)} (hq : s.requests i = q :: rest)
    (hc : q.origin.conn = c) :
    srv.Converses c reqs
      (pairs ++ ((srv.handle s i env q.request).2.map fun resp => (q.request, resp)).toList) sent
      (srv.drainRequest s i env) := by
  have hpop (j : Fin n) := System.requestsFrom_popRequest (c := c) hq j
  have hhead : s.requestsFrom c i =
      q :: { s with requests := Function.update s.requests i rest }.requestsFrom c i := by
    rw [hpop i, if_pos ⟨rfl, hc⟩]
    rfl
  have hless (j : Fin n) : { s with requests := Function.update s.requests i rest }.requestsFrom c j
      ⊆ s.requestsFrom c j := by
    rw [hpop j]
    exact List.subset_append_right _ _
  -- the request was the first of those that wait
  obtain ⟨j, hone, heq⟩ := h.inTurn hrunning
  obtain rfl : j = i := by
    by_contra hne
    rw [hone i (Ne.symm hne)] at hhead
    cases hhead
  rcases hresp : (srv.handle s j env q.request).2 with _ | resp
  · rw [srv.drainRequest_of_none s j hq hresp, Option.map_none, Option.toList_none, List.append_nil]
    refine ⟨h.ordered, fun hterm => ?_, fun howner => ?_,
      fun howner j' q' hq' => h.requests howner j' q' (hless j' hq'), h.responses, fun hle => ?_⟩
    · rw [terminated_handle] at hterm
      change (srv.handle s j env q.request).2.isNone = false at hterm
      rw [hresp] at hterm
      cases hterm
    · obtain ⟨out, hflows, hbytes⟩ := h.output howner
      exact ⟨out, hflows.of_leavesAlone ⟨rfl, rfl⟩, hbytes⟩
    · obtain ⟨-, -, -, hnone, -⟩ := h.unused hle
      rw [hnone] at hhead
      cases hhead
  · have hback : q.sourceReactorId = c.reactor := hc ▸ hrouted.source q (hq ▸ List.mem_cons_self)
    rw [srv.drainRequest_of_some s j hq hresp, Option.map_some, hback]
    have hresponses : ((srv.handle { s with requests := Function.update s.requests j rest } j env
        q.request).1.pushResponse c.reactor ⟨q.clientFd, srv.serialize resp, resp.lastSplice,
          q.origin⟩).responsesFrom c = s.responsesFrom c ++
            [⟨q.clientFd, srv.serialize resp, resp.lastSplice, q.origin⟩] := by
      rw [System.responsesFrom_pushResponse, if_pos ⟨rfl, hc⟩]
      rfl
    have hpairs : (pairs ++ [(q.request, resp)]).map Prod.fst ++
        ({ s with requests := Function.update s.requests j rest }.requestsFrom c j).map
          ForwardedRequest.request = reqs := by
      rw [← heq, hhead]
      simp
    refine ⟨⟨_, hpairs⟩, fun _ => ⟨j, fun j' hj' => ?_, hpairs⟩, fun howner => ?_,
      fun howner j' q' hq' => h.requests howner j' q' (hless j' hq'), fun x hx => ?_,
      fun hle => ?_⟩
    · exact List.subset_nil.mp (hone j' hj' ▸ hless j')
    · obtain ⟨out, hflows, hbytes⟩ := h.output howner
      refine ⟨out, hflows.of_leavesAlone ⟨rfl, rfl⟩, ?_⟩
      rw [hresponses, List.flatMap_append, ← List.append_assoc, hbytes, List.flatMap_append]
      simp
    · rw [hresponses] at hx
      rcases List.mem_append.mp hx with hx | hx
      · exact h.responses x hx
      · obtain rfl := List.mem_singleton.mp hx
        refine ⟨hwrites resp, fun i' fd' howner => ?_⟩
        exact h.requests howner j q (hhead ▸ List.mem_cons_self)
    · obtain ⟨-, -, -, hnone, -⟩ := h.unused hle
      rw [hnone] at hhead
      cases hhead

/-- A forwarded request is handled. -/
theorem drainRequest (h : srv.Converses c reqs pairs sent s) (hrunning : s.terminated = false)
    (hrouted : s.Routed) (hwrites : ∀ resp, srv.serialize resp ≠ []) (env : BrokerEnv)
    {q : ForwardedRequest n} {rest : List (ForwardedRequest n)} (hq : s.requests i = q :: rest) :
    srv.Converses c reqs (pairs ++ (if q.origin.conn = c then
      (srv.handle s i env q.request).2.map fun resp => (q.request, resp) else none).toList) sent
      (srv.drainRequest s i env) := by
  split
  · next hc => exact h.relay hrunning hrouted hwrites env hq hc
  next hc =>
  rw [Option.toList_none, List.append_nil]
  have hpop (j : Fin n) :
      { s with requests := Function.update s.requests i rest }.requestsFrom c j =
        s.requestsFrom c j := by
    rw [System.requestsFrom_popRequest hq, if_neg fun heq => hc heq.2, List.nil_append]
  have hqueues : (∀ j, (srv.drainRequest s i env).requestsFrom c j = s.requestsFrom c j) ∧
      (srv.drainRequest s i env).responsesFrom c = s.responsesFrom c := by
    obtain ⟨popped, rfl, heq | ⟨resp, heq⟩⟩ := srv.drainRequest_cases s i env hq <;> rw [heq]
    · exact ⟨hpop, rfl⟩
    · refine ⟨hpop, ?_⟩
      rw [System.responsesFrom_pushResponse, if_neg fun heq => hc heq.2, List.append_nil]
      rfl
  exact h.of_leavesAlone hrunning hqueues.1 hqueues.2 (srv.accepted_drainRequest env).ge
    fun _ => leavesAlone_drainRequest env

/-- A response that has come back is put into the buffers of the connection. -/
theorem deliver (h : srv.Converses c reqs pairs sent s) (hrunning : s.terminated = false)
    {x : ForwardedResponse n} {rest : List (ForwardedResponse n)} (hi : c.reactor = i)
    (hx : s.responses i = x :: rest) (hc : x.origin.conn = c) :
    srv.Converses c reqs pairs sent (Server.drainResponse s i).1 := by
  have hpop : s.responsesFrom c =
      x :: { s with responses := Function.update s.responses i rest }.responsesFrom c := by
    rw [System.responsesFrom_popResponse hx, if_pos ⟨hi, hc⟩]
    rfl
  obtain ⟨hdata, hfd⟩ := h.responses x (hpop ▸ List.mem_cons_self)
  have hqueues : (Server.drainResponse s i).1.requests = s.requests ∧
      (Server.drainResponse s i).1.responsesFrom c =
        { s with responses := Function.update s.responses i rest }.responsesFrom c := by
    obtain ⟨popped, rfl, ⟨-, heq⟩ | ⟨conn, -, heq⟩⟩ := drainResponse_cases s i hx <;> rw [heq]
    · exact ⟨rfl, rfl⟩
    · obtain ⟨hrequests, hresponses⟩ := System.sameWork_putResponse.queues
        (s := { s with responses := Function.update s.responses i rest })
      exact ⟨hrequests, System.responsesFrom_congr hresponses⟩
  have hold {j : Fin n} {fd : ℕ} (hopen : (Server.drainResponse s i).1.owner j fd = some c) :
      s.owner j fd = some c := (entrywise_drainResponse j fd c hopen).1
  refine ⟨h.ordered, fun _ => ?_, fun {j fd} hopen => ?_, fun hopen j q hq => ?_, fun y hy => ?_,
    fun hle => ?_⟩
  · simp only [System.requestsFrom_congr hqueues.1]
    exact h.inTurn hrunning
  · obtain rfl := hfd j fd (hold hopen)
    obtain ⟨-, -, rfl⟩ := (s.owner_eq_some j x.clientFd).mp (hold hopen)
    subst hi
    obtain ⟨out, hflows, hbytes⟩ := h.output (hold hopen)
    have hpopped : { s with responses := Function.update s.responses c.reactor rest }.Flows
        c.reactor x.clientFd c out := hflows.of_leavesAlone ⟨rfl, rfl⟩
    rw [hqueues.2]
    obtain ⟨popped, rfl, ⟨hnone, -⟩ | ⟨conn, hconn, heq⟩⟩ := drainResponse_cases s c.reactor hx
    · exact absurd hnone hflows.entry
    · have hentry : conn = { s with responses := Function.update s.responses c.reactor rest
          }.connection c.reactor x.clientFd := by
        rw [System.connection]
        dsimp only
        rw [hconn]
        rfl
      rw [heq, hentry]
      refine ⟨out ++ x.data, hpopped.putResponse x.splice hdata, ?_⟩
      rw [← hbytes, hpop]
      simp
  · exact h.requests (hold hopen) j q (System.requestsFrom_congr hqueues.1 j ▸ hq)
  · rw [hqueues.2] at hy
    obtain ⟨hdata', hfd'⟩ := h.responses y (hpop ▸ List.mem_cons_of_mem x hy)
    exact ⟨hdata', fun j fd hopen => hfd' j fd (hold hopen)⟩
  · rw [accepted_drainResponse] at hle
    obtain ⟨-, -, -, -, hnone⟩ := h.unused hle
    rw [hnone] at hpop
    cases hpop

/-- A response that has come back. -/
theorem drainResponse (h : srv.Converses c reqs pairs sent s) (hrunning : s.terminated = false)
    (hrouted : s.Routed) {x : ForwardedResponse n} {rest : List (ForwardedResponse n)}
    (hx : s.responses i = x :: rest) :
    srv.Converses c reqs pairs sent (Server.drainResponse s i).1 := by
  have hmem : x ∈ s.responses i := hx ▸ List.mem_cons_self
  by_cases hc : x.origin.conn = c
  · exact h.deliver hrunning (hc ▸ hrouted.reactor x hmem) hx hc
  have hqueues : (Server.drainResponse s i).1.requests = s.requests ∧
      (Server.drainResponse s i).1.responsesFrom c = s.responsesFrom c := by
    have hpop := System.responsesFrom_popResponse (c := c) hx
    rw [if_neg fun heq => hc heq.2, List.nil_append] at hpop
    obtain ⟨popped, rfl, ⟨-, heq⟩ | ⟨conn, -, heq⟩⟩ := drainResponse_cases s i hx <;> rw [heq]
    · exact ⟨rfl, hpop.symm⟩
    · obtain ⟨hrequests, hresponses⟩ := System.sameWork_putResponse.queues
        (s := { s with responses := Function.update s.responses i rest })
      exact ⟨hrequests, (System.responsesFrom_congr hresponses).trans hpop.symm⟩
  refine h.of_leavesAlone hrunning (System.requestsFrom_congr hqueues.1) hqueues.2
    accepted_drainResponse.ge fun {j fd} hopen => leavesAlone_drainResponse fun x' hx' => ?_
  obtain rfl : x = x' := by simpa [hx] using hx'
  have hold : s.owner j fd = some c := (entrywise_drainResponse j fd c hopen).1
  obtain ⟨out, ⟨conn, want, hholds, -, -⟩, -⟩ := h.output hold
  refine hholds.elsewhere ?_
  rintro ⟨rfl, rfl⟩
  -- the entry belongs to the connection of the response
  have hres := hrouted.responses x hmem
  rw [System.Reserved, hrouted.reactor x hmem, hholds.entry] at hres
  exact hc (Option.some.inj ((hres (Option.some_ne_none conn)).symm.trans hold))

theorem harvest (h : srv.Converses c reqs pairs sent s) (hrunning : s.terminated = false)
    {k written : ℕ} (hturn : CompletesInTurn c s (.harvest i k written)) :
    srv.Converses c reqs pairs sent (s.harvest i k written) := by
  have hsame : s.SameWork (s.harvest i k written) := System.sameWork_harvest
  refine h.frame hrunning (System.requestsFrom_congr hsame.queues.1)
    (System.responsesFrom_congr hsame.queues.2) hsame.accepted.ge fun {j fd} hopen => ?_
  have hold : s.owner j fd = some c :=
    (System.entrywise_harvest ignoresSending_sameReader k written j fd c hopen).1
  refine ⟨hold, fun hflows => hflows.harvest i k written fun file len hi hop => ?_⟩
  subst hi
  exact hturn fd file len hold hop

variable [NeZero n]

/-- `handle_read` on the connection. -/
theorem handleRead (h : srv.Converses c reqs pairs sent s) (hrunning : s.terminated = false)
    (howner : s.owner i fd = some c) (hnumbered : s.Numbered)
    (hwrites : ∀ resp, srv.serialize resp ≠ []) {read : ReadEnv}
    (hturn : ∀ req ∈ srv.requestRead s i fd read,
      (∀ j, ∀ q ∈ s.requests j, q.origin.conn = c →
        j = srv.router.target srv.records.metadata i req ∧ j ≠ i) ∧
      (srv.router.target srv.records.metadata i req = i →
        ∀ x ∈ s.responses i, x.origin.conn ≠ c)) :
    srv.Converses c (reqs ++ (srv.requestRead s i fd read).toList)
      (pairs ++ (srv.answeredNow s i fd read).toList) sent (srv.handleRead s i fd c read).1 := by
  have hread := srv.readOutcome s i fd c read
  rw [answeredNow]
  generalize srv.requestRead s i fd read = request at hread hturn ⊢
  generalize srv.handleRead s i fd c read = out at hread ⊢
  cases hread with
  | waited r =>
    simp only [Option.bind_none, Option.toList_none, List.append_nil]
    refine h.own howner (fun hopen => ?_) (hnumbered.below howner) h.ordered
      (fun _ => h.inTurn hrunning) (h.requests howner) rfl fun _ => ?_
    · obtain ⟨rfl, rfl⟩ := hnumbered.unique howner hopen
      exact ⟨rfl, rfl⟩
    · obtain ⟨rest, hflows, heq⟩ := h.output howner
      exact ⟨rest, hflows.setReader r, heq⟩
  | closed | refused =>
    simp only [Option.bind_none, Option.toList_none, List.append_nil]
    exact h.closeConnection hrunning
  | forwarded r body sock req hframe hparse htarget =>
    rw [Option.bind_some, if_neg htarget, Option.toList_none, List.append_nil]
    exact h.forward hrunning howner r req hnumbered fun j q hq hc =>
      ((hturn req rfl).1 j q hq hc).1
  | handled r body sock req hframe hparse htarget =>
    rw [Option.bind_some, if_pos htarget]
    refine h.answer hrunning howner r read.broker req hnumbered hwrites (fun j q hq hc => ?_)
      ((hturn req rfl).2 htarget)
    obtain ⟨hj, hne⟩ := (hturn req rfl).1 j q hq hc
    exact hne (hj.trans htarget)

/-- `handle_read` on another connection. -/
theorem handleRead_of_ne (h : srv.Converses c reqs pairs sent s) (hrunning : s.terminated = false)
    {c' : ConnId n} (hne : c' ≠ c) (hother : ∀ j, s.owner j fd ≠ some c) (read : ReadEnv) :
    srv.Converses c reqs pairs sent (srv.handleRead s i fd c' read).1 := by
  have hqueues : (∀ j, (srv.handleRead s i fd c' read).1.requestsFrom c j = s.requestsFrom c j) ∧
      (srv.handleRead s i fd c' read).1.responsesFrom c = s.responsesFrom c := by
    have hread := srv.readOutcome s i fd c' read
    generalize srv.requestRead s i fd read = request at hread
    generalize srv.handleRead s i fd c' read = out at hread ⊢
    cases hread with
    | waited | closed | refused => exact ⟨fun _ => rfl, rfl⟩
    | forwarded r body sock req =>
      refine ⟨fun j => ?_, rfl⟩
      rw [System.requestsFrom_pushRequest, if_neg fun heq => hne heq.2, List.append_nil]
      rfl
    | handled r body sock req =>
      obtain ⟨hrequests, hresponses⟩ := srv.queues_answerLocally (counted s i fd r) i read.broker
        req fd ⟨c', s.reads⟩
      exact ⟨System.requestsFrom_congr hrequests, System.responsesFrom_congr hresponses⟩
  refine h.of_leavesAlone hrunning hqueues.1 hqueues.2 (srv.accepted_handleRead read).ge
    fun {j fd'} hopen => leavesAlone_handleRead ?_ c' read
  rintro rfl
  exact hother j (entrywise_handleRead read j fd c hopen).1

end Converses

/-! ### Steps -/

section Steps

variable [NeZero n]

/-- A read leaves the write buffer to `handle_write`, if it does not close the connection. -/
theorem writeBuf_handleRead {read : ReadEnv} (hbuf : (s.connection i fd).writeBuf ≠ [])
    (hopen : (srv.handleRead s i fd c read).1.owner i fd = some c) :
    ((srv.handleRead s i fd c read).1.connection i fd).writeBuf ≠ [] := by
  have hread := srv.readOutcome s i fd c read
  generalize srv.requestRead s i fd read = request at hread
  generalize srv.handleRead s i fd c read = out at hread hopen ⊢
  have hreader (r : FrameReader) : ((counted s i fd r).connection i fd).writeBuf ≠ [] := by
    rw [show (counted s i fd r).connection i fd = { s.connection i fd with toFrameReader := r } from
      System.connection_setConnection ..]
    exact hbuf
  cases hread with
  | waited r => exact hreader r
  | closed | refused =>
    rw [System.owner_closeConnection] at hopen
    cases hopen
  | forwarded r => exact hreader r
  | handled r body sock req =>
    rcases srv.answerLocally_cases (counted s i fd r) i read.broker req fd ⟨c, s.reads⟩ with
      ⟨-, heq⟩ | ⟨resp, -, ⟨-, heq⟩ | ⟨-, heq⟩⟩ <;> rw [heq] at hopen ⊢
    · exact hreader r
    · rw [System.owner_closeConnection] at hopen
      cases hopen
    · rw [System.connection_putResponse, Connection.writeBuf_setSplice_enqueue (hreader r)]
      exact hreader r

theorem accepted_readPart (srv : Server n) (ev : EpollEvent) (read : ReadEnv) :
    (srv.readPart s i fd c ev read).1.accepted = s.accepted := by
  rw [readPart]
  split
  · exact srv.accepted_handleRead read
  · rfl

/-- An event on the connection. -/
theorem Converses.handleEvent (h : srv.Converses c reqs pairs sent s)
    (hrunning : s.terminated = false) (hnumbered : s.Numbered)
    (hwrites : ∀ resp, srv.serialize resp ≠ []) (howner : s.owner i fd = some c) {ev : EpollEvent}
    (herr : ev.errHup = false) {read : ReadEnv} {write : WriteEnv}
    (hturn : srv.ReadsInTurn s (.event i fd ev read write)) :
    srv.Converses c (reqs ++ (srv.askedOn c s (.event i fd ev read write)).toList)
      (pairs ++ (srv.answeredOn c s (.event i fd ev read write)).toList)
      (sent ++ (srv.sentOn c s (.event i fd ev read write)).toList.flatten)
      (srv.handleEvent s i fd c ev read write).1 := by
  obtain ⟨out, hflows, -⟩ := h.output howner
  have hpart : srv.Converses c (reqs ++ (srv.askedOn c s (.event i fd ev read write)).toList)
      (pairs ++ (srv.answeredOn c s (.event i fd ev read write)).toList) sent
      (srv.readPart s i fd c ev read).1 := by
    rw [readPart]
    by_cases hreadable : ev.readable = true
    · rw [if_pos hreadable]
      simpa [askedOn, answeredOn, hrunning, herr, hreadable, howner] using
        h.handleRead hrunning howner hnumbered hwrites (hturn herr hreadable c howner)
    · rw [if_neg hreadable]
      simpa [askedOn, answeredOn, hreadable] using h
  have hold {j : Fin n} {fd' : ℕ} (hopen : (srv.readPart s i fd c ev read).1.owner j fd' = some c) :
      i = j ∧ fd = fd' := by
    refine hnumbered.unique howner ?_
    rw [readPart] at hopen
    split at hopen
    · exact (entrywise_handleRead read j fd' c hopen).1
    · exact hopen
  have hsent : srv.sentOn c s (.event i fd ev read write) =
      if ev.writable ∧ (s.sockets fd).any OpenSocket.wantWrite ∧
          ¬ (srv.readPart s i fd c ev read).1.terminated then
        some (((srv.readPart s i fd c ev read).1.connection i fd).sentBytes write.sent)
      else none := by
    rw [sentOn, if_neg (by simp [hrunning, herr, howner])]
  rw [Server.handleEvent, if_neg (by simp [herr]), ← readPart, hsent]
  dsimp only
  split
  swap
  · rw [Option.toList_none, List.flatten_nil, List.append_nil]
    exact hpart
  next hwrite =>
  have hterm : (srv.readPart s i fd c ev read).1.terminated = false := by simpa using hwrite.2.2
  rw [Option.toList_some, List.flatten_singleton]
  by_cases hopen : (srv.readPart s i fd c ev read).1.owner i fd = some c
  · refine hpart.handleWrite hterm hopen (numbered_readPart hnumbered ev read) ?_ write
    have hbuf := hflows.writeBuf_ne_nil hwrite.2.1
    rw [readPart] at hopen ⊢
    split at hopen
    · next hreadable =>
      rw [if_pos hreadable]
      exact writeBuf_handleRead hbuf hopen
    · next hreadable =>
      rw [if_neg hreadable]
      exact hbuf
  · -- the read has closed the connection
    have hclosed (j : Fin n) (fd' : ℕ) :
        (srv.readPart s i fd c ev read).1.owner j fd' ≠ some c := by
      intro hopen'
      obtain ⟨rfl, rfl⟩ := hold hopen'
      exact hopen hopen'
    refine (hpart.handleWrite_of_ne hterm (fun j => hclosed j fd) write).of_closed
      (fun j fd' hopen' => hclosed j fd' ?_) ?_ _
    · exact (System.entrywise_handleWrite ignoresSending_sameReader write j fd' c hopen').1
    · rw [System.sameWork_handleWrite.accepted, accepted_readPart]
      exact hnumbered.below howner

/-- An event on another connection. -/
theorem Converses.handleEvent_of_ne (h : srv.Converses c reqs pairs sent s)
    (hrunning : s.terminated = false) {c' : ConnId n} (howner : s.owner i fd = some c')
    (hne : c' ≠ c) {ev : EpollEvent} (herr : ev.errHup = false) (read : ReadEnv)
    (write : WriteEnv) :
    srv.Converses c reqs pairs sent (srv.handleEvent s i fd c' ev read write).1 := by
  have hother (j : Fin n) : s.owner j fd ≠ some c := by
    intro hopen
    obtain ⟨b, hsocket, -⟩ := (s.owner_eq_some i fd).mp howner
    obtain ⟨b', hsocket', -⟩ := (s.owner_eq_some j fd).mp hopen
    rw [hsocket, Option.some_inj, OpenSocket.mk.injEq] at hsocket'
    exact hne hsocket'.1
  have hpart : srv.Converses c reqs pairs sent (srv.readPart s i fd c' ev read).1 ∧
      ∀ j, (srv.readPart s i fd c' ev read).1.owner j fd ≠ some c := by
    rw [readPart]
    split
    · refine ⟨h.handleRead_of_ne hrunning hne hother read, fun j hopen => hother j ?_⟩
      exact (entrywise_handleRead read j fd c hopen).1
    · exact ⟨h, hother⟩
  rw [Server.handleEvent, if_neg (by simp [herr]), ← readPart]
  dsimp only
  split
  · next hwrite => exact hpart.1.handleWrite_of_ne (by simpa using hwrite.2.2) hpart.2 write
  · exact hpart.1

/-- Every step of every reactor. -/
theorem converses_next (h : srv.Converses c reqs pairs sent s) (hrouted : s.Routed)
    (hnumbered : s.Numbered) (hwrites : ∀ resp, srv.serialize resp ≠ []) {input : ServerInput n}
    (hturn : srv.ReadsInTurn s input) (hcompletes : CompletesInTurn c s input) :
    srv.Converses c (reqs ++ (srv.askedOn c s input).toList)
      (pairs ++ (srv.answeredOn c s input).toList) (sent ++ (srv.sentOn c s input).toList.flatten)
      (srv.machine.next s input) := by
  rw [Machine.next]
  by_cases hterm : s.terminated = true
  · rw [machine_step_of_terminated srv s input hterm]
    cases input <;> simpa [askedOn, answeredOn, sentOn, hterm] using h
  rw [machine_step srv s input hterm]
  have hrunning : s.terminated = false := by simpa using hterm
  cases input with
  | accept i fd ok =>
    simp only [askedOn, answeredOn, sentOn, Option.toList_none, List.append_nil, List.flatten_nil]
    rw [step]
    by_cases hok : ok ∧ s.sockets fd = none
    · obtain ⟨rfl, hfree⟩ := hok
      exact h.handleAccept hrunning hnumbered hfree
    · rw [System.handleAccept, if_neg hok]
      exact h
  | event i fd ev read write =>
    rw [step]
    rcases howner : s.owner i fd with _ | c'
    · simpa [askedOn, answeredOn, sentOn, howner] using h
    dsimp only
    by_cases herr : ev.errHup = true
    · have hclosed : srv.Converses c reqs pairs sent (s.closeConnection i fd) :=
        h.closeConnection hrunning
      rw [handleEvent, if_pos herr]
      simpa [askedOn, answeredOn, sentOn, herr] using hclosed
    have herr' : ev.errHup = false := by simpa using herr
    rcases eq_or_ne c' c with rfl | hne
    · exact h.handleEvent hrunning hnumbered hwrites howner herr' hturn
    · simpa [askedOn, answeredOn, sentOn, howner, hne] using
        h.handleEvent_of_ne hrunning howner hne herr' read write
  | drainRequest i env =>
    rw [step]
    rcases hq : s.requests i with _ | ⟨q, rest⟩
    · rw [drainRequest_nil srv s i env hq]
      simpa [askedOn, answeredOn, sentOn, hq] using h
    · simpa [askedOn, answeredOn, sentOn, hrunning, hq] using
        h.drainRequest hrunning hrouted hwrites env hq
  | drainResponse i =>
    simp only [askedOn, answeredOn, sentOn, Option.toList_none, List.append_nil, List.flatten_nil]
    rw [step]
    rcases hx : s.responses i with _ | ⟨x, rest⟩
    · rw [drainResponse, hx]
      exact h
    · exact h.drainResponse hrunning hrouted hx
  | harvest i k written =>
    simp only [askedOn, answeredOn, sentOn, Option.toList_none, List.append_nil, List.flatten_nil]
    exact h.harvest hrunning hcompletes

end Steps

end Server

end TinyKafka
