import TinyKafka.Net.FrameStream
import TinyKafka.Net.ReactorSteps

/-!
# Framing of requests

A client sends frames on one connection, and the kernel makes the stream readable in chunks.
As long as a chunk is not used up there is a readiness event, and the reactor calls
`handle_read`. How the stream is cut does not matter for what `parse_request` gets, except in
one place: a chunk must not end with the length prefix of a frame that has a body
(`deliversFrames_iff`).
-/

namespace TinyKafka

variable {n : ℕ} [NeZero n]

/-- The bodies that `parse_request` is called on. -/
def parsedBodies (events : List (Event n)) : List Bytes :=
  events.filterMap fun
    | .parsed _ body => some body
    | _ => none

/-- The positions in the stream where a chunk ends. -/
def chunkEnds : List Bytes → List ℕ
  | [] => []
  | chunk :: chunks => chunk.length :: (chunkEnds chunks).map (chunk.length + ·)

/-- The positions in the stream where the length prefix of a frame with a body ends. -/
def prefixEnds : List Bytes → List ℕ
  | [] => []
  | body :: bodies =>
    (if body = [] then [] else [4]) ++ (prefixEnds bodies).map (4 + body.length + ·)

/-- The bytes of the frames, one after another. -/
def stream (bodies : List Bytes) : Bytes := bodies.flatMap frame

/-! ### Positions in the stream -/

theorem four_mem_prefixEnds {body : Bytes} (h : body ≠ []) (bodies : List Bytes) :
    4 ∈ prefixEnds (body :: bodies) := by
  simp [prefixEnds, h]

/-- Inside a frame there is no other place where a prefix ends. -/
theorem not_mem_prefixEnds {body : Bytes} {p : ℕ} (hlt : p < 4 + body.length) (hne : p ≠ 4)
    (bodies : List Bytes) : p ∉ prefixEnds (body :: bodies) := by
  intro hmem
  rw [prefixEnds, List.mem_append, List.mem_map] at hmem
  rcases hmem with hmem | ⟨q, -, rfl⟩
  · split at hmem
    · cases hmem
    · exact hne (List.mem_singleton.mp hmem)
  · omega

/-- Behind a frame the places are those of the frames that follow. -/
theorem add_mem_prefixEnds {body : Bytes} {p : ℕ} {bodies : List Bytes} :
    4 + body.length + p ∈ prefixEnds (body :: bodies) ↔ p ∈ prefixEnds bodies := by
  rw [prefixEnds, List.mem_append, List.mem_map]
  constructor
  · rintro (hmem | ⟨q, hq, heq⟩)
    · split at hmem
      · cases hmem
      · next hbody =>
        have hpos := List.length_pos_iff_ne_nil.mpr hbody
        have hfour := List.mem_singleton.mp hmem
        omega
    · obtain rfl : q = p := by omega
      exact hq
  · exact fun hp => .inr ⟨p, hp, rfl⟩

/-- Counted from position `m` of the stream of the frames on, no chunk ends with the prefix of
a frame that has a body. -/
def NoCut (m : ℕ) (bodies chunks : List Bytes) : Prop :=
  ∀ p ∈ chunkEnds chunks, m + p ∉ prefixEnds bodies

instance (m : ℕ) (bodies chunks : List Bytes) : Decidable (NoCut m bodies chunks) :=
  inferInstanceAs (Decidable (∀ p ∈ _, _))

theorem noCut_cons {m : ℕ} {bodies chunks : List Bytes} {cur : Bytes} :
    NoCut m bodies (cur :: chunks) ↔
      m + cur.length ∉ prefixEnds bodies ∧ NoCut (m + cur.length) bodies chunks := by
  simp [NoCut, chunkEnds, Nat.add_assoc]

/-- A whole frame is taken from the first chunk. -/
theorem noCut_drop {m : ℕ} {body : Bytes} {bodies chunks : List Bytes} {cur : Bytes}
    (hend : 4 + body.length ≤ m + cur.length) (hlt : m < 4 + body.length) :
    NoCut m (body :: bodies) (cur :: chunks) ↔
      NoCut 0 bodies (cur.drop (4 + body.length - m) :: chunks) := by
  have hshift : m + cur.length =
      4 + body.length + (0 + (cur.drop (4 + body.length - m)).length) := by
    rw [List.length_drop]
    omega
  rw [noCut_cons, noCut_cons, hshift, add_mem_prefixEnds]
  refine and_congr_right fun _ => forall₂_congr fun p _ => ?_
  rw [Nat.add_assoc, add_mem_prefixEnds]

/-- A connection under observation: the server, the reactor and the descriptor of the
connection, and what the environment does while the `k`-th request is handled. -/
structure Session (n : ℕ) where
  server : Server n
  reactor : Fin n
  fd : ℕ
  conn : ConnId n
  env : ℕ → ReadEnv

namespace Session

variable (se : Session n)

/-- The connection is open, under its descriptor. -/
def Open (s : System n) : Prop := s.owner se.reactor se.fd = some se.conn ∧ s.terminated = false

instance (s : System n) : Decidable (se.Open s) := inferInstanceAs (Decidable (_ ∧ _))

/-- The reading side of the connection. -/
def reader (s : System n) : FrameReader := (s.connection se.reactor se.fd).toFrameReader

/-- A readiness event with the bytes `cur` in the socket, after `k` requests. -/
def onReadable (s : System n) (k : ℕ) (cur : Bytes) : System n × List (Event n) :=
  se.server.machine.step s
    (.event se.reactor se.fd { readable := true } { se.env k with socket := ⟨cur, .again⟩ }
      { sent := none })

/-- What the event leaves in the socket. -/
def unread (s : System n) (cur : Bytes) : Bytes :=
  ((se.reader s).readFrame se.server.maxMessageBytes ⟨cur, .again⟩).2.2.available

/-- The events of one chunk, at most `fuel` of them: as long as something is left of the
chunk and the connection is open. -/
def serveChunk : ℕ → System n × List Bytes → Bytes → System n × List Bytes
  | 0, st, _ => st
  | fuel + 1, (s, parsed), cur =>
    if cur ≠ [] ∧ se.Open s then
      let (s', events) := se.onReadable s parsed.length cur
      serveChunk fuel (s', parsed ++ parsedBodies events) (se.unread s cur)
    else (s, parsed)

/-- The chunks one after another. Every event takes a byte at least, so that a chunk needs no
more events than it has bytes. -/
def serve (st : System n × List Bytes) (chunks : List Bytes) : System n × List Bytes :=
  chunks.foldl (fun st chunk => se.serveChunk chunk.length st chunk) st

/-- `parse_request` gets exactly the bodies, and the connection stays open. -/
def DeliversFrames (s : System n) (bodies chunks : List Bytes) : Prop :=
  (se.serve (s, []) chunks).2 = bodies ∧ se.Open (se.serve (s, []) chunks).1

instance (s : System n) (bodies chunks : List Bytes) :
    Decidable (se.DeliversFrames s bodies chunks) := inferInstanceAs (Decidable (_ ∧ _))

/-- The `k`-th request, when it is not forwarded, gets a response, and the response is not
longer than the write buffer may be. -/
def Answers (s : System n) (k : ℕ) (body : Bytes) : Prop :=
  ∀ req ∈ (parseRequest (se.env k).junk body).toOption,
    se.server.router.target se.server.records.metadata se.reactor req = se.reactor →
      ∃ resp ∈ (se.server.handle s se.reactor (se.env k).broker req).2,
        (se.server.serialize resp).length ≤ se.server.maxWriteBufferBytes

instance (s : System n) (k : ℕ) (body : Bytes) : Decidable (se.Answers s k body) :=
  inferInstanceAs (Decidable (∀ req ∈ (_ : Option Request), _))

/-- The connection with a reader that has just finished a frame. -/
def finishFrame (s : System n) (len : ℕ) : System n :=
  s.setConnection se.reactor se.fd
    { s.connection se.reactor se.fd with toFrameReader := .fresh len }

/-- The system after the `k`-th request. -/
def afterBody (s : System n) (k : ℕ) (body : Bytes) : System n :=
  (se.server.handleBody (se.finishFrame s body.length) se.reactor se.fd se.conn (se.env k)
    body).1

/-- Each of the requests, one handled after the other, is answered as it should. -/
def AllAnswered : System n → ℕ → List Bytes → Prop
  | _, _, [] => True
  | s, k, body :: bodies =>
    se.Answers s k body ∧ AllAnswered (se.afterBody s k body) (k + 1) bodies

instance decidableAllAnswered : (s : System n) → (k : ℕ) → (bodies : List Bytes) →
    Decidable (se.AllAnswered s k bodies)
  | _, _, [] => .isTrue trivial
  | s, k, body :: bodies =>
    have := decidableAllAnswered (se.afterBody s k body) (k + 1) bodies
    inferInstanceAs (Decidable (_ ∧ _))

/-! ### One event -/

section Event

variable {se} {s : System n} {k : ℕ} {cur body : Bytes} {r : FrameReader}

theorem onReadable_eq (hopen : se.Open s) :
    se.onReadable s k cur =
      se.server.handleRead s se.reactor se.fd se.conn
        { se.env k with socket := ⟨cur, .again⟩ } := by
  obtain ⟨howner, halive⟩ := hopen
  simp [onReadable, Server.machine, Server.step, Server.handleEvent, howner, halive]

/-- An event that does not complete a frame changes the reader and nothing else. -/
theorem onReadable_wait (hopen : se.Open s) {rest : Socket}
    (h : (se.reader s).readFrame se.server.maxMessageBytes ⟨cur, .again⟩ = (r, .wait, rest)) :
    se.onReadable s k cur =
      (s.setConnection se.reactor se.fd
        { s.connection se.reactor se.fd with toFrameReader := r }, []) := by
  unfold reader at h
  rw [onReadable_eq hopen, Server.handleRead]
  dsimp only
  rw [h]

theorem onReadable_close (hopen : se.Open s)
    (h : ((se.reader s).readFrame se.server.maxMessageBytes ⟨cur, .again⟩).2.1 = .close) :
    se.onReadable s k cur = (s.closeConnection se.reactor se.fd, []) := by
  unfold reader at h
  rw [onReadable_eq hopen, Server.handleRead]
  dsimp only
  generalize FrameReader.readFrame _ _ _ = out at h ⊢
  obtain ⟨_, _, _⟩ := out
  cases h
  rfl

theorem onReadable_frame (hopen : se.Open s) {rest : Socket}
    (h : (se.reader s).readFrame se.server.maxMessageBytes ⟨cur, .again⟩ =
      (.fresh body.length, .frame body, rest)) :
    se.onReadable s k cur =
      se.server.handleBody (se.finishFrame s body.length) se.reactor se.fd se.conn (se.env k)
        body := by
  unfold reader at h
  rw [onReadable_eq hopen, Server.handleRead]
  dsimp only
  rw [h]
  rfl

/-- The event that completes a frame hands its body to `parse_request`. -/
theorem parsedBodies_handleBody (srv : Server n) (s : System n) (i : Fin n) (fd : ℕ)
    (c : ConnId n) (env : ReadEnv) (body : Bytes) :
    parsedBodies (srv.handleBody s i fd c env body).2 = [body] := by
  rw [Server.handleBody]
  split
  · rfl
  · next req _ =>
    dsimp only
    split
    · rfl
    · rcases srv.answerLocally_cases { s with reads := s.reads + 1 } i env.broker req fd
        ⟨c, s.reads⟩ with ⟨-, h⟩ | ⟨_, -, ⟨-, h⟩ | ⟨-, h⟩⟩ <;> rw [h] <;> rfl

/-- A request that is accepted leaves the connection open exactly when it is answered as it
should. -/
theorem open_handleBody (hopen : se.Open s)
    (haccept : (parseRequest (se.env k).junk body).toOption.isSome) :
    se.Open (se.server.handleBody s se.reactor se.fd se.conn (se.env k) body).1 ↔
      se.Answers s k body := by
  obtain ⟨howner, halive⟩ := hopen
  rw [Server.handleBody, Answers]
  split
  · next e he =>
    rw [he] at haccept
    cases haccept
  · next req hreq =>
    rw [hreq]
    simp only [Except.toOption, Option.mem_some_iff, forall_eq']
    split
    · next hforward =>
      exact ⟨fun _ hlocal => absurd hlocal hforward, fun _ => ⟨howner, halive⟩⟩
    · next hlocal =>
      rw [not_not] at hlocal
      -- The broker sees the same state whether or not the read has been counted.
      have hsame : (se.server.handle { s with reads := s.reads + 1 } se.reactor
          (se.env k).broker req).2 = (se.server.handle s se.reactor (se.env k).broker req).2 := rfl
      rcases se.server.answerLocally_cases { s with reads := s.reads + 1 } se.reactor
        (se.env k).broker req se.fd ⟨se.conn, s.reads⟩ with
        ⟨hnone, h⟩ | ⟨resp, hresp, ⟨hlong, h⟩ | ⟨hfits, h⟩⟩
      · rw [h, ← hsame, hnone]
        constructor
        · rintro ⟨-, hterm⟩
          rw [Server.terminated_handle, hnone] at hterm
          cases hterm
        · intro hans
          obtain ⟨_, hmem, _⟩ := hans hlocal
          cases hmem
      · rw [h, ← hsame, hresp]
        constructor
        · rintro ⟨hclosed, -⟩
          rw [System.owner_closeConnection] at hclosed
          cases hclosed
        · intro hans
          obtain ⟨_, hmem, hle⟩ := hans hlocal
          cases hmem
          exact absurd hle (not_le.mpr hlong)
      · rw [h, ← hsame, hresp]
        refine ⟨fun _ _ => ⟨resp, rfl, hfits⟩, fun _ => ⟨?_, ?_⟩⟩
        · rw [System.owner_putResponse, Server.owner_handle]
          exact howner
        · rw [System.terminated_putResponse, Server.terminated_handle, hresp]
          rfl

/-- Handling a request does not touch the reading side, unless it closes. -/
theorem reader_handleBody
    (hopen : se.Open (se.server.handleBody s se.reactor se.fd se.conn (se.env k) body).1) :
    se.reader (se.server.handleBody s se.reactor se.fd se.conn (se.env k) body).1 =
      se.reader s := by
  obtain ⟨howner, -⟩ := hopen
  revert howner
  rw [Server.handleBody]
  split
  · intro howner
    rw [System.owner_closeConnection] at howner
    cases howner
  · next req _ =>
    dsimp only
    split
    · exact fun _ => rfl
    · rcases se.server.answerLocally_cases { s with reads := s.reads + 1 } se.reactor
        (se.env k).broker req se.fd ⟨se.conn, s.reads⟩ with
        ⟨-, h⟩ | ⟨_, -, ⟨-, h⟩ | ⟨-, h⟩⟩ <;> rw [h]
      · exact fun _ => rfl
      · intro howner
        rw [System.owner_closeConnection] at howner
        cases howner
      · intro _
        rw [reader, System.connection_putResponse, Connection.toFrameReader_enqueue,
          Connection.toFrameReader_setSplice]
        rfl

end Event

/-! ### Whole streams -/

section Stream

variable {se}

theorem serveChunk_of_closed {s : System n} (h : ¬ se.Open s) (fuel : ℕ) (parsed : List Bytes)
    (cur : Bytes) : se.serveChunk fuel (s, parsed) cur = (s, parsed) := by
  rcases fuel with _ | fuel
  · rfl
  · rw [serveChunk, if_neg fun hc => h hc.2]

theorem serve_of_closed {s : System n} (h : ¬ se.Open s) (parsed chunks : List Bytes) :
    se.serve (s, parsed) chunks = (s, parsed) := by
  induction chunks with
  | nil => rfl
  | cons chunk chunks ih =>
    rw [serve, List.foldl_cons, serveChunk_of_closed h]
    exact ih

theorem serveChunk_nil (s : System n) (fuel : ℕ) (parsed : List Bytes) :
    se.serveChunk fuel (s, parsed) [] = (s, parsed) := by
  rcases fuel with _ | fuel
  · rfl
  · rw [serveChunk, if_neg fun hc => hc.1 rfl]

/-- What the reader holds does not matter for the answers. -/
theorem allAnswered_setReader (s : System n) (r : FrameReader) (k : ℕ) (bodies : List Bytes) :
    se.AllAnswered (s.setConnection se.reactor se.fd
        { s.connection se.reactor se.fd with toFrameReader := r }) k bodies ↔
      se.AllAnswered s k bodies := by
  rcases bodies with _ | ⟨body, bodies⟩
  · rfl
  · rw [AllAnswered, AllAnswered, afterBody, afterBody, finishFrame, finishFrame,
      System.connection_setConnection, System.setConnection_setConnection]
    rfl

/-- Between two events: the reader is at position `m` of the stream of the frames that are
still to come, which are the requests from the `k`-th on. -/
structure Expects (se : Session n) (s : System n) (k m : ℕ) (bodies : List Bytes) : Prop where
  isOpen : se.Open s
  reader : ∀ body rest, bodies = body :: rest → (se.reader s).At body (stream rest) m
  limit : ∀ body ∈ bodies, body.length ≤ se.server.maxMessageBytes.toNat
  accepts : ∀ j body, bodies[j]? = some body →
    (parseRequest (se.env (k + j)).junk body).toOption.isSome

/-- What makes the rest of the stream arrive as it was sent. -/
def Arrives (se : Session n) (s : System n) (k m : ℕ) (bodies chunks : List Bytes) : Prop :=
  NoCut m bodies chunks ∧ (∀ body ∈ bodies, Signed32 body) ∧ se.AllAnswered s k bodies

/-- The requests and nothing else have been parsed, and the connection is open. -/
def Delivered (se : Session n) (bodies : List Bytes) (st : System n × List Bytes) : Prop :=
  st.2 = bodies ∧ se.Open st.1

theorem not_delivered_of_closed {s : System n} (h : ¬ se.Open s)
    (bodies parsed chunks : List Bytes) (fuel : ℕ) (cur : Bytes) :
    ¬ se.Delivered bodies (se.serve (se.serveChunk fuel (s, parsed) cur) chunks) := by
  rw [serveChunk_of_closed h, serve_of_closed h]
  exact fun hd => h hd.2

section Chunk

variable {s : System n} {parsed bodies : List Bytes} {m fuel : ℕ} {body cur tail : Bytes}

theorem serveChunk_succ (hopen : se.Open s) (hne : cur ≠ []) :
    se.serveChunk (fuel + 1) (s, parsed) cur =
      se.serveChunk fuel ((se.onReadable s parsed.length cur).1,
        parsed ++ parsedBodies (se.onReadable s parsed.length cur).2) (se.unread s cur) := by
  rw [serveChunk, if_pos ⟨hne, hopen⟩]

/-- The first event of the chunk closes the connection. -/
theorem not_delivered_of_close (hopen : se.Open s) (hne : cur ≠ [])
    (hclose : ((se.reader s).readFrame se.server.maxMessageBytes ⟨cur, .again⟩).2.1 = .close)
    (all chunks : List Bytes) :
    ¬ se.Delivered all (se.serve (se.serveChunk (fuel + 1) (s, parsed) cur) chunks) := by
  rw [serveChunk_succ hopen hne, onReadable_close hopen hclose]
  refine not_delivered_of_closed (fun h => ?_) _ _ _ _ _
  have howner := h.1
  rw [System.owner_closeConnection] at howner
  cases howner

/-- The chunk ends inside the frame. -/
theorem serveChunk_wait (fuel : ℕ) (hexp : se.Expects s parsed.length m (body :: bodies))
    (hcur : cur ++ tail = (stream (body :: bodies)).drop m) (hne : cur ≠ [])
    (hmore : m + cur.length < 4 + body.length) (hcut : m + cur.length ≠ 4)
    (hsigned : 4 ≤ m + cur.length → Signed32 body) :
    ∃ s', se.serveChunk (fuel + 1) (s, parsed) cur = (s', parsed) ∧
      se.Expects s' parsed.length (m + cur.length) (body :: bodies) ∧
      (se.AllAnswered s' parsed.length (body :: bodies) ↔
        se.AllAnswered s parsed.length (body :: bodies)) := by
  obtain ⟨r, hread, hat⟩ := FrameReader.readFrame_wait (hexp.reader body bodies rfl)
    (hexp.limit body List.mem_cons_self) hcur hne hmore hcut hsigned
  refine ⟨s.setConnection se.reactor se.fd
    { s.connection se.reactor se.fd with toFrameReader := r }, ?_, ?_,
    allAnswered_setReader s r _ _⟩
  · rw [serveChunk_succ hexp.isOpen hne, onReadable_wait hexp.isOpen hread, unread, hread,
      serveChunk_nil]
    simp [parsedBodies]
  · refine ⟨hexp.isOpen, ?_, hexp.limit, hexp.accepts⟩
    rintro _ _ ⟨rfl, rfl⟩
    rw [Session.reader, System.connection_setConnection]
    exact hat

/-- The chunk completes the frame. -/
theorem serveChunk_frame (hexp : se.Expects s parsed.length m (body :: bodies))
    (hcur : cur ++ tail = (stream (body :: bodies)).drop m)
    (hend : 4 + body.length ≤ m + cur.length) (hsigned : Signed32 body) :
    se.serveChunk (fuel + 1) (s, parsed) cur =
      se.serveChunk fuel (se.afterBody s parsed.length body, parsed ++ [body])
        (cur.drop (4 + body.length - m)) := by
  have hat := hexp.reader body bodies rfl
  have hread := FrameReader.readFrame_body hat (hexp.limit body List.mem_cons_self) hcur hend
    hsigned
  have hne : cur ≠ [] := by
    have hlt := hat.lt
    rw [← List.length_pos_iff_ne_nil]
    omega
  rw [serveChunk_succ hexp.isOpen hne, onReadable_frame hexp.isOpen hread,
    parsedBodies_handleBody, unread, hread]
  rfl

theorem open_afterBody (hexp : se.Expects s parsed.length m (body :: bodies)) :
    se.Open (se.afterBody s parsed.length body) ↔ se.Answers s parsed.length body := by
  have haccept := hexp.accepts 0 body rfl
  have hopen : se.Open (se.finishFrame s body.length) := hexp.isOpen
  exact open_handleBody hopen haccept

/-- The next frame starts where the one before ended. -/
theorem Expects.afterBody (hexp : se.Expects s parsed.length m (body :: bodies))
    (hopen : se.Open (se.afterBody s parsed.length body)) :
    se.Expects (se.afterBody s parsed.length body) (parsed ++ [body]).length 0 bodies where
  isOpen := hopen
  reader := by
    intro next rest _
    have hreader : se.reader (se.afterBody s parsed.length body) = .fresh body.length := by
      refine (reader_handleBody hopen).trans ?_
      rw [finishFrame, Session.reader, System.connection_setConnection]
    rw [hreader]
    exact FrameReader.at_zero rfl rfl next (stream rest)
  limit b hb := hexp.limit b (List.mem_cons_of_mem _ hb)
  accepts := by
    intro j b hj
    rw [List.length_append, List.length_singleton, Nat.add_assoc, Nat.add_comm 1 j]
    exact hexp.accepts (j + 1) b hj

end Chunk

/-- An empty chunk has no events. -/
theorem arrives_nil_cons {s : System n} {k m : ℕ} {bodies chunks : List Bytes}
    (hexp : se.Expects s k m bodies) :
    se.Arrives s k m bodies ([] :: chunks) ↔ se.Arrives s k m bodies chunks := by
  have hm : m ∉ prefixEnds bodies := by
    rcases bodies with _ | ⟨body, bodies⟩
    · exact List.not_mem_nil
    · have hat := hexp.reader body bodies rfl
      exact not_mem_prefixEnds hat.lt hat.ne_four bodies
  rw [Arrives, Arrives, noCut_cons, List.length_nil, Nat.add_zero, and_iff_right hm]

/-- What follows the first frame is the stream of the others. -/
theorem drop_frame {cur rest body : Bytes} {bodies : List Bytes} {m : ℕ}
    (hcur : cur ++ rest = (stream (body :: bodies)).drop m) (hm : m ≤ 4 + body.length)
    (hend : 4 + body.length ≤ m + cur.length) :
    cur.drop (4 + body.length - m) ++ rest = (stream bodies).drop 0 := by
  have hframe : m + (4 + body.length - m) = (frame body).length := by
    rw [length_frame]
    omega
  rw [← List.drop_append_of_le_length (by omega), hcur, List.drop_drop, hframe, stream,
    List.flatMap_cons, List.drop_left]
  rfl

/-- One chunk, when the equivalence is known for the chunks that follow. The induction is on
the number of events; the position in the stream and the frames to come vary. -/
theorem delivered_chunk_iff {chunks : List Bytes}
    (ih : ∀ s parsed m bodies, se.Expects s parsed.length m bodies →
      chunks.flatten = (stream bodies).drop m →
      (se.Delivered (parsed ++ bodies) (se.serve (s, parsed) chunks) ↔
        se.Arrives s parsed.length m bodies chunks))
    {fuel : ℕ} {s : System n} {parsed : List Bytes} {m : ℕ} {bodies : List Bytes} {cur : Bytes}
    (hfuel : cur.length ≤ fuel) (hexp : se.Expects s parsed.length m bodies)
    (hcur : cur ++ chunks.flatten = (stream bodies).drop m) :
    se.Delivered (parsed ++ bodies) (se.serve (se.serveChunk fuel (s, parsed) cur) chunks) ↔
      se.Arrives s parsed.length m bodies (cur :: chunks) := by
  induction fuel generalizing s parsed m bodies cur with
  | zero =>
    obtain rfl : cur = [] := List.length_eq_zero_iff.mp (by omega)
    rw [arrives_nil_cons hexp]
    exact ih s parsed m bodies hexp hcur
  | succ fuel ihf =>
    rcases eq_or_ne cur [] with rfl | hne
    · rw [serveChunk_nil, arrives_nil_cons hexp]
      exact ih s parsed m bodies hexp hcur
    rcases bodies with _ | ⟨body, bodies⟩
    · have hnil : cur ++ chunks.flatten = [] := by rw [hcur]; exact List.drop_nil
      exact absurd (List.append_eq_nil_iff.mp hnil).1 hne
    have hat := hexp.reader body bodies rfl
    have hlimit := hexp.limit body List.mem_cons_self
    have hlt := hat.lt
    by_cases hnegative : 4 ≤ m + cur.length ∧ ¬ Signed32 body
    · -- The prefix is complete and negative.
      refine iff_of_false (not_delivered_of_close hexp.isOpen hne
        (FrameReader.readFrame_negative hat hlimit hcur hnegative.1 hnegative.2) _ _) ?_
      exact fun harr => hnegative.2 (harr.2.1 body List.mem_cons_self)
    have hsigned : 4 ≤ m + cur.length → Signed32 body := by
      intro h
      by_contra hns
      exact hnegative ⟨h, hns⟩
    rcases Nat.lt_or_ge (m + cur.length) (4 + body.length) with hmore | hend
    · rcases eq_or_ne (m + cur.length) 4 with hfour | hfour
      · -- The chunk ends with the prefix of a frame that has a body.
        have hbody : body ≠ [] := by
          rw [← List.length_pos_iff_ne_nil]
          omega
        refine iff_of_false (not_delivered_of_close hexp.isOpen hne
          (FrameReader.readFrame_prefix hat hlimit hcur hne hbody hfour) _ _) ?_
        intro harr
        have hcut := (noCut_cons.mp harr.1).1
        rw [hfour] at hcut
        exact hcut (four_mem_prefixEnds hbody bodies)
      · -- The chunk ends elsewhere inside the frame.
        obtain ⟨s', hserve, hexp', hans⟩ :=
          serveChunk_wait fuel hexp hcur hne hmore hfour hsigned
        have hrest : chunks.flatten = (stream (body :: bodies)).drop (m + cur.length) := by
          rw [← List.drop_drop, ← hcur, List.drop_left]
        rw [hserve, ih s' parsed _ _ hexp' hrest, Arrives, Arrives, noCut_cons, hans,
          and_iff_right (not_mem_prefixEnds hmore hfour bodies)]
    · -- The frame is complete.
      have hs := hsigned (by omega)
      rw [serveChunk_frame hexp hcur hend hs]
      by_cases hopen : se.Open (se.afterBody s parsed.length body)
      · have hdrop := drop_frame hcur hlt.le hend
        have hih := ihf (by rw [List.length_drop]; omega) (hexp.afterBody hopen) hdrop
        rw [List.append_assoc, List.singleton_append] at hih
        rw [hih, Arrives, Arrives, noCut_drop hend hlt, AllAnswered,
          and_iff_right ((open_afterBody hexp).mp hopen), List.length_append,
          List.length_singleton, List.forall_mem_cons, and_iff_right hs]
      · refine iff_of_false (not_delivered_of_closed hopen _ _ _ _ _) ?_
        exact fun harr => hopen ((open_afterBody hexp).mpr harr.2.2.1)

/-- From any point of the stream on. -/
theorem delivered_iff {s : System n} {parsed : List Bytes} {m : ℕ} {bodies chunks : List Bytes}
    (hexp : se.Expects s parsed.length m bodies)
    (hstream : chunks.flatten = (stream bodies).drop m) :
    se.Delivered (parsed ++ bodies) (se.serve (s, parsed) chunks) ↔
      se.Arrives s parsed.length m bodies chunks := by
  induction chunks generalizing s parsed m bodies with
  | nil =>
    rcases bodies with _ | ⟨body, bodies⟩
    · rw [List.append_nil]
      exact iff_of_true ⟨rfl, hexp.isOpen⟩ ⟨by simp [NoCut, prefixEnds], by simp, trivial⟩
    · have hlen := congrArg List.length hstream
      have hlt := (hexp.reader body bodies rfl).lt
      rw [stream, List.flatMap_cons, List.length_drop, List.length_append, length_frame] at hlen
      simp only [List.flatten_nil, List.length_nil] at hlen
      omega
  | cons chunk chunks ih =>
    exact delivered_chunk_iff (fun _ _ _ _ => ih) le_rfl hexp hstream

end Stream

end Session

/-! ### A client of one reactor -/

namespace FramingExample

/-- One reactor without topics. -/
def server : Server 1 where
  router := ⟨fun _ => 0⟩
  records := ⟨⟨[], fun _ => none, fun _ => none⟩, ascii "/tmp/logs", 0, true⟩
  maxMessageBytes := 1048576
  maxWriteBufferBytes := 1048576
  serialize _ := List.replicate 64 0

/-- The connection with descriptor 7, and a clock that stands still. -/
def session : Session 1 where
  server := server
  reactor := 0
  fd := 7
  conn := ⟨0, 0⟩
  env _ := ⟨⟨[], .again⟩, 0, fun _ => 0, fun _ _ => ⟨{ written := 0 }, true⟩⟩

/-- Just accepted. -/
def start : System 1 := ({} : System 1).handleAccept 0 7 true

/-- An ApiVersions request. -/
def body : Bytes := [0, 18, 0, 4, 0, 0, 0, 7]

end FramingExample

end TinyKafka
