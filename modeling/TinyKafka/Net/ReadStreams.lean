import TinyKafka.Net.ConnectionInvariants
import TinyKafka.Net.Entries
import TinyKafka.Net.ResponseOrder

/-!
# What is read from a connection

The bytes of a connection reach `parse_request` frame by frame, whatever the other connections
and reactors do in between: the bodies that were parsed, put back into frames, are the beginning
of what was received, and the rest is held in the read buffer until its frame is complete
(`Server.inFrames_of_reads`). Nothing is lost, doubled, or taken from another connection.

The condition is that no read of the connection fails. `recv_all` then drops the bytes that it has
received before the error, and `handle_read` keeps the connection.
-/

namespace TinyKafka

variable {n : ℕ}

/-- The bodies read from connection `c` that `parse_request` is called on, in order. -/
def bodiesOf (c : ConnId n) (events : List (Event n)) : List Bytes :=
  events.filterMap fun
    | .parsed c' body => if c' = c then some body else none
    | _ => none

theorem bodiesOf_append (c : ConnId n) (events events' : List (Event n)) :
    bodiesOf c (events ++ events') = bodiesOf c events ++ bodiesOf c events' :=
  List.filterMap_append

/-! ### One call -/

namespace FrameReader

/-- What is left in the socket is the end of what was there. -/
theorem suffix_recvAll (k : ℕ) (sock : Socket) :
    (recvAll k sock).2.available <:+ sock.available := by
  rcases recvAll_cases k sock with ⟨-, heq⟩ | heq <;> rw [heq]
  · exact List.nil_suffix
  · exact List.drop_suffix k _

theorem suffix_readBody (r : FrameReader) (sock : Socket) :
    (r.readBody sock).2.2.available <:+ sock.available := by
  rw [readBody]
  dsimp only
  split
  · have hsuffix := suffix_recvAll (4 + r.expectedLen - r.readBuf.length) sock
    generalize recvAll (4 + r.expectedLen - r.readBuf.length) sock = out at hsuffix ⊢
    obtain ⟨_ | bs, rest⟩ := out
    · exact hsuffix
    · dsimp only
      split
      · exact hsuffix
      · split <;> exact hsuffix
  · exact List.suffix_refl _

theorem suffix_openFrame (limit : UInt32) (r : FrameReader) (sock : Socket) :
    (openFrame limit r sock).2.2.available <:+ sock.available := by
  rw [openFrame]
  dsimp only
  split
  · exact List.suffix_refl _
  · exact suffix_readBody _ sock

theorem suffix_readFrame (limit : UInt32) (r : FrameReader) (sock : Socket) :
    (r.readFrame limit sock).2.2.available <:+ sock.available := by
  rw [readFrame]
  split
  · exact suffix_readBody r sock
  split
  · have hsuffix := suffix_recvAll (4 - r.readBuf.length) sock
    generalize recvAll (4 - r.readBuf.length) sock = out at hsuffix ⊢
    obtain ⟨_ | bs, rest⟩ := out
    · exact hsuffix
    · dsimp only
      split
      · exact hsuffix
      · split
        · exact hsuffix
        · exact (suffix_openFrame limit _ rest).trans hsuffix
  · exact suffix_openFrame limit r sock

end FrameReader

/-! ### The readers of the connections -/

/-- The reading side is the same. -/
def Connection.SameReader (conn conn' : Connection) : Prop :=
  conn'.toFrameReader = conn.toFrameReader

open Connection (SameReader)

theorem Connection.ignoresSending_sameReader : IgnoresSending SameReader where
  refl _ := rfl
  trans h h' := h'.trans h
  sent _ _ := rfl
  submitted _ := rfl
  completed _ := rfl
  advanced conn := by
    rw [SameReader, advanceWriteQueue]
    split <;> rfl

open Connection (ignoresSending_sameReader)

theorem Connection.sameReader_setSplice_enqueue (conn : Connection)
    (splice : Option (FileRef × ℕ)) (data : Bytes) :
    SameReader conn ((conn.setSplice splice).enqueue data) :=
  (Connection.toFrameReader_enqueue _ data).trans (Connection.toFrameReader_setSplice conn splice)

namespace Server

variable {srv : Server n} {s s' : System n} {i : Fin n} {fd : ℕ} {c : ConnId n}

theorem entrywise_answerLocally (origin : Origin n) (env : BrokerEnv) (req : Request) :
    s.Entrywise SameReader (srv.answerLocally s i fd origin env req).1 := by
  have hhandle : s.Entrywise SameReader (srv.handle s i env req).1 :=
    System.entrywise_of_eq ignoresSending_sameReader rfl fun _ _ => rfl
  rcases srv.answerLocally_cases s i env req fd origin with
    ⟨-, heq⟩ | ⟨resp, -, ⟨-, heq⟩ | ⟨-, heq⟩⟩ <;> rw [heq]
  · exact hhandle
  · exact hhandle.trans ignoresSending_sameReader
      (System.entrywise_closeConnection ignoresSending_sameReader)
  · refine hhandle.trans ignoresSending_sameReader
      (System.entrywise_putResponse ignoresSending_sameReader ?_)
    exact Connection.sameReader_setSplice_enqueue _ _ _

theorem entrywise_drainRequest (env : BrokerEnv) :
    s.Entrywise SameReader (srv.drainRequest s i env) := by
  rcases hq : s.requests i with _ | ⟨q, rest⟩
  · rw [drainRequest_nil srv s i env hq]
    exact System.entrywise_of_eq ignoresSending_sameReader rfl fun _ _ => rfl
  · obtain ⟨popped, rfl, heq | ⟨resp, heq⟩⟩ := srv.drainRequest_cases s i env hq <;> rw [heq] <;>
      exact System.entrywise_of_eq ignoresSending_sameReader rfl fun _ _ => rfl

theorem entrywise_drainResponse : s.Entrywise SameReader (drainResponse s i).1 := by
  rcases hx : s.responses i with _ | ⟨x, rest⟩
  · rw [drainResponse, hx]
    exact System.entrywise_of_eq ignoresSending_sameReader rfl fun _ _ => rfl
  · have hpop : s.Entrywise SameReader { s with
        responses := Function.update s.responses i rest } :=
      System.entrywise_of_eq ignoresSending_sameReader rfl fun _ _ => rfl
    obtain ⟨popped, rfl, ⟨-, heq⟩ | ⟨conn, hconn, heq⟩⟩ := drainResponse_cases s i hx <;> rw [heq]
    · exact hpop
    · refine hpop.trans ignoresSending_sameReader
        (System.entrywise_putResponse ignoresSending_sameReader ?_)
      rw [System.connection, hconn]
      exact Connection.sameReader_setSplice_enqueue conn _ _

variable [NeZero n]

/-- Apart from the connection it reads from, `handle_read` leaves the readers alone. -/
theorem entrywise_handleRead (env : ReadEnv) :
    (s.setConnection i fd { s.connection i fd with
      toFrameReader := ((s.connection i fd).readFrame srv.maxMessageBytes env.socket).1 }).Entrywise
        SameReader (srv.handleRead s i fd c env).1 := by
  have hread := srv.readOutcome s i fd c env
  generalize srv.requestRead s i fd env = request at hread
  generalize srv.handleRead s i fd c env = out at hread ⊢
  have hclose (r : FrameReader) :
      (s.setConnection i fd { s.connection i fd with toFrameReader := r }).closeConnection i fd =
        s.closeConnection i fd := by
    simp [System.closeConnection, System.setConnection]
  cases hread with
  | waited r sock hframe =>
    rw [hframe]
    exact System.entrywise_of_eq ignoresSending_sameReader rfl fun _ _ => rfl
  | closed r sock hframe =>
    rw [← hclose]
    exact System.entrywise_closeConnection ignoresSending_sameReader
  | refused r body sock hframe =>
    rw [← hclose]
    exact System.entrywise_closeConnection ignoresSending_sameReader
  | forwarded r body sock req hframe =>
    rw [hframe]
    exact System.entrywise_of_eq ignoresSending_sameReader rfl fun _ _ => rfl
  | handled r body sock req hframe =>
    rw [hframe]
    have hcounted : (s.setConnection i fd { s.connection i fd with toFrameReader := r }).Entrywise
        SameReader (counted s i fd r) :=
      System.entrywise_of_eq ignoresSending_sameReader rfl fun _ _ => rfl
    exact hcounted.trans ignoresSending_sameReader (entrywise_answerLocally _ _ _)

end Server

/-! ### Connections and their numbers -/

/-- Connections have been numbered as they were accepted, and each is behind one descriptor. -/
structure System.Numbered (s : System n) : Prop where
  below : ∀ {i fd c}, s.owner i fd = some c → c.serial < s.accepted
  unique : ∀ {i j fd fd' c}, s.owner i fd = some c → s.owner j fd' = some c → i = j ∧ fd = fd'

namespace System

variable {R : Connection → Connection → Prop} {s s' : System n} {i : Fin n} {fd : ℕ}

theorem Numbered.of_entrywise (h : s.Numbered) (hentries : s.Entrywise R s')
    (haccepted : s'.accepted = s.accepted) : s'.Numbered where
  below howner := haccepted ▸ h.below (hentries _ _ _ howner).1
  unique howner howner' := h.unique (hentries _ _ _ howner).1 (hentries _ _ _ howner').1

theorem Fresh.numbered (h : s.Fresh) : s.Numbered where
  below howner := by simp [owner, h.sockets] at howner
  unique howner := by simp [owner, h.sockets] at howner

/-- The connections after an accept. -/
theorem owner_handleAccept_cases (hfree : s.sockets fd = none) {j : Fin n} {fd' : ℕ} {c : ConnId n}
    (howner : (s.handleAccept i fd true).owner j fd' = some c) :
    j = i ∧ fd' = fd ∧ c = ⟨i, s.accepted⟩ ∨ fd' ≠ fd ∧ s.owner j fd' = some c := by
  rcases eq_or_ne fd' fd with rfl | hfd
  · obtain rfl := s.reactor_of_owner_handleAccept hfree howner
    rw [handleAccept, if_pos ⟨rfl, hfree⟩, owner_eq_some] at howner
    obtain ⟨b, hsocket, -⟩ := howner
    dsimp only at hsocket
    rw [Function.update_self, Option.some_inj, OpenSocket.mk.injEq] at hsocket
    exact .inl ⟨rfl, rfl, hsocket.1.symm⟩
  · rw [s.owner_handleAccept_of_ne hfree hfd] at howner
    exact .inr ⟨hfd, howner⟩

theorem accepted_handleAccept (hfree : s.sockets fd = none) :
    (s.handleAccept i fd true).accepted = s.accepted + 1 := by
  rw [handleAccept, if_pos ⟨rfl, hfree⟩]

theorem Numbered.handleAccept (h : s.Numbered) (hfree : s.sockets fd = none) :
    (s.handleAccept i fd true).Numbered where
  below howner := by
    rw [accepted_handleAccept hfree]
    rcases owner_handleAccept_cases hfree howner with ⟨-, -, rfl⟩ | ⟨-, howner⟩
    · exact Nat.lt_succ_self _
    · exact (h.below howner).trans (Nat.lt_succ_self _)
  unique howner howner' := by
    rcases owner_handleAccept_cases hfree howner with ⟨rfl, rfl, hc⟩ | ⟨-, hold⟩ <;>
      rcases owner_handleAccept_cases hfree howner' with ⟨rfl, rfl, hc'⟩ | ⟨-, hold'⟩
    · exact ⟨rfl, rfl⟩
    · exact absurd (h.below hold') (hc ▸ lt_irrefl _)
    · exact absurd (h.below hold) (hc' ▸ lt_irrefl _)
    · exact h.unique hold hold'

theorem SameWork.accepted (h : s.SameWork s') : s'.accepted = s.accepted := by
  obtain ⟨_, _, _, _, rfl⟩ := h
  rfl

end System

/-! ### Frames -/

namespace Server

section

variable (srv : Server n)

/-- The bytes that `handle_read` takes from the socket. -/
def taken (s : System n) (i : Fin n) (fd : ℕ) (read : ReadEnv) : Bytes :=
  read.socket.available.take (read.socket.available.length -
    ((s.connection i fd).readFrame srv.maxMessageBytes read.socket).2.2.available.length)

/-- The bytes that a step reads from connection `c`. -/
def receivedOn (c : ConnId n) (s : System n) : ServerInput n → Option Bytes
  | .event i fd ev read _ =>
    if s.terminated ∨ ev.errHup ∨ ¬ ev.readable ∨ s.owner i fd ≠ some c then none
    else some (srv.taken s i fd read)
  | .accept .. | .drainRequest .. | .drainResponse _ | .harvest .. => none

end

/-- No read of the connection fails. -/
def ReadsWell (c : ConnId n) (s : System n) : ServerInput n → Prop
  | .event i fd _ read _ => s.owner i fd = some c → read.socket.ending ≠ .error
  | .accept .. | .drainRequest .. | .drainResponse _ | .harvest .. => True

/-- What was received from `c`, and the bodies that were parsed. -/
structure InFrames (c : ConnId n) (bytes : Bytes) (bodies : List Bytes) (s : System n) : Prop where
  /-- While the connection is open, the rest is held. -/
  held : ∀ {i fd}, s.owner i fd = some c →
    bytes = stream bodies ++ (s.connection i fd).readBuf
  parsed : stream bodies <+: bytes
  unused : s.accepted ≤ c.serial → bytes = [] ∧ bodies = []

variable {srv : Server n} {s s' : System n} {i : Fin n} {fd : ℕ} {c : ConnId n} {bytes : Bytes}
  {bodies : List Bytes}

theorem InFrames.of_entrywise (h : InFrames c bytes bodies s) (hentries : s.Entrywise SameReader s')
    (haccepted : s'.accepted = s.accepted) : InFrames c bytes bodies s' where
  held howner := by
    obtain ⟨howner', hreader⟩ := hentries _ _ _ howner
    rw [h.held howner', ← congrArg FrameReader.readBuf hreader]
  parsed := h.parsed
  unused hle := h.unused (haccepted ▸ hle)

theorem inFrames_fresh (hfresh : s.Fresh) (c : ConnId n) : InFrames c [] [] s where
  held howner := by simp [System.owner, hfresh.sockets] at howner
  parsed := List.nil_prefix
  unused _ := ⟨rfl, rfl⟩

/-- A new connection has sent nothing. -/
theorem InFrames.handleAccept (h : InFrames c bytes bodies s) (hfree : s.sockets fd = none) :
    InFrames c bytes bodies (s.handleAccept i fd true) where
  held {j fd'} howner := by
    have hconn : (s.handleAccept i fd true).connection j fd' =
        if j = i ∧ fd' = fd then {} else s.connection j fd' := by
      rw [System.connection, s.connections_handleAccept hfree, ← System.connection,
        System.connection_setConnection_ite]
    rw [hconn]
    rcases System.owner_handleAccept_cases hfree howner with ⟨rfl, rfl, rfl⟩ | ⟨hfd, howner⟩
    · rw [if_pos ⟨rfl, rfl⟩]
      obtain ⟨rfl, rfl⟩ := h.unused le_rfl
      rfl
    · rw [if_neg fun heq => hfd heq.2]
      exact h.held howner
  parsed := h.parsed
  unused hle := by
    rw [System.accepted_handleAccept hfree] at hle
    exact h.unused (Nat.le_of_succ_le hle)

/-- What is not taken is left. -/
theorem taken_append (srv : Server n) (s : System n) (i : Fin n) (fd : ℕ) (read : ReadEnv) :
    srv.taken s i fd read ++
      ((s.connection i fd).readFrame srv.maxMessageBytes read.socket).2.2.available =
        read.socket.available := by
  obtain ⟨front, hfront⟩ := FrameReader.suffix_readFrame srv.maxMessageBytes
    (s.connection i fd).toFrameReader read.socket
  rw [taken, ← hfront]
  simp

variable [NeZero n]

theorem accepted_handleRead (srv : Server n) (read : ReadEnv) :
    (srv.handleRead s i fd c read).1.accepted = s.accepted := by
  have hread := srv.readOutcome s i fd c read
  generalize srv.requestRead s i fd read = request at hread
  generalize srv.handleRead s i fd c read = out at hread ⊢
  cases hread with
  | waited | closed | refused | forwarded => rfl
  | handled r body sock req =>
    rcases srv.answerLocally_cases (counted s i fd r) i read.broker req fd ⟨c, s.reads⟩ with
      ⟨-, heq⟩ | ⟨resp, -, ⟨-, heq⟩ | ⟨-, heq⟩⟩ <;> dsimp only <;> rw [heq]
    · rfl
    · rfl
    · exact System.sameWork_putResponse.accepted

/-- A read from another connection. -/
theorem InFrames.handleRead_of_ne (h : InFrames c bytes bodies s) {c' : ConnId n}
    (howner : s.owner i fd = some c') (hne : c' ≠ c) (read : ReadEnv) :
    InFrames c bytes bodies (srv.handleRead s i fd c' read).1 where
  held {j fd'} hopen := by
    obtain ⟨hopen', hreader⟩ := entrywise_handleRead read j fd' c hopen
    have hother : ¬ (j = i ∧ fd' = fd) := by
      rintro ⟨rfl, rfl⟩
      exact hne (Option.some.inj (howner.symm.trans hopen'))
    rw [System.connection_setConnection_ite, if_neg hother] at hreader
    rw [h.held hopen', ← congrArg FrameReader.readBuf hreader]
  parsed := h.parsed
  unused hle := h.unused (srv.accepted_handleRead read ▸ hle)

/-- The bodies in the events of a read. -/
theorem handleRead_bodies (srv : Server n) (read : ReadEnv) :
    (∃ r sock, (s.connection i fd).readFrame srv.maxMessageBytes read.socket = (r, .wait, sock) ∧
        bodiesOf c (srv.handleRead s i fd c read).2 = []) ∨
      (∃ r sock, (s.connection i fd).readFrame srv.maxMessageBytes read.socket =
          (r, .close, sock) ∧
        bodiesOf c (srv.handleRead s i fd c read).2 = [] ∧
          (srv.handleRead s i fd c read).1.owner i fd = none) ∨
      ∃ r body sock, (s.connection i fd).readFrame srv.maxMessageBytes read.socket =
          (r, .frame body, sock) ∧
        bodiesOf c (srv.handleRead s i fd c read).2 = [body] := by
  have hread := srv.readOutcome s i fd c read
  generalize srv.requestRead s i fd read = request at hread
  generalize srv.handleRead s i fd c read = out at hread ⊢
  cases hread with
  | waited r sock hframe => exact .inl ⟨r, sock, hframe, rfl⟩
  | closed r sock hframe =>
    exact .inr (.inl ⟨r, sock, hframe, rfl, s.owner_closeConnection i fd⟩)
  | refused r body sock hframe =>
    exact .inr (.inr ⟨r, body, sock, hframe, by simp [bodiesOf]⟩)
  | forwarded r body sock req hframe =>
    exact .inr (.inr ⟨r, body, sock, hframe, by simp [bodiesOf]⟩)
  | handled r body sock req hframe =>
    refine .inr (.inr ⟨r, body, sock, hframe, ?_⟩)
    rcases srv.events_answerLocally (counted s i fd r) i read.broker req fd ⟨c, s.reads⟩ with
      hevents | hevents <;> simp [hevents, bodiesOf]

/-- Its events are about no other connection. -/
theorem bodiesOf_handleRead_of_ne (srv : Server n) (read : ReadEnv) {c' : ConnId n} (hne : c' ≠ c) :
    bodiesOf c (srv.handleRead s i fd c' read).2 = [] := by
  have hread := srv.readOutcome s i fd c' read
  generalize srv.requestRead s i fd read = request at hread
  generalize srv.handleRead s i fd c' read = out at hread ⊢
  cases hread with
  | waited | closed => rfl
  | refused | forwarded => simp [bodiesOf, hne]
  | handled r body sock req =>
    rcases srv.events_answerLocally (counted s i fd r) i read.broker req fd ⟨c', s.reads⟩ with
      hevents | hevents <;> simp [hevents, bodiesOf, hne]

/-- A read from the connection itself. -/
theorem InFrames.handleRead (h : InFrames c bytes bodies s) (hnumbered : s.Numbered)
    (hpart : (s.connection i fd).Partial srv.maxMessageBytes) (howner : s.owner i fd = some c)
    {read : ReadEnv} (hwell : read.socket.ending ≠ .error) :
    InFrames c (bytes ++ srv.taken s i fd read)
      (bodies ++ bodiesOf c (srv.handleRead s i fd c read).2)
      (srv.handleRead s i fd c read).1 := by
  have hreads := hpart.reads read.socket
  have htaken := srv.taken_append s i fd read
  have haccepted : (srv.handleRead s i fd c read).1.accepted = s.accepted :=
    srv.accepted_handleRead read
  have hunused {P : Prop} (hle : (srv.handleRead s i fd c read).1.accepted ≤ c.serial) : P :=
    absurd (hnumbered.below howner) (not_lt.mpr (haccepted ▸ hle))
  -- the connection is behind this descriptor and no other
  have hentry {j : Fin n} {fd' : ℕ}
      (hopen : (srv.handleRead s i fd c read).1.owner j fd' = some c) :
      i = j ∧ fd = fd' ∧ ((srv.handleRead s i fd c read).1.connection j fd').readBuf =
        ((s.connection i fd).readFrame srv.maxMessageBytes read.socket).1.readBuf := by
    obtain ⟨hopen', hreader⟩ := entrywise_handleRead read j fd' c hopen
    obtain ⟨rfl, rfl⟩ := hnumbered.unique howner hopen'
    rw [System.connection_setConnection] at hreader
    exact ⟨rfl, rfl, congrArg FrameReader.readBuf hreader⟩
  have hbefore := h.held howner
  rcases srv.handleRead_bodies (s := s) (i := i) (c := c) read with
    ⟨r, sock, hframe, hbodies⟩ | ⟨r, sock, hframe, hbodies, hclosed⟩ |
      ⟨r, body, sock, hframe, hbodies⟩ <;>
    rw [hframe] at hreads htaken hentry <;> rw [hbodies]
  · -- the bytes taken are held behind the others
    rw [List.append_nil]
    have hheld : bytes ++ srv.taken s i fd read = stream bodies ++ r.readBuf := by
      cases hreads with
      | waited _ _ _ hbytes =>
        have hsplit := hbytes hwell
        rw [← htaken, ← List.append_assoc, List.append_left_inj] at hsplit
        rw [hbefore, hsplit, List.append_assoc]
    refine ⟨fun hopen => ?_, ?_, hunused⟩
    · rw [(hentry hopen).2.2]
      exact hheld
    · rw [hheld]
      exact List.prefix_append _ _
  · rw [List.append_nil]
    refine ⟨fun hopen => ?_, h.parsed.trans (List.prefix_append _ _), hunused⟩
    obtain ⟨rfl, rfl, -⟩ := hentry hopen
    rw [hclosed] at hopen
    cases hopen
  · -- the frame is complete
    have hall : bytes ++ srv.taken s i fd read = stream (bodies ++ [body]) ∧ r.readBuf = [] := by
      cases hreads with
      | frame _ _ _ hempty _ hbytes =>
        refine ⟨?_, hempty⟩
        rw [← htaken, ← List.append_assoc, List.append_left_inj] at hbytes
        rw [hbefore, List.append_assoc, ← hbytes, stream, stream, List.flatMap_append,
          List.flatMap_singleton]
    refine ⟨fun hopen => ?_, ?_, hunused⟩
    · rw [(hentry hopen).2.2, hall.1, hall.2, List.append_nil]
    · rw [hall.1]

/-! ### Steps -/

theorem numbered_handleRead (h : s.Numbered) (read : ReadEnv) :
    (srv.handleRead s i fd c read).1.Numbered := by
  have hentries : s.Entrywise (fun _ _ => True) (srv.handleRead s i fd c read).1 :=
    fun j fd' c' hopen => ⟨(entrywise_handleRead read j fd' c' hopen).1, trivial⟩
  exact h.of_entrywise hentries (srv.accepted_handleRead read)

omit [NeZero n] in
theorem accepted_drainRequest (srv : Server n) (env : BrokerEnv) :
    (srv.drainRequest s i env).accepted = s.accepted := by
  rcases hq : s.requests i with _ | ⟨q, rest⟩
  · rw [drainRequest_nil srv s i env hq]
  · obtain ⟨popped, rfl, heq | ⟨resp, heq⟩⟩ := srv.drainRequest_cases s i env hq <;>
      rw [heq] <;> rfl

omit [NeZero n] in
theorem accepted_drainResponse : (drainResponse s i).1.accepted = s.accepted := by
  rcases hx : s.responses i with _ | ⟨x, rest⟩
  · rw [drainResponse, hx]
  · obtain ⟨popped, rfl, ⟨-, heq⟩ | ⟨conn, -, heq⟩⟩ := drainResponse_cases s i hx <;> rw [heq]
    exact System.sameWork_putResponse.accepted

omit [NeZero n] in
theorem bodiesOf_drainResponse : bodiesOf c (drainResponse s i).2 = [] := by
  rcases hx : s.responses i with _ | ⟨x, rest⟩
  · rw [drainResponse, hx]
    rfl
  · obtain ⟨popped, rfl, ⟨-, heq⟩ | ⟨conn, -, heq⟩⟩ := drainResponse_cases s i hx <;>
      rw [heq] <;> rfl

theorem numbered_readPart (h : s.Numbered) (ev : EpollEvent) (read : ReadEnv) :
    (srv.readPart s i fd c ev read).1.Numbered := by
  rw [readPart]
  split
  · exact numbered_handleRead h read
  · exact h

theorem numbered_next (h : s.Numbered) (input : ServerInput n) :
    (srv.machine.next s input).Numbered := by
  have hstep := srv.serverStep s input
  rw [Machine.next]
  generalize srv.machine.step s input = out at hstep ⊢
  cases hstep with
  | idle => exact h
  | accepted i fd hfree => exact h.handleAccept hfree
  | hungUp =>
    exact h.of_entrywise (System.entrywise_closeConnection ignoresSending_sameReader) rfl
  | event i fd c ev read => exact numbered_readPart h ev read
  | eventWrite i fd c ev read write =>
    exact (numbered_readPart h ev read).of_entrywise
      (System.entrywise_handleWrite ignoresSending_sameReader write)
      System.sameWork_handleWrite.accepted
  | requestDrained i env =>
    exact h.of_entrywise (entrywise_drainRequest env) (srv.accepted_drainRequest env)
  | responseDrained i => exact h.of_entrywise entrywise_drainResponse accepted_drainResponse
  | harvested i k written =>
    exact h.of_entrywise (System.entrywise_harvest ignoresSending_sameReader k written)
      System.sameWork_harvest.accepted

/-- An event on any connection. -/
theorem InFrames.handleEvent (h : InFrames c bytes bodies s) (hnumbered : s.Numbered)
    (htidy : s.Tidy srv.maxMessageBytes) {c' : ConnId n} (howner : s.owner i fd = some c')
    (ev : EpollEvent) {read : ReadEnv} (write : WriteEnv)
    (hwell : s.owner i fd = some c → read.socket.ending ≠ .error) (herr : ¬ ev.errHup = true) :
    InFrames c (bytes ++ if ev.readable = true ∧ c' = c then srv.taken s i fd read else [])
      (bodies ++ bodiesOf c (srv.handleEvent s i fd c' ev read write).2)
      (srv.handleEvent s i fd c' ev read write).1 := by
  have hpart : InFrames c
      (bytes ++ if ev.readable = true ∧ c' = c then srv.taken s i fd read else [])
      (bodies ++ bodiesOf c (srv.readPart s i fd c' ev read).2)
      (srv.readPart s i fd c' ev read).1 := by
    rw [readPart]
    by_cases hreadable : ev.readable = true
    · rw [if_pos hreadable]
      rcases eq_or_ne c' c with rfl | hne
      · rw [if_pos ⟨hreadable, rfl⟩]
        exact h.handleRead hnumbered (htidy.connection i fd).reader howner (hwell howner)
      · rw [if_neg fun heq => hne heq.2, List.append_nil]
        rw [srv.bodiesOf_handleRead_of_ne read hne, List.append_nil]
        exact h.handleRead_of_ne howner hne read
    · rw [if_neg hreadable, if_neg fun heq => hreadable heq.1]
      simpa [bodiesOf] using h
  rcases srv.handleEvent_cases s i fd c' read write herr with heq | heq <;> rw [heq]
  · exact hpart
  · exact hpart.of_entrywise (System.entrywise_handleWrite ignoresSending_sameReader write)
      System.sameWork_handleWrite.accepted

theorem inFrames_next (h : InFrames c bytes bodies s) (hnumbered : s.Numbered)
    (htidy : s.Tidy srv.maxMessageBytes) {input : ServerInput n} (hwell : ReadsWell c s input) :
    InFrames c (bytes ++ (srv.receivedOn c s input).toList.flatten)
      (bodies ++ bodiesOf c (srv.machine.out s input)) (srv.machine.next s input) := by
  rw [Machine.next, Machine.out]
  by_cases hterm : s.terminated = true
  · rw [machine_step_of_terminated srv s input hterm]
    cases input <;> simpa [receivedOn, hterm, bodiesOf] using h
  rw [machine_step srv s input hterm]
  cases input with
  | accept i fd ok =>
    rw [step]
    by_cases hok : ok ∧ s.sockets fd = none
    · obtain ⟨rfl, hfree⟩ := hok
      simpa [receivedOn, bodiesOf] using h.handleAccept hfree
    · rw [System.handleAccept, if_neg hok]
      simpa [receivedOn, bodiesOf] using h
  | event i fd ev read write =>
    rw [step]
    rcases howner : s.owner i fd with _ | c'
    · simpa [receivedOn, howner, bodiesOf] using h
    dsimp only
    by_cases herr : ev.errHup = true
    · have hclosed : InFrames c bytes bodies (s.closeConnection i fd) :=
        h.of_entrywise (System.entrywise_closeConnection ignoresSending_sameReader) rfl
      rw [Server.handleEvent, if_pos herr]
      simpa [receivedOn, herr, bodiesOf] using hclosed
    · have hevent := h.handleEvent hnumbered htidy howner ev write hwell herr
      have hreceived : (srv.receivedOn c s (.event i fd ev read write)).toList.flatten =
          if ev.readable = true ∧ c' = c then srv.taken s i fd read else [] := by
        by_cases hread : ev.readable = true ∧ c' = c
        · obtain ⟨hreadable, rfl⟩ := hread
          simp [receivedOn, hterm, herr, hreadable, howner]
        · rw [if_neg hread]
          simp only [receivedOn, howner]
          rw [if_pos]
          · rfl
          · by_cases hreadable : ev.readable = true
            · exact .inr (.inr (.inr fun heq => hread ⟨hreadable, Option.some.inj heq⟩))
            · exact .inr (.inr (.inl hreadable))
      rw [hreceived]
      exact hevent
  | drainRequest i env =>
    have hdrained : InFrames c bytes bodies (srv.drainRequest s i env) :=
      h.of_entrywise (entrywise_drainRequest env) (srv.accepted_drainRequest env)
    simpa [receivedOn, step, bodiesOf] using hdrained
  | drainResponse i =>
    have hdrained : InFrames c bytes bodies (Server.drainResponse s i).1 :=
      h.of_entrywise entrywise_drainResponse accepted_drainResponse
    simpa [receivedOn, step, bodiesOf_drainResponse] using hdrained
  | harvest i k written =>
    have hharvested : InFrames c bytes bodies (s.harvest i k written) :=
      h.of_entrywise (System.entrywise_harvest ignoresSending_sameReader k written)
        System.sameWork_harvest.accepted
    simpa [receivedOn, step, bodiesOf] using hharvested

/-- **The bytes of a connection are read as frames.** In every run in which no read of connection
`c` fails, the bodies that `parse_request` was called on for `c` are the frames at the beginning
of the bytes received from it; and as long as it is open, the rest is the part of a frame that
its entry holds. -/
theorem inFrames_of_reads (srv : Server n) (hfresh : s.Fresh) (c : ConnId n)
    {inputs : List (ServerInput n)} (h : srv.machine.Within (ReadsWell c) s inputs) :
    stream (bodiesOf c (allEvents (srv.machine.trace s inputs))) <+:
        (srv.machine.observed (srv.receivedOn c) s inputs).flatten ∧
      ∀ i fd, (srv.machine.exec s inputs).owner i fd = some c →
        (srv.machine.observed (srv.receivedOn c) s inputs).flatten =
            stream (bodiesOf c (allEvents (srv.machine.trace s inputs))) ++
              ((srv.machine.exec s inputs).connection i fd).readBuf ∧
          ((srv.machine.exec s inputs).connection i fd).Partial srv.maxMessageBytes := by
  obtain ⟨-, hframes⟩ := Machine.invariant_inputs (M := srv.machine)
    (I := fun pre t => t.Numbered ∧
      InFrames c (srv.machine.observed (srv.receivedOn c) s pre).flatten
        (bodiesOf c (allEvents (srv.machine.trace s pre))) t)
    (fun pre input hpre hinput => by
      have htidy : (srv.machine.exec s pre).Tidy srv.maxMessageBytes := tidy_exec hfresh pre
      rw [Machine.observed_concat, List.flatten_append, Machine.trace_append, Machine.trace_cons,
        Machine.trace_nil, allEvents_snoc, bodiesOf_append]
      exact ⟨numbered_next hpre.1 input, inFrames_next hpre.2 hpre.1 htidy hinput⟩)
    ⟨hfresh.numbered, inFrames_fresh hfresh c⟩ h
  exact ⟨hframes.parsed, fun i fd howner => ⟨hframes.held howner,
    ((tidy_exec hfresh inputs).connection i fd).reader⟩⟩

end Server

open TwoReactors in
/-- A whole request arrives and is forwarded, and then a part of the next length prefix. -/
theorem inFrames_produceZero :
    ((server fun _ => 0).machine.observed ((server fun _ => 0).receivedOn ⟨0, 0⟩) {}
        [connect, arrive produceZero, readAndWrite ⟨[0, 0], .again⟩]).flatten =
      stream (bodiesOf ⟨0, 0⟩ (allEvents ((server fun _ => 0).machine.trace {}
        [connect, arrive produceZero, readAndWrite ⟨[0, 0], .again⟩]))) ++
        (((server fun _ => 0).machine.exec {}
          [connect, arrive produceZero, readAndWrite ⟨[0, 0], .again⟩]).connection 0 7).readBuf :=
  have hwell : (server fun _ => 0).machine.Within (Server.ReadsWell ⟨0, 0⟩) {}
      [connect, arrive produceZero, readAndWrite ⟨[0, 0], .again⟩] :=
    ⟨trivial, fun _ => ReadEnd.noConfusion, fun _ => ReadEnd.noConfusion, trivial⟩
  have howner : ((server fun _ => 0).machine.exec {}
      [connect, arrive produceZero, readAndWrite ⟨[0, 0], .again⟩]).owner 0 7 = some ⟨0, 0⟩ := by
    decide +kernel
  ((Server.inFrames_of_reads (server fun _ => 0) System.fresh_empty ⟨0, 0⟩ hwell).2 0 7 howner).1

end TinyKafka
