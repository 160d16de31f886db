import TinyKafka.Net.Ownership

/-!
# Invariants of the connections

What is true of every entry of every connection table, after any steps of the reactors, with no
condition on what the clients and the system do (`System.Tidy`):

* the read side holds a part of one frame, whose announced length is within the limit;
* the write offset is not beyond the write buffer;
* an entry behind an open descriptor with something to send is registered for output events;
* an entry that waits for a splice has it in the ring of its reactor. Descriptor 0 is left out:
  its user data is zero, and the completion is not looked at.

So a connection with unsent bytes always has an event or a completion to come: it can be flushed
from every state that is reached (`Server.flushes_of_open`), in a number of steps that
`Connection.work` bounds. And a connection holds fewer bytes of a request than the largest message
and its length prefix have (`Server.buffers_bounded`).
-/

namespace TinyKafka

variable {n : ℕ}

/-- There is something to send. -/
def Connection.Busy (conn : Connection) : Prop := conn.writeBuf ≠ [] ∨ conn.writeQueue ≠ []

/-! ### The invariant -/

namespace System

/-- The entry `conn` of reactor `i` under `fd` is as it should be. -/
structure TidyAt (limit : UInt32) (s : System n) (i : Fin n) (fd : ℕ) (conn : Connection) :
    Prop where
  reader : conn.toFrameReader.Partial limit
  offset : conn.writeOffset ≤ conn.writeBuf.length
  wants : ∀ c want, s.sockets fd = some ⟨c, want⟩ → c.reactor = i → conn.Busy → want = true
  spliced : conn.splicePending = true → fd ≠ 0 → ∃ file len, .splice fd file len ∈ s.rings i

/-- Every entry is as it should be. -/
def Tidy (limit : UInt32) (s : System n) : Prop :=
  ∀ i fd conn, s.connections i fd = some conn → s.TidyAt limit i fd conn

/-- Every entry but one is. -/
def TidyBut (limit : UInt32) (s : System n) (i : Fin n) (fd : ℕ) : Prop :=
  ∀ j fd' conn, ¬ (j = i ∧ fd' = fd) → s.connections j fd' = some conn →
    s.TidyAt limit j fd' conn

variable {limit : UInt32} {s s' : System n} {i : Fin n} {fd : ℕ} {conn : Connection}

theorem Tidy.but (h : s.Tidy limit) (i : Fin n) (fd : ℕ) : s.TidyBut limit i fd :=
  fun j fd' conn _ hconn => h j fd' conn hconn

theorem TidyBut.tidy (h : s.TidyBut limit i fd)
    (hentry : ∀ conn, s.connections i fd = some conn → s.TidyAt limit i fd conn) :
    s.Tidy limit := by
  intro j fd' conn hconn
  by_cases heq : j = i ∧ fd' = fd
  · obtain ⟨rfl, rfl⟩ := heq
    exact hentry conn hconn
  · exact h j fd' conn heq hconn

/-- An entry depends on the socket of its descriptor and on the splices in its ring. -/
theorem TidyAt.congr (h : s.TidyAt limit i fd conn) (hsocket : s'.sockets fd = s.sockets fd)
    (hring : ∀ file len, .splice fd file len ∈ s.rings i → .splice fd file len ∈ s'.rings i) :
    s'.TidyAt limit i fd conn where
  reader := h.reader
  offset := h.offset
  wants := by
    rw [hsocket]
    exact h.wants
  spliced hpending hfd := by
    obtain ⟨file, len, hmem⟩ := h.spliced hpending hfd
    exact ⟨file, len, hring file len hmem⟩

theorem Tidy.congr (h : s.Tidy limit) (hconn : s'.connections = s.connections)
    (hsockets : s'.sockets = s.sockets)
    (hrings : ∀ i fd file len, .splice fd file len ∈ s.rings i →
      .splice fd file len ∈ s'.rings i) : s'.Tidy limit := by
  intro i fd conn hentry
  rw [hconn] at hentry
  exact (h i fd conn hentry).congr (congrFun hsockets fd) (hrings i fd)

theorem tidyAt_empty (hwants : ∀ c want, s.sockets fd = some ⟨c, want⟩ → c.reactor = i →
    Connection.Busy {} → want = true) : s.TidyAt limit i fd {} where
  reader := FrameReader.partial_of_empty rfl rfl
  offset := le_rfl
  wants := hwants
  spliced h := absurd h Bool.false_ne_true

/-- What is found under a descriptor, or constructed there. -/
theorem Tidy.connection (h : s.Tidy limit) (i : Fin n) (fd : ℕ) :
    s.TidyAt limit i fd (s.connection i fd) := by
  rw [System.connection]
  rcases hconn : s.connections i fd with _ | conn
  · refine tidyAt_empty fun _ _ _ _ hbusy => ?_
    rcases hbusy with hbusy | hbusy <;> exact absurd rfl hbusy
  · exact h i fd conn hconn

/-! ### The operations on an entry -/

theorem TidyBut.setConnection (h : s.TidyBut limit i fd) (hconn : s.TidyAt limit i fd conn) :
    (s.setConnection i fd conn).Tidy limit := by
  intro j fd' conn' hentry
  rw [connections_setConnection] at hentry
  split at hentry
  · next heq =>
    obtain ⟨rfl, rfl⟩ := heq
    obtain rfl := Option.some.inj hentry
    exact hconn.congr rfl fun _ _ hmem => hmem
  · next hne => exact (h j fd' conn' hne hentry).congr rfl fun _ _ hmem => hmem

/-- The interest that has been set. -/
theorem want_setWantWrite {b want : Bool} {c : ConnId n}
    (h : (s.setWantWrite i fd b).sockets fd = some ⟨c, want⟩) (hreactor : c.reactor = i) :
    want = b := by
  have howner : s.owner i fd = some c := by
    rw [← s.owner_setWantWrite i fd b, owner_eq_some]
    exact ⟨want, h, hreactor⟩
  rw [setWantWrite, howner] at h
  dsimp only at h
  rw [Function.update_self, Option.some_inj, OpenSocket.mk.injEq] at h
  exact h.2.symm

/-- It concerns the entry of the reactor that has set it. -/
theorem sockets_of_setWantWrite {b want : Bool} {j : Fin n} {fd' : ℕ} {c : ConnId n}
    (hne : ¬ (j = i ∧ fd' = fd))
    (h : (s.setWantWrite i fd b).sockets fd' = some ⟨c, want⟩) (hreactor : c.reactor = j) :
    s.sockets fd' = some ⟨c, want⟩ := by
  rcases eq_or_ne fd' fd with rfl | hfd
  · have howner : s.owner i fd' = none := by
      have hother : (s.setWantWrite i fd' b).owner i fd' = none := by
        rw [Option.eq_none_iff_forall_ne_some]
        intro c' hc'
        obtain ⟨b', hsocket, hi⟩ := (owner_eq_some _ i fd').mp hc'
        rw [h, Option.some_inj, OpenSocket.mk.injEq] at hsocket
        exact hne ⟨hreactor.symm.trans (hsocket.1 ▸ hi), rfl⟩
      rwa [owner_setWantWrite] at hother
    rwa [setWantWrite, howner] at h
  · rw [setWantWrite] at h
    split at h
    · dsimp only at h
      rwa [Function.update_of_ne hfd] at h
    · exact h

/-- An entry is replaced, and the interest is what the new one needs. -/
theorem TidyBut.replace (h : s.TidyBut limit i fd) (hreader : conn.toFrameReader.Partial limit)
    (hoffset : conn.writeOffset ≤ conn.writeBuf.length)
    (hspliced : conn.splicePending = true → fd ≠ 0 → ∃ file len, .splice fd file len ∈ s.rings i)
    {b : Bool} (hb : conn.Busy → b = true) :
    ((s.setConnection i fd conn).setWantWrite i fd b).Tidy limit := by
  intro j fd' conn' hentry
  have hrings : ((s.setConnection i fd conn).setWantWrite i fd b).rings = s.rings := by
    rw [setWantWrite_eq]
    rfl
  rw [connections_setWantWrite, connections_setConnection] at hentry
  split at hentry
  · next heq =>
    obtain ⟨rfl, rfl⟩ := heq
    obtain rfl := Option.some.inj hentry
    refine ⟨hreader, hoffset, fun c want hsocket hreactor hbusy => ?_, ?_⟩
    · rw [want_setWantWrite hsocket hreactor]
      exact hb hbusy
    · rw [hrings]
      exact hspliced
  · next hne =>
    have hold := h j fd' conn' hne hentry
    refine ⟨hold.reader, hold.offset, fun c want hsocket hreactor => ?_, ?_⟩
    · have hsocket' : (s.setConnection i fd conn).sockets fd' = some ⟨c, want⟩ :=
        sockets_of_setWantWrite hne hsocket hreactor
      exact hold.wants c want hsocket' hreactor
    · rw [hrings]
      exact hold.spliced

theorem not_busy_empty : ¬ Connection.Busy {} := fun h => h.elim (absurd rfl) (absurd rfl)

/-- A response is put into the buffers. -/
theorem Tidy.putResponse (h : s.Tidy limit) (hconn : s.TidyAt limit i fd conn) (data : Bytes) :
    (s.putResponse i fd conn data).Tidy limit := by
  unfold System.putResponse
  rw [Connection.enqueue]
  by_cases hidle : conn.Idle
  · rw [if_pos hidle, if_pos hidle]
    refine (h.but i fd).replace ?_ ?_ ?_ fun _ => rfl
    · exact hconn.reader
    · exact Nat.zero_le _
    · exact hconn.spliced
  · rw [if_neg hidle, if_neg hidle]
    refine (h.but i fd).setConnection ⟨hconn.reader, hconn.offset, ?_, hconn.spliced⟩
    intro c want hsocket hreactor _
    refine hconn.wants c want hsocket hreactor (.inl fun hempty => hidle ⟨?_, hempty⟩)
    have hoffset := hconn.offset
    rw [hempty] at hoffset
    exact Nat.le_zero.mp hoffset

/-- The next buffer is taken; `conn` has the queue of the entry that was there. -/
theorem TidyBut.advanceWriteQueue (h : s.TidyBut limit i fd)
    (hreader : conn.toFrameReader.Partial limit)
    (hwants : ∀ c want, s.sockets fd = some ⟨c, want⟩ → c.reactor = i →
      conn.writeQueue ≠ [] → want = true)
    (hspliced : conn.splicePending = true → fd ≠ 0 →
      ∃ file len, .splice fd file len ∈ s.rings i) :
    (s.advanceWriteQueue i fd conn).Tidy limit := by
  unfold System.advanceWriteQueue
  dsimp only
  rw [Connection.advanceWriteQueue]
  rcases hqueue : conn.writeQueue with _ | ⟨front, queue⟩
  · rw [if_pos rfl]
    refine h.replace ?_ ?_ ?_ fun hbusy => ?_
    · exact hreader
    · exact Nat.zero_le _
    · exact hspliced
    · rcases hbusy with hbusy | hbusy <;> exact absurd rfl hbusy
  · rw [if_neg (by simp)]
    refine h.setConnection ⟨hreader, Nat.zero_le _, ?_, hspliced⟩
    intro c want hsocket hreactor _
    exact hwants c want hsocket hreactor (by simp [hqueue])

theorem Tidy.closeConnection (h : s.Tidy limit) : (s.closeConnection i fd).Tidy limit := by
  intro j fd' conn hentry
  rw [connections_closeConnection] at hentry
  split at hentry
  · cases hentry
  next hne =>
  have hold := h j fd' conn hentry
  refine ⟨hold.reader, hold.offset, fun c want hsocket => ?_, hold.spliced⟩
  rw [System.closeConnection] at hsocket
  dsimp only at hsocket
  rcases eq_or_ne fd' fd with rfl | hfd
  · rw [Function.update_self] at hsocket
    cases hsocket
  · rw [Function.update_of_ne hfd] at hsocket
    exact hold.wants c want hsocket

theorem Tidy.handleAccept (h : s.Tidy limit) (hfree : s.sockets fd = none) :
    (s.handleAccept i fd true).Tidy limit := by
  rw [System.handleAccept, if_pos ⟨rfl, hfree⟩]
  intro j fd' conn hentry
  rw [show ({ s.setConnection i fd {} with
      sockets := Function.update s.sockets fd (some ⟨⟨i, s.accepted⟩, false⟩)
      accepted := s.accepted + 1 } : System n).connections =
        (s.setConnection i fd {}).connections from rfl, connections_setConnection] at hentry
  split at hentry
  · obtain rfl := Option.some.inj hentry
    exact tidyAt_empty fun _ _ _ _ hbusy => absurd hbusy not_busy_empty
  next hne =>
  have hold := h j fd' conn hentry
  refine ⟨hold.reader, hold.offset, fun c want hsocket hreactor => ?_, hold.spliced⟩
  dsimp only at hsocket
  rcases eq_or_ne fd' fd with rfl | hfd
  · -- the new socket belongs to another reactor than this entry
    rw [Function.update_self, Option.some_inj, OpenSocket.mk.injEq] at hsocket
    rw [← hsocket.1] at hreactor
    exact absurd ⟨hreactor.symm, rfl⟩ hne
  · rw [Function.update_of_ne hfd] at hsocket
    exact hold.wants c want hsocket hreactor

/-- The splice goes into the ring at the same time. -/
theorem TidyBut.submitSplice (h : s.TidyBut limit i fd) (hconn : s.TidyAt limit i fd conn)
    (file : FileRef) : (s.submitSplice i fd conn file).Tidy limit := by
  have hring (j : Fin n) (op : RingOp) (hop : op ∈ s.rings j) :
      op ∈ (s.submitSplice i fd conn file).rings j := by
    change op ∈ Function.update s.rings i _ j
    rcases eq_or_ne j i with rfl | hne
    · rw [Function.update_self]
      exact List.mem_append_left _ hop
    · rwa [Function.update_of_ne hne]
  intro j fd' conn' hentry
  change (s.setConnection i fd _).connections j fd' = some conn' at hentry
  rw [connections_setConnection] at hentry
  split at hentry
  · next heq =>
    obtain ⟨rfl, rfl⟩ := heq
    obtain rfl := Option.some.inj hentry
    refine ⟨hconn.reader, hconn.offset, hconn.wants, fun _ _ => ⟨file, conn.spliceLen, ?_⟩⟩
    change _ ∈ Function.update s.rings j _ j
    rw [Function.update_self]
    exact List.mem_append_right _ List.mem_cons_self
  · next hne =>
    exact (h j fd' conn' hne hentry).congr rfl fun file len hop => hring j _ hop

/-- `handle_write`: what is sent is not beyond the end of the buffer. -/
theorem Tidy.handleWrite (h : s.Tidy limit) (env : WriteEnv) :
    (s.handleWrite i fd env).Tidy limit := by
  have hconn := h.connection i fd
  rw [System.handleWrite]
  split
  · exact h.closeConnection
  next sent hsent =>
  have hoffset : (s.connection i fd).writeOffset + sent ≤ (s.connection i fd).writeBuf.length := by
    have hbound := hconn.offset
    unfold Connection.sendAll at hsent
    dsimp only at hsent
    split at hsent
    · obtain rfl := Option.some.inj hsent
      exact hbound
    · obtain ⟨k, -, rfl⟩ := Option.map_eq_some_iff.mp hsent
      have hmin := Nat.min_le_left
        ((s.connection i fd).writeBuf.length - (s.connection i fd).writeOffset) k
      omega
  have hsent' : s.TidyAt limit i fd { s.connection i fd with
      writeOffset := (s.connection i fd).writeOffset + sent } :=
    ⟨hconn.reader, hoffset, hconn.wants, hconn.spliced⟩
  dsimp only
  split
  · split
    · exact (h.but i fd).submitSplice hsent' _
    · refine (h.but i fd).advanceWriteQueue hconn.reader ?_ hconn.spliced
      exact fun c want hsocket hreactor hqueue => hconn.wants c want hsocket hreactor (.inr hqueue)
    · exact (h.but i fd).setConnection hsent'
  · exact (h.but i fd).setConnection hsent'

/-- The other splices stay in the ring. -/
theorem mem_eraseIdx_of_ne {ring : List RingOp} {k : ℕ} {op op' : RingOp}
    (hk : ring[k]? = some op) (hne : op' ≠ op) (hmem : op' ∈ ring) : op' ∈ ring.eraseIdx k := by
  obtain ⟨m, hm⟩ := List.mem_iff_getElem?.mp hmem
  refine List.mem_eraseIdx_iff_getElem?.mpr ⟨m, ?_, hm⟩
  rintro rfl
  exact hne (Option.some.inj (hm.symm.trans hk))

/-- A completion. After a splice the entry goes on with its queue. -/
theorem Tidy.harvest (h : s.Tidy limit) (k written : ℕ) : (s.harvest i k written).Tidy limit := by
  rw [System.harvest]
  split
  swap
  · exact h
  next op hop =>
  have hring (fd : ℕ) (file : FileRef) (len : ℕ) (hne : RingOp.splice fd file len ≠ op)
      (j : Fin n) (hmem : .splice fd file len ∈ s.rings j) :
      .splice fd file len ∈ Function.update s.rings i ((s.rings i).eraseIdx k) j := by
    rcases eq_or_ne j i with rfl | hj
    · rw [Function.update_self]
      exact mem_eraseIdx_of_ne hop hne hmem
    · rwa [Function.update_of_ne hj]
  rcases op with ⟨path, w⟩ | ⟨fd, file, len⟩
  · exact h.congr rfl rfl fun j fd file len hmem => hring fd file len (by simp) j hmem
  have hothers : ({ s with rings := Function.update s.rings i ((s.rings i).eraseIdx k) } :
      System n).TidyBut limit i fd := by
    intro j fd' conn hne hentry
    refine (h j fd' conn hentry).congr rfl fun file' len' hmem => ?_
    rcases eq_or_ne fd' fd with rfl | hfd
    · -- the same number with another reactor, whose ring is another one
      change _ ∈ Function.update s.rings i _ j
      rwa [Function.update_of_ne fun hj => hne ⟨hj, rfl⟩]
    · exact hring fd' file' len' (by simp [hfd]) j hmem
  dsimp only [System.complete]
  rcases hentry : s.connections i fd with _ | conn
  · exact hothers.tidy fun conn hconn => absurd (hentry.symm.trans hconn) (by simp)
  have hconn := h i fd conn hentry
  dsimp only
  split
  · next hzero =>
    refine hothers.tidy fun conn' hconn' => ?_
    obtain rfl := Option.some.inj (hentry.symm.trans hconn')
    exact ⟨hconn.reader, hconn.offset, hconn.wants, fun _ hne => absurd hzero hne⟩
  · refine hothers.advanceWriteQueue hconn.reader ?_ fun hpending => absurd hpending (by simp)
    exact fun c want hsocket hreactor hqueue => hconn.wants c want hsocket hreactor (.inr hqueue)

end System

/-! ### Steps -/

namespace Server

variable {srv : Server n} {s : System n} {i : Fin n} {fd : ℕ}

theorem tidy_handle (h : s.Tidy srv.maxMessageBytes) (env : BrokerEnv) (req : Request) :
    (srv.handle s i env req).1.Tidy srv.maxMessageBytes := by
  refine h.congr rfl rfl fun j fd file len hmem => ?_
  change _ ∈ Function.update s.rings i _ j
  rcases eq_or_ne j i with rfl | hne
  · rw [Function.update_self]
    exact List.mem_append_left _ hmem
  · rwa [Function.update_of_ne hne]

/-- The slot for a splice is not looked at. -/
theorem tidyAt_setSplice {conn : Connection} (h : s.TidyAt srv.maxMessageBytes i fd conn)
    (splice : Option (FileRef × ℕ)) :
    s.TidyAt srv.maxMessageBytes i fd (conn.setSplice splice) := by
  rcases splice with _ | ⟨file, len⟩
  · exact h
  · exact ⟨h.reader, h.offset, h.wants, h.spliced⟩

theorem tidy_answerLocally (h : s.Tidy srv.maxMessageBytes) (origin : Origin n)
    (env : BrokerEnv) (req : Request) :
    (srv.answerLocally s i fd origin env req).1.Tidy srv.maxMessageBytes := by
  have hhandled : (srv.handle s i env req).1.Tidy srv.maxMessageBytes := tidy_handle h env req
  rcases srv.answerLocally_cases s i env req fd origin with
    ⟨-, heq⟩ | ⟨_, -, ⟨-, heq⟩ | ⟨-, heq⟩⟩ <;> rw [heq]
  · exact hhandled
  · exact hhandled.closeConnection
  · exact hhandled.putResponse (tidyAt_setSplice (hhandled.connection i fd) _) _

variable [NeZero n]

theorem tidy_handleRead (h : s.Tidy srv.maxMessageBytes) (c : ConnId n) (env : ReadEnv) :
    (srv.handleRead s i fd c env).1.Tidy srv.maxMessageBytes := by
  have hconn := h.connection i fd
  have hframe := hconn.reader.reads env.socket
  have hread := srv.readOutcome s i fd c env
  generalize srv.requestRead s i fd env = request at hread
  generalize srv.handleRead s i fd c env = out at hread ⊢
  have hreader {r : FrameReader} (hpart : r.Partial srv.maxMessageBytes) :
      (s.setConnection i fd { s.connection i fd with toFrameReader := r }).Tidy
        srv.maxMessageBytes :=
    (h.but i fd).setConnection ⟨hpart, hconn.offset, hconn.wants, hconn.spliced⟩
  cases hread with
  | waited r sock heq =>
    rw [heq] at hframe
    cases hframe with
    | waited _ _ hpart _ => exact hreader hpart
  | closed => exact h.closeConnection
  | refused => exact h.closeConnection
  | forwarded r body sock req heq =>
    rw [heq] at hframe
    cases hframe with
    | frame _ _ _ hempty hheader _ =>
      exact (hreader (FrameReader.partial_of_empty hempty hheader)).congr rfl rfl
        fun _ _ _ _ hmem => hmem
  | handled r body sock req heq =>
    rw [heq] at hframe
    cases hframe with
    | frame _ _ _ hempty hheader _ =>
      refine tidy_answerLocally ?_ _ _ _
      exact (hreader (FrameReader.partial_of_empty hempty hheader)).congr rfl rfl
        fun _ _ _ _ hmem => hmem

/-- Every step of every reactor. -/
theorem tidy_next (h : s.Tidy srv.maxMessageBytes) (input : ServerInput n) :
    (srv.machine.next s input).Tidy srv.maxMessageBytes := by
  have hstep := srv.serverStep s input
  rw [Machine.next]
  generalize srv.machine.step s input = out at hstep ⊢
  have hpart (i : Fin n) (fd : ℕ) (c : ConnId n) (ev : EpollEvent) (read : ReadEnv) :
      (srv.readPart s i fd c ev read).1.Tidy srv.maxMessageBytes := by
    rw [readPart]
    split
    · exact tidy_handleRead h c read
    · exact h
  cases hstep with
  | idle => exact h
  | accepted i fd hfree => exact h.handleAccept hfree
  | hungUp => exact h.closeConnection
  | event i fd c ev read => exact hpart i fd c ev read
  | eventWrite i fd c ev read write => exact (hpart i fd c ev read).handleWrite write
  | requestDrained i env q rest hq =>
    have hpopped : ({ s with requests := Function.update s.requests i rest } : System n).Tidy
        srv.maxMessageBytes := h.congr rfl rfl fun _ _ _ _ hmem => hmem
    obtain ⟨popped, rfl, hdrain | ⟨resp, hdrain⟩⟩ := srv.drainRequest_cases s i env hq <;>
      rw [hdrain]
    · exact tidy_handle hpopped env q.request
    · exact (tidy_handle hpopped env q.request).congr rfl rfl fun _ _ _ _ hmem => hmem
  | responseDrained i x rest hx =>
    obtain ⟨popped, rfl, ⟨-, hdrain⟩ | ⟨conn, hconn, hdrain⟩⟩ := drainResponse_cases s i hx <;>
      rw [hdrain]
    · exact h.congr rfl rfl fun _ _ _ _ hmem => hmem
    · have hpopped : ({ s with responses := Function.update s.responses i rest } : System n).Tidy
          srv.maxMessageBytes := h.congr rfl rfl fun _ _ _ _ hmem => hmem
      exact hpopped.putResponse (tidyAt_setSplice (hpopped i x.clientFd conn hconn) _) _
  | harvested i k written => exact h.harvest k written

/-- Whatever the clients and the system do. -/
theorem tidy_exec (hfresh : s.Fresh) (inputs : List (ServerInput n)) :
    (srv.machine.exec s inputs).Tidy srv.maxMessageBytes := by
  refine Machine.invariant_exec_all (I := fun s : System n => s.Tidy srv.maxMessageBytes)
    (fun s input h => tidy_next h input) ?_ inputs
  intro i fd conn hconn
  rw [hfresh.connections] at hconn
  cases hconn

end Server

/-! ### Progress -/

namespace Connection

/-- Nothing is to be sent, and no splice is waited for. -/
def Flushed (conn : Connection) : Prop := ¬ conn.Busy ∧ conn.splicePending = false

/-- An upper bound for the output events and completions until everything is sent: one for every
byte, two for every buffer that waits, and two for a splice. -/
def work (conn : Connection) : ℕ :=
  (conn.writeBuf.length - conn.writeOffset) + (if conn.writeBuf = [] then 0 else 1) +
    (conn.writeQueue.map fun buf => buf.length + 2).sum +
    (if conn.spliceFd.isSome then 2 else 0) + (if conn.splicePending then 1 else 0)

/-- The next buffer takes the place of what was there. -/
theorem work_advanceWriteQueue_lt {conn : Connection} (h : conn.Busy) :
    conn.advanceWriteQueue.work < conn.work := by
  rw [advanceWriteQueue]
  rcases hqueue : conn.writeQueue with _ | ⟨front, queue⟩
  · have hbuf : conn.writeBuf ≠ [] := h.resolve_right fun hne => hne hqueue
    simp [work, hqueue, hbuf]
  · have hone : (if front = [] then 0 else 1) ≤ 1 := by split <;> omega
    simp only [work, hqueue, List.map_cons, List.sum_cons, Nat.sub_zero]
    omega

theorem work_advanceWriteQueue_le (conn : Connection) :
    conn.advanceWriteQueue.work ≤ conn.work := by
  by_cases h : conn.Busy
  · exact (work_advanceWriteQueue_lt h).le
  · obtain ⟨hbuf, hqueue⟩ : conn.writeBuf = [] ∧ conn.writeQueue = [] := by
      simpa [Busy, not_or] using h
    simp [advanceWriteQueue, work, hbuf, hqueue]

/-- A splice in the slot counts more than one that is waited for. -/
theorem work_submitted_lt {conn : Connection} {file : FileRef} (hfile : conn.spliceFd = some file)
    (hwaits : conn.splicePending = false) :
    work { conn with splicePending := true, spliceFd := none, spliceLen := 0 } < conn.work := by
  simp [work, hfile, hwaits]

theorem work_sent_le (conn : Connection) (m : ℕ) :
    work { conn with writeOffset := conn.writeOffset + m } ≤ conn.work := by
  simp only [work]
  omega

/-- Without an error `send` takes what it can, and nothing if nothing is left. -/
theorem sendAll_some (conn : Connection) (k : ℕ) :
    conn.sendAll (some k) = some (min (conn.writeBuf.length - conn.writeOffset) k) := by
  rw [sendAll]
  split
  · next hzero => rw [hzero, Nat.zero_min]
  · rfl

end Connection

namespace System

variable {s : System n} {i : Fin n} {fd k : ℕ}

theorem connection_advanceWriteQueue (conn : Connection) :
    (s.advanceWriteQueue i fd conn).connection i fd = conn.advanceWriteQueue := by
  unfold advanceWriteQueue
  dsimp only
  split
  · rw [connection, connections_setWantWrite]
    exact connection_setConnection s i fd _
  · exact connection_setConnection s i fd _

theorem connection_submitSplice (conn : Connection) (file : FileRef) :
    (s.submitSplice i fd conn file).connection i fd =
      { conn with splicePending := true, spliceFd := none, spliceLen := 0 } :=
  connection_setConnection s i fd _

/-- An output event on which something is taken: bytes are sent, the splice is submitted, or the
next buffer is taken up. -/
theorem handleWrite_progress (env : WriteEnv) (hsent : env.sent = some k) (hpos : 0 < k)
    (hbusy : (s.connection i fd).Busy) (hwaits : (s.connection i fd).splicePending = false) :
    (s.handleWrite i fd env).owner i fd = s.owner i fd ∧
      ((s.handleWrite i fd env).connection i fd).work < (s.connection i fd).work := by
  rw [handleWrite, hsent, Connection.sendAll_some]
  generalize s.connection i fd = conn at hbusy hwaits ⊢
  have hle := conn.work_sent_le (min (conn.writeBuf.length - conn.writeOffset) k)
  dsimp only
  split
  · split
    · next hfile _ _ =>
      rw [connection_submitSplice]
      refine ⟨rfl, LT.lt.trans_le ?_ hle⟩
      exact Connection.work_submitted_lt hfile hwaits
    · rw [connection_advanceWriteQueue]
      refine ⟨sameTable_advanceWriteQueue.owner i fd, LT.lt.trans_le ?_ hle⟩
      exact Connection.work_advanceWriteQueue_lt hbusy
    · next hpending => exact absurd (hwaits.symm.trans hpending) Bool.false_ne_true
  · next hrest =>
    refine ⟨rfl, ?_⟩
    rw [connection_setConnection]
    simp only [Connection.work]
    omega

/-- The completion of a splice that is waited for. -/
theorem harvest_progress {conn : Connection} {file : FileRef} {len : ℕ} (hfd : fd ≠ 0)
    (hentry : s.connections i fd = some conn) (hwaits : conn.splicePending = true)
    (hk : (s.rings i)[k]? = some (.splice fd file len)) :
    ((s.harvest i k 0).connection i fd).work < conn.work := by
  rw [harvest, hk]
  dsimp only [complete]
  rw [hentry]
  dsimp only
  rw [if_neg hfd, connection_advanceWriteQueue]
  refine (Connection.work_advanceWriteQueue_le _).trans_lt ?_
  simp [Connection.work, hwaits]

end System

/-- An output event of the connection on which the system takes up to `k` bytes, or a completion
in the ring of its reactor. -/
def ServerInput.Serves (i : Fin n) (fd k : ℕ) : ServerInput n → Prop
  | .event j fd' ev _ write =>
    j = i ∧ fd' = fd ∧ ev = { writable := true } ∧ write.sent = some k ∧ write.sqe = true
  | .harvest j _ _ => j = i
  | _ => False

namespace Server

variable [NeZero n] {srv : Server n} {s : System n} {i : Fin n} {fd k : ℕ} {c : ConnId n}

/-- What the progress is made from. -/
structure Serving (srv : Server n) (i : Fin n) (fd : ℕ) (c : ConnId n) (s : System n) : Prop where
  tidy : s.Tidy srv.maxMessageBytes
  owner : s.owner i fd = some c
  live : s.terminated = false

/-- While a connection is not flushed, an output event or a completion brings it nearer. -/
theorem Serving.exists_progress (h : srv.Serving i fd c s) (hfd : fd ≠ 0) (hpos : 0 < k)
    (read : ReadEnv) (hnot : ¬ (s.connection i fd).Flushed) :
    ∃ input : ServerInput n, input.Serves i fd k ∧ srv.Serving i fd c (srv.machine.next s input) ∧
      ((srv.machine.next s input).connection i fd).work < (s.connection i fd).work := by
  have hconn := h.tidy.connection i fd
  have hlive : ¬ s.terminated = true := by simp [h.live]
  rcases hpending : (s.connection i fd).splicePending with _ | _
  · -- something is to be sent, so that output events are reported
    have hbusy : (s.connection i fd).Busy := by
      by_contra hidle
      exact hnot ⟨hidle, hpending⟩
    obtain ⟨want, hsocket, hreactor⟩ := (s.owner_eq_some i fd).mp h.owner
    obtain rfl := hconn.wants c want hsocket hreactor hbusy
    refine ⟨.event i fd { writable := true } read { sent := some k }, ⟨rfl, rfl, rfl, rfl, rfl⟩, ?_⟩
    have hnext : srv.machine.next s (.event i fd { writable := true } read { sent := some k }) =
        s.handleWrite i fd { sent := some k } := by
      rw [Machine.next, srv.machine_step s _ hlive, step, h.owner]
      simp [handleEvent, hsocket, h.live]
    obtain ⟨howner, hwork⟩ := System.handleWrite_progress { sent := some k } rfl hpos hbusy
      hpending
    rw [hnext]
    refine ⟨⟨h.tidy.handleWrite _, howner.trans h.owner, ?_⟩, hwork⟩
    obtain ⟨_, _, _, _, heq⟩ := System.sameWork_handleWrite (s := s) (i := i)
    rw [heq]
    exact h.live
  · -- the splice is in the ring
    obtain ⟨conn, hentry⟩ : ∃ conn, s.connections i fd = some conn := by
      rw [← Option.ne_none_iff_exists']
      intro hnone
      rw [System.connection, hnone] at hpending
      cases hpending
    rw [System.connection, hentry, Option.getD_some] at hpending hconn ⊢
    obtain ⟨file, len, hmem⟩ := hconn.spliced hpending hfd
    obtain ⟨m, hm⟩ := List.mem_iff_getElem?.mp hmem
    refine ⟨.harvest i m 0, rfl, ?_⟩
    rw [Machine.next, srv.machine_step s _ hlive, step]
    refine ⟨⟨h.tidy.harvest m 0, (System.sameTable_harvest.owner i fd).trans h.owner, ?_⟩,
      System.harvest_progress hfd hentry hpending hm⟩
    obtain ⟨_, _, _, _, heq⟩ := System.sameWork_harvest (s := s) (i := i) (k := m)
    dsimp only
    rw [heq]
    exact h.live

/-- **No connection is stuck.** After any run, what an open connection has to send goes out by its
output events and the completions of its reactor alone, however few bytes the system takes at a
time, and the connection stays open. -/
theorem flushes_of_open (hfresh : s.Fresh) (inputs : List (ServerInput n))
    (hlive : (srv.machine.exec s inputs).terminated = false)
    (howner : (srv.machine.exec s inputs).owner i fd = some c) (hfd : fd ≠ 0) (hpos : 0 < k)
    (read : ReadEnv) :
    ∃ more : List (ServerInput n), (∀ input ∈ more, input.Serves i fd k) ∧
      more.length ≤ ((srv.machine.exec s inputs).connection i fd).work ∧
      (srv.machine.exec s (inputs ++ more)).owner i fd = some c ∧
      ((srv.machine.exec s (inputs ++ more)).connection i fd).Flushed := by
  obtain ⟨more, hserves, hlen, hserving, hflushed⟩ :=
    Machine.exists_exec_of_rank (M := srv.machine) (I := srv.Serving i fd c)
      (G := fun s => (s.connection i fd).Flushed) (A := ServerInput.Serves i fd k)
      (fun s => (s.connection i fd).work)
      (fun s h hnot => h.exists_progress hfd hpos read hnot)
      ⟨tidy_exec hfresh inputs, howner, hlive⟩
  refine ⟨more, hserves, hlen, ?_⟩
  rw [Machine.exec_append]
  exact ⟨hserving.owner, hflushed⟩

/-- **Bounded buffers.** After any run, whatever the clients send, a connection holds fewer bytes of
a request than the largest message and its length prefix have, and what has been sent of the write
buffer is not more than it holds. -/
theorem buffers_bounded (srv : Server n) (hfresh : s.Fresh) (inputs : List (ServerInput n))
    {conn : Connection} (hentry : (srv.machine.exec s inputs).connections i fd = some conn) :
    conn.readBuf.length < 4 + srv.maxMessageBytes.toNat ∧
      conn.writeOffset ≤ conn.writeBuf.length := by
  have hconn := tidy_exec hfresh inputs i fd conn hentry
  exact ⟨hconn.reader.length_lt, hconn.offset⟩

end Server

open TwoReactors in
/-- The answer to a forwarded request waits to be sent. -/
theorem flushes_produceZero :
    ∃ more : List (ServerInput 2), (∀ input ∈ more, input.Serves 0 7 1) ∧
      more.length ≤
        (((server fun _ => 0).machine.exec {} (run produceZero ++ [deliver])).connection 0 7).work ∧
      ((server fun _ => 0).machine.exec {} (run produceZero ++ [deliver] ++ more)).owner 0 7 =
        some ⟨0, 0⟩ ∧
      (((server fun _ => 0).machine.exec {} (run produceZero ++ [deliver] ++ more)).connection
        0 7).Flushed :=
  Server.flushes_of_open System.fresh_empty (run produceZero ++ [deliver]) (by decide +kernel)
    (by decide +kernel) (by decide) Nat.one_pos ⟨⟨[], .again⟩, 0, idleBroker⟩

open TwoReactors in
/-- Two bytes of a length prefix have arrived. -/
theorem buffers_bounded_prefix :
    ((server fun _ => 0).machine.exec {} [connect, readAndWrite ⟨[0, 1], .again⟩]).connections 0 7 =
        some { readBuf := [0, 1] } ∧
      [0, 1].length < 4 + (1048576 : UInt32).toNat ∧ 0 ≤ ([] : Bytes).length :=
  have hentry : ((server fun _ => 0).machine.exec {}
      [connect, readAndWrite ⟨[0, 1], .again⟩]).connections 0 7 = some { readBuf := [0, 1] } := by
    decide +kernel
  ⟨hentry, Server.buffers_bounded (server fun _ => 0) System.fresh_empty _ hentry⟩

end TinyKafka
