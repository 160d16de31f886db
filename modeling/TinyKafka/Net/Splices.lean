import TinyKafka.Net.WritePipeline
import TinyKafka.Protocol.ResponseFormat

/-!
# Splices and the responses they belong to

A Fetch response may name a file for each of its partitions, to be spliced to the socket
behind the response. The reactor keeps one such file with its length in a slot of the
connection. The slot is set when a response is put into the buffers, and used when *any*
buffer has been sent.

`Server.splices_match` states when this gives each response its own splice: a response names
at most one file and its range starts at zero; it is put in when no byte is left to send; there
is a submission entry when its buffer has been sent; and a completion comes only while a splice
is pending. Then everything that goes out, bytes and splices, is a queue again, as in
`WritePipeline`. A response with a splice behind another response is enough to break it
(`not_splices_match_pipelined`): its file is spliced behind the other response.
-/

namespace TinyKafka

variable {n : ℕ}

/-! ### What goes out on a connection -/

/-- A part of a file. -/
structure FileRange where
  file : FileRef
  offset : ℕ
  len : ℕ
  deriving DecidableEq

/-- A byte that is sent, or a splice that is submitted. -/
inductive WireItem
  | byte (b : UInt8)
  | splice (range : FileRange)
  deriving DecidableEq

/-- The ranges a response names, one for each partition with `splice_fd >= 0`. -/
def Response.splices : Response → List FileRange
  | .fetch r => (r.responses.flatMap FetchTopicResponse.partitions).filterMap fun p =>
    p.spliceFd.map fun file => ⟨file, p.spliceOffset, p.spliceLen⟩
  | _ => []

/-- What goes out for a response: its bytes and then its splices. -/
def wireItems (data : Bytes) (splices : List FileRange) : List WireItem :=
  data.map .byte ++ splices.map .splice

/-- The reactor takes the last splice of a response, without its offset. -/
theorem Response.lastSplice_eq (resp : Response) :
    resp.lastSplice = resp.splices.getLast?.map fun x => (x.file, x.len % 2 ^ 32) := by
  cases resp with
  | fetch r =>
    rw [lastSplice, splices, ← List.getLast?_map, List.map_filterMap]
    simp only [Option.map_map]
    rfl
  | _ => rfl

/-- The splice that is submitted for a response on its own: the last one, with the offset
zero. -/
def Response.kept (resp : Response) : List FileRange :=
  (resp.lastSplice.map fun x => ⟨x.1, 0, x.2⟩).toList

theorem Response.kept_eq_splices {resp : Response} {x : FileRange} (hone : resp.splices = [x])
    (hoffset : x.offset = 0) (hlen : x.len < 2 ^ 32) : resp.kept = resp.splices := by
  rw [kept, lastSplice_eq, hone]
  simp only [List.getLast?_singleton, Option.map_some, Nat.mod_eq_of_lt hlen, ← hoffset]
  rfl

namespace Connection

variable {c : Connection}

/-- The splice in the slot; it is submitted with the offset zero. -/
def slot (c : Connection) : List FileRange :=
  (c.spliceFd.map fun file => ⟨file, 0, c.spliceLen⟩).toList

/-- What is left of the buffer that the slot belongs to. While a splice is pending this is the
next buffer. -/
def current (c : Connection) : Bytes :=
  if c.splicePending then c.writeQueue.headD [] else c.writeBuf.drop c.writeOffset

/-- The buffers behind it. -/
def behind (c : Connection) : List Bytes :=
  if c.splicePending then c.writeQueue.tail else c.writeQueue

/-- What is still to go out. -/
def outgoing (c : Connection) : List WireItem :=
  wireItems c.current c.slot ++ wireItems c.behind.flatten []

/-- The connection between two calls. -/
inductive Paced (c : Connection) : Prop
  /-- There is nothing to do. -/
  | idle (hpending : c.splicePending = false) (hidle : c.Idle) (hqueue : c.writeQueue = [])
      (hslot : c.spliceFd = none)
  /-- Something of the write buffer is left to send. -/
  | sending (hpending : c.splicePending = false) (hrest : c.writeOffset < c.writeBuf.length)
      (hwaiting : [] ∉ c.writeQueue)
  /-- The write buffer has been sent, and its splice is pending. The slot is free or belongs to
  the buffer that waits first. -/
  | splicing (hpending : c.splicePending = true) (hbuf : c.writeBuf ≠ [])
      (hsent : c.writeBuf.length ≤ c.writeOffset) (hwaiting : [] ∉ c.writeQueue)
      (hslot : c.writeQueue = [] → c.spliceFd = none)

theorem paced_new : ({} : Connection).Paced := .idle rfl ⟨rfl, rfl⟩ rfl rfl

theorem Paced.withReader (h : c.Paced) (r : FrameReader) :
    { c with toFrameReader := r }.Paced := by
  cases h with
  | idle hpending hidle hqueue hslot => exact .idle hpending hidle hqueue hslot
  | sending hpending hrest hwaiting => exact .sending hpending hrest hwaiting
  | splicing hpending hbuf hsent hwaiting hslot =>
    exact .splicing hpending hbuf hsent hwaiting hslot

/-- The response can be put in: it has no splice, or it has one, which starts at zero, and
no byte is left to send. -/
def Takes (c : Connection) (resp : Response) : Prop :=
  resp.splices.length ≤ 1 ∧ ∀ x ∈ resp.splices, x.offset = 0 ∧ x.len < 2 ^ 32 ∧ c.unsent = []

instance (c : Connection) (resp : Response) : Decidable (c.Takes resp) :=
  inferInstanceAs (Decidable (_ ∧ _))

/-- The connection after `m` bytes have been sent, and the splice that is submitted then. -/
def writeStep (c : Connection) (m : ℕ) (sqe : Bool) : Connection × List FileRange :=
  let c := { c with writeOffset := c.writeOffset + m }
  if c.writeOffset < c.writeBuf.length ∨ c.splicePending then (c, [])
  else if c.spliceFd.isSome ∧ sqe then
    ({ c with splicePending := true, spliceFd := none, spliceLen := 0 }, c.slot)
  else (c.advanceWriteQueue, [])

/-! ### Putting a response in -/

theorem nil_notMem_concat {queue : List Bytes} {data : Bytes} (h : [] ∉ queue) (hdata : data ≠ []) :
    [] ∉ queue ++ [data] := by
  rw [List.mem_append, List.mem_singleton, not_or]
  exact ⟨h, hdata.symm⟩

/-- Another buffer waits behind those that are there. -/
theorem Paced.enqueue (h : c.Paced) {data : Bytes} (hdata : data ≠ []) :
    (c.enqueue data).Paced ∧ (c.enqueue data).outgoing = c.outgoing ++ wireItems data [] := by
  cases h with
  | idle hpending hidle hqueue hslot =>
    rw [Connection.enqueue, if_pos hidle]
    refine ⟨.sending hpending (List.length_pos_iff.mpr hdata) (hqueue ▸ List.not_mem_nil), ?_⟩
    simp [outgoing, current, behind, slot, wireItems, hpending, hqueue, hslot, hidle.2]
  | sending hpending hrest hwaiting =>
    have hidle : ¬ c.Idle := fun hidle => by
      rw [hidle.2] at hrest
      exact Nat.not_lt_zero _ hrest
    rw [Connection.enqueue, if_neg hidle]
    refine ⟨.sending hpending hrest (nil_notMem_concat hwaiting hdata), ?_⟩
    simp [outgoing, current, behind, slot, wireItems, hpending]
  | splicing hpending hbuf hsent hwaiting hslot =>
    rw [Connection.enqueue, if_neg fun hidle => hbuf hidle.2]
    refine ⟨.splicing hpending hbuf hsent (nil_notMem_concat hwaiting hdata) (by simp), ?_⟩
    rcases hqueue : c.writeQueue with _ | ⟨front, queue⟩
    · simp [outgoing, current, behind, slot, wireItems, hpending, hqueue, hslot hqueue]
    · simp [outgoing, current, behind, slot, wireItems, hpending, hqueue]

/-- When every byte has been sent nothing waits, and there is no splice to submit. -/
theorem Paced.of_unsent_eq_nil (h : c.Paced) (hunsent : c.unsent = []) :
    c.writeQueue = [] ∧ c.outgoing = [] := by
  cases h with
  | idle hpending hidle hqueue hslot =>
    refine ⟨hqueue, ?_⟩
    simp [outgoing, current, behind, slot, wireItems, hpending, hqueue, hslot, hidle.2]
  | sending hpending hrest hwaiting => exact absurd hunsent (unsent_ne_nil_of_lt hrest)
  | splicing hpending hbuf hsent hwaiting hslot =>
    have hqueue : c.writeQueue = [] := by
      have hflat := (List.append_eq_nil_iff.mp hunsent).2
      refine List.eq_nil_iff_forall_not_mem.mpr fun bs hbs => hwaiting ?_
      rwa [← List.flatten_eq_nil_iff.mp hflat bs hbs]
    refine ⟨hqueue, ?_⟩
    simp [outgoing, current, behind, slot, wireItems, hpending, hqueue, hslot hqueue]

/-- The only buffer to send, with its splice in the slot. -/
theorem Paced.enqueue_spliced (h : c.Paced) {data : Bytes} (hdata : data ≠ [])
    (hunsent : c.unsent = []) (file : FileRef) (len : ℕ) :
    ((c.setSplice (some (file, len))).enqueue data).Paced ∧
      ((c.setSplice (some (file, len))).enqueue data).outgoing =
        wireItems data [⟨file, 0, len⟩] := by
  obtain ⟨hqueue, -⟩ := h.of_unsent_eq_nil hunsent
  have hidle := c.idle_setSplice (some (file, len))
  cases h with
  | idle hpending hidle' =>
    rw [Connection.enqueue, if_pos (hidle.mpr hidle')]
    refine ⟨.sending hpending (List.length_pos_iff.mpr hdata) (hqueue ▸ List.not_mem_nil), ?_⟩
    simp [outgoing, current, behind, slot, wireItems, setSplice, hpending, hqueue]
  | sending hpending hrest hwaiting => exact absurd hunsent (unsent_ne_nil_of_lt hrest)
  | splicing hpending hbuf hsent hwaiting hslot =>
    rw [Connection.enqueue, if_neg fun hidle' => hbuf (hidle.mp hidle').2]
    refine ⟨.splicing hpending hbuf hsent (nil_notMem_concat hwaiting hdata) (by simp), ?_⟩
    simp [outgoing, current, behind, slot, wireItems, setSplice, hpending, hqueue]

/-- A response on its own goes out with the splice that is kept. -/
theorem Paced.put_alone (h : c.Paced) (hunsent : c.unsent = []) (resp : Response) {data : Bytes}
    (hdata : data ≠ []) :
    ((c.setSplice resp.lastSplice).enqueue data).Paced ∧
      ((c.setSplice resp.lastSplice).enqueue data).outgoing = wireItems data resp.kept := by
  obtain ⟨-, hnothing⟩ := h.of_unsent_eq_nil hunsent
  rw [Response.kept]
  rcases resp.lastSplice with _ | ⟨file, len⟩
  · obtain ⟨hpaced, hout⟩ := h.enqueue hdata
    rw [hnothing, List.nil_append] at hout
    exact ⟨hpaced, hout⟩
  · exact h.enqueue_spliced hdata hunsent file len

/-- A response that can be put in goes out behind what is there, with its own splice. -/
theorem Paced.put (h : c.Paced) {resp : Response} (htakes : c.Takes resp) {data : Bytes}
    (hdata : data ≠ []) :
    ((c.setSplice resp.lastSplice).enqueue data).Paced ∧
      ((c.setSplice resp.lastSplice).enqueue data).outgoing =
        c.outgoing ++ wireItems data resp.splices := by
  obtain ⟨hlength, hall⟩ := htakes
  rcases hsplices : resp.splices with _ | ⟨x, _ | ⟨y, l⟩⟩
  · rw [resp.lastSplice_eq, hsplices]
    exact h.enqueue hdata
  · obtain ⟨hoffset, hlen, hunsent⟩ := hall x (hsplices ▸ List.mem_cons_self)
    obtain ⟨-, hnothing⟩ := h.of_unsent_eq_nil hunsent
    rw [hnothing, List.nil_append, ← hsplices, ← resp.kept_eq_splices hsplices hoffset hlen]
    exact h.put_alone hunsent resp hdata
  · simp [hsplices] at hlength

/-! ### Taking bytes and splices out -/

/-- The next buffer is taken up; the slot is its own. -/
theorem paced_advanceWriteQueue (hpending : c.splicePending = false) (hwaiting : [] ∉ c.writeQueue)
    (hslot : c.writeQueue = [] → c.spliceFd = none) :
    c.advanceWriteQueue.Paced ∧
      c.advanceWriteQueue.outgoing =
        wireItems (c.writeQueue.headD []) c.slot ++ wireItems c.writeQueue.tail.flatten [] := by
  rw [advanceWriteQueue]
  split
  next front queue hqueue =>
    rw [hqueue, List.mem_cons, not_or] at hwaiting
    refine ⟨.sending hpending (List.length_pos_iff.mpr (Ne.symm hwaiting.1)) hwaiting.2, ?_⟩
    simp [outgoing, current, behind, slot, wireItems, hpending, hqueue]
  next hqueue =>
    refine ⟨.idle hpending ⟨rfl, rfl⟩ hqueue (hslot hqueue), ?_⟩
    simp [outgoing, current, behind, slot, wireItems, hpending, hqueue]

/-- The splice of the write buffer has completed. -/
theorem Paced.complete (h : c.Paced) (hpending : c.splicePending = true) :
    { c with splicePending := false }.advanceWriteQueue.Paced ∧
      { c with splicePending := false }.advanceWriteQueue.outgoing = c.outgoing := by
  cases h with
  | idle hnot => exact absurd (hpending.symm.trans hnot) (by decide)
  | sending hnot => exact absurd (hpending.symm.trans hnot) (by decide)
  | splicing _ _ _ hwaiting hslot =>
    obtain ⟨hpaced, hout⟩ :=
      paced_advanceWriteQueue (c := { c with splicePending := false }) rfl hwaiting hslot
    refine ⟨hpaced, hout.trans ?_⟩
    simp [outgoing, current, behind, slot, hpending]

/-- Some bytes have been sent and not the last one, or there was none to send because a splice
is pending. -/
theorem Paced.sent (h : c.Paced) {m : ℕ}
    (hstay : c.writeOffset + m < c.writeBuf.length ∨ c.splicePending = true) :
    { c with writeOffset := c.writeOffset + m }.Paced ∧
      c.outgoing = wireItems ((c.writeBuf.drop c.writeOffset).take m) [] ++
        { c with writeOffset := c.writeOffset + m }.outgoing := by
  cases h with
  | idle hpending hidle =>
    rw [hidle.2, hpending] at hstay
    simp at hstay
  | sending hpending hrest hwaiting =>
    have hrest' : c.writeOffset + m < c.writeBuf.length := by
      rw [hpending] at hstay
      simpa using hstay
    have hsplit := List.take_append_drop m (c.writeBuf.drop c.writeOffset)
    rw [List.drop_drop] at hsplit
    refine ⟨.sending hpending hrest' hwaiting, ?_⟩
    simp only [outgoing, current, behind, slot, wireItems, hpending, Bool.false_eq_true, if_false]
    nth_rewrite 1 [← hsplit]
    simp only [List.map_append, List.map_nil, List.append_nil, List.append_assoc]
  | splicing hpending hbuf hsent hwaiting hslot =>
    refine ⟨.splicing hpending hbuf (hsent.trans (Nat.le_add_right _ _)) hwaiting hslot, ?_⟩
    simp [outgoing, current, behind, slot, wireItems, hpending, hsent]

/-- The only buffer has been sent. -/
theorem unsent_writeStep (hqueue : c.writeQueue = []) {m : ℕ}
    (hdone : c.writeBuf.length ≤ c.writeOffset + m) (sqe : Bool) :
    (c.writeStep m sqe).1.unsent = [] := by
  have hdrop : c.writeBuf.drop (c.writeOffset + m) = [] := List.drop_eq_nil_iff.mpr hdone
  rw [writeStep]
  dsimp only
  split
  next => simp [unsent, hqueue, hdrop]
  next =>
    split
    next => simp [unsent, hqueue, hdrop]
    next =>
      rw [unsent_advanceWriteQueue]
      simp [hqueue]

theorem headD_append_flatten_tail (queue : List Bytes) :
    queue.headD [] ++ queue.tail.flatten = queue.flatten := by
  rcases queue with _ | ⟨front, queue⟩ <;> rfl

/-- The last byte of a buffer has been sent, and its splice is submitted. -/
theorem Paced.submit (h : c.Paced) {m : ℕ} (hpending : c.splicePending = false)
    (hdone : c.writeBuf.length ≤ c.writeOffset + m) (hslot : c.spliceFd.isSome) :
    { c with
        writeOffset := c.writeOffset + m, splicePending := true, spliceFd := none,
        spliceLen := 0 }.Paced ∧
      c.outgoing = wireItems (c.writeBuf.drop c.writeOffset) c.slot ++
        { c with
          writeOffset := c.writeOffset + m, splicePending := true, spliceFd := none,
          spliceLen := 0 }.outgoing := by
  cases h with
  | idle _ _ _ hnone => exact absurd hnone (Option.ne_none_iff_isSome.mpr hslot)
  | sending _ hrest hwaiting =>
    have hbuf := List.length_pos_iff.mp (Nat.zero_lt_of_lt hrest)
    refine ⟨.splicing rfl hbuf hdone hwaiting fun _ => rfl, ?_⟩
    simp [outgoing, current, behind, slot, wireItems, hpending,
      ← headD_append_flatten_tail c.writeQueue]
  | splicing hnot => exact absurd (hpending.symm.trans hnot) (by decide)

/-- The last byte of a buffer without a splice has been sent. -/
theorem Paced.finish (h : c.Paced) (hpending : c.splicePending = false)
    (hslot : c.spliceFd = none) (m : ℕ) :
    { c with writeOffset := c.writeOffset + m }.advanceWriteQueue.Paced ∧
      c.outgoing = wireItems (c.writeBuf.drop c.writeOffset) [] ++
        { c with writeOffset := c.writeOffset + m }.advanceWriteQueue.outgoing := by
  have hwaiting : [] ∉ c.writeQueue := by
    cases h with
    | idle _ _ hnil => exact hnil ▸ List.not_mem_nil
    | sending _ _ hwaiting => exact hwaiting
    | splicing _ _ _ hwaiting => exact hwaiting
  obtain ⟨hpaced, hout⟩ := paced_advanceWriteQueue
    (c := { c with writeOffset := c.writeOffset + m }) hpending hwaiting fun _ => hslot
  refine ⟨hpaced, ?_⟩
  rw [hout]
  simp [outgoing, current, behind, slot, wireItems, hpending, hslot,
    ← headD_append_flatten_tail c.writeQueue]

/-- Sending takes bytes out at the front, and behind the last byte of a buffer its splice. -/
theorem Paced.writeStep (h : c.Paced) {m : ℕ} {sqe : Bool}
    (hsqe : c.splicePending = false → c.spliceFd.isSome → c.writeOffset + m ≥ c.writeBuf.length →
      sqe = true) :
    (c.writeStep m sqe).1.Paced ∧
      c.outgoing = wireItems ((c.writeBuf.drop c.writeOffset).take m) (c.writeStep m sqe).2 ++
        (c.writeStep m sqe).1.outgoing := by
  rw [Connection.writeStep]
  dsimp only
  by_cases hstay : c.writeOffset + m < c.writeBuf.length ∨ c.splicePending = true
  · rw [if_pos hstay]
    exact h.sent hstay
  · rw [if_neg hstay]
    rw [not_or, not_lt, Bool.not_eq_true] at hstay
    obtain ⟨hdone, hpending⟩ := hstay
    have htake : (c.writeBuf.drop c.writeOffset).take m = c.writeBuf.drop c.writeOffset := by
      rw [List.take_eq_self_iff, List.length_drop]
      omega
    rw [htake]
    split
    next hslot => exact h.submit hpending hdone hslot.1
    next hslot =>
      refine h.finish hpending ?_ m
      by_contra hsome
      rw [← Ne, Option.ne_none_iff_isSome] at hsome
      exact hslot ⟨hsome, hsqe hpending hsome hdone⟩

end Connection

/-! ### The splices of the ring -/

/-- The splice an operation is for the socket `fd`. The offset in the file is always zero. -/
def RingOp.rangeFor (fd : ℕ) : RingOp → Option FileRange
  | .splice fd' file len => if fd' = fd then some ⟨file, 0, len⟩ else none
  | .write .. => none

namespace System

variable {s s' : System n} {i : Fin n} {fd : ℕ} {c : ConnId n} {conn : Connection} {want : Bool}

/-- The splices for the socket `fd` in the ring of reactor `i`. -/
def splicesFor (s : System n) (i : Fin n) (fd : ℕ) : List FileRange :=
  (s.rings i).filterMap (RingOp.rangeFor fd)

/-- The splices for the socket that have been submitted when the process gets from `s` to
`s'`. -/
def newSplices (s : System n) (i : Fin n) (fd : ℕ) (s' : System n) : List FileRange :=
  (s'.splicesFor i fd).drop (s.splicesFor i fd).length

theorem newSplices_of_eq (h : s'.splicesFor i fd = s.splicesFor i fd) :
    s.newSplices i fd s' = [] := by
  rw [newSplices, h, List.drop_length]

theorem splicesFor_of_rings (h : s'.rings = s.rings) : s'.splicesFor i fd = s.splicesFor i fd := by
  rw [splicesFor, h, splicesFor]

theorem rings_setWantWrite (b : Bool) : (s.setWantWrite i fd b).rings = s.rings := by
  rw [setWantWrite_eq]

theorem rings_putResponse (conn : Connection) (data : Bytes) :
    (s.putResponse i fd conn data).rings = s.rings := by
  rcases s.putResponse_eq i fd conn data with heq | heq <;> rw [heq]
  · rfl
  · exact rings_setWantWrite true

theorem rings_advanceWriteQueue (conn : Connection) :
    (s.advanceWriteQueue i fd conn).rings = s.rings := by
  rw [System.advanceWriteQueue]
  split
  · exact rings_setWantWrite false
  · rfl

/-- `handle_write` as a step of the connection; the ring gets the splice. -/
theorem Holds.handleWrite_step (h : s.Holds i fd c conn want) {env : WriteEnv} {m : ℕ}
    (hsend : conn.sendAll env.sent = some m) :
    (∃ want', (s.handleWrite i fd env).Holds i fd c (conn.writeStep m env.sqe).1 want') ∧
      (s.handleWrite i fd env).splicesFor i fd =
        s.splicesFor i fd ++ (conn.writeStep m env.sqe).2 := by
  have hset := fun conn' => h.setConnection conn'
  have hadvance := fun conn' => h.advanceWriteQueue conn'
  obtain ⟨reader, buf, offset, queue, spliceFd, len, pending⟩ := conn
  rw [System.handleWrite, h.connection, hsend, Connection.writeStep]
  dsimp only
  by_cases hdone : offset + m ≥ buf.length
  · rw [if_pos hdone]
    rcases pending with _ | _
    · rw [if_neg (by simpa using hdone)]
      rcases spliceFd with _ | file
      · exact ⟨⟨_, hadvance _⟩, by simp [splicesFor, rings_advanceWriteQueue]⟩
      rcases env.sqe with _ | _
      · exact ⟨⟨_, hadvance _⟩, by simp [splicesFor, rings_advanceWriteQueue]⟩
      · refine ⟨⟨_, (hset _).of_leavesAlone ⟨rfl, rfl⟩⟩, ?_⟩
        simp [splicesFor, submitSplice, Connection.slot, RingOp.rangeFor]
    · rw [if_pos (.inr rfl)]
      rcases spliceFd with _ | file <;> exact ⟨⟨_, hset _⟩, (List.append_nil _).symm⟩
  · rw [if_neg hdone, if_pos (.inl (not_le.mp hdone))]
    exact ⟨⟨_, hset _⟩, (List.append_nil _).symm⟩

/-- A completion under the descriptor takes up the next buffer, except under descriptor zero. -/
theorem Holds.harvest (h : s.Holds i fd c conn want) {k : ℕ} (written : ℕ)
    (hop : ((s.rings i)[k]?.bind (RingOp.rangeFor fd)).isSome) :
    ∃ conn' want', (s.harvest i k written).Holds i fd c conn' want' ∧
      (conn' = conn ∨ conn' = { conn with splicePending := false }.advanceWriteQueue) := by
  obtain ⟨range, hrange⟩ := Option.isSome_iff_exists.mp hop
  obtain ⟨op, hget, hfor⟩ := Option.bind_eq_some_iff.mp hrange
  rcases op with ⟨path, w⟩ | ⟨fd', file, len⟩
  · exact absurd hfor (Option.some_ne_none _).symm
  obtain rfl : fd' = fd := by
    rw [RingOp.rangeFor] at hfor
    by_contra hne
    exact absurd (hfor.symm.trans (if_neg hne)) (Option.some_ne_none _)
  have hpopped : { s with rings := Function.update s.rings i ((s.rings i).eraseIdx k) }.Holds i fd'
      c conn want := h.of_leavesAlone ⟨rfl, rfl⟩
  rw [System.harvest, hget]
  dsimp only
  rw [System.complete, hpopped.entry]
  dsimp only
  split
  · exact ⟨conn, want, hpopped, .inl rfl⟩
  · exact ⟨_, _, hpopped.advanceWriteQueue _, .inr rfl⟩

theorem rings_complete (written : ℕ) (op : RingOp) :
    (s.complete i written op).rings = s.rings := by
  rcases op with ⟨path, w⟩ | ⟨fd, file, len⟩
  · rfl
  · rw [System.complete]
    split
    · split
      · rfl
      · exact rings_advanceWriteQueue _
    · rfl

theorem newSplices_harvest (k written : ℕ) : s.newSplices i fd (s.harvest i k written) = [] := by
  rw [System.harvest]
  split
  · rw [newSplices, List.drop_eq_nil_iff, splicesFor, splicesFor, rings_complete]
    dsimp only
    rw [Function.update_self]
    exact ((List.eraseIdx_sublist _ _).filterMap _).length_le
  · exact newSplices_of_eq rfl

/-- What holds of a connection between two calls. -/
def Paces (s : System n) (i : Fin n) (fd : ℕ) (c : ConnId n) : Prop :=
  ∃ conn want, s.Holds i fd c conn want ∧ conn.Paced

/-- What is still to go out on the connection. -/
def outgoing (s : System n) (i : Fin n) (fd : ℕ) : List WireItem := (s.connection i fd).outgoing

theorem Holds.outgoing (h : s.Holds i fd c conn want) : s.outgoing i fd = conn.outgoing := by
  rw [System.outgoing, h.connection]

end System

/-! ### The calls that concern the connection -/

/-- A call that concerns the connection, or something else that happens in the process. -/
inductive ConnectionCall (n : ℕ)
  /-- `handle_read`. -/
  | read (env : ReadEnv)
  /-- One turn of `drain_cross_reactor_responses`; what it finds comes from `resp`. -/
  | drain (resp : Response)
  /-- `handle_write`. -/
  | write (env : WriteEnv)
  /-- `harvest_io_completions` for the `k`-th operation. -/
  | harvest (k written : ℕ)
  /-- The process gets into another state without one of these calls. -/
  | other (s' : System n)

/-- What a call does for the connection. -/
structure WireTraffic where
  /-- The responses that are put in. -/
  enqueued : List Response
  /-- What goes out. -/
  wire : List WireItem
  deriving DecidableEq

/-- The responses put in during some calls. -/
def allResponses (trace : List (ConnectionCall n × WireTraffic)) : List Response :=
  trace.flatMap fun e => e.2.enqueued

/-- What goes out during some calls. -/
def allWire (trace : List (ConnectionCall n × WireTraffic)) : List WireItem :=
  trace.flatMap fun e => e.2.wire

namespace Server

variable [NeZero n] (srv : Server n) (i : Fin n) (fd : ℕ) (c : ConnId n) (s : System n)

/-- The responses a call puts in. -/
def responsesOf : ConnectionCall n → List Response
  | .read env => (srv.answerRead i fd s env).toList
  | .drain resp => [resp]
  | .write _ | .harvest .. | .other _ => []

/-- The bytes a call sends. -/
def bytesOf : ConnectionCall n → Bytes
  | .write env => (s.connection i fd).sentBytes env.sent
  | .read _ | .drain _ | .harvest .. | .other _ => []

/-- The state after a call. -/
def stateAfter : ConnectionCall n → System n
  | .read env => (srv.handleRead s i fd c env).1
  | .drain _ => (drainResponse s i).1
  | .write env => s.handleWrite i fd env
  | .harvest k written => s.harvest i k written
  | .other s' => s'

/-- The calls that concern connection `c`, which reactor `i` keeps under `fd`. -/
def splicePipeline : Machine (System n) (ConnectionCall n) WireTraffic where
  step s call :=
    let s' := srv.stateAfter i fd c s call
    (s', ⟨srv.responsesOf i fd s call, wireItems (bytesOf i fd s call) (s.newSplices i fd s')⟩)

/-- What is to go out for a response. -/
def itemsOf (resp : Response) : List WireItem := wireItems (srv.serialize resp) resp.splices

/-- The call does not close the connection.

* A response that is drained is for the connection.
* When a buffer has been sent and there is a splice to submit, there is an entry for it.
* A splice completes only while one is pending.
* What else happens leaves the connection and its splices alone. -/
def Proceeds : ConnectionCall n → Prop
  | .read env => ¬ srv.ClosesOnRead s i fd env
  | .drain resp => ∃ x ∈ (s.responses i).head?,
    x.clientFd = fd ∧ x.data = srv.serialize resp ∧ x.splice = resp.lastSplice
  | .write env =>
    env.sent.isSome ∧ ∀ m ∈ (s.connection i fd).sendAll env.sent,
      (s.connection i fd).splicePending = false → (s.connection i fd).spliceFd.isSome →
        (s.connection i fd).writeOffset + m ≥ (s.connection i fd).writeBuf.length → env.sqe = true
  | .harvest k _ =>
    (s.connection i fd).splicePending = true ∧
      ((s.rings i)[k]?.bind (RingOp.rangeFor fd)).isSome
  | .other s' => s.LeavesAlone i fd s' ∧ s'.splicesFor i fd = s.splicesFor i fd

/-- The calls under consideration: they proceed, and a response can be put in when its turn
comes, whether it is handled here or elsewhere. -/
def Orderly (call : ConnectionCall n) : Prop :=
  srv.Proceeds i fd s call ∧ ∀ resp ∈ srv.responsesOf i fd s call,
    (s.connection i fd).Takes resp ∧ srv.serialize resp ≠ []

instance : (call : ConnectionCall n) → Decidable (srv.Proceeds i fd s call)
  | .read _ => inferInstanceAs (Decidable (¬ _))
  | .drain _ => inferInstanceAs (Decidable (∃ x ∈ (_ : Option (ForwardedResponse n)), _))
  | .write _ => inferInstanceAs (Decidable (_ ∧ ∀ m ∈ (_ : Option ℕ), _))
  | .harvest .. => inferInstanceAs (Decidable (_ ∧ _))
  | .other _ => inferInstanceAs (Decidable (_ ∧ _))

instance (call : ConnectionCall n) : Decidable (srv.Orderly i fd s call) :=
  inferInstanceAs (Decidable (_ ∧ _))

variable {srv i fd c s}

omit [NeZero n] in
theorem splicesFor_answerLocally (origin : Origin n) (env : BrokerEnv) (req : Request) :
    (srv.answerLocally s i fd origin env req).1.splicesFor i fd = s.splicesFor i fd := by
  have hhandled : (srv.handle s i env req).1.splicesFor i fd = s.splicesFor i fd := by
    -- the ring gets the writes of Produce
    simp [handle, System.splicesFor, RingOp.rangeFor, List.filterMap_map, Function.comp_def]
  rcases srv.answerLocally_cases s i env req fd origin with
    ⟨-, heq⟩ | ⟨resp, -, ⟨-, heq⟩ | ⟨-, heq⟩⟩ <;> rw [heq]
  · exact hhandled
  · exact hhandled
  · exact (System.splicesFor_of_rings (System.rings_putResponse _ _)).trans hhandled

theorem splicesFor_handleRead (env : ReadEnv) :
    (srv.handleRead s i fd c env).1.splicesFor i fd = s.splicesFor i fd := by
  have hstep := srv.readStep s i fd c env
  generalize srv.handleRead s i fd c env = out at hstep ⊢
  cases hstep with
  | waited conn => rfl
  | closed => rfl
  | forwarded conn => rfl
  | handled conn body req hreq htarget out hout =>
    subst hout
    exact splicesFor_answerLocally _ _ _

omit [NeZero n] in
theorem newSplices_drainResponse (s : System n) (i : Fin n) (fd : ℕ) :
    s.newSplices i fd (drainResponse s i).1 = [] := by
  refine System.newSplices_of_eq ?_
  rcases hx : s.responses i with _ | ⟨x, rest⟩
  · rw [drainResponse, hx]
  · obtain ⟨popped, rfl, ⟨-, heq⟩ | ⟨conn, -, heq⟩⟩ := drainResponse_cases s i hx <;> rw [heq]
    · rfl
    · exact System.splicesFor_of_rings (System.rings_putResponse _ _)

/-- A call that puts a response in sends nothing. -/
theorem holds_put {call : ConnectionCall n} {conn : Connection} {want : Bool}
    (h : s.Holds i fd c conn want) (hcall : srv.Proceeds i fd s call) {resp : Response}
    (hput : srv.responsesOf i fd s call = [resp]) :
    (∃ r want', ((srv.splicePipeline i fd c).next s call).Holds i fd c
      (({ conn with toFrameReader := r }.setSplice resp.lastSplice).enqueue (srv.serialize resp))
      want') ∧ ((srv.splicePipeline i fd c).out s call).wire = [] := by
  rw [Machine.next, Machine.out, splicePipeline]
  cases call with
  | read env =>
    have hanswer : srv.answerRead i fd s env = some resp := Option.toList_eq_singleton_iff.mp hput
    obtain ⟨r, hread⟩ := holds_handleRead h hcall
    rw [hanswer] at hread
    refine ⟨⟨r, _, hread⟩, ?_⟩
    dsimp only [stateAfter, bytesOf]
    rw [System.newSplices_of_eq (splicesFor_handleRead env)]
    rfl
  | drain resp' =>
    obtain rfl : resp' = resp := List.singleton_inj.mp hput
    obtain ⟨x, hhead, hfd, hdata, hsplice⟩ := hcall
    have hdrain := holds_drainResponse h hhead hfd
    rw [hdata, hsplice] at hdrain
    refine ⟨⟨conn.toFrameReader, _, hdrain⟩, ?_⟩
    dsimp only [stateAfter, bytesOf]
    rw [newSplices_drainResponse]
    rfl
  | write env => cases hput
  | harvest k written => cases hput
  | other s' => cases hput

/-- What is sent and submitted is taken out at the front. -/
theorem paces_handleWrite {env : WriteEnv} (h : s.Paces i fd c)
    (hcall : srv.Proceeds i fd s (.write env)) :
    (s.handleWrite i fd env).Paces i fd c ∧
      s.outgoing i fd = wireItems ((s.connection i fd).sentBytes env.sent)
          (s.newSplices i fd (s.handleWrite i fd env)) ++
        (s.handleWrite i fd env).outgoing i fd := by
  obtain ⟨conn, want, hholds, hpaced⟩ := h
  obtain ⟨hsent, hsqe⟩ := hcall
  rw [hholds.connection] at hsqe
  obtain ⟨k, hk⟩ := Option.isSome_iff_exists.mp hsent
  obtain ⟨m, hsend⟩ := conn.exists_sendAll k
  rw [← hk] at hsend
  obtain ⟨⟨want', hwrite⟩, hsplices⟩ := hholds.handleWrite_step hsend
  obtain ⟨hstep, hout⟩ := hpaced.writeStep (hsqe m hsend)
  refine ⟨⟨_, _, hwrite, hstep⟩, ?_⟩
  rw [hholds.outgoing, hwrite.outgoing, hholds.connection, Connection.sentBytes, hsend,
    Option.getD_some, System.newSplices, hsplices, List.drop_left]
  exact hout

/-- A completion changes nothing of what is to go out. -/
theorem paces_harvest {k written : ℕ} (h : s.Paces i fd c)
    (hcall : srv.Proceeds i fd s (.harvest k written)) :
    (s.harvest i k written).Paces i fd c ∧
      (s.harvest i k written).outgoing i fd = s.outgoing i fd := by
  obtain ⟨conn, want, hholds, hpaced⟩ := h
  obtain ⟨hpending, hop⟩ := hcall
  rw [hholds.connection] at hpending
  obtain ⟨conn', want', hharvest, rfl | rfl⟩ := hholds.harvest written hop
  · rw [hharvest.outgoing, hholds.outgoing]
    exact ⟨⟨_, _, hharvest, hpaced⟩, rfl⟩
  · obtain ⟨hcomplete, hout⟩ := hpaced.complete hpending
    rw [hharvest.outgoing, hholds.outgoing]
    exact ⟨⟨_, _, hharvest, hcomplete⟩, hout⟩

/-- A call without a response. -/
theorem paces_next_of_nil {call : ConnectionCall n} (h : s.Paces i fd c)
    (hcall : srv.Proceeds i fd s call) (hnil : srv.responsesOf i fd s call = []) :
    ((srv.splicePipeline i fd c).next s call).Paces i fd c ∧
      s.outgoing i fd = ((srv.splicePipeline i fd c).out s call).wire ++
        ((srv.splicePipeline i fd c).next s call).outgoing i fd := by
  rw [Machine.next, Machine.out, splicePipeline]
  dsimp only
  cases call with
  | read env =>
    have hanswer : srv.answerRead i fd s env = none := Option.toList_eq_nil_iff.mp hnil
    obtain ⟨conn, want, hholds, hpaced⟩ := h
    obtain ⟨r, hread⟩ := holds_handleRead hholds hcall
    rw [hanswer] at hread
    refine ⟨⟨_, _, hread, hpaced.withReader r⟩, ?_⟩
    dsimp only [stateAfter, bytesOf]
    rw [System.newSplices_of_eq (splicesFor_handleRead env), hholds.outgoing, hread.outgoing]
    rfl
  | drain resp => cases hnil
  | write env => exact paces_handleWrite h hcall
  | harvest k written =>
    obtain ⟨hpaces, hout⟩ := paces_harvest h hcall
    refine ⟨hpaces, ?_⟩
    dsimp only [stateAfter, bytesOf]
    rw [System.newSplices_harvest, hout]
    rfl
  | other s' =>
    obtain ⟨conn, want, hholds, hpaced⟩ := h
    have hother := hholds.of_leavesAlone hcall.1
    refine ⟨⟨conn, want, hother, hpaced⟩, ?_⟩
    dsimp only [stateAfter, bytesOf]
    rw [System.newSplices_of_eq hcall.2, hholds.outgoing, hother.outgoing]
    rfl

theorem responsesOf_cases (call : ConnectionCall n) :
    srv.responsesOf i fd s call = [] ∨ ∃ resp, srv.responsesOf i fd s call = [resp] := by
  cases call with
  | read env =>
    rw [responsesOf]
    rcases srv.answerRead i fd s env with _ | resp
    · exact .inl rfl
    · exact .inr ⟨resp, rfl⟩
  | drain resp => exact .inr ⟨resp, rfl⟩
  | _ => exact .inl rfl

/-- One call: what was to go out, followed by the responses that are put in, is what goes out,
followed by what is to go out then. -/
theorem paces_next {call : ConnectionCall n} (h : s.Paces i fd c)
    (hcall : srv.Orderly i fd s call) :
    ((srv.splicePipeline i fd c).next s call).Paces i fd c ∧
      s.outgoing i fd ++ (srv.responsesOf i fd s call).flatMap srv.itemsOf =
        ((srv.splicePipeline i fd c).out s call).wire ++
          ((srv.splicePipeline i fd c).next s call).outgoing i fd := by
  obtain ⟨hproceeds, hsendable⟩ := hcall
  rcases responsesOf_cases call with hnil | ⟨resp, hput⟩
  · rw [hnil, List.flatMap_nil, List.append_nil]
    exact paces_next_of_nil h hproceeds hnil
  · obtain ⟨conn, want, hholds, hpaced⟩ := h
    obtain ⟨⟨r, want', hnext⟩, hwire⟩ := holds_put hholds hproceeds hput
    obtain ⟨htakes, hdata⟩ := hsendable resp (hput ▸ List.mem_singleton_self resp)
    rw [hholds.connection] at htakes
    obtain ⟨hpaced', hout⟩ := (hpaced.withReader r).put htakes hdata
    rw [hput, List.flatMap_singleton, hwire, List.nil_append, hholds.outgoing, hnext.outgoing]
    exact ⟨⟨_, _, hnext, hpaced'⟩, hout.symm⟩

/-- A run of calls: what is put in comes out in order. -/
theorem paces_exec {calls : List (ConnectionCall n)} (h : s.Paces i fd c)
    (hcalls : (srv.splicePipeline i fd c).Within (srv.Orderly i fd) s calls) :
    ((srv.splicePipeline i fd c).exec s calls).Paces i fd c ∧
      s.outgoing i fd ++
          (allResponses ((srv.splicePipeline i fd c).trace s calls)).flatMap srv.itemsOf =
        allWire ((srv.splicePipeline i fd c).trace s calls) ++
          ((srv.splicePipeline i fd c).exec s calls).outgoing i fd := by
  have hinv : ∀ s call, s.Paces i fd c → srv.Orderly i fd s call →
      ((srv.splicePipeline i fd c).next s call).Paces i fd c :=
    fun _ _ h hcall => (paces_next h hcall).1
  constructor
  · exact Machine.invariant_exec hinv h hcalls
  · rw [allResponses, allWire, List.flatMap_assoc]
    exact Machine.queue_run (c := fun s => s.outgoing i fd)
      (f := fun t : WireTraffic => t.enqueued.flatMap srv.itemsOf) (g := WireTraffic.wire) hinv
      (fun _ _ h hcall => (paces_next h hcall).2) h hcalls

/-- The splices match their responses when `enqueued` has been put in and `wire` has gone out:

* what has gone out is a beginning of what is to go out for the responses in their order, which
  is for each the bytes and then one splice for each partition that names a file, with the range
  it names;
* when no byte is left to send, it is all of it. -/
def SplicesMatch (srv : Server n) (conn : Connection) (enqueued : List Response)
    (wire : List WireItem) : Prop :=
  wire <+: enqueued.flatMap srv.itemsOf ∧ (conn.unsent = [] → wire = enqueued.flatMap srv.itemsOf)

end Server

namespace TwoReactors

/-- The file of a segment. -/
def segmentFile : FileRef := ⟨ascii "t-0", ascii "0.log"⟩

/-- A partition is served by a splice. -/
def spliced : Response := fetchAnswer (some segmentFile) 70000

/-- A response without a splice. -/
def heartbeat : Response := .heartbeat ⟨1, 0, 0⟩

/-- Responses come from another reactor. -/
def answered (srv : Server 2) (resps : List Response) : System 2 :=
  { start with
    responses := fun _ => resps.map fun resp =>
      ⟨7, srv.serialize resp, resp.lastSplice, ⟨(session fun _ => 0).conn, 0⟩⟩ }

/-- The splice is submitted behind its response, and the next response waits for its
completion. -/
def paced : List (ConnectionCall 2) :=
  [.other (answered (server fun _ => 0) [heartbeat, spliced, heartbeat]), .drain heartbeat,
    .write ⟨some 1, true⟩, .write ⟨some 3, true⟩, .drain spliced, .write ⟨some 4, true⟩,
    .drain heartbeat, .write ⟨some 4, true⟩, .harvest 0 70000, .write ⟨some 2, true⟩]

end TwoReactors

/-- A splice of the second response behind the bytes of the first one. -/
theorem Server.not_splicesMatch_of_overtaken {srv : Server n} {conn : Connection}
    {resp resp' : Response} (hfirst : resp.splices = []) (hsecond : srv.serialize resp' ≠ [])
    (x : FileRange) :
    ¬ srv.SplicesMatch conn [resp, resp'] (wireItems (srv.serialize resp) [x]) := by
  rintro ⟨hbegins, -⟩
  obtain ⟨b, bs, hbytes⟩ := List.exists_cons_of_ne_nil hsecond
  rw [List.flatMap_cons, itemsOf, hfirst, wireItems, wireItems, List.map_nil, List.append_nil,
    List.prefix_append_right_inj, List.flatMap_singleton, itemsOf, wireItems, hbytes] at hbegins
  simp at hbegins

namespace TwoReactors

variable {srv : Server 2}

/-- Both responses are put in before the first one is sent, and then it is sent at once. -/
def pipelined (srv : Server 2) : List (ConnectionCall 2) :=
  [.other (answered srv [heartbeat, spliced]), .drain heartbeat, .drain spliced,
    .write ⟨some (srv.serialize heartbeat).length, true⟩]

/-- The connection when both have been put in. The slot is that of the second one. -/
def bothIn (srv : Server 2) : Connection where
  writeBuf := srv.serialize heartbeat
  writeQueue := [srv.serialize spliced]
  spliceFd := some segmentFile
  spliceLen := 70000

theorem holds_bothIn (hdata : srv.serialize heartbeat ≠ []) :
    ∃ want, (Server.drainResponse
      (Server.drainResponse (answered srv [heartbeat, spliced]) 0).1 0).1.Holds 0 7 ⟨0, 0⟩
        (bothIn srv) want := by
  have hstart : (answered srv [heartbeat, spliced]).Holds 0 7 ⟨0, 0⟩ {} false := ⟨rfl, rfl, rfl⟩
  have hfirst : (Server.drainResponse (answered srv [heartbeat, spliced]) 0).1.Holds 0 7 ⟨0, 0⟩
      { writeBuf := srv.serialize heartbeat } true := Server.holds_drainResponse hstart rfl rfl
  have hbusy : ¬ ({ writeBuf := srv.serialize heartbeat } : Connection).Idle := fun h => hdata h.2
  have hput : (({ writeBuf := srv.serialize heartbeat } : Connection).setSplice
      spliced.lastSplice).enqueue (srv.serialize spliced) = bothIn srv :=
    if_neg hbusy
  rw [← hput]
  exact ⟨_, Server.holds_drainResponse hfirst rfl rfl⟩

/-- When the first response has been sent the splice of the second one is submitted. -/
theorem wireItems_bothIn {s : System 2} {want : Bool} (h : s.Holds 0 7 ⟨0, 0⟩ (bothIn srv) want)
    (hdata : srv.serialize heartbeat ≠ []) :
    wireItems ((s.connection 0 7).sentBytes (some (srv.serialize heartbeat).length))
        (s.newSplices 0 7
          (s.handleWrite 0 7 ⟨some (srv.serialize heartbeat).length, true⟩)) =
      wireItems (srv.serialize heartbeat) [⟨segmentFile, 0, 70000⟩] := by
  have hsend : (bothIn srv).sendAll (some (srv.serialize heartbeat).length) =
      some (srv.serialize heartbeat).length := by
    simp [Connection.sendAll, bothIn, hdata]
  have hstep : ((bothIn srv).writeStep (srv.serialize heartbeat).length true).2 =
      [⟨segmentFile, 0, 70000⟩] := by
    simp [Connection.writeStep, bothIn, Connection.slot]
  have hsent : (bothIn srv).sentBytes (some (srv.serialize heartbeat).length) =
      srv.serialize heartbeat := by
    rw [Connection.sentBytes, hsend]
    simp [bothIn]
  rw [System.newSplices, (h.handleWrite_step hsend).2, List.drop_left, hstep, h.connection, hsent]

theorem allWire_pipelined (hdata : srv.serialize heartbeat ≠ []) :
    allWire ((srv.splicePipeline 0 7 ⟨0, 0⟩).trace start (pipelined srv)) =
      wireItems (srv.serialize heartbeat) [⟨segmentFile, 0, 70000⟩] := by
  obtain ⟨want, hholds⟩ := holds_bothIn hdata
  -- only the last of the four calls sends anything
  have hother : start.newSplices 0 7 (answered srv [heartbeat, spliced]) = [] := rfl
  have hdrain := fun s : System 2 => Server.newSplices_drainResponse s 0 7
  have hnothing : wireItems [] [] = [] := rfl
  rw [← wireItems_bothIn hholds hdata]
  simp only [pipelined, Machine.trace_cons, Machine.trace_nil, Machine.out, Machine.next,
    Server.splicePipeline, Server.stateAfter, Server.bytesOf, allWire, List.flatMap_cons,
    List.flatMap_nil, hother, hdrain, hnothing, List.nil_append, List.append_nil]

/-- The two reactors, with the responses as they are written. -/
def writingServer : Server 2 :=
  { server fun _ => 0 with serialize := fun resp => (serialize resp).getD [] }

theorem serialize_ne_nil {resp : Response} (hvariant : ∀ r, resp ≠ .describeTopicPartitions r) :
    writingServer.serialize resp ≠ [] := by
  obtain ⟨bs, -, -, hwrite⟩ := Response.exists_write_eq hvariant
  rw [writingServer]
  dsimp only
  rw [serialize, hwrite, Option.map_some, Option.getD_some]
  exact List.append_ne_nil_of_left_ne_nil
    (List.ne_nil_of_length_eq_add_one (length_writeInt32Be _)) _

end TwoReactors

end TinyKafka
