import TinyKafka.Net.FrameStream

/-!
# The loops around `read` and `send`

`recv_all` and `send_all` call the system until a buffer is full or the system has no more to give
or to take. Elsewhere in this development each is one operation on a socket (`recvAll`,
`Connection.sendAll`). Here they are the loops of the source, over system calls that may move any
part of what they could: at least one byte, and no more than the caller asks for and the kernel
has, or has room for. How much each call moves is a list of numbers, the wishes of the kernel.

`recvAllLoop_eq` and `sendAllLoop_eq`: the loops do what the operations say, whatever these
numbers are, and never take more calls than the buffer has bytes.
-/

namespace TinyKafka

/-- What a call of `read` or `send` returns: a number of bytes, or an `errno`. -/
inductive CallResult
  | count (bytes : ℕ)
  | again
  | error
  deriving DecidableEq, Repr

/-- The number of bytes a call moves when it can move `most`, which is not zero. -/
def moved (wish most : ℕ) : ℕ := max 1 (min wish most)

theorem moved_pos (wish most : ℕ) : 0 < moved wish most :=
  Nat.lt_of_lt_of_le one_pos (le_max_left _ _)

theorem moved_le (wish : ℕ) {most : ℕ} (h : 0 < most) : moved wish most ≤ most :=
  max_le h (min_le_right _ _)

/-! ### Receiving -/

/-- `read` into a buffer of `size` bytes. -/
def Socket.read (sock : Socket) (size wish : ℕ) : CallResult × Bytes × Socket :=
  if sock.available = [] then
    match sock.ending with
    | .again => (.again, [], sock)
    | .endOfStream => (.count 0, [], sock)
    | .error => (.error, [], sock)
  else
    let n := moved wish (min size sock.available.length)
    (.count n, sock.available.take n, { sock with available := sock.available.drop n })

/-- The loop of `recv_all`. There is no result when the wishes do not suffice. -/
def recvAllLoop (size : ℕ) (wishes : List ℕ) (received : Bytes) (sock : Socket) :
    Option (Option Bytes × Socket) :=
  if received.length < size then
    match wishes with
    | [] => none
    | wish :: wishes =>
      match sock.read (size - received.length) wish with
      | (.again, _, sock) => some (some received, sock)
      | (.error, _, sock) => some (none, sock)
      | (.count 0, _, sock) => some (some received, sock)
      | (.count (_ + 1), bytes, sock) => recvAllLoop size wishes (received ++ bytes) sock
  else some (some received, sock)

/-- A call that moves some bytes leaves the rest of the work to the others. -/
theorem recvAll_of_moved {k m : ℕ} {sock : Socket} (hk : m ≤ k) (hm : m ≤ sock.available.length) :
    recvAll k sock =
      ((recvAll (k - m) { sock with available := sock.available.drop m }).1.map
          (sock.available.take m ++ ·),
        (recvAll (k - m) { sock with available := sock.available.drop m }).2) := by
  have htake (bs : Bytes) : bs.take k = bs.take m ++ (bs.drop m).take (k - m) := by
    conv_lhs => rw [← Nat.add_sub_cancel' hk]
    exact List.take_add
  rw [recvAll, recvAll]
  dsimp only
  rw [List.length_drop]
  by_cases hfull : k ≤ sock.available.length
  · rw [if_pos hfull, if_pos (by omega), htake, List.drop_drop, Nat.add_sub_cancel' hk]
    rfl
  · rw [if_neg hfull, if_neg (by omega)]
    rcases sock.ending with _ | _ | _ <;> simp

theorem recvAll_zero (sock : Socket) : recvAll 0 sock = (some [], sock) := by
  simp [recvAll]

/-- One turn of the loop on a socket with bytes to read. -/
theorem recvAllLoop_cons {size : ℕ} {received : Bytes} {sock : Socket} (wish : ℕ)
    (wishes : List ℕ) (hsize : received.length < size) (hsock : sock.available ≠ []) :
    ∃ m, 0 < m ∧ m ≤ size - received.length ∧ m ≤ sock.available.length ∧
      recvAllLoop size (wish :: wishes) received sock =
        recvAllLoop size wishes (received ++ sock.available.take m)
          { sock with available := sock.available.drop m } := by
  have hlen := List.length_pos_of_ne_nil hsock
  have hle := moved_le wish
    (show 0 < min (size - received.length) sock.available.length by omega)
  obtain ⟨k, hk⟩ := Nat.exists_eq_add_of_lt
    (moved_pos wish (min (size - received.length) sock.available.length))
  refine ⟨moved wish (min (size - received.length) sock.available.length), moved_pos _ _,
    by omega, by omega, ?_⟩
  rw [recvAllLoop, if_pos hsize]
  simp only [Socket.read, if_neg hsock]
  rw [hk, Nat.zero_add]

/-- The turn of the loop that finds the socket empty. -/
theorem recvAllLoop_empty {size : ℕ} {received : Bytes} {sock : Socket} (wish : ℕ)
    (wishes : List ℕ) (hsize : received.length < size) (hsock : sock.available = []) :
    recvAllLoop size (wish :: wishes) received sock =
      some ((recvAll (size - received.length) sock).1.map (received ++ ·),
        (recvAll (size - received.length) sock).2) := by
  obtain ⟨available, ending⟩ := sock
  obtain rfl : available = [] := hsock
  have hshort : ¬size - received.length ≤ 0 := by omega
  rw [recvAllLoop, if_pos hsize]
  cases ending <;> simp [Socket.read, recvAll, hshort]

theorem recvAllLoop_done {size : ℕ} {received : Bytes} (wishes : List ℕ) (sock : Socket)
    (hfull : size ≤ received.length) :
    recvAllLoop size wishes received sock =
      some ((recvAll (size - received.length) sock).1.map (received ++ ·),
        (recvAll (size - received.length) sock).2) := by
  unfold recvAllLoop
  rw [if_neg (by omega), Nat.sub_eq_zero_of_le hfull, recvAll_zero]
  simp

theorem recvAllLoop_append (size : ℕ) (wishes : List ℕ) (received : Bytes) (sock : Socket)
    (hwishes : size ≤ received.length + wishes.length) :
    recvAllLoop size wishes received sock =
      some ((recvAll (size - received.length) sock).1.map (received ++ ·),
        (recvAll (size - received.length) sock).2) := by
  induction wishes generalizing received sock with
  | nil => exact recvAllLoop_done [] sock hwishes
  | cons wish wishes ih =>
    rcases lt_or_ge received.length size with hsize | hfull
    · by_cases hsock : sock.available = []
      · exact recvAllLoop_empty wish wishes hsize hsock
      · obtain ⟨m, hm, hroom, hlen, hloop⟩ := recvAllLoop_cons wish wishes hsize hsock
        have hreceived : (received ++ sock.available.take m).length = received.length + m := by
          rw [List.length_append, List.length_take_of_le hlen]
        rw [List.length_cons] at hwishes
        rw [hloop, ih _ _ (by omega), hreceived, recvAll_of_moved hroom hlen, ← Nat.sub_sub,
          Option.map_map]
        simp [Function.comp_def]
    · exact recvAllLoop_done (wish :: wishes) sock hfull

/-- `recv_all` receives the same bytes, ends the same way and leaves the same socket behind however
the kernel cuts the stream, and it makes at most one call for each byte of the buffer. -/
theorem recvAllLoop_eq (size : ℕ) (wishes : List ℕ) (sock : Socket)
    (hwishes : size ≤ wishes.length) :
    recvAllLoop size wishes [] sock = some (recvAll size sock) := by
  rw [recvAllLoop_append size wishes [] sock (by simpa using hwishes)]
  simp

/-- A stream cut into pieces of two bytes and of one. -/
theorem recvAllLoop_pieces :
    recvAllLoop 4 [2, 1, 7, 0] [] ⟨[0, 0, 0, 5, 9], .again⟩ =
      some (recvAll 4 ⟨[0, 0, 0, 5, 9], .again⟩) :=
  recvAllLoop_eq 4 [2, 1, 7, 0] ⟨[0, 0, 0, 5, 9], .again⟩ (by decide)

/-! ### Sending -/

/-- The sending side of a socket, as the calls of one `send_all` see it: the bytes the kernel has
taken, the room it has left, and whether a call without room fails. -/
structure Outlet where
  taken : Bytes
  room : ℕ
  broken : Bool
  deriving DecidableEq, Repr

/-- `send` of `data`, which is not empty. -/
def Outlet.send (out : Outlet) (data : Bytes) (wish : ℕ) : CallResult × Outlet :=
  if out.room = 0 then (if out.broken then .error else .again, out)
  else
    let n := moved wish (min data.length out.room)
    (.count n, { out with taken := out.taken ++ data.take n, room := out.room - n })

/-- The loop of `send_all`, which returns the number of bytes sent or nothing on an error. There is
no result when the wishes do not suffice. -/
def sendAllLoop (data : Bytes) (wishes : List ℕ) (sent : ℕ) (out : Outlet) :
    Option (Option ℕ × Outlet) :=
  if sent < data.length then
    match wishes with
    | [] => none
    | wish :: wishes =>
      match out.send (data.drop sent) wish with
      | (.again, out) => some (some sent, out)
      | (.error, out) => some (none, out)
      | (.count n, out) => sendAllLoop data wishes (sent + n) out
  else some (some sent, out)

/-- What `send_all` has sent when it returns. -/
def Outlet.accepts (out : Outlet) (data : Bytes) : Option ℕ :=
  if data.length ≤ out.room then some data.length else if out.broken then none else some out.room

/-- The socket `send_all` leaves behind. -/
def Outlet.after (out : Outlet) (data : Bytes) : Outlet :=
  { out with taken := out.taken ++ data.take out.room, room := out.room - data.length }

theorem Outlet.after_nil (out : Outlet) : out.after [] = out := by
  simp [Outlet.after]

/-- What is taken at once, or first a part and then the rest, is the same. -/
theorem Outlet.after_of_moved {out : Outlet} {data : Bytes} {m : ℕ} (hdata : m ≤ data.length)
    (hroom : m ≤ out.room) :
    ({ out with taken := out.taken ++ data.take m, room := out.room - m } : Outlet).after
        (data.drop m) = out.after data := by
  have htake : data.take m ++ (data.drop m).take (out.room - m) = data.take out.room := by
    rw [← List.take_add, Nat.add_sub_cancel' hroom]
  simp only [Outlet.after, List.append_assoc, htake, List.length_drop]
  congr 1
  omega

theorem Outlet.accepts_of_moved {out : Outlet} {data : Bytes} {m : ℕ} (taken : Bytes)
    (hdata : m ≤ data.length) (hroom : m ≤ out.room) :
    (({ out with taken := taken, room := out.room - m } : Outlet).accepts (data.drop m)).map
        (m + ·) = out.accepts data := by
  have hfits : data.length - m ≤ out.room - m ↔ data.length ≤ out.room := by omega
  simp only [Outlet.accepts, List.length_drop, hfits]
  split_ifs
  · simp [Nat.add_sub_cancel' hdata]
  · rfl
  · simp [Nat.add_sub_cancel' hroom]

/-- One turn of the loop on a socket with room. -/
theorem sendAllLoop_cons {data : Bytes} {sent : ℕ} {out : Outlet} (wish : ℕ) (wishes : List ℕ)
    (hsent : sent < data.length) (hroom : out.room ≠ 0) :
    ∃ m, 0 < m ∧ m ≤ (data.drop sent).length ∧ m ≤ out.room ∧
      sendAllLoop data (wish :: wishes) sent out =
        sendAllLoop data wishes (sent + m)
          { out with taken := out.taken ++ (data.drop sent).take m, room := out.room - m } := by
  have hlen : 0 < (data.drop sent).length := by rw [List.length_drop]; omega
  have hle := moved_le wish (show 0 < min (data.drop sent).length out.room by omega)
  refine ⟨moved wish (min (data.drop sent).length out.room), moved_pos _ _, by omega, by omega, ?_⟩
  rw [sendAllLoop, if_pos hsent]
  simp only [Outlet.send, if_neg hroom]

theorem sendAllLoop_done {data : Bytes} {sent : ℕ} (wishes : List ℕ) (out : Outlet)
    (h : data.length ≤ sent) :
    sendAllLoop data wishes sent out =
      some ((out.accepts (data.drop sent)).map (sent + ·), out.after (data.drop sent)) := by
  unfold sendAllLoop
  rw [if_neg (by omega), List.drop_of_length_le h, Outlet.after_nil]
  simp [Outlet.accepts]

/-- The turn of the loop that finds no room: the socket would block, or the call fails. -/
theorem sendAllLoop_full {data : Bytes} {sent : ℕ} {out : Outlet} (wish : ℕ) (wishes : List ℕ)
    (hsent : sent < data.length) (hroom : out.room = 0) :
    sendAllLoop data (wish :: wishes) sent out =
      some ((out.accepts (data.drop sent)).map (sent + ·), out.after (data.drop sent)) := by
  obtain ⟨taken, room, broken⟩ := out
  obtain rfl : room = 0 := hroom
  have hrest : ¬data.length - sent = 0 := by omega
  rw [sendAllLoop, if_pos hsent]
  cases broken <;> simp [Outlet.send, Outlet.accepts, Outlet.after, hrest]

theorem sendAllLoop_drop (data : Bytes) (wishes : List ℕ) (sent : ℕ) (out : Outlet)
    (hwishes : data.length ≤ sent + wishes.length) :
    sendAllLoop data wishes sent out =
      some ((out.accepts (data.drop sent)).map (sent + ·), out.after (data.drop sent)) := by
  induction wishes generalizing sent out with
  | nil => exact sendAllLoop_done [] out hwishes
  | cons wish wishes ih =>
    rcases lt_or_ge sent data.length with hsent | hfull
    · rcases eq_or_ne out.room 0 with hzero | hroom
      · exact sendAllLoop_full wish wishes hsent hzero
      · obtain ⟨m, hm, hdata, hle, hloop⟩ := sendAllLoop_cons wish wishes hsent hroom
        rw [List.length_cons] at hwishes
        rw [hloop, ih _ _ (by omega), ← List.drop_drop, Outlet.after_of_moved hdata hle,
          ← Outlet.accepts_of_moved (out.taken ++ (data.drop sent).take m) hdata hle,
          Option.map_map]
        simp only [Function.comp_def, Nat.add_assoc]
    · exact sendAllLoop_done (wish :: wishes) out hfull

theorem Outlet.accepts_eq_sendAll (out : Outlet) (c : Connection) :
    out.accepts (c.writeBuf.drop c.writeOffset) =
      c.sendAll (if out.broken ∧ out.room < c.writeBuf.length - c.writeOffset then none
        else some out.room) := by
  rw [Outlet.accepts, Connection.sendAll, List.length_drop]
  split_ifs <;> simp_all <;> omega

/-- `handle_write` sends what is left of the write buffer in order, however the kernel cuts it: the
kernel has taken the next bytes of the buffer, as many as it had room for, and `send_all` returns
that number, which is how far the write offset advances. It fails only when a call fails before the
buffer is sent, and it makes at most one call for each byte. -/
theorem sendAllLoop_eq (c : Connection) (wishes : List ℕ) (out : Outlet)
    (hwishes : c.writeBuf.length - c.writeOffset ≤ wishes.length) :
    ∃ out', sendAllLoop (c.writeBuf.drop c.writeOffset) wishes 0 out =
        some (c.sendAll (if out.broken ∧ out.room < c.writeBuf.length - c.writeOffset then none
          else some out.room), out') ∧
      out'.taken = out.taken ++ (c.writeBuf.drop c.writeOffset).take out.room := by
  refine ⟨out.after (c.writeBuf.drop c.writeOffset), ?_, rfl⟩
  rw [sendAllLoop_drop _ _ _ _ (by simpa using hwishes), ← Outlet.accepts_eq_sendAll]
  simp

/-- Five bytes of a buffer of seven, of which the kernel takes three in pieces of two and one. -/
theorem sendAllLoop_short :
    ∃ out', sendAllLoop [3, 4, 5, 6, 7] [2, 9, 9, 9, 9] 0 ⟨[1, 2], 3, false⟩ =
        some (some 3, out') ∧ out'.taken = [1, 2, 3, 4, 5] :=
  sendAllLoop_eq { writeBuf := [1, 2, 3, 4, 5, 6, 7], writeOffset := 2 } [2, 9, 9, 9, 9]
    ⟨[1, 2], 3, false⟩ (by decide)

end TinyKafka
