import TinyKafka.Protocol.Response
import TinyKafka.Util.Endian

/-!
# Connections

The part of a reactor's work that concerns one connection: `recv_all` and the two phases of
`handle_read` that assemble a request from the stream (`readFrame`), and the buffers of
`handle_write`.

A socket is what its reads return: the bytes that are there, and then the end of stream, an
error, or `EAGAIN`. `recv_all` reports the number of bytes received in the first and the last
case, so that its caller cannot tell them apart.
-/

namespace TinyKafka

/-- How `read` answers when the bytes that are there are used up. -/
inductive ReadEnd
  | again
  | endOfStream
  | error
  deriving DecidableEq, Repr

/-- A socket, as the reads of one readiness event see it. -/
structure Socket where
  available : Bytes
  ending : ReadEnd
  deriving DecidableEq, Repr

/-- `recv_all` into a buffer of `n` bytes: what has been received, or nothing on an error,
with the socket as it is left. -/
def recvAll (n : ℕ) (sock : Socket) : Option Bytes × Socket :=
  if n ≤ sock.available.length then
    (some (sock.available.take n), { sock with available := sock.available.drop n })
  else
    let received := match sock.ending with
      | .again | .endOfStream => some sock.available
      | .error => none
    (received, { sock with available := [] })

/-- The reading side of a `Connection`. -/
structure FrameReader where
  readBuf : Bytes := []
  expectedLen : ℕ := 0
  haveHeader : Bool := false
  deriving DecidableEq, Repr

/-- What one call of `handle_read` makes of the stream. -/
inductive FrameOutcome
  /-- The loop is left; the rest of the frame is still to come. -/
  | wait
  | close
  | frame (body : Bytes)
  deriving DecidableEq, Repr

namespace FrameReader

/-- The reader after a whole frame. -/
def clear (r : FrameReader) : FrameReader := { r with readBuf := [], haveHeader := false }

/-- The second phase of `handle_read`: the body. -/
def readBody (r : FrameReader) (sock : Socket) : FrameReader × FrameOutcome × Socket :=
  let totalNeeded := 4 + r.expectedLen
  if r.readBuf.length < totalNeeded then
    match recvAll (totalNeeded - r.readBuf.length) sock with
    | (none, sock) => (r, .wait, sock)
    | (some bs, sock) =>
      let r := { r with readBuf := r.readBuf ++ bs }
      if bs = [] then (r, .close, sock)
      else if r.readBuf.length < totalNeeded then (r, .wait, sock)
      else (r.clear, .frame (r.readBuf.drop 4), sock)
  else (r.clear, .frame (r.readBuf.drop 4), sock)

/-- The length prefix is complete. It is a signed number, and a negative one becomes a huge
`size_t`. -/
def openFrame (maxMessageBytes : UInt32) (r : FrameReader) (sock : Socket) :
    FrameReader × FrameOutcome × Socket :=
  let r := { r with
    expectedLen := ((decodeInt32Be (r.readBuf.take 4)).toInt % 2 ^ 64).toNat }
  if r.expectedLen > maxMessageBytes.toNat then (r, .close, sock)
  else readBody { r with haveHeader := true } sock

/-- `handle_read` up to the call of `parse_request`. The source writes it as a loop, every
turn of which leaves the function. -/
def readFrame (maxMessageBytes : UInt32) (r : FrameReader) (sock : Socket) :
    FrameReader × FrameOutcome × Socket :=
  if r.haveHeader then r.readBody sock
  else if r.readBuf.length < 4 then
    match recvAll (4 - r.readBuf.length) sock with
    | (none, sock) => (r, .wait, sock)
    | (some bs, sock) =>
      let r := { r with readBuf := r.readBuf ++ bs }
      if bs = [] then (r, .close, sock)
      else if r.readBuf.length < 4 then (r, .wait, sock)
      else openFrame maxMessageBytes r sock
  else openFrame maxMessageBytes r sock

end FrameReader

/-- `WorkerReactor::Connection`. The descriptor to splice from is the file it refers to. -/
structure Connection extends FrameReader where
  writeBuf : Bytes := []
  writeOffset : ℕ := 0
  writeQueue : List Bytes := []
  spliceFd : Option FileRef := none
  spliceLen : ℕ := 0
  splicePending : Bool := false
  deriving DecidableEq

namespace Connection

/-- `was_idle`. -/
def Idle (c : Connection) : Prop := c.writeOffset = 0 ∧ c.writeBuf = []

instance (c : Connection) : Decidable c.Idle := inferInstanceAs (Decidable (_ ∧ _))

/-- The single slot for the splice that follows a response. -/
def setSplice (c : Connection) : Option (FileRef × ℕ) → Connection
  | some (fd, len) => { c with spliceFd := some fd, spliceLen := len }
  | none => c

/-- A response is put into the write buffer, or behind those that wait. -/
def enqueue (c : Connection) (data : Bytes) : Connection :=
  if c.Idle then { c with writeBuf := data, writeOffset := 0 }
  else { c with writeQueue := c.writeQueue ++ [data] }

/-- `advance_write_queue` on the buffers. -/
def advanceWriteQueue (c : Connection) : Connection :=
  match c.writeQueue with
  | front :: queue => { c with writeBuf := front, writeQueue := queue, writeOffset := 0 }
  | [] => { c with writeBuf := [], writeOffset := 0 }

/-- `send_all` of what is left of the write buffer, when the system takes `sent` bytes or
fails; with nothing to send there is no system call. -/
def sendAll (c : Connection) (sent : Option ℕ) : Option ℕ :=
  let remaining := c.writeBuf.length - c.writeOffset
  if remaining = 0 then some 0 else sent.map (min remaining)

end Connection

/-- The splice `handle_read` and `drain_cross_reactor_requests` take from a response: that of
the last partition with one, its length cut to `unsigned`. -/
def Response.lastSplice : Response → Option (FileRef × ℕ)
  | .fetch r =>
    ((r.responses.flatMap FetchTopicResponse.partitions).filterMap fun p =>
      p.spliceFd.map (·, p.spliceLen % 2 ^ 32)).getLast?
  | _ => none

end TinyKafka
