import TinyKafka.Net.Connection

/-!
# Reading frames from a stream that arrives in pieces

A frame is a body behind its length in four bytes. Of a stream that starts with a frame, the
reader holds the first `m` bytes (`FrameReader.At`), and a call of `handle_read` sees the next
few. When these go on without an end, the call leaves the reader further on in the frame, or
delivers the body, with one exception: when the bytes end with the length prefix of a frame
that has a body, the second `recv_all` receives nothing, and the connection is closed
(`readFrame_prefix`).
-/

namespace TinyKafka

/-- A body behind its length. -/
def frame (body : Bytes) : Bytes := writeInt32Be (Int32.ofNat body.length) ++ body

/-- The length prefix is positive as a signed number. -/
def Signed32 (body : Bytes) : Prop := body.length < 2 ^ 31

instance (body : Bytes) : Decidable (Signed32 body) := inferInstanceAs (Decidable (_ < _))

@[simp] theorem length_frame (body : Bytes) : (frame body).length = 4 + body.length := by
  simp [frame]

theorem take_four_frame (body rest : Bytes) :
    (frame body ++ rest).take 4 = writeInt32Be (Int32.ofNat body.length) := by
  rw [frame, List.append_assoc, List.take_left' (length_writeInt32Be _)]

theorem body_of_frame (body rest : Bytes) :
    ((frame body ++ rest).take (4 + body.length)).drop 4 = body := by
  rw [List.take_left' (length_frame body), frame, List.drop_left' (length_writeInt32Be _)]

/-- The length the reader takes from the prefix. -/
def decodedLen (body : Bytes) : ℕ := ((Int32.ofNat body.length).toInt % 2 ^ 64).toNat

theorem decodedLen_of_signed32 {body : Bytes} (h : Signed32 body) :
    decodedLen body = body.length := by
  unfold Signed32 at h
  rw [decodedLen, Int32.toInt_ofNat_of_lt h]
  omega

/-- A length that is negative as a signed number exceeds every limit. -/
theorem lt_decodedLen {body : Bytes} {limit : UInt32} (hle : body.length ≤ limit.toNat)
    (h : ¬ Signed32 body) : limit.toNat < decodedLen body := by
  have hlimit := limit.toNat_lt
  unfold Signed32 at h
  have hneg : (Int32.ofNat body.length).toInt = body.length - 2 ^ 32 := by
    rw [Int32.toInt_ofNat', Int.bmod_def, Int32.size]
    omega
  rw [decodedLen, hneg]
  omega

/-- Without an end of the stream `recv_all` receives what is there. -/
theorem recvAll_again (n : ℕ) (bytes : Bytes) :
    recvAll n ⟨bytes, .again⟩ = (some (bytes.take n), ⟨bytes.drop n, .again⟩) := by
  unfold recvAll
  dsimp only
  split
  · rfl
  · next h =>
    rw [List.take_of_length_le (by omega), List.drop_of_length_le (by omega)]

namespace FrameReader

/-- The reader holds the first `m` bytes of the stream, which are a part of its first frame.
It is never left with just the prefix of a frame. -/
structure At (r : FrameReader) (body rest : Bytes) (m : ℕ) : Prop where
  readBuf : r.readBuf = (frame body ++ rest).take m
  lt : m < 4 + body.length
  ne_four : m ≠ 4
  haveHeader : r.haveHeader = decide (4 ≤ m)
  expectedLen : 4 ≤ m → r.expectedLen = body.length
  signed : 4 ≤ m → Signed32 body

/-- The reader after a frame of the length. -/
def fresh (len : ℕ) : FrameReader := { expectedLen := len }

theorem at_zero {r : FrameReader} (hbuf : r.readBuf = []) (hheader : r.haveHeader = false)
    (body rest : Bytes) : r.At body rest 0 where
  readBuf := hbuf
  lt := by omega
  ne_four := by omega
  haveHeader := hheader
  expectedLen h := absurd h (by omega)
  signed h := absurd h (by omega)

section Reading

variable {r : FrameReader} {body rest cur tail : Bytes} {m : ℕ} {limit : UInt32}

theorem length_take_stream (h : m ≤ 4 + body.length) :
    ((frame body ++ rest).take m).length = m := by
  rw [List.length_take, List.length_append, length_frame]
  omega

/-- What is held and what is received are the beginning of the stream. -/
theorem take_append_take {S : Bytes} (hcur : cur ++ tail = S.drop m) {k : ℕ}
    (hk : k ≤ cur.length) : S.take m ++ cur.take k = S.take (m + k) := by
  rw [List.take_add, ← hcur, List.take_append_of_le_length hk]

/-- More of the body, which goes on after it. -/
theorem readBody_wait (hbuf : r.readBuf = (frame body ++ rest).take m)
    (hlen : r.expectedLen = body.length) (hcur : cur ++ tail = (frame body ++ rest).drop m)
    (hne : cur ≠ []) (hmore : m + cur.length < 4 + body.length) :
    r.readBody ⟨cur, .again⟩ =
      ({ r with readBuf := (frame body ++ rest).take (m + cur.length) }, .wait, ⟨[], .again⟩) := by
  have hheld : r.readBuf.length = m := by rw [hbuf, length_take_stream (by omega)]
  have hall : cur.take (4 + r.expectedLen - r.readBuf.length) = cur :=
    List.take_of_length_le (by omega)
  have hnone : cur.drop (4 + r.expectedLen - r.readBuf.length) = [] :=
    List.drop_of_length_le (by omega)
  have hbuf' : r.readBuf ++ cur = (frame body ++ rest).take (m + cur.length) := by
    rw [hbuf, ← take_append_take hcur le_rfl, List.take_length]
  have hlen' : (r.readBuf ++ cur).length < 4 + r.expectedLen := by
    rw [List.length_append]
    omega
  rw [readBody, if_pos (by omega), recvAll_again, hall, hnone]
  dsimp only
  rw [if_neg hne, if_pos hlen', hbuf']

/-- The rest of the body. -/
theorem readBody_frame (hbuf : r.readBuf = (frame body ++ rest).take m)
    (hlen : r.expectedLen = body.length) (hcur : cur ++ tail = (frame body ++ rest).drop m)
    (hlt : m < 4 + body.length) (hend : 4 + body.length ≤ m + cur.length) :
    r.readBody ⟨cur, .again⟩ =
      (fresh body.length, .frame body, ⟨cur.drop (4 + body.length - m), .again⟩) := by
  have hheld : r.readBuf.length = m := by rw [hbuf, length_take_stream (by omega)]
  have hbuf' : r.readBuf ++ cur.take (4 + body.length - m) =
      (frame body ++ rest).take (4 + body.length) := by
    rw [hbuf, take_append_take hcur (by omega)]
    congr 1
    omega
  have hne : cur.take (4 + body.length - m) ≠ [] := by
    rw [← List.length_pos_iff_ne_nil, List.length_take]
    omega
  rw [readBody, if_pos (by omega), recvAll_again, hlen, hheld]
  dsimp only
  rw [if_neg hne, hbuf', length_take_stream le_rfl, if_neg (by omega), body_of_frame]
  rfl

/-- The prefix of a frame without a body is the whole frame. -/
theorem readBody_empty (hbuf : r.readBuf = (frame [] ++ rest).take 4)
    (hlen : r.expectedLen = 0) (sock : Socket) :
    r.readBody sock = (fresh 0, .frame [], sock) := by
  have hheld : r.readBuf.length = 4 := by rw [hbuf, length_take_stream (by simp)]
  have hbody : r.readBuf.drop 4 = [] := List.drop_of_length_le (by omega)
  rw [readBody, if_neg (by omega), hbody, clear, hlen]
  rfl

/-- Nothing is there of a body: to `handle_read` this looks like the end of the stream. -/
theorem readBody_none (hlt : r.readBuf.length < 4 + r.expectedLen) :
    (r.readBody ⟨[], .again⟩).2.1 = .close := by
  rw [readBody, if_pos hlt, recvAll_again]
  simp

/-- The first bytes of a frame, and not the whole prefix. -/
theorem readFrame_short (hat : r.At body rest m)
    (hcur : cur ++ tail = (frame body ++ rest).drop m) (hne : cur ≠ [])
    (hshort : m + cur.length < 4) :
    r.readFrame limit ⟨cur, .again⟩ =
      ({ r with readBuf := (frame body ++ rest).take (m + cur.length) }, .wait, ⟨[], .again⟩) := by
  have hheld : r.readBuf.length = m := by rw [hat.readBuf, length_take_stream hat.lt.le]
  have hheader : r.haveHeader = false := by rw [hat.haveHeader, decide_eq_false (by omega)]
  have hall : cur.take (4 - r.readBuf.length) = cur := List.take_of_length_le (by omega)
  have hnone : cur.drop (4 - r.readBuf.length) = [] := List.drop_of_length_le (by omega)
  have hbuf' : r.readBuf ++ cur = (frame body ++ rest).take (m + cur.length) := by
    rw [hat.readBuf, ← take_append_take hcur le_rfl, List.take_length]
  rw [readFrame, if_neg (by simp [hheader]), if_pos (by omega), recvAll_again, hall, hnone]
  dsimp only
  rw [if_neg hne, hbuf', length_take_stream (by omega), if_pos hshort]

/-- The prefix is complete: what follows is a matter of the length it states. -/
theorem readFrame_header (hat : r.At body rest m)
    (hcur : cur ++ tail = (frame body ++ rest).drop m) (hm : m < 4)
    (hfull : 4 ≤ m + cur.length) :
    r.readFrame limit ⟨cur, .again⟩ =
      openFrame limit { r with readBuf := (frame body ++ rest).take 4 }
        ⟨cur.drop (4 - m), .again⟩ := by
  have hheld : r.readBuf.length = m := by rw [hat.readBuf, length_take_stream hat.lt.le]
  have hheader : r.haveHeader = false := by rw [hat.haveHeader, decide_eq_false (by omega)]
  have hbuf' : r.readBuf ++ cur.take (4 - m) = (frame body ++ rest).take 4 := by
    rw [hat.readBuf, take_append_take hcur (by omega)]
    congr 1
    omega
  have hne : cur.take (4 - m) ≠ [] := by
    rw [← List.length_pos_iff_ne_nil, List.length_take]
    omega
  rw [readFrame, if_neg (by simp [hheader]), if_pos (by omega), recvAll_again, hheld]
  dsimp only
  rw [if_neg hne, hbuf', length_take_stream (by omega), if_neg (by omega)]

/-- A stated length within the limit starts the body. -/
theorem openFrame_of_signed32 (hbuf : r.readBuf = (frame body ++ rest).take 4)
    (hlimit : body.length ≤ limit.toNat) (hsigned : Signed32 body) (sock : Socket) :
    openFrame limit r sock =
      readBody { r with expectedLen := body.length, haveHeader := true } sock := by
  have hlen : ((decodeInt32Be (r.readBuf.take 4)).toInt % 2 ^ 64).toNat = body.length := by
    rw [hbuf, List.take_take, min_self, take_four_frame, decodeInt32Be_writeInt32Be]
    exact decodedLen_of_signed32 hsigned
  rw [openFrame, hlen]
  dsimp only
  rw [if_neg (by omega)]

/-- A negative length closes the connection. -/
theorem openFrame_of_not_signed32 (hbuf : r.readBuf = (frame body ++ rest).take 4)
    (hlimit : body.length ≤ limit.toNat) (hsigned : ¬ Signed32 body) (sock : Socket) :
    (openFrame limit r sock).2.1 = .close := by
  have hlen : ((decodeInt32Be (r.readBuf.take 4)).toInt % 2 ^ 64).toNat = decodedLen body := by
    rw [hbuf, List.take_take, min_self, take_four_frame, decodeInt32Be_writeInt32Be]
    rfl
  rw [openFrame, hlen]
  dsimp only
  rw [if_pos (lt_decodedLen hlimit hsigned)]

/-! ### One call of `handle_read` -/

/-- The call leaves the reader further on in the frame. -/
theorem readFrame_wait (hat : r.At body rest m) (hlimit : body.length ≤ limit.toNat)
    (hcur : cur ++ tail = (frame body ++ rest).drop m) (hne : cur ≠ [])
    (hmore : m + cur.length < 4 + body.length) (hcut : m + cur.length ≠ 4)
    (hsigned : 4 ≤ m + cur.length → Signed32 body) :
    ∃ r', r.readFrame limit ⟨cur, .again⟩ = (r', .wait, ⟨[], .again⟩) ∧
      r'.At body rest (m + cur.length) := by
  rcases Nat.lt_or_ge (m + cur.length) 4 with hshort | hlong
  · -- the prefix is still incomplete
    refine ⟨_, readFrame_short hat hcur hne hshort, rfl, hmore, hcut, ?_, ?_, ?_⟩
    · change r.haveHeader = _
      rw [hat.haveHeader, decide_eq_false (by omega), decide_eq_false (by omega)]
    · exact fun h => absurd h (by omega)
    · exact hsigned
  rcases Nat.lt_or_ge m 4 with hm | hm
  · -- it becomes complete in this call, which goes on with the body
    have hdrop : cur.drop (4 - m) ≠ [] := by
      rw [← List.length_pos_iff_ne_nil, List.length_drop]
      omega
    have hrest : cur.drop (4 - m) ++ tail = (frame body ++ rest).drop 4 := by
      rw [← List.drop_append_of_le_length (by omega), hcur, List.drop_drop]
      congr 1
      omega
    have hsum : 4 + (cur.drop (4 - m)).length = m + cur.length := by
      rw [List.length_drop]
      omega
    refine ⟨{ readBuf := (frame body ++ rest).take (m + cur.length),
              expectedLen := body.length, haveHeader := true }, ?_, rfl, hmore, hcut, ?_, ?_, ?_⟩
    · rw [readFrame_header hat hcur hm hlong, openFrame_of_signed32 rfl hlimit (hsigned hlong),
        readBody_wait rfl rfl hrest hdrop (by omega), hsum]
    · exact (decide_eq_true (by omega)).symm
    · exact fun _ => rfl
    · exact hsigned
  · have hheader : r.haveHeader = true := by rw [hat.haveHeader, decide_eq_true hm]
    refine ⟨{ r with readBuf := (frame body ++ rest).take (m + cur.length) }, ?_, rfl, hmore,
      hcut, ?_, ?_, ?_⟩
    · rw [readFrame, if_pos hheader,
        readBody_wait hat.readBuf (hat.expectedLen hm) hcur hne hmore]
    · change r.haveHeader = _
      rw [hheader, decide_eq_true (by omega)]
    · exact fun _ => hat.expectedLen hm
    · exact hsigned

/-- The call delivers the body and leaves the rest in the socket. -/
theorem readFrame_body (hat : r.At body rest m) (hlimit : body.length ≤ limit.toNat)
    (hcur : cur ++ tail = (frame body ++ rest).drop m)
    (hend : 4 + body.length ≤ m + cur.length) (hsigned : Signed32 body) :
    r.readFrame limit ⟨cur, .again⟩ =
      (fresh body.length, .frame body, ⟨cur.drop (4 + body.length - m), .again⟩) := by
  rcases Nat.lt_or_ge m 4 with hm | hm
  · have hrest : cur.drop (4 - m) ++ tail = (frame body ++ rest).drop 4 := by
      rw [← List.drop_append_of_le_length (by omega), hcur, List.drop_drop]
      congr 1
      omega
    rw [readFrame_header hat hcur hm (by omega), openFrame_of_signed32 rfl hlimit hsigned]
    rcases eq_or_ne body [] with rfl | hbody
    · rw [readBody_empty rfl rfl]
      rfl
    · have hpos := List.length_pos_iff_ne_nil.mpr hbody
      rw [readBody_frame rfl rfl hrest (by omega) (by rw [List.length_drop]; omega),
        List.drop_drop]
      congr 4
      omega
  · have hheader : r.haveHeader = true := by rw [hat.haveHeader, decide_eq_true hm]
    rw [readFrame, if_pos hheader,
      readBody_frame hat.readBuf (hat.expectedLen hm) hcur hat.lt hend]

/-- The bytes end with the prefix of a frame that has a body: the call closes. -/
theorem readFrame_prefix (hat : r.At body rest m) (hlimit : body.length ≤ limit.toNat)
    (hcur : cur ++ tail = (frame body ++ rest).drop m) (hne : cur ≠ [])
    (hbody : body ≠ []) (hcut : m + cur.length = 4) :
    (r.readFrame limit ⟨cur, .again⟩).2.1 = .close := by
  have hpos := List.length_pos_iff_ne_nil.mpr hne
  have hbody' := List.length_pos_iff_ne_nil.mpr hbody
  rw [readFrame_header hat hcur (by omega) (by omega), List.drop_of_length_le (by omega)]
  by_cases hsigned : Signed32 body
  · rw [openFrame_of_signed32 rfl hlimit hsigned]
    refine readBody_none ?_
    dsimp only
    rw [length_take_stream (by omega)]
    omega
  · exact openFrame_of_not_signed32 rfl hlimit hsigned _

/-- A prefix that is negative as a signed number closes, however the bytes are cut. -/
theorem readFrame_negative (hat : r.At body rest m) (hlimit : body.length ≤ limit.toNat)
    (hcur : cur ++ tail = (frame body ++ rest).drop m) (hfull : 4 ≤ m + cur.length)
    (hsigned : ¬ Signed32 body) : (r.readFrame limit ⟨cur, .again⟩).2.1 = .close := by
  have hm : m < 4 := not_le.mp fun h => hsigned (hat.signed h)
  rw [readFrame_header hat hcur hm hfull]
  exact openFrame_of_not_signed32 rfl hlimit hsigned _

end Reading

/-! ### Any call of `handle_read` -/

/-- `recv_all` receives what there is room for, unless it meets an error before. -/
theorem recvAll_cases (k : ℕ) (sock : Socket) :
    sock.ending = .error ∧ recvAll k sock = (none, { sock with available := [] }) ∨
      recvAll k sock =
        (some (sock.available.take k), { sock with available := sock.available.drop k }) := by
  rw [recvAll]
  split
  · exact .inr rfl
  · next hshort =>
    have hall : sock.available.take k = sock.available := List.take_of_length_le (by omega)
    have hnone : sock.available.drop k = [] := List.drop_of_length_le (by omega)
    rw [hall, hnone]
    rcases sock.ending with _ | _ | _
    · exact .inr rfl
    · exact .inr rfl
    · exact .inl ⟨rfl, rfl⟩

/-- The length that the first four bytes announce. -/
def announced (buf : Bytes) : ℕ := ((decodeInt32Be (buf.take 4)).toInt % 2 ^ 64).toNat

theorem announced_append {buf : Bytes} (h : 4 ≤ buf.length) (bs : Bytes) :
    announced (buf ++ bs) = announced buf := by
  rw [announced, List.take_append_of_le_length h, announced]

/-- Bytes that announce their own length are a frame. -/
theorem frame_drop_four {buf : Bytes} (limit : UInt32) (h : buf.length = 4 + announced buf)
    (hlimit : announced buf ≤ limit.toNat) : frame (buf.drop 4) = buf := by
  have hbody : (buf.drop 4).length = announced buf := by
    rw [List.length_drop]
    omega
  have hprefix : decodeInt32Be (buf.take 4) = Int32.ofNat (announced buf) := by
    have hlt := limit.toNat_lt
    have hle := Int32.toInt_lt (decodeInt32Be (buf.take 4))
    have hge := Int32.le_toInt (decodeInt32Be (buf.take 4))
    rw [announced] at hlimit ⊢
    rw [← Int32.toInt_inj]
    generalize (decodeInt32Be (buf.take 4)).toInt = x at *
    have hnonneg : 0 ≤ x := by omega
    rw [Int32.toInt_ofNat_of_lt (by omega)]
    omega
  rw [frame, hbody, ← hprefix, writeInt32Be_decodeInt32Be (by rw [List.length_take]; omega),
    List.take_append_drop]

/-- Between two calls of `handle_read`: a part of the length prefix, or the prefix and a part of
the body that it announces, which is within the limit. -/
structure Partial (limit : UInt32) (r : FrameReader) : Prop where
  header : r.haveHeader = true → 4 ≤ r.readBuf.length ∧ r.readBuf.length < 4 + r.expectedLen ∧
    r.expectedLen ≤ limit.toNat ∧ r.expectedLen = announced r.readBuf
  noHeader : r.haveHeader = false → r.readBuf.length < 4

/-- What one call makes of the bytes held, followed by those that are there. -/
inductive Reads (limit : UInt32) (bytes : Bytes) (ending : ReadEnd) :
    FrameReader × FrameOutcome × Socket → Prop
  /-- Without an error, what is received is held. -/
  | waited (r : FrameReader) (sock : Socket) (hpart : r.Partial limit)
      (hbytes : ending ≠ .error → r.readBuf ++ sock.available = bytes) :
      Reads limit bytes ending (r, .wait, sock)
  | closed (r : FrameReader) (sock : Socket) : Reads limit bytes ending (r, .close, sock)
  /-- The bytes of a frame are not held any more. -/
  | frame (r : FrameReader) (body : Bytes) (sock : Socket) (hempty : r.readBuf = [])
      (hheader : r.haveHeader = false) (hbytes : TinyKafka.frame body ++ sock.available = bytes) :
      Reads limit bytes ending (r, .frame body, sock)

variable {r : FrameReader} {limit : UInt32}

theorem partial_of_empty (hempty : r.readBuf = []) (hheader : r.haveHeader = false) :
    r.Partial limit := by
  refine ⟨fun h => absurd (hheader.symm.trans h) Bool.false_ne_true, fun _ => ?_⟩
  rw [hempty]
  exact Nat.zero_lt_succ 3

theorem Partial.length_lt (h : r.Partial limit) : r.readBuf.length < 4 + limit.toNat := by
  rcases hheader : r.haveHeader with _ | _
  · have hlt := h.noHeader hheader
    omega
  · have hbounds := h.header hheader
    omega

theorem reads_readBody (hheader : r.haveHeader = true) (hfour : 4 ≤ r.readBuf.length)
    (hle : r.readBuf.length ≤ 4 + r.expectedLen) (hlimit : r.expectedLen ≤ limit.toNat)
    (hlen : r.expectedLen = announced r.readBuf) (sock : Socket) :
    Reads limit (r.readBuf ++ sock.available) sock.ending (r.readBody sock) := by
  have hno {P : Prop} (h : r.haveHeader = false) : P :=
    absurd (hheader.symm.trans h) Bool.true_eq_false.mp
  rw [readBody]
  split
  · next hlt =>
    rcases recvAll_cases (4 + r.expectedLen - r.readBuf.length) sock with ⟨herr, hrecv⟩ | hrecv <;>
      rw [hrecv]
    · exact .waited _ _ ⟨fun _ => ⟨hfour, hlt, hlimit, hlen⟩, hno⟩ fun hne => absurd herr hne
    dsimp only
    generalize hk : 4 + r.expectedLen - r.readBuf.length = k
    have hbytes : (r.readBuf ++ sock.available.take k) ++ sock.available.drop k =
        r.readBuf ++ sock.available := by
      rw [List.append_assoc, List.take_append_drop]
    have hmore := List.length_take_le k sock.available
    split
    · exact .closed _ _
    split
    · next hlt' =>
      refine .waited _ _ ⟨fun _ => ?_, hno⟩ fun _ => hbytes
      dsimp only at hlt' ⊢
      rw [announced_append hfour]
      rw [List.length_append] at hlt' ⊢
      exact ⟨by omega, hlt', hlimit, hlen⟩
    · next hfull =>
      refine .frame _ _ _ rfl rfl ?_
      dsimp only at hfull ⊢
      rw [List.length_append] at hfull
      rw [← hbytes, frame_drop_four limit] <;> rw [announced_append hfour, ← hlen]
      · rw [List.length_append]
        omega
      · exact hlimit
  · refine .frame _ _ _ rfl rfl ?_
    rw [frame_drop_four limit] <;> omega

theorem reads_openFrame (hfour : r.readBuf.length = 4) (sock : Socket) :
    Reads limit (r.readBuf ++ sock.available) sock.ending (openFrame limit r sock) := by
  rw [openFrame]
  dsimp only
  split
  · exact .closed _ _
  · next hle =>
    exact reads_readBody
      (r := { r with expectedLen := announced r.readBuf, haveHeader := true }) rfl hfour.ge
      (hfour.le.trans (Nat.le_add_right 4 _)) (not_lt.mp hle) rfl sock

/-- Every call leaves a part of a frame, and loses nothing unless it meets an error or closes. -/
theorem Partial.reads (h : r.Partial limit) (sock : Socket) :
    Reads limit (r.readBuf ++ sock.available) sock.ending (r.readFrame limit sock) := by
  rw [readFrame]
  split
  · next hheader =>
    obtain ⟨hfour, hlt, hlimit, hlen⟩ := h.header hheader
    exact reads_readBody hheader hfour hlt.le hlimit hlen sock
  next hheader =>
  have hshort : r.readBuf.length < 4 := h.noHeader (by simpa using hheader)
  rw [if_pos hshort]
  rcases recvAll_cases (4 - r.readBuf.length) sock with ⟨herr, hrecv⟩ | hrecv <;> rw [hrecv]
  · exact .waited _ _ h fun hne => absurd herr hne
  dsimp only
  have hbytes : (r.readBuf ++ sock.available.take (4 - r.readBuf.length)) ++
      sock.available.drop (4 - r.readBuf.length) = r.readBuf ++ sock.available := by
    rw [List.append_assoc, List.take_append_drop]
  have hmore := List.length_take_le (4 - r.readBuf.length) sock.available
  split
  · exact .closed _ _
  split
  · next hlt =>
    exact .waited _ _ ⟨fun htrue => absurd htrue hheader, fun _ => hlt⟩ fun _ => hbytes
  · next hfull =>
    -- the prefix is complete, so that it has exactly four bytes
    have hfour : (r.readBuf ++ sock.available.take (4 - r.readBuf.length)).length = 4 := by
      rw [List.length_append] at hfull ⊢
      omega
    rw [← hbytes]
    exact reads_openFrame (r := { r with
      readBuf := r.readBuf ++ sock.available.take (4 - r.readBuf.length) }) hfour
      { sock with available := sock.available.drop (4 - r.readBuf.length) }

end FrameReader

end TinyKafka
