import TinyKafka.Protocol.RequestFormat
import TinyKafka.ForMathlib.Locality

/-!
# Arrays that are written as null

A client may write an empty compact array as null: the length `0` instead of `1`. In
`Request.nullableEncodings` every array of a request that is empty, at any depth, is written in
either way, the skipped ones included, and everything else is as in `Request.encodings`.

`parse_request` computes the number of elements in two ways. Fourteen of its fifteen compact
arrays ask whether the length is zero (`arrayCount`), and for these null is read as empty. The
topics of DescribeTopicPartitions subtract one from the unsigned length without asking, so null
announces `2 ^ 32 - 1` topics (`length_topicNames_of_null`): such a request never parses to the
one without topics, whatever the rest of it is. `Request.nullAsEmpty_iff` is the resulting
condition.
-/

namespace TinyKafka

open ByteReader CursorM

/-- The length of an array of `n` elements, which may be null if there are none. -/
def Wire.nullableLength (n : ℕ) : Language UInt8 :=
  {bs | bs ∈ compactLength n ∨ n = 0 ∧ bs = writeUnsignedVarint 0}

/-- The encodings of a request in which each empty array is empty or null. -/
def Request.nullableEncodings (r : Request) : Language UInt8 := r.encodingsBy Wire.nullableLength

/-- Encodings with nulls are parsed to what the encodings without them are parsed to. -/
def Request.NullAsEmpty (r : Request) : Prop :=
  ∀ (junk : Int32) (bs bs' : Bytes), bs ∈ r.nullableEncodings → bs' ∈ r.encodings →
    parseRequest junk bs = parseRequest junk bs'

namespace Parser

/-! ### Lengths that ask for zero -/

theorem reads_nullLength : Reads readVarint (writeUnsignedVarint 0) 0 :=
  reads_readVarint (by decide)

theorem counted_nullableLength (n : ℕ) : Counted arrayCount (Wire.nullableLength n) n := by
  intro bs hbs
  rcases hbs with hlen | ⟨hn, hnull⟩
  · exact counted_compactLength n bs hlen
  · subst hn hnull
    exact ⟨0, reads_nullLength, arrayCount_eq 0⟩

/-- Without the question the count is right as long as there are elements. -/
theorem counted_nullableLength_sub {n : ℕ} (hn : n ≠ 0) :
    Counted (fun v => (v - 1).toNat) (Wire.nullableLength n) n := by
  intro bs hbs
  rcases hbs with hlen | ⟨hzero, -⟩
  · exact counted_compactLength_sub n bs hlen
  · exact absurd hzero hn

/-! ### The length that does not -/

theorem length_of_readMany {α : Type} {p : Reader α} {n : ℕ} {l : List α} {c c' : Cursor UInt8}
    (h : (readMany p n).runOn c = (.ok l, c')) : l.length = n := by
  induction n generalizing l c with
  | zero =>
    cases h
    rfl
  | succ n ih =>
    obtain ⟨a, c₁, -, hrest⟩ := runOn_bind_eq_ok.mp h
    obtain ⟨as, c₂, has, hpure⟩ := runOn_bind_eq_ok.mp hrest
    cases hpure
    rw [List.length_cons, ih has]

/-- **Null announces `2 ^ 32 - 1` topics.** If the parser accepts a DescribeTopicPartitions
request whose topics are null, it has found as many names. -/
theorem length_topicNames_of_null {h : RequestHeader} {client post : Bytes} {r : Request}
    {pre : Bytes} {c : Cursor UInt8} (hclient : client ∈ Wire.clientId)
    (hrun : (describeTopicPartitions h).runOn
      ⟨pre ++ (client ++ (writeUnsignedVarint 0 ++ post)), pre.length⟩ = (.ok r, c)) :
    ∃ d, r = .describeTopicPartitions d ∧ d.topicNames.length = 2 ^ 32 - 1 := by
  rw [describeTopicPartitions, (decodes_skipClientId client hclient).run_bind,
    reads_nullLength.run_bind] at hrun
  obtain ⟨names, c₁, hnames, hrest⟩ := runOn_bind_eq_ok.mp hrun
  obtain ⟨_, c₂, -, hrest⟩ := runOn_bind_eq_ok.mp hrest
  obtain ⟨_, c₃, -, hrest⟩ := runOn_bind_eq_ok.mp hrest
  obtain ⟨_, c₄, -, hpure⟩ := runOn_bind_eq_ok.mp hrest
  cases hpure
  have hlen := length_of_readMany hnames
  exact ⟨⟨h, names⟩, rfl, hlen⟩

end Parser

/-! ### Null as empty -/

/-- A DescribeTopicPartitions request with null topics does not parse to the one without
topics. -/
theorem parseRequest_nullTopics_ne (junk : Int32) {h : RequestHeader} (hkey : h.apiKey = 75)
    {header client post : Bytes} (hheader : header ∈ Wire.header h)
    (hclient : client ∈ Wire.clientId) :
    parseRequest junk (header ++ (client ++ (writeUnsignedVarint 0 ++ post))) ≠
      .ok (.describeTopicPartitions ⟨h, []⟩) := by
  intro hparse
  have hdescribe : Parser.body junk h = Parser.describeTopicPartitions h := by
    rw [Parser.body, hkey]
    rfl
  have hbody := (Parser.decodes_requestHeader h header hheader).run_bind (Parser.body junk) []
    (client ++ (writeUnsignedVarint 0 ++ post))
  rw [hdescribe] at hbody
  obtain ⟨d, hd, hlen⟩ := Parser.length_topicNames_of_null hclient
    (hbody.symm.trans (Prod.ext hparse rfl))
  cases hd
  cases hlen

section NullTopics

variable (h : RequestHeader)

/-- A DescribeTopicPartitions request without topics and without a cursor, from a client
without an id; `topics` is what is written for the topics. -/
def describeNoTopics (topics : Bytes) : Bytes :=
  (writeInt16Be h.apiKey ++ writeInt16Be h.apiVersion ++ writeInt32Be h.correlationId) ++
    ((writeInt16Be (-1) ++ [0]) ++ (topics ++ ([0, 0, 0, 100] ++ ([0xFF] ++ [0]))))

theorem describeNoTopics_mem {len : ℕ → Language UInt8} {topics : Bytes} (hlen : topics ∈ len 0) :
    describeNoTopics h topics ∈
      Request.encodingsBy len (.describeTopicPartitions ⟨h, []⟩) := by
  have hheader : writeInt16Be h.apiKey ++ writeInt16Be h.apiVersion ++
      writeInt32Be h.correlationId ∈ Wire.header h :=
    Language.append_mem_mul (Language.append_mem_mul rfl rfl) rfl
  have hclient : writeInt16Be (-1) ++ [0] ∈ Wire.clientId :=
    Language.append_mem_mul (.inl rfl) rfl
  refine Language.append_mem_mul hheader (Language.append_mem_mul hclient ?_)
  rw [Wire.describeTopicPartitionsBy, Wire.arrayBy, List.map_nil, List.prod_nil, mul_one, mul_assoc,
    mul_assoc]
  exact Language.append_mem_mul hlen (Language.append_mem_mul rfl
    (Language.append_mem_mul (.inl rfl) rfl))

theorem not_nullAsEmpty_describeNoTopics (hkey : h.apiKey = 75) :
    ¬ Request.NullAsEmpty (.describeTopicPartitions ⟨h, []⟩) := by
  intro hsame
  have hempty : describeNoTopics h (writeUnsignedVarint 1) ∈
      Request.encodings (.describeTopicPartitions ⟨h, []⟩) := by
    rw [← Request.encodingsBy_compactLength]
    exact describeNoTopics_mem h ⟨by decide, rfl⟩
  have hnull : describeNoTopics h (writeUnsignedVarint 0) ∈
      Request.nullableEncodings (.describeTopicPartitions ⟨h, []⟩) :=
    describeNoTopics_mem h (.inr ⟨rfl, rfl⟩)
  have hparse : parseRequest 0 (describeNoTopics h (writeUnsignedVarint 1)) =
      .ok (.describeTopicPartitions ⟨h, []⟩) :=
    congrArg Prod.fst
      (Parser.decodes_encodings 0 (.describeTopicPartitions ⟨h, []⟩) hkey _ hempty).run
  exact parseRequest_nullTopics_ne 0 hkey
    (Language.append_mem_mul (Language.append_mem_mul rfl rfl) rfl)
    (Language.append_mem_mul (.inl rfl) rfl) ((hsame 0 _ _ hnull hempty).trans hparse)

end NullTopics

/-- **Null arrays are read as empty, apart from one.** The encodings of a request with nulls, at
whatever arrays and with whatever content around them, parse to the same request as those
without, unless it is a DescribeTopicPartitions request without topics. -/
theorem Request.nullAsEmpty_iff (r : Request) (hkey : r.header.apiKey = r.kindKey) :
    r.NullAsEmpty ↔ ∀ d, r = .describeTopicPartitions d → d.topicNames ≠ [] := by
  constructor
  · rintro hsame ⟨h, names⟩ rfl hnil
    cases hnil
    exact not_nullAsEmpty_describeNoTopics h hkey hsame
  · intro hnames junk bs bs' hbs hbs'
    have hrequest := Parser.decodes_request Parser.counted_nullableLength junk r hkey
      fun d hd => Parser.counted_nullableLength_sub (mt List.length_eq_zero_iff.mp (hnames d hd))
    have hnull : parseRequest junk bs = .ok r := congrArg Prod.fst (hrequest bs hbs).run
    have hempty : parseRequest junk bs' = .ok r :=
      congrArg Prod.fst (Parser.decodes_encodings junk r hkey bs' hbs').run
    rw [hnull, hempty]

/-- A Produce request with a topic without partitions. -/
def produceNoPartitions : Request := .produce ⟨⟨0, 11, 7⟩, [⟨ascii "t", []⟩]⟩

theorem nullAsEmpty_produceNoPartitions : produceNoPartitions.NullAsEmpty :=
  (Request.nullAsEmpty_iff produceNoPartitions rfl).mpr fun d hd => by cases hd

/-- With key 75, version 0 and correlation id 7: under null topics the parser looks for
`2 ^ 32 - 1` names in the seven bytes that are left. -/
theorem not_nullAsEmpty_nullTopics :
    ¬ Request.NullAsEmpty (.describeTopicPartitions ⟨⟨75, 0, 7⟩, []⟩) :=
  not_nullAsEmpty_describeNoTopics ⟨75, 0, 7⟩ rfl

end TinyKafka
