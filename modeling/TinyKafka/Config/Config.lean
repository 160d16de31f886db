import Mathlib.Data.List.Perm.Basic
import TinyKafka.Config.Properties
import TinyKafka.Shard.ShardRouter

/-!
# The configuration

`Config::load` starts from the defaults, applies the entries of the properties file in whatever
order the map is iterated over, and then the arguments of the command line. An option is one
`Setting`: its key, the field it is kept in, and the values it accepts; `Setting.get_load` says
what every option is after loading. A numeric option accepts decimal numerals of positive
numbers that its type can hold, and `log.dirs` accepts everything.

So an argument wins over the file and a later argument over an earlier one, where arguments that
are not accepted do not count; an entry of the file that is not accepted leaves the default
(`Config.load_precedence`). The unsigned types of the fields are bit vectors. Warnings are not
part of the model.
-/

namespace TinyKafka

/-- `std::from_chars` for an unsigned type of `w` bits: the number that the digits at the front
stand for and what is left of the text, or nothing if there is no digit or the number is too
large. -/
def fromChars (w : ℕ) (sv : Bytes) : Option (BitVec w × Bytes) :=
  let digits := sv.takeWhile isDigit
  if digits = [] then none
  else if decimalValue digits < 2 ^ w then
    some (BitVec.ofNat w (decimalValue digits), sv.dropWhile isDigit)
  else none

/-- `parse_int`; zero also stands for a text that is not a number. -/
def parseInt (w : ℕ) (sv : Bytes) : BitVec w :=
  match fromChars w sv with
  | some (result, []) => result
  | _ => 0

/-- `parse_cli_arg`: key and value of an argument, both empty if there is no `=` in it. -/
def parseCliArg (arg : Bytes) : Bytes × Bytes :=
  let arg := if ascii "--" <+: arg then arg.drop 2 else arg
  match arg.findIdx? (· = 61) with
  | none => ([], [])
  | some eqPos => (arg.take eqPos, arg.drop (eqPos + 1))

/-- `Config`. -/
@[ext] structure Config where
  port : BitVec 16 := 9092
  logRoot : Bytes := ascii "/tmp/kraft-combined-logs"
  maxMessageBytes : BitVec 32 := 1048576
  maxWriteBufferBytes : BitVec 64 := 4194304
  segmentBytes : BitVec 64 := 1073741824
  reactorCount : BitVec 64 := 0
  deriving DecidableEq

/-- A numeric option is changed by a number other than zero. -/
def unlessZero {w : ℕ} (parsed old : BitVec w) : BitVec w := if parsed ≠ 0 then parsed else old

namespace Config

/-- `apply_config_key`. -/
def applyConfigKey (config : Config) (key value : Bytes) : Config :=
  if key = ascii "port" then
    { config with port := unlessZero (parseInt 16 value) config.port }
  else if key = ascii "log.dirs" then
    { config with logRoot := value }
  else if key = ascii "max.message.bytes" then
    { config with maxMessageBytes := unlessZero (parseInt 32 value) config.maxMessageBytes }
  else if key = ascii "max.write.buffer.bytes" then
    { config with
      maxWriteBufferBytes := unlessZero (parseInt 64 value) config.maxWriteBufferBytes }
  else if key = ascii "segment.bytes" then
    { config with segmentBytes := unlessZero (parseInt 64 value) config.segmentBytes }
  else if key = ascii "reactor.count" then
    { config with reactorCount := unlessZero (parseInt 64 value) config.reactorCount }
  else config

/-- The turn of `Config::load` for one argument. -/
def applyArg (config : Config) (arg : Bytes) : Config :=
  let (key, value) := parseCliArg arg
  if key ≠ [] then config.applyConfigKey key value else config

/-- The configuration before the file is read; `hardware_concurrency` may be zero. -/
def initial (hardwareConcurrency : BitVec 32) : Config :=
  let config : Config := {}
  let config := if config.reactorCount = 0 then
    { config with reactorCount := hardwareConcurrency.setWidth 64 } else config
  if config.reactorCount = 0 then { config with reactorCount := 1 } else config

/-- The loop over the entries of the properties file. -/
def applyProperties (config : Config) (props : Properties) : Config :=
  props.entries.foldl (fun config e => config.applyConfigKey e.1 e.2) config

/-- `Config::load`. `props` is what `load_properties` returns, with the entries in the order in
which the map is iterated over; an error and an empty path both give nothing. The first
argument is the name of the program. -/
def load (hardwareConcurrency : BitVec 32) (props : Option Properties) (argv : List Bytes) :
    Config :=
  let config := initial hardwareConcurrency
  let config := match props with
    | some props => config.applyProperties props
    | none => config
  argv.tail.foldl applyArg config

end Config

/-! ### Which values count -/

/-- The positive number that a decimal numeral stands for, if it fits into `w` bits. -/
def numeral (w : ℕ) (value : Bytes) : Option (BitVec w) :=
  if value.all isDigit ∧ 0 < decimalValue value ∧ decimalValue value < 2 ^ w then
    some (BitVec.ofNat w (decimalValue value))
  else none

/-- The value that an argument gives to a key, with or without leading dashes. -/
def argValue (key arg : Bytes) : Option Bytes :=
  (arg.dropPrefix? (key ++ ascii "=")).or (arg.dropPrefix? (ascii "--" ++ key ++ ascii "="))

/-- The values that the arguments give to a key, in order. -/
def argValues (key : Bytes) (argv : List Bytes) : List Bytes := argv.tail.filterMap (argValue key)

/-- The last value from the command line that is accepted, or else that of the file if it is
accepted. -/
def chosen {α : Type} (accept : Bytes → Option α) (key : Bytes) (props : Option Properties)
    (argv : List Bytes) : Option α :=
  ((argValues key argv).filterMap accept).getLast?.or ((props.bind (·.find? key)).bind accept)

theorem ne_zero_of_numeral {w : ℕ} {value : Bytes} {v : BitVec w}
    (h : numeral w value = some v) : v ≠ 0 := by
  rw [numeral] at h
  split at h
  · next hvalue =>
    obtain ⟨-, hpos, hlt⟩ := hvalue
    rintro rfl
    have hzero : decimalValue value % 2 ^ w = 0 := by
      simpa using congrArg BitVec.toNat (Option.some.inj h)
    rw [Nat.mod_eq_of_lt hlt] at hzero
    omega
  · cases h

/-- `parse_int` reads the numerals, and everything else as zero. -/
theorem parseInt_eq (w : ℕ) (value : Bytes) : parseInt w value = (numeral w value).getD 0 := by
  rw [parseInt, fromChars]
  by_cases hdigits : value.all isDigit
  · have hmem : ∀ b ∈ value, isDigit b := List.all_eq_true.mp hdigits
    have htake : value.takeWhile isDigit = value := List.takeWhile_eq_self_iff.mpr hmem
    have hdrop : value.dropWhile isDigit = [] := List.dropWhile_eq_nil_iff.mpr hmem
    rw [htake, hdrop]
    rcases Nat.eq_zero_or_pos (decimalValue value) with hzero | hpos
    · rcases value with _ | ⟨b, value⟩ <;> simp [numeral, hzero]
    · have hne : value ≠ [] := by
        rintro rfl
        exact absurd hpos (by decide)
      by_cases hlt : decimalValue value < 2 ^ w
      · rw [if_neg hne, if_pos hlt, numeral, if_pos ⟨hdigits, hpos, hlt⟩]
        rfl
      · rw [if_neg hne, if_neg hlt, numeral, if_neg fun h => hlt h.2.2]
        rfl
  · have hnone : numeral w value = none := if_neg fun h => hdigits h.1
    -- what follows the digits is not empty
    have hdrop : value.dropWhile isDigit ≠ [] := fun h =>
      hdigits (List.all_eq_true.mpr (List.dropWhile_eq_nil_iff.mp h))
    obtain ⟨b, rest, hrest⟩ := List.exists_cons_of_ne_nil hdrop
    rw [hnone, hrest]
    split_ifs <;> rfl

theorem unlessZero_parseInt {w : ℕ} (value : Bytes) (old : BitVec w) :
    unlessZero (parseInt w value) old = (numeral w value).getD old := by
  rw [parseInt_eq, unlessZero]
  rcases h : numeral w value with _ | v
  · rfl
  · exact if_pos (ne_zero_of_numeral h)

/-! ### Arguments -/

/-- A key that an argument can give: not empty, without `=`, and without dashes in front. -/
def PlainKey (key : Bytes) : Prop := key ≠ [] ∧ 61 ∉ key ∧ ¬ ascii "--" <+: key

instance (key : Bytes) : Decidable (PlainKey key) := inferInstanceAs (Decidable (_ ∧ _ ∧ _))

/-- An argument without the dashes in front. -/
def withoutDashes (arg : Bytes) : Bytes := if ascii "--" <+: arg then arg.drop 2 else arg

theorem ascii_equals : ascii "=" = [61] := by decide

theorem dashes_isPrefix {key value : Bytes} (h : ascii "--" <+: key ++ ascii "=" ++ value) :
    ascii "--" <+: key := by
  have hdashes : ascii "--" = [45, 45] := by decide
  rw [hdashes, ascii_equals] at h
  rw [hdashes]
  rcases key with _ | ⟨a, _ | ⟨b, key⟩⟩
  · simp at h
  · simp at h
  · simpa using h

theorem argValue_eq_some_iff {key arg value : Bytes} (hkey : PlainKey key) :
    argValue key arg = some value ↔ withoutDashes arg = key ++ ascii "=" ++ value := by
  have hdrop (p : Bytes) : arg.dropPrefix? p = some value ↔ arg = p ++ value := by
    rw [List.dropPrefix?_eq_some_iff]
    simp
  rw [argValue, Option.or_eq_some_iff, hdrop, hdrop, withoutDashes]
  split
  · next hdashes =>
    obtain ⟨rest, rfl⟩ := hdashes
    have hne (v : Bytes) : ascii "--" ++ rest ≠ key ++ ascii "=" ++ v := fun h =>
      hkey.2.2 (dashes_isPrefix ⟨rest, h⟩)
    have hnone : (ascii "--" ++ rest).dropPrefix? (key ++ ascii "=") = none := by
      rw [Option.eq_none_iff_forall_ne_some]
      intro v hv
      obtain ⟨p, hp, hbeq⟩ := List.dropPrefix?_eq_some_iff.mp hv
      exact hne v (eq_of_beq hbeq ▸ hp)
    rw [List.drop_left' (by decide), hnone, List.append_assoc (ascii "--"),
      List.append_assoc (ascii "--"), List.append_cancel_left_eq]
    exact ⟨fun h => h.elim (fun h => absurd h (hne value)) And.right, fun h => .inr ⟨rfl, h⟩⟩
  · next hdashes =>
    refine ⟨fun h => h.resolve_right fun hdashed => hdashes ?_, .inl⟩
    rw [hdashed.2, List.append_assoc (ascii "--"), List.append_assoc (ascii "--")]
    exact List.prefix_append _ _

theorem parseCliArg_eq_iff {key arg value : Bytes} (hkey : PlainKey key) :
    parseCliArg arg = (key, value) ↔ withoutDashes arg = key ++ ascii "=" ++ value := by
  rw [parseCliArg, ← withoutDashes]
  generalize withoutDashes arg = arg
  constructor
  · intro h
    split at h
    · exact absurd (congrArg Prod.fst h).symm hkey.1
    · next eqPos hfind =>
      rw [Prod.mk.injEq] at h
      obtain ⟨hpos, hget, -⟩ := List.findIdx?_eq_some_iff_getElem.mp hfind
      have hequals : arg[eqPos] = 61 := by simpa using hget
      rw [← h.1, ← h.2]
      calc arg = arg.take eqPos ++ arg.drop eqPos := (List.take_append_drop eqPos arg).symm
        _ = arg.take eqPos ++ 61 :: arg.drop (eqPos + 1) := by
          rw [List.drop_eq_getElem_cons hpos, hequals]
        _ = arg.take eqPos ++ ascii "=" ++ arg.drop (eqPos + 1) := by
          rw [ascii_equals, List.append_assoc]
          rfl
  · rintro rfl
    have hfind : (key ++ ascii "=" ++ value).findIdx? (· = 61) = some key.length := by
      have hnone : key.findIdx? (· = 61) = none := by
        rw [List.findIdx?_eq_none_iff]
        intro b hb
        exact decide_eq_false fun heq => hkey.2.1 (heq ▸ hb)
      rw [List.append_assoc, List.findIdx?_append, hnone, ascii_equals]
      simp [List.findIdx?_cons]
    rw [hfind, ascii_equals]
    simp

theorem argValue_eq {key : Bytes} (hkey : PlainKey key) (arg : Bytes) :
    argValue key arg =
      if (parseCliArg arg).1 = key then some (parseCliArg arg).2 else none := by
  ext value
  rw [argValue_eq_some_iff hkey, ← parseCliArg_eq_iff hkey]
  rcases parseCliArg arg with ⟨k, v⟩
  by_cases hk : k = key <;> simp [hk]

/-! ### Options -/

namespace Config

/-- An option: the key it is set by, the field it is kept in and the values it accepts. Nothing
but an accepted value under its key changes it. -/
structure Setting (α : Type) where
  key : Bytes
  get : Config → α
  accept : Bytes → Option α
  plain : PlainKey key
  get_apply : ∀ config value,
    get (config.applyConfigKey key value) = (accept value).getD (get config)
  get_apply_of_ne : ∀ config k value, k ≠ key → get (config.applyConfigKey k value) = get config

namespace Setting

/-- An option that is a number of `w` bits. -/
def numeric (w : ℕ) (key : Bytes) (get : Config → BitVec w) (plain : PlainKey key)
    (apply : ∀ config value, get (config.applyConfigKey key value) =
      unlessZero (parseInt w value) (get config))
    (apply_of_ne : ∀ config k value, k ≠ key → get (config.applyConfigKey k value) = get config) :
    Setting (BitVec w) where
  key := key
  get := get
  accept := numeral w
  plain := plain
  get_apply config value := (apply config value).trans (unlessZero_parseInt value _)
  get_apply_of_ne := apply_of_ne

/-- `port`. -/
def port : Setting (BitVec 16) :=
  numeric 16 (ascii "port") Config.port (by decide)
    (fun _ _ => rfl)
    fun config k value hk => by
      simp only [applyConfigKey, if_neg hk]
      split_ifs <;> rfl

/-- `log.dirs`. -/
def logRoot : Setting Bytes where
  key := ascii "log.dirs"
  get := Config.logRoot
  accept := some
  plain := by decide
  get_apply _ _ := rfl
  get_apply_of_ne config k value hk := by
    simp only [applyConfigKey, if_neg hk]
    split_ifs <;> rfl

/-- `max.message.bytes`. -/
def maxMessageBytes : Setting (BitVec 32) :=
  numeric 32 (ascii "max.message.bytes") Config.maxMessageBytes (by decide)
    (fun _ _ => rfl)
    fun config k value hk => by
      simp only [applyConfigKey, if_neg hk]
      split_ifs <;> rfl

/-- `max.write.buffer.bytes`. -/
def maxWriteBufferBytes : Setting (BitVec 64) :=
  numeric 64 (ascii "max.write.buffer.bytes") Config.maxWriteBufferBytes (by decide)
    (fun _ _ => rfl)
    fun config k value hk => by
      simp only [applyConfigKey, if_neg hk]
      split_ifs <;> rfl

/-- `segment.bytes`. -/
def segmentBytes : Setting (BitVec 64) :=
  numeric 64 (ascii "segment.bytes") Config.segmentBytes (by decide)
    (fun _ _ => rfl)
    fun config k value hk => by
      simp only [applyConfigKey, if_neg hk]
      split_ifs <;> rfl

/-- `reactor.count`. -/
def reactorCount : Setting (BitVec 64) :=
  numeric 64 (ascii "reactor.count") Config.reactorCount (by decide)
    (fun _ _ => rfl)
    fun config k value hk => by
      simp only [applyConfigKey, if_neg hk]
      split_ifs <;> rfl

variable {α : Type} (x : Setting α)

theorem get_applyArg (config : Config) (arg : Bytes) :
    x.get (config.applyArg arg) = ((argValue x.key arg).bind x.accept).getD (x.get config) := by
  rw [argValue_eq x.plain, applyArg]
  rcases parseCliArg arg with ⟨k, value⟩
  dsimp only
  by_cases hk : k = x.key
  · rw [if_pos hk, hk, if_pos x.plain.1, x.get_apply]
    rfl
  · rw [if_neg hk]
    split
    · exact x.get_apply_of_ne config k value hk
    · rfl

/-- What the file does to an option, in whatever order its entries are applied. -/
theorem get_applyProperties (config : Config) (props : Properties) :
    x.get (config.applyProperties props) =
      ((props.find? x.key).bind x.accept).getD (x.get config) := by
  have hstep (config : Config) (e : Bytes × Bytes) :
      x.get (config.applyConfigKey e.1 e.2) =
        (if e.1 = x.key then x.accept e.2 else none).getD (x.get config) := by
    split
    · next hk => rw [hk, x.get_apply]
    · next hk => exact x.get_apply_of_ne config e.1 e.2 hk
  rw [applyProperties, List.foldl_assign (V := x.get) hstep,
    List.filterMap_key props.nodup fun e => x.accept e.2, Properties.find?]
  generalize props.entries.find? _ = found
  rcases found with _ | e
  · rfl
  · rw [Option.bind_some, Option.map_some, Option.bind_some]
    rcases x.accept e.2 with _ | a <;> rfl

/-- What an option is after loading. -/
theorem get_load (hardwareConcurrency : BitVec 32) (props : Option Properties)
    (argv : List Bytes) :
    x.get (load hardwareConcurrency props argv) =
      (chosen x.accept x.key props argv).getD (x.get (initial hardwareConcurrency)) := by
  have hfile : x.get (match props with
      | some props => (initial hardwareConcurrency).applyProperties props
      | none => initial hardwareConcurrency) =
      ((props.bind (·.find? x.key)).bind x.accept).getD (x.get (initial hardwareConcurrency)) := by
    rcases props with _ | props
    · rfl
    · exact x.get_applyProperties _ props
  unfold load
  rw [List.foldl_assign (V := x.get) x.get_applyArg, hfile, chosen, argValues,
    List.filterMap_filterMap, Option.getD_or]

/-- In a file the last line for a key counts, and if its value is not accepted no other line
does; on the command line it is the last value that is accepted. -/
theorem get_load_of_content {content : Bytes} {loaded props : Properties}
    (hloaded : loadProperties (some content) = some loaded)
    (hprops : props.entries.Perm loaded.entries) (hardwareConcurrency : BitVec 32)
    (argv : List Bytes) :
    x.get (load hardwareConcurrency (some props) argv) =
      (((argValues x.key argv).filterMap x.accept).getLast?.or
        (((content.splitOn 10).filterMap (Properties.valueInLine x.key)).getLast?.bind
          x.accept)).getD (x.get (initial hardwareConcurrency)) := by
  have hcontent : loaded = Properties.ofContent content := (Option.some.inj hloaded).symm
  rw [x.get_load, chosen, Option.bind_some, ← Properties.find?_ofContent,
    Properties.find?_of_perm hprops, hcontent]

end Setting

/-! ### Precedence -/

/-- The value of every option, in terms of the arguments, the entries of the file and the
defaults. -/
structure ByPrecedence (hardwareConcurrency : BitVec 32) (props : Option Properties)
    (argv : List Bytes) (config : Config) : Prop where
  port : config.port = (chosen (numeral 16) (ascii "port") props argv).getD 9092
  logRoot : config.logRoot =
    (chosen some (ascii "log.dirs") props argv).getD (ascii "/tmp/kraft-combined-logs")
  maxMessageBytes : config.maxMessageBytes =
    (chosen (numeral 32) (ascii "max.message.bytes") props argv).getD 1048576
  maxWriteBufferBytes : config.maxWriteBufferBytes =
    (chosen (numeral 64) (ascii "max.write.buffer.bytes") props argv).getD 4194304
  segmentBytes : config.segmentBytes =
    (chosen (numeral 64) (ascii "segment.bytes") props argv).getD 1073741824
  reactorCount : config.reactorCount =
    (chosen (numeral 64) (ascii "reactor.count") props argv).getD
      (if hardwareConcurrency = 0 then 1 else hardwareConcurrency.setWidth 64)

/-- The numbers that must not be zero; in particular routing does not divide by zero. -/
structure Usable (config : Config) : Prop where
  port : config.port ≠ 0
  maxMessageBytes : config.maxMessageBytes ≠ 0
  maxWriteBufferBytes : config.maxWriteBufferBytes ≠ 0
  segmentBytes : config.segmentBytes ≠ 0
  reactorCount : config.reactorCount ≠ 0
  route : ∀ hash topicName partition,
    routeAmong config.reactorCount.toNat hash topicName partition ≠ none

theorem chosen_getD_ne_zero {w : ℕ} {key : Bytes} {props : Option Properties}
    {argv : List Bytes} {default : BitVec w} (hdefault : default ≠ 0) :
    (chosen (numeral w) key props argv).getD default ≠ 0 := by
  rcases hchosen : chosen (numeral w) key props argv with _ | v
  · exact hdefault
  · rw [chosen, Option.or_eq_some_iff] at hchosen
    obtain hlast | ⟨-, hfile⟩ := hchosen
    · obtain ⟨value, -, hvalue⟩ := List.mem_filterMap.mp (List.mem_of_getLast? hlast)
      exact ne_zero_of_numeral hvalue
    · obtain ⟨value, -, hvalue⟩ := Option.bind_eq_some_iff.mp hfile
      exact ne_zero_of_numeral hvalue

theorem setWidth_eq_zero_iff (x : BitVec 32) : x.setWidth 64 = 0 ↔ x = 0 := by
  rw [← BitVec.toNat_inj, ← BitVec.toNat_inj, BitVec.toNat_setWidth_of_le (by decide)]
  rfl

theorem initial_eq (hardwareConcurrency : BitVec 32) :
    initial hardwareConcurrency =
      { reactorCount :=
          if hardwareConcurrency = 0 then 1 else hardwareConcurrency.setWidth 64 } := by
  simp only [initial, if_true, setWidth_eq_zero_iff]
  split <;> rfl

theorem byPrecedence_load (hardwareConcurrency : BitVec 32) (props : Option Properties)
    (argv : List Bytes) :
    ByPrecedence hardwareConcurrency props argv (load hardwareConcurrency props argv) := by
  have hload {α : Type} (x : Setting α) := x.get_load hardwareConcurrency props argv
  rw [initial_eq] at hload
  exact ⟨hload .port, hload .logRoot, hload .maxMessageBytes, hload .maxWriteBufferBytes,
    hload .segmentBytes, hload .reactorCount⟩

theorem usable_load (hardwareConcurrency : BitVec 32) (props : Option Properties)
    (argv : List Bytes) : (load hardwareConcurrency props argv).Usable := by
  have hload := byPrecedence_load hardwareConcurrency props argv
  have hcount : (load hardwareConcurrency props argv).reactorCount ≠ 0 := by
    rw [hload.reactorCount]
    refine chosen_getD_ne_zero ?_
    split
    · decide
    · next hhardware => exact fun hzero => hhardware ((setWidth_eq_zero_iff _).mp hzero)
  refine ⟨?_, ?_, ?_, ?_, hcount, fun hash topicName partition => ?_⟩
  · rw [hload.port]
    exact chosen_getD_ne_zero (by decide)
  · rw [hload.maxMessageBytes]
    exact chosen_getD_ne_zero (by decide)
  · rw [hload.maxWriteBufferBytes]
    exact chosen_getD_ne_zero (by decide)
  · rw [hload.segmentBytes]
    exact chosen_getD_ne_zero (by decide)
  · rw [Ne, routeAmong_eq_none_iff]
    exact fun hzero => hcount (BitVec.eq_of_toNat_eq hzero)

/-- The order in which the map is iterated over does not matter. -/
theorem load_of_perm {props props' : Properties} (h : props.entries.Perm props'.entries)
    (hardwareConcurrency : BitVec 32) (argv : List Bytes) :
    load hardwareConcurrency (some props) argv = load hardwareConcurrency (some props') argv := by
  have hget {α : Type} (x : Setting α) : x.get (load hardwareConcurrency (some props) argv) =
      x.get (load hardwareConcurrency (some props') argv) := by
    rw [x.get_load, x.get_load, chosen, chosen, Option.bind_some, Option.bind_some,
      Properties.find?_of_perm h]
  exact Config.ext (hget .port) (hget .logRoot) (hget .maxMessageBytes)
    (hget .maxWriteBufferBytes) (hget .segmentBytes) (hget .reactorCount)

/-- Whatever the file and the arguments are, every option has its value by precedence, the
configuration can be used, and the order in which the entries of the file are applied does not
matter. -/
theorem load_precedence (hardwareConcurrency : BitVec 32) (props : Option Properties)
    (argv : List Bytes) :
    ByPrecedence hardwareConcurrency props argv (load hardwareConcurrency props argv) ∧
      (load hardwareConcurrency props argv).Usable ∧
      ∀ p ∈ props, ∀ p' : Properties, p.entries.Perm p'.entries →
        load hardwareConcurrency (some p') argv = load hardwareConcurrency props argv := by
  refine ⟨byPrecedence_load _ _ _, usable_load _ _ _, ?_⟩
  rintro p rfl p' h
  exact load_of_perm h.symm hardwareConcurrency argv

example : load 0
    (loadProperties (some (ascii "port = 1111\r\n# x\nlog.dirs=/file/path\nsegment.bytes=abc\n")))
    [ascii "./kafka", ascii "--port=2222", ascii "port=0", ascii "--max.message.bytes=007"] =
      { port := 2222, logRoot := ascii "/file/path", maxMessageBytes := 7, reactorCount := 1 } := by
  decide +kernel

end Config

end TinyKafka
