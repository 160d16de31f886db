import Mathlib.Order.Defs.LinearOrder
import TinyKafka.ForMathlib.KeyedList
import TinyKafka.Storage.PartitionLog

/-!
# The files of a partition and `read_topic_log`

A partition directory is the list of its regular files in the order a directory iterator
yields them; a missing directory has none. Files are created and appended to, never removed,
so a file descriptor is modelled by the name of its file.

`read_topic_log` collects the segment files in a `std::map` keyed by the number in their
name and concatenates them. On a directory of segments with increasing numbers this is the
concatenation in directory order (`readTopicLog_segments`).
-/

namespace TinyKafka

/-- The regular files of a directory: names and contents. -/
abbrev Dir := List (Bytes × Bytes)

namespace Dir

/-- `open` with `O_CREAT`: the file is there afterwards, empty if it was not. -/
def create (d : Dir) (name : Bytes) : Dir := d.upsertKey Prod.fst name id (name, [])

/-- A write to a file opened with `O_APPEND`. -/
def append (d : Dir) (name bytes : Bytes) : Dir :=
  d.updateKey Prod.fst name fun f => (f.1, f.2 ++ bytes)

/-- The content of a file. -/
def read? (d : Dir) (name : Bytes) : Option Bytes := (d.find? (·.1 = name)).map Prod.snd

variable {d : Dir} {name name' : Bytes}

theorem isSome_read? : (d.read? name).isSome ↔ name ∈ d.map Prod.fst := by
  rw [read?, Option.isSome_map, Option.isSome_iff_ne_none, ne_eq, List.find?_key_eq_none, not_not]

theorem read?_append_self (bytes : Bytes) :
    (d.append name bytes).read? name = (d.read? name).map (· ++ bytes) := by
  have hfind : (d.append name bytes).find? (·.1 = name) =
      (d.find? (·.1 = name)).map fun f => (f.1, f.2 ++ bytes) :=
    List.find?_updateKey_self fun _ => rfl
  rw [read?, hfind, read?, Option.map_map, Option.map_map]
  rfl

theorem read?_create_self : (d.create name).read? name = some ((d.read? name).getD []) := by
  have hfind : (d.create name).find? (·.1 = name) =
      some (((d.find? (·.1 = name)).map id).getD (name, [])) :=
    List.find?_upsertKey_self (fun _ => rfl) rfl
  rw [read?, hfind, read?]
  cases d.find? (·.1 = name) <;> rfl

/-- Files are never removed. -/
theorem mem_append (bytes : Bytes) (h : name ∈ d.map Prod.fst) :
    name ∈ (d.append name' bytes).map Prod.fst := by
  have hnames : (d.append name' bytes).map Prod.fst = d.map Prod.fst :=
    List.map_key_updateKey fun _ => rfl
  rwa [hnames]

end Dir

/-- A segment file name: 24 bytes that end in `.log`. -/
def isSegmentName (name : Bytes) : Bool :=
  name.length = 24 ∧ ascii ".log" <:+ name

/-- `segments[std::stoll(name.substr(0, 20))] = entry.path()` for the segment files of a
directory; `none` when `stoll` throws. -/
def collectSegments : Dir → List (Int64 × Bytes) → Option (List (Int64 × Bytes))
  | [], segments => some segments
  | f :: d, segments =>
    if isSegmentName f.1 then
      match stoll (f.1.take 20) with
      | none => none
      | some base => collectSegments d (List.insertKey (fun e => e.1.toInt) (base, f.2) segments)
    else collectSegments d segments

/-- `read_topic_log` on the files of the partition directory. -/
def readTopicLog (d : Dir) : Option Bytes :=
  (collectSegments d []).map fun segments => segments.flatMap Prod.snd

theorem isSegmentName_segmentName (base : Int64) : isSegmentName (segmentName base) = true := by
  have hlen : (segmentName base).length = 24 := by
    rw [segmentName, List.length_append, length_formatOffset]
    rfl
  have hsuffix : ascii ".log" <:+ segmentName base := List.suffix_append _ _
  simp [isSegmentName, hlen, hsuffix]

/-- The files of segments with increasing base offsets are read in their order. -/
theorem readTopicLog_segments {segments : List (Int64 × Bytes)}
    (h : segments.Pairwise fun a b => a.1.toInt < b.1.toInt) :
    readTopicLog (segments.map fun s => (segmentName s.1, s.2)) =
      some (segments.flatMap Prod.snd) := by
  have hcollect : ∀ (l acc : List (Int64 × Bytes)),
      collectSegments (l.map fun s => (segmentName s.1, s.2)) acc =
        some (l.foldl (fun acc s => List.insertKey (fun e => e.1.toInt) s acc) acc) := by
    intro l
    induction l with
    | nil => exact fun acc => rfl
    | cons s l ih =>
      intro acc
      have htake : (segmentName s.1).take 20 = formatOffset s.1 :=
        List.take_left' (length_formatOffset s.1)
      rw [List.map_cons, collectSegments, if_pos (isSegmentName_segmentName s.1)]
      dsimp only
      rw [htake, stoll_formatOffset]
      exact ih _
  rw [readTopicLog, hcollect, List.foldl_insertKey (by simpa using h)]
  rfl

end TinyKafka
