import Mathlib.Data.List.DropRight
import TinyKafka.ForMathlib.KeyedList
import TinyKafka.Util.Decimal

/-!
# Properties files

`load_properties` reads lines `key = value` into an unordered map. A `Properties` value is such
a map together with the order in which it is iterated over, which the program cannot rely on;
no key occurs twice. `Properties.find?_ofContent`: a later line for the same key wins, whatever
its value.
-/

namespace TinyKafka

/-- `Properties`, an `unordered_map`, with its entries in the order of iteration. -/
structure Properties where
  entries : List (Bytes × Bytes)
  nodup : (entries.map Prod.fst).Nodup

namespace Properties

/-- The value under a key. -/
def find? (props : Properties) (key : Bytes) : Option Bytes :=
  (props.entries.find? (·.1 = key)).map Prod.snd

/-- The map without entries. -/
def empty : Properties := ⟨[], List.nodup_nil⟩

/-- The entries after an assignment; a new key is put at the end. -/
def assign (entries : List (Bytes × Bytes)) (key value : Bytes) : List (Bytes × Bytes) :=
  entries.upsertKey Prod.fst key (fun e => (e.1, value)) (key, value)

theorem nodup_assign {entries : List (Bytes × Bytes)} (h : (entries.map Prod.fst).Nodup)
    (key value : Bytes) : ((assign entries key value).map Prod.fst).Nodup := by
  have hcases := List.map_key_upsertKey (l := entries) (k := key) (f := fun e => (e.1, value))
    (fun _ => rfl) (rfl : (key, value).1 = key)
  rcases hcases with heq | ⟨hnew, heq⟩ <;> rw [assign, heq]
  · exact h
  · exact h.append (List.nodup_singleton key) (by simpa using hnew)

/-- `insert_or_assign`. -/
def insertOrAssign (props : Properties) (key value : Bytes) : Properties :=
  ⟨assign props.entries key value, nodup_assign props.nodup key value⟩

theorem find?_insertOrAssign (props : Properties) (key value k : Bytes) :
    (props.insertOrAssign key value).find? k = if key = k then some value else props.find? k := by
  change ((assign props.entries key value).find? (·.1 = k)).map Prod.snd = _
  split
  · next hk =>
    have hself : (assign props.entries key value).find? (·.1 = key) =
        some (((props.entries.find? (·.1 = key)).map fun e => (e.1, value)).getD (key, value)) :=
      List.find?_upsertKey_self (fun _ => rfl) rfl
    rw [← hk, hself]
    generalize props.entries.find? _ = found
    rcases found with _ | e <;> rfl
  · next hk =>
    have hother : (assign props.entries key value).find? (·.1 = k) =
        props.entries.find? (·.1 = k) :=
      List.find?_upsertKey_of_ne (fun _ => rfl) rfl (Ne.symm hk)
    rw [hother]
    rfl

theorem find?_of_perm {props props' : Properties} (h : props.entries.Perm props'.entries)
    (key : Bytes) : props.find? key = props'.find? key := by
  have hentry : props'.entries.find? (·.1 = key) = props.entries.find? (·.1 = key) :=
    List.find?_key_of_perm props.nodup h
  rw [find?, find?, hentry]

end Properties

/-- `trim`. -/
def trim (sv : Bytes) : Bytes := (sv.dropWhile isSpace).rdropWhile isSpace

/-- The assignment in a line of a properties file. Blank lines, comments and lines without `=`
or without a key are skipped. -/
def parseLine (line : Bytes) : Option (Bytes × Bytes) :=
  let line := if line.getLast? = some 13 then line.dropLast else line
  let trimmed := trim line
  if trimmed = [] ∨ trimmed.head? = some 35 then none
  else
    match trimmed.findIdx? (· = 61) with
    | none => none
    | some eqPos =>
      let key := trim (trimmed.take eqPos)
      if key = [] then none else some (key, trim (trimmed.drop (eqPos + 1)))

namespace Properties

/-- The loop of `load_properties` over the lines of the file. `getline` does not give an empty
line after the last newline, and here it is skipped. -/
def ofContent (content : Bytes) : Properties :=
  (content.splitOn 10).foldl
    (fun props line =>
      match parseLine line with
      | some (key, value) => props.insertOrAssign key value
      | none => props)
    empty

/-- The value that a line gives to a key. -/
def valueInLine (key line : Bytes) : Option Bytes :=
  (parseLine line).bind fun e => if e.1 = key then some e.2 else none

/-- A key has the value of the last line that assigns to it. -/
theorem find?_ofContent (content key : Bytes) :
    (ofContent content).find? key =
      ((content.splitOn 10).filterMap (valueInLine key)).getLast? := by
  have hline (props : Properties) (line : Bytes) :
      (match parseLine line with
        | some (k, value) => props.insertOrAssign k value
        | none => props).find? key =
        ((valueInLine key line).map some).getD (props.find? key) := by
    rw [valueInLine]
    rcases parseLine line with _ | ⟨k, value⟩
    · rfl
    · rw [find?_insertOrAssign, Option.bind_some]
      split <;> rfl
  rw [ofContent, List.foldl_assign (V := fun props : Properties => props.find? key) hline,
    ← List.map_filterMap, List.getLast?_map]
  rcases ((content.splitOn 10).filterMap (valueInLine key)).getLast? with _ | value <;> rfl

end Properties

/-- `load_properties`, from the content of the file if it can be opened. -/
def loadProperties (file : Option Bytes) : Option Properties := file.map Properties.ofContent

end TinyKafka
