import Checkup.Toml.Value

/-!
# Building tables

Tables grow from dotted keys, from headers and from headers of array elements.
How a table came about decides what may be added to it later:

* a table made by a dotted key takes further dotted keys, but no header;
* a table only implied by a deeper header may still be opened by a header of
  its own, once; it then moves behind its siblings;
* a table opened by a header, and an inline table, take no dotted keys.

`Table.addPair` and `Table.addSection` refuse everything else.
-/

namespace Checkup.Toml

/-- How a table came about. -/
inductive Origin where
  /-- by a dotted key -/
  | dotted
  /-- by a header of a deeper table -/
  | implied
  /-- by a header of its own -/
  | opened
  deriving DecidableEq, Repr

/-- A part of a document under construction. -/
inductive Node where
  /-- a finished value, an inline table too -/
  | value (v : Value)
  /-- a table that may grow -/
  | table (origin : Origin) (entries : List (String × Node))
  /-- tables that are elements of an array, oldest first -/
  | elements (tables : List Node)
  deriving Inhabited

/-- A table under construction. -/
abbrev Table := List (String × Node)

namespace Table

/-! ## Finished values -/

mutual

/-- The value of a finished part. -/
def finishNode : Node → Value
  | .value v => v
  | .table _ entries => .table (finishEntries entries)
  | .elements tables => .array (finishNodes tables)

/-- The entries of a finished table. -/
def finishEntries : List (String × Node) → Entries
  | [] => []
  | (key, node) :: rest => (key, finishNode node) :: finishEntries rest

/-- The elements of a finished array of tables. -/
def finishNodes : List Node → List Value
  | [] => []
  | node :: rest => finishNode node :: finishNodes rest

end

/-! ## Changing a table at a key -/

/-- The part at a key. -/
def get? (t : Table) (key : String) : Option Node :=
  (t.find? fun e => e.1 = key).map Prod.snd

/-- There is nothing at a key that no entry has. -/
theorem get?_of_notMem {t : Table} {key : String} (h : key ∉ t.map Prod.fst) :
    t.get? key = none := by
  rw [Table.get?, List.find?_eq_none.mpr]
  · rfl
  · intro e he
    rw [decide_eq_true_eq]
    rintro rfl
    exact h (List.mem_map_of_mem he)

/-- Replaces the part at a known key where it stands; a new key goes last. -/
def set (key : String) (node : Node) : Table → Table
  | [] => [(key, node)]
  | (k, old) :: rest => if k = key then (k, node) :: rest else (k, old) :: set key node rest

/-- The table without a key. -/
def erase (t : Table) (key : String) : Table := t.filter fun e => e.1 ≠ key

/-- Changes the last of the tables of an array. -/
def onLastElement (change : Table → Option Table) : List Node → Option (List Node)
  | [] => none
  | [.table origin entries] => (change entries).map fun t => [.table origin t]
  | [_] => none
  | node :: rest => (onLastElement change rest).map (node :: ·)

/-! ## Dotted keys -/

/-- Adds a value under a dotted key. All tables on the way are made by dotted
keys, or implied; the one that gets the value was made by a dotted key. -/
def addPair (value : Value) (t : Table) : (path : List String) → Option Table
  | [] => none
  | [key] =>
    match t.get? key with
    | some _ => none
    | none => some (t ++ [(key, .value value)])
  | key :: path =>
    let last := path.length = 1
    match t.get? key with
    | none => (addPair value [] path).map fun sub => t ++ [(key, .table .dotted sub)]
    | some (.table origin sub) =>
      if origin = .opened ∨ (last ∧ origin ≠ .dotted) then none
      else (addPair value sub path).map fun sub => t.set key (.table origin sub)
    | some (.elements tables) =>
      if last then none
      else
        (onLastElement (fun sub => addPair value sub path) tables).map fun tables =>
          t.set key (.elements tables)
    | some (.value _) => none

/-- Adds key-value pairs in order. -/
def addPairs (t : Table) (pairs : List (List String × Value)) : Option Table :=
  pairs.foldlM (fun t (path, value) => addPair value t path) t

/-! ## Sections -/

/-- What a header opens. -/
inductive Header where
  /-- a table -/
  | table
  /-- a further element of an array of tables -/
  | element
  deriving DecidableEq, Repr

/-- Adds the pairs below a header to the table that the header names. -/
def addSection (header : Header) (pairs : List (List String × Value)) (t : Table) :
    (path : List String) → Option Table
  | [] => none
  | [key] =>
    match header, t.get? key with
    | .table, none => (addPairs [] pairs).map fun sub => t ++ [(key, .table .opened sub)]
    | .table, some (.table .implied sub) =>
      (addPairs sub pairs).map fun sub => t.erase key ++ [(key, .table .opened sub)]
    | .table, some _ => none
    | .element, none =>
      (addPairs [] pairs).map fun sub => t ++ [(key, .elements [.table .opened sub])]
    | .element, some (.elements tables) =>
      (addPairs [] pairs).map fun sub =>
        t.set key (.elements (tables ++ [.table .opened sub]))
    | .element, some _ => none
  | key :: path =>
    match t.get? key with
    | none => (addSection header pairs [] path).map fun sub => t ++ [(key, .table .implied sub)]
    | some (.table origin sub) =>
      (addSection header pairs sub path).map fun sub => t.set key (.table origin sub)
    | some (.elements tables) =>
      (onLastElement (fun sub => addSection header pairs sub path) tables).map fun tables =>
        t.set key (.elements tables)
    | some (.value _) => none

end Table

end Checkup.Toml
