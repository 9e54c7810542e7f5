/-! TOML values. A document is a table; how a table came about decides who may still
add to it. A table with a header of its own is closed to dotted keys from outside,
a table that only the headers or keys of deeper ones imply is open to its own
header or to further keys, and a table in braces is closed altogether. -/

namespace EndpointCatalog.Toml

/-- How a table came about. -/
inductive Origin
  | header
  | deeperHeader
  | dottedKey
  | braces
  deriving DecidableEq, Repr

/-- Numbers with a fraction and points in time are read, but their value is dropped. -/
inductive Value
  | string (s : String)
  | integer (n : Int)
  | float
  | boolean (b : Bool)
  | time
  | array (items : List Value)
  | table (origin : Origin) (fields : List (String × Value))
  /-- The tables of an array that has a header for each of them. -/
  | tables (items : List (List (String × Value)))

abbrev Fields := List (String × Value)

namespace Fields

/-- Replaces the value of a key that is present. -/
def replace (fields : Fields) (key : String) (v : Value) : Fields :=
  fields.map fun f => if f.1 = key then (key, v) else f

/-- A change of a table, which sees how the table came about and may refuse. -/
abbrev Change := Origin → Fields → Option Fields

/-- Descends along keys and changes the table at the end of them. Tables on the way
are made as needed, of the origin `made`; a dotted key passes through implied
tables only, and the last table of an array stands for the array. -/
def changeAt (made : Origin) (change : Change) : List String → Change
  | [], origin, fields => change origin fields
  | key :: rest, _, fields =>
    match fields.lookup key with
    | none => do
      let sub ← changeAt made change rest made []
      return fields ++ [(key, .table made sub)]
    | some (.table .braces _) => none
    | some (.table origin sub) =>
      if made = .dottedKey ∧ origin = .header then none
      else do
        let sub ← changeAt made change rest origin sub
        return fields.replace key (.table origin sub)
    | some (.tables items) => do
      let last ← changeAt made change rest .header (items.getLastD [])
      return fields.replace key (.tables (items.dropLast ++ [last]))
    | some _ => none

/-- Adds a value under a key, at the end of dotted keys if `dotted`; those end only at
a table that dotted keys have made. -/
def add (dotted : Bool) (key : String) (v : Value) : Change := fun origin fields =>
  if dotted ∧ origin ≠ .dottedKey then none
  else if (fields.lookup key).isSome then none
  else some (fields ++ [(key, v)])

/-- Adds a value under a key given by its dotted pieces. -/
def addKey (key : List String) (v : Value) : Change :=
  let path := key.dropLast
  changeAt .dottedKey (add (!path.isEmpty) (key.getLastD "") v) path

/-- Opens a table under a header that ends in the given key. -/
def openTable (key : String) : Change := fun _ fields =>
  match fields.lookup key with
  | none => some (fields ++ [(key, .table .header [])])
  | some (.table .deeperHeader sub) => some (fields.replace key (.table .header sub))
  | some _ => none

/-- Adds a table to the array under a header that ends in the given key. -/
def openArrayTable (key : String) : Change := fun _ fields =>
  match fields.lookup key with
  | none => some (fields ++ [(key, .tables [[]])])
  | some (.tables items) => some (fields.replace key (.tables (items ++ [[]])))
  | some _ => none

/-- Makes a change below the table of a header. -/
def below (header : List String) (change : Change) (fields : Fields) : Option Fields :=
  changeAt .deeperHeader change header .header fields

end Fields

end EndpointCatalog.Toml
