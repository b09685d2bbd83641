import StyleGuide.Toml.Value

/-!
# Documents of TOML

A document is a list of lines: keys with values, and headers that say which table the keys behind
them belong to. A table may be headed once, an array of tables once for each of its tables. Dotted
keys add only to tables that dotted keys have made.

## Main definitions

* `Toml.Node`, `Toml.Table`: tables that are being written, with what may still be added to them.
* `Toml.parse?`: the fields that a document holds.
-/

namespace StyleGuide.Toml

/-- How a table came to be. -/
inductive Origin where
  /-- It is the root, or has a header of its own. -/
  | headed
  /-- It stands on the way to a table with a header. -/
  | implied
  /-- It stands on the way to a dotted key. -/
  | dotted
deriving DecidableEq

/-- What a key of a table that is being written holds. -/
inductive Node where
  | value (v : Toml)
  | table (origin : Origin) (fields : List (String × Node))
  /-- An array of tables, last first. -/
  | tables (items : List (List (String × Node)))

/-- The fields of a table that is being written. -/
abbrev Table := List (String × Node)

namespace Node

mutual

/-- The value once nothing is added any more. -/
def close : Node → Toml
  | value v => v
  | table _ fields => .table (closeFields fields)
  | tables items => .array (closeItems items [])

/-- The fields once nothing is added any more. -/
def closeFields : List (String × Node) → List (String × Toml)
  | [] => []
  | (k, n) :: rest => (k, n.close) :: closeFields rest

/-- The tables of an array, first first. -/
def closeItems : List (List (String × Node)) → List Toml → List Toml
  | [], done => done
  | fields :: rest, done => closeItems rest (.table (closeFields fields) :: done)

end

end Node

namespace Table

/-- Put a field in place of the one of that name, or at the end. -/
def replace (k : String) (n : Node) : Table → Table
  | [] => [(k, n)]
  | (j, old) :: rest => if j = k then (k, n) :: rest else (j, old) :: replace k n rest

/-- Change the table that the keys lead to, and say how it came to be. Keys that lead nowhere yet
make tables. Of an array of tables the last one is meant. Where dotted keys lead, a table with a
header is closed. -/
def change (made : Origin) (f : Origin → Table → Option Table) :
    List String → Origin → Table → Option Table
  | [], origin, t => f origin t
  | k :: path, _, t =>
    match t.lookup k with
    | none => (change made f path made []).map fun inner => t ++ [(k, .table made inner)]
    | some (.value _) => none
    | some (.table origin inner) =>
      if made = .dotted ∧ origin = .headed then none
      else (change made f path origin inner).map fun inner => replace k (.table origin inner) t
    | some (.tables []) => none
    | some (.tables (last :: others)) =>
      (change made f path .headed last).map fun last => replace k (.tables (last :: others)) t

/-- Set a key with all its parts, from the table whose header was read last. -/
def setKey (v : Toml) (path : List String) (t : Table) : Option Table := do
  let k ← path.getLast?
  let set := fun (origin : Origin) (t : Table) =>
    if (path.length > 1 ∧ origin ≠ .dotted) ∨ (t.lookup k).isSome then none
    else some (t ++ [(k, Node.value v)])
  change .dotted set path.dropLast .headed t

end Table

/-- A document that is being read. The table whose header was read last is kept apart. -/
structure Progress where
  root : Table
  /-- The keys of the last header; none before the first one. -/
  path : List String
  /-- Whether that header starts a table of an array. -/
  ofArray : Bool
  present : Table

namespace Progress

/-- Put the present table where its header says. -/
def settle (p : Progress) : Option Table :=
  match p.path.getLast? with
  | none => some p.present
  | some k =>
    let insert := fun (_ : Origin) (t : Table) =>
      if p.ofArray then
        match t.lookup k with
        | some (.tables items) => some (Table.replace k (.tables (p.present :: items)) t)
        | none => some (t ++ [(k, .tables [p.present])])
        | some _ => none
      else
        match t.lookup k with
        | none => some (t ++ [(k, .table .headed p.present)])
        | some _ => none
    Table.change .implied insert p.path.dropLast .headed p.root

/-- A header `[path]`. A table that stood on the way to others keeps what it has. -/
def startTable (p : Progress) (path : List String) : Option Progress := do
  let root ← p.settle
  let k ← path.getLast?
  let parent ← seek path.dropLast root
  match parent.lookup k with
  | none =>
    let root ← Table.change .implied (fun _ t => some t) path.dropLast .headed root
    pure ⟨root, path, false, []⟩
  | some (.table .implied fields) =>
    let remove := fun (_ : Origin) (t : Table) => some (t.filter fun e => e.1 ≠ k)
    let root ← Table.change .implied remove path.dropLast .headed root
    pure ⟨root, path, false, fields⟩
  | some _ => none
where
  /-- The fields of the table that keys lead to. -/
  seek : List String → Table → Option Table
    | [], t => some t
    | k :: path, t =>
      match t.lookup k with
      | none => some []
      | some (.value _) => none
      | some (.table _ inner) => seek path inner
      | some (.tables []) => none
      | some (.tables (last :: _)) => seek path last

/-- A header `[[path]]`. -/
def startItem (p : Progress) (path : List String) : Option Progress := do
  let root ← p.settle
  let k ← path.getLast?
  let check := fun (_ : Origin) (t : Table) =>
    match t.lookup k with
    | none => some t
    | some (.tables _) => some t
    | some _ => none
  let root ← Table.change .implied check path.dropLast .headed root
  pure ⟨root, path, true, []⟩

end Progress

/-- Read a document from the start of a line. The fuel counts the lines left. -/
def readLines? : Nat → Progress → List Char → Option Progress
  | 0, _, _ => none
  | fuel + 1, p, cs =>
    match skipSpaces cs with
    | [] => some p
    | '#' :: rest => do
      let rest ← endOfLine? ('#' :: rest)
      readLines? fuel p rest
    | '[' :: '[' :: rest => do
      let (path, rest) ← key? rest
      let rest ← behind? ']' rest
      let rest ← behind? ']' rest
      let rest ← endOfLine? rest
      let p ← p.startItem path
      readLines? fuel p rest
    | '[' :: rest => do
      let (path, rest) ← key? rest
      let rest ← behind? ']' rest
      let rest ← endOfLine? rest
      let p ← p.startTable path
      readLines? fuel p rest
    | cs =>
      match newline? cs with
      | some rest => readLines? fuel p rest
      | none => do
        let (path, rest) ← key? cs
        let rest ← behind? '=' rest
        let (v, rest) ← value? (skipSpaces rest)
        let rest ← endOfLine? rest
        let present ← Table.setKey v path p.present
        readLines? fuel { p with present } rest

/-- The fields that a document holds. A byte order mark at the start is skipped. -/
def parse? (s : String) : Option (List (String × Toml)) := do
  let cs := match s.toList with
    | '\uFEFF' :: rest => rest
    | cs => cs
  let p ← readLines? (cs.length + 1) ⟨[], [], false, []⟩ cs
  let root ← p.settle
  pure (Node.closeFields root)

end StyleGuide.Toml
