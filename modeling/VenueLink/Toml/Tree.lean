import VenueLink.Document.Basic

/-!
# Tables of TOML

A table may be written under a header of its own, come about because a header below it was
written, or come about through a key with points; the three cannot be mixed at will. `insertAt?`
adds a key to a table, `Builder` goes through headers and keys in the order of the document. No
value is ever replaced, so a document that gives a key twice has no tree.
-/

namespace VenueLink.Toml

/-- How a table has come about. -/
inductive Origin where
  /-- It has a header of its own. -/
  | header
  /-- A header below it was written. -/
  | implied
  /-- A key with points goes through it. -/
  | dotted
deriving DecidableEq

/-- What a key stands for. -/
inductive Node where
  /-- A value; nothing can be added to it. -/
  | value (d : Document)
  | table (origin : Origin) (fields : List (String × Node))
  /-- An array of tables, the last one in front. -/
  | tables (reversed : List (List (String × Node)))

/-- The fields of a table. -/
abbrev Entries := List (String × Node)

mutual

/-- A node as a document. -/
def Node.toDocument : Node → Document
  | .value d => d
  | .table _ fields => .object (fieldDocuments fields) none
  | .tables reversed => .array (tableDocuments reversed).reverse none

/-- The fields of a table as documents. -/
def fieldDocuments : List (String × Node) → List (Key × Document)
  | [] => []
  | (k, n) :: rest => (.named k, n.toDocument) :: fieldDocuments rest

/-- Tables as documents. -/
def tableDocuments : List (List (String × Node)) → List Document
  | [] => []
  | fields :: rest => .object (fieldDocuments fields) none :: tableDocuments rest

end

/-- Put a node in the place of the one of its key. -/
def replace (key : String) (node : Node) (fields : Entries) : Entries :=
  fields.map fun (k, n) => if k = key then (k, node) else (k, n)

/-- Put a node under a key, in the place of the one that is there or at the end. -/
def put (key : String) (node : Node) (fields : Entries) : Entries :=
  if (fields.lookup key).isSome then replace key node fields else fields ++ [(key, node)]

/-- Add a node under a key that is not there yet, below a path of keys with points between them.
-/
def insertAt? (key : String) (node : Node) : (path : List String) → Entries → Option Entries
  | [], fields => if (fields.lookup key).isSome then none else some (fields ++ [(key, node)])
  | p :: path, fields =>
    match fields.lookup p with
    | none => (insertAt? key node path []).map fun sub => fields ++ [(p, .table .dotted sub)]
    | some (.table origin sub) =>
      if origin = .header || (path.isEmpty && origin ≠ .dotted) then none
      else (insertAt? key node path sub).map fun sub => replace p (.table origin sub) fields
    | some (.tables (last :: rest)) =>
      if path.isEmpty then none
      else (insertAt? key node path last).map
        fun last => replace p (.tables (last :: rest)) fields
    | some _ => none

/-- Change the table at the path of a header; tables on the way that are not there yet come
about. -/
def modifyAt? (f : Entries → Option Entries) : (path : List String) → Entries → Option Entries
  | [], fields => f fields
  | p :: path, fields =>
    match fields.lookup p with
    | none => (modifyAt? f path []).map fun sub => fields ++ [(p, .table .implied sub)]
    | some (.table origin sub) =>
      (modifyAt? f path sub).map fun sub => replace p (.table origin sub) fields
    | some (.tables (last :: rest)) =>
      (modifyAt? f path last).map fun last => replace p (.tables (last :: rest)) fields
    | some _ => none

/-- The table at the path of a header, empty if it is not there yet. -/
def fieldsAt? : (path : List String) → Entries → Option Entries
  | [], fields => some fields
  | p :: path, fields =>
    match fields.lookup p with
    | none => fieldsAt? path []
    | some (.table _ sub) => fieldsAt? path sub
    | some (.tables (last :: _)) => fieldsAt? path last
    | some _ => none

/-- A document as far as it has been read: the finished part, and the table under the latest
header.
-/
structure Builder where
  root : Entries := []
  path : List String := []
  key : String := ""
  /-- The latest header is that of the root, of a table, or of one in an array of tables. -/
  isRoot : Bool := true
  isArray : Bool := false
  current : Entries := []

namespace Builder

/-- Put the table under the latest header into its place. -/
def close? (b : Builder) : Option Entries :=
  if b.isRoot then some b.current
  else
    modifyAt? (fun fields =>
      if b.isArray then
        match fields.lookup b.key with
        | none => some (fields ++ [(b.key, .tables [b.current])])
        | some (.tables reversed) =>
            some (replace b.key (.tables (b.current :: reversed)) fields)
        | some _ => none
      else some (put b.key (.table .header b.current) fields)) b.path b.root

/-- The parts of a key in front of its last one, and the last one. -/
def splitKey? (parts : List String) : Option (List String × String) :=
  parts.getLast?.map fun last => (parts.dropLast, last)

/-- The header of a table; a table that has come about through headers below it keeps its
fields. -/
def header? (b : Builder) (parts : List String) : Option Builder := do
  let root ← b.close?
  let (path, key) ← splitKey? parts
  let fields ← fieldsAt? path root
  match fields.lookup key with
  | none => some ⟨root, path, key, false, false, []⟩
  | some (.table .implied sub) => some ⟨root, path, key, false, false, sub⟩
  | some _ => none

/-- The header of one more table in an array of tables. -/
def arrayHeader? (b : Builder) (parts : List String) : Option Builder := do
  let root ← b.close?
  let (path, key) ← splitKey? parts
  let fields ← fieldsAt? path root
  match fields.lookup key with
  | none | some (.tables _) => some ⟨root, path, key, false, true, []⟩
  | some _ => none

/-- A key and its value. -/
def add? (b : Builder) (parts : List String) (value : Document) : Option Builder := do
  let (path, key) ← splitKey? parts
  let current ← insertAt? key (.value value) path b.current
  some { b with current := current }

end Builder

end VenueLink.Toml
