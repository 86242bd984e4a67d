import RegexAudit.Settings.Document

/-!
# Tables of TOML

The tables of a document while it is read. What may still be added to a table
depends on how it came about.

## Main definitions

* `Table`: named values, tables and lists of tables.
* `Table.define?`: gives a value to a path of names.
* `Table.open?`, `Table.append?`: make a table of their own.
* `Table.document`: the finished table.

## Design notes

A table comes about in three ways. A header or a pair of braces makes it on its
own; a longer header passes through it; or a dotted name passes through it. A
header may complete a table through which only headers have passed. A dotted
name may add to tables that were made by dotted names in the same place.
-/

namespace RegexAudit

namespace Toml

/-- How a table came about. -/
inductive Origin where
  /-- On its own. -/
  | own
  /-- As a part of the path of a header. -/
  | header
  /-- As a part of a dotted name. -/
  | dotted
deriving DecidableEq, Repr

mutual

/-- Named values, in the order in which they are written. -/
inductive Table where
  | mk (origin : Origin) (entries : List (String × Node))

/-- What a name stands for in a table. -/
inductive Node where
  /-- A value to which nothing can be added. -/
  | value (d : Document)
  | table (t : Table)
  /-- Tables with one header. The latest of them, to which can be added, stands apart. The earlier
  ones are given last first. -/
  | tables (latest : Table) (earlier : List Table)

end

namespace Table

/-- How the table came about. -/
def origin : Table → Origin
  | mk origin _ => origin

/-- The entries of a table. -/
def entries : Table → List (String × Node)
  | mk _ entries => entries

/-- A table without entries. -/
def empty (origin : Origin) : Table := mk origin []

/-- What a name stands for. -/
def find? (t : Table) (name : String) : Option Node := t.entries.lookup name

/-- Gives a name something to stand for, in place of what it stood for. -/
def put (t : Table) (name : String) (node : Node) : Table :=
  let replace (entry : String × Node) : String × Node :=
    if entry.1 = name then (name, node) else entry
  if (t.find? name).isSome then mk t.origin (t.entries.map replace)
  else mk t.origin (t.entries ++ [(name, node)])

/-- Changes the table at a path, and makes those that are missing as ones of the given origin. A
dotted name does not pass through a table that was made on its own. -/
def update? (passing : Origin) (change : Table → Option Table) : List String → Table → Option Table
  | [], t => change t
  | name :: path, t =>
    match t.find? name with
    | none => do some (t.put name (.table (← update? passing change path (empty passing))))
    | some (.table inner) =>
      if passing = .dotted ∧ inner.origin = .own then none
      else do some (t.put name (.table (← update? passing change path inner)))
    | some (.tables latest earlier) =>
      do some (t.put name (.tables (← update? passing change path latest) earlier))
    | some (.value _) => none

/-- Gives a value to a name that follows a path of dotted names. The name must be new, and a path
must end in a table that was made by dotted names. -/
def define? (t : Table) (path : List String) (name : String) (value : Document) : Option Table :=
  t.update? .dotted (fun parent =>
    if (parent.origin == .dotted) != !path.isEmpty then none
    else if (parent.find? name).isSome then none
    else some (parent.put name (.value value))) path

/-- Makes the table of a header. Only a table through which other headers have passed may be there
already. -/
def open? (t : Table) (path : List String) (name : String) : Option Table :=
  t.update? .header (fun parent =>
    match parent.find? name with
    | none => some (parent.put name (.table (empty .own)))
    | some (.table (mk .header entries)) => some (parent.put name (.table (mk .own entries)))
    | _ => none) path

/-- Makes a further table of a header that is written in double brackets. -/
def append? (t : Table) (path : List String) (name : String) : Option Table :=
  t.update? .header (fun parent =>
    match parent.find? name with
    | none => some (parent.put name (.tables (empty .own) []))
    | some (.tables latest earlier) =>
      some (parent.put name (.tables (empty .own) (latest :: earlier)))
    | _ => none) path

mutual

/-- The finished table. -/
def document : Table → Document
  | mk _ entries => .table (documents entries)

/-- The finished entries of a table. -/
def documents : List (String × Node) → List (Option String × Document)
  | [] => []
  | (name, node) :: entries => (some name, nodeDocument node) :: documents entries

/-- What a name stands for in the finished table. -/
def nodeDocument : Node → Document
  | .value d => d
  | .table t => t.document
  | .tables latest earlier => .list (tableDocuments earlier [latest.document])

/-- The finished tables that are given last first, followed by others. -/
def tableDocuments : List Table → List Document → List Document
  | [], later => later
  | t :: earlier, later => tableDocuments earlier (t.document :: later)

end

end Table

end Toml

end RegexAudit
