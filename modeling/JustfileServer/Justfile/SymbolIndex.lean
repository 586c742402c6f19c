import JustfileServer.Justfile.Outline

/-!
# The index of names

Two tables, one for recipes and one for variables, list under each name every definition of it
from top to bottom.  Definitions of the same name are all kept, so that a client can offer all of
them.
-/

namespace JustfileServer

/-- Definitions by name, the names in the order in which they were first defined. -/
abbrev NameTable := List (Text × List Definition)

namespace NameTable

/-- The definitions listed under a name. -/
def find (table : NameTable) (name : Text) : List Definition :=
  match table with
  | [] => []
  | (n, ds) :: rest => if n = name then ds else find rest name

/-- The table with one more definition at the end of the list under a name. -/
def add (table : NameTable) (name : Text) (d : Definition) : NameTable :=
  match table with
  | [] => [(name, [d])]
  | (n, ds) :: rest => if n = name then (n, ds ++ [d]) :: rest else (n, ds) :: add rest name d

/-- The names in the table. -/
def names (table : NameTable) : List Text := table.map Prod.fst

end NameTable

/-- The definitions of a justfile by kind and name. -/
structure SymbolIndex where
  recipes : NameTable
  assignments : NameTable

namespace SymbolIndex

/-- The index of no definitions. -/
def empty : SymbolIndex := ⟨[], []⟩

/-- The index with one more definition under a name. -/
def add (index : SymbolIndex) (name : Text) (d : Definition) : SymbolIndex :=
  match d.kind with
  | .recipe => { index with recipes := index.recipes.add name d }
  | .assignment => { index with assignments := index.assignments.add name d }

/-- The index of definitions whose spans lie in the given buffer; a definition whose span covers
no text has no name and is left out. -/
def ofDefinitions (data : Bytes) (definitions : List Definition) : SymbolIndex :=
  definitions.foldl
    (fun index d =>
      let name := d.name.text data
      if name.isEmpty then index else index.add name d)
    empty

/-- The index of a justfile. -/
def ofJustfile (j : Justfile) : SymbolIndex := ofDefinitions j.data j.definitions

/-- The recipes of a name, from top to bottom. -/
def recipesNamed (index : SymbolIndex) (name : Text) : List Definition := index.recipes.find name

/-- The assignments to a name, from top to bottom. -/
def assignmentsNamed (index : SymbolIndex) (name : Text) : List Definition :=
  index.assignments.find name

end SymbolIndex

end JustfileServer
