import CubeQuery.Table.Basic

/-!
The loaded tables, found by their exact names.
-/

namespace CubeQuery

/-- Tables with distinct names. -/
structure Catalog where
  tables : List Table

namespace Catalog

def empty : Catalog := ⟨[]⟩

def find? (c : Catalog) (name : String) : Option Table :=
  c.tables.find? (·.name == name)

/-- The catalog with one more table, unless its name is taken. -/
def add? (c : Catalog) (t : Table) : Option Catalog :=
  if (c.find? t.name).isSome then none else some ⟨c.tables ++ [t]⟩

end Catalog

end CubeQuery
