import CubeQuery.Cube.Build
import CubeQuery.Language.Parser.Statement
import CubeQuery.Query.Cellset

/-!
An engine answers the text of queries with the cube that is bound to it, if any. A cube never
changes, so whoever holds on to one is not affected when the engine is bound again.
-/

namespace CubeQuery

open CubeQuery.Language

/-- The answer of a cube to the text of a query. -/
def Cube.query (cube : Cube) (text : String) (options : QueryOptions) : Noted Cellset := do
  cube.execute (← .ofResult ((Statement.ofText text).mapError .parse)) options

structure Engine where
  cube? : Option Cube

namespace Engine

def unbound : Engine := ⟨none⟩

def bound (cube : Cube) : Engine := ⟨some cube⟩

/-- The engine after an attempt to bind a new cube, with what came of the attempt. Whatever was
bound before is gone: if the cube cannot be built, none is bound. -/
def rebind (layout : CubeLayout) (catalog : Catalog) : Engine × Except Error Cube :=
  let built := Cube.build layout catalog
  (⟨built.toOption⟩, built)

def execute (engine : Engine) (text : String) (options : QueryOptions) : Noted Cellset :=
  match engine.cube? with
  | some cube => cube.query text options
  | none => .fail .noCube

end Engine

end CubeQuery
