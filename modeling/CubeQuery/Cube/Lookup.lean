import CubeQuery.Cube.Basic
import CubeQuery.Text.Lowercase

/-!
Finding the objects of a cube by name.
-/

namespace CubeQuery

namespace Cube

/-- The object with the given unique name, else the one that first took a name which differs from
it in case alone. -/
def find? (cube : Cube) (uniqueName : String) : Option Entity :=
  cube.names[uniqueName]?.or cube.foldedNames[Text.lowercase uniqueName]?

def dimensionByName? (cube : Cube) (name : String) : Option DimensionId :=
  (cube.dimensions.toList.findIdx? fun d => Text.sameName d.name name).map DimensionId.mk

def measureByName? (cube : Cube) (name : String) : Option MeasureId :=
  (cube.measures.toList.findIdx? fun m => Text.sameName m.name name).map MeasureId.mk

end Cube

end CubeQuery
