import CubeQuery.Cube.Basic
import CubeQuery.Json.Value

/-!
Settings of one query, and their JSON form.
-/

namespace CubeQuery

structure QueryOptions where
  /-- The language that cells report. -/
  locale : Nat := 1033
  /-- The format of cells for which no measure or calculated member sets one. -/
  defaultFormat : String := "Standard"
  /-- The display property of measures and calculated members. -/
  displayInfo : Nat := memberDisplayInfo
  deriving DecidableEq

namespace QueryOptions

/-- One more than the greatest locale and display property. -/
def bound : Nat := Nat.pow 2 32

/-- A setting that may be left out but not null. -/
def setting? (default : α) (read? : JsonValue → Option α) : Option JsonValue → Option α
  | none => some default
  | some v => read? v

def ofJson? (v : JsonValue) : Option QueryOptions := do
  let [locale, defaultFormat, displayInfo] ←
    v.record? ["locale", "defaultFormatString", "displayInfo"] | none
  let standard : QueryOptions := {}
  return {
    locale := ← setting? standard.locale (·.natBelow? bound) locale
    defaultFormat := ← setting? standard.defaultFormat (·.text?) defaultFormat
    displayInfo := ← setting? standard.displayInfo (·.natBelow? bound) displayInfo }

end QueryOptions

end CubeQuery
