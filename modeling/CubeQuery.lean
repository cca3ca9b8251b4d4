import CubeQuery.Engine
import CubeQuery.Layout.Reader
import CubeQuery.Proofs.Assembly.Accepted
import CubeQuery.Proofs.Assembly.Derived
import CubeQuery.Proofs.Assembly.NestedLevels
import CubeQuery.Proofs.Cube.Descent
import CubeQuery.Proofs.Language.Bodies
import CubeQuery.Proofs.Language.Chains
import CubeQuery.Proofs.Language.Height
import CubeQuery.Proofs.Language.Offending
import CubeQuery.Proofs.Number.Formatting
import CubeQuery.Proofs.Query.Additions
import CubeQuery.Proofs.Query.DefinitionOrder
import CubeQuery.Proofs.Query.DrillLevels
import CubeQuery.Proofs.Query.Formats
import CubeQuery.Proofs.Query.Headers
import CubeQuery.Proofs.Query.Hierarchizing
import CubeQuery.Proofs.Query.Layouts
import CubeQuery.Proofs.Query.LetterCase
import CubeQuery.Proofs.Query.LevelNames
import CubeQuery.Proofs.Query.Precedence
import CubeQuery.Proofs.Query.Pruning
import CubeQuery.Proofs.Query.ReadBack
import CubeQuery.Proofs.Query.RollUp
import CubeQuery.Proofs.Query.SetForms
import CubeQuery.Proofs.Query.Shape
import CubeQuery.Proofs.Query.Slicers
import CubeQuery.Proofs.Table.Selections
