import BuildRunner.Decimal.Shortest
import BuildRunner.Text.Quoted

/-!
# Simple values

The values that settings are written with and that have no parts: texts, truth values and numbers.
Whole numbers are of two kinds, because the kind shows where a number is refused.
-/

namespace BuildRunner.Settings

/-- A value without parts. -/
inductive Scalar where
  | text (text : String)
  | truth (value : Bool)
  | unsigned (value : Nat)
  | signed (value : Int)
  | real (value : Decimal.Binary64)
  deriving DecidableEq, Repr

/-- A value as it is shown where it is refused. -/
def Scalar.shown : Scalar → String
  | text content => "string " ++ Text.quoted content
  | truth value => if value then "bool true" else "bool false"
  | unsigned value => "unsigned int `" ++ toString value ++ "`"
  | signed value => "signed int `" ++ toString value ++ "`"
  | real value => "float `" ++ value.text ++ "`"

end BuildRunner.Settings
