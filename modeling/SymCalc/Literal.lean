import SymCalc.Decimal.Layout
import SymCalc.Text.Quoted

/-!
# Literals

A value of no particular type, as a caller may give it where a number is expected, and how it is
shown when it is refused.
-/

namespace SymCalc

/-- A value of any type. -/
inductive Literal where
  | null
  | bool (b : Bool)
  | int (n : Int)
  | float (x : Float)
  | text (s : String)
  | list (items : List Literal)
  | record (fields : List (String × Literal))

namespace Literal

open Text

mutual

/-- A literal as it stands in a message. -/
def describe : Literal → String
  | null => "None"
  | bool true => "True"
  | bool false => "False"
  | int n => intText n
  | float x => floatText x
  | text s => quoted s
  | list items => "[" ++ describeItems items ++ "]"
  | record fields => "\x7b" ++ describeFields fields ++ "\x7d"

/-- Items, with commas between them. -/
def describeItems : List Literal → String
  | [] => ""
  | [item] => item.describe
  | item :: items => item.describe ++ ", " ++ describeItems items

/-- Fields, with commas between them. -/
def describeFields : List (String × Literal) → String
  | [] => ""
  | [(key, value)] => quoted key ++ ": " ++ value.describe
  | (key, value) :: fields => quoted key ++ ": " ++ value.describe ++ ", " ++ describeFields fields

end

mutual

/-- Whether the whole numbers in a literal can be written. -/
def isWritable : Literal → Bool
  | int n => withinDigitLimit n
  | list items => areWritable items
  | record fields => fieldsAreWritable fields
  | null | bool _ | float _ | text _ => true

/-- Whether those in the items can. -/
def areWritable : List Literal → Bool
  | [] => true
  | item :: items => item.isWritable && areWritable items

/-- Whether those in the fields can. -/
def fieldsAreWritable : List (String × Literal) → Bool
  | [] => true
  | (_, value) :: fields => value.isWritable && fieldsAreWritable fields

end

end Literal

end SymCalc
