import Dataflow.Decimal.Double
import Dataflow.Text.Quoted

namespace Dataflow

/-- A value from outside: an option as it was given, a detail of an error, or a result that a caller
stores. -/
inductive Datum where
  | null
  | flag (b : Bool)
  | int (n : Int)
  | double (x : Double)
  | text (s : String)
  | list (items : List Datum)
  | record (fields : List (String × Datum))

namespace Datum

instance : Inhabited Datum := ⟨null⟩

mutual

/-- The text of a value in which texts stand in quotes. -/
def quoted : Datum → String
  | null => "None"
  | flag true => "True"
  | flag false => "False"
  | int n => toString n
  | double x => x.text
  | text s => Text.quoted s
  | list items => "[" ++ ", ".intercalate (quotedItems items) ++ "]"
  | record fields => "\x7b" ++ ", ".intercalate (quotedFields fields) ++ "\x7d"

def quotedItems : List Datum → List String
  | [] => []
  | d :: rest => quoted d :: quotedItems rest

def quotedFields : List (String × Datum) → List String
  | [] => []
  | (k, d) :: rest => (Text.quoted k ++ ": " ++ quoted d) :: quotedFields rest

end

def plain : Datum → String
  | text s => s
  | d => d.quoted

def texts (l : List String) : Datum := list (l.map text)

end Datum

end Dataflow
