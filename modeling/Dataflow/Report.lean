import Dataflow.Datum

namespace Dataflow

/-- What an error says: a sentence, and named details that stand behind it in the order of their
names. -/
structure Report where
  sentence : String
  details : List (String × Datum) := []

namespace Report

def sortedDetails (r : Report) : List (String × Datum) :=
  r.details.mergeSort (fun a b => a.1 ≤ b.1)

def text (r : Report) : String :=
  if r.details.isEmpty then r.sentence
  else
    r.sentence ++ " (" ++
      ", ".intercalate (r.sortedDetails.map (fun d => d.1 ++ "=" ++ d.2.quoted)) ++ ")"

end Report

end Dataflow
