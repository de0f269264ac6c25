import Dataflow.OrderedMap
import Dataflow.Report
import Dataflow.Text.Blank
import Dataflow.Text.Split

namespace Dataflow

inductive AnalysisId where
  | constprop
  | livevar
  | deadcode
  | interConstprop
  | cha
  deriving DecidableEq

/-- An option with the values it can take; the first is the default. -/
structure OptionSpec where
  name : String
  default : String
  others : List String
  deriving DecidableEq

def OptionSpec.choices (o : OptionSpec) : List String := o.default :: o.others

namespace AnalysisId

def all : List AnalysisId := [constprop, livevar, deadcode, interConstprop, cha]

def name : AnalysisId → String
  | constprop => "constprop"
  | livevar => "livevar"
  | deadcode => "deadcode"
  | interConstprop => "inter-constprop"
  | cha => "cha"

def ofName? (s : String) : Option AnalysisId := all.find? (fun a => a.name = s)

def solverOption : OptionSpec := ⟨"solver", "worklist", ["iterative"]⟩

def options : AnalysisId → List OptionSpec
  | constprop => [⟨"param-seeding", "int-only", ["all"]⟩, solverOption]
  | livevar => [solverOption]
  | deadcode => [⟨"branch-truth", "eq-one", ["positive"]⟩]
  | interConstprop => []
  | cha => []

def option? (a : AnalysisId) (key : String) : Option OptionSpec :=
  a.options.find? (fun o => o.name = key)

end AnalysisId

def sortedTexts (l : List String) : List String := l.mergeSort (fun a b => a ≤ b)

inductive ConfigError where
  | unknownAnalysis (name : String)
  | unknownOption (analysis : AnalysisId) (key : String)
  | noOption (analysis : AnalysisId) (key : String)
  | invalidValue (analysis : AnalysisId) (option : OptionSpec) (value : String)
  | malformedOption (analysis segment : String)
  | unknownStrategy (name : String)
  | wrongAnalysis (client : String) (given expected : AnalysisId)
  | unusableAnalysis (client : String) (given : AnalysisId)
  deriving DecidableEq

inductive Strategy where
  | iterative
  | worklist
  deriving DecidableEq

namespace Strategy

def all : List Strategy := [iterative, worklist]

def name : Strategy → String
  | iterative => "iterative"
  | worklist => "worklist"

def ofName (s : String) : Except ConfigError Strategy :=
  match all.find? (fun m => m.name = s) with
  | some m => .ok m
  | none => .error (.unknownStrategy s)

end Strategy

namespace ConfigError

def report : ConfigError → Report
  | unknownAnalysis name =>
    ⟨"unknown analysis id '" ++ name ++ "'",
      [("known", .texts (sortedTexts (AnalysisId.all.map AnalysisId.name)))]⟩
  | unknownOption a key =>
    ⟨"analysis '" ++ a.name ++ "' has no option '" ++ key ++ "'",
      [("known", .texts (sortedTexts (a.options.map OptionSpec.name)))]⟩
  | noOption a key => ⟨"analysis '" ++ a.name ++ "' has no option '" ++ key ++ "'", []⟩
  | invalidValue a option value =>
    ⟨"invalid value " ++ Text.quoted value ++ " for option '" ++ option.name ++ "' of analysis '" ++
        a.name ++ "'",
      [("choices", .texts option.choices)]⟩
  | malformedOption a segment =>
    ⟨"malformed option '" ++ segment ++ "', expected key:value", [("analysis", .text a)]⟩
  | unknownStrategy name =>
    ⟨"unknown solver strategy " ++ Text.quoted name,
      [("choices", .texts (Strategy.all.map Strategy.name))]⟩
  | wrongAnalysis client given expected =>
    ⟨client ++ " cannot use configuration for '" ++ given.name ++ "'",
      [("expected", .text expected.name)]⟩
  | unusableAnalysis client given =>
    ⟨client ++ " cannot use configuration for '" ++ given.name ++ "'", []⟩

end ConfigError

structure Config where
  analysis : AnalysisId
  given : OrderedMap String String

namespace Config

def default (a : AnalysisId) : Config := ⟨a, .empty⟩

def checkOption (a : AnalysisId) (o : String × String) : Except ConfigError Unit :=
  match a.option? o.1 with
  | none => .error (.unknownOption a o.1)
  | some spec =>
    if spec.choices.contains o.2 then .ok () else .error (.invalidValue a spec o.2)

def ofOptions (name : String) (options : OrderedMap String String) : Except ConfigError Config :=
  match AnalysisId.ofName? name with
  | none => .error (.unknownAnalysis name)
  | some a => do
    options.entries.forM (checkOption a)
    return ⟨a, options⟩

def ofData (name : String) (data : List (String × Datum)) : Except ConfigError Config :=
  ofOptions name (.ofList (data.map (fun d => (d.1, d.2.plain))))

/-- The option written in one segment of an option text: a key, a colon and a value. A blank segment
has none. -/
def readSegment (name : String) (segment : List Char) :
    Except ConfigError (Option (String × String)) :=
  let s := Text.trim segment
  if s.isEmpty then .ok none
  else match Text.cut? ':' s with
    | none => .error (.malformedOption name (String.ofList s))
    | some (key, value) =>
      .ok (some (String.ofList (Text.trim key), String.ofList (Text.trim value)))

/-- Options from a text of segments between semicolons, such as `param-seeding:all;solver:iterative`.
Of several values for one key the last counts. -/
def parse (name : String) (text : Option String) : Except ConfigError Config := do
  let options ← (Text.splitAll ';' (text.getD "").toList).mapM (readSegment name)
  ofOptions name (.ofList (options.filterMap id))

def value (c : Config) (o : OptionSpec) : String := c.given.getD o.name o.default

def get (c : Config) (key : String) : Except ConfigError String :=
  match c.analysis.option? key with
  | none => .error (.noOption c.analysis key)
  | some o => .ok (c.value o)

def resolved (c : Config) : List (String × String) :=
  c.analysis.options.map (fun o => (o.name, c.value o))

def has (c : Config) (key value : String) : Bool := c.resolved.lookup key = some value

def text (c : Config) : String :=
  c.analysis.name ++ "[" ++
    ";".intercalate ((c.resolved.mergeSort (fun a b => a.1 ≤ b.1)).map
      (fun o => o.1 ++ ":" ++ o.2)) ++ "]"

def orDefault (client : String) (a : AnalysisId) : Option Config → Except ConfigError Config
  | none => .ok (default a)
  | some c => if c.analysis = a then .ok c else .error (.wrongAnalysis client c.analysis a)

/-- The strategy asked for by name, or else the one in the options, or else the worklist. -/
def strategy (c : Config) : Option String → Except ConfigError Strategy
  | some name => Strategy.ofName name
  | none => Strategy.ofName ((c.resolved.lookup "solver").getD Strategy.worklist.name)

end Config

end Dataflow
