namespace Dataflow

inductive Level where
  | debug
  | info
  | warning
  | error
  | critical
  deriving DecidableEq

namespace Level

def all : List Level := [debug, info, warning, error, critical]

def name : Level → String
  | debug => "DEBUG"
  | info => "INFO"
  | warning => "WARNING"
  | error => "ERROR"
  | critical => "CRITICAL"

def severity : Level → Nat
  | debug => 10
  | info => 20
  | warning => 30
  | error => 40
  | critical => 50

end Level

structure LogRecord where
  level : Level
  channel : String
  message : String
  deriving DecidableEq

namespace LogRecord

def line (r : LogRecord) : String :=
  let column := r.level.name.toList.take 5
  "[" ++ String.ofList (column ++ List.replicate (5 - column.length) ' ') ++ "] " ++ r.channel ++
    ": " ++ r.message

end LogRecord

def rootChannel : String := "irflow"

def isOwnChannel (name : String) : Bool :=
  name = rootChannel || (rootChannel ++ ".").toList.isPrefixOf name.toList

structure Console where
  threshold : Level
  handlers : Nat

namespace Console

/-- More verbosity shows more: warnings at 0 or less, then what is said for information, then all. -/
def thresholdOf (verbosity : Int) : Level :=
  if 2 ≤ verbosity then .debug else if verbosity = 1 then .info else .warning

def shows (c : Console) (r : LogRecord) : Bool := c.threshold.severity ≤ r.level.severity

/-- The lines shown for a record. A channel outside this library has no console of its own: its
messages appear bare from warnings on. -/
def show? (c : Console) (r : LogRecord) : Option String :=
  if isOwnChannel r.channel then
    if c.shows r then some r.line else none
  else if Level.warning.severity ≤ r.level.severity then some r.message else none

def configure (verbosity : Int) : Console × LogRecord :=
  let level := thresholdOf verbosity
  (⟨level, 1⟩, ⟨.debug, rootChannel ++ ".config", "logging configured at " ++ level.name⟩)

def probes (channel : String) : List LogRecord :=
  Level.all.map (fun l => ⟨l, channel, "message " ++ toString l.severity⟩)

end Console

end Dataflow
