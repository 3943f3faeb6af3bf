/-
Module: FixedShape.Fixing.Log
Purpose: Messages told on the way. They are part of a result, so that they can be reasoned about
  like everything else; showing them is left to the program.
-/

namespace FixedShape

/-- How much a message matters, the most important first. -/
inductive LogLevel where
  | error
  | warn
  | info
  | debug
  | trace
  deriving DecidableEq, Repr

namespace LogLevel

/-- The sign before a message. -/
def token : LogLevel → String
  | .error => "E"
  | .warn => "W"
  | .info => "*"
  | .debug => "D"
  | .trace => "T"

/-- The place of a level in order of importance. -/
def rank : LogLevel → Nat
  | .error => 0
  | .warn => 1
  | .info => 2
  | .debug => 3
  | .trace => 4

/-- The least important level that is shown: warnings, and one level more for each step of
verbosity. -/
def ofVerbosity : Nat → LogLevel
  | 0 => .warn
  | 1 => .info
  | 2 => .debug
  | _ => .trace

end LogLevel

/-- A message with its level. -/
structure LogLine where
  level : LogLevel
  message : String
  deriving DecidableEq, Repr

/-- Messages, oldest first. -/
abbrev Log := List LogLine

/-- A message as a line of output. -/
def LogLine.text (line : LogLine) : String :=
  "[" ++ line.level.token ++ "] " ++ line.message ++ "\n"

/-- The lines of a log down to a level. -/
def Log.shown (threshold : LogLevel) (log : Log) : String :=
  String.join ((log.filter (·.level.rank ≤ threshold.rank)).map LogLine.text)

end FixedShape
