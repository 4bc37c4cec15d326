/-!
# The log

Reading and evaluating a formula leave messages on a log. A message has a channel and a level, and is
kept only when the log's verbosity is at least that level, so a log of verbosity zero stays silent:
failures have level 1 and steps have level 5.
-/

namespace Formula

inductive Channel where
  | error | warning | notice | info | debug
  deriving DecidableEq, Repr

namespace Channel

def tag : Channel → String
  | .error => "Error"
  | .warning => "Warning"
  | .notice => "Notice"
  | .info => "Info"
  | .debug => "Debug"

/-- The terminal colour of a tag: red, yellow, magenta, cyan and blue. -/
def color : Channel → Nat
  | .error => 1
  | .warning => 3
  | .notice => 5
  | .info => 6
  | .debug => 4

/-- The tag in brackets, bold and in its colour when colours are on. -/
def label (colored : Bool) (channel : Channel) : String :=
  if colored then
    "\x1b[1;3" ++ toString channel.color ++ "m[" ++ channel.tag ++ "]\x1b[0m"
  else
    "[" ++ channel.tag ++ "]"

end Channel

/-- The settings of a log and the lines it has kept. -/
structure Log where
  verbosity : Int := 0
  colored : Bool := false
  lines : Array String := #[]
  deriving Repr

namespace Log

def line (log : Log) (channel : Channel) (message : String) : String :=
  channel.label log.colored ++ " " ++ message

/-- Keeps a message if the log is verbose enough. Inlined, so that a message nobody keeps is not built. -/
@[macro_inline]
def write (log : Log) (channel : Channel) (level : Int) (message : String) : Log :=
  if level ≤ log.verbosity then { log with lines := log.lines.push (log.line channel message) } else log

/-- The text of a log, each line ended by a newline. -/
def text (log : Log) : String :=
  log.lines.foldl (fun text line => text ++ line ++ "\n") ""

/-- The same settings with no lines yet. -/
def cleared (log : Log) : Log := { log with lines := #[] }

end Log

abbrev LogM := StateM Log

@[macro_inline]
def emit (channel : Channel) (level : Int) (message : String) : LogM Unit :=
  fun log => ((), log.write channel level message)

@[macro_inline]
def logFailure (message : String) : LogM Unit := emit .error 1 message

@[macro_inline]
def logStep (message : String) : LogM Unit := emit .debug 5 message

end Formula
