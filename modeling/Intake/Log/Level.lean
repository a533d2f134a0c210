/-
# Log levels

A level is its rank; a message is written when its rank is at least that of the log.  Six ranks have
a name.
-/
namespace Intake

/-- The weight of a log message, or the least weight that a log keeps. -/
structure Level where
  rank : UInt8
  deriving DecidableEq, Repr

namespace Level

def debug : Level := ⟨0⟩
def info : Level := ⟨1⟩
def warn : Level := ⟨2⟩
def error : Level := ⟨3⟩
def fatal : Level := ⟨4⟩
def off : Level := ⟨5⟩

/-- The name of a level; ranks past the last one have none. -/
def tag (l : Level) : String :=
  if l = debug then "DEBUG"
  else if l = info then "INFO"
  else if l = warn then "WARN"
  else if l = error then "ERROR"
  else if l = fatal then "FATAL"
  else if l = off then "OFF"
  else "?"

end Level

end Intake
