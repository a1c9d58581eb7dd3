/-!
# Log records

What is reported beside the output: a level, the part of the program that reports, and a text.
-/

namespace BuildRunner.Log

/-- How much a record matters, the most first. -/
inductive Level where
  | error
  | warn
  | info
  | debug
  deriving DecidableEq, Repr

/-- The name of a level as records show it. -/
def Level.name : Level → String
  | error => "ERROR"
  | warn => "WARN"
  | info => "INFO"
  | debug => "DEBUG"

/-- The place of a level when levels are counted from the one that matters most. -/
def Level.rank : Level → Nat
  | error => 1
  | warn => 2
  | info => 3
  | debug => 4

/-- The parts of the program that report. -/
inductive Part where
  | command
  | process
  | registry
  | settings
  | scan
  | clean
  | docs
  | site
  deriving DecidableEq, Repr

/-- The name of a part as records show it and as filters give it. -/
def Part.name : Part → String
  | command => "x"
  | process => "xtask::utils"
  | registry => "xtask::registry"
  | settings => "xtask::config"
  | scan => "xtask::scan"
  | clean => "xtask::plugins::clean"
  | docs => "xtask::plugins::docs"
  | site => "xtask::plugins::site"

/-- One report. -/
structure Record where
  level : Level
  part : Part
  text : String
  deriving DecidableEq, Repr

end BuildRunner.Log
