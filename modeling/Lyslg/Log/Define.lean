import Mathlib.Data.List.Basic
import Mathlib.Order.Basic
/-!
# Log levels and the definitions of loggers

`LogLevel` of `log.h`, and the definitions that the configuration variable `logs` holds,
with the comparisons of `log.cc`.
-/

namespace Lyslg.Log

/-- `LogLevel::Level`. -/
inductive LogLevel where
  | unknow
  | debug
  | info
  | warn
  | error
  | fatal
  deriving DecidableEq, Repr

def LogLevel.value : LogLevel → Nat
  | .unknow => 0
  | .debug => 1
  | .info => 2
  | .warn => 3
  | .error => 4
  | .fatal => 5

/-- `logger->getLevel() <= level`, the test of `LYSLG_LOG_LEVEL`. -/
def LogLevel.shows (own level : LogLevel) : Bool := own.value ≤ level.value

/-! ## Definitions -/

/-- `LogAppenderDefine`; `type` is 1 for a file and 2 for the standard output. -/
structure LogAppenderDefine where
  type : Int := 0
  level : LogLevel := .unknow
  formatter : List UInt8 := []
  file : List UInt8 := []
  deriving DecidableEq, Repr

/-- `LogAppenderDefine::operator==` -/
instance : BEq LogAppenderDefine where
  beq a oth := a.type == oth.type && a.level = oth.level && a.formatter == oth.formatter
    && a.file == oth.file

structure LogDefine where
  name : List UInt8
  level : LogLevel := .unknow
  formatter : List UInt8 := []
  appenders : List LogAppenderDefine := []
  deriving Repr

/-- `LogDefine::operator==`, which compares its own appenders with themselves. -/
instance : BEq LogDefine where
  beq d oth := d.name == oth.name && d.level = oth.level && d.formatter == oth.formatter
    && d.appenders == d.appenders

/-- A `std::set<LogDefine>`: `LogDefine::operator<` orders by name. -/
structure LogDefines where
  defs : List LogDefine := []
  sorted : defs.Pairwise fun d oth => d.name < oth.name := by decide

namespace LogDefines

/-- `find` in the set, which goes by name. -/
def find (s : LogDefines) (d : LogDefine) : Option LogDefine :=
  s.defs.find? fun oth => !decide (oth.name < d.name) && !decide (d.name < oth.name)

/-- `operator==` of `std::set`. -/
instance : BEq LogDefines where
  beq s oth := s.defs.length == oth.defs.length &&
    (List.zipWith (fun d e => d == e) s.defs oth.defs).all id

end LogDefines

end Lyslg.Log
