import Lyslg.Log.Define
import Lyslg.Log.Formatter
import Mathlib.Logic.Function.Basic
/-!
# Loggers and the listener of `logs`

`Logger`, `LogAppender` and `LoggerManager::getLogger` as far as the configuration reaches
them, and the listener of `LogIniter`.
-/

namespace Lyslg.Log

/-- Which `LogAppender` it is. -/
inductive Output where
  | file (filename : List UInt8)
  | stdout
  deriving DecidableEq, Repr

structure LogAppender where
  output : Output
  level : LogLevel := .debug
  formatter : Option LogFormatter := none
  hasFormatter : Bool := false
  deriving DecidableEq, Repr

/-- `LogAppender::setFormatter` with a formatter that is not null. -/
def LogAppender.setFormatter (ap : LogAppender) (formatter : LogFormatter) : LogAppender :=
  { ap with formatter := some formatter, hasFormatter := true }

/-- A `Logger`, as its constructor leaves it. -/
structure Logger where
  name : List UInt8
  level : LogLevel := .debug
  appenders : List LogAppender := []
  formatter : LogFormatter := ⟨defaultPattern⟩
  deriving DecidableEq, Repr

namespace Logger

def setLevel (logger : Logger) (val : LogLevel) : Logger := { logger with level := val }

def clearAppenders (logger : Logger) : Logger := { logger with appenders := [] }

def addAppender (logger : Logger) (appender : LogAppender) : Logger :=
  let appender :=
    if appender.formatter = none then { appender with formatter := some logger.formatter }
    else appender
  { logger with appenders := logger.appenders ++ [appender] }

/-- `setFormatter(const std::string&)`; an invalid pattern is only reported. -/
def setFormatter (logger : Logger) (val : List UInt8) : Logger :=
  let formatter : LogFormatter := ⟨val⟩
  if formatter.isError then logger
  else
    { logger with
      formatter := formatter
      appenders := logger.appenders.map fun ap =>
        if ap.hasFormatter then ap else { ap with formatter := some formatter } }

end Logger

/-- `LoggerManager::m_loggers`. -/
abbrev Loggers := List UInt8 → Option Logger

/-- `getLogger(name)`, which makes the logger that is not there. -/
def Loggers.getLogger (loggers : Loggers) (name : List UInt8) : Logger :=
  (loggers name).getD { name := name }

/-- What is done to the logger of a name. -/
def Loggers.update (loggers : Loggers) (name : List UInt8) (f : Logger → Logger) : Loggers :=
  Function.update loggers name (some (f (loggers.getLogger name)))

/-- The default name of a `Logger`, and so that of `LoggerManager::m_root`. -/
def rootName : List UInt8 := Http.chars "root"

/-- `LoggerManager::LoggerManager`. -/
def Loggers.initial : Loggers :=
  Function.update (fun _ => none) rootName
    (some (Logger.addAppender { name := rootName } { output := .stdout }))

/-! ## Logging -/

/-- Where an event ends: at the level of a logger, or with the appenders of one. -/
inductive Delivery where
  | filtered
  | appended (self : List UInt8) (appenders : List LogAppender)
  deriving DecidableEq, Repr

/-- `Logger::log`; `root` is what `m_root->log(level, event)` does.  None where a null
pointer is dereferenced. -/
def Logger.log (logger : Logger) (root : Option Delivery) (level : LogLevel) : Option Delivery :=
  if logger.level.value ≤ level.value then
    if logger.appenders.isEmpty then root else some (.appended logger.name logger.appenders)
  else some .filtered

/-- `log` of the logger that `getLogger(name)` returns; only the root logger has no `m_root`. -/
def Loggers.log (loggers : Loggers) (name : List UInt8) (level : LogLevel) : Option Delivery :=
  let root := (loggers.getLogger rootName).log none level
  if name = rootName then root else (loggers.getLogger name).log root level

/-! ## The listener -/

/-- The appender for a definition: `null` if its type is unknown, none if it is left out.
`daemon` is `EnvMgr::has("d")`. -/
def makeAppender (daemon : Bool) (a : LogAppenderDefine) : Option (Option LogAppender) :=
  if a.type = 1 then some (some { output := .file a.file })
  else if a.type = 2 then (if daemon then none else some (some { output := .stdout }))
  else some none

/-- The loop over the appenders of a definition; none when the null pointer is dereferenced. -/
def addAppenders (daemon : Bool) : List LogAppenderDefine → Logger → Option Logger
  | [], logger => some logger
  | a :: appenders, logger =>
      match makeAppender daemon a with
      | none => addAppenders daemon appenders logger
      | some none => none
      | some (some ap) =>
          let ap := { ap with level := a.level }
          let fmt : LogFormatter := ⟨a.formatter⟩
          let ap := if a.formatter ≠ [] ∧ fmt.isError = false then ap.setFormatter fmt else ap
          addAppenders daemon appenders (logger.addAppender ap)

/-- What the listener does to the logger of a definition that is new or was changed. -/
def configure (daemon : Bool) (d : LogDefine) (logger : Logger) : Option Logger :=
  let logger := logger.setLevel d.level
  let logger := if d.formatter ≠ [] then logger.setFormatter d.formatter else logger
  addAppenders daemon d.appenders logger.clearAppenders

/-- The loop over `new_value`. -/
def applyNew (daemon : Bool) (old : LogDefines) : List LogDefine → Loggers → Option Loggers
  | [], loggers => some loggers
  | d :: new, loggers =>
      match old.find d with
      | some oth =>
          if d == oth then applyNew daemon old new loggers
          else do
            let logger ← configure daemon d (loggers.getLogger d.name)
            applyNew daemon old new (Function.update loggers d.name (some logger))
      | none => do
          let logger ← configure daemon d (loggers.getLogger d.name)
          applyNew daemon old new (Function.update loggers d.name (some logger))

/-- The loop over `old_value`. -/
def removeOld (new : LogDefines) : List LogDefine → Loggers → Loggers
  | [], loggers => loggers
  | d :: old, loggers =>
      match new.find d with
      | some _ => removeOld new old loggers
      | none =>
          removeOld new old
            (loggers.update d.name fun logger => (logger.setLevel .unknow).clearAppenders)

/-- The two loops of the listener. -/
def applyLogs (daemon : Bool) (old new : LogDefines) (loggers : Loggers) : Option Loggers := do
  let loggers ← applyNew daemon old new.defs loggers
  return removeOld new old.defs loggers

/-- The listener that `LogIniter` adds; none when it dereferences a null pointer.  It starts
with an event of its own for the root logger. -/
def onLogsChange (daemon : Bool) (old new : LogDefines) (loggers : Loggers) : Option Loggers := do
  let _ ← loggers.log rootName .info
  applyLogs daemon old new loggers

/-- `g_log_defines->setValue(new)` while the value is `old`, by one thread. -/
def setLogs (daemon : Bool) (old new : LogDefines) (loggers : Loggers) : Option Loggers :=
  if new == old then some loggers else onLogsChange daemon old new loggers

end Lyslg.Log
