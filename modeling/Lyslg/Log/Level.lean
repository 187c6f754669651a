import Lyslg.Log.Define
import Lyslg.Http.Request
/-!
# Levels as text
-/

namespace Lyslg.Log.LogLevel

open Http

/-- `LogLevel::ToString`. -/
def toString : LogLevel → List UInt8
  | .debug => chars "DEBUG"
  | .info => chars "INFO"
  | .warn => chars "WARN"
  | .error => chars "ERROR"
  | .fatal => chars "FATAL"
  | .unknow => chars "UNKNOW"

/-- `LogLevel::FromString`. -/
def fromString (str : List UInt8) : LogLevel :=
  if str = chars "debug" then .debug
  else if str = chars "info" then .info
  else if str = chars "warn" then .warn
  else if str = chars "error" then .error
  else if str = chars "fatal" then .fatal
  else if str = chars "DEBUG" then .debug
  else if str = chars "INFO" then .info
  else if str = chars "WARN" then .warn
  else if str = chars "ERROR" then .error
  else if str = chars "FATAL" then .fatal
  else .unknow

theorem fromString_toString (level : LogLevel) : fromString level.toString = level := by
  cases level with
  | _ => decide

end Lyslg.Log.LogLevel
