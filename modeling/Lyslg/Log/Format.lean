import Lyslg.Log.Formatter
import Lyslg.Log.Level
import Lyslg.Util.Numerals
/-!
# The items of a pattern and what they write

`init` makes an item of each entry of `vec`, and `format` lets the items write in their order.
What `strftime` writes for a conversion depends on the locale and the time zone and is a parameter.
-/

namespace Lyslg.Log

open Http Numerals

/-- The classes of items that `s_format_item` knows. -/
inductive Directive where
  | message
  | level
  | elapse
  | name
  | thread
  | fiber
  | newline
  | dateTime
  | filename
  | line
  | tab
  | threadName
  deriving DecidableEq, Repr

/-- The name of an item in a pattern. -/
def Directive.key : Directive → UInt8
  | .message => 109
  | .level => 112
  | .elapse => 114
  | .name => 99
  | .thread => 116
  | .fiber => 70
  | .newline => 110
  | .dateTime => 100
  | .filename => 102
  | .line => 108
  | .tab => 84
  | .threadName => 78

/-- `s_format_item`, in the order of its keys above. -/
def formatMap : List (List UInt8 × Directive) :=
  formatItems.zip [.message, .level, .elapse, .name, .thread, .fiber, .newline, .dateTime,
    .filename, .line, .tab, .threadName]

/-- `s_format_item.find(str)` -/
def findItem (str : List UInt8) : Option Directive :=
  (formatMap.find? fun entry => entry.1 = str).map Prod.snd

/-- A `FormatItem`: a `StringFormatItem`, or one of the others made with a format. -/
inductive FormatItem where
  | string (str : List UInt8)
  | directive (d : Directive) (fmt : List UInt8)
  deriving DecidableEq, Repr

/-- The item of an entry of `vec`. -/
def Piece.item (piece : Piece) : FormatItem :=
  if !piece.directive then .string piece.str
  else
    match findItem piece.str with
    | none => .string (chars "<<error_format %" ++ piece.str ++ chars ">>")
    | some d => .directive d piece.fmt

/-- `m_items` -/
def LogFormatter.items (f : LogFormatter) : List FormatItem := f.pieces.map Piece.item

/-! ## Writing -/

/-- What the items read of a `LogEvent`; `loggerName` is the name of its logger, and `file` the
text that `m_file` points to. -/
structure LogEvent where
  file : List UInt8
  line : Int32
  elapse : Int32
  threadId : Int32
  fiberId : Int32
  time : Int
  content : List UInt8
  loggerName : List UInt8
  threadName : List UInt8

/-- What a conversion of `strftime` writes at a time, given the characters behind its `%`, and how
many of these it takes. -/
abbrev Conversions := List UInt8 → Int → List UInt8 × Nat

/-- The text that `strftime` makes of a format; every step takes a character, so the length of the
format is fuel enough. -/
def strftimeText (convert : Conversions) (time : Int) : Nat → List UInt8 → List UInt8
  | 0, _ => []
  | _ + 1, [] => []
  | fuel + 1, c :: rest =>
      if c ≠ 37 then c :: strftimeText convert time fuel rest
      else if rest.head? = some 37 then 37 :: strftimeText convert time fuel rest.tail
      else (convert rest time).1 ++ strftimeText convert time fuel (rest.drop (convert rest time).2)

/-- `strftime(buf, max, format, &tm)`.  A text that does not fit leaves no specified one in
`buf`. -/
def strftime (convert : Conversions) (max : Nat) (format : List UInt8) (time : Int) :
    Option (List UInt8) :=
  let text := strftimeText convert time format.length format
  if text.length < max then some text else none

/-- `os << v` -/
def intText (v : Int32) : List UInt8 :=
  if v.toInt < 0 then 45 :: numeral 10 v.toInt.natAbs else numeral 10 v.toInt.natAbs

/-- `FormatItem::format`: what is written. -/
def FormatItem.format (convert : Conversions) (level : LogLevel) (event : LogEvent) :
    FormatItem → Option (List UInt8)
  | .string str => some str
  | .directive .message _ => some event.content
  | .directive .level _ => some level.toString
  | .directive .elapse _ => some (intText event.elapse)
  | .directive .name _ => some event.loggerName
  | .directive .thread _ => some (intText event.threadId)
  | .directive .fiber _ => some (intText event.fiberId)
  | .directive .newline _ => some [10]
  | .directive .dateTime fmt => (strftime convert 64 (cStr fmt) event.time).map cStr
  | .directive .filename _ => some (cStr event.file)
  | .directive .line _ => some (intText event.line)
  | .directive .tab _ => some [9]
  | .directive .threadName _ => some event.threadName

/-- The items one after the other. -/
def formatAll (convert : Conversions) (level : LogLevel) (event : LogEvent) :
    List FormatItem → Option (List UInt8)
  | [] => some []
  | item :: items =>
      (item.format convert level event).bind fun out =>
        (formatAll convert level event items).map (out ++ ·)

/-- `LogFormatter::format`. -/
def LogFormatter.format (convert : Conversions) (f : LogFormatter) (level : LogLevel)
    (event : LogEvent) : Option (List UInt8) :=
  formatAll convert level event f.items

/-! ## The table of items -/

section Table

variable {str : List UInt8} {d : Directive}

theorem findItem_key (d : Directive) : findItem [d.key] = some d := by
  cases d with
  | _ => decide

open scoped ListMembers in
theorem formatMap_keys : ∀ entry ∈ formatMap, entry.1 = [entry.2.key] := by
  decide

theorem findItem_inv (h : findItem str = some d) : str = [d.key] := by
  obtain ⟨entry, hfind, rfl⟩ := Option.map_eq_some_iff.mp h
  have hkey := formatMap_keys entry (List.mem_of_find?_eq_some hfind)
  have htest := List.find?_some hfind
  have hstr : entry.1 = str := of_decide_eq_true htest
  rw [← hstr, hkey]

theorem map_fst_formatMap : formatMap.map Prod.fst = formatItems := by
  apply List.map_fst_zip
  decide

/-- The names without an item are those in error. -/
theorem findItem_eq_none : findItem str = none ↔ str ∉ formatItems := by
  rw [findItem, Option.map_eq_none_iff, List.find?_eq_none, ← map_fst_formatMap]
  constructor
  · intro h hmem
    obtain ⟨entry, hentry, rfl⟩ := List.mem_map.mp hmem
    exact h entry hentry (decide_eq_true rfl)
  · intro h entry hentry htest
    exact h (of_decide_eq_true htest ▸ List.mem_map_of_mem hentry)

end Table

end Lyslg.Log
