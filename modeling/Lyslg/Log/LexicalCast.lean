import Lyslg.YAML.Flow
/-!
# Definitions of loggers as text

`LexicalCast` of `log.cc` writes what differs from a new definition, and reads the appenders
member by member.
-/

namespace Lyslg.Log

open Http YAML Node

/-! ## From a definition -/

/-- The node `na` of an appender. -/
def LogAppenderDefine.toNode (a : LogAppenderDefine) : Node :=
  .ofFields
    [(chars "type",
        if a.type = 1 then some (.scalar (chars "FileLogAppender"))
        else if a.type = 2 then some (.scalar (chars "StdoutLogAppender"))
        else none),
      (chars "file", if a.type = 1 then some (.scalar a.file) else none),
      (chars "level", if a.level ≠ .unknow then some (.scalar a.level.toString) else none),
      (chars "formatter", if a.formatter ≠ [] then some (.scalar a.formatter) else none)]

def LogDefine.toNode (i : LogDefine) : Node :=
  .ofFields
    [(chars "name", some (.scalar i.name)),
      (chars "level", if i.level ≠ .unknow then some (.scalar i.level.toString) else none),
      (chars "formatter", if i.formatter ≠ [] then some (.scalar i.formatter) else none),
      (chars "appenders",
        if i.appenders ≠ [] then
          some (.sequence (i.appenders.map LogAppenderDefine.toNode))
        else none)]

/-! ## To a definition -/

/-- `n[key].as<std::string>()`, if it is defined. -/
def stringMember (yaml : Library) (n : Option Node) (key : List UInt8) :
    Option (Option (List UInt8)) :=
  (member n key).bind fun value =>
    if value.isSome then (asString yaml value).map some else some none

/-- What the loop over the appenders makes of one: nothing, after a message, if its type or its
file is missing.  It does not look at the level. -/
def LogAppenderDefine.ofNode (yaml : Library) (a : Option Node) :
    Option (Option LogAppenderDefine) := do
  let type ← stringMember yaml a (chars "type")
  if type = some (chars "FileLogAppender") then
    let file ← stringMember yaml a (chars "file")
    if file.isNone then
      return none
    let formatter ← stringMember yaml a (chars "formatter")
    return some { type := 1, file := file.getD [], formatter := formatter.getD [] }
  else if type = some (chars "StdoutLogAppender") then
    let formatter ← stringMember yaml a (chars "formatter")
    return some { type := 2, formatter := formatter.getD [] }
  else
    return none

def appendersOf (yaml : Library) : List (Option Node) → Option (List LogAppenderDefine)
  | [] => some []
  | a :: rest => do
      let lad ← LogAppenderDefine.ofNode yaml a
      let lads ← appendersOf yaml rest
      return lad.toList ++ lads

/-- Without a name it throws. -/
def LogDefine.ofNode (yaml : Library) (n : Node) : Option LogDefine := do
  let name ← stringMember yaml (some n) (chars "name")
  let name ← name
  let level ← stringMember yaml (some n) (chars "level")
  let formatter ← stringMember yaml (some n) (chars "formatter")
  let appenders ← member (some n) (chars "appenders")
  let lads ← appendersOf yaml ((appenders.map fun node => node.items yaml).getD [])
  return {
    name := name
    level := .fromString (level.getD [])
    formatter := formatter.getD []
    appenders := lads }

/-! ## The casts -/

/-- `LexicalCast<LogDefine, std::string>` -/
def LogDefine.toText (yaml : Library) (i : LogDefine) : List UInt8 := yaml.emit i.toNode

/-- `LexicalCast<std::string, LogDefine>` -/
def LogDefine.ofText (yaml : Library) (v : List UInt8) : Option LogDefine :=
  (yaml.load v).bind (LogDefine.ofNode yaml)

/-! ## There and back -/

section RoundTrip

variable {yaml : Library} {fields : List (List UInt8 × Option Node)} {key text : List UInt8}

theorem stringMember_ofFields {p : Prop} [Decidable p] (hnodup : (fields.map Prod.fst).Nodup)
    (hmem : (key, if p then some (.scalar text) else none) ∈ fields) :
    stringMember yaml (some (ofFields fields)) key = some (if p then some text else none) := by
  rw [stringMember, member_ofFields hnodup hmem]
  by_cases hp : p
  · rw [if_pos hp, if_pos hp]
    rfl
  · rw [if_neg hp, if_neg hp]
    rfl

theorem getD_formatter (formatter : List UInt8) :
    (if formatter ≠ [] then some formatter else none).getD [] = formatter := by
  by_cases h : formatter = []
  · rw [if_neg (not_not_intro h), h]
    rfl
  · rw [if_pos h]
    rfl

theorem fromString_level (level : LogLevel) :
    LogLevel.fromString ((if level ≠ .unknow then some level.toString else none).getD []) =
      level := by
  by_cases h : level = .unknow
  · rw [if_neg (not_not_intro h), h]
    decide
  · rw [if_pos h]
    exact LogLevel.fromString_toString level

theorem stringMember_scalar (hnodup : (fields.map Prod.fst).Nodup)
    (hmem : (key, some (.scalar text)) ∈ fields) :
    stringMember yaml (some (ofFields fields)) key = some (some text) := by
  rw [stringMember, member_ofFields hnodup hmem]
  rfl

/-- An appender that was written is read without its level. -/
theorem ofNode_appender {a : LogAppenderDefine} (ha : a.type = 1 ∨ a.type = 2 ∧ a.file = []) :
    LogAppenderDefine.ofNode yaml (some a.toNode) = some (some { a with level := .unknow }) := by
  have hkeys : [chars "type", chars "file", chars "level", chars "formatter"].Nodup := by decide
  have hformatter : stringMember yaml (some a.toNode) (chars "formatter") =
      some (if a.formatter ≠ [] then some a.formatter else none) :=
    stringMember_ofFields hkeys (by simp)
  rcases ha with hfile | ⟨hstdout, hnofile⟩
  · have htype : stringMember yaml (some a.toNode) (chars "type") =
        some (some (chars "FileLogAppender")) :=
      stringMember_scalar hkeys (by simp [hfile])
    have hpath : stringMember yaml (some a.toNode) (chars "file") = some (some a.file) :=
      stringMember_scalar hkeys (by simp [hfile])
    rw [LogAppenderDefine.ofNode, htype, Option.bind_eq_bind, Option.bind_some, if_pos rfl, hpath,
      Option.bind_some, hformatter]
    change some (some (LogAppenderDefine.mk 1 .unknow (Option.getD _ []) a.file)) = _
    rw [getD_formatter, hfile]
  · have htype : stringMember yaml (some a.toNode) (chars "type") =
        some (some (chars "StdoutLogAppender")) :=
      stringMember_scalar hkeys (by simp [hstdout])
    have hother : ¬ some (chars "StdoutLogAppender") = some (chars "FileLogAppender") := by decide
    rw [LogAppenderDefine.ofNode, htype, Option.bind_eq_bind, Option.bind_some, if_neg hother,
      if_pos rfl, hformatter]
    change some (some (LogAppenderDefine.mk 2 .unknow (Option.getD _ []) [])) = _
    rw [getD_formatter, hstdout, hnofile]

theorem appendersOf_map {appenders : List LogAppenderDefine}
    (h : ∀ a ∈ appenders, a.type = 1 ∨ a.type = 2 ∧ a.file = []) :
    appendersOf yaml ((appenders.map LogAppenderDefine.toNode).map some) =
      some (appenders.map fun a => { a with level := .unknow }) := by
  induction appenders with
  | nil => rfl
  | cons a appenders ih =>
      obtain ⟨ha, hrest⟩ := List.forall_mem_cons.mp h
      rw [List.map_cons, List.map_cons, appendersOf, ofNode_appender ha, ih hrest]
      rfl

theorem ofNode_toNode {ld : LogDefine}
    (h : ∀ a ∈ ld.appenders, a.type = 1 ∨ a.type = 2 ∧ a.file = []) :
    LogDefine.ofNode yaml ld.toNode =
      some { ld with appenders := ld.appenders.map fun a => { a with level := .unknow } } := by
  have hkeys : [chars "name", chars "level", chars "formatter", chars "appenders"].Nodup := by
    decide
  have hname : stringMember yaml (some ld.toNode) (chars "name") = some (some ld.name) :=
    stringMember_scalar hkeys (by simp)
  have hlevel : stringMember yaml (some ld.toNode) (chars "level") =
      some (if ld.level ≠ .unknow then some ld.level.toString else none) :=
    stringMember_ofFields hkeys (by simp)
  have hformatter : stringMember yaml (some ld.toNode) (chars "formatter") =
      some (if ld.formatter ≠ [] then some ld.formatter else none) :=
    stringMember_ofFields hkeys (by simp)
  have happenders : member (some ld.toNode) (chars "appenders") =
      some (if ld.appenders ≠ [] then
        some (.sequence (ld.appenders.map LogAppenderDefine.toNode)) else none) :=
    member_ofFields hkeys (by simp)
  have hitems : ((if ld.appenders ≠ [] then
        some (Node.sequence (ld.appenders.map LogAppenderDefine.toNode))
      else none).map fun node => node.items yaml).getD [] =
        (ld.appenders.map LogAppenderDefine.toNode).map some := by
    by_cases hnil : ld.appenders = []
    · rw [if_neg (not_not_intro hnil), hnil]
      rfl
    · rw [if_pos hnil, Option.map_some, items_sequence]
      rfl
  rw [LogDefine.ofNode, hname, hlevel, hformatter, happenders]
  change (appendersOf yaml ((Option.map _ _).getD [])).bind _ = _
  rw [hitems, appendersOf_map h]
  change some (LogDefine.mk ld.name (.fromString (Option.getD _ [])) (Option.getD _ []) _) = _
  rw [fromString_level, getD_formatter]

end RoundTrip

/-- The definition comes back exactly if no appender has a level of its own. -/
theorem logDefine_survives_iff {yaml : Library} (hload : ∀ n, yaml.load (yaml.emit n) = some n)
    {ld : LogDefine} (happenders : ∀ a ∈ ld.appenders, a.type = 1 ∨ a.type = 2 ∧ a.file = []) :
    LogDefine.ofText yaml (ld.toText yaml) = some ld ↔ ∀ a ∈ ld.appenders, a.level = .unknow := by
  rw [LogDefine.ofText, LogDefine.toText, hload, Option.bind_some, ofNode_toNode happenders]
  constructor
  · intro h a ha
    have hlevels : ld.appenders.map (fun a => { a with level := .unknow }) = ld.appenders :=
      congrArg LogDefine.appenders (Option.some.inj h)
    rw [← hlevels] at ha
    obtain ⟨b, _, rfl⟩ := List.mem_map.mp ha
    rfl
  · intro h
    have hlevels : ld.appenders.map (fun a => { a with level := .unknow }) = ld.appenders := by
      conv_rhs => rw [← List.map_id ld.appenders]
      apply List.map_congr_left
      intro a ha
      rw [← h a ha]
      rfl
    rw [hlevels]

/-- The root logger of `log.yml`. -/
def rootDefine : LogDefine where
  name := chars "root"
  level := .info
  appenders := [{ type := 1, file := chars "../logs/root.txt" }, { type := 2 }]

def rootText : List UInt8 :=
  chars "name: root\nlevel: INFO\nappenders:\n  - type: FileLogAppender\n    file: " ++
    chars "../logs/root.txt\n  - type: StdoutLogAppender"

def rootYaml : Library := Flow.library [(rootDefine.toNode, rootText)]

theorem rootYaml_load_emit (n : Node) : rootYaml.load (rootYaml.emit n) = some n := by
  have hplain : ∀ text ∈ [rootText], Flow.isPlain text = true := by decide +kernel
  apply Flow.library_load_emit
  · exact List.nodup_singleton rootText
  · exact hplain

theorem logDefine_survives_root :
    LogDefine.ofText rootYaml (rootDefine.toText rootYaml) = some rootDefine ↔
      ∀ a ∈ rootDefine.appenders, a.level = .unknow :=
  logDefine_survives_iff rootYaml_load_emit (by simp [rootDefine])

/-- An appender for errors only. -/
def errorDefine : LogDefine where
  name := chars "root"
  level := .info
  appenders := [{ type := 2, level := .error }]

def errorText : List UInt8 :=
  chars "name: root\nlevel: INFO\nappenders:\n  - type: StdoutLogAppender\n    level: ERROR"

def errorYaml : Library := Flow.library [(errorDefine.toNode, errorText)]

theorem errorYaml_load_emit (n : Node) : errorYaml.load (errorYaml.emit n) = some n := by
  have hplain : ∀ text ∈ [errorText], Flow.isPlain text = true := by decide +kernel
  apply Flow.library_load_emit
  · exact List.nodup_singleton errorText
  · exact hplain

/-- Its level is lost. -/
theorem logDefine_loses_level :
    (∀ n, errorYaml.load (errorYaml.emit n) = some n) ∧
      ¬ LogDefine.ofText errorYaml (errorDefine.toText errorYaml) = some errorDefine := by
  refine ⟨errorYaml_load_emit, ?_⟩
  rw [LogDefine.ofText, LogDefine.toText, errorYaml_load_emit, Option.bind_some,
    ofNode_toNode (by simp [errorDefine])]
  intro h
  have hlevel := congrArg (fun ld => ld.appenders.map LogAppenderDefine.level) (Option.some.inj h)
  revert hlevel
  decide

end Lyslg.Log
