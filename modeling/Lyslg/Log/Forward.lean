import Lyslg.Log.Reload
import Lyslg.Support.Run
/-!
# Logging after the configuration has changed

A logger without appenders forwards its events to the root logger, which has nobody to forward
them to.  The configuration may name the root logger like any other, so whether an event can
be logged depends on what the changes of `logs` have left of its appenders.
-/

namespace Lyslg.Log

open Support

/-- The value of `g_log_defines`, and the loggers of the `LoggerManager`. -/
structure LogSystem where
  defs : LogDefines := {}
  loggers : Loggers := .initial

inductive LogChange where
  /-- `g_log_defines->setValue(new)`; `daemon` is `EnvMgr::has("d")` -/
  | setLogs (daemon : Bool) (new : LogDefines)
  | getLogger (name : List UInt8)

/-- One change; none when it dereferences a null pointer.  `setValue` keeps the value that it
takes for equal to the new one. -/
def LogSystem.change (s : LogSystem) : LogChange → Option LogSystem
  | .setLogs daemon new => do
      let loggers ← setLogs daemon s.defs new s.loggers
      return { defs := if new == s.defs then s.defs else new, loggers := loggers }
  | .getLogger name => some { s with loggers := s.loggers.update name id }

def LogSystem.Step (s : LogSystem) (c : LogChange) (t : LogSystem) : Prop := s.change c = some t

/-- No event for any logger dereferences a null `m_root`. -/
def LoggingPossible (s : LogSystem) : Prop := ∀ name level, s.loggers.log name level ≠ none

/-- The change leaves the root logger an appender. -/
def KeepsRoot (s : LogSystem) : LogChange → Prop
  | .setLogs daemon new =>
      (∀ d ∈ new.defs, d.name = rootName → Known s.defs d ∨
        ∃ a ∈ d.appenders, ¬ (daemon = true ∧ a.type = 2)) ∧
      ∀ d ∈ s.defs.defs, d.name = rootName → ∃ e ∈ new.defs, e.name = rootName
  | .getLogger _ => True

/-! ## The root logger -/

theorem Logger.log_eq_none {logger : Logger} {root : Option Delivery} {level : LogLevel} :
    logger.log root level = none ↔
      logger.level.value ≤ level.value ∧ logger.appenders = [] ∧ root = none := by
  unfold Logger.log
  by_cases hlevel : logger.level.value ≤ level.value
  · rw [if_pos hlevel]
    by_cases hempty : logger.appenders = []
    · simp [hlevel, hempty]
    · simp [hempty]
  · simp [hlevel]

/-- Every logger shows a `FATAL` event, so the root logger needs an appender. -/
theorem loggingPossible_iff {s : LogSystem} :
    LoggingPossible s ↔ (s.loggers.getLogger rootName).appenders ≠ [] := by
  constructor
  · intro h hempty
    apply h rootName .fatal
    rw [Loggers.log, if_pos rfl, Logger.log_eq_none]
    refine ⟨?_, hempty, rfl⟩
    cases (s.loggers.getLogger rootName).level <;> decide
  · intro h name level hnone
    have hroot : (s.loggers.getLogger rootName).log none level ≠ none := by
      intro hroot
      exact h (Logger.log_eq_none.mp hroot).2.1
    rw [Loggers.log] at hnone
    split at hnone
    · exact hroot hnone
    · exact hroot (Logger.log_eq_none.mp hnone).2.2

theorem loggingPossible_start : LoggingPossible {} := by
  rw [loggingPossible_iff]
  decide

section Changes

variable {daemon : Bool} {old new : LogDefines} {loggers loggers' : Loggers} {d : LogDefine}

/-- What the two loops leave of the root logger, when it is not defined any more. -/
theorem applyLogs_undefined (h : applyLogs daemon old new loggers = some loggers')
    (hnew : ∀ d ∈ new.defs, d.name ≠ rootName) :
    ((∃ d ∈ old.defs, d.name = rootName) → (loggers'.getLogger rootName).appenders = []) ∧
      ((¬ ∃ d ∈ old.defs, d.name = rootName) →
        loggers'.getLogger rootName = loggers.getLogger rootName) := by
  unfold applyLogs at h
  rcases @applyNew_spec daemon old new.defs new.nodup_names loggers with
    ⟨hnone, -⟩ | ⟨applied, hsome, -, happlied⟩
  · rw [hnone] at h
    cases h
  · rw [hsome] at h
    cases h
    constructor
    · rintro ⟨d, hd, hname⟩
      obtain ⟨logger, hlogger, hempty⟩ := (removeOld_spec old.defs applied rootName).1
        ⟨d, hd, hname, hnew⟩
      rw [Loggers.getLogger, hlogger]
      exact hempty
    · intro hold
      have hkept := (@removeOld_spec new old.defs applied rootName).2 fun d hd hname =>
        absurd ⟨d, hd, hname⟩ hold
      have hother := happlied.other rootName fun d hd hname => absurd hname (hnew d hd)
      rw [Loggers.getLogger, hkept, hother, Loggers.getLogger]

/-- What they leave of it when it is defined. -/
theorem applyLogs_defined (h : applyLogs daemon old new loggers = some loggers')
    (hd : d ∈ new.defs) (hname : d.name = rootName) :
    (Known old d → loggers'.getLogger rootName = loggers.getLogger rootName) ∧
      (¬ Known old d → Corresponds daemon d.appenders (loggers'.getLogger rootName).appenders) := by
  unfold applyLogs at h
  rcases @applyNew_spec daemon old new.defs new.nodup_names loggers with
    ⟨hnone, -⟩ | ⟨applied, hsome, -, happlied⟩
  · rw [hnone] at h
    cases h
  · rw [hsome] at h
    cases h
    have hkept := (@removeOld_spec new old.defs applied rootName).2 fun _ _ _ =>
      ⟨d, hd, hname⟩
    constructor
    · intro hknown
      have hother : applied rootName = loggers rootName := by
        apply happlied.other
        intro e he hsame
        rwa [new.eq_of_name he hd (hsame.trans hname.symm)]
      rw [Loggers.getLogger, hkept, hother, Loggers.getLogger]
    · intro hknown
      obtain ⟨logger, hlogger, -, hcorr⟩ := happlied.changed d hd hknown
      rw [hname] at hlogger
      rw [Loggers.getLogger, hkept, hlogger]
      exact hcorr

theorem corresponds_ne_nil {aps : List LogAppender}
    (h : Corresponds daemon d.appenders aps) :
    aps ≠ [] ↔ ∃ a ∈ d.appenders, ¬ (daemon = true ∧ a.type = 2) := by
  have hlength := h.length_eq
  rw [← List.length_pos_iff, ← hlength, List.length_pos_iff]
  simp [List.filter_eq_nil_iff]

end Changes

/-- From a state in which every event can be logged, a change leads to another one exactly
when it leaves the root logger an appender. -/
theorem change_possible_iff {s t : LogSystem} {c : LogChange} (h : LoggingPossible s)
    (hstep : s.Step c t) : LoggingPossible t ↔ KeepsRoot s c := by
  have hroot := loggingPossible_iff.mp h
  rw [loggingPossible_iff]
  cases c with
  | getLogger name =>
      cases hstep
      refine iff_of_true ?_ trivial
      have hsame : (s.loggers.update name id).getLogger rootName =
          s.loggers.getLogger rootName := by
        unfold Loggers.getLogger Loggers.update
        by_cases hname : rootName = name
        · rw [hname, Function.update_self]
          rfl
        · rw [Function.update_of_ne hname]
      rwa [← hsame] at hroot
  | setLogs daemon new =>
      obtain ⟨loggers, hset, ht⟩ := Option.bind_eq_some_iff.mp hstep
      cases ht
      rw [setLogs_eq fun _ => h rootName .info] at hset
      unfold KeepsRoot
      by_cases hdefined : ∃ d ∈ new.defs, d.name = rootName
      · obtain ⟨d, hd, hname⟩ := hdefined
        have hspec := applyLogs_defined hset hd hname
        have hunique : ∀ e ∈ new.defs, e.name = rootName → e = d := fun e he hsame =>
          new.eq_of_name he hd (hsame.trans hname.symm)
        by_cases hknown : Known s.defs d
        · rw [hspec.1 hknown]
          refine iff_of_true hroot ⟨?_, fun _ _ _ => ⟨d, hd, hname⟩⟩
          intro e he hsame
          rw [hunique e he hsame]
          exact Or.inl hknown
        · rw [corresponds_ne_nil (hspec.2 hknown)]
          constructor
          · intro hsome
            refine ⟨?_, fun _ _ _ => ⟨d, hd, hname⟩⟩
            intro e he hsame
            rw [hunique e he hsame]
            exact Or.inr hsome
          · rintro ⟨hkeeps, -⟩
            exact (hkeeps d hd hname).resolve_left hknown
      · have hnew : ∀ d ∈ new.defs, d.name ≠ rootName := fun d hd hname => hdefined ⟨d, hd, hname⟩
        have hspec := applyLogs_undefined hset hnew
        by_cases hold : ∃ d ∈ s.defs.defs, d.name = rootName
        · rw [hspec.1 hold]
          refine iff_of_false (fun hne => hne rfl) ?_
          rintro ⟨-, hkeeps⟩
          obtain ⟨d, hd, hname⟩ := hold
          exact hdefined (hkeeps d hd hname)
        · rw [hspec.2 hold]
          refine iff_of_true hroot ⟨fun d hd hname => absurd hname (hnew d hd), ?_⟩
          intro d hd hname
          exact absurd ⟨d, hd, hname⟩ hold

/-- Every event can be logged in all states of a run exactly when each change leaves the root
logger an appender. -/
theorem logging_possible_iff (cs : List LogChange) (t : LogSystem) :
    LoggingPossible {} ∧
      (Run (Run.Ensuring LogSystem.Step LoggingPossible) {} cs t ↔
        Run (Run.Guarded LogSystem.Step KeepsRoot) {} cs t) := by
  refine ⟨loggingPossible_start, ?_⟩
  apply Run.ensuring_iff_guarded (I := fun _ => True)
  · intro s c t _ hpossible hstep
    exact ⟨trivial, change_possible_iff hpossible hstep⟩
  · trivial
  · exact loggingPossible_start

/-- The root logger is defined without appenders. -/
theorem logging_impossible :
    let new : LogDefines := ⟨[{ name := rootName, level := .info }], List.pairwise_singleton _ _⟩
    ∃ t, Run LogSystem.Step {} [.setLogs false new] t ∧ ¬ LoggingPossible t := by
  intro new
  obtain ⟨t, ht⟩ : ∃ t, LogSystem.change {} (.setLogs false new) = some t :=
    Option.isSome_iff_exists.mp (by decide)
  refine ⟨t, .cons ht (.nil t), ?_⟩
  rw [change_possible_iff loggingPossible_start ht]
  rintro ⟨hkeeps, -⟩
  rcases hkeeps _ List.mem_cons_self rfl with ⟨oth, hoth, -⟩ | ⟨a, ha, -⟩
  · exact absurd hoth List.not_mem_nil
  · exact absurd ha List.not_mem_nil

end Lyslg.Log
