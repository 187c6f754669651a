import Lyslg.Log.Logger
import Mathlib.Data.List.Nodup
/-!
# Reloading the log configuration

What the loggers look like after `logs` was set from one set of definitions to another.
Two definitions count as equal when they agree on everything but their appenders, so a
definition that changes only there is passed over.
-/

namespace Lyslg.Log

variable {daemon : Bool} {old new : LogDefines} {loggers loggers' : Loggers} {d oth : LogDefine}
  {logger logger' : Logger}

/-! ## What a configuration asks for -/

/-- The appender is the one that its definition describes. -/
structure Describes (a : LogAppenderDefine) (ap : LogAppender) : Prop where
  output : a.type = 1 ∧ ap.output = .file a.file ∨ a.type = 2 ∧ ap.output = .stdout
  level : ap.level = a.level
  formatter : a.formatter ≠ [] → (LogFormatter.mk a.formatter).isError = false →
    ap.formatter = some ⟨a.formatter⟩

/-- The appenders are, in order, those of the definitions; a daemon has none for the standard
output. -/
def Corresponds (daemon : Bool) (appenders : List LogAppenderDefine) (aps : List LogAppender) :
    Prop :=
  List.Forall₂ Describes (appenders.filter fun a => !(daemon && a.type = 2)) aps

/-- Every logger that is defined has its level and its appenders. -/
def ConfiguredBy (daemon : Bool) (defs : LogDefines) (loggers : Loggers) : Prop :=
  ∀ d ∈ defs.defs, ∃ logger, loggers d.name = some logger ∧ logger.level = d.level ∧
    Corresponds daemon d.appenders logger.appenders

/-- The loggers are configured by the new definitions, and those without one have no
appenders any more; none if the process has crashed. -/
def Faithful (daemon : Bool) (old new : LogDefines) : Option Loggers → Prop
  | none => False
  | some loggers =>
      ConfiguredBy daemon new loggers ∧
        ∀ d ∈ old.defs, (∀ e ∈ new.defs, e.name ≠ d.name) →
          ∀ logger, loggers d.name = some logger → logger.appenders = []

/-- The definition was there before, but for its appenders. -/
def Known (old : LogDefines) (d : LogDefine) : Prop := ∃ oth ∈ old.defs, (d == oth) = true

/-- The appenders of a definition that was there before are those the logger has already, and
every other definition has appenders of the two types there are.  The root logger can take the
event with which a change begins. -/
structure Noticed (daemon : Bool) (old new : LogDefines) (loggers : Loggers) : Prop where
  announced : (new == old) = false → loggers.log rootName .info ≠ none
  known : ∀ d ∈ new.defs, Known old d →
    Corresponds daemon d.appenders (loggers.getLogger d.name).appenders
  changed : ∀ d ∈ new.defs, ¬ Known old d → ∀ a ∈ d.appenders, a.type = 1 ∨ a.type = 2

/-! ## The comparisons -/

instance : LawfulBEq LogAppenderDefine where
  rfl := by
    intro a
    change (a.type == a.type && decide (a.level = a.level) && a.formatter == a.formatter
      && a.file == a.file) = true
    simp
  eq_of_beq := by
    intro a b h
    change (a.type == b.type && decide (a.level = b.level) && a.formatter == b.formatter
      && a.file == b.file) = true at h
    obtain ⟨type, level, formatter, file⟩ := a
    obtain ⟨type', level', formatter', file'⟩ := b
    simpa [and_assoc] using h

/-- The appenders play no part. -/
theorem beq_iff : (d == oth) = true ↔
    d.name = oth.name ∧ d.level = oth.level ∧ d.formatter = oth.formatter := by
  change (d.name == oth.name && decide (d.level = oth.level) && d.formatter == oth.formatter
    && d.appenders == d.appenders) = true ↔ _
  rw [beq_self_eq_true]
  simp [and_assoc]

theorem name_eq_of_find_test {a b : List UInt8}
    (h : (!decide (a < b) && !decide (b < a)) = true) : a = b := by
  simp only [Bool.and_eq_true, Bool.not_eq_true', decide_eq_false_iff_not] at h
  exact List.le_antisymm h.2 h.1

namespace LogDefines

theorem nodup_names (s : LogDefines) : (s.defs.map LogDefine.name).Nodup := by
  refine List.pairwise_map.mpr (s.sorted.imp ?_)
  intro a b hlt heq
  rw [heq] at hlt
  exact List.lt_irrefl _ hlt

/-- Two definitions of a set have different names. -/
theorem eq_of_name (s : LogDefines) (hd : d ∈ s.defs) (hoth : oth ∈ s.defs)
    (hname : d.name = oth.name) : d = oth :=
  List.inj_on_of_nodup_map s.nodup_names hd hoth hname

theorem find_eq_some (s : LogDefines) (h : s.find d = some oth) :
    oth ∈ s.defs ∧ oth.name = d.name := by
  have htest := List.find?_some h
  exact ⟨List.mem_of_find?_eq_some h, name_eq_of_find_test htest⟩

theorem find_eq_none (s : LogDefines) (h : s.find d = none) : ∀ e ∈ s.defs, e.name ≠ d.name := by
  intro e he heq
  have hnot := List.find?_eq_none.mp h e he
  rw [heq] at hnot
  simp [List.lt_irrefl] at hnot

/-- The definition was there before if and only if the one of its name is equal to it. -/
theorem known_iff (s : LogDefines) :
    Known s d ↔ ∃ oth, s.find d = some oth ∧ (d == oth) = true := by
  constructor
  · rintro ⟨oth, hoth, heq⟩
    have hname := (beq_iff.mp heq).1
    cases hfind : s.find d with
    | none => exact absurd hname.symm (s.find_eq_none hfind oth hoth)
    | some found =>
        obtain ⟨hfound, hsame⟩ := s.find_eq_some hfind
        obtain rfl := s.eq_of_name hfound hoth (hsame.trans hname)
        exact ⟨found, rfl, heq⟩
  · rintro ⟨oth, hfind, heq⟩
    exact ⟨oth, (s.find_eq_some hfind).1, heq⟩

/-- Equal sets define the same names, and define them equally but for the appenders. -/
theorem of_beq {s t : LogDefines} (h : (s == t) = true) :
    (∀ d ∈ s.defs, Known t d) ∧ ∀ oth ∈ t.defs, ∃ d ∈ s.defs, d.name = oth.name := by
  have hall : ∀ (ds es : List LogDefine), ds.length = es.length →
      (List.zipWith (fun d e => d == e) ds es).all id = true →
      (∀ d ∈ ds, ∃ e ∈ es, (d == e) = true) ∧ ∀ e ∈ es, ∃ d ∈ ds, d.name = e.name := by
    intro ds
    induction ds with
    | nil =>
        intro es hlen _
        obtain rfl := List.length_eq_zero_iff.mp hlen.symm
        simp
    | cons d ds ih =>
        intro es hlen hzip
        cases es with
        | nil => cases hlen
        | cons e es =>
            rw [List.zipWith_cons_cons, List.all_cons, Bool.and_eq_true] at hzip
            obtain ⟨hhead, htail⟩ := hzip
            obtain ⟨hleft, hright⟩ := ih es (Nat.succ.inj hlen) htail
            constructor
            · intro x hx
              rcases List.mem_cons.mp hx with rfl | hx
              · exact ⟨e, List.mem_cons_self, hhead⟩
              · obtain ⟨y, hy, hxy⟩ := hleft x hx
                exact ⟨y, List.mem_cons_of_mem _ hy, hxy⟩
            · intro y hy
              rcases List.mem_cons.mp hy with rfl | hy
              · exact ⟨d, List.mem_cons_self, (beq_iff.mp hhead).1⟩
              · obtain ⟨x, hx, hxy⟩ := hright y hy
                exact ⟨x, List.mem_cons_of_mem _ hx, hxy⟩
  change (s.defs.length == t.defs.length && (List.zipWith (fun d e => d == e) s.defs t.defs).all id)
    = true at h
  rw [Bool.and_eq_true, beq_iff_eq] at h
  exact hall s.defs t.defs h.1 h.2

end LogDefines

/-! ## Configuring one logger -/

/-- The appender of a definition is the one that it describes, once it has its level and its
formatter and is added to a logger. -/
theorem describes_added {a : LogAppenderDefine} {ap : LogAppender} (logger : Logger)
    (houtput : a.type = 1 ∧ ap.output = .file a.file ∨ a.type = 2 ∧ ap.output = .stdout) :
    let fmt : LogFormatter := ⟨a.formatter⟩
    let ap := { ap with level := a.level }
    let ap := if a.formatter ≠ [] ∧ fmt.isError = false then ap.setFormatter fmt else ap
    ∃ added, logger.addAppender ap = { logger with appenders := logger.appenders ++ [added] } ∧
      Describes a added := by
  intro fmt ap' ap''
  refine ⟨_, rfl, ?_⟩
  by_cases hvalid : a.formatter ≠ [] ∧ fmt.isError = false
  · have hset : ap'' = ap'.setFormatter fmt := if_pos hvalid
    rw [hset, if_neg (by simp [LogAppender.setFormatter])]
    exact ⟨houtput, rfl, fun _ _ => rfl⟩
  · have hset : ap'' = ap' := if_neg hvalid
    rw [hset]
    refine ⟨?_, ?_, fun hne herr => absurd ⟨hne, herr⟩ hvalid⟩
    · split <;> exact houtput
    · split <;> rfl

/-- The loop over the appenders goes through if and only if their types are known, and then
it adds the appenders that they describe. -/
theorem addAppenders_spec (appenders : List LogAppenderDefine) (logger : Logger) :
    (addAppenders daemon appenders logger = none ∧ ¬ ∀ a ∈ appenders, a.type = 1 ∨ a.type = 2) ∨
      ∃ logger', addAppenders daemon appenders logger = some logger' ∧
        (∀ a ∈ appenders, a.type = 1 ∨ a.type = 2) ∧ logger'.level = logger.level ∧
        ∃ aps, logger'.appenders = logger.appenders ++ aps ∧ Corresponds daemon appenders aps := by
  induction appenders generalizing logger with
  | nil => exact Or.inr ⟨logger, rfl, by simp, rfl, [], by simp, .nil⟩
  | cons a appenders ih =>
      rw [addAppenders]
      cases hmake : makeAppender daemon a with
      | none =>
          -- the standard output of a daemon is left out
          have hout : daemon = true ∧ a.type = 2 := by
            unfold makeAppender at hmake
            split at hmake
            · cases hmake
            · split at hmake
              · rename_i htype
                split at hmake
                · rename_i hdaemon
                  exact ⟨hdaemon, htype⟩
                · cases hmake
              · cases hmake
          rcases ih logger with ⟨hnone, hbad⟩ | ⟨logger', hsome, htypes, hlevel, aps, haps, hcorr⟩
          · exact Or.inl ⟨hnone, fun hall => hbad fun b hb => hall b (List.mem_cons_of_mem _ hb)⟩
          · refine Or.inr ⟨logger', hsome, ?_, hlevel, aps, haps, ?_⟩
            · exact List.forall_mem_cons.mpr ⟨Or.inr hout.2, htypes⟩
            · unfold Corresponds
              rw [List.filter_cons_of_neg (by simp [hout])]
              exact hcorr
      | some made =>
          cases made with
          | none =>
              refine Or.inl ⟨rfl, ?_⟩
              intro hall
              unfold makeAppender at hmake
              rcases hall a List.mem_cons_self with htype | htype
              · rw [if_pos htype] at hmake
                cases hmake
              · rw [if_neg (by omega), if_pos htype] at hmake
                split at hmake <;> cases hmake
          | some ap =>
              have houtput : (a.type = 1 ∧ ap.output = .file a.file ∨
                  a.type = 2 ∧ ap.output = .stdout) ∧ ¬ (daemon = true ∧ a.type = 2) := by
                unfold makeAppender at hmake
                split at hmake
                · rename_i htype
                  cases hmake
                  exact ⟨Or.inl ⟨htype, rfl⟩, fun hboth => by omega⟩
                · split at hmake
                  · rename_i htype
                    split at hmake
                    · cases hmake
                    · rename_i hdaemon
                      cases hmake
                      exact ⟨Or.inr ⟨htype, rfl⟩, fun hboth => hdaemon hboth.1⟩
                  · cases hmake
              obtain ⟨added, hadd, hdescribes⟩ := describes_added logger houtput.1
              dsimp only at hadd ⊢
              rw [hadd]
              rcases ih { logger with appenders := logger.appenders ++ [added] } with
                ⟨hnone, hbad⟩ | ⟨logger', hsome, htypes, hlevel, aps, haps, hcorr⟩
              · exact Or.inl
                  ⟨hnone, fun hall => hbad fun b hb => hall b (List.mem_cons_of_mem _ hb)⟩
              · refine Or.inr ⟨logger', hsome, ?_, hlevel, added :: aps, ?_, ?_⟩
                · exact List.forall_mem_cons.mpr ⟨houtput.1.imp And.left And.left, htypes⟩
                · rw [haps, List.append_assoc, List.singleton_append]
                · unfold Corresponds
                  rw [List.filter_cons_of_pos (by simpa [imp_iff_not_or] using houtput.2)]
                  exact .cons hdescribes hcorr

theorem configure_spec (d : LogDefine) (logger : Logger) :
    (configure daemon d logger = none ∧ ¬ ∀ a ∈ d.appenders, a.type = 1 ∨ a.type = 2) ∨
      ∃ logger', configure daemon d logger = some logger' ∧
        (∀ a ∈ d.appenders, a.type = 1 ∨ a.type = 2) ∧ logger'.level = d.level ∧
        Corresponds daemon d.appenders logger'.appenders := by
  have hlevel : ∀ logger : Logger, logger.level = d.level →
      (if d.formatter ≠ [] then logger.setFormatter d.formatter else logger).level = d.level := by
    intro logger hlevel
    unfold Logger.setFormatter
    dsimp only
    split
    · split <;> exact hlevel
    · exact hlevel
  unfold configure
  dsimp only
  rcases @addAppenders_spec daemon d.appenders
      (if d.formatter ≠ [] then (logger.setLevel d.level).setFormatter d.formatter
        else logger.setLevel d.level).clearAppenders with
    hnone | ⟨logger', hsome, htypes, hlevel', aps, haps, hcorr⟩
  · exact Or.inl hnone
  · refine Or.inr ⟨logger', hsome, htypes, hlevel'.trans (hlevel _ rfl), ?_⟩
    rw [haps]
    exact hcorr

/-! ## The two loops -/

/-- What the loop over the new definitions leaves behind. -/
structure Applied (daemon : Bool) (old : LogDefines) (defs : List LogDefine)
    (loggers loggers' : Loggers) : Prop where
  changed : ∀ d ∈ defs, ¬ Known old d → ∃ logger, loggers' d.name = some logger ∧
    logger.level = d.level ∧ Corresponds daemon d.appenders logger.appenders
  other : ∀ name, (∀ d ∈ defs, d.name = name → Known old d) → loggers' name = loggers name

theorem applyNew_spec (defs : List LogDefine) (hnodup : (defs.map LogDefine.name).Nodup)
    (loggers : Loggers) :
    (applyNew daemon old defs loggers = none ∧
        ¬ ∀ d ∈ defs, ¬ Known old d → ∀ a ∈ d.appenders, a.type = 1 ∨ a.type = 2) ∨
      ∃ loggers', applyNew daemon old defs loggers = some loggers' ∧
        (∀ d ∈ defs, ¬ Known old d → ∀ a ∈ d.appenders, a.type = 1 ∨ a.type = 2) ∧
        Applied daemon old defs loggers loggers' := by
  induction defs generalizing loggers with
  | nil => exact Or.inr ⟨loggers, rfl, by simp, ⟨by simp, fun _ _ => rfl⟩⟩
  | cons d defs ih =>
      rw [List.map_cons, List.nodup_cons] at hnodup
      obtain ⟨hnew, hnodup⟩ := hnodup
      have hne : ∀ e ∈ defs, e.name ≠ d.name := fun e he heq =>
        hnew (heq ▸ List.mem_map_of_mem he)
      by_cases hknown : Known old d
      · -- nothing happens to a definition that was there before
        have hskip : applyNew daemon old (d :: defs) loggers =
            applyNew daemon old defs loggers := by
          obtain ⟨oth, hfind, heq⟩ := old.known_iff.mp hknown
          rw [applyNew, hfind]
          exact if_pos heq
        rw [hskip]
        rcases ih hnodup loggers with ⟨hnone, hbad⟩ | ⟨loggers', hsome, htypes, happlied⟩
        · exact Or.inl ⟨hnone, fun hall => hbad fun e he => hall e (List.mem_cons_of_mem _ he)⟩
        · refine Or.inr ⟨loggers', hsome, ?_, ?_, ?_⟩
          · exact List.forall_mem_cons.mpr ⟨fun hnot => absurd hknown hnot, htypes⟩
          · exact List.forall_mem_cons.mpr ⟨fun hnot => absurd hknown hnot, happlied.changed⟩
          · intro name hname
            exact happlied.other name fun e he => hname e (List.mem_cons_of_mem _ he)
      · have happly : applyNew daemon old (d :: defs) loggers =
            (configure daemon d (loggers.getLogger d.name)).bind fun logger =>
              applyNew daemon old defs (Function.update loggers d.name (some logger)) := by
          rw [applyNew]
          cases hfind : old.find d with
          | none => rfl
          | some oth => exact if_neg fun heq => hknown (old.known_iff.mpr ⟨oth, hfind, heq⟩)
        rw [happly]
        rcases @configure_spec daemon d (loggers.getLogger d.name) with
          ⟨hnone, hbad⟩ | ⟨logger, hsome, htypes, hlevel, hcorr⟩
        · rw [hnone]
          exact Or.inl ⟨rfl, fun hall => hbad (hall d List.mem_cons_self hknown)⟩
        · rw [hsome, Option.bind_some]
          rcases ih hnodup (Function.update loggers d.name (some logger)) with
            ⟨hnone, hbad⟩ | ⟨loggers', hrest, htypes', happlied⟩
          · exact Or.inl ⟨hnone, fun hall => hbad fun e he => hall e (List.mem_cons_of_mem _ he)⟩
          · have hself : loggers' d.name = some logger := by
              rw [happlied.other d.name fun e he heq => absurd heq (hne e he),
                Function.update_self]
            refine Or.inr ⟨loggers', hrest, ?_, ?_, ?_⟩
            · exact List.forall_mem_cons.mpr ⟨fun _ => htypes, htypes'⟩
            · exact List.forall_mem_cons.mpr
                ⟨fun _ => ⟨logger, hself, hlevel, hcorr⟩, happlied.changed⟩
            · intro name hname
              have hd : name ≠ d.name := fun heq =>
                hknown (hname d List.mem_cons_self heq.symm)
              rw [happlied.other name fun e he => hname e (List.mem_cons_of_mem _ he),
                Function.update_of_ne hd]

theorem removeOld_spec (defs : List LogDefine) (loggers : Loggers) (name : List UInt8) :
    ((∃ d ∈ defs, d.name = name ∧ ∀ e ∈ new.defs, e.name ≠ name) →
        ∃ logger, removeOld new defs loggers name = some logger ∧ logger.appenders = []) ∧
      ((∀ d ∈ defs, d.name = name → ∃ e ∈ new.defs, e.name = name) →
        removeOld new defs loggers name = loggers name) := by
  induction defs generalizing loggers with
  | nil => simp [removeOld]
  | cons d defs ih =>
      rw [removeOld]
      cases hfind : new.find d with
      | some found =>
          obtain ⟨hfound, hsame⟩ := new.find_eq_some hfind
          obtain ⟨hgone, hkept⟩ := ih loggers
          constructor
          · rintro ⟨e, he, hname, hnone⟩
            rcases List.mem_cons.mp he with rfl | he
            · exact absurd (hsame.trans hname) (hnone found hfound)
            · exact hgone ⟨e, he, hname, hnone⟩
          · intro hall
            exact hkept fun e he => hall e (List.mem_cons_of_mem _ he)
      | none =>
          have hnone := new.find_eq_none hfind
          dsimp only
          obtain ⟨hgone, hkept⟩ := ih (loggers.update d.name fun logger =>
            (logger.setLevel .unknow).clearAppenders)
          constructor
          · rintro ⟨e, he, hname, hall⟩
            by_cases hmore : ∃ x ∈ defs, x.name = name ∧ ∀ e ∈ new.defs, e.name ≠ name
            · exact hgone hmore
            · have hself : d.name = name := by
                rcases List.mem_cons.mp he with rfl | he
                · exact hname
                · exact absurd ⟨e, he, hname, hall⟩ hmore
              subst hself
              refine ⟨_, (hkept ?_).trans (Function.update_self ..), rfl⟩
              intro x hx hxname
              by_contra hnot
              refine hmore ⟨x, hx, hxname, ?_⟩
              exact fun e he heq => hnot ⟨e, he, heq⟩
          · intro hall
            have hne : name ≠ d.name := by
              intro heq
              obtain ⟨e, he, hename⟩ := hall d List.mem_cons_self heq.symm
              exact hnone e he (hename.trans heq)
            rw [hkept fun e he => hall e (List.mem_cons_of_mem _ he)]
            exact Function.update_of_ne hne ..

/-- Where the sets are equal the two loops would do nothing. -/
theorem setLogs_eq (hlog : (new == old) = false → loggers.log rootName .info ≠ none) :
    setLogs daemon old new loggers = applyLogs daemon old new loggers := by
  unfold setLogs
  cases heq : new == old with
  | true =>
      rw [if_pos rfl]
      obtain ⟨hknown, hnames⟩ := LogDefines.of_beq heq
      unfold applyLogs
      rcases @applyNew_spec daemon old new.defs new.nodup_names loggers with
        ⟨-, hbad⟩ | ⟨loggers', hsome, -, happlied⟩
      · exact absurd (fun d hd hnot => absurd (hknown d hd) hnot) hbad
      · rw [hsome]
        change some loggers = some (removeOld new old.defs loggers')
        congr 1
        funext name
        rw [(removeOld_spec old.defs loggers' name).2]
        · exact (happlied.other name fun d hd _ => hknown d hd).symm
        · intro oth hoth hname
          obtain ⟨d, hd, hsame⟩ := hnames oth hoth
          exact ⟨d, hd, hsame.trans hname⟩
  | false =>
      rw [if_neg (by decide), onLogsChange]
      obtain ⟨delivery, hdelivery⟩ := Option.ne_none_iff_exists'.mp (hlog heq)
      rw [hdelivery]
      rfl

/-! ## The whole reload -/

/-- The loggers follow the new definitions exactly when every definition that changed in its
appenders only asks for the appenders that are there already, and the others have appenders of
known types. -/
theorem reload_faithful_iff (h : ConfiguredBy daemon old loggers) :
    Faithful daemon old new (setLogs daemon old new loggers) ↔ Noticed daemon old new loggers := by
  by_cases hlog : (new == old) = false → loggers.log rootName .info ≠ none
  swap
  · have hcrash : setLogs daemon old new loggers = none := by
      rw [Classical.not_imp, not_not] at hlog
      rw [setLogs, hlog.1, if_neg (by decide), onLogsChange, hlog.2]
      rfl
    rw [hcrash]
    exact iff_of_false (fun hfalse => hfalse) fun hnoticed => hlog hnoticed.announced
  rw [setLogs_eq hlog]
  unfold applyLogs
  rcases @applyNew_spec daemon old new.defs new.nodup_names loggers with
    ⟨hnone, hbad⟩ | ⟨applied, hsome, htypes, happlied⟩
  · rw [hnone]
    exact iff_of_false (fun hfalse => hfalse) fun hnoticed => hbad hnoticed.changed
  · rw [hsome]
    change Faithful daemon old new (some (removeOld new old.defs applied)) ↔ _
    have hkept : ∀ d ∈ new.defs, removeOld new old.defs applied d.name = applied d.name :=
      fun d hd => (removeOld_spec old.defs applied d.name).2 fun _ _ _ => ⟨d, hd, rfl⟩
    have hknown : ∀ d ∈ new.defs, Known old d → removeOld new old.defs applied d.name =
        some (loggers.getLogger d.name) ∧ (loggers.getLogger d.name).level = d.level := by
      intro d hd hknown
      obtain ⟨oth, hoth, heq⟩ := hknown
      obtain ⟨hname, hlevel, -⟩ := beq_iff.mp heq
      obtain ⟨logger, hlogger, hset, -⟩ := h oth hoth
      rw [← hname] at hlogger
      have hget : loggers.getLogger d.name = logger := by
        unfold Loggers.getLogger
        rw [hlogger, Option.getD_some]
      rw [hkept d hd, happlied.other d.name, hget]
      · exact ⟨hlogger, hset.trans hlevel.symm⟩
      · intro e he hsame
        obtain rfl := new.eq_of_name he hd hsame
        exact ⟨oth, hoth, heq⟩
    constructor
    · rintro ⟨hconfigured, -⟩
      refine ⟨hlog, ?_, htypes⟩
      intro d hd hd'
      obtain ⟨logger, hlogger, -, hcorr⟩ := hconfigured d hd
      obtain rfl := Option.some.inj (hlogger.symm.trans (hknown d hd hd').1)
      exact hcorr
    · intro hnoticed
      refine ⟨?_, ?_⟩
      · intro d hd
        by_cases hd' : Known old d
        · obtain ⟨hlogger, hlevel⟩ := hknown d hd hd'
          exact ⟨_, hlogger, hlevel, hnoticed.known d hd hd'⟩
        · obtain ⟨logger, hlogger, hlevel, hcorr⟩ := happlied.changed d hd hd'
          exact ⟨logger, (hkept d hd).trans hlogger, hlevel, hcorr⟩
      · intro d hd hnone logger hlogger
        obtain ⟨logger', hremoved, hnil⟩ := (removeOld_spec old.defs applied d.name).1
          ⟨d, hd, rfl, hnone⟩
        obtain rfl := Option.some.inj (hremoved.symm.trans hlogger)
        exact hnil

/-- The root logger, and one more that writes to the standard output. -/
def systemLogger : Loggers := fun name =>
  if name = Http.chars "system" then
    some { name := name, level := .info, appenders := [{ output := .stdout, level := .unknow }] }
  else Loggers.initial name

/-- The definition of that logger, at a level and with some appenders. -/
def systemDefine (level : LogLevel) (appenders : List LogAppenderDefine) : LogDefines where
  defs := [{ name := Http.chars "system", level := level, appenders := appenders }]
  sorted := List.pairwise_singleton _ _

theorem systemLogger_configured :
    ConfiguredBy false (systemDefine .info [{ type := 2 }]) systemLogger := by
  intro d hd
  obtain rfl := List.mem_singleton.mp hd
  refine ⟨_, rfl, rfl, .cons ⟨Or.inr ⟨rfl, rfl⟩, rfl, ?_⟩ .nil⟩
  intro hne
  exact absurd rfl hne

/-- A change of the level brings the new appenders with it. -/
theorem reload_faithful_level :
    Faithful false (systemDefine .info [{ type := 2 }])
      (systemDefine .debug [{ type := 1, file := Http.chars "system.log" }])
      (setLogs false (systemDefine .info [{ type := 2 }])
        (systemDefine .debug [{ type := 1, file := Http.chars "system.log" }]) systemLogger) := by
  refine (reload_faithful_iff systemLogger_configured).mpr ⟨?_, ?_, ?_⟩
  · intro _
    decide
  · rintro d hd ⟨oth, hoth, heq⟩
    obtain rfl := List.mem_singleton.mp hd
    obtain rfl := List.mem_singleton.mp hoth
    exact absurd (beq_iff.mp heq).2.1 (by decide)
  · intro d hd _ a ha
    obtain rfl := List.mem_singleton.mp hd
    obtain rfl := List.mem_singleton.mp ha
    exact Or.inl rfl

/-- A file that takes the place of the standard output is not noticed. -/
theorem reload_ignores_appenders :
    ConfiguredBy false (systemDefine .info [{ type := 2 }]) systemLogger ∧
      ¬ Faithful false (systemDefine .info [{ type := 2 }])
        (systemDefine .info [{ type := 1, file := Http.chars "system.log" }])
        (setLogs false (systemDefine .info [{ type := 2 }])
          (systemDefine .info [{ type := 1, file := Http.chars "system.log" }]) systemLogger) := by
  refine ⟨systemLogger_configured, ?_⟩
  have hsame : setLogs false (systemDefine .info [{ type := 2 }])
      (systemDefine .info [{ type := 1, file := Http.chars "system.log" }]) systemLogger =
      some systemLogger := if_pos (by decide)
  rw [hsame]
  rintro ⟨hconfigured, -⟩
  obtain ⟨logger, hlogger, -, hcorr⟩ := hconfigured _ List.mem_cons_self
  obtain rfl := Option.some.inj (hlogger.symm.trans (if_pos rfl))
  cases hcorr with
  | cons hdescribes _ =>
      rcases hdescribes.output with ⟨-, houtput⟩ | ⟨htype, -⟩
      · cases houtput
      · exact absurd htype (by decide)

end Lyslg.Log
