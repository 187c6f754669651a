import Lyslg.Uri.Parts
/-!
# Reading the parts

`Reads` is a stretch of the text that the stages go over, with what the actions on the way do
to the `Uri`; `Ends` goes on to the end of the text.  Each part has its own lemma, for any
text before and after it.
-/

namespace Lyslg.UriParser

open Http Support Support.Machine Uri

/-! ## Stretches of a text -/

variable {s pre : List UInt8} {st st' st'' : Stage} {x y z : Creation} {r : Option Uri}

def actionsAt (actions : List Action) (p : Nat) : List (Action × Nat) :=
  actions.map fun a => (a, p)

/-- After `pre`, the stages read `chunk` of the text `s`. -/
def Reads (s pre : List UInt8) (st : Stage) (x : Creation) (chunk : List UInt8) (st' : Stage)
    (y : Creation) : Prop :=
  ∃ events, stages.Walks pre.length st chunk events st' ∧ Creation.actAll s x events = some y

/-- After `pre`, the stages read `rest` to the end of the text, with the result `r`. -/
def Ends (s pre : List UInt8) (st : Stage) (x : Creation) (rest : List UInt8)
    (r : Option Uri) : Prop :=
  ∃ events st', stages.Walks pre.length st rest events st' ∧
    (Creation.actAll s x (events ++ actionsAt st'.atEnd (pre ++ rest).length)).map (·.uri) = r

theorem actAll_append {events events' : List (Action × Nat)} :
    Creation.actAll s x (events ++ events') =
      (Creation.actAll s x events).bind fun y => Creation.actAll s y events' :=
  List.foldlM_append

theorem Reads.nil : Reads s pre st x [] st x := ⟨[], .nil _ _, rfl⟩

theorem Reads.one {c : UInt8} {actions : List Action}
    (hnext : st.next (classOf c) = some (st', actions))
    (hact : Creation.actAll s x (actionsAt actions pre.length) = some y) :
    Reads s pre st x [c] st' y :=
  ⟨_, .one hnext rfl rfl, hact⟩

theorem Reads.loop {chunk : List UInt8}
    (hnext : ∀ c ∈ chunk, st.next (classOf c) = some (st, [])) : Reads s pre st x chunk st x :=
  ⟨[], .loop (fun c hc => ⟨_, hnext c hc, rfl, fun _ => rfl⟩) _, rfl⟩

/-- Letters that lead back to a group of stages. -/
theorem Reads.stays {I : Stage → Prop} {chunk : List UInt8}
    (hnext : ∀ c ∈ chunk, ∀ st, I st → ∃ st', I st' ∧ st.next (classOf c) = some (st', []))
    (hst : I st) : ∃ st', I st' ∧ Reads s pre st x chunk st' x := by
  suffices h : ∀ p, ∃ st', I st' ∧ stages.Walks p st chunk [] st' by
    obtain ⟨st', hst', hwalk⟩ := h pre.length
    exact ⟨st', hst', [], hwalk, rfl⟩
  induction chunk generalizing st with
  | nil => exact fun p => ⟨st, hst, .nil _ _⟩
  | cons c chunk ih =>
      intro p
      obtain ⟨hc, hchunk⟩ := List.forall_mem_cons.mp hnext
      obtain ⟨st₁, hst₁, hone⟩ := hc st hst
      obtain ⟨st', hst', hwalk⟩ := ih hchunk hst₁ (p + 1)
      exact ⟨st', hst', (Scanner.Walks.one (m := stages) hone rfl rfl).append hwalk⟩

theorem Reads.append {a b : List UInt8} (h : Reads s pre st x a st' y)
    (h' : Reads s (pre ++ a) st' y b st'' z) : Reads s pre st x (a ++ b) st'' z := by
  obtain ⟨events, hwalk, hact⟩ := h
  obtain ⟨events', hwalk', hact'⟩ := h'
  rw [List.length_append] at hwalk'
  refine ⟨_, hwalk.append hwalk', ?_⟩
  rw [actAll_append, hact]
  exact hact'

theorem Reads.ends {a b : List UInt8} (h : Reads s pre st x a st' y)
    (h' : Ends s (pre ++ a) st' y b r) : Ends s pre st x (a ++ b) r := by
  obtain ⟨events, hwalk, hact⟩ := h
  obtain ⟨events', st'', hwalk', hact'⟩ := h'
  rw [List.length_append] at hwalk'
  refine ⟨_, st'', hwalk.append hwalk', ?_⟩
  rw [List.append_assoc, actAll_append, hact, ← List.append_assoc pre]
  exact hact'

theorem Ends.nil (h : (Creation.actAll s x (actionsAt st.atEnd pre.length)).map (·.uri) = r) :
    Ends s pre st x [] r := by
  refine ⟨[], st, .nil _ _, ?_⟩
  rw [List.append_nil]
  exact h

/-- A stretch up to the end. -/
theorem Reads.done {a : List UInt8} (h : Reads s pre st x a st' y)
    (hact : (Creation.actAll s y (actionsAt st'.atEnd (pre ++ a).length)).map (·.uri) = r) :
    Ends s pre st x a r := by
  have hend := h.ends (.nil hact)
  rw [List.append_nil] at hend
  exact hend

theorem Ends.cons {c : UInt8} {actions : List Action} {rest : List UInt8}
    (hnext : st.next (classOf c) = some (st', actions))
    (hact : Creation.actAll s x (actionsAt actions pre.length) = some y)
    (h : Ends s (pre ++ [c]) st' y rest r) : Ends s pre st x (c :: rest) r :=
  (Reads.one hnext hact).ends h

/-- An exception, in a text that the stages could read on. -/
theorem Ends.fault {c : UInt8} {actions : List Action} {rest : List UInt8}
    (hnext : st.next (classOf c) = some (st', actions))
    (hact : Creation.actAll s x (actionsAt actions pre.length) = none)
    (h : Ends s (pre ++ [c]) st' y rest r) : Ends s pre st x (c :: rest) none := by
  obtain ⟨events, st'', hwalk, _⟩ := h
  rw [List.length_append] at hwalk
  have hone := Scanner.Walks.one (m := stages) (p := pre.length) hnext rfl rfl
  refine ⟨_, st'', hone.append hwalk, ?_⟩
  rw [List.append_assoc, actAll_append]
  show ((Creation.actAll s x (actionsAt actions pre.length)).bind _).map _ = none
  rw [hact]
  rfl

/-- The text from a mark on. -/
theorem slice_eq (pre chunk post : List UInt8) (hs : s = pre ++ chunk ++ post) :
    Creation.slice s pre.length (pre ++ chunk).length = chunk := by
  rw [hs, Creation.slice, List.append_assoc, List.drop_left, List.length_append,
    Nat.add_sub_cancel_left, List.take_left]

/-! ## Query and fragment -/

/-- The stages that a query or a fragment may follow, with the actions there. -/
structure Closes (st : Stage) (actions : List Action) : Prop where
  question : st.next .question = some (.queryStart, actions)
  hash : st.next .hash = some (.fragmentStart, actions)
  atEnd : st.atEnd = actions

def withFragment (uri : Uri) : Option (List UInt8) → Uri
  | none => uri
  | some fragment => { uri with fragment := fragment }

def withQuery (uri : Uri) : Option (List UInt8) → Uri
  | none => uri
  | some query => { uri with query := query }

theorem class_not_hash {c : UInt8} (hc : c ≠ 35) : classOf c ≠ .hash := by
  simpa using hc

theorem fragment_next {k : ByteClass} (hk : k ≠ .hash) :
    Stage.next .fragmentStart k = some (.fragment, [.mark]) ∧
      Stage.next .fragment k = some (.fragment, []) := by
  cases k <;> first | exact ⟨rfl, rfl⟩ | exact absurd rfl hk

theorem query_next {k : ByteClass} (hk : k ≠ .hash) :
    Stage.next .queryStart k = some (.query, [.mark]) ∧
      Stage.next .query k = some (.query, []) := by
  cases k <;> first | exact ⟨rfl, rfl⟩ | exact absurd rfl hk

theorem fragment_ends {text : List UInt8} (hs : s = pre ++ text) (hplain : ∀ c ∈ text, c ≠ 35) :
    Ends s pre .fragmentStart x text (some { x.uri with fragment := text }) := by
  have hslice := slice_eq pre text [] (hs.trans (List.append_nil _).symm)
  cases text with
  | nil =>
      refine .nil ?_
      rw [List.append_nil] at hslice
      show some { x.uri with fragment := Creation.slice s pre.length pre.length } = _
      rw [hslice]
  | cons c text =>
      have hnext : ∀ c ∈ text, Stage.fragment.next (classOf c) = some (.fragment, []) :=
        fun c hc => (fragment_next (class_not_hash (hplain c (List.mem_cons_of_mem _ hc)))).2
      have hloop : Reads s (pre ++ [c]) .fragment ⟨some pre.length, x.uri⟩ text .fragment
          ⟨some pre.length, x.uri⟩ := .loop hnext
      refine .cons (fragment_next (class_not_hash (hplain c List.mem_cons_self))).1 rfl ?_
      refine hloop.done ?_
      rw [List.append_assoc, List.singleton_append]
      show some { x.uri with fragment := Creation.slice s pre.length (pre ++ c :: text).length } = _
      rw [hslice]

theorem fragmentPart_ends {actions : List Action} {fragment : Option (List UInt8)}
    (hhash : st.next .hash = some (.fragmentStart, actions)) (hatEnd : st.atEnd = actions)
    (hact : Creation.actAll s x (actionsAt actions pre.length) = some y)
    (hs : s = pre ++ optionalPart 35 fragment) (hplain : ∀ text ∈ fragment, ∀ c ∈ text, c ≠ 35) :
    Ends s pre st x (optionalPart 35 fragment) (some (withFragment y.uri fragment)) := by
  cases fragment with
  | none =>
      refine .nil ?_
      rw [hatEnd, hact]
      rfl
  | some text =>
      refine .cons (c := 35) hhash hact (fragment_ends ?_ (hplain text rfl))
      rw [hs, List.append_assoc]
      rfl

theorem query_ends {text : List UInt8} {fragment : Option (List UInt8)}
    (hs : s = pre ++ (text ++ optionalPart 35 fragment)) (hplain : ∀ c ∈ text, c ≠ 35)
    (hfragment : ∀ text ∈ fragment, ∀ c ∈ text, c ≠ 35) :
    Ends s pre .queryStart x (text ++ optionalPart 35 fragment)
      (some (withFragment { x.uri with query := text } fragment)) := by
  have hslice :=
    slice_eq pre text (optionalPart 35 fragment) (hs.trans (List.append_assoc _ _ _).symm)
  cases text with
  | nil =>
      rw [List.append_nil] at hslice
      refine fragmentPart_ends (y := ⟨none, { x.uri with query := [] }⟩) rfl rfl ?_ hs hfragment
      show some
        (⟨none, { x.uri with query := Creation.slice s pre.length pre.length }⟩ : Creation) = _
      rw [hslice]
  | cons c text =>
      have hnext : ∀ c ∈ text, Stage.query.next (classOf c) = some (.query, []) :=
        fun c hc => (query_next (class_not_hash (hplain c (List.mem_cons_of_mem _ hc)))).2
      have hloop : Reads s (pre ++ [c]) .query ⟨some pre.length, x.uri⟩ text .query
          ⟨some pre.length, x.uri⟩ := .loop hnext
      refine .cons (query_next (class_not_hash (hplain c List.mem_cons_self))).1 rfl ?_
      have hpre : pre ++ [c] ++ text = pre ++ c :: text := List.append_assoc _ _ _
      refine hloop.ends (fragmentPart_ends (y := ⟨none, { x.uri with query := c :: text }⟩) rfl rfl
        ?_ (by rw [hpre, hs, List.append_assoc]) hfragment)
      rw [hpre]
      show some (⟨none, { x.uri with
        query := Creation.slice s pre.length (pre ++ c :: text).length }⟩ : Creation) = _
      rw [hslice]

variable {query fragment : Option (List UInt8)}

/-- From a part that ends here, query and fragment to the end. -/
theorem tail_ends {actions : List Action} (hcloses : Closes st actions)
    (hact : Creation.actAll s x (actionsAt actions pre.length) = some y)
    (hs : s = pre ++ UriParts.tail query fragment)
    (hquery : ∀ text ∈ query, ∀ c ∈ text, c ≠ 35)
    (hfragment : ∀ text ∈ fragment, ∀ c ∈ text, c ≠ 35) :
    Ends s pre st x (UriParts.tail query fragment)
      (some (withFragment (withQuery y.uri query) fragment)) := by
  cases query with
  | none => exact fragmentPart_ends hcloses.hash hcloses.atEnd hact hs hfragment
  | some text =>
      refine .cons (c := 63) hcloses.question hact (query_ends ?_ (hquery text rfl) hfragment)
      rw [hs, List.append_assoc]
      rfl

/-- The same, when the actions throw. -/
theorem tail_faults {actions : List Action} (hcloses : Closes st actions)
    (hact : Creation.actAll s x (actionsAt actions pre.length) = none)
    (hs : s = pre ++ UriParts.tail query fragment)
    (hquery : ∀ text ∈ query, ∀ c ∈ text, c ≠ 35)
    (hfragment : ∀ text ∈ fragment, ∀ c ∈ text, c ≠ 35) :
    Ends s pre st x (UriParts.tail query fragment) none := by
  cases query with
  | none =>
      cases fragment with
      | none =>
          refine .nil ?_
          rw [hcloses.atEnd, hact]
          rfl
      | some text =>
          refine .fault (c := 35) hcloses.hash hact (fragment_ends (x := x) ?_ (hfragment text rfl))
          rw [hs, List.append_assoc]
          rfl
  | some text =>
      refine .fault (c := 63) hcloses.question hact
        (query_ends (x := x) ?_ (hquery text rfl) hfragment)
      rw [hs, List.append_assoc]
      rfl

/-! ## Path -/

/-- The stages that the path of a URI with a scheme may follow, with the actions there. -/
structure ClosesAuthority (st : Stage) (actions : List Action) : Prop where
  slash : st.next .slash = some (.path, actions)
  closes : Closes st (actions ++ [.savePath])

theorem path_next {c : UInt8} (hc : c ∉ chars "?#") :
    Stage.path.next (classOf c) = some (.path, []) ∧
      Stage.plainPath.next (classOf c) = some (.plainPath, []) := by
  have hk : classOf c ≠ .question ∧ classOf c ≠ .hash := by simpa [chars] using hc
  revert hk
  cases classOf c <;> decide

theorem path_closes : Closes .path [.savePath] := ⟨rfl, rfl, rfl⟩

theorem actAll_savePath (s : List UInt8) (y : Creation) (p : Nat) :
    Creation.actAll s y (actionsAt [.savePath] p) =
      y.mark.map fun m => ⟨none, { y.uri with path := Creation.slice s m p }⟩ := by
  obtain ⟨mark, uri⟩ := y
  cases mark with
  | none => rfl
  | some m => rfl

/-- From an authority that ends here, the path and what follows; only without a mark does it
throw. -/
theorem path_ends {actions : List Action} {path : List UInt8} (hcloses : ClosesAuthority st actions)
    (hact : Creation.actAll s x (actionsAt actions pre.length) = some y)
    (hmark : ∀ m ∈ y.mark, m = pre.length)
    (hs : s = pre ++ (path ++ UriParts.tail query fragment))
    (hplain : ∀ c ∈ path, c ∉ chars "?#") (hslash : path = [] ∨ path.head? = some 47)
    (hquery : ∀ text ∈ query, ∀ c ∈ text, c ≠ 35)
    (hfragment : ∀ text ∈ fragment, ∀ c ∈ text, c ≠ 35) :
    Ends s pre st x (path ++ UriParts.tail query fragment)
      (y.mark.map fun _ =>
        withFragment (withQuery { y.uri with path := path } query) fragment) := by
  have hslice := slice_eq pre path (UriParts.tail query fragment)
    (hs.trans (List.append_assoc _ _ _).symm)
  have hboth : Creation.actAll s x (actionsAt (actions ++ [.savePath]) pre.length) =
      Creation.actAll s y (actionsAt [.savePath] pre.length) := by
    rw [actionsAt, List.map_append, actAll_append]
    exact congrArg (Option.bind · _) hact
  cases path with
  | nil =>
      rw [List.append_nil] at hslice
      cases hm : y.mark with
      | none =>
          exact tail_faults hcloses.closes
            (by rw [hboth, actAll_savePath, hm]; rfl) hs hquery hfragment
      | some m =>
          obtain rfl := hmark m hm
          exact tail_ends (y := ⟨none, { y.uri with path := [] }⟩) hcloses.closes
            (by rw [hboth, actAll_savePath, hm, Option.map_some, hslice]) hs hquery hfragment
  | cons c path =>
      obtain rfl : c = 47 := by simpa using hslash
      have hnext : ∀ c ∈ path, Stage.path.next (classOf c) = some (.path, []) :=
        fun c hc => (path_next (hplain c (List.mem_cons_of_mem _ hc))).1
      have hloop : Reads s (pre ++ [47]) .path y path .path y := .loop hnext
      have hpre : pre ++ [47] ++ path = pre ++ 47 :: path := List.append_assoc _ _ _
      have hrest : s = pre ++ [47] ++ path ++ UriParts.tail query fragment := by
        rw [hpre, hs, List.append_assoc]
      refine .cons (c := 47) hcloses.slash hact (hloop.ends ?_)
      cases hm : y.mark with
      | none =>
          exact tail_faults path_closes
            (by rw [actAll_savePath, hm]; rfl) hrest hquery hfragment
      | some m =>
          obtain rfl := hmark m hm
          exact tail_ends (y := ⟨none, { y.uri with path := 47 :: path }⟩) path_closes
            (by rw [actAll_savePath, hm, Option.map_some, hpre, hslice]) hrest hquery hfragment

/-! ## Port -/

theorem digit_plain {c : UInt8} (hc : 48 ≤ c ∧ c ≤ 57) :
    isSpace c = false ∧ c ≠ 45 ∧ c ≠ 43 ∧ isDigit 10 c = true ∧ digitValue c = c.toNat - 48 := by
  revert c
  apply forall_byte
  decide +kernel

/-- `atoi` of a numeral. -/
theorem atoi_eq {d : UInt8} {rest : List UInt8} (hd : 48 ≤ d ∧ d ≤ 57) :
    atoi (d :: rest) = int32 (min (leadingValue 10 (d :: rest) : Int) (2 ^ 63 - 1)) := by
  obtain ⟨hspace, hminus, hplus, -, -⟩ := digit_plain hd
  have hskip : skipPrefix 10 (d :: rest) = d :: rest := by
    unfold skipPrefix
    split
    · rw [if_neg (by rintro ⟨h, -⟩; cases h)]
    · rfl
  unfold atoi strtol
  rw [List.dropWhile_cons_of_neg (by rw [hspace]; exact Bool.false_ne_true)]
  split
  · rename_i heq
    exact absurd (List.cons.inj heq).1 hminus
  · rename_i heq
    exact absurd (List.cons.inj heq).1 hplus
  · rw [hskip]

theorem leadingValue_append {digits : List UInt8} (rest : List UInt8)
    (hdigits : ∀ c ∈ digits, 48 ≤ c ∧ c ≤ 57)
    (hrest : ∀ c ∈ rest.head?, isDigit 10 c = false) :
    leadingValue 10 (digits ++ rest) = UriParts.numeral digits := by
  have htake : (digits ++ rest).takeWhile (isDigit 10) = digits := by
    rw [List.takeWhile_append_of_pos fun c hc => (digit_plain (hdigits c hc)).2.2.2.1]
    cases rest with
    | nil => exact List.append_nil _
    | cons c rest =>
        rw [List.takeWhile_cons_of_neg (by rw [hrest c rfl]; exact Bool.false_ne_true),
          List.append_nil]
  rw [leadingValue, htake, UriParts.numeral]
  exact List.foldl_ext _ _ _ fun n c hc => by rw [(digit_plain (hdigits c hc)).2.2.2.2]

theorem atoi_append {digits rest : List UInt8} (hdigits : ∀ c ∈ digits, 48 ≤ c ∧ c ≤ 57)
    (hne : digits ≠ []) (hrest : ∀ c ∈ rest.head?, isDigit 10 c = false) :
    atoi (digits ++ rest) = atoi digits := by
  have hself := leadingValue_append [] hdigits (by simp)
  have hboth := leadingValue_append rest hdigits hrest
  rw [List.append_nil] at hself
  cases digits with
  | nil => exact absurd rfl hne
  | cons d digits =>
      have hd := hdigits d List.mem_cons_self
      rw [List.cons_append] at hboth ⊢
      rw [atoi_eq hd, atoi_eq hd, hboth, hself]

theorem atoi_numeral {digits : List UInt8} (hdigits : ∀ c ∈ digits, 48 ≤ c ∧ c ≤ 57)
    (hne : digits ≠ []) (hlt : UriParts.numeral digits < 2 ^ 31) :
    atoi digits = UriParts.numeral digits := by
  have hself := leadingValue_append [] hdigits (by simp)
  rw [List.append_nil] at hself
  cases digits with
  | nil => exact absurd rfl hne
  | cons d digits =>
      rw [atoi_eq (hdigits d List.mem_cons_self), hself, min_eq_left (by omega),
        int32_natCast hlt]

def withPort (uri : Uri) : Option (List UInt8) → Uri
  | none => uri
  | some digits => { uri with port := atoi digits }

/-- Where the text since the mark is a host, or may be one. -/
def InHost (st : Stage) : Prop := st = .name true ∨ st = .host true

/-- The text from position `m` to position `p` is a host; the stage has no mark yet if it is
empty. -/
structure HostRead (s : List UInt8) (m p : Nat) (x : Creation) (st : Stage)
    (host : List UInt8) : Prop where
  slice : Creation.slice s m p = host
  stage : (st = .authority true ∨ st = .hostStart true) ∧ m = p ∨ InHost st ∧ x.mark = some m

variable {m p : Nat} {host : List UInt8}

namespace HostRead

/-- The host is saved, by one action or two, and the mark stays. -/
theorem saveHost (h : HostRead s m p x st host) :
    (st = .authority true ∨ st = .hostStart true) ∧
        Creation.actAll s x (actionsAt [.mark, .saveHost] p) =
          some ⟨some m, { x.uri with host := host }⟩ ∧ m = p ∨
      InHost st ∧ Creation.actAll s x (actionsAt [.saveHost] p) =
        some ⟨some m, { x.uri with host := host }⟩ := by
  obtain ⟨rfl, ⟨hst, rfl⟩ | ⟨hst, hm⟩⟩ := h
  · exact .inl ⟨hst, rfl, rfl⟩
  · obtain ⟨mark, uri⟩ := x
    obtain rfl : mark = some m := hm
    exact .inr ⟨hst, rfl⟩

/-- A host before the path. -/
theorem closes (h : HostRead s m p x st host) : ∃ actions, ClosesAuthority st actions ∧
    Creation.actAll s x (actionsAt actions p) = some ⟨some p, { x.uri with host := host }⟩ := by
  rcases h.saveHost with ⟨hst, hact, rfl⟩ | ⟨hst, hact⟩
  · refine ⟨[.mark, .saveHost], ?_, hact⟩
    rcases hst with rfl | rfl <;> exact ⟨rfl, rfl, rfl, rfl⟩
  · refine ⟨[.saveHost, .mark], ?_, ?_⟩
    · rcases hst with rfl | rfl <;> exact ⟨rfl, rfl, rfl, rfl⟩
    · show Creation.actAll s x (actionsAt [.saveHost] p ++ actionsAt [.mark] p) = _
      rw [actAll_append, hact]
      rfl

/-- A host before a colon. -/
theorem colon (h : HostRead s m p x st host) : ∃ actions st', st.next .colon = some (st', actions) ∧
    (st' = .colon true ∨ st' = .portStart true) ∧
    Creation.actAll s x (actionsAt actions p) = some ⟨some m, { x.uri with host := host }⟩ := by
  rcases h.saveHost with ⟨rfl | rfl, hact, -⟩ | ⟨rfl | rfl, hact⟩
  · exact ⟨_, _, rfl, .inl rfl, hact⟩
  · exact ⟨_, _, rfl, .inr rfl, hact⟩
  · exact ⟨_, _, rfl, .inl rfl, hact⟩
  · exact ⟨_, _, rfl, .inr rfl, hact⟩

/-- What may be a host, before the delimiter of a userinfo. -/
theorem userinfo (h : HostRead s m p x st host) (hst : st = .authority true ∨ st = .name true) :
    ∃ actions, st.next .at = some (.hostStart true, actions) ∧
      Creation.actAll s x (actionsAt actions p) = some ⟨none, { x.uri with userinfo := host }⟩ := by
  obtain ⟨rfl, ⟨hempty, rfl⟩ | ⟨hname, hm⟩⟩ := h
  · refine ⟨[.mark, .saveUserinfo], ?_, rfl⟩
    rcases hst with rfl | rfl
    · rfl
    · rcases hempty with h | h <;> cases h
  · refine ⟨[.saveUserinfo], ?_, ?_⟩
    · rcases hst with rfl | rfl
      · rcases hname with h | h <;> cases h
      · rfl
    · obtain ⟨mark, uri⟩ := x
      obtain rfl : mark = some m := hm
      rfl

end HostRead

theorem class_digit {c : UInt8} (hc : 48 ≤ c ∧ c ≤ 57) : classOf c = .digit :=
  classOf_digit.mpr hc

variable {path : List UInt8}

/-- What follows a port begins with a delimiter. -/
theorem tail_head (hslash : path = [] ∨ path.head? = some 47) :
    ∀ c ∈ (path ++ UriParts.tail query fragment).head?, isDigit 10 c = false := by
  rintro c hc
  cases path with
  | cons d path =>
      obtain rfl : d = 47 := by simpa using hslash
      obtain rfl := Option.some.inj hc
      decide
  | nil =>
      rcases query with _ | text
      · rcases fragment with _ | text
        · cases hc
        · obtain rfl := Option.some.inj hc
          decide
      · obtain rfl := Option.some.inj hc
        decide

/-- A port, without which the path has no mark. -/
theorem port_ends {digits : List UInt8} (hst : st = .colon true ∨ st = .portStart true)
    (hs : s = pre ++ (digits ++ (path ++ UriParts.tail query fragment)))
    (hdigits : ∀ c ∈ digits, 48 ≤ c ∧ c ≤ 57)
    (hplain : ∀ c ∈ path, c ∉ chars "?#") (hslash : path = [] ∨ path.head? = some 47)
    (hquery : ∀ text ∈ query, ∀ c ∈ text, c ≠ 35)
    (hfragment : ∀ text ∈ fragment, ∀ c ∈ text, c ≠ 35) :
    Ends s pre st x (digits ++ (path ++ UriParts.tail query fragment))
      (if digits = [] then none
        else some (withFragment (withQuery
          { x.uri with path := path, port := atoi digits } query) fragment)) := by
  cases digits with
  | nil =>
      have hact : Creation.actAll s x (actionsAt [.mark, .savePort] pre.length) =
          some ⟨none, x.uri⟩ := by
        show ((if some pre.length = some pre.length then _ else _ : Option Creation).bind some) = _
        rw [if_pos rfl]
        rfl
      have hcloses : ClosesAuthority st [.mark, .savePort] := by
        rcases hst with rfl | rfl <;> exact ⟨rfl, rfl, rfl, rfl⟩
      exact path_ends hcloses hact (by intro m hm; cases hm) hs hplain hslash hquery hfragment
  | cons d digits =>
      obtain ⟨hd, hrest⟩ := List.forall_mem_cons.mp hdigits
      obtain ⟨st', hst', hnext⟩ : ∃ st', (st' = .digits true ∨ st' = .port true) ∧
          st.next (classOf d) = some (st', [.mark]) := by
        rw [class_digit hd]
        rcases hst with rfl | rfl
        · exact ⟨_, .inl rfl, rfl⟩
        · exact ⟨_, .inr rfl, rfl⟩
      have hloop : Reads s (pre ++ [d]) st' ⟨some pre.length, x.uri⟩ digits st'
          ⟨some pre.length, x.uri⟩ := .loop fun c hc => by
        rw [class_digit (hrest c hc)]
        rcases hst' with rfl | rfl <;> rfl
      have hcloses : ClosesAuthority st' [.savePort, .mark] := by
        rcases hst' with rfl | rfl <;> exact ⟨rfl, rfl, rfl, rfl⟩
      have hpre : pre ++ [d] ++ digits = pre ++ d :: digits := List.append_assoc _ _ _
      have hact : Creation.actAll s ⟨some pre.length, x.uri⟩
          (actionsAt [.savePort, .mark] (pre ++ d :: digits).length) =
            some ⟨some (pre ++ d :: digits).length, { x.uri with port := atoi (d :: digits) }⟩ := by
        show ((if some pre.length = some (pre ++ d :: digits).length then _
          else some (⟨none, { x.uri with port := atoi (s.drop pre.length) }⟩ : Creation)).bind _) =
            _
        rw [if_neg (by simp), hs, List.drop_left,
          atoi_append hdigits (List.cons_ne_nil _ _) (tail_head hslash)]
        rfl
      refine .cons hnext rfl (hloop.ends ?_)
      rw [hpre]
      exact path_ends hcloses hact (fun m hm => (Option.some.inj hm).symm)
        (by rw [hs, List.append_assoc]) hplain hslash hquery hfragment

/-! ## Host -/

def nameClasses : List ByteClass := [.letter, .digit, .schemeMark, .two, .other]

theorem class_name {c : UInt8} (hc : c ∉ chars ":/?#[]@") : classOf c ∈ nameClasses := by
  have hk : classOf c ∉ [ByteClass.colon, .slash, .question, .hash, .open, .close, .at] := by
    simpa [chars] using hc
  revert hk
  cases classOf c <;> decide

theorem class_literal {c : UInt8} (hc : c ∉ chars "/?#[]@") :
    classOf c ∈ ByteClass.colon :: nameClasses := by
  have hk : classOf c ∉ [ByteClass.slash, .question, .hash, .open, .close, .at] := by
    simpa [chars] using hc
  revert hk
  cases classOf c <;> decide

theorem name_next {k : ByteClass} (hk : k ∈ nameClasses) :
    (∀ st, InHost st → ∃ st', InHost st' ∧ st.next k = some (st', [])) ∧
      ∀ st : Stage, st = .authority true ∨ st = .hostStart true →
        ∃ st', InHost st' ∧ st.next k = some (st', [.mark]) := by
  have hname : ∀ k ∈ nameClasses,
      ∃ st' ∈ [Stage.name true, .host true], Stage.next (.name true) k = some (st', []) := by
    decide
  have hhost : ∀ k ∈ nameClasses, Stage.next (.host true) k = some (.host true, []) := by decide
  have hauthority : ∀ k ∈ nameClasses, ∃ st' ∈ [Stage.name true, .host true],
      Stage.next (.authority true) k = some (st', [.mark]) := by
    decide
  have hstart : ∀ k ∈ nameClasses,
      Stage.next (.hostStart true) k = some (.host true, [.mark]) := by
    decide
  constructor
  · rintro st (rfl | rfl)
    · obtain ⟨st', hst', hnext⟩ := hname k hk
      exact ⟨st', List.mem_pair.mp hst', hnext⟩
    · exact ⟨_, .inr rfl, hhost k hk⟩
  · rintro st (rfl | rfl)
    · obtain ⟨st', hst', hnext⟩ := hauthority k hk
      exact ⟨st', List.mem_pair.mp hst', hnext⟩
    · exact ⟨_, .inr rfl, hstart k hk⟩

theorem literal_next {k : ByteClass} (hk : k ∈ ByteClass.colon :: nameClasses) :
    Stage.next (.literal true) k = some (.literal true, []) := by
  revert k
  decide

/-- The host, up to its end. -/
theorem host_reads {rest : List UInt8} (host : Uri.Host)
    (hst : st = .authority true ∨ st = .hostStart true) (hs : s = pre ++ (host.text ++ rest)) :
    ∃ st' y, Reads s pre st x host.text st' y ∧ y.uri = x.uri ∧
      HostRead s pre.length (pre ++ host.text).length y st' host.text := by
  have hslice := slice_eq pre host.text rest (hs.trans (List.append_assoc _ _ _).symm)
  have hread {st' : Stage} (hst' : InHost st') : HostRead s pre.length (pre ++ host.text).length
      ⟨some pre.length, x.uri⟩ st' host.text :=
    ⟨hslice, .inr ⟨hst', rfl⟩⟩
  cases host with
  | name text plain =>
      cases text with
      | nil => exact ⟨st, x, .nil, rfl, hslice, .inl ⟨hst, (congrArg _ (List.append_nil pre)).symm⟩⟩
      | cons c text =>
          obtain ⟨hc, htext⟩ := List.forall_mem_cons.mp plain
          obtain ⟨st₁, hst₁, hnext⟩ := (name_next (class_name hc)).2 st hst
          have hone : Reads s pre st x [c] st₁ ⟨some pre.length, x.uri⟩ := .one hnext rfl
          obtain ⟨st', hst', hloop⟩ : ∃ st', InHost st' ∧ Reads s (pre ++ [c]) st₁
              ⟨some pre.length, x.uri⟩ text st' ⟨some pre.length, x.uri⟩ :=
            Reads.stays (fun c hc => (name_next (class_name (htext c hc))).1) hst₁
          exact ⟨st', _, hone.append hloop, rfl, hread hst'⟩
  | literal address plain =>
      have hopen : st.next (classOf 91) = some (.literal true, [.mark]) := by
        rcases hst with rfl | rfl <;> rfl
      have hone : Reads s pre st x [91] (.literal true) ⟨some pre.length, x.uri⟩ := .one hopen rfl
      have hloop : Reads s (pre ++ [91]) (.literal true) ⟨some pre.length, x.uri⟩ address
          (.literal true) ⟨some pre.length, x.uri⟩ :=
        .loop fun c hc => literal_next (class_literal (plain c hc))
      have hclose : Reads s (pre ++ ([91] ++ address)) (.literal true) ⟨some pre.length, x.uri⟩ [93]
          (.host true) ⟨some pre.length, x.uri⟩ := .one rfl rfl
      exact ⟨.host true, _, (hone.append hloop).append hclose, rfl, hread (.inr rfl)⟩

/-! ## Userinfo -/

/-- What is saved of a userinfo: when a digit follows its first colon, the text after it. -/
def savedUserinfo (text : List UInt8) : List UInt8 :=
  match text.dropWhile (· ≠ 58) with
  | _ :: d :: rest => if 48 ≤ d ∧ d ≤ 57 then d :: rest else text
  | _ => text

/-- A text up to the first byte that `stop` holds of. -/
theorem exists_first (stop : UInt8 → Prop) [DecidablePred stop] (text : List UInt8) :
    ∃ before after, text = before ++ after ∧ (∀ c ∈ before, ¬stop c) ∧
      (after = [] ∨ ∃ d more, after = d :: more ∧ stop d) := by
  induction text with
  | nil => exact ⟨[], [], rfl, by simp, .inl rfl⟩
  | cons c text ih =>
      by_cases hc : stop c
      · exact ⟨[], c :: text, rfl, by simp, .inr ⟨c, text, rfl, hc⟩⟩
      · obtain ⟨before, after, rfl, hbefore, hafter⟩ := ih
        exact ⟨c :: before, after, rfl, List.forall_mem_cons.mpr ⟨hc, hbefore⟩, hafter⟩

theorem exists_first_colon (text : List UInt8) : ∃ name after, text = name ++ after ∧
    (∀ c ∈ name, c ≠ 58) ∧ (after = [] ∨ ∃ more, after = 58 :: more) := by
  obtain ⟨name, after, htext, hname, hafter⟩ := exists_first (· = 58) text
  refine ⟨name, after, htext, hname, hafter.imp id ?_⟩
  rintro ⟨d, more, rfl, rfl⟩
  exact ⟨more, rfl⟩

section

variable {name more : List UInt8}

theorem dropWhile_colon (hname : ∀ c ∈ name, c ≠ 58) (rest : List UInt8) :
    (name ++ rest).dropWhile (· ≠ 58) = rest.dropWhile (· ≠ 58) :=
  List.dropWhile_append_of_pos fun c hc => decide_eq_true (hname c hc)

theorem savedUserinfo_name (hname : ∀ c ∈ name, c ≠ 58) : savedUserinfo (name ++ []) = name := by
  rw [savedUserinfo, dropWhile_colon hname, List.append_nil]
  rfl

theorem savedUserinfo_digit {d : UInt8} (hname : ∀ c ∈ name, c ≠ 58) (hd : 48 ≤ d ∧ d ≤ 57) :
    savedUserinfo (name ++ 58 :: d :: more) = d :: more := by
  rw [savedUserinfo, dropWhile_colon hname]
  exact if_pos hd

theorem savedUserinfo_colon (hname : ∀ c ∈ name, c ≠ 58)
    (hmore : ∀ d ∈ more.head?, ¬(48 ≤ d ∧ d ≤ 57)) :
    savedUserinfo (name ++ 58 :: more) = name ++ 58 :: more := by
  rw [savedUserinfo, dropWhile_colon hname]
  cases more with
  | nil => rfl
  | cons d more => exact if_neg (hmore d rfl)

end

def infoClasses : List ByteClass := [.letter, .digit, .schemeMark, .colon, .other]

theorem class_info {c : UInt8} (hc : c ≠ 2 ∧ c ∉ chars "/?#[]@") :
    classOf c ∈ infoClasses ∧ (classOf c = .digit → 48 ≤ c ∧ c ≤ 57) ∧
      (c ≠ 58 → classOf c ∈ nameClasses ∧ classOf c ≠ .two) := by
  have hk : classOf c ≠ .two ∧
      classOf c ∉ [ByteClass.slash, .question, .hash, .open, .close, .at] := by
    simpa [chars] using hc
  refine ⟨?_, classOf_digit.mp, fun hne => ?_⟩
  · revert hk
    cases classOf c <;> decide
  · have hcolon : classOf c ≠ .colon := by simpa using hne
    revert hk hcolon
    cases classOf c <;> decide

/-- After a colon that can only be one of a userinfo, or a digit after it. -/
def InInfo (st : Stage) : Prop := st = .digits true ∨ st = .userinfo true

theorem info_next {k : ByteClass} (hk : k ∈ infoClasses) :
    ∀ st, InInfo st → ∃ st', InInfo st' ∧ st.next k = some (st', []) := by
  have hdigits : ∀ k ∈ infoClasses, ∃ st' ∈ [Stage.digits true, .userinfo true],
      Stage.next (.digits true) k = some (st', []) := by
    decide
  have huserinfo : ∀ k ∈ infoClasses,
      Stage.next (.userinfo true) k = some (.userinfo true, []) := by
    decide
  rintro st (rfl | rfl)
  · obtain ⟨st', hst', hnext⟩ := hdigits k hk
    exact ⟨st', List.mem_pair.mp hst', hnext⟩
  · exact ⟨_, .inr rfl, huserinfo k hk⟩

theorem info_name_next {k : ByteClass} (hk : k ∈ nameClasses ∧ k ≠ .two) :
    Stage.next (.name true) k = some (.name true, []) ∧
      Stage.next (.authority true) k = some (.name true, [.mark]) := by
  have hall : ∀ k ∈ nameClasses, k ≠ .two →
      Stage.next (.name true) k = some (.name true, []) ∧
        Stage.next (.authority true) k = some (.name true, [.mark]) := by
    decide
  exact hall k hk.1 hk.2

/-- After the colon, the rest of the userinfo and its delimiter. -/
theorem info_reads {text : List UInt8} {m : Nat} (hst : InInfo st) (hm : x.mark = some m)
    (hplain : ∀ c ∈ text, c ≠ 2 ∧ c ∉ chars "/?#[]@") :
    Reads s pre st x (text ++ [64]) (.hostStart true)
      ⟨none, { x.uri with userinfo := Creation.slice s m (pre ++ text).length }⟩ := by
  obtain ⟨mark, uri⟩ := x
  obtain rfl : mark = some m := hm
  obtain ⟨st', hst', hloop⟩ : ∃ st', InInfo st' ∧
      Reads s pre st ⟨some m, uri⟩ text st' ⟨some m, uri⟩ :=
    Reads.stays (fun c hc => info_next (class_info (hplain c hc)).1) hst
  have hat : st'.next (classOf 64) = some (.hostStart true, [.saveUserinfo]) := by
    rcases hst' with rfl | rfl <;> rfl
  exact hloop.append (.one hat rfl)

/-- The userinfo before its first colon, which the machine has not told from a host yet. -/
theorem info_name_reads {text rest : List UInt8} (x : Creation) (hs : s = pre ++ (text ++ rest))
    (hplain : ∀ c ∈ text, (c ≠ 2 ∧ c ∉ chars "/?#[]@") ∧ c ≠ 58) :
    ∃ st' y, Reads s pre (.authority true) x text st' y ∧ y.uri = x.uri ∧
      (st' = .authority true ∨ st' = .name true) ∧
      HostRead s pre.length (pre ++ text).length y st' text := by
  have hslice := slice_eq pre text rest (hs.trans (List.append_assoc _ _ _).symm)
  cases text with
  | nil =>
      exact ⟨_, x, .nil, rfl, .inl rfl, hslice,
        .inl ⟨.inl rfl, (congrArg _ (List.append_nil pre)).symm⟩⟩
  | cons c text =>
      have hnext (c : UInt8) (hc : (c ≠ 2 ∧ c ∉ chars "/?#[]@") ∧ c ≠ 58) :=
        info_name_next ((class_info hc.1).2.2 hc.2)
      obtain ⟨hc, htext⟩ := List.forall_mem_cons.mp hplain
      have hone : Reads s pre (.authority true) x [c] (.name true) ⟨some pre.length, x.uri⟩ :=
        .one (hnext c hc).2 rfl
      have hloop : Reads s (pre ++ [c]) (.name true) ⟨some pre.length, x.uri⟩ text (.name true)
          ⟨some pre.length, x.uri⟩ := .loop fun c hc => (hnext c (htext c hc)).1
      exact ⟨_, _, hone.append hloop, rfl, .inr rfl, hslice, .inr ⟨.inl rfl, rfl⟩⟩

theorem colon_next {k : ByteClass} (hk : k ∈ infoClasses) (hne : k ≠ .digit) :
    Stage.next (.colon true) k = some (.userinfo true, []) := by
  have hall : ∀ k ∈ infoClasses, k ≠ .digit →
      Stage.next (.colon true) k = some (.userinfo true, []) := by
    decide
  exact hall k hk hne

/-- The userinfo from its first colon on: a digit after it sets a new mark. -/
theorem info_colon_reads {name more rest : List UInt8} {uri : Uri} {m : Nat}
    (hs : s = pre ++ 58 :: more ++ 64 :: rest) (hname : ∀ c ∈ name, c ≠ 58)
    (hmore : ∀ c ∈ more, c ≠ 2 ∧ c ∉ chars "/?#[]@")
    (hslice : Creation.slice s m (pre ++ 58 :: more).length = name ++ 58 :: more) :
    Reads s (pre ++ [58]) (.colon true) ⟨some m, uri⟩ (more ++ [64]) (.hostStart true)
      ⟨none, { uri with userinfo := savedUserinfo (name ++ 58 :: more) }⟩ := by
  have hpre : pre ++ [58] ++ more = pre ++ 58 :: more := List.append_assoc _ _ _
  cases more with
  | nil =>
      have hone : Reads s (pre ++ [58]) (.colon true) ⟨some m, uri⟩ [64] (.hostStart true)
          ⟨none, { uri with userinfo := Creation.slice s m (pre ++ [58]).length }⟩ := .one rfl rfl
      rw [hslice] at hone
      rw [savedUserinfo_colon hname (by simp)]
      exact hone
  | cons d more =>
      obtain ⟨hd, hmore'⟩ := List.forall_mem_cons.mp hmore
      obtain ⟨hclass, hdigit, -⟩ := class_info hd
      have hpre' : pre ++ [58] ++ [d] ++ more = pre ++ 58 :: d :: more := by
        rw [List.append_assoc _ [d], List.append_assoc]
        rfl
      by_cases hk : 48 ≤ d ∧ d ≤ 57
      · have hone : Reads s (pre ++ [58]) (.colon true) ⟨some m, uri⟩ [d] (.digits true)
            ⟨some (pre ++ [58]).length, uri⟩ := .one (by rw [class_digit hk]; rfl) rfl
        have hrest := hone.append (info_reads (.inl rfl) rfl hmore')
        rw [hpre', ← hpre, slice_eq (pre ++ [58]) (d :: more) (64 :: rest) (by rw [hpre, hs])]
          at hrest
        rw [savedUserinfo_digit hname hk]
        exact hrest
      · have hone : Reads s (pre ++ [58]) (.colon true) ⟨some m, uri⟩ [d] (.userinfo true)
            ⟨some m, uri⟩ := .one (colon_next hclass fun h => hk (hdigit h)) rfl
        have hrest := hone.append (info_reads (.inr rfl) rfl hmore')
        rw [hpre', hslice] at hrest
        rw [savedUserinfo_colon hname (by simpa using hk)]
        exact hrest

/-- The userinfo with its delimiter; what may be a host before is saved as one. -/
theorem userinfo_reads {text rest : List UInt8} (x : Creation)
    (hs : s = pre ++ (text ++ 64 :: rest)) (hplain : ∀ c ∈ text, c ≠ 2 ∧ c ∉ chars "/?#[]@") :
    ∃ junk, Reads s pre (.authority true) x (text ++ [64]) (.hostStart true)
      ⟨none, { x.uri with userinfo := savedUserinfo text, host := junk }⟩ := by
  obtain ⟨name, after, rfl, hname, hafter⟩ := exists_first_colon text
  obtain ⟨hname', hafter'⟩ := List.forall_mem_append.mp hplain
  obtain ⟨st', y, hreads, huri, hst', hread⟩ := info_name_reads x
    (hs.trans (congrArg (pre ++ ·) (List.append_assoc name after _)))
    (fun c hc => ⟨hname' c hc, hname c hc⟩)
  rcases hafter with rfl | ⟨more, rfl⟩
  · obtain ⟨actions, hnext, hact⟩ := hread.userinfo hst'
    rw [savedUserinfo_name hname, List.append_nil]
    rw [huri] at hact
    exact ⟨x.uri.host, hreads.append (.one hnext hact)⟩
  · obtain ⟨actions, st₁, hnext, hst₁, hact⟩ := hread.colon
    obtain rfl : st₁ = .colon true := by
      rcases hst' with rfl | rfl <;> exact congrArg Prod.fst (Option.some.inj hnext).symm
    rw [huri] at hact
    have hcolon := hreads.append (.one (c := 58) hnext hact)
    have hs' : s = pre ++ name ++ 58 :: more ++ 64 :: rest := by
      rw [hs, List.append_assoc pre, List.append_assoc pre]
    have hslice := slice_eq pre (name ++ 58 :: more) (64 :: rest)
      (hs.trans (List.append_assoc _ _ _).symm)
    rw [← List.append_assoc] at hslice
    have hinfo : Reads s (pre ++ name ++ [58])
        (.colon true) ⟨some pre.length, { x.uri with host := name }⟩
        (more ++ [64]) (.hostStart true) _ :=
      info_colon_reads hs' hname (fun c hc => hafter' c (List.mem_cons_of_mem _ hc)) hslice
    rw [List.append_assoc pre] at hinfo
    have hassoc : name ++ 58 :: more ++ [64] = name ++ [58] ++ (more ++ [64]) := by
      rw [List.append_assoc, List.append_assoc]
      rfl
    rw [hassoc]
    exact ⟨name, hcolon.append hinfo⟩

end Lyslg.UriParser
