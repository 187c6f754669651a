import Lyslg.Uri.Components
/-!
# Which texts in parts the machine accepts

From one delimiter to the next the machine is on its own: the parts of a text are accepted
each by itself, from a state that the delimiter before it decides.
-/

namespace Lyslg.UriParser

open Http Support Uri
open scoped Http.ListMembers

variable {q q' q'' : Nat} {c : UInt8} {a b : List UInt8} {t : Transition}

/-! ## Runs without their actions -/

def Leads (q : Nat) (text : List UInt8) (q' : Nat) : Prop :=
  ∀ p, ∃ events, machine.Walks p q text events q'

/-- From `q`, the text is accepted. -/
def Ok (q : Nat) (text : List UInt8) : Prop := ∃ q', Leads q text q' ∧ 451 ≤ q'

theorem leads_of_walks {p : Nat} {events : List (Action × Nat)}
    (h : machine.Walks p q a events q') : Leads q a q' := by
  intro p'
  obtain ⟨events', u, hwalk, rfl⟩ : ∃ events' u, machine.Walks p' q a events' u ∧ q' = u :=
    h.simulate (L := fun _ => True) (fun _ _ _ t _ _ heq _ hnext _ => ⟨t, heq ▸ hnext, rfl, rfl⟩)
      (fun _ _ => trivial) rfl p'
  exact ⟨events', hwalk⟩

namespace Leads

theorem nil : Leads q [] q := fun p => ⟨[], .nil p q⟩

theorem one (h : next q c = some t) : Leads q [c] t.target := fun _ => ⟨_, .one h rfl rfl⟩

theorem append (h : Leads q a q') (h' : Leads q' b q'') : Leads q (a ++ b) q'' := by
  intro p
  obtain ⟨events, hwalk⟩ := h p
  obtain ⟨events', hwalk'⟩ := h' (p + a.length)
  exact ⟨_, hwalk.append hwalk'⟩

theorem split (h : Leads q (a ++ b) q'') : ∃ q', Leads q a q' ∧ Leads q' b q'' := by
  obtain ⟨events, hwalk⟩ := h 0
  obtain ⟨q', before, after, -, hbefore, hafter⟩ := hwalk.split
  exact ⟨q', leads_of_walks hbefore, leads_of_walks hafter⟩

theorem split_cons (h : Leads q (c :: b) q'') : ∃ t, next q c = some t ∧ Leads t.target b q'' := by
  obtain ⟨events, hwalk⟩ := h 0
  obtain ⟨t, after, hnext, -, hafter⟩ := hwalk.split_cons
  exact ⟨t, hnext, leads_of_walks hafter⟩

theorem unique (h : Leads q a q') (h' : Leads q a q'') : q' = q'' := by
  obtain ⟨events, hwalk⟩ := h 0
  obtain ⟨events', hwalk'⟩ := h' 0
  exact (hwalk.unique hwalk').2

theorem le (h : Leads q a q') (hq : q ≤ 560) : q' ≤ 560 := by
  obtain ⟨events, hwalk⟩ := h 0
  exact walks_le hwalk hq

/-- Letters that lead to one state. -/
theorem loop (h : ∀ c ∈ a, ∃ t, next q c = some t ∧ t.target = q) : Leads q a q := by
  induction a with
  | nil => exact .nil
  | cons c a ih =>
      obtain ⟨⟨t, hnext, htarget⟩, ha⟩ := List.forall_mem_cons.mp h
      have hone := Leads.one hnext
      rw [htarget] at hone
      exact hone.append (ih ha)

/-- What the stages say of a run. -/
theorem stage_eq {s pre : List UInt8} {x y : Creation} {st : Stage} (h : Leads q a q')
    (hreads : Reads s pre (stage q) x a st y) : stage q' = st := by
  obtain ⟨events, hwalk⟩ := h pre.length
  obtain ⟨events', hstages, -⟩ := hreads
  exact ((walks_stages hwalk).unique hstages).2

theorem keeps {I : Stage → Prop} {L : UInt8 → Prop}
    (hstep : ∀ st c st' actions, I st → L c → st.next (classOf c) = some (st', actions) → I st')
    (h : Leads q a q') (hL : ∀ c ∈ a, L c) (hq : I (stage q)) : I (stage q') := by
  obtain ⟨events, hwalk⟩ := h 0
  exact (walks_stages hwalk).keeps
    (fun _ st c t hst hc hnext => hstep st c t.1 t.2 hst hc hnext) hL hq

end Leads

theorem ok_cons (h : next q c = some t) : Ok q (c :: a) ↔ Ok t.target a := by
  constructor
  · rintro ⟨q', hleads, hfinal⟩
    obtain ⟨t', hnext, hrest⟩ := hleads.split_cons
    obtain rfl := Option.some.inj (h.symm.trans hnext)
    exact ⟨q', hrest, hfinal⟩
  · rintro ⟨q', hleads, hfinal⟩
    exact ⟨q', (Leads.one h).append hleads, hfinal⟩

theorem ok_append (h : Leads q a q') : Ok q (a ++ b) ↔ Ok q' b := by
  constructor
  · rintro ⟨q'', hleads, hfinal⟩
    obtain ⟨r, hfirst, hrest⟩ := hleads.split
    rw [hfirst.unique h] at hrest
    exact ⟨q'', hrest, hfinal⟩
  · rintro ⟨q'', hleads, hfinal⟩
    exact ⟨q'', h.append hleads, hfinal⟩

theorem accepts_iff_ok {s : List UInt8} : Accepts s ↔ Ok 451 s := by
  constructor
  · rintro ⟨events, q', hwalk, hfinal⟩
    exact ⟨q', leads_of_walks hwalk, hfinal⟩
  · rintro ⟨q', hleads, hfinal⟩
    obtain ⟨events, hwalk⟩ := hleads 0
    exact ⟨events, q', hwalk, hfinal⟩

/-! ## Delimiters -/

/-- Only final states have transitions on the delimiters after a hier-part or a query. -/
theorem final_of_delimiter (h : next q c = some t) (hc : c ∈ [35, 47, 63]) : 451 ≤ q := by
  have hall : ∀ row ∈ transitions, ∀ t ∈ row.2, row.1 < 451 → ∀ d ∈ [35, 47, 63],
      t.takes d = false := by
    decide +kernel
  obtain ⟨⟨ts, hrow, ht⟩, htakes⟩ := next_mem h
  by_contra hlt
  rw [hall _ hrow t ht (Nat.lt_of_not_le hlt) c hc] at htakes
  cases htakes

theorem final_of_ok (hb : ∀ c ∈ b.head?, c ∈ [35, 47, 63]) (h : Ok q b) : 451 ≤ q := by
  obtain ⟨q', hleads, hfinal⟩ := h
  cases b with
  | nil => exact (hleads.unique .nil) ▸ hfinal
  | cons c b =>
      obtain ⟨t, hnext, -⟩ := hleads.split_cons
      exact final_of_delimiter hnext (hb c rfl)

theorem delimiter_next : ∀ q ∈ List.range' 451 110,
    (stage q ≠ .fragmentStart → stage q ≠ .fragment →
      (next q 35).map Transition.target = some 453 ∧
      (stage q ≠ .queryStart → stage q ≠ .query →
        (next q 63).map Transition.target = some 456)) := by
  decide +kernel

/-- The stages of an authority after a scheme. -/
def authorityStages : List Stage := [.authority true, .name true, .literal true, .colon true,
  .digits true, .userinfo true, .hostStart true, .host true, .portStart true, .port true]

theorem slash_next : ∀ q ∈ List.range' 451 110, stage q ∈ authorityStages →
    (next q 47).map Transition.target = some 513 := by
  decide +kernel

theorem ok_cons_target {target : Nat} (h : (next q c).map Transition.target = some target) :
    Ok q (c :: a) ↔ Ok target a := by
  obtain ⟨t, hnext, rfl⟩ := Option.map_eq_some_iff.mp h
  exact ok_cons hnext

/-- A part and what follows its delimiter are accepted independently. -/
theorem ok_part {I : Stage → Prop} {B : Prop} (hq : q ≤ 560)
    (hpart : ∀ q', Leads q a q' → I (stage q'))
    (hrest : ∀ q' ∈ List.range' 451 110, I (stage q') → (Ok q' b ↔ B))
    (hb : ∀ c ∈ b.head?, c ∈ [35, 47, 63]) : Ok q (a ++ b) ↔ Ok q a ∧ B := by
  have hiff {q' : Nat} (hleads : Leads q a q') (hfinal : 451 ≤ q') : Ok q' b ↔ B :=
    hrest q' (List.mem_range'_1.mpr ⟨hfinal, by have := hleads.le hq; omega⟩) (hpart q' hleads)
  constructor
  · rintro ⟨q'', hleads, hfinal⟩
    obtain ⟨q', hfirst, hrest'⟩ := hleads.split
    have hok : Ok q' b := ⟨q'', hrest', hfinal⟩
    have hfinal' := final_of_ok hb hok
    exact ⟨⟨q', hfirst, hfinal'⟩, (hiff hfirst hfinal').mp hok⟩
  · rintro ⟨⟨q', hleads, hfinal⟩, hB⟩
    exact (ok_append hleads).mpr ((hiff hleads hfinal).mpr hB)

/-! ## Query, fragment and path -/

variable {query fragment : Option (List UInt8)} {path : List UInt8}

theorem ok_fragment (hq : q ∈ List.range' 451 110) (hstart : stage q ≠ .fragmentStart)
    (hfragment : stage q ≠ .fragment) :
    Ok q (optionalPart 35 fragment) ↔ ∀ text ∈ fragment, Ok 453 text := by
  cases fragment with
  | none => exact iff_of_true ⟨q, .nil, (List.mem_range'_1.mp hq).1⟩ (by simp)
  | some text =>
      rw [optionalPart, ok_cons_target (delimiter_next q hq hstart hfragment).1]
      simp

/-- Query and fragment are accepted. -/
def TailOk (query fragment : Option (List UInt8)) : Prop :=
  (∀ text ∈ query, Ok 456 text) ∧ ∀ text ∈ fragment, Ok 453 text

theorem optionalPart_head {d : UInt8} {text : Option (List UInt8)} :
    ∀ c ∈ (optionalPart d text).head?, c = d := by
  cases text with
  | none => simp [optionalPart]
  | some text => simp [optionalPart]

theorem ok_tail (hq : q ∈ List.range' 451 110)
    (hstage : stage q ∉ [Stage.fragmentStart, .fragment, .queryStart, .query])
    (hplain : ∀ text ∈ query, ∀ c ∈ text, c ≠ 35) :
    Ok q (UriParts.tail query fragment) ↔ TailOk query fragment := by
  simp only [List.mem_cons, List.not_mem_nil, or_false, not_or] at hstage
  obtain ⟨hstart, hfragment, hqueryStart, hquery⟩ := hstage
  cases query with
  | none =>
      refine (ok_fragment hq hstart hfragment).trans ?_
      simp [TailOk]
  | some text =>
      have hnext := (delimiter_next q hq hstart hfragment).2 hqueryStart hquery
      have hpart : ∀ q', Leads 456 text q' → stage q' = .queryStart ∨ stage q' = .query :=
        fun q' hleads => hleads.keeps (I := fun st => st = .queryStart ∨ st = .query)
          (L := fun c => c ≠ 35) (by
            rintro st c st' actions (rfl | rfl) hc h
            · rw [(query_next (class_not_hash hc)).1] at h
              exact .inr (congrArg Prod.fst (Option.some.inj h)).symm
            · rw [(query_next (class_not_hash hc)).2] at h
              exact .inr (congrArg Prod.fst (Option.some.inj h)).symm)
          (hplain text rfl) (.inl rfl)
      show Ok q (63 :: (text ++ optionalPart 35 fragment)) ↔ _
      rw [ok_cons_target hnext]
      refine (ok_part (I := fun st => st = .queryStart ∨ st = .query) (by decide) hpart
        (fun q' hq' hst => ?_) fun c hc => ?_).trans (and_congr ?_ Iff.rfl)
      · refine ok_fragment hq' ?_ ?_
        · rcases hst with h | h <;> rw [h] <;> decide
        · rcases hst with h | h <;> rw [h] <;> decide
      · rw [optionalPart_head c hc]
        decide
      · simp

/-- The path after an authority is accepted. -/
def PathOk (path : List UInt8) : Prop := ∀ rest, path = 47 :: rest → Ok 513 rest

theorem tail_delimiter : ∀ c ∈ (UriParts.tail query fragment).head?, c ∈ [35, 47, 63] := by
  intro c hc
  cases query with
  | none =>
      rw [optionalPart_head c hc]
      decide
  | some text =>
      obtain rfl := Option.some.inj hc
      decide

theorem ok_path (hq : q ∈ List.range' 451 110) (hstage : stage q ∈ authorityStages)
    (hplain : ∀ c ∈ path, c ∉ chars "?#") (hslash : path = [] ∨ path.head? = some 47)
    (hquery : ∀ text ∈ query, ∀ c ∈ text, c ≠ 35) :
    Ok q (path ++ UriParts.tail query fragment) ↔ PathOk path ∧ TailOk query fragment := by
  cases path with
  | nil =>
      have hno : ∀ st ∈ authorityStages,
          st ∉ [Stage.fragmentStart, .fragment, .queryStart, .query] := by
        decide
      rw [List.nil_append, ok_tail hq (hno _ hstage) hquery]
      exact (and_iff_right (by rintro rest h; cases h)).symm
  | cons c rest =>
      obtain rfl : c = 47 := by simpa using hslash
      have hpart : ∀ q', Leads 513 rest q' → stage q' = .path := fun q' hleads =>
        hleads.keeps (I := fun st => st = .path) (L := fun c => c ∉ chars "?#") (by
          rintro st c st' actions rfl hc h
          rw [(path_next hc).1] at h
          exact (congrArg Prod.fst (Option.some.inj h)).symm)
          (fun c hc => hplain c (List.mem_cons_of_mem _ hc)) rfl
      rw [List.cons_append, ok_cons_target (slash_next q hq hstage)]
      refine (ok_part (I := fun st => st = .path) (by decide) hpart (fun q' hq' hst => ?_)
        tail_delimiter).trans (and_congr ?_ Iff.rfl)
      · exact ok_tail hq' (by rw [hst]; decide) hquery
      · simp [PathOk]

/-! ## The text after the scheme -/

/-- In an authority, only its delimiters lead out of its stages. -/
theorem authority_next {st st' : Stage} {actions : List Action} (hst : st ∈ authorityStages)
    (hc : c ∉ chars "/?#") (h : st.next (classOf c) = some (st', actions)) :
    st' ∈ authorityStages := by
  have hk : classOf c ∉ [ByteClass.slash, .question, .hash] := by simpa [chars] using hc
  have hall :
    ∀ k ∈ [ByteClass.letter, .digit, .schemeMark, .colon, .at, .open, .close, .two, .other],
      ∀ st ∈ authorityStages, ∀ r ∈ st.next k, r.1 ∈ authorityStages := by
    decide
  refine hall (classOf c) ?_ st hst (st', actions) h
  revert hk
  cases classOf c <;> decide

theorem plain_sub : ∀ c : UInt8, (c ∉ chars ":/?#[]@" → c ∉ chars "/?#") ∧
    (c ∉ chars "/?#[]@" → c ∉ chars "/?#") ∧ (48 ≤ c ∧ c ≤ 57 → c ∉ chars "/?#") := by
  intro c
  refine ⟨by simp +contextual [chars], by simp +contextual [chars], fun hdigit hmem => ?_⟩
  have hdelims : c = 47 ∨ c = 63 ∨ c = 35 := by simpa [chars] using hmem
  revert hdigit
  rcases hdelims with rfl | rfl | rfl <;> decide

theorem host_plain (host : Uri.Host) : ∀ c ∈ host.text, c ∉ chars "/?#" := by
  cases host with
  | name text plain => exact fun c hc => (plain_sub c).1 (plain c hc)
  | literal address plain =>
      exact List.forall_mem_append.mpr ⟨List.forall_mem_append.mpr
        ⟨by decide, fun c hc => (plain_sub c).2.1 (plain c hc)⟩, by decide⟩

theorem authority_plain (a : Authority) : ∀ c ∈ a.text, c ∉ chars "/?#" := by
  have huserinfo : ∀ c ∈ userinfoPart a.userinfo, c ∉ chars "/?#" := by
    cases hui : a.userinfo with
    | none => simp [userinfoPart]
    | some text =>
        exact List.forall_mem_append.mpr
          ⟨fun c hc => (plain_sub c).2.1 (a.userinfo_plain text hui c hc).2, by decide⟩
  have hport : ∀ c ∈ optionalPart 58 a.port, c ∉ chars "/?#" := by
    cases hp : a.port with
    | none => simp [optionalPart]
    | some digits =>
        exact List.forall_mem_cons.mpr
          ⟨by decide, fun c hc => (plain_sub c).2.2 (a.port_digits digits hp c hc)⟩
  exact List.forall_mem_append.mpr
    ⟨List.forall_mem_append.mpr ⟨huserinfo, host_plain a.host⟩, hport⟩

theorem path_head (hslash : path = [] ∨ path.head? = some 47) :
    ∀ c ∈ (path ++ UriParts.tail query fragment).head?, c ∈ [35, 47, 63] := by
  cases path with
  | nil => exact tail_delimiter
  | cons d path =>
      intro c hc
      obtain rfl : d = 47 := by simpa using hslash
      obtain rfl := Option.some.inj hc
      decide

theorem ok_authority {text : List UInt8} (htext : ∀ c ∈ text, c ∉ chars "/?#")
    (hplain : ∀ c ∈ path, c ∉ chars "?#") (hslash : path = [] ∨ path.head? = some 47)
    (hquery : ∀ text ∈ query, ∀ c ∈ text, c ≠ 35) :
    Ok 511 (text ++ (path ++ UriParts.tail query fragment)) ↔
      Ok 511 text ∧ PathOk path ∧ TailOk query fragment := by
  have hpart : ∀ q', Leads 511 text q' → stage q' ∈ authorityStages := fun q' hleads =>
    hleads.keeps (I := fun st => st ∈ authorityStages) (L := fun c => c ∉ chars "/?#")
      (fun st c st' actions hst hc h => authority_next hst hc h) htext (by decide)
  exact ok_part (I := fun st => st ∈ authorityStages) (by decide) hpart
    (fun q' hq' hst => ok_path hq' hst hplain hslash hquery) (path_head hslash)

theorem ok_plain {whole : List UInt8} (hplain : ∀ c ∈ whole, c ∉ chars "?#")
    (hsingle : ¬chars "//" <+: whole) (hquery : ∀ text ∈ query, ∀ c ∈ text, c ≠ 35) :
    Ok 509 (whole ++ UriParts.tail query fragment) ↔ Ok 509 whole ∧ TailOk query fragment := by
  obtain ⟨st', hreads, hcloses⟩ : ∃ st', Reads [] [] .hierPart {} whole st' {} ∧ Closes st' [] :=
    plain_reads hplain hsingle
  have hst' : st' ∉ [Stage.fragmentStart, .fragment, .queryStart, .query] := by
    intro hmem
    have hquestion := hcloses.question
    simp only [List.mem_cons, List.not_mem_nil, or_false] at hmem
    rcases hmem with rfl | rfl | rfl | rfl <;> cases hquestion
  have hpart : ∀ q', Leads 509 whole q' → stage q' = st' := fun q' hleads =>
    hleads.stage_eq (show Reads [] [] (stage 509) {} whole st' {} from hreads)
  refine ok_part (I := fun st => st = st') (by decide) hpart (fun q' hq' hst => ?_) tail_delimiter
  exact ok_tail hq' (by rw [hst]; exact hst') hquery

theorem scheme_leads {scheme : List UInt8} (halpha : ∃ c ∈ scheme.head?, isAlpha c)
    (hchars : ∀ c ∈ scheme, isSchemeChar c) : Leads 451 (scheme ++ [58]) 509 := by
  have hnext : ∀ c : UInt8, (isAlpha c → (next 451 c).map Transition.target = some 508) ∧
      (isSchemeChar c → (next 508 c).map Transition.target = some 508) := by
    apply forall_byte
    decide +kernel
  obtain ⟨c, hc, halpha⟩ := halpha
  cases scheme with
  | nil => cases hc
  | cons d scheme =>
      obtain rfl := Option.some.inj hc
      obtain ⟨t, hfirst, htarget⟩ := Option.map_eq_some_iff.mp ((hnext d).1 halpha)
      have hone := Leads.one hfirst
      rw [htarget] at hone
      have hloop : Leads 508 scheme 508 := .loop fun c hc =>
        Option.map_eq_some_iff.mp ((hnext c).2 (hchars c (List.mem_cons_of_mem _ hc)))
      obtain ⟨t', hcolon, htarget'⟩ : ∃ t, next 508 58 = some t ∧ t.target = 509 := ⟨_, rfl, rfl⟩
      have hlast := Leads.one hcolon
      rw [htarget'] at hlast
      exact (hone.append hloop).append hlast

/-- A text in parts is accepted when each of its parts is. -/
theorem accepts_text_iff (parts : UriParts) : Accepts parts.text ↔
    (match parts.hierPart with
      | .authority a path .. => Ok 511 a.text ∧ PathOk path
      | .path whole .. => Ok 509 whole) ∧ TailOk parts.query parts.fragment := by
  have htext : parts.text = parts.scheme ++ [58] ++
      (parts.hierPart.text ++ UriParts.tail parts.query parts.fragment) :=
    List.append_assoc (parts.scheme ++ [58]) _ _
  rw [accepts_iff_ok, htext, ok_append (scheme_leads parts.scheme_alpha parts.scheme_chars)]
  obtain ⟨scheme, hierPart, query, fragment, halpha, hchars, hquery, hfragment⟩ := parts
  cases hierPart with
  | path whole hplain hsingle => exact ok_plain hplain hsingle hquery
  | authority a path hplain hslash =>
      have hassoc : (HierPart.authority a path hplain hslash).text ++ UriParts.tail query fragment =
          47 :: 47 :: (a.text ++ (path ++ UriParts.tail query fragment)) := by
        show [47, 47] ++ a.text ++ path ++ UriParts.tail query fragment = _
        simp only [List.append_assoc, List.cons_append, List.nil_append]
      obtain ⟨t, hnext, htarget⟩ : ∃ t, next 509 47 = some t ∧ t.target = 510 := ⟨_, rfl, rfl⟩
      obtain ⟨t', hnext', htarget'⟩ : ∃ t, next 510 47 = some t ∧ t.target = 511 := ⟨_, rfl, rfl⟩
      rw [hassoc, ok_cons hnext, htarget, ok_cons hnext', htarget',
        ok_authority (authority_plain a) hplain hslash hquery, and_assoc]

end Lyslg.UriParser
