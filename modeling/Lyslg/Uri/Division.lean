import Lyslg.Uri.AuthorityText
/-!
# Every accepted text with a scheme has parts

The delimiters divide the text, and what the machine never reads from a stage keeps them out
of the parts.
-/

namespace Lyslg.UriParser

open Http Support Uri
open scoped Http.ListMembers

variable {q q' : Nat} {s text : List UInt8}

/-- The text has a scheme. -/
def HasScheme (s : List UInt8) : Prop :=
  ∃ scheme rest, s = scheme ++ 58 :: rest ∧ (∃ c ∈ scheme.head?, isAlpha c) ∧
    ∀ c ∈ scheme, isSchemeChar c

/-- Bytes that no stage of a group reads are not in a text read from there. -/
theorem Leads.never {I : Stage → Prop} {L P : UInt8 → Prop}
    (hkeep : ∀ st c st' actions, I st → L c → st.next (classOf c) = some (st', actions) → I st')
    (hnone : ∀ st c, I st → L c → P c → st.next (classOf c) = none)
    (h : Leads q text q') (hL : ∀ c ∈ text, L c) (hq : I (stage q)) : ∀ c ∈ text, ¬P c := by
  induction text generalizing q with
  | nil => exact fun c hc => absurd hc List.not_mem_nil
  | cons d text ih =>
      obtain ⟨hd, htext⟩ := List.forall_mem_cons.mp hL
      obtain ⟨t, hnext, hrest⟩ := h.split_cons
      have hstage := (next_stage hnext).2
      refine List.forall_mem_cons.mpr ⟨fun hP => ?_, ih hrest htext (hkeep _ d _ _ hq hd hstage)⟩
      rw [hnone _ d hq hd hP] at hstage
      cases hstage

/-- No final state is within brackets, or in a userinfo alone. -/
theorem final_stage : ∀ q ∈ List.range' 451 110,
    stage q ≠ .literal true ∧ stage q ≠ .userinfo true := by
  decide

theorem final_stage_of_ok (hle : q ≤ 560) (h : Leads q text q') (hfinal : 451 ≤ q') :
    stage q' ≠ .literal true ∧ stage q' ≠ .userinfo true :=
  final_stage q' (List.mem_range'_1.mpr ⟨hfinal, by have := h.le hle; omega⟩)

/-! ## Ports -/

theorem class_of_digit {c : UInt8} (h : classOf c = .digit) : 48 ≤ c ∧ c ≤ 57 :=
  classOf_digit.mp h

theorem class_delimiter {c : UInt8} (hc : c ∉ chars "/?#") :
    classOf c ≠ .slash ∧ classOf c ≠ .question ∧ classOf c ≠ .hash ∧
    (c ≠ 64 → classOf c ≠ .at) := by
  simpa [chars] using hc

/-- After a colon that can only be that of a port, there are digits. -/
theorem port_digits (hq : stage q = .portStart true) (hleads : Leads q text q')
    (htext : ∀ c ∈ text, c ∉ chars "/?#") : ∀ c ∈ text, 48 ≤ c ∧ c ≤ 57 := by
  have hnext : ∀ st, st = .portStart true ∨ st = .port true → ∀ k, k ≠ .slash → k ≠ .question →
      k ≠ .hash → k ≠ .digit → Stage.next st k = none := by
    rintro st (rfl | rfl) k
    · cases k <;> decide
    · cases k <;> decide
  have hnever := hleads.never (I := fun st => st = .portStart true ∨ st = .port true)
    (L := fun c => c ∉ chars "/?#") (P := fun c => classOf c ≠ .digit)
    (fun st c st' actions hst hc h => by
      by_cases hk : classOf c = .digit
      · rw [hk] at h
        rcases hst with rfl | rfl <;> exact .inr (congrArg Prod.fst (Option.some.inj h)).symm
      · obtain ⟨hslash, hquestion, hhash, -⟩ := class_delimiter hc
        rw [hnext st hst _ hslash hquestion hhash hk] at h
        cases h)
    (fun st c hst hc hk => by
      obtain ⟨hslash, hquestion, hhash, -⟩ := class_delimiter hc
      exact hnext st hst _ hslash hquestion hhash hk) htext (.inl hq)
  exact fun c hc => class_of_digit (not_not.mp (hnever c hc))

/-- After a colon that may still be that of a userinfo, there are digits if no userinfo ends. -/
theorem colon_digits (hle : q ≤ 560) (hq : stage q = .colon true) (hleads : Leads q text q')
    (hfinal : 451 ≤ q') (htext : ∀ c ∈ text, c ∉ chars "/?#" ∧ c ≠ 64) :
    ∀ c ∈ text, 48 ≤ c ∧ c ≤ 57 := by
  obtain ⟨digits, after, rfl, hdigits, rfl | ⟨d, more, rfl, hd⟩⟩ :=
    exists_first (fun c => ¬(48 ≤ c ∧ c ≤ 57)) text
  · rw [List.append_nil]
    exact fun c hc => not_not.mp (hdigits c hc)
  · obtain ⟨hdigits', hmore⟩ := List.forall_mem_append.mp htext
    obtain ⟨hd', hmore'⟩ := List.forall_mem_cons.mp hmore
    obtain ⟨x, hx, hrest⟩ := hleads.split
    obtain ⟨t, hnext, hrest⟩ := hrest.split_cons
    have hxstage : stage x = .colon true ∨ stage x = .digits true :=
      hx.keeps (I := fun st => st = .colon true ∨ st = .digits true)
        (L := fun c => 48 ≤ c ∧ c ≤ 57) (fun st c st' actions hst hc h => by
          rw [class_digit hc] at h
          rcases hst with rfl | rfl <;> exact .inr (congrArg Prod.fst (Option.some.inj h)).symm)
        (fun c hc => not_not.mp (hdigits c hc)) (.inl hq)
    have hstep : ∀ st, st = .colon true ∨ st = .digits true ∨ st = .userinfo true →
      ∀ k, k ≠ .slash →
        k ≠ .question → k ≠ .hash → k ≠ .at → (st = .userinfo true ∨ k ≠ .digit) →
          ∀ r ∈ Stage.next st k, r.1 = .userinfo true := by
      rintro st (rfl | rfl | rfl) k
      · cases k <;> decide
      · cases k <;> decide
      · cases k <;> decide
    obtain ⟨hslash, hquestion, hhash, hat⟩ := class_delimiter hd'.1
    have hstart : stage t.target = .userinfo true :=
      hstep (stage x) (hxstage.imp id .inl) (classOf d) hslash hquestion hhash (hat hd'.2)
        (.inr fun hk => hd (class_of_digit hk)) _ (next_stage hnext).2
    have hend : stage q' = .userinfo true :=
      hrest.keeps (I := fun st => st = .userinfo true) (L := fun c => c ∉ chars "/?#" ∧ c ≠ 64)
        (fun st c st' actions hst hc h => by
          obtain ⟨hslash, hquestion, hhash, hat⟩ := class_delimiter hc.1
          exact hstep st (.inr (.inr hst)) (classOf c) hslash hquestion hhash
            (hat hc.2) (.inl hst) _ h)
        hmore' hstart
    exact absurd hend (final_stage_of_ok hle hleads hfinal).2

/-! ## Hosts -/

/-- The bytes of a host and a port, which are within an authority after its userinfo. -/
def HostByte (c : UInt8) : Prop := c ∉ chars "/?#" ∧ c ≠ 64

theorem plain_of_ne {c : UInt8} (hc : HostByte c) (hopen : c ≠ 91) (hclose : c ≠ 93) :
    c ∉ chars "/?#[]@" ∧ (c ≠ 58 → c ∉ chars ":/?#[]@") := by
  have hall : ∀ c : UInt8, c ∉ chars "/?#" → c ≠ 64 → c ≠ 91 → c ≠ 93 →
      c ∉ chars "/?#[]@" ∧ (c ≠ 58 → c ∉ chars ":/?#[]@") := by
    simp +contextual [chars]
  exact hall c hc.1 hc.2 hopen hclose

theorem colon_of_mem {c : UInt8} (hc : HostByte c) (hmem : c ∈ [35, 47, 58, 63]) : c = 58 := by
  simp only [List.mem_cons, List.not_mem_nil, or_false] at hmem
  rcases hmem with rfl | rfl | rfl | rfl
  · exact absurd (by decide) hc.1
  · exact absurd (by decide) hc.1
  · rfl
  · exact absurd (by decide) hc.1

theorem literal_step {c : UInt8} (hc : HostByte c) (hclose : c ≠ 93) :
    (∀ st' actions, Stage.next (.literal true) (classOf c) = some (st', actions) →
      st' = .literal true) ∧
    (c = 91 → Stage.next (.literal true) (classOf c) = none) := by
  have hall : ∀ k, k ≠ ByteClass.close → ∀ r ∈ Stage.next (.literal true) k,
      r.1 = .literal true := by
    intro k
    cases k <;> decide
  have hclass : classOf c ≠ .close := by simpa using hclose
  refine ⟨fun st' actions h => hall _ hclass (st', actions) h, ?_⟩
  rintro rfl
  rfl

/-- Behind a closing bracket, only a port or an end is read. -/
theorem close_target : (∀ row ∈ transitions, stage row.1 = .literal true → ∀ t ∈ row.2, t.takes 93 →
      t.target = 512) ∧
    ∀ c : UInt8, (next 512 c).isSome → c ∈ [35, 47, 58, 63] := by
  refine ⟨by decide +kernel, ?_⟩
  apply forall_byte
  decide +kernel

theorem exists_literal {text : List UInt8} (hle : q ≤ 560) (hq : stage q = .literal true)
    (h : Ok q text) (htext : ∀ c ∈ text, HostByte c) :
    ∃ (host : Uri.Host) (port : Option (List UInt8)),
      91 :: text = host.text ++ optionalPart 58 port ∧
        ∀ digits ∈ port, ∀ c ∈ digits, 48 ≤ c ∧ c ≤ 57 := by
  obtain ⟨q', hleads, hfinal⟩ := h
  obtain ⟨address, after, rfl, haddress, hafter⟩ := exists_first (· = 93) text
  obtain ⟨hbytes, hafterBytes⟩ := List.forall_mem_append.mp htext
  obtain ⟨x, hx, hrest⟩ := hleads.split
  have hboth : ∀ c ∈ address, HostByte c ∧ c ≠ 93 := fun c hc => ⟨hbytes c hc, haddress c hc⟩
  have hstage : stage x = .literal true :=
    hx.keeps (I := fun st => st = .literal true) (L := fun c => HostByte c ∧ c ≠ 93)
      (fun st c st' actions hst hc h => (literal_step hc.1 hc.2).1 st' actions (hst ▸ h)) hboth hq
  have hopen := hx.never (I := fun st => st = .literal true) (L := fun c => HostByte c ∧ c ≠ 93)
    (P := fun c => c = 91)
    (fun st c st' actions hst hc h => (literal_step hc.1 hc.2).1 st' actions (hst ▸ h))
    (fun st c hst hc hP => hst ▸ (literal_step hc.1 hc.2).2 hP) hboth hq
  have hplain : ∀ c ∈ address, c ∉ chars "/?#[]@" := fun c hc =>
    (plain_of_ne (hbytes c hc) (hopen c hc) (haddress c hc)).1
  have hbrackets : 91 :: (address ++ [93]) = (Uri.Host.literal address hplain).text := rfl
  rcases hafter with rfl | ⟨d, more, rfl, rfl⟩
  · have hq' := hrest.unique .nil
    exact absurd hstage (hq' ▸ (final_stage_of_ok hle hleads hfinal).1)
  · obtain ⟨t, hclose, hmore⟩ := hrest.split_cons
    obtain ⟨⟨ts, hrow, ht⟩, htakes⟩ := next_mem hclose
    rw [close_target.1 _ hrow hstage t ht htakes] at hmore
    cases more with
    | nil =>
        exact ⟨.literal address hplain, none, hbrackets.trans (List.append_nil _).symm, by simp⟩
    | cons d digits =>
        obtain ⟨hd, hdigits⟩ := List.forall_mem_cons.mp (List.forall_mem_cons.mp hafterBytes).2
        obtain ⟨t', hnext, hport⟩ := hmore.split_cons
        obtain rfl : d = 58 := by
          have hmem := close_target.2 d (by rw [hnext]; rfl)
          exact colon_of_mem hd hmem
        have hstart : stage t'.target = .portStart true := by
          have hnext' := (next_stage hnext).2
          have h512 : stage 512 = .host true := by decide
          rw [h512] at hnext'
          exact (congrArg Prod.fst (Option.some.inj hnext')).symm
        refine ⟨.literal address hplain, some digits, ?_, ?_⟩
        · rw [← hbrackets]
          show 91 :: (address ++ 93 :: 58 :: digits) = 91 :: (address ++ [93]) ++ 58 :: digits
          rw [List.cons_append, List.append_assoc]
          rfl
        · intro digits' hdigits'
          obtain rfl := Option.some.inj hdigits'
          exact port_digits hstart hport fun c hc => (hdigits c hc).1

theorem name_step {k : ByteClass} (hk : k ∉ [ByteClass.slash, .question, .hash, .colon, .at]) :
    (∀ st ∈ [Stage.name true, .host true],
      (∀ r ∈ Stage.next st k, r.1 ∈ [Stage.name true, .host true]) ∧
        (k = .open ∨ k = .close → Stage.next st k = none)) ∧
    ∀ st ∈ [Stage.authority true, .hostStart true],
      (k ≠ .open → ∀ r ∈ Stage.next st k, r.1 ∈ [Stage.name true, .host true]) ∧
        (k = .close → Stage.next st k = none) := by
  revert hk
  cases k <;> decide

theorem class_bracket : ∀ c : UInt8, (c = 91 ↔ classOf c = .open) ∧ (c = 93 → classOf c = .close) ∧
    (c ∉ chars "/?#" → c ≠ 64 → c ≠ 58 →
      classOf c ∉ [ByteClass.slash, .question, .hash, .colon, .at]) := by
  simp +contextual [chars]

/-- The name of a host has no brackets. -/
theorem name_plain {name : List UInt8} (hq : stage q ∈ [Stage.authority true, .hostStart true])
    (hleads : Leads q name q') (hopen : name.head? ≠ some 91)
    (hname : ∀ c ∈ name, HostByte c ∧ c ≠ 58) :
    (∀ c ∈ name, c ∉ chars ":/?#[]@") ∧ stage q' ∈ hostStages := by
  have hclass {c : UInt8} (hc : HostByte c ∧ c ≠ 58) :=
    name_step ((class_bracket c).2.2 hc.1.1 hc.1.2 hc.2)
  cases name with
  | nil =>
      refine ⟨by simp, ?_⟩
      rw [hleads.unique .nil]
      revert hq
      simp only [List.mem_cons, List.not_mem_nil, or_false]
      rintro (h | h) <;> rw [h] <;> decide
  | cons d name =>
      obtain ⟨hd, hrest⟩ := List.forall_mem_cons.mp hname
      obtain ⟨t, hnext, hmore⟩ := hleads.split_cons
      have hstage := (next_stage hnext).2
      have hdopen : d ≠ 91 := by
        rintro rfl
        exact hopen rfl
      have hdclose : d ≠ 93 := by
        intro hclose
        rw [((hclass hd).2 _ hq).2 ((class_bracket d).2.1 hclose)] at hstage
        cases hstage
      have hstart := ((hclass hd).2 _ hq).1 (fun h => hdopen ((class_bracket d).1.mpr h)) _ hstage
      have hkeep : ∀ st c st' actions, st ∈ [Stage.name true, .host true] →
          (HostByte c ∧ c ≠ 58) → st.next (classOf c) = some (st', actions) →
            st' ∈ [Stage.name true, .host true] :=
        fun st c st' actions hst hc h => ((hclass hc).1 st hst).1 (st', actions) h
      have hnever := hmore.never (P := fun c => c = 91 ∨ c = 93) hkeep
        (fun st c hst hc hP => ((hclass hc).1 st hst).2
          (hP.imp (class_bracket c).1.mp (class_bracket c).2.1)) hrest hstart
      have hend := hmore.keeps hkeep hrest hstart
      refine ⟨List.forall_mem_cons.mpr ⟨(plain_of_ne hd.1 hdopen hdclose).2 hd.2, fun c hc => ?_⟩,
        ?_⟩
      · have hc' := hnever c hc
        rw [not_or] at hc'
        exact (plain_of_ne (hrest c hc).1 hc'.1 hc'.2).2 (hrest c hc).2
      · revert hend
        simp only [List.mem_cons, List.not_mem_nil, or_false]
        rintro (h | h) <;> rw [h] <;> decide

theorem host_colon : ∀ st ∈ hostStages, ∀ r ∈ Stage.next st .colon,
    r.1 = .colon true ∨ r.1 = .portStart true := by
  decide

/-- A host and a port, if there is one. -/
theorem exists_host (hq : stage q ∈ [Stage.authority true, .hostStart true])
    (h : Ok q text) (htext : ∀ c ∈ text, HostByte c) :
    ∃ (host : Uri.Host) (port : Option (List UInt8)), text = host.text ++ optionalPart 58 port ∧
      ∀ digits ∈ port, ∀ c ∈ digits, 48 ≤ c ∧ c ≤ 57 := by
  obtain ⟨q', hleads, hfinal⟩ := h
  by_cases hopen : text.head? = some 91
  · obtain ⟨rest, rfl⟩ := List.head?_eq_some_iff.mp hopen
    obtain ⟨t, hnext, hrest⟩ := hleads.split_cons
    obtain ⟨hbound, hstage⟩ := next_stage hnext
    have hliteral : stage t.target = .literal true := by
      have hall : ∀ st ∈ [Stage.authority true, .hostStart true],
          ∀ r ∈ Stage.next st .open, r.1 = .literal true := by
        decide
      exact hall _ hq _ hstage
    exact exists_literal hbound hliteral ⟨q', hrest, hfinal⟩ (List.forall_mem_cons.mp htext).2
  · obtain ⟨name, after, rfl, hname, hafter⟩ := exists_first_colon text
    obtain ⟨hbytes, hafterBytes⟩ := List.forall_mem_append.mp htext
    obtain ⟨x, hx, hrest⟩ := hleads.split
    have hhead : name.head? ≠ some 91 := by
      cases name with
      | nil => simp
      | cons d name => exact hopen
    obtain ⟨hplain, hstage⟩ := name_plain hq hx hhead fun c hc => ⟨hbytes c hc, hname c hc⟩
    rcases hafter with rfl | ⟨digits, rfl⟩
    · exact ⟨.name name hplain, none, rfl, by simp⟩
    · refine ⟨.name name hplain, some digits, rfl, ?_⟩
      intro digits' hdigits'
      obtain rfl := Option.some.inj hdigits'
      obtain ⟨t, hnext, hport⟩ := hrest.split_cons
      obtain ⟨hbound, hnext'⟩ := next_stage hnext
      have hdigits := (List.forall_mem_cons.mp hafterBytes).2
      rcases host_colon _ hstage _ hnext' with hcolon | hcolon
      · exact colon_digits hbound hcolon hport hfinal hdigits
      · exact port_digits hcolon hport fun c hc => (hdigits c hc).1

/-! ## Userinfos -/

/-- The stages from which no userinfo can end. -/
def noAtStages : List Stage :=
  [.literal true, .hostStart true, .host true, .portStart true, .port true]

theorem noAt_step {c : UInt8} (hc : c ∉ chars "/?#") :
    ∀ st ∈ noAtStages, (∀ r ∈ Stage.next st (classOf c), r.1 ∈ noAtStages) ∧
      (c = 64 → Stage.next st (classOf c) = none) := by
  have hall : ∀ k, k ≠ ByteClass.slash → k ≠ .question → k ≠ .hash →
      ∀ st ∈ noAtStages, (∀ r ∈ Stage.next st k, r.1 ∈ noAtStages) ∧
        (k = .at → Stage.next st k = none) := by
    intro k
    cases k <;> decide
  obtain ⟨hslash, hquestion, hhash, -⟩ := class_delimiter hc
  intro st hst
  obtain ⟨hkeep, hat⟩ := hall _ hslash hquestion hhash st hst
  refine ⟨hkeep, ?_⟩
  rintro rfl
  exact hat rfl

/-- No at sign is read after the userinfo. -/
theorem no_at (hq : stage q ∈ noAtStages) (hleads : Leads q text q')
    (htext : ∀ c ∈ text, c ∉ chars "/?#") : ∀ c ∈ text, c ≠ 64 :=
  hleads.never (I := fun st => st ∈ noAtStages) (L := fun c => c ∉ chars "/?#")
    (fun st _ st' actions hst hc h => (noAt_step hc st hst).1 (st', actions) h)
    (fun st _ hst hc hP => (noAt_step hc st hst).2 hP) htext hq

/-- What an address literal or an address begins with is not in a userinfo. -/
theorem userinfo_plain (hleads : Leads 511 (text ++ [64]) q') (htext : ∀ c ∈ text, c ∉ chars "/?#")
    (hat : ∀ c ∈ text, c ≠ 64) : ∀ c ∈ text, c ≠ 2 ∧ c ∉ chars "/?#[]@" := by
  have hall : ∀ k ∈ [ByteClass.two, .open, .close], ∀ st ∈ authorityStages,
      ∀ r ∈ Stage.next st k, r.1 ∈ noAtStages := by
    decide
  have hclass : classOf 2 = .two ∧ classOf 91 = .open ∧ classOf 93 = .close := by decide
  have hno : ∀ d, classOf d ∈ [ByteClass.two, .open, .close] → d ∉ text := by
    intro d hd hmem
    obtain ⟨before, after, rfl⟩ := List.append_of_mem hmem
    obtain ⟨hbefore, hafter⟩ := List.forall_mem_append.mp htext
    rw [List.append_assoc] at hleads
    obtain ⟨x, hx, hrest⟩ := hleads.split
    obtain ⟨t, hnext, hrest⟩ := hrest.split_cons
    have hstage : stage x ∈ authorityStages :=
      hx.keeps (I := fun st => st ∈ authorityStages) (L := fun c => c ∉ chars "/?#")
        (fun st c st' actions hst hc h => authority_next hst hc h) hbefore (by decide)
    have hstart := hall _ hd _ hstage _ (next_stage hnext).2
    exact no_at hstart hrest (List.forall_mem_append.mpr
      ⟨(List.forall_mem_cons.mp hafter).2, by decide⟩) 64 (by simp) rfl
  intro c hc
  refine ⟨?_, (plain_of_ne ⟨htext c hc, hat c hc⟩ ?_ ?_).1⟩
  · rintro rfl
    exact hno 2 (by rw [hclass.1]; decide) hc
  · rintro rfl
    exact hno 91 (by rw [hclass.2.1]; decide) hc
  · rintro rfl
    exact hno 93 (by rw [hclass.2.2]; decide) hc

theorem exists_authority (h : Ok 511 text) (htext : ∀ c ∈ text, c ∉ chars "/?#") :
    ∃ a : Authority, a.text = text := by
  obtain ⟨userinfo, after, rfl, hat, hafter⟩ := exists_first (· = 64) text
  obtain ⟨huserinfo, hafterBytes⟩ := List.forall_mem_append.mp htext
  rcases hafter with rfl | ⟨d, rest, rfl, rfl⟩
  · rw [List.append_nil] at h
    obtain ⟨host, port, heq, hport⟩ := exists_host (by decide) h
      fun c hc => ⟨huserinfo c hc, hat c hc⟩
    refine ⟨⟨none, host, port, by simp, hport⟩, ?_⟩
    rw [List.append_nil, heq]
    rfl
  · have hassoc : userinfo ++ 64 :: rest = userinfo ++ [64] ++ rest := by
      rw [List.append_assoc]
      rfl
    rw [hassoc] at h
    obtain ⟨hleads, hrest⟩ := (ok_userinfo huserinfo).mp h
    obtain ⟨q', hrest', hfinal⟩ := hrest
    have hrestBytes := (List.forall_mem_cons.mp hafterBytes).2
    have hat' := no_at (q := 522) (by decide) hrest' hrestBytes
    obtain ⟨host, port, heq, hport⟩ := exists_host (by decide)
      ⟨q', hrest', hfinal⟩ fun c hc => ⟨hrestBytes c hc, hat' c hc⟩
    refine ⟨⟨some userinfo, host, port, ?_, hport⟩, ?_⟩
    · intro text' htext'
      obtain rfl := Option.some.inj htext'
      exact userinfo_plain hleads huserinfo hat
    · rw [hassoc, heq]
      exact List.append_assoc (userinfo ++ [64]) _ _

/-! ## The text -/

theorem fragment_plain (hq : stage q = .fragmentStart) (hleads : Leads q text q') :
    ∀ c ∈ text, c ≠ 35 :=
  hleads.never (I := fun st => st = .fragmentStart ∨ st = .fragment) (L := fun _ => True)
    (fun st c st' actions hst _ h => by
      have hall : ∀ st, st = Stage.fragmentStart ∨ st = .fragment → ∀ k,
          ∀ r ∈ Stage.next st k, r.1 = .fragment := by
        rintro st (rfl | rfl) k
        · cases k <;> decide
        · cases k <;> decide
      exact .inr (hall st hst _ _ h))
    (fun st c hst _ hP => by
      subst hP
      rcases hst with rfl | rfl <;> rfl)
    (fun _ _ => trivial) (.inl hq)

theorem hash_stage : ∀ st st' actions, Stage.next st .hash = some (st', actions) →
    st' = .fragmentStart := by
  intro st st' actions h
  cases st
  all_goals first
    | exact (congrArg Prod.fst (Option.some.inj h)).symm
    | cases h

/-- A part and another one after a delimiter. -/
theorem exists_optional (d : UInt8) (text : List UInt8) : ∃ before part,
    text = before ++ optionalPart d part ∧ ∀ c ∈ before, c ≠ d := by
  obtain ⟨before, after, rfl, hbefore, rfl | ⟨d', more, rfl, rfl⟩⟩ := exists_first (· = d) text
  · exact ⟨before, none, rfl, hbefore⟩
  · exact ⟨before, some more, rfl, hbefore⟩

variable {query fragment : Option (List UInt8)}

/-- What is between the scheme and the query is an authority with a path, or a path. -/
theorem exists_hierPart {text : List UInt8} (h : Ok 509 (text ++ UriParts.tail query fragment))
    (hplain : ∀ c ∈ text, c ∉ chars "?#") (hquery : ∀ text ∈ query, ∀ c ∈ text, c ≠ 35) :
    ∃ hierPart : HierPart, hierPart.text = text := by
  by_cases hdouble : chars "//" <+: text
  · obtain ⟨rest, rfl⟩ := hdouble
    obtain ⟨authority, path, rfl, hauthority, hpath⟩ := exists_first (· = 47) rest
    have hrest := (List.forall_mem_append.mp hplain).2
    obtain ⟨hauthorityPlain, hpathPlain⟩ := List.forall_mem_append.mp hrest
    have hslash : path = [] ∨ path.head? = some 47 := by
      refine hpath.imp id ?_
      rintro ⟨d, more, rfl, rfl⟩
      rfl
    have hbytes : ∀ c ∈ authority, c ∉ chars "/?#" := by
      intro c hc hmem
      have hsub : ∀ c : UInt8, c ∈ chars "/?#" → c = 47 ∨ c ∈ chars "?#" := by
        simp [chars]
      exact (hsub c hmem).elim (hauthority c hc) (hauthorityPlain c hc)
    have hassoc : chars "//" ++ (authority ++ path) ++ UriParts.tail query fragment =
        47 :: 47 :: (authority ++ (path ++ UriParts.tail query fragment)) := by
      show 47 :: 47 :: (authority ++ path ++ UriParts.tail query fragment) = _
      rw [List.append_assoc]
    obtain ⟨t, hnext, htarget⟩ : ∃ t, next 509 47 = some t ∧ t.target = 510 := ⟨_, rfl, rfl⟩
    obtain ⟨t', hnext', htarget'⟩ : ∃ t, next 510 47 = some t ∧ t.target = 511 := ⟨_, rfl, rfl⟩
    rw [hassoc, ok_cons hnext, htarget, ok_cons hnext', htarget',
      ok_authority hbytes hpathPlain hslash hquery] at h
    obtain ⟨a, ha⟩ := exists_authority h.1 hbytes
    refine ⟨.authority a path hpathPlain hslash, ?_⟩
    show chars "//" ++ a.text ++ path = _
    rw [ha, List.append_assoc]
  · exact ⟨.path text hplain hdouble, rfl⟩

/-- Every accepted text with a scheme is the text of some parts. -/
theorem exists_parts (h : Accepts s) (hscheme : HasScheme s) : ∃ parts :
    UriParts, parts.text = s := by
  obtain ⟨scheme, rest, rfl, halpha, hchars⟩ := hscheme
  have hassoc : scheme ++ 58 :: rest = scheme ++ [58] ++ rest := by
    rw [List.append_assoc]
    rfl
  rw [hassoc, accepts_iff_ok, ok_append (scheme_leads halpha hchars)] at h
  obtain ⟨before, fragment, rfl, hhash⟩ := exists_optional 35 rest
  obtain ⟨hier, query, rfl, hquestion⟩ := exists_optional 63 before
  obtain ⟨hhier, hqueryHash⟩ := List.forall_mem_append.mp hhash
  have hquery : ∀ text ∈ query, ∀ c ∈ text, c ≠ 35 := by
    rintro text htext c hc
    refine hqueryHash c ?_
    rw [show query = some text from htext]
    exact List.mem_cons_of_mem _ hc
  have hfragment : ∀ text ∈ fragment, ∀ c ∈ text, c ≠ 35 := by
    intro text htext
    obtain ⟨q', hleads, -⟩ := h
    rw [show fragment = some text from htext] at hleads
    obtain ⟨x, -, hrest⟩ := hleads.split
    obtain ⟨t, hnext, hmore⟩ := hrest.split_cons
    exact fragment_plain (hash_stage _ _ _ (next_stage hnext).2) hmore
  have hplain : ∀ c ∈ hier, c ∉ chars "?#" := by
    have hsub : ∀ c : UInt8, c ≠ 35 → c ≠ 63 → c ∉ chars "?#" := by
      simp +contextual [chars]
    exact fun c hc => hsub c (hhier c hc) (hquestion c hc)
  rw [List.append_assoc hier] at h
  obtain ⟨hierPart, hhierPart⟩ := exists_hierPart h hplain hquery
  refine ⟨⟨scheme, hierPart, query, fragment, halpha, hchars, hquery, hfragment⟩, ?_⟩
  show scheme ++ [58] ++ hierPart.text ++ UriParts.tail query fragment = _
  rw [hhierPart, hassoc, List.append_assoc hier, ← List.append_assoc (scheme ++ [58])]
  rfl

end Lyslg.UriParser
