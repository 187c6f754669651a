import Lyslg.Uri.Acceptance
/-!
# Authorities that are accepted again

An authority stays accepted when its port is replaced or left out, when an empty userinfo is
left out with its delimiter, and when only the text after a colon and before a digit is left
of the userinfo.  The last two come from simulations between states of the table.
-/

namespace Lyslg.UriParser

open Http Support Uri
open scoped Http.ListMembers

variable {q q' v : Nat} {c : UInt8} {text : List UInt8} {t : Transition}

/-! ## Simulations between states -/

/-- Ranges on which every transition of the table is defined as a whole or not at all, but for
the delimiters after an authority. -/
def pieces : List (Nat × Nat) := [
  (0, 1), (2, 2), (3, 32), (33, 33), (34, 34), (36, 36), (37, 37), (38, 45), (46, 46), (48, 48),
  (49, 49), (50, 50), (51, 52), (53, 53), (54, 57), (58, 58), (59, 59), (60, 60),
  (61, 61), (62, 62),
  (64, 64), (65, 70), (71, 90), (91, 91), (92, 92), (93, 93), (94, 94), (95, 95),
  (96, 96), (97, 102),
  (103, 117), (118, 118), (119, 122), (123, 125), (126, 126), (127, 127), (128, 255)]

theorem exists_piece (hc : c ∉ chars "/?#") :
    ∃ r ∈ pieces, r.1 ≤ c.toNat ∧ c.toNat ≤ r.2 := by
  have hchars : chars "/?#" = [47, 63, 35] := by decide
  have hcover : ∀ c : UInt8, ([47, 63, 35].contains c ||
      pieces.any fun r => decide (r.1 ≤ c.toNat) && decide (c.toNat ≤ r.2)) = true := by
    apply forall_byte
    decide +kernel
  rw [hchars, ← List.contains_iff_mem, Bool.not_eq_true] at hc
  have hpiece := hcover c
  rw [hc, Bool.false_or] at hpiece
  obtain ⟨r, hr, hin⟩ := List.any_eq_true.mp hpiece
  simp only [Bool.and_eq_true, decide_eq_true_eq] at hin
  exact ⟨r, hr, hin⟩

def Transition.meets (r : Nat × Nat) (t : Transition) : Bool :=
  t.bytes.any fun (lo, hi) => Nat.ble lo r.2 && Nat.ble r.1 hi

def Transition.covers (r : Nat × Nat) (t : Transition) : Bool :=
  t.bytes.any fun (lo, hi) => Nat.ble lo r.1 && Nat.ble r.2 hi

def rowOf (q : Nat) : List Transition := (transitions.lookup q).getD []

/-- What one state of a pair in `R` reads, the other one reads, and both go on in `R` or meet. -/
def Simulates (R : List (Nat × Nat)) : Prop :=
  ∀ qv ∈ R, ∀ r ∈ pieces, ∀ t ∈ rowOf qv.1, t.meets r →
    (rowOf qv.2).any (Transition.covers r) ∧
      ∀ t' ∈ rowOf qv.2, t'.meets r → t.target = t'.target ∨ (t.target, t'.target) ∈ R

instance (R : List (Nat × Nat)) : Decidable (Simulates R) :=
  inferInstanceAs (Decidable (∀ qv ∈ R, ∀ r ∈ pieces, ∀ t ∈ rowOf qv.1, _))

theorem meets_of_takes {r : Nat × Nat} (htakes : t.takes c) (hlo : r.1 ≤ c.toNat)
    (hhi : c.toNat ≤ r.2) : t.meets r := by
  obtain ⟨r', hr', hin⟩ := List.any_eq_true.mp htakes
  simp only [Bool.and_eq_true, decide_eq_true_eq] at hin
  refine List.any_eq_true.mpr ⟨r', hr', ?_⟩
  simp only [Bool.and_eq_true, Nat.ble_eq]
  omega

theorem takes_of_covers {r : Nat × Nat} (hcovers : t.covers r) (hlo : r.1 ≤ c.toNat)
    (hhi : c.toNat ≤ r.2) : t.takes c := by
  obtain ⟨r', hr', hin⟩ := List.any_eq_true.mp hcovers
  simp only [Bool.and_eq_true, Nat.ble_eq] at hin
  refine List.any_eq_true.mpr ⟨r', hr', ?_⟩
  simp only [Bool.and_eq_true, decide_eq_true_eq]
  omega

variable {R : List (Nat × Nat)}

/-- One step of a simulation. -/
theorem Simulates.next (h : Simulates R) (hqv : (q, v) ∈ R) (hc : c ∉ chars "/?#")
    (hnext : next q c = some t) :
    ∃ t', UriParser.next v c = some t' ∧ (t.target = t'.target ∨ (t.target, t'.target) ∈ R) := by
  obtain ⟨r, hr, hlo, hhi⟩ := exists_piece hc
  have hmeets := meets_of_takes (List.find?_some hnext) hlo hhi
  obtain ⟨hcovers, htargets⟩ := h (q, v) hqv r hr t (List.mem_of_find?_eq_some hnext) hmeets
  obtain ⟨t₁, ht₁, hcovers₁⟩ := List.any_eq_true.mp hcovers
  have hfound : ((rowOf v).find? (Transition.takes c)).isSome :=
    List.find?_isSome.mpr ⟨t₁, ht₁, takes_of_covers hcovers₁ hlo hhi⟩
  obtain ⟨t', ht'⟩ := Option.isSome_iff_exists.mp hfound
  exact ⟨t', ht', htargets t' (List.mem_of_find?_eq_some ht')
    (meets_of_takes (List.find?_some ht') hlo hhi)⟩

/-- A run of a simulation, by the rule for scanners. -/
theorem Simulates.leads (h : Simulates R) (hqv : (q, v) ∈ R) (htext : ∀ c ∈ text, c ∉ chars "/?#")
    (hleads : Leads q text q') : ∃ v', Leads v text v' ∧ (q' = v' ∨ (q', v') ∈ R) := by
  obtain ⟨events, hwalk⟩ := hleads 0
  obtain ⟨events', v', hwalk', hrel⟩ :
      ∃ events' v', machine.Walks 0 v text events' v' ∧ (q' = v' ∨ (q', v') ∈ R) :=
    hwalk.simulate (R := fun q v => q = v ∨ (q, v) ∈ R) (L := fun c => c ∉ chars "/?#")
      (fun p q c t u p' hqu hc hnext _ => by
        rcases hqu with rfl | hqu
        · exact ⟨t, hnext, rfl, .inl rfl⟩
        · obtain ⟨t', hnext', htarget⟩ := h.next hqu hc hnext
          exact ⟨t', hnext', rfl, htarget⟩) htext (.inr hqv) 0
  exact ⟨v', leads_of_walks hwalk', hrel⟩

/-! ## An empty userinfo -/

/-- The states of a host after a userinfo, and those of the same host without. -/
def hostPairs : List (Nat × Nat) :=
  [(522, 511), (523, 520), (258, 253), (259, 254), (514, 521), (515, 542)]
    ++ (List.range 18).map fun k => (524 + k, 543 + k)

theorem hostPairs_simulates : Simulates hostPairs := by decide +kernel

theorem hostPairs_final : ∀ qv ∈ hostPairs, 451 ≤ qv.1 → 451 ≤ qv.2 := by decide

theorem ok_without_userinfo (htext : ∀ c ∈ text, c ∉ chars "/?#") (h : Ok 522 text) :
    Ok 511 text := by
  obtain ⟨q', hleads, hfinal⟩ := h
  obtain ⟨v', hleads', hrel⟩ := hostPairs_simulates.leads (v := 511) (by decide) htext hleads
  refine ⟨v', hleads', ?_⟩
  rcases hrel with rfl | hrel
  · exact hfinal
  · exact hostPairs_final _ hrel hfinal

/-! ## A userinfo that is cut -/

/-- The states of a userinfo after its first colon, and those of the same text without what is
before. -/
def infoPairs : List (Nat × Nat) :=
  ([520, 521, 542, 255] ++ List.range' 543 18).flatMap (fun v => [(542, v), (255, v)])
    ++ [(256, 253), (256, 256), (257, 254), (257, 257)]

theorem infoPairs_simulates : Simulates infoPairs := by decide +kernel

-- an escape goes on in a pair
example : (next 542 37).isSome ∧ (next 521 37).isSome := by decide +kernel

theorem digit_next (hc : 48 ≤ c ∧ c ≤ 57) :
    ((next 514 c).map Transition.target = some 515 ∧
      (next 515 c).map Transition.target = some 515) ∧
    ((next 521 c).map Transition.target = some 542 ∧
      (next 542 c).map Transition.target = some 542) ∧
    ∃ t, next 511 c = some t ∧ (542, t.target) ∈ infoPairs := by
  have hall : ∀ c : UInt8, 48 ≤ c ∧ c ≤ 57 →
      ((next 514 c).map Transition.target = some 515 ∧
        (next 515 c).map Transition.target = some 515) ∧
      ((next 521 c).map Transition.target = some 542 ∧
        (next 542 c).map Transition.target = some 542) ∧
      (next 511 c).any fun t => (542, t.target) ∈ infoPairs := by
    apply forall_byte
    decide +kernel
  obtain ⟨hport, hdigits, hany⟩ := hall c hc
  obtain ⟨t, hnext, hpair⟩ := (Option.any_eq_true _ _).mp hany
  exact ⟨hport, hdigits, t, hnext, of_decide_eq_true hpair⟩

/-- The name before the first colon of a userinfo may be a host. -/
theorem name_stage {name : List UInt8} (hleads : Leads 511 name q)
    (hname : ∀ c ∈ name, (c ≠ 2 ∧ c ∉ chars "/?#[]@") ∧ c ≠ 58) :
    stage q = .authority true ∨ stage q = .name true := by
  have htext : name = [] ++ (name ++ []) := (List.append_nil name).symm
  obtain ⟨st', y, hreads, -, hst', -⟩ := info_name_reads {} htext hname
  have hstart : stage 511 = .authority true := by decide
  rw [← hstart] at hreads
  rw [hleads.stage_eq hreads]
  exact hst'

theorem colon_state : ∀ q ∈ List.range' 0 561, stage q = .colon true → q = 521 := by
  decide +kernel

/-- The text after the first colon and before a digit is a userinfo by itself. -/
theorem leads_cut {name more : List UInt8} {d : UInt8}
    (hname : ∀ c ∈ name, (c ≠ 2 ∧ c ∉ chars "/?#[]@") ∧ c ≠ 58) (hd : 48 ≤ d ∧ d ≤ 57)
    (hmore : ∀ c ∈ more, c ∉ chars "/?#") (h : Leads 511 (name ++ 58 :: d :: more ++ [64]) 522) :
    Leads 511 (d :: more ++ [64]) 522 := by
  rw [List.append_assoc] at h
  obtain ⟨x, hx, hrest⟩ := h.split
  obtain ⟨t, hcolon, hrest⟩ := hrest.split_cons
  obtain ⟨t', hdigit, hrest⟩ := hrest.split_cons
  have hy : t.target = 521 := by
    obtain ⟨hbound, hstage⟩ := next_stage hcolon
    refine colon_state _ (List.mem_range'_1.mpr ⟨Nat.zero_le _, by omega⟩) ?_
    rcases name_stage hx hname with hst | hst <;> rw [hst] at hstage <;>
      exact (congrArg Prod.fst (Option.some.inj hstage)).symm
  rw [hy] at hdigit
  obtain ⟨-, ⟨h521, -⟩, u, hu, hpair⟩ := digit_next hd
  rw [hdigit] at h521
  rw [Option.some.inj h521] at hrest
  obtain ⟨v', hv', hrel⟩ := infoPairs_simulates.leads hpair
    (List.forall_mem_append.mpr ⟨hmore, by decide⟩) hrest
  have hend : ∀ qv ∈ infoPairs, qv.1 ≠ 522 := by decide
  obtain rfl : 522 = v' := hrel.resolve_right fun hmem => hend _ hmem rfl
  exact (Leads.one hu).append hv'

/-! ## The port -/

def hostStages : List Stage := [.authority true, .hostStart true, .name true, .host true]

theorem host_stage (host : Uri.Host) (hq : stage q = .authority true ∨ stage q = .hostStart true)
    (hleads : Leads q host.text q') : stage q' ∈ hostStages := by
  have htext : host.text = [] ++ (host.text ++ []) := (List.append_nil host.text).symm
  obtain ⟨st', y, hreads, -, hread⟩ := host_reads (x := {}) host hq htext
  rw [hleads.stage_eq hreads]
  rcases hread.stage with ⟨h | h, -⟩ | ⟨h | h, -⟩ <;> rw [h] <;> decide

/-- Only final states have a transition on the colon after a host. -/
theorem final_of_colon (hq : stage q ∈ hostStages) (h : next q 58 = some t) : 451 ≤ q := by
  have hall : ∀ row ∈ transitions, row.1 < 451 → stage row.1 ∈ hostStages → ∀ t ∈ row.2,
      t.takes 58 = false := by
    decide +kernel
  obtain ⟨⟨ts, hrow, ht⟩, htakes⟩ := next_mem h
  by_contra hlt
  rw [hall _ hrow (Nat.lt_of_not_le hlt) hq t ht] at htakes
  cases htakes

theorem colon_target : ∀ q ∈ List.range' 451 110, stage q ∈ hostStages →
    (next q 58).map Transition.target = some 514 ∨
    (next q 58).map Transition.target = some 521 := by
  decide +kernel

theorem ok_digits {digits : List UInt8} (hdigits : ∀ c ∈ digits, 48 ≤ c ∧ c ≤ 57) :
    Ok 514 digits ∧ Ok 521 digits := by
  have hrun {first inside : Nat} (hfinal : 451 ≤ first ∧ 451 ≤ inside)
      (hfirst : ∀ c ∈ digits, (next first c).map Transition.target = some inside)
      (hinside : ∀ c ∈ digits, (next inside c).map Transition.target = some inside) :
      Ok first digits := by
    cases digits with
    | nil => exact ⟨first, .nil, hfinal.1⟩
    | cons d digits =>
        rw [ok_cons_target (hfirst d List.mem_cons_self)]
        refine ⟨inside, .loop fun c hc => ?_, hfinal.2⟩
        exact Option.map_eq_some_iff.mp (hinside c (List.mem_cons_of_mem _ hc))
  exact ⟨hrun (by decide) (fun c hc => (digit_next (hdigits c hc)).1.1)
      (fun c hc => (digit_next (hdigits c hc)).1.2),
    hrun (by decide) (fun c hc => (digit_next (hdigits c hc)).2.1.1)
      (fun c hc => (digit_next (hdigits c hc)).2.1.2)⟩

/-- Any port is accepted after a host that is. -/
theorem ok_port (host : Uri.Host) {port : Option (List UInt8)}
    (hq : stage q = .authority true ∨ stage q = .hostStart true) (hle : q ≤ 560)
    (hport : ∀ digits ∈ port, ∀ c ∈ digits, 48 ≤ c ∧ c ≤ 57) :
    Ok q (host.text ++ optionalPart 58 port) ↔ Ok q host.text := by
  cases port with
  | none => rw [optionalPart, List.append_nil]
  | some digits =>
      constructor
      · rintro ⟨q'', hleads, -⟩
        obtain ⟨q', hhost, hrest⟩ := hleads.split
        obtain ⟨t, hnext, -⟩ := hrest.split_cons
        exact ⟨q', hhost, final_of_colon (host_stage host hq hhost) hnext⟩
      · rintro ⟨q', hhost, hfinal⟩
        have hmem : q' ∈ List.range' 451 110 :=
          List.mem_range'_1.mpr ⟨hfinal, by have := hhost.le hle; omega⟩
        have hdigits := ok_digits (hport digits rfl)
        rw [ok_append hhost, optionalPart]
        rcases colon_target q' hmem (host_stage host hq hhost) with h | h
        · exact (ok_cons_target h).mpr hdigits.1
        · exact (ok_cons_target h).mpr hdigits.2

/-! ## The whole authority -/

/-- After a userinfo, the machine is where it is at the start of a host. -/
theorem at_target : ∀ row ∈ transitions, stage row.1 ∈ authorityStages → ∀ t ∈ row.2,
    t.takes 64 → t.target = 522 := by
  decide +kernel

theorem ok_userinfo {rest : List UInt8} (htext : ∀ c ∈ text, c ∉ chars "/?#") :
    Ok 511 (text ++ [64] ++ rest) ↔ Leads 511 (text ++ [64]) 522 ∧ Ok 522 rest := by
  constructor
  · rintro ⟨q'', hleads, hfinal⟩
    obtain ⟨q', hfirst, hrest⟩ := hleads.split
    obtain ⟨x, hx, hat⟩ := hfirst.split
    obtain ⟨t, hnext, hnil⟩ := hat.split_cons
    obtain ⟨⟨ts, hrow, ht⟩, htakes⟩ := next_mem hnext
    have hstage : stage x ∈ authorityStages :=
      hx.keeps (I := fun st => st ∈ authorityStages) (L := fun c => c ∉ chars "/?#")
        (fun st c st' actions hst hc h => authority_next hst hc h) htext (by decide)
    have htarget := at_target _ hrow hstage t ht htakes
    obtain rfl : q' = 522 := by rw [← htarget, hnil.unique .nil]
    exact ⟨hfirst, q'', hrest, hfinal⟩
  · rintro ⟨hfirst, hrest⟩
    exact (ok_append hfirst).mpr hrest

theorem ok_authority_text (a : Authority) : Ok 511 a.text ↔
    match a.userinfo with
    | none => Ok 511 a.host.text
    | some text => Leads 511 (text ++ [64]) 522 ∧ Ok 522 a.host.text := by
  obtain ⟨userinfo, host, port, huserinfo, hport⟩ := a
  cases userinfo with
  | none => exact ok_port host (.inl (by decide)) (by decide) hport
  | some text =>
      show Ok 511 (text ++ [64] ++ host.text ++ optionalPart 58 port) ↔ _
      rw [List.append_assoc (text ++ [64]), ok_userinfo fun c hc =>
        (plain_sub c).2.1 (huserinfo text rfl c hc).2,
        ok_port host (.inr (by decide)) (by decide) hport]

end Lyslg.UriParser
