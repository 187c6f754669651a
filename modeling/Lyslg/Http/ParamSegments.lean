import Lyslg.Http.Params
/-!
# What `PARSE_PARAM` finds

The loop takes what is in front of an `=` for its key, so that a segment without `=` becomes a
part of the key of the next segment that has one.
-/

namespace Lyslg.Http

open StdString StringUtil Support Support.Machine

/-! ## The order of the keys -/

theorem lexLess_irrefl (a : List UInt8) : lexLess a a = false := by
  induction a with
  | nil => rfl
  | cons x a ih =>
      rw [lexLess, ih, Bool.and_false, Bool.or_false]
      exact decide_eq_false (UInt8.lt_irrefl x)

theorem lexLess_trans {a b c : List UInt8} (hab : lexLess a b = true) (hbc : lexLess b c = true) :
    lexLess a c = true := by
  induction a generalizing b c with
  | nil =>
      cases b with
      | nil => cases hab
      | cons y b =>
          cases c with
          | nil => cases hbc
          | cons z c => rfl
  | cons x a ih =>
      cases b with
      | nil => cases hab
      | cons y b =>
          cases c with
          | nil => cases hbc
          | cons z c =>
              simp only [lexLess, Bool.or_eq_true, decide_eq_true_eq, Bool.and_eq_true,
                beq_iff_eq] at hab hbc ⊢
              rcases hab with hxy | ⟨rfl, hab⟩
              · rcases hbc with hyz | ⟨rfl, -⟩
                · exact .inl (UInt8.lt_trans hxy hyz)
                · exact .inl hxy
              · rcases hbc with hyz | ⟨rfl, hbc⟩
                · exact .inl hyz
                · exact .inr ⟨rfl, ih hab hbc⟩

theorem eq_of_not_lexLess {a b : List UInt8} (hab : lexLess a b = false)
    (hba : lexLess b a = false) :
    a = b := by
  induction a generalizing b with
  | nil =>
      cases b with
      | nil => rfl
      | cons y b => cases hab
  | cons x a ih =>
      cases b with
      | nil => cases hba
      | cons y b =>
          simp only [lexLess, Bool.or_eq_false_iff, decide_eq_false_iff_not, UInt8.not_lt,
            Bool.and_eq_false_iff, beq_eq_false_iff_ne] at hab hba
          obtain rfl : x = y := UInt8.le_antisymm hba.1 hab.1
          rw [ih (hab.2.resolve_left fun h => h rfl) (hba.2.resolve_left fun h => h rfl)]

/-- What is compared of a key. -/
def foldedKey (key : List UInt8) : List UInt8 := (cStr key).map toLower

theorem same_iff (a b : List UInt8) :
    OrderedMap.same caseInsensitiveLess a b = true ↔ foldedKey a = foldedKey b := by
  rw [OrderedMap.same, Bool.and_eq_true, Bool.not_eq_true', Bool.not_eq_true']
  constructor
  · rintro ⟨hab, hba⟩
    exact eq_of_not_lexLess hab hba
  · intro h
    unfold caseInsensitiveLess
    rw [show (cStr a).map toLower = (cStr b).map toLower from h]
    exact ⟨lexLess_irrefl _, lexLess_irrefl _⟩

theorem caseInsensitiveLess_weak : OrderedMap.StrictWeak caseInsensitiveLess where
  irrefl a := lexLess_irrefl _
  trans hab hbc := lexLess_trans hab hbc
  congr {a b} h c := by
    have hfold : (cStr a).map toLower = (cStr b).map toLower := (same_iff a b).mp h
    unfold caseInsensitiveLess
    rw [hfold]
    exact ⟨rfl, rfl⟩

/-! ## The loop -/

variable {str pre t k v more : List UInt8} {sep : UInt8} {last : Nat} {m : Headers}
  {trim : List UInt8 → Option (List UInt8)} {trim' : List UInt8 → List UInt8}

/-- The entries that the loop finds, where `pre` is in front of the segments. -/
def mergedEntries (sep : UInt8) (trim : List UInt8 → List UInt8) :
    List UInt8 → List (List UInt8) → List (List UInt8 × List UInt8)
  | _, [] => []
  | pre, segment :: segments =>
      if 61 ∈ segment then
        (trim (pre ++ segment.takeWhile (· ≠ 61)),
          decoded true (segment.dropWhile (· ≠ 61)).tail) ::
          mergedEntries sep trim [] segments
      else mergedEntries sep trim (pre ++ segment ++ [sep]) segments

theorem takeWhile_key (hk : 61 ∉ k) :
    (k ++ 61 :: v).takeWhile (· ≠ 61) = k ∧ ((k ++ 61 :: v).dropWhile (· ≠ 61)).tail = v := by
  have hall : ∀ c ∈ k, decide (c ≠ 61) = true := fun c hc => decide_eq_true fun h => hk (h ▸ hc)
  rw [List.takeWhile_append_of_pos hall, List.dropWhile_append_of_pos hall]
  exact ⟨List.append_nil k, rfl⟩

/-- The first segment has a key. -/
theorem mergedEntries_key (hk : 61 ∉ k) (segments : List (List UInt8)) :
    mergedEntries sep trim' pre ((k ++ 61 :: v) :: segments) =
      (trim' (pre ++ k), decoded true v) :: mergedEntries sep trim' [] segments := by
  rw [mergedEntries, if_pos (by simp), (takeWhile_key hk).1, (takeWhile_key hk).2]

/-- A turn of the loop that finds an `=`. -/
theorem parseParamLoop_turn (hsize : str.length < npos)
    (htrim : ∀ a, a.length < npos → trim a = some (trim' a)) (hk : 61 ∉ k) (hv : sep ∉ v)
    (hsep : sep ≠ 61) (hmore : more = [] ∨ more.head? = some sep)
    (hdrop : str.drop last = k ++ 61 :: (v ++ more)) :
    parseParamLoop str sep trim last m =
      if more = [] then some (m.insert (trim' k) (decoded true v))
      else parseParamLoop str sep trim (last + k.length + 1 + v.length + 1)
        (m.insert (trim' k) (decoded true v)) := by
  have hlen := length_drop_eq hdrop (List.cons_ne_nil _ _)
  rw [List.length_cons, List.length_append] at hlen
  have hdropKey : str.drop (last + k.length) = 61 :: (v ++ more) := by
    rw [← List.drop_drop, hdrop, List.drop_left]
  have hdropValue : str.drop (last + k.length + 1) = v ++ more := by
    rw [← List.drop_drop, hdropKey]
    rfl
  have hnot : sep ∉ 61 :: v := by
    rw [List.mem_cons, not_or]
    exact ⟨hsep, hv⟩
  have hname : substr str last (subSize (last + k.length) last) = some k := by
    unfold npos at hsize
    rw [subSize_of_le (by omega) (by omega), Nat.add_sub_cancel_left]
    exact substr_eq hdrop (by omega)
  have hkey : last + k.length ≠ npos := by omega
  rw [parseParamLoop]
  simp only [find_eq hdrop hk]
  rw [dif_neg hkey, hname, Option.bind_eq_bind, Option.bind_some, htrim k (by omega),
    Option.bind_some]
  cases more with
  | nil =>
      rw [List.append_nil] at hdropKey hdropValue
      have hend : find str sep (last + k.length) = npos :=
        find_eq_npos (by rw [hdropKey]; exact hnot)
      -- `npos - key - 1` characters are more than there are
      have hvalue : substr str (last + k.length + 1)
          (subSize (subSize npos (last + k.length)) 1) = some v := by
        rw [List.length_nil] at hlen
        unfold npos at hsize ⊢
        have hinner : subSize (2 ^ 64 - 1) (last + k.length) = 2 ^ 64 - 1 - (last + k.length) :=
          subSize_of_le (by omega) (by omega)
        rw [hinner, subSize_of_le (by omega) (by omega), substr, if_pos (by omega), hdropValue,
          List.take_of_length_le (by omega)]
      rw [hend, hvalue, Option.bind_some, urlDecode_eq, Option.bind_some, dif_pos rfl, if_pos rfl]
      rfl
  | cons d more =>
      obtain rfl : d = sep := Option.some.inj (hmore.resolve_left (List.cons_ne_nil _ _))
      rw [List.length_cons] at hlen
      have hpos : find str d (last + k.length) = last + k.length + (v.length + 1) :=
        find_eq (a := 61 :: v) hdropKey hnot
      have hvalue : substr str (last + k.length + 1)
          (subSize (subSize (last + k.length + (v.length + 1)) (last + k.length)) 1) = some v := by
        unfold npos at hsize
        have hinner : subSize (last + k.length + (v.length + 1)) (last + k.length) =
            v.length + 1 := by
          rw [subSize_of_le (by omega) (by omega), Nat.add_sub_cancel_left]
        rw [hinner, subSize_of_le (by omega) (by omega), Nat.add_sub_cancel]
        exact substr_eq hdropValue (by omega)
      have hne : last + k.length + (v.length + 1) ≠ npos := by omega
      rw [hpos, hvalue, Option.bind_some, urlDecode_eq, Option.bind_some, dif_neg hne,
        if_neg (List.cons_ne_nil _ _), (by omega : last + k.length + (v.length + 1) + 1 =
          last + k.length + 1 + v.length + 1)]

theorem parseParamLoop_eq (pre : List UInt8) (hsize : str.length < npos)
    (htrim : ∀ a, a.length < npos → trim a = some (trim' a)) (hsep : sep ≠ 61) (hpre : 61 ∉ pre)
    (hdrop : str.drop last = pre ++ t) :
    parseParamLoop str sep trim last m =
      some (OrderedMap.insertAll caseInsensitiveLess m
        (mergedEntries sep trim' pre (t.splitOn sep))) := by
  induction hn : t.length using Nat.strong_induction_on generalizing t pre last m with
  | _ n ih =>
    subst hn
    by_cases hmem : sep ∈ t
    · obtain ⟨segment, rest, rfl, hsegment⟩ := List.eq_append_cons_of_mem hmem
      have hshort : rest.length < (segment ++ sep :: rest).length := by simp; omega
      rw [List.splitOn_append_cons_self_of_not_mem hsegment]
      by_cases hkey : 61 ∈ segment
      · obtain ⟨k, v, rfl, hk⟩ := List.eq_append_cons_of_mem hkey
        have hpk : 61 ∉ pre ++ k := fun h => (List.mem_append.mp h).elim hpre hk
        have hv : sep ∉ v := fun h => hsegment (by simp [h])
        have hturn : str.drop last = (pre ++ k) ++ 61 :: (v ++ sep :: rest) := by
          rw [hdrop]
          simp
        have hnext : str.drop (last + (pre ++ k).length + 1 + v.length + 1) = [] ++ rest := by
          have hcut : (pre ++ k) ++ 61 :: (v ++ sep :: rest) =
              (pre ++ k ++ 61 :: (v ++ [sep])) ++ rest := by simp
          have hlen : last + (pre ++ k).length + 1 + v.length + 1 =
              last + (pre ++ k ++ 61 :: (v ++ [sep])).length := by simp; omega
          rw [hlen, ← List.drop_drop, hturn, hcut, List.drop_left]
          rfl
        rw [parseParamLoop_turn hsize htrim hpk hv hsep (.inr rfl) hturn,
          if_neg (List.cons_ne_nil _ _), mergedEntries_key hk,
          ih rest.length hshort [] List.not_mem_nil hnext rfl]
        rfl
      · have hpre' : 61 ∉ pre ++ segment ++ [sep] := by
          simp [hpre, hkey, Ne.symm hsep]
        rw [ih rest.length hshort (pre ++ segment ++ [sep]) hpre' (by rw [hdrop]; simp) rfl,
          mergedEntries, if_neg hkey]
    · rw [List.splitOn_eq_singleton hmem]
      by_cases hkey : 61 ∈ t
      · obtain ⟨k, v, rfl, hk⟩ := List.eq_append_cons_of_mem hkey
        have hpk : 61 ∉ pre ++ k := fun h => (List.mem_append.mp h).elim hpre hk
        have hv : sep ∉ v := fun h => hmem (by simp [h])
        have hturn : str.drop last = (pre ++ k) ++ 61 :: (v ++ []) := by
          rw [hdrop]
          simp
        rw [parseParamLoop_turn hsize htrim hpk hv hsep (.inl rfl) hturn, if_pos rfl,
          mergedEntries_key hk]
        rfl
      · have hnone : find str 61 last = npos := by
          apply find_eq_npos
          rw [hdrop]
          exact fun h => (List.mem_append.mp h).elim hpre hkey
        rw [parseParamLoop]
        simp only [hnone]
        rw [dif_pos trivial, mergedEntries, if_neg hkey]
        rfl

/-! ## The entries of the segments -/

variable {q : List UInt8} {segments : List (List UInt8)}

theorem mem_splitOn (q : List UInt8) {segment : List UInt8} (h : segment ∈ q.splitOn sep) :
    sep ∉ segment ∧ ∀ c ∈ segment, c ∈ q := by
  induction hn : q.length using Nat.strong_induction_on generalizing q with
  | _ n ih =>
    subst hn
    by_cases hmem : sep ∈ q
    · obtain ⟨first, rest, rfl, hfirst⟩ := List.eq_append_cons_of_mem hmem
      rw [List.splitOn_append_cons_self_of_not_mem hfirst] at h
      rcases List.mem_cons.mp h with rfl | h
      · exact ⟨hfirst, fun c hc => List.mem_append_left _ hc⟩
      · obtain ⟨hsep, hsub⟩ := ih rest.length (by simp; omega) rest h rfl
        exact ⟨hsep, fun c hc => List.mem_append_right _ (List.mem_cons_of_mem _ (hsub c hc))⟩
    · rw [List.splitOn_eq_singleton hmem] at h
      obtain rfl := List.mem_singleton.mp h
      exact ⟨hmem, fun c hc => hc⟩

theorem mergedEntries_nil (h : ∀ s ∈ segments, 61 ∉ s) :
    mergedEntries sep trim' pre segments = [] := by
  induction segments generalizing pre with
  | nil => rfl
  | cons s segments ih =>
      obtain ⟨hs, hrest⟩ := List.forall_mem_cons.mp h
      rw [mergedEntries, if_neg hs, ih hrest]

theorem mergedEntries_alone (h : segments.Pairwise fun a b => 61 ∈ b → 61 ∈ a) :
    mergedEntries sep trim' [] segments = (segments.filter (61 ∈ ·)).map (splitEntry trim') := by
  induction segments with
  | nil => rfl
  | cons s segments ih =>
      obtain ⟨hs, hrest⟩ := List.pairwise_cons.mp h
      by_cases hkey : 61 ∈ s
      · rw [mergedEntries, if_pos hkey, List.filter_cons_of_pos (by simpa using hkey),
          List.map_cons, ih hrest]
        rfl
      · have hnone : ∀ b ∈ segments, 61 ∉ b := fun b hb hmem => hkey (hs b hb hmem)
        rw [mergedEntries, if_neg hkey, mergedEntries_nil hnone,
          List.filter_cons_of_neg (by simpa using hkey), List.filter_eq_nil_iff.mpr]
        · rfl
        · intro b hb
          simpa using hnone b hb

/-- What a separator and the trimming of keys have to be like. -/
structure Separates (sep : UInt8) (trim : List UInt8 → List UInt8) : Prop where
  ne_equals : sep ≠ 61
  ne_nul : sep ≠ 0
  lower : ∀ c, toLower c = sep ↔ c = sep
  keep : ∀ s, sep ∈ s → sep ∈ trim s
  sub : ∀ s, ∀ c ∈ trim s, c ∈ s

namespace Separates

theorem query : Separates 38 id where
  ne_equals := by decide
  ne_nul := by decide
  lower := by
    apply forall_byte
    decide +kernel
  keep _ h := h
  sub _ _ h := h

theorem cookie : Separates 59 (trimmed (chars " \t\r\n")) where
  ne_equals := by decide
  ne_nul := by decide
  lower := by
    apply forall_byte
    decide +kernel
  keep _ h := mem_trimmed h (by decide)
  sub _ _ h := mem_of_mem_trimmed h

/-- A separator that is once in the key gets into the key of an entry. -/
theorem mem_merged (h : Separates sep trim') (hpre : sep ∈ pre) (hsome : ∃ s ∈ segments, 61 ∈ s) :
    ∃ entry ∈ mergedEntries sep trim' pre segments, sep ∈ entry.1 := by
  induction segments generalizing pre with
  | nil => obtain ⟨s, hs, -⟩ := hsome; cases hs
  | cons s segments ih =>
      rw [mergedEntries]
      split
      · exact ⟨_, List.mem_cons_self, h.keep _ (List.mem_append_left _ hpre)⟩
      · rename_i hs
        obtain ⟨s', hs', hkey⟩ := hsome
        rcases List.mem_cons.mp hs' with rfl | hs'
        · exact absurd hkey hs
        · exact ih (by simp) ⟨s', hs', hkey⟩

theorem exists_merged (h : Separates sep trim')
    (hnot : ¬ segments.Pairwise fun a b => 61 ∈ b → 61 ∈ a) :
    ∃ entry ∈ mergedEntries sep trim' [] segments, sep ∈ entry.1 := by
  induction segments with
  | nil => exact absurd List.Pairwise.nil hnot
  | cons s segments ih =>
      by_cases hkey : 61 ∈ s
      · have hrest : ¬ segments.Pairwise fun a b => 61 ∈ b → 61 ∈ a := fun hrest =>
          hnot (List.pairwise_cons.mpr ⟨fun _ _ _ => hkey, hrest⟩)
        obtain ⟨entry, hentry, hmem⟩ := ih hrest
        rw [mergedEntries, if_pos hkey]
        exact ⟨entry, List.mem_cons_of_mem _ hentry, hmem⟩
      · rw [mergedEntries, if_neg hkey]
        refine h.mem_merged (by simp) ?_
        by_contra hnone
        have hall : ∀ b ∈ segments, 61 ∉ b := fun b hb hmem => hnone ⟨b, hb, hmem⟩
        refine hnot (List.pairwise_cons.mpr ⟨fun b hb hmem => absurd hmem (hall b hb), ?_⟩)
        exact List.pairwise_of_forall_mem_list fun a _ b hb hmem => absurd hmem (hall b hb)

theorem merged_nulFree (h : Separates sep trim') (hpre : 0 ∉ pre)
    (hsegments : ∀ s ∈ segments, 0 ∉ s) :
    ∀ entry ∈ mergedEntries sep trim' pre segments, 0 ∉ entry.1 := by
  induction segments generalizing pre with
  | nil => intro entry hentry; cases hentry
  | cons s segments ih =>
      obtain ⟨hs, hrest⟩ := List.forall_mem_cons.mp hsegments
      rw [mergedEntries]
      split
      · refine List.forall_mem_cons.mpr ⟨fun hzero => ?_, ih List.not_mem_nil hrest⟩
        rcases List.mem_append.mp (h.sub _ _ hzero) with hzero | hzero
        · exact hpre hzero
        · exact hs ((List.takeWhile_sublist _).mem hzero)
      · refine ih ?_ hrest
        simp [hpre, hs, Ne.symm h.ne_nul]

/-- A key with the separator is not the same as one without. -/
theorem mem_of_same (h : Separates sep trim') {a b : List UInt8} (hb : 0 ∉ b) (hmem : sep ∈ b)
    (hsame : OrderedMap.same caseInsensitiveLess a b = true) : sep ∈ a := by
  have hfold : sep ∈ foldedKey b := by
    rw [foldedKey, cStr_eq hb]
    exact List.mem_map.mpr ⟨sep, hmem, (h.lower sep).mpr rfl⟩
  rw [← (same_iff a b).mp hsame] at hfold
  obtain ⟨c, hc, hlower⟩ := List.mem_map.mp hfold
  obtain rfl := (h.lower c).mp hlower
  exact (List.takeWhile_sublist _).mem hc

theorem reference_key (h : Separates sep trim') {entry : List UInt8 × List UInt8}
    (hentry : entry ∈ referenceEntries sep trim' q) : sep ∉ entry.1 := by
  obtain ⟨s, hs, rfl⟩ := List.mem_map.mp hentry
  have hfree := (mem_splitOn q (List.mem_filter.mp hs).1).1
  exact fun hmem => hfree ((List.takeWhile_sublist _).mem (h.sub _ _ hmem))

/-- The entries that the loop finds make the map of the reference splitting exactly if all keys
are alone in their segments. -/
theorem insertAll_eq_iff (h : Separates sep trim') (hnul : 0 ∉ q) :
    OrderedMap.insertAll caseInsensitiveLess [] (mergedEntries sep trim' [] (q.splitOn sep)) =
      referenceParams sep trim' q ↔ KeysAlone sep q := by
  constructor
  · intro heq
    by_contra hnot
    obtain ⟨entry, hentry, hmem⟩ := h.exists_merged hnot
    have hfree := h.merged_nulFree List.not_mem_nil
      (fun s hs hzero => hnul ((mem_splitOn q hs).2 0 hzero)) entry hentry
    obtain ⟨entry', hentry', hsame⟩ :=
      OrderedMap.exists_same_insertAll (m := []) caseInsensitiveLess_weak hentry
    rw [heq] at hentry'
    have hreference := (OrderedMap.mem_of_mem_insertAll hentry').resolve_left List.not_mem_nil
    exact h.reference_key hreference (h.mem_of_same hfree hmem hsame)
  · intro halone
    rw [mergedEntries_alone halone]
    rfl

theorem parseParam_some (h : Separates sep trim') (q : StdString)
    (htrim : ∀ a, a.length < npos → trim a = some (trim' a)) :
    ∃ m, parseParam q.bytes [] sep trim = some m :=
  ⟨_, parseParamLoop_eq [] q.size_lt htrim h.ne_equals List.not_mem_nil List.drop_zero⟩

theorem parseParam_iff (h : Separates sep trim') (q : StdString) (hnul : 0 ∉ q.bytes)
    (htrim : ∀ a, a.length < npos → trim a = some (trim' a)) :
    parseParam q.bytes [] sep trim = some (referenceParams sep trim' q.bytes) ↔
      KeysAlone sep q.bytes := by
  rw [← h.insertAll_eq_iff hnul, parseParam,
    parseParamLoop_eq [] q.size_lt htrim h.ne_equals List.not_mem_nil (List.drop_zero),
    Option.some_inj]

end Separates

end Lyslg.Http
