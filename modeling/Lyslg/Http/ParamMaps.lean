import Lyslg.Http.ParamSegments
/-!
# The parameter maps of a request

When the maps are those of the reference splitting, and that parameters which were encoded are
found again.
-/

namespace Lyslg.Http

open StdString StringUtil Support Support.Machine

/-! ## The maps of a request -/

/-- The blanks that `StringUtil::Trim` removes. -/
def blanks : List UInt8 := chars " \t\r\n"

namespace ParamRequest

/-- Nothing has been parsed yet. -/
structure Fresh (r : ParamRequest) : Prop where
  params : r.params = []
  cookies : r.cookies = []
  flag : r.parserParamFlag = 0

def FormType (r : ParamRequest) : Prop :=
  strcasestrFound (r.getHeader (chars "content-type") [])
    (chars "application/x-www-form-urlencoded") = true

variable {r : ParamRequest}

theorem Fresh.initQueryParam (h : r.Fresh) : r.initQueryParam =
    (parseParam r.query [] 38 some).map fun params =>
      { r with params := params, parserParamFlag := 1 } := by
  unfold ParamRequest.initQueryParam
  rw [h.flag, h.params, if_neg (by decide)]
  cases parseParam r.query [] 38 some <;> rfl

theorem Fresh.initBodyParam (h : r.Fresh) (htype : r.FormType) : r.initBodyParam =
    (parseParam r.body [] 38 some).map fun params =>
      { r with params := params, parserParamFlag := 2 } := by
  unfold ParamRequest.initBodyParam
  rw [h.flag, h.params, if_neg (by decide), show strcasestrFound _ _ = true from htype,
    if_neg (by decide)]
  cases parseParam r.body [] 38 some <;> rfl

theorem Fresh.initCookies (h : r.Fresh) : r.initCookies =
    (parseParam (r.getHeader (chars "cookie") []) [] 59 (StringUtil.trim · blanks)).map
    fun cookies =>
      { r with cookies := cookies, parserParamFlag := 4 } := by
  unfold ParamRequest.initCookies
  rw [h.flag, h.cookies, if_neg (by decide)]
  dsimp only
  cases hcookie : r.getHeader (chars "cookie") [] with
  | nil =>
      have hnone : parseParam [] [] 59 (StringUtil.trim · blanks) = some [] := by
        rw [parseParam, parseParamLoop]
        rfl
      rw [hnone, ← h.cookies]
      rfl
  | cons c cookie =>
      rw [if_neg (by simp)]
      change (parseParam (c :: cookie) [] 59 (StringUtil.trim · blanks)).bind _ = _
      cases parseParam (c :: cookie) [] 59 (StringUtil.trim · blanks) <;> rfl

/-- The maps are those of the reference splitting exactly if no segment without `=` is in front
of one with `=`. -/
theorem initParam_reference_iff (r : ParamRequest) (hfresh : r.Fresh) (q : StdString)
    (hnul : 0 ∉ q.bytes) :
    (r.query = q.bytes → ∃ r', r.initQueryParam = some r' ∧
      (r'.params = referenceParams 38 id q.bytes ↔ KeysAlone 38 q.bytes)) ∧
    (r.body = q.bytes → r.FormType → ∃ r', r.initBodyParam = some r' ∧
      (r'.params = referenceParams 38 id q.bytes ↔ KeysAlone 38 q.bytes)) ∧
    (r.getHeader (chars "cookie") [] = q.bytes → ∃ r', r.initCookies = some r' ∧
      (r'.cookies = referenceParams 59 (trimmed blanks) q.bytes ↔ KeysAlone 59 q.bytes)) := by
  have hfound : parseParam q.bytes [] 38 some = some (referenceParams 38 id q.bytes) ↔
      KeysAlone 38 q.bytes := Separates.query.parseParam_iff q hnul fun _ _ => rfl
  have hbaked : parseParam q.bytes [] 59 (StringUtil.trim · blanks) =
      some (referenceParams 59 (trimmed blanks) q.bytes) ↔ KeysAlone 59 q.bytes :=
    Separates.cookie.parseParam_iff q hnul fun _ => trim_eq
  obtain ⟨params, hparams⟩ :=
    Separates.query.parseParam_some q fun a _ => (rfl : some a = some (id a))
  obtain ⟨cookies, hcookies⟩ := Separates.cookie.parseParam_some q fun _ => trim_eq
  rw [hparams, Option.some_inj] at hfound
  refine ⟨fun h => ?_, fun h htype => ?_, fun h => ?_⟩
  · rw [hfresh.initQueryParam, h, hparams]
    exact ⟨_, rfl, hfound⟩
  · rw [hfresh.initBodyParam htype, h, hparams]
    exact ⟨_, rfl, hfound⟩
  · rw [hfresh.initCookies, h]
    have hcookies' : parseParam q.bytes [] 59 (StringUtil.trim · blanks) = some cookies := hcookies
    rw [hcookies', Option.some_inj] at hbaked
    rw [hcookies']
    exact ⟨_, rfl, hbaked⟩

/-- `a=1&b=2` in all three places. -/
def formText : StdString := ⟨chars "a=1&b=2", by decide⟩

def formRequest : ParamRequest where
  query := formText.bytes
  body := formText.bytes
  headers := [(chars "Content-Type", chars "application/x-www-form-urlencoded; charset=utf-8"),
    (chars "Cookie", formText.bytes)]

theorem initParam_reference_iff_form :
    (∃ r', formRequest.initQueryParam = some r' ∧
      (r'.params = referenceParams 38 id formText.bytes ↔ KeysAlone 38 formText.bytes)) ∧
    (∃ r', formRequest.initBodyParam = some r' ∧
      (r'.params = referenceParams 38 id formText.bytes ↔ KeysAlone 38 formText.bytes)) ∧
    ∃ r', formRequest.initCookies = some r' ∧
      (r'.cookies = referenceParams 59 (trimmed blanks) formText.bytes ↔
        KeysAlone 59 formText.bytes) := by
  obtain ⟨hquery, hbody, hcookie⟩ :=
    initParam_reference_iff formRequest ⟨rfl, rfl, rfl⟩ formText (by decide)
  exact ⟨hquery rfl, hbody rfl (by unfold FormType; decide +kernel), hcookie (by decide +kernel)⟩

/-- Of `a&b=1` the key is `a&b`. -/
theorem initQueryParam_merges_key : ¬∀ (r : ParamRequest) (q : StdString), r.Fresh →
    0 ∉ q.bytes → r.query = q.bytes →
      ∃ r', r.initQueryParam = some r' ∧ r'.params = referenceParams 38 id q.bytes := by
  intro h
  let q : StdString := ⟨chars "a&b=1", by decide⟩
  obtain ⟨r', hr', hparams⟩ := h { query := q.bytes } q ⟨rfl, rfl, rfl⟩ (by decide) rfl
  have hfresh : ({ query := q.bytes } : ParamRequest).Fresh := ⟨rfl, rfl, rfl⟩
  have halone : KeysAlone 38 q.bytes := by
    rw [← Separates.query.parseParam_iff q (by decide) fun _ _ => rfl]
    rw [hfresh.initQueryParam] at hr'
    obtain ⟨m, hm, rfl⟩ := Option.map_eq_some_iff.mp hr'
    exact hm.trans (congrArg some hparams)
  revert halone
  decide

end ParamRequest

/-! ## Encoded parameters -/

/-- The `&`-join of the pairs, with their values encoded. -/
def joined (pairs : List (List UInt8 × List UInt8)) : List UInt8 :=
  [38].intercalate (pairs.map fun pair => pair.1 ++ 61 :: urlEncode pair.2 true)

/-- No delimiter but `=` is in what is encoded. -/
theorem not_mem_urlEncode (s : List UInt8) (e : Bool) : (38 : UInt8) ∉ urlEncode s e := by
  rw [urlEncode_eq]
  intro hmem
  obtain ⟨x, -, hx⟩ := List.mem_flatMap.mp hmem
  by_cases heq : x = 61
  · subst heq
    revert hx
    cases e <;> decide
  · rw [encodedByte_of_ne heq] at hx
    rcases documentedByte_alphabet hx with h | h | h
    · revert h
      decide
    · cases h
    · cases h.1

theorem mergedEntries_joined (pairs : List (List UInt8 × List UInt8))
    (hkeys : ∀ p ∈ pairs, 61 ∉ p.1) :
    mergedEntries 38 id [] (pairs.map fun pair => pair.1 ++ 61 :: urlEncode pair.2 true) =
      pairs := by
  induction pairs with
  | nil => rfl
  | cons pair pairs ih =>
      obtain ⟨hkey, hrest⟩ := List.forall_mem_cons.mp hkeys
      rw [List.map_cons, mergedEntries_key hkey, ih hrest, urlEncode_eq, decoded_encoded fun h => h]
      rfl

theorem splitOn_joined (pairs : List (List UInt8 × List UInt8)) (hne : pairs ≠ [])
    (hkeys : ∀ p ∈ pairs, 38 ∉ p.1) :
    (joined pairs).splitOn 38 = pairs.map fun pair => pair.1 ++ 61 :: urlEncode pair.2 true := by
  refine List.splitOn_intercalate 38 ?_ (by simpa using hne)
  intro segment hsegment
  obtain ⟨pair, hpair, rfl⟩ := List.mem_map.mp hsegment
  rw [List.mem_append, List.mem_cons, not_or, not_or]
  exact ⟨hkeys pair hpair, by decide, not_mem_urlEncode _ _⟩

theorem find_pairs {pairs : List (List UInt8 × List UInt8)} (hkeys : ∀ p ∈ pairs, 0 ∉ p.1)
    {k : List UInt8} (hk : 0 ∉ k) :
    OrderedMap.find caseInsensitiveLess pairs k =
      (pairs.find? fun pair => pair.1.map toLower = k.map toLower).map Prod.snd := by
  induction pairs with
  | nil => rfl
  | cons pair pairs ih =>
      obtain ⟨hkey, hrest⟩ := List.forall_mem_cons.mp hkeys
      have hsame : OrderedMap.same caseInsensitiveLess pair.1 k =
          decide (pair.1.map toLower = k.map toLower) := by
        rw [Bool.eq_iff_iff, same_iff, decide_eq_true_eq, foldedKey, foldedKey, cStr_eq hkey,
          cStr_eq hk]
      rw [OrderedMap.find_cons, ih hrest, List.find?_cons, hsame]
      by_cases heq : pair.1.map toLower = k.map toLower
      · rw [if_pos (decide_eq_true heq), decide_eq_true heq]
        rfl
      · rw [if_neg (by simpa using heq), decide_eq_false heq]

/-- The parameters of an encoded query are those that were encoded. -/
theorem getParam_encoded (pairs : List (List UInt8 × List UInt8))
    (hkeys : ∀ p ∈ pairs, 61 ∉ p.1 ∧ 38 ∉ p.1 ∧ 0 ∉ p.1) (r : ParamRequest) (hfresh : r.Fresh)
    (q : StdString) (hjoined : q.bytes = joined pairs) (hquery : r.query = q.bytes) :
    ∃ r', r.initQueryParam = some r' ∧ ∀ k dflt : List UInt8, 0 ∉ k →
      r'.getParam k dflt =
        ((pairs.find? fun pair => pair.1.map toLower = k.map toLower).map Prod.snd).getD dflt := by
  have hentries : mergedEntries 38 id [] (q.bytes.splitOn 38) = pairs := by
    rw [hjoined]
    by_cases hne : pairs = []
    · subst hne
      rfl
    · rw [splitOn_joined pairs hne fun p hp => (hkeys p hp).2.1,
        mergedEntries_joined pairs fun p hp => (hkeys p hp).1]
  have hparams : parseParam q.bytes [] 38 some =
      some (OrderedMap.insertAll caseInsensitiveLess [] pairs) := by
    rw [← hentries]
    exact parseParamLoop_eq [] q.size_lt (fun _ _ => rfl) (by decide) List.not_mem_nil
      List.drop_zero
  rw [hfresh.initQueryParam, hquery, hparams]
  refine ⟨_, rfl, fun k dflt hk => ?_⟩
  have hfind := OrderedMap.find_insertAll caseInsensitiveLess_weak List.Pairwise.nil pairs k
  rw [find_pairs (fun p hp => (hkeys p hp).2.2) hk] at hfind
  exact congrArg (Option.getD · dflt) hfind

theorem getParam_encoded_delimiters :
    ∃ r', ({ query := joined [(chars "K", chars "a&b=%"), (chars "k", [])] } :
        ParamRequest).initQueryParam = some r' ∧
      ∀ k dflt : List UInt8, 0 ∉ k → r'.getParam k dflt =
        (([(chars "K", chars "a&b=%"), (chars "k", [])].find? fun pair =>
          pair.1.map toLower = k.map toLower).map Prod.snd).getD dflt :=
  getParam_encoded _ (by decide) _ ⟨rfl, rfl, rfl⟩ ⟨_, by decide⟩ rfl rfl

end Lyslg.Http
