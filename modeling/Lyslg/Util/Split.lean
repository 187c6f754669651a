import Lyslg.Http.Request
import Lyslg.Util.StdString
/-!
# `split`

The number of pieces is limited by a counter that goes down with each delimiter and is compared
with one behind that.
-/

namespace Lyslg.Split

open Http StdString Support.Machine

/-- The loop of either overload from `last` on, with the pieces so far; none is
`std::out_of_range`. -/
def splitLoop (p : UInt8 → Bool) (str : List UInt8) (last max : Nat)
    (result : List (List UInt8)) : Option (List (List UInt8)) :=
  let pos := findIf p str last
  if hpos : pos = npos then do
    return result ++ [← substrFrom str last]
  else do
    let result := result ++ [← substr str last (subSize pos last)]
    if subSize max 1 = 1 then return result ++ [← substrFrom str (pos + 1)]
    else splitLoop p str (pos + 1) (subSize max 1) result
termination_by str.length - last
decreasing_by
  have hbounds := findIf_bounds hpos
  omega

/-- `split(str, delim, max)` for one delimiter. -/
def splitChar (str : List UInt8) (delim : UInt8) (max : Nat) : Option (List (List UInt8)) :=
  if str.isEmpty then some [] else splitLoop (fun c => c == delim) str 0 max []

/-- `split(str, delims, max)` for the characters of a C string. -/
def splitSet (str delims : List UInt8) (max : Nat) : Option (List (List UInt8)) :=
  if str.isEmpty then some [] else splitLoop (fun c => (cStr delims).contains c) str 0 max []

/-! ## Pieces and separators -/

/-- The text of the pieces with a separator behind each but the last. -/
def rejoin : List (List UInt8) → List UInt8 → List UInt8
  | [], _ => []
  | piece :: _, [] => piece
  | piece :: pieces, sep :: seps => piece ++ sep :: rejoin pieces seps

/-- `pieces` and `seps` are the text cut at its first `k - 1` separators, or at all of them when
there are not so many. -/
inductive Cut (p : UInt8 → Bool) : List UInt8 → Nat → List (List UInt8) → List UInt8 → Prop
  | all {rest : List UInt8} {k : Nat} (hrest : ∀ c ∈ rest, p c = false) :
      Cut p rest (k + 1) [rest] []
  | limit {rest : List UInt8} : Cut p rest 1 [rest] []
  | next {piece rest seps : List UInt8} {sep : UInt8} {k : Nat} {pieces : List (List UInt8)}
      (hpiece : ∀ c ∈ piece, p c = false) (hsep : p sep = true) (hrest : Cut p rest k pieces seps) :
      Cut p (piece ++ sep :: rest) (k + 1) (piece :: pieces) (sep :: seps)

/-- What a limit on the pieces promises. -/
structure SplitsWithin (p : UInt8 → Bool) (str : List UInt8) (max : Nat)
    (pieces : List (List UInt8)) : Prop where
  some_piece : 1 ≤ pieces.length
  within : pieces.length ≤ max
  joined : ∃ seps, seps.length + 1 = pieces.length ∧ (∀ sep ∈ seps, p sep = true) ∧
    rejoin pieces seps = str
  free : ∀ piece ∈ pieces.dropLast, ∀ c ∈ piece, p c = false
  last : ∀ piece ∈ pieces.getLast?, (∃ c ∈ piece, p c = true) → pieces.length = max

section Cut

variable {p : UInt8 → Bool} {rest seps : List UInt8} {k : Nat} {pieces : List (List UInt8)}

theorem Cut.length_seps (h : Cut p rest k pieces seps) : seps.length + 1 = pieces.length := by
  induction h with
  | all hrest => rfl
  | limit => rfl
  | next hpiece hsep hrest ih => rw [List.length_cons, List.length_cons, ih]

theorem Cut.within (h : Cut p rest k pieces seps) : pieces.length ≤ k := by
  induction h with
  | all hrest => exact Nat.succ_le_succ (Nat.zero_le _)
  | limit => exact Nat.le_refl _
  | next hpiece hsep hrest ih => exact Nat.succ_le_succ ih

theorem Cut.seps_mem (h : Cut p rest k pieces seps) : ∀ sep ∈ seps, p sep = true := by
  induction h with
  | all hrest => exact List.forall_mem_nil _
  | limit => exact List.forall_mem_nil _
  | next hpiece hsep hrest ih => exact List.forall_mem_cons.mpr ⟨hsep, ih⟩

theorem Cut.rejoin_eq (h : Cut p rest k pieces seps) : rejoin pieces seps = rest := by
  induction h with
  | all hrest => rfl
  | limit => rfl
  | next hpiece hsep hrest ih => rw [rejoin, ih]

theorem Cut.pieces_ne (h : Cut p rest k pieces seps) : pieces ≠ [] := by
  cases h <;> exact List.cons_ne_nil _ _

theorem Cut.free (h : Cut p rest k pieces seps) :
    ∀ piece ∈ pieces.dropLast, ∀ c ∈ piece, p c = false := by
  induction h with
  | all hrest => exact List.forall_mem_nil _
  | limit => exact List.forall_mem_nil _
  | next hpiece hsep hrest ih =>
      rw [List.dropLast_cons_of_ne_nil hrest.pieces_ne]
      exact List.forall_mem_cons.mpr ⟨hpiece, ih⟩

theorem Cut.last (h : Cut p rest k pieces seps) :
    ∀ piece ∈ pieces.getLast?, (∃ c ∈ piece, p c = true) → pieces.length = k := by
  induction h with
  | all hrest =>
      rintro piece hpiece ⟨c, hc, hp⟩
      cases hpiece
      rw [hrest c hc] at hp
      cases hp
  | limit => exact fun _ _ _ => rfl
  | next hpiece hsep hrest ih =>
      intro piece hmem hsome
      rw [List.getLast?_cons_of_ne_nil hrest.pieces_ne] at hmem
      exact congrArg Nat.succ (ih piece hmem hsome)

theorem Cut.splitsWithin (h : Cut p rest k pieces seps) : SplitsWithin p rest k pieces where
  some_piece := List.length_pos_iff.mpr h.pieces_ne
  within := h.within
  joined := ⟨seps, h.length_seps, h.seps_mem, h.rejoin_eq⟩
  free := h.free
  last := h.last

end Cut

/-! ## The loop -/

section Loop

variable {p : UInt8 → Bool} {str piece rest : List UInt8} {sep : UInt8} {last max : Nat}
  {result pieces : List (List UInt8)}

theorem splitLoop_end (hlast : last ≤ str.length) (h : ∀ c ∈ str.drop last, p c = false) :
    splitLoop p str last max result = some (result ++ [str.drop last]) := by
  have htail : substrFrom str last = some (str.drop last) := if_pos hlast
  rw [splitLoop, dif_pos (findIf_eq_npos h), htail]
  rfl

theorem subSize_piece {n k m : Nat} (hsize : n < npos) (h : n = last + k + m) :
    subSize (last + k) last = k := by
  unfold npos at hsize
  rw [subSize_of_le (by omega) (Nat.le_add_right _ _), Nat.add_sub_cancel_left]

/-- The next piece is what is in front of the first separator. -/
theorem splitLoop_next (hsize : str.length < npos) (h : str.drop last = piece ++ sep :: rest)
    (hpiece : ∀ c ∈ piece, p c = false) (hsep : p sep = true) :
    splitLoop p str last max result =
      if subSize max 1 = 1 then some (result ++ [piece] ++ [rest])
      else splitLoop p str (last + piece.length + 1) (subSize max 1) (result ++ [piece]) := by
  have hpos : findIf p str last = last + piece.length := findIf_eq h hpiece hsep
  have hlength := length_drop_eq h (List.cons_ne_nil sep rest)
  rw [List.length_cons] at hlength
  have hne : last + piece.length ≠ npos := by omega
  have hsub := subSize_piece hsize hlength
  have hhead : substr str last piece.length = some piece := substr_eq h (by omega)
  have hdrop : str.drop (last + piece.length + 1) = rest := by
    rw [← List.drop_drop, ← List.drop_drop, h, List.drop_left]
    rfl
  have htail : substrFrom str (last + piece.length + 1) = some rest := by
    rw [substrFrom, if_pos (by omega), hdrop]
  rw [splitLoop]
  generalize subSize max 1 = next
  rw [hpos, dif_neg hne, hsub, hhead, htail]
  by_cases hnext : next = 1
  · simp only [if_pos hnext, Option.bind_eq_bind, Option.bind_some, Option.pure_def]
  · simp only [if_neg hnext, Option.bind_eq_bind, Option.bind_some]

theorem exists_separator (h : ¬ ∀ c ∈ rest, p c = false) :
    ∃ piece sep tail, rest = piece ++ sep :: tail ∧ (∀ c ∈ piece, p c = false) ∧ p sep = true := by
  cases hfind : rest.find? p with
  | none =>
      rw [List.find?_eq_none] at hfind
      exact absurd (fun c hc => Bool.eq_false_iff.mpr (hfind c hc)) h
  | some sep =>
      obtain ⟨hsep, piece, tail, hsplit, hpiece⟩ := List.find?_eq_some_iff_append.mp hfind
      exact ⟨piece, sep, tail, hsplit, fun c hc => by simpa using hpiece c hc, hsep⟩

/-- With a limit of at least two the loop cuts the text behind `last`. -/
theorem splitLoop_cut (result : List (List UInt8)) (hsize : str.length < npos)
    (hlast : last ≤ str.length) (hmax : 2 ≤ max) (hlarge : max < 2 ^ 64) : ∃ pieces seps,
      splitLoop p str last max result = some (result ++ pieces) ∧
        Cut p (str.drop last) max pieces seps := by
  induction hn : str.length - last using Nat.strong_induction_on generalizing last max result with
  | _ n ih =>
      by_cases hfree : ∀ c ∈ str.drop last, p c = false
      · refine ⟨[str.drop last], [], splitLoop_end hlast hfree, ?_⟩
        have hcut : Cut p (str.drop last) (max - 1 + 1) [str.drop last] [] := Cut.all hfree
        rwa [Nat.sub_add_cancel (by omega)] at hcut
      · obtain ⟨piece, sep, rest, hsplit, hpiece, hsep⟩ := exists_separator hfree
        have hlength := length_drop_eq hsplit (List.cons_ne_nil sep rest)
        rw [List.length_cons] at hlength
        have hsub : subSize max 1 = max - 1 := subSize_of_le hlarge (by omega)
        have hdrop : str.drop (last + piece.length + 1) = rest := by
          rw [← List.drop_drop, ← List.drop_drop, hsplit, List.drop_left]
          rfl
        have hback : max = max - 1 + 1 := by omega
        rw [splitLoop_next hsize hsplit hpiece hsep, hsub, hsplit]
        by_cases htwo : max - 1 = 1
        · rw [if_pos htwo, hback, htwo]
          refine ⟨[piece, rest], [sep], by rw [List.append_assoc]; rfl, ?_⟩
          exact Cut.next hpiece hsep Cut.limit
        · obtain ⟨pieces, seps, hloop, hcut⟩ := ih (str.length - (last + piece.length + 1))
            (by omega) (result ++ [piece]) (by omega) (by omega : 2 ≤ max - 1) (by omega) rfl
          rw [hdrop] at hcut
          rw [if_neg htwo, hloop, hback]
          exact ⟨piece :: pieces, sep :: seps, by rw [List.append_assoc]; rfl,
            Cut.next hpiece hsep hcut⟩

/-- Whatever the limit is, there is one more piece in the end. -/
theorem length_splitLoop (hsize : str.length < npos) (hlast : last ≤ str.length)
    (h : splitLoop p str last max result = some pieces) : result.length < pieces.length := by
  induction hn : str.length - last using Nat.strong_induction_on generalizing last max result with
  | _ n ih =>
      by_cases hfree : ∀ c ∈ str.drop last, p c = false
      · rw [splitLoop_end hlast hfree] at h
        cases h
        rw [List.length_append]
        exact Nat.lt_succ_self _
      · obtain ⟨piece, sep, rest, hsplit, hpiece, hsep⟩ := exists_separator hfree
        have hlength := length_drop_eq hsplit (List.cons_ne_nil sep rest)
        rw [List.length_cons] at hlength
        rw [splitLoop_next hsize hsplit hpiece hsep] at h
        by_cases hone : subSize max 1 = 1
        · rw [if_pos hone] at h
          cases h
          rw [List.length_append, List.length_append, List.length_singleton, List.length_singleton]
          omega
        · rw [if_neg hone] at h
          have hmore := ih _ (by omega) (by omega) h rfl
          rw [List.length_append] at hmore
          omega

/-- A limit of one is not kept when there is a separator. -/
theorem splitLoop_one (hsize : str.length < npos) (hfree : ¬ ∀ c ∈ str, p c = false)
    (h : splitLoop p str 0 1 [] = some pieces) : 1 < pieces.length := by
  obtain ⟨piece, sep, rest, hsplit, hpiece, hsep⟩ := exists_separator hfree
  have hdrop : str.drop 0 = piece ++ sep :: rest := hsplit
  have hlength := length_drop_eq hdrop (List.cons_ne_nil sep rest)
  have hsub : subSize 1 1 ≠ 1 := by decide
  rw [splitLoop_next hsize hdrop hpiece hsep, if_neg hsub] at h
  refine length_splitLoop hsize ?_ h
  rw [hlength, List.length_cons]
  omega

end Loop

section Limit

variable {p : UInt8 → Bool} {str seps : List UInt8} {delim : UInt8} {max : Nat}
  {pieces : List (List UInt8)}

/-- The loop keeps to the limit, unless this is one and there is a separator. -/
theorem splitLoop_within_iff (p : UInt8 → Bool) (hsize : str.length < npos) (hmax : 1 ≤ max)
    (hlarge : max < 2 ^ 64) :
    (∃ pieces, splitLoop p str 0 max [] = some pieces ∧ SplitsWithin p str max pieces) ↔
      (max = 1 → ∀ c ∈ str, p c = false) := by
  constructor
  · rintro ⟨pieces, hloop, hwithin⟩ rfl
    by_contra hfree
    exact Nat.not_lt_of_le hwithin.within (splitLoop_one hsize hfree hloop)
  · intro hone
    by_cases hmax1 : max = 1
    · have hend : splitLoop p str 0 max [] = some [str] :=
        splitLoop_end (Nat.zero_le _) (hone hmax1)
      have hcut : Cut p str (0 + 1) [str] [] := Cut.all (hone hmax1)
      rw [hmax1] at hend ⊢
      exact ⟨[str], hend, hcut.splitsWithin⟩
    · obtain ⟨pieces, seps, hloop, hcut⟩ :=
        splitLoop_cut (p := p) [] hsize (Nat.zero_le _) (by omega : 2 ≤ max) hlarge
      exact ⟨pieces, hloop, hcut.splitsWithin⟩

/-- Pieces with the same separator everywhere. -/
theorem rejoin_eq_intercalate (hlength : seps.length + 1 = pieces.length)
    (hseps : ∀ sep ∈ seps, sep = delim) : rejoin pieces seps = [delim].intercalate pieces := by
  induction seps generalizing pieces with
  | nil =>
      obtain ⟨piece, rfl⟩ := List.length_eq_one_iff.mp hlength.symm
      rw [rejoin, List.intercalate_singleton]
  | cons sep seps ih =>
      rcases pieces with _ | ⟨piece, _ | ⟨next, pieces⟩⟩
      · cases hlength
      · cases hlength
      · rw [List.forall_mem_cons] at hseps
        rw [rejoin, ih (Nat.succ.inj hlength) hseps.2, hseps.1, List.intercalate_cons_cons,
          List.append_cons]

end Limit

/-- Both overloads keep to their limit and lose nothing, exactly unless the limit is one and there
is something to split at. -/
theorem split_within_iff (str : StdString) (max : Nat) (hstr : str.bytes ≠ []) (hmax : 1 ≤ max)
    (hlarge : max < 2 ^ 64) :
    (∀ delim, (∃ pieces, splitChar str.bytes delim max = some pieces ∧
        SplitsWithin (fun c => c == delim) str.bytes max pieces ∧
        [delim].intercalate pieces = str.bytes) ↔ (max = 1 → delim ∉ str.bytes)) ∧
    ∀ delims, (∃ pieces, splitSet str.bytes delims max = some pieces ∧
        SplitsWithin (fun c => (cStr delims).contains c) str.bytes max pieces) ↔
      (max = 1 → ∀ c ∈ str.bytes, c ∉ cStr delims) := by
  have hempty : ¬ str.bytes.isEmpty = true := by
    rwa [List.isEmpty_iff]
  constructor
  · intro delim
    have hloop := splitLoop_within_iff (fun c => c == delim) str.size_lt hmax hlarge
    have hfree : (∀ c ∈ str.bytes, (c == delim) = false) ↔ delim ∉ str.bytes := by
      refine ⟨fun h hmem => ?_, beq_false_of_not_mem⟩
      have hself := h delim hmem
      rw [beq_self_eq_true] at hself
      cases hself
    rw [hfree] at hloop
    rw [splitChar, if_neg hempty, ← hloop]
    constructor
    · rintro ⟨pieces, hpieces, hwithin, -⟩
      exact ⟨pieces, hpieces, hwithin⟩
    · rintro ⟨pieces, hpieces, hwithin⟩
      obtain ⟨seps, hlength, hseps, hjoin⟩ := hwithin.joined
      refine ⟨pieces, hpieces, hwithin, ?_⟩
      rw [← hjoin, rejoin_eq_intercalate hlength fun sep hsep => beq_iff_eq.mp (hseps sep hsep)]
  · intro delims
    have hloop := splitLoop_within_iff (fun c => (cStr delims).contains c) str.size_lt hmax hlarge
    have hfree : (∀ c ∈ str.bytes, (cStr delims).contains c = false) ↔
        ∀ c ∈ str.bytes, c ∉ cStr delims := by
      simp only [List.contains_eq_mem, decide_eq_false_iff_not]
    rw [hfree] at hloop
    rw [splitSet, if_neg hempty, ← hloop]

theorem length_pair : (chars "a,b").length < npos := by decide

/-- `a,b` -/
def pair : StdString := ⟨chars "a,b", length_pair⟩

theorem split_pair : 1 < 2 ∧ ∃ pieces, splitChar pair.bytes 44 2 = some pieces ∧
    SplitsWithin (fun c => c == 44) pair.bytes 2 pieces ∧ [44].intercalate pieces = pair.bytes := by
  refine ⟨by decide, ?_⟩
  exact ((split_within_iff pair 2 (by decide) (by decide) (by decide)).1 44).mpr
    fun h => absurd h (by decide)

/-- With a limit of one there are two pieces. -/
theorem split_limit_one : ¬ ∃ pieces, splitChar (chars "a,b") 44 1 = some pieces ∧
    SplitsWithin (fun c => c == 44) (chars "a,b") 1 pieces ∧
    [44].intercalate pieces = chars "a,b" := by
  rintro ⟨pieces, hsplit, hwithin, -⟩
  have hfree : ¬ ∀ c ∈ chars "a,b", (c == 44) = false := fun h => by
    have hcomma := h 44 (by decide)
    cases hcomma
  exact Nat.not_lt_of_le hwithin.within (splitLoop_one length_pair hfree hsplit)

end Lyslg.Split
