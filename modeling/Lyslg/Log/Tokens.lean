import Lyslg.Log.Scan
/-!
# Patterns as tokens

A pattern that is written as texts and directives is cut into just these, whatever stands between
the braces of a directive, as long as two neighbours do not run into each other.
-/

namespace Lyslg.Log

open Http

/-- A text, or a directive with or without a format in braces. -/
inductive Token where
  | literal (text : List UInt8)
  | directive (d : Directive) (fmt : Option (List UInt8))
  deriving DecidableEq

namespace Token

/-- How a token is written. -/
def text : Token → List UInt8
  | .literal text => text
  | .directive d none => [37, d.key]
  | .directive d (some fmt) => 37 :: d.key :: 123 :: (fmt ++ [125])

/-- The item a token stands for. -/
def item : Token → FormatItem
  | .literal text => .string text
  | .directive d fmt => .directive d (fmt.getD [])

/-- A text is ASCII without a percent sign and not empty; a format has no closing brace. -/
def Valid : Token → Prop
  | .literal text => text ≠ [] ∧ ∀ c ∈ text, c ≠ 37 ∧ c < 128
  | .directive _ fmt => ∀ f ∈ fmt, 125 ∉ f

/-- The second token may stand behind the first one. -/
def Separate : Token → Token → Prop
  | .literal _, .literal _ => False
  | .directive _ none, .literal text => ∀ c ∈ text.head?, isAlpha c = false ∧ c ≠ 123 ∧ c ≠ 125
  | _, _ => True

/-- The entry of `vec` for a token. -/
def piece : Token → Piece
  | .literal text => { str := text }
  | .directive d fmt => ⟨[d.key], fmt.getD [], true⟩

end Token

/-- The pattern that the tokens make. -/
def patternOf (tokens : List Token) : List UInt8 := tokens.flatMap Token.text

section Tokens

variable {tokens : List Token} {t : Token} {done nstr text rest fmt : List UInt8} {d : Directive}
  {fuel : Nat}

theorem Directive.isNameChar_key (d : Directive) : isNameChar d.key = true := by
  cases d with
  | _ => decide

theorem Directive.name_key (d : Directive) : ∀ c ∈ [d.key], isNameChar c = true := by
  intro c hc
  rw [List.mem_singleton.mp hc]
  exact d.isNameChar_key

/-- A directive does not start like a percent sign. -/
theorem head?_key_ne (d : Directive) (rest : List UInt8) : (d.key :: rest).head? ≠ some 37 := by
  intro h
  exact (isNameChar_ne d.isNameChar_key).1 (Option.some.inj h)

/-- What may stand behind a directive without braces ends its name. -/
theorem endsName_patternOf (hvalid : ∀ t ∈ tokens, t.Valid)
    (hchain : (Token.directive d none :: tokens).IsChain Token.Separate) :
    EndsName (patternOf tokens) := by
  cases tokens with
  | nil => exact fun c hc => by cases hc
  | cons t tokens =>
      have hsep := (List.isChain_cons_cons.mp hchain).1
      have ht := hvalid t List.mem_cons_self
      cases t with
      | literal text =>
          obtain ⟨c, text, rfl⟩ := List.exists_cons_of_ne_nil ht.1
          intro c' hc'
          obtain rfl : c = c' := Option.some.inj hc'
          obtain ⟨halpha, hopen, hclose⟩ := hsep c rfl
          refine ⟨?_, hopen⟩
          rw [isNameChar, halpha, decide_eq_false hclose]
          rfl
      | directive d' fmt =>
          have hpercent : (patternOf (.directive d' fmt :: tokens)).head? = some 37 := by
            cases fmt with
            | none => rfl
            | some fmt => rfl
          intro c hc
          rw [hpercent, Option.mem_some_iff] at hc
          rw [← hc]
          decide

theorem initLoop_literal (htext : 37 ∉ text) (done rest nstr : List UInt8) (fuel : Nat) :
    initLoop (done ++ (text ++ rest)) (text.length + fuel) done.length nstr =
      initLoop (done ++ (text ++ rest)) fuel (done ++ text).length (nstr ++ text) := by
  induction text generalizing done nstr with
  | nil => simp
  | cons c text ih =>
      obtain ⟨hc, htext⟩ := List.ne_and_not_mem_of_not_mem_cons htext
      have hnext := ih htext (done ++ [c]) (nstr ++ [c])
      simp only [List.append_assoc, List.singleton_append] at hnext
      have hfuel : (c :: text).length + fuel = text.length + fuel + 1 := by
        rw [List.length_cons]
        omega
      rw [hfuel, List.cons_append, initLoop_text (Ne.symm hc)]
      rw [List.length_append, List.length_singleton] at hnext
      exact hnext

/-- The round of the outer loop for a directive. -/
theorem initLoop_directive {fmt : Option (List UInt8)} (hfmt : ∀ f ∈ fmt, 125 ∉ f)
    (hends : fmt = none → EndsName rest) (done nstr : List UInt8) (fuel : Nat) :
    initLoop (done ++ ((Token.directive d fmt).text ++ rest)) (fuel + 1) done.length nstr =
      (flush nstr ++ (Token.directive d fmt).piece ::
          (initLoop (done ++ ((Token.directive d fmt).text ++ rest)) fuel
            (done ++ (Token.directive d fmt).text).length []).1,
        (initLoop (done ++ ((Token.directive d fmt).text ++ rest)) fuel
          (done ++ (Token.directive d fmt).text).length []).2) := by
  cases fmt with
  | none =>
      have hscan := scan_bare done d.name_key (hends rfl)
      have hlen : (done ++ (Token.directive d none).text).length = done.length + 1 + 1 := by
        rw [List.length_append]
        rfl
      rw [hlen]
      exact initLoop_closed (head?_key_ne d rest) hscan nstr fuel
  | some f =>
      have hscan := scan_braced done d.name_key (hfmt f rfl) rest
      have hlen : (done ++ (Token.directive d (some f)).text).length =
          done.length + 1 + 1 + 1 + f.length + 1 := by
        rw [Token.text]
        simp only [List.length_append, List.length_cons, List.length_nil]
        omega
      have htext : (Token.directive d (some f)).text ++ rest =
          37 :: ([d.key] ++ 123 :: (f ++ 125 :: rest)) := by
        rw [Token.text]
        simp
      rw [hlen, htext]
      exact initLoop_closed (head?_key_ne d _) hscan nstr fuel

theorem length_text_directive (d : Directive) (fmt : Option (List UInt8)) :
    0 < (Token.directive d fmt).text.length := by
  cases fmt with
  | none => exact Nat.succ_pos _
  | some f => exact Nat.succ_pos _

/-- By induction over the tokens.  A text that is still to be flushed is followed by a directive. -/
theorem initLoop_tokens (done nstr : List UInt8) (hvalid : ∀ t ∈ tokens, t.Valid)
    (hchain : tokens.IsChain Token.Separate) (hfuel : (patternOf tokens).length ≤ fuel)
    (hnstr : nstr = [] ∨ (Token.literal nstr :: tokens).IsChain Token.Separate) :
    initLoop (done ++ patternOf tokens) fuel done.length nstr =
      (flush nstr ++ tokens.map Token.piece, false) := by
  induction tokens generalizing done nstr fuel with
  | nil =>
      have hend := initLoop_end (done ++ patternOf []) nstr fuel
      rw [patternOf, List.flatMap_nil, List.append_nil] at hend ⊢
      rw [hend, List.map_nil, List.append_nil]
  | cons t tokens ih =>
      obtain ⟨ht, hrest⟩ := List.forall_mem_cons.mp hvalid
      have hpattern : patternOf (t :: tokens) = t.text ++ patternOf tokens := List.flatMap_cons
      rw [hpattern, List.length_append] at hfuel
      rw [hpattern]
      cases t with
      | literal text =>
          have hpercent : 37 ∉ text := fun hmem => (ht.2 37 hmem).1 rfl
          have hnil : nstr = [] := by
            rcases hnstr with hnil | hsep
            · exact hnil
            · exact absurd (List.isChain_cons_cons.mp hsep).1 id
          change text.length + (patternOf tokens).length ≤ fuel at hfuel
          obtain ⟨fuel, rfl⟩ := Nat.exists_eq_add_of_le (Nat.le_of_add_right_le hfuel)
          have hnext := ih (done ++ text) text hrest hchain.tail (by omega : _ ≤ fuel)
            (Or.inr hchain)
          change initLoop (done ++ (text ++ patternOf tokens)) (text.length + fuel) done.length
            nstr = (flush nstr ++ { str := text } :: tokens.map Token.piece, false)
          rw [initLoop_literal hpercent, hnil, List.nil_append, ← List.append_assoc, hnext, flush,
            flush, if_pos rfl, if_neg ht.1]
          rfl
      | directive d fmt =>
          have hpos := length_text_directive d fmt
          obtain ⟨fuel, rfl⟩ := Nat.exists_eq_add_of_le' (by omega : 1 ≤ fuel)
          have hnext := ih (done ++ (Token.directive d fmt).text) [] hrest hchain.tail
            (by omega : _ ≤ fuel) (Or.inl rfl)
          have hends : fmt = none → EndsName (patternOf tokens) := by
            rintro rfl
            exact endsName_patternOf hrest hchain
          rw [List.append_assoc] at hnext
          rw [initLoop_directive ht hends, hnext]
          rfl

theorem piece_item (t : Token) : t.piece.item = t.item := by
  cases t with
  | literal text => rfl
  | directive d fmt =>
      have hstr : (Token.directive d fmt).piece.str = [d.key] := rfl
      have hdirective : (Token.directive d fmt).piece.directive = true := rfl
      rw [Piece.item]
      simp only [hstr, hdirective, findItem_key]
      rfl

/-- No entry of a token is in error. -/
theorem piece_known (t : Token) : (t.piece.directive && t.piece.str ∉ formatItems) = false := by
  cases t with
  | literal text => rfl
  | directive d fmt =>
      have hknown : [d.key] ∈ formatItems := by
        by_contra hnot
        rw [← findItem_eq_none, findItem_key] at hnot
        cases hnot
      have hstr : (Token.directive d fmt).piece.str = [d.key] := rfl
      rw [hstr, decide_eq_false (not_not_intro hknown), Bool.and_false]

end Tokens

/-- A pattern made of tokens is valid, and its items are those of the tokens. -/
theorem pattern_tokens {tokens : List Token} (hvalid : ∀ t ∈ tokens, t.Valid)
    (hchain : tokens.IsChain Token.Separate) :
    (LogFormatter.mk (patternOf tokens)).isError = false ∧
      (LogFormatter.mk (patternOf tokens)).items = tokens.map Token.item := by
  have hloop := initLoop_tokens [] [] hvalid hchain (Nat.le_refl _) (Or.inl rfl)
  rw [List.nil_append] at hloop
  have hpieces : (LogFormatter.mk (patternOf tokens)).pieces = tokens.map Token.piece :=
    congrArg Prod.fst hloop
  constructor
  · rw [LogFormatter.isError, hpieces, Bool.or_eq_false_iff, List.any_eq_false]
    refine ⟨congrArg Prod.snd hloop, ?_⟩
    intro piece hpiece
    obtain ⟨t, _, rfl⟩ := List.mem_map.mp hpiece
    exact Bool.eq_false_iff.mp (piece_known t)
  · rw [LogFormatter.items, hpieces, List.map_map]
    exact List.map_congr_left fun t _ => piece_item t

/-- The pattern of a new logger: `[`, `]` and `:` are its texts. -/
def defaultTokens : List Token :=
  [.directive .dateTime (some (chars "%Y-%m-%d %H:%M:%S")), .directive .tab none,
    .directive .thread none, .directive .tab none, .directive .threadName none,
    .directive .tab none, .directive .fiber none, .directive .tab none, .literal [91],
    .directive .level none, .literal [93], .directive .tab none, .literal [91],
    .directive .name none, .literal [93], .directive .tab none, .directive .filename none,
    .literal [58], .directive .line none, .directive .tab none, .directive .message none,
    .directive .newline none]

/-- The pattern of a new logger has its twenty-two items. -/
theorem pattern_tokens_default :
    (LogFormatter.mk defaultPattern).isError = false ∧
      (LogFormatter.mk defaultPattern).items = defaultTokens.map Token.item := by
  have hpattern : patternOf defaultTokens = defaultPattern := by decide
  have hdate : 125 ∉ chars "%Y-%m-%d %H:%M:%S" := by decide
  have hvalid : ∀ t ∈ defaultTokens, t.Valid := by
    simp only [defaultTokens, List.forall_mem_cons]
    simp [Token.Valid, hdate]
  have hchain : defaultTokens.IsChain Token.Separate := by
    simp [defaultTokens, Token.Separate, isAlpha]
  rw [← hpattern]
  exact pattern_tokens hvalid hchain

end Lyslg.Log
