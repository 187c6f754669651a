import Lyslg.Log.Format
import Lyslg.YAML.Node
/-!
# Flow style

Every node as one line of YAML, each scalar in double quotes, and the way back.  Some nodes may
have a text of another style.
-/

namespace Lyslg.YAML.Flow

open Log Numerals StringUtil

/-! ## The text of a node -/

/-- A scalar behind its opening quote. -/
def quoted : List UInt8 → List UInt8
  | [] => [34]
  | c :: value => if c = 34 ∨ c = 92 then 92 :: c :: quoted value else c :: quoted value

mutual

def emit : Node → List UInt8
  | .null => [126]
  | .scalar value => 34 :: quoted value
  | .sequence items => 91 :: emitItems items
  | .map entries => 123 :: emitEntries entries

def emitItems : List Node → List UInt8
  | [] => [93]
  | node :: items => emit node ++ 44 :: emitItems items

def emitEntries : List (List UInt8 × Node) → List UInt8
  | [] => [125]
  | (key, node) :: entries =>
      34 :: (quoted key ++ 58 :: (emit node ++ 44 :: emitEntries entries))

end

/-! ## The way back -/

/-- What is in front of the closing quote, and what is behind. -/
def unquote (escaped : Bool) : List UInt8 → Option (List UInt8 × List UInt8)
  | [] => none
  | c :: text =>
      if escaped then (unquote false text).map fun r => (c :: r.1, r.2)
      else if c = 34 then some ([], text)
      else if c = 92 then unquote true text
      else (unquote false text).map fun r => (c :: r.1, r.2)

/-- The text behind a character. -/
def expect (c : UInt8) : List UInt8 → Option (List UInt8)
  | [] => none
  | d :: text => if d = c then some text else none

mutual

def parse : Nat → List UInt8 → Option (Node × List UInt8)
  | 0, _ => none
  | _, [] => none
  | fuel + 1, c :: text =>
      if c = 126 then some (.null, text)
      else if c = 34 then (unquote false text).map fun r => (.scalar r.1, r.2)
      else if c = 91 then (parseItems fuel text).map fun r => (.sequence r.1, r.2)
      else if c = 123 then (parseEntries fuel text).map fun r => (.map r.1, r.2)
      else none

def parseItems : Nat → List UInt8 → Option (List Node × List UInt8)
  | 0, _ => none
  | fuel + 1, text =>
      match expect 93 text with
      | some rest => some ([], rest)
      | none =>
          (parse fuel text).bind fun node =>
          (expect 44 node.2).bind fun text =>
          (parseItems fuel text).map fun items => (node.1 :: items.1, items.2)

def parseEntries : Nat → List UInt8 → Option (List (List UInt8 × Node) × List UInt8)
  | 0, _ => none
  | fuel + 1, text =>
      match expect 125 text with
      | some rest => some ([], rest)
      | none =>
          (expect 34 text).bind fun text =>
          (unquote false text).bind fun key =>
          (expect 58 key.2).bind fun text =>
          (parse fuel text).bind fun node =>
          (expect 44 node.2).bind fun text =>
          (parseEntries fuel text).map fun entries => ((key.1, node.1) :: entries.1, entries.2)

end

/-- The node that the whole text stands for. -/
def load (text : List UInt8) : Option Node :=
  match parse text.length text with
  | some (node, []) => some node
  | _ => none

theorem unquote_quoted (value rest : List UInt8) :
    unquote false (quoted value ++ rest) = some (value, rest) := by
  induction value with
  | nil => rfl
  | cons c value ih =>
      rw [quoted]
      by_cases hc : c = 34 ∨ c = 92
      · rw [if_pos hc]
        change (unquote false (quoted value ++ rest)).map _ = _
        rw [ih]
        rfl
      · rw [not_or] at hc
        rw [if_neg (not_or.mpr hc), List.cons_append, unquote, if_neg Bool.false_ne_true,
          if_neg hc.1, if_neg hc.2, ih]
        rfl

/-- The first characters of the texts. -/
theorem head_emit (node : Node) : ∃ c text, emit node = c :: text ∧
    (c = 126 ∨ c = 34 ∨ c = 91 ∨ c = 123) := by
  cases node with
  | null => exact ⟨_, _, rfl, by decide⟩
  | scalar value => exact ⟨_, _, rfl, by decide⟩
  | sequence items => exact ⟨_, _, rfl, by decide⟩
  | map entries => exact ⟨_, _, rfl, by decide⟩

theorem expect_emit (node : Node) (rest : List UInt8) : expect 93 (emit node ++ rest) = none := by
  obtain ⟨c, text, htext, hc⟩ := head_emit node
  have hne : c ≠ 93 := by
    rintro rfl
    revert hc
    decide
  rw [htext, List.cons_append, expect, if_neg hne]

mutual

/-- By induction over the node: a text as long as the fuel is read to its end. -/
theorem parse_emit {fuel : Nat} (node : Node) (rest : List UInt8)
    (hfuel : (emit node).length ≤ fuel) :
    parse fuel (emit node ++ rest) = some (node, rest) := by
  cases fuel with
  | zero =>
      obtain ⟨c, text, htext, _⟩ := head_emit node
      rw [htext] at hfuel
      exact absurd hfuel (Nat.not_succ_le_zero _)
  | succ fuel =>
      cases node with
      | null => rfl
      | scalar value =>
          change (unquote false (quoted value ++ rest)).map _ = _
          rw [unquote_quoted]
          rfl
      | sequence items =>
          change (parseItems fuel (emitItems items ++ rest)).map _ = _
          rw [parseItems_emit items rest (Nat.le_of_succ_le_succ hfuel)]
          rfl
      | map entries =>
          change (parseEntries fuel (emitEntries entries ++ rest)).map _ = _
          rw [parseEntries_emit entries rest (Nat.le_of_succ_le_succ hfuel)]
          rfl

theorem parseItems_emit {fuel : Nat} (items : List Node) (rest : List UInt8)
    (hfuel : (emitItems items).length ≤ fuel) :
    parseItems fuel (emitItems items ++ rest) = some (items, rest) := by
  cases fuel with
  | zero => cases items <;> simp [emitItems] at hfuel
  | succ fuel =>
      cases items with
      | nil => rfl
      | cons node items =>
          rw [emitItems, List.length_append, List.length_cons] at hfuel
          rw [emitItems, List.append_assoc, parseItems, expect_emit]
          change (parse fuel (emit node ++ 44 :: (emitItems items ++ rest))).bind _ = _
          rw [parse_emit node _ (by omega)]
          change (parseItems fuel (emitItems items ++ rest)).map _ = _
          rw [parseItems_emit items rest (by omega)]
          rfl

theorem parseEntries_emit {fuel : Nat} (entries : List (List UInt8 × Node)) (rest : List UInt8)
    (hfuel : (emitEntries entries).length ≤ fuel) :
    parseEntries fuel (emitEntries entries ++ rest) = some (entries, rest) := by
  cases fuel with
  | zero => cases entries <;> simp [emitEntries] at hfuel
  | succ fuel =>
      cases entries with
      | nil => rfl
      | cons entry entries =>
          obtain ⟨key, node⟩ := entry
          simp only [emitEntries, List.length_append, List.length_cons] at hfuel
          have hsplit : emitEntries ((key, node) :: entries) ++ rest =
              34 :: (quoted key ++
                (58 :: (emit node ++ (44 :: (emitEntries entries ++ rest))))) := by
            simp [emitEntries]
          rw [hsplit]
          change (unquote false (quoted key ++ _)).bind _ = _
          rw [unquote_quoted]
          change (parse fuel (emit node ++ 44 :: (emitEntries entries ++ rest))).bind _ = _
          rw [parse_emit node _ (by omega)]
          change (parseEntries fuel (emitEntries entries ++ rest)).map _ = _
          rw [parseEntries_emit entries rest (by omega)]
          rfl

end

theorem load_emit (node : Node) : load (emit node) = some node := by
  have hparse := parse_emit node [] (Nat.le_refl _)
  rw [List.append_nil] at hparse
  rw [load, hparse]

/-! ## A library -/

def intValue : List UInt8 → Int
  | [] => 0
  | c :: text => if c = 45 then -(numeralValue 10 text : Int) else numeralValue 10 (c :: text)

def decodeInt (text : List UInt8) : Option Int32 :=
  if intText (Int32.ofInt (intValue text)) == text then some (Int32.ofInt (intValue text)) else none

def decodeIndex (text : List UInt8) : Option Nat :=
  if numeral 10 (numeralValue 10 text) == text then some (numeralValue 10 text) else none

/-- Flow style but for some nodes, which have texts of their own. -/
def library (styles : List (Node × List UInt8)) : Library where
  emit n := ((styles.find? fun s => emit s.1 == emit n).map Prod.snd).getD (emit n)
  load t :=
    match styles.find? fun s => s.2 == t with
    | some s => some s.1
    | none => if t == [] then some .null else load t
  nullText := none
  encodeInt := intText
  decodeInt := decodeInt
  decodeIndex := decodeIndex

theorem intValue_intText (v : Int32) : intValue (intText v) = v.toInt := by
  have hvalue : numeralValue 10 (numeral 10 v.toInt.natAbs) = v.toInt.natAbs :=
    numeralValue_numeral (by decide) (by decide)
  rw [intText]
  by_cases hneg : v.toInt < 0
  · rw [if_pos hneg, intValue, if_pos rfl, hvalue]
    omega
  · rw [if_neg hneg]
    cases hdigits : numeral 10 v.toInt.natAbs with
    | nil =>
        have hpos : 0 < (numeral 10 v.toInt.natAbs).length := length_numeral_pos
        rw [hdigits] at hpos
        exact absurd hpos (Nat.lt_irrefl 0)
    | cons c digits =>
        have hsign : c ≠ 45 := by
          rintro rfl
          have hmem : (45 : UInt8) ∈ numeral 10 v.toInt.natAbs := by
            rw [hdigits]
            exact List.mem_cons_self
          have hdigit := isSome_of_mem_numeral (by decide) (by decide) hmem
          revert hdigit
          decide
        rw [intValue, if_neg hsign, ← hdigits, hvalue]
        omega

theorem decodeInt_intText (v : Int32) : decodeInt (intText v) = some v := by
  rw [decodeInt, intValue_intText, Int32.ofInt_toInt, if_pos (beq_self_eq_true _)]

/-- The text starts otherwise than one in flow style. -/
def isPlain (text : List UInt8) : Bool :=
  text.head?.all fun c => !(c == 126 || c == 34 || c == 91 || c == 123)

theorem emit_ne_of_isPlain {text : List UInt8} (h : isPlain text = true) (n : Node) :
    emit n ≠ text := by
  obtain ⟨c, t, htext, hc⟩ := head_emit n
  rintro rfl
  rw [isPlain, htext, List.head?_cons, Option.all_some] at h
  rcases hc with rfl | rfl | rfl | rfl
  · exact absurd h (by decide)
  · exact absurd h (by decide)
  · exact absurd h (by decide)
  · exact absurd h (by decide)

/-- What is loaded is the node that was emitted. -/
theorem library_load_emit {styles : List (Node × List UInt8)}
    (hnodup : (styles.map Prod.snd).Nodup)
    (hplain : ∀ text ∈ styles.map Prod.snd, isPlain text = true) (n : Node) :
    (library styles).load ((library styles).emit n) = some n := by
  have hne : ∀ s ∈ styles, emit n ≠ s.2 := fun s hs =>
    emit_ne_of_isPlain (hplain s.2 (List.mem_map_of_mem hs)) n
  cases hfind : styles.find? fun s => emit s.1 == emit n with
  | some s =>
      have hs := List.mem_of_find?_eq_some hfind
      have hemit := List.find?_some hfind
      have hnode : some s.1 = some n := by
        rw [← load_emit s.1, beq_iff_eq.mp hemit, load_emit]
      have htext : (library styles).emit n = s.2 := by
        rw [library]
        simp only [hfind, Option.map_some, Option.getD_some]
      rw [htext, ← hnode]
      cases hload : styles.find? fun s' => s'.2 == s.2 with
      | none =>
          exact absurd (beq_self_eq_true s.2) (List.find?_eq_none.mp hload s hs)
      | some s' =>
          have hsame := List.find?_some hload
          have hs' : s' = s := List.inj_on_of_nodup_map hnodup (List.mem_of_find?_eq_some hload) hs
            (beq_iff_eq.mp hsame)
          rw [library]
          simp only [hload, hs']
  | none =>
      have htext : (library styles).emit n = emit n := by
        rw [library]
        simp only [hfind, Option.map_none, Option.getD_none]
      have hload : (styles.find? fun s => s.2 == emit n) = none := by
        rw [List.find?_eq_none]
        intro s hs heq
        exact hne s hs (beq_iff_eq.mp heq).symm
      have hnil : ¬ (emit n == []) = true := by
        obtain ⟨c, t, h, _⟩ := head_emit n
        rw [h]
        exact Bool.false_ne_true
      rw [htext, library]
      simp only [hload, if_neg hnil]
      exact load_emit n

theorem library_load_nil {styles : List (Node × List UInt8)} (h : [] ∉ styles.map Prod.snd) :
    (library styles).load [] = some .null := by
  have hload : (styles.find? fun s => s.2 == []) = none := by
    rw [List.find?_eq_none]
    intro s hs heq
    exact h (beq_iff_eq.mp heq ▸ List.mem_map_of_mem hs)
  rw [library]
  simp only [hload]
  rfl

end Lyslg.YAML.Flow
