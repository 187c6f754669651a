import Lyslg.ByteArray.Model
import Mathlib.Tactic.Ring
/-!
# The block loops, block by block

Each loop of `bytearray.cc` walks the chain from some block on.  Over blocks
of one common length it is a single access to the joined bytes, and the number
of `next` links it follows is the block distance the cursor travels.
-/

namespace Lyslg.ByteArray

open Support.Memory

variable {b : Nat} {blocks : List Block}

theorem length_flatten_blocks (hblocks : ∀ node ∈ blocks, node.length = b) :
    blocks.flatten.length = blocks.length * b := by
  induction blocks with
  | nil => simp
  | cons node next ih =>
      have hnode := hblocks node (by simp)
      have hnext := ih fun n hn => hblocks n (by simp [hn])
      simp only [List.flatten_cons, List.length_append, List.length_cons, hnode, hnext]
      ring

theorem store_of_le {node : Block} {npos : Nat} {buf : List UInt8}
    (h : npos + buf.length ≤ node.length) :
    store node npos buf = .ok (splice node npos buf) := by
  rw [store, if_pos h]

theorem load_of_le {node : Block} {npos size : Nat} (h : npos + size ≤ node.length) :
    load node npos size = .ok (slice node npos size) := by
  rw [load, if_pos h]

/-- Following `next` once per block that the access fills. -/
theorem moved_within (hb : 0 < b) (npos n : Nat) (h : npos + n ≤ b) :
    (if b = npos + n then 1 else 0) = (npos + n) / b := by
  by_cases heq : b = npos + n
  · rw [if_pos heq, ← heq, Nat.div_self hb]
  · rw [if_neg heq, Nat.div_eq_of_lt (by omega)]

theorem moved_across (hb : 0 < b) {npos n : Nat} (hnpos : npos < b) (h : b < npos + n) :
    (0 + (n - (b - npos))) / b + 1 = (npos + n) / b := by
  rw [(by omega : npos + n = (0 + (n - (b - npos))) + b), Nat.add_div_right _ hb]

theorem writeLoop_spec (hb : 0 < b) (hblocks : ∀ node ∈ blocks, node.length = b)
    {npos : Nat} (hnpos : npos < b) (buf : List UInt8)
    (hfit : npos + buf.length ≤ blocks.length * b ∨ buf = []) :
    ∃ blocks', writeLoop blocks npos buf = .ok (blocks', (npos + buf.length) / b) ∧
      blocks'.flatten = splice blocks.flatten npos buf ∧
      blocks'.length = blocks.length ∧ ∀ node ∈ blocks', node.length = b := by
  induction blocks generalizing npos buf with
  | nil =>
      have hnil : buf = [] := by
        rcases hfit with hfit | hnil
        · simp only [List.length_nil, Nat.zero_mul] at hfit
          exact List.length_eq_zero_iff.mp (by omega)
        · exact hnil
      subst hnil
      exact ⟨[], by simp [writeLoop, Nat.div_eq_of_lt hnpos], by simp, rfl, by simp⟩
  | cons node next ih =>
      have hnode := hblocks node (by simp)
      have hnext : ∀ n ∈ next, n.length = b := fun n hn => hblocks n (by simp [hn])
      cases hbuf : buf with
      | nil =>
          exact ⟨node :: next, by simp [writeLoop, Nat.div_eq_of_lt hnpos], by simp, rfl, hblocks⟩
      | cons x xs =>
          rw [← hbuf]
          have hpos : 0 < buf.length := by simp [hbuf]
          have hfit' : npos + buf.length ≤ (next.length + 1) * b := by
            rcases hfit with hfit | hnil
            · simpa using hfit
            · simp [hnil] at hpos
          by_cases hin : buf.length ≤ node.length - npos
          · -- the block takes the whole rest of the buffer
            refine ⟨splice node npos buf :: next, ?_, ?_, by simp, ?_⟩
            · rw [hbuf, writeLoop, ← hbuf]
              simp only [if_pos hin, store_of_le (by omega : npos + buf.length ≤ node.length)]
              rw [hnode, moved_within hb _ _ (by omega)]
              rfl
            · rw [List.flatten_cons, List.flatten_cons,
                splice_append_left _ _ _ _ (by omega)]
            · intro n hn
              rcases List.mem_cons.mp hn with rfl | hn
              · rw [length_splice _ _ _ (by omega), hnode]
              · exact hnext n hn
          · -- the block is filled and the loop goes on with `next`
            have htake : (buf.take (node.length - npos)).length = node.length - npos := by
              simp only [List.length_take]; omega
            have hdrop : (buf.drop (node.length - npos)).length
                = buf.length - (node.length - npos) := List.length_drop
            have hflat := length_flatten_blocks hnext
            have hmul : (next.length + 1) * b = next.length * b + b := by ring
            obtain ⟨next', hloop, hbytes, hlen, hlens⟩ :=
              ih hnext hb (buf.drop (node.length - npos)) (Or.inl (by rw [hdrop]; omega))
            refine ⟨splice node npos (buf.take (node.length - npos)) :: next', ?_, ?_, ?_, ?_⟩
            · rw [hbuf, writeLoop, ← hbuf]
              simp only [if_neg hin, store_of_le
                (by omega : npos + (buf.take (node.length - npos)).length ≤ node.length)]
              rw [hdrop, hnode] at hloop
              rw [← moved_across hb hnpos (by omega), hnode]
              change (do let p ← writeLoop next 0 (buf.drop (b - npos)); _) = _
              rw [hloop]
              rfl
            · rw [List.flatten_cons, List.flatten_cons, hbytes,
                splice_append_straddle _ _ _ _ (by omega) (by omega) (by omega)]
            · simp [hlen]
            · intro n hn
              rcases List.mem_cons.mp hn with rfl | hn
              · rw [length_splice _ _ _ (by omega), hnode]
              · exact hlens n hn

theorem readLoop_spec (hb : 0 < b) (hblocks : ∀ node ∈ blocks, node.length = b)
    {npos : Nat} (hnpos : npos < b) (size : Nat)
    (hfit : npos + size ≤ blocks.length * b ∨ size = 0) :
    readLoop blocks npos size = .ok (slice blocks.flatten npos size, (npos + size) / b) := by
  induction blocks generalizing npos size with
  | nil =>
      have hzero : size = 0 := by
        rcases hfit with hfit | hzero
        · simp at hfit; omega
        · exact hzero
      subst hzero
      simp [readLoop, Nat.div_eq_of_lt hnpos]
  | cons node next ih =>
      have hnode := hblocks node (by simp)
      have hnext : ∀ n ∈ next, n.length = b := fun n hn => hblocks n (by simp [hn])
      cases size with
      | zero => simp [readLoop, Nat.div_eq_of_lt hnpos]
      | succ n =>
          have hfit' : npos + (n + 1) ≤ (next.length + 1) * b := by
            rcases hfit with hfit | hzero
            · simpa using hfit
            · omega
          rw [readLoop, List.flatten_cons]
          by_cases hin : n + 1 ≤ node.length - npos
          · simp only [if_pos hin, load_of_le (by omega : npos + (n + 1) ≤ node.length)]
            rw [slice_append_left _ _ _ _ (by omega), hnode, moved_within hb _ _ (by omega)]
            rfl
          · have hmul : (next.length + 1) * b = next.length * b + b := by ring
            have hloop := ih hnext hb (n + 1 - (node.length - npos)) (Or.inl (by omega))
            simp only [if_neg hin, load_of_le
              (by omega : npos + (node.length - npos) ≤ node.length)]
            rw [slice_append_straddle _ _ _ _ (by omega) (by omega),
              ← moved_across hb hnpos (by omega)]
            rw [hnode] at hloop ⊢
            change (do let p ← readLoop next 0 (n + 1 - (b - npos)); _) = _
            rw [hloop]
            rfl

theorem seekLoop_spec (hb : 0 < b) (hblocks : ∀ node ∈ blocks, node.length = b)
    (hne : blocks ≠ []) {v : Nat} (hfit : v ≤ blocks.length * b) :
    seekLoop blocks v = .ok (v / b) := by
  induction blocks generalizing v with
  | nil => exact absurd rfl hne
  | cons node next ih =>
      have hnode := hblocks node (by simp)
      have hnext : ∀ n ∈ next, n.length = b := fun n hn => hblocks n (by simp [hn])
      have hmul : (next.length + 1) * b = next.length * b + b := by ring
      simp only [List.length_cons] at hfit
      rw [seekLoop, hnode]
      by_cases hlt : b < v
      · have hne' : next ≠ [] := by
          rintro rfl
          simp at hfit
          omega
        rw [if_pos hlt, ih hnext hne' (by omega)]
        change Except.ok ((v - b) / b + 1) = _
        rw [← Nat.add_div_right _ hb, Nat.sub_add_cancel (by omega)]
      · rw [if_neg hlt]
        have hmoved := moved_within hb 0 v (by omega)
        rw [Nat.zero_add] at hmoved
        simp only [eq_comm (a := v), hmoved]
        rfl

/-- The allocation loop in closed form. -/
theorem appendNodes_eq (garbage : Garbage) (count : Nat) (ba : ByteArray) :
    appendNodes garbage count ba =
      { ba with
        root := ba.root ++ (List.range count).map fun k => newNode (garbage k) ba.baseSize
        capacity := ba.capacity + count * ba.baseSize } := by
  induction count with
  | zero => simp [appendNodes]
  | succ count ih =>
      rw [appendNodes, ih]
      simp only [List.range_succ, List.map_append, List.map_cons, List.map_nil,
        List.append_assoc, Nat.add_mul, Nat.one_mul, Nat.add_assoc]

end Lyslg.ByteArray
