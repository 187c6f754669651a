/-!
# A write position in memory of a fixed size

What is stored through a pointer that goes up with every store.  A store behind the memory has
no result.
-/

namespace Lyslg.Support

structure Cursor (α : Type) where
  memory : List α
  pos : Nat
  deriving DecidableEq, Repr

namespace Cursor

variable {α : Type} {out free xs : List α} {x : α}

/-- `*p++ = x` -/
def put (o : Cursor α) (x : α) : Option (Cursor α) :=
  if o.pos < o.memory.length then some ⟨o.memory.set o.pos x, o.pos + 1⟩ else none

/-- What is in front of the position. -/
def written (o : Cursor α) : List α := o.memory.take o.pos

/-- The position behind `out`, with `free` still to be overwritten. -/
def behind (out free : List α) : Cursor α := ⟨out ++ free, out.length⟩

theorem written_behind : (behind out free).written = out := by
  exact List.take_left

theorem put_behind (h : 0 < free.length) :
    (behind out free).put x = some (behind (out ++ [x]) (free.drop 1)) := by
  cases free with
  | nil => cases h
  | cons y free =>
      have hlt : out.length < (out ++ y :: free).length := by
        rw [List.length_append]
        exact Nat.lt_add_of_pos_right h
      rw [put, behind, behind, if_pos hlt, List.set_append_right _ _ (Nat.le_refl _), Nat.sub_self,
        List.set_cons_zero, List.append_assoc, List.length_append]
      rfl

end Cursor

end Lyslg.Support
