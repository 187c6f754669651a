import Lyslg.Http.Request
import Mathlib.Data.List.Basic
/-!
# YAML nodes

What the sources use of yaml-cpp.  A node that is not defined is `none`, and so is the result of a
call that throws.
-/

namespace Lyslg.YAML

/-- A `YAML::Node` that is defined.  A map has its entries in their order, each under the `Scalar()`
of its key. -/
inductive Node where
  | null
  | scalar (value : List UInt8)
  | sequence (items : List Node)
  | map (entries : List (List UInt8 × Node))

/-- The calls that are not in these sources. -/
structure Library where
  /-- `ss << node` -/
  emit : Node → List UInt8
  /-- `YAML::Load` -/
  load : List UInt8 → Option Node
  /-- `as<std::string>` of a null node, which throws before version 0.7 -/
  nullText : Option (List UInt8)
  encodeInt : Int32 → List UInt8
  decodeInt : List UInt8 → Option Int32
  /-- a key as a `size_t` -/
  decodeIndex : List UInt8 → Option Nat

namespace Node

/-- The entry that `node[key] = value` makes; without a value there is no assignment. -/
def entryOf (field : List UInt8 × Option Node) : Option (List UInt8 × Node) :=
  field.2.map fun value => (field.1, value)

/-- A default `YAML::Node` after the assignments to its members. -/
def ofFields (fields : List (List UInt8 × Option Node)) : Node :=
  let entries := fields.filterMap entryOf
  if entries.isEmpty then .null else .map entries

def isScalar : Node → Bool
  | .scalar _ => true
  | _ => false

/-- `Scalar()` -/
def scalarText : Node → List UInt8
  | .scalar value => value
  | _ => []

/-- `node[key]`, for a name that is no index. -/
def member (node : Option Node) (key : List UInt8) : Option (Option Node) :=
  match node with
  | some (.scalar _) => none
  | some (.map entries) => some ((entries.find? fun entry => entry.1 == key).map Prod.snd)
  | _ => some none

def size : Node → Nat
  | .sequence items => items.length
  | .map entries => entries.length
  | _ => 0

/-- `node[i]` for an `i` below `node.size()`. -/
def item (yaml : Library) (node : Node) (i : Nat) : Option Node :=
  match node with
  | .sequence items => items[i]?
  | .map entries =>
      (entries.find? fun entry => yaml.decodeIndex entry.1 == some i).map Prod.snd
  | _ => none

/-- `node[i]` for every `i` below `node.size()`, in this order. -/
def items (yaml : Library) (node : Node) : List (Option Node) :=
  (List.range node.size).map (node.item yaml)

/-- `node.as<std::string>()` -/
def asString (yaml : Library) : Option Node → Option (List UInt8)
  | some (.scalar value) => some value
  | some .null => yaml.nullText
  | _ => none

/-- `node.as<std::string>(fallback)` -/
def asStringOr (yaml : Library) (fallback : List UInt8) (node : Option Node) : List UInt8 :=
  (asString yaml node).getD fallback

/-- `node.as<int>(fallback)` -/
def asIntOr (yaml : Library) (fallback : Int32) : Option Node → Int32
  | some (.scalar value) => (yaml.decodeInt value).getD fallback
  | _ => fallback

/-- The entries that a loop over the node comes to; with one that is a sequence it throws. -/
def entries : Node → Option (List (List UInt8 × Node))
  | .map entries => some entries
  | .sequence (_ :: _) => none
  | _ => some []

variable {fields : List (List UInt8 × Option Node)} {key : List UInt8} {value : Option Node}

theorem mem_of_mem_entries {entry : List UInt8 × Node} (h : entry ∈ fields.filterMap entryOf) :
    entry.1 ∈ fields.map Prod.fst := by
  obtain ⟨field, hfield, hentry⟩ := List.mem_filterMap.mp h
  obtain ⟨value, _, rfl⟩ := Option.map_eq_some_iff.mp hentry
  exact List.mem_map.mpr ⟨field, hfield, rfl⟩

theorem find?_entries (hnodup : (fields.map Prod.fst).Nodup) (hmem : (key, value) ∈ fields) :
    ((fields.filterMap entryOf).find? fun entry => entry.1 == key).map Prod.snd = value := by
  induction fields with
  | nil => cases hmem
  | cons field fields ih =>
      rw [List.map_cons, List.nodup_cons] at hnodup
      rcases List.mem_cons.mp hmem with rfl | hrest
      · cases value with
        | some value =>
            have hentry : entryOf (key, some value) = some (key, value) := rfl
            rw [List.filterMap_cons_some hentry]
            simp only [List.find?_cons, beq_self_eq_true, Option.map_some]
        | none =>
            have hnone : ∀ entry ∈ fields.filterMap entryOf, ¬ (entry.1 == key) = true := by
              intro entry hentry heq
              exact hnodup.1 (beq_iff_eq.mp heq ▸ mem_of_mem_entries hentry)
            rw [List.filterMap_cons_none rfl, List.find?_eq_none.mpr hnone]
            rfl
      · have hne : field.1 ≠ key := by
          rintro rfl
          exact hnodup.1 (List.mem_map.mpr ⟨_, hrest, rfl⟩)
        rw [← ih hnodup.2 hrest]
        obtain ⟨name, value'⟩ := field
        cases value' with
        | none => rfl
        | some value' =>
            have hentry : entryOf (name, some value') = some (name, value') := rfl
            have hother : (name == key) = false := beq_eq_false_iff_ne.mpr hne
            rw [List.filterMap_cons_some hentry]
            simp only [List.find?_cons, hother]

/-- What is assigned is read back. -/
theorem member_ofFields (hnodup : (fields.map Prod.fst).Nodup) (hmem : (key, value) ∈ fields) :
    member (some (ofFields fields)) key = some value := by
  have hfind := find?_entries hnodup hmem
  rw [ofFields]
  generalize fields.filterMap entryOf = entries at hfind
  cases entries with
  | nil => exact congrArg some hfind
  | cons entry entries => exact congrArg some hfind

theorem items_sequence (yaml : Library) (nodes : List Node) :
    (Node.sequence nodes).items yaml = nodes.map some := by
  apply List.ext_getElem
  · rw [items, List.length_map, List.length_range, List.length_map]
    rfl
  · intro i hi hi'
    rw [List.length_map] at hi'
    have hitem : ((Node.sequence nodes).items yaml)[i] = nodes[i]? := by
      simp only [items, List.getElem_map, List.getElem_range]
      rfl
    rw [hitem, List.getElem_map, List.getElem?_eq_getElem hi']

end Node

end Lyslg.YAML
