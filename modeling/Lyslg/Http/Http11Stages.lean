import Lyslg.Http.Http11Table
/-!
# The stages of the HTTP request machine

The machine goes through a head in stages, in the order of the grammar: the method, the
path, the query and the fragment if there are any, the version, and the headers.
`transitions_sound` checks the table: a transition moves on as its callbacks say, and a
callback reads only marks that were set.
-/

namespace Lyslg.Http11

/-! ## Stages -/

/-- What part of the head a state is in. -/
inductive Stage where
  | method | path | query | fragment | version | headers | socket
  deriving DecidableEq, Repr

def stage (cs : Nat) : Stage :=
  if cs ≤ 2 ∨ (175 ≤ cs ∧ cs ≤ 193) then .method
  else if cs = 3 ∨ cs = 19 ∨ (24 ≤ cs ∧ cs ≤ 28) ∨ (33 ≤ cs ∧ cs ≤ 174) then .path
  else if cs ≤ 12 then .version
  else if cs ≤ 18 ∨ cs = 348 then .headers
  else if cs ≤ 23 then .fragment
  else if cs ≤ 32 then .query
  else .socket

/-- The actions that call back. -/
def Action.calls : Action → Bool
  | .requestMethod | .requestUri | .fragment | .requestPath | .queryString | .httpVersion
  | .writeValue => true
  | _ => false

/-- The stages a transition may lead to, by the callbacks it makes. -/
def Stage.leads : Stage → List Action → List Stage
  | .method, [] => [.method]
  | .method, [.requestMethod] => [.path]
  | .path, [] => [.path]
  | .path, [.requestPath] => [.query]
  | .path, [.requestPath, .requestUri] => [.fragment, .version]
  | .query, [] => [.query]
  | .query, [.queryString, .requestUri] => [.fragment, .version]
  | .fragment, [] => [.fragment]
  | .fragment, [.fragment] => [.version]
  | .version, [] => [.version]
  | .version, [.httpVersion] => [.headers]
  | .headers, [] => [.headers]
  | .headers, [.writeValue] => [.headers]
  | _, _ => []

theorem Stage.leads_method {st : Stage} {actions : List Action}
    (h : st ∈ Stage.leads .method actions) :
    (actions = [] ∧ st = .method) ∨ (actions = [.requestMethod] ∧ st = .path) := by
  unfold Stage.leads at h
  split at h
  case h_1 => exact .inl ⟨rfl, List.mem_singleton.mp h⟩
  case h_2 => exact .inr ⟨rfl, List.mem_singleton.mp h⟩
  all_goals contradiction

/-! ## Which marks are set -/

/-- Whether `query_start` and `field_len` belong to the head. -/
structure Known where
  query : Bool
  fieldLen : Bool
  deriving DecidableEq, Repr

def known (cs : Nat) : Known := ⟨30 ≤ cs ∧ cs ≤ 32, cs = 15 ∨ cs = 16⟩

theorem stage_of_known_query {cs : Nat} (h : (known cs).query) : stage cs = .query := by
  simp only [known, decide_eq_true_eq] at h
  unfold stage
  rw [if_neg (by omega), if_neg (by omega), if_neg (by omega), if_neg (by omega),
    if_neg (by omega), if_pos (by omega)]

/-- An action, which may only read marks that are set. -/
def Known.after (k : Known) : Action → Option Known
  | .startQuery => some { k with query := true }
  | .queryString => if k.query then some k else none
  | .startField => some { k with fieldLen := false }
  | .writeField => some { k with fieldLen := true }
  | .writeValue => if k.fieldLen then some k else none
  | _ => some k

def Known.covers (k k' : Known) : Bool := (!k'.query || k.query) && (!k'.fieldLen || k.fieldLen)

/-! ## Every transition keeps to this -/

/-- What the table says about each of its transitions. -/
structure Transition.Sound (cs : Nat) (t : Transition) : Prop where
  target : t.target ≠ 0
  final : 348 ≤ t.target → .done ∈ t.actions
  space : .requestMethod ∈ t.actions → t.bytes = [(32, 32)]
  socket : stage cs = .socket → stage t.target = .socket
  leads : stage t.target ≠ .socket →
    stage t.target ∈ (stage cs).leads (t.actions.filter Action.calls)
  marks : stage t.target ≠ .socket →
    (t.actions.foldlM Known.after (known cs)).any fun k => k.covers (known t.target)

instance (cs : Nat) (t : Transition) : Decidable (t.Sound cs) :=
  decidable_of_iff
    (t.target ≠ 0 ∧ (348 ≤ t.target → .done ∈ t.actions) ∧
      (.requestMethod ∈ t.actions → t.bytes = [(32, 32)]) ∧
      (stage cs = .socket → stage t.target = .socket) ∧
      (stage t.target ≠ .socket →
        stage t.target ∈ (stage cs).leads (t.actions.filter Action.calls)) ∧
      (stage t.target ≠ .socket →
        (t.actions.foldlM Known.after (known cs)).any fun k => k.covers (known t.target)))
    ⟨fun ⟨a, b, c, d, e, f⟩ => ⟨a, b, c, d, e, f⟩, fun ⟨a, b, c, d, e, f⟩ => ⟨a, b, c, d, e, f⟩⟩

theorem transitions_sound : ∀ row ∈ transitions, ∀ t ∈ row.2, t.Sound row.1 := by
  decide +kernel

theorem next_mem {relaxed : Bool} {cs : Nat} {c : UInt8} {t : Transition}
    (h : next relaxed cs c = some t) :
    (∃ ts, (cs, ts) ∈ transitions ∧ t ∈ ts) ∧ t.takes relaxed c = true := by
  unfold next at h
  refine ⟨?_, List.find?_some h⟩
  have hmem := List.mem_of_find?_eq_some h
  cases hrow : transitions.lookup cs with
  | none =>
      rw [hrow] at hmem
      cases hmem
  | some ts =>
      rw [hrow] at hmem
      obtain ⟨before, after, hsplit, _⟩ := List.lookup_eq_some_iff.mp hrow
      refine ⟨ts, ?_, hmem⟩
      rw [hsplit]
      exact List.mem_append_right before List.mem_cons_self

theorem next_sound {relaxed : Bool} {cs : Nat} {c : UInt8} {t : Transition}
    (h : next relaxed cs c = some t) : t.Sound cs := by
  obtain ⟨⟨ts, hrow, ht⟩, _⟩ := next_mem h
  exact transitions_sound (cs, ts) hrow t ht

/-- The method ends at a space. -/
theorem next_method_space {relaxed : Bool} {cs : Nat} {c : UInt8} {t : Transition}
    (h : next relaxed cs c = some t) (hmethod : .requestMethod ∈ t.actions) : c = 32 := by
  have htakes := (next_mem h).2
  unfold Transition.takes at htakes
  rw [(next_sound h).space hmethod] at htakes
  simp only [List.any_cons, List.any_nil, Bool.or_false, Bool.and_eq_true, decide_eq_true_eq]
    at htakes
  exact UInt8.toNat_inj.mp (Nat.le_antisymm htakes.1.2 htakes.1.1)

end Lyslg.Http11
