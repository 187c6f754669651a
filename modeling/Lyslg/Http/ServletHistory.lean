import Lyslg.Http.Servlet
import Lyslg.Support.Live
import Mathlib.Data.List.Induction
/-!
# What a history of registrations leaves

The servlet for a path is told from the sequence of registrations alone.  A registration of a path
lives until the path is registered again or deleted; of the patterns that live, the one that has
been registered for the longest time is tried first.
-/

namespace Lyslg.Http

open Support

/-- A call that changes a `ServletDispatch`, with a servlet that is not null. -/
inductive Registration (σ : Type) where
  | addServlet (uri : List UInt8) (slt : σ)
  | delServlet (uri : List UInt8)
  | addGlobServlet (uri : List UInt8) (slt : σ)
  | delGlobServlet (uri : List UInt8)

variable {σ : Type}

/-- The call is about the exact path. -/
def Registration.Exact (uri : List UInt8) : Registration σ → Prop
  | .addServlet uri' _ => uri' = uri
  | .delServlet uri' => uri' = uri
  | _ => False

/-- The call is about the pattern. -/
def Registration.Glob (pattern : List UInt8) : Registration σ → Prop
  | .addGlobServlet pattern' _ => pattern' = pattern
  | .delGlobServlet pattern' => pattern' = pattern
  | _ => False

/-- At `i` the servlet was registered for the path, and not replaced or deleted since. -/
def LiveExact (history : List (Registration σ)) (uri : List UInt8) (slt : σ) (i : Nat) : Prop :=
  Live history (.addServlet uri slt) (Registration.Exact uri) i

/-- At `i` the servlet was registered for the pattern, and not replaced or deleted since. -/
def LiveGlob (history : List (Registration σ)) (pattern : List UInt8) (slt : σ) (i : Nat) : Prop :=
  Live history (.addGlobServlet pattern slt) (Registration.Glob pattern) i

/-- The servlet that is to be found for a path after a history. -/
inductive Dispatched (fnmatch : List UInt8 → List UInt8 → Bool) (notFound : σ)
    (history : List (Registration σ)) (uri : List UInt8) : σ → Prop where
  | exact {slt : σ} {i : Nat} : LiveExact history uri slt i →
      Dispatched fnmatch notFound history uri slt
  | glob {pattern : List UInt8} {slt : σ} {i : Nat} :
      (∀ slt' j, ¬ LiveExact history uri slt' j) →
      LiveGlob history pattern slt i → fnmatch (cStr pattern) (cStr uri) = true →
      (∀ pattern' slt' j, LiveGlob history pattern' slt' j →
        fnmatch (cStr pattern') (cStr uri) = true → i ≤ j) →
      Dispatched fnmatch notFound history uri slt
  | notFound : (∀ slt j, ¬ LiveExact history uri slt j) →
      (∀ pattern slt j, LiveGlob history pattern slt j →
        fnmatch (cStr pattern) (cStr uri) = false) →
      Dispatched fnmatch notFound history uri notFound

section Live

variable {history : List (Registration σ)} {op : Registration σ} {uri pattern : List UInt8}
  {slt slt' : σ} {i j : Nat}

theorem LiveExact.unique (h : LiveExact history uri slt i) (h' : LiveExact history uri slt' j) :
    slt = slt' := by
  have hij : i = j := Live.unique h h' rfl rfl
  subst hij
  exact (Registration.addServlet.inj (Live.event_eq h h')).2

/-- A call that is about patterns leaves the exact paths alone. -/
theorem liveExact_other (hother : ∀ uri, ¬ op.Exact uri) :
    LiveExact (history ++ [op]) uri slt i ↔ LiveExact history uri slt i := by
  rw [LiveExact, live_concat, and_iff_left (hother uri)]
  apply or_iff_right
  rintro ⟨_, rfl⟩
  exact hother uri rfl

/-- A call that is about an exact path leaves the patterns alone. -/
theorem liveGlob_other (hother : ∀ pattern, ¬ op.Glob pattern) :
    LiveGlob (history ++ [op]) pattern slt i ↔ LiveGlob history pattern slt i := by
  rw [LiveGlob, live_concat, and_iff_left (hother pattern)]
  apply or_iff_right
  rintro ⟨_, rfl⟩
  exact hother pattern rfl

end Live

namespace ServletDispatch

/-- Make a call. -/
def register (d : ServletDispatch σ) : Registration σ → ServletDispatch σ
  | .addServlet uri slt => d.addServlet uri (some slt)
  | .delServlet uri => d.delServlet uri
  | .addGlobServlet uri slt => d.addGlobServlet uri (some slt)
  | .delGlobServlet uri => d.delGlobServlet uri

/-- A fresh dispatch after a history of calls. -/
def registered (notFound : σ) (history : List (Registration σ)) : ServletDispatch σ :=
  history.foldl register (new notFound)

theorem registered_concat (notFound : σ) (history : List (Registration σ)) (op : Registration σ) :
    registered notFound (history ++ [op]) = (registered notFound history).register op := by
  rw [registered, List.foldl_append]
  rfl

/-! ## What is in the two tables -/

/-- An entry of `m_globs` with the time of its registration. -/
structure Dated (σ : Type) where
  pattern : List UInt8
  slt : σ
  time : Nat

def Dated.entry (g : Dated σ) : List UInt8 × Option σ := (g.pattern, some g.slt)

/-- The tables hold what lives, and the patterns in the order of their registration. -/
structure Follows (notFound : σ) (history : List (Registration σ)) (d : ServletDispatch σ)
    (dated : List (Dated σ)) : Prop where
  datas : ∀ uri v, (uri, v) ∈ d.datas ↔ ∃ slt i, v = some slt ∧ LiveExact history uri slt i
  globs : d.globs = dated.map Dated.entry
  live : ∀ g, g ∈ dated ↔ LiveGlob history g.pattern g.slt g.time
  ordered : dated.Pairwise fun a b => a.time < b.time
  dflt : d.dflt = some notFound

section Follows

variable {notFound : σ} {history : List (Registration σ)} {d : ServletDispatch σ}
  {dated : List (Dated σ)} {uri pattern : List UInt8} {slt slt' : σ} {i j : Nat}

/-- No pattern is there twice. -/
theorem Follows.nodup (h : Follows notFound history d dated) : (dated.map Dated.pattern).Nodup := by
  rw [List.Nodup, List.pairwise_map]
  apply h.ordered.imp_of_mem
  intro a b ha hb hlt heq
  have hlive := (h.live a).mp ha
  rw [heq] at hlive
  have htime : a.time = b.time := Live.unique hlive ((h.live b).mp hb) rfl rfl
  omega

theorem Follows.eraseP_globs (h : Follows notFound history d dated) (pattern : List UInt8) :
    (d.globs.eraseP fun entry => entry.1 = pattern) =
      (dated.filter fun g => g.pattern ≠ pattern).map Dated.entry := by
  rw [h.globs, List.eraseP_map, ← eraseP_eq_filter h.nodup]
  rfl

theorem follows_new (notFound : σ) : Follows notFound [] (new notFound) [] where
  datas := by
    intro uri v
    refine iff_of_false List.not_mem_nil ?_
    rintro ⟨slt, i, _, hlive⟩
    exact not_live_nil hlive
  globs := rfl
  live := fun g => iff_of_false List.not_mem_nil not_live_nil
  ordered := List.Pairwise.nil
  dflt := rfl

/-! ## One more call -/

theorem Follows.addServlet (h : Follows notFound history d dated) (uri : List UInt8) (slt : σ) :
    Follows notFound (history ++ [.addServlet uri slt]) (d.addServlet uri (some slt)) dated where
  datas := by
    intro uri' v
    have hentry : (uri', v) ∈ (d.addServlet uri (some slt)).datas ↔
        (uri' = uri ∧ v = some slt) ∨ (uri', v) ∈ d.datas ∧ uri' ≠ uri := by
      simp [ServletDispatch.addServlet]
    rw [hentry, h.datas]
    constructor
    · rintro (⟨rfl, rfl⟩ | ⟨⟨slt', i, rfl, hlive⟩, hne⟩)
      · exact ⟨slt, history.length, rfl, live_concat.mpr (Or.inl ⟨rfl, rfl⟩)⟩
      · exact ⟨slt', i, rfl, live_concat.mpr (Or.inr ⟨hlive, Ne.symm hne⟩)⟩
    · rintro ⟨slt', i, rfl, hlive⟩
      rcases live_concat.mp hlive with ⟨_, hnew⟩ | ⟨hold, hne⟩
      · obtain ⟨rfl, rfl⟩ := Registration.addServlet.inj hnew
        exact Or.inl ⟨rfl, rfl⟩
      · exact Or.inr ⟨⟨slt', i, rfl, hold⟩, Ne.symm hne⟩
  globs := h.globs
  live := fun g => (h.live g).trans (liveGlob_other fun _ => id).symm
  ordered := h.ordered
  dflt := h.dflt

theorem Follows.delServlet (h : Follows notFound history d dated) (uri : List UInt8) :
    Follows notFound (history ++ [.delServlet uri]) (d.delServlet uri) dated where
  datas := by
    intro uri' v
    have hentry : (uri', v) ∈ (d.delServlet uri).datas ↔ (uri', v) ∈ d.datas ∧ uri' ≠ uri := by
      simp [ServletDispatch.delServlet]
    rw [hentry, h.datas]
    constructor
    · rintro ⟨⟨slt, i, rfl, hlive⟩, hne⟩
      exact ⟨slt, i, rfl, live_concat.mpr (Or.inr ⟨hlive, Ne.symm hne⟩)⟩
    · rintro ⟨slt, i, rfl, hlive⟩
      rcases live_concat.mp hlive with ⟨_, hnew⟩ | ⟨hold, hne⟩
      · cases hnew
      · exact ⟨⟨slt, i, rfl, hold⟩, Ne.symm hne⟩
  globs := h.globs
  live := fun g => (h.live g).trans (liveGlob_other fun _ => id).symm
  ordered := h.ordered
  dflt := h.dflt

theorem Follows.addGlobServlet (h : Follows notFound history d dated) (uri : List UInt8) (slt : σ) :
    Follows notFound (history ++ [.addGlobServlet uri slt]) (d.addGlobServlet uri (some slt))
      ((dated.filter fun g => g.pattern ≠ uri) ++ [⟨uri, slt, history.length⟩]) where
  datas := by
    intro uri' v
    have hother : ∀ slt' i, LiveExact (history ++ [.addGlobServlet uri slt]) uri' slt' i ↔
        LiveExact history uri' slt' i := fun _ _ => liveExact_other fun _ => id
    simp only [hother]
    exact h.datas uri' v
  globs := by
    rw [List.map_append, ← h.eraseP_globs]
    rfl
  live := by
    intro g
    rw [LiveGlob, live_concat, List.mem_append, List.mem_filter, List.mem_singleton,
      decide_eq_true_eq, h.live]
    constructor
    · rintro (⟨hlive, hne⟩ | rfl)
      · exact Or.inr ⟨hlive, Ne.symm hne⟩
      · exact Or.inl ⟨rfl, rfl⟩
    · rintro (⟨htime, hnew⟩ | ⟨hlive, hne⟩)
      · obtain ⟨hpattern, hslt⟩ := Registration.addGlobServlet.inj hnew
        refine Or.inr ?_
        rw [hpattern, hslt, ← htime]
      · exact Or.inl ⟨hlive, Ne.symm hne⟩
  ordered := by
    refine List.pairwise_append.mpr ⟨h.ordered.filter _, List.pairwise_singleton _ _, ?_⟩
    intro a ha b hb
    rw [List.mem_singleton.mp hb]
    exact Live.lt ((h.live a).mp (List.mem_of_mem_filter ha))
  dflt := h.dflt

theorem Follows.delGlobServlet (h : Follows notFound history d dated) (uri : List UInt8) :
    Follows notFound (history ++ [.delGlobServlet uri]) (d.delGlobServlet uri)
      (dated.filter fun g => g.pattern ≠ uri) where
  datas := by
    intro uri' v
    have hother : ∀ slt i, LiveExact (history ++ [.delGlobServlet uri]) uri' slt i ↔
        LiveExact history uri' slt i := fun _ _ => liveExact_other fun _ => id
    simp only [hother]
    exact h.datas uri' v
  globs := h.eraseP_globs uri
  live := by
    intro g
    rw [LiveGlob, live_concat, List.mem_filter, decide_eq_true_eq, h.live]
    constructor
    · rintro ⟨hlive, hne⟩
      exact Or.inr ⟨hlive, Ne.symm hne⟩
    · rintro (⟨_, hnew⟩ | ⟨hlive, hne⟩)
      · cases hnew
      · exact ⟨hlive, Ne.symm hne⟩
  ordered := h.ordered.filter _
  dflt := h.dflt

/-- By induction over the history, from its end. -/
theorem registered_follows (notFound : σ) (history : List (Registration σ)) :
    ∃ dated, Follows notFound history (registered notFound history) dated := by
  induction history using List.reverseRecOn with
  | nil => exact ⟨[], follows_new notFound⟩
  | append_singleton history op ih =>
      obtain ⟨dated, h⟩ := ih
      rw [registered_concat]
      cases op with
      | addServlet uri slt => exact ⟨_, h.addServlet uri slt⟩
      | delServlet uri => exact ⟨_, h.delServlet uri⟩
      | addGlobServlet uri slt => exact ⟨_, h.addGlobServlet uri slt⟩
      | delGlobServlet uri => exact ⟨_, h.delGlobServlet uri⟩

end Follows

/-! ## What is found -/

section Found

variable {notFound : σ} {history : List (Registration σ)} {d : ServletDispatch σ}
  {dated : List (Dated σ)} {fnmatch : List UInt8 → List UInt8 → Bool} {uri pattern : List UInt8}
  {slt slt' : σ}

theorem Dispatched.unique (h : Dispatched fnmatch notFound history uri slt)
    (h' : Dispatched fnmatch notFound history uri slt') : slt = slt' := by
  cases h with
  | exact hlive =>
      cases h' with
      | exact hlive' => exact LiveExact.unique hlive hlive'
      | glob hnone _ _ _ => exact absurd hlive (hnone _ _)
      | notFound hnone _ => exact absurd hlive (hnone _ _)
  | glob hnone hlive hmatch hfirst =>
      cases h' with
      | exact hlive' => exact absurd hlive' (hnone _ _)
      | glob _ hlive' hmatch' hfirst' =>
          have hle := hfirst _ _ _ hlive' hmatch'
          have hle' := hfirst' _ _ _ hlive hmatch
          have htime := Nat.le_antisymm hle hle'
          subst htime
          exact (Registration.addGlobServlet.inj (Live.event_eq hlive hlive')).2
      | notFound _ hmiss =>
          rw [hmiss _ _ _ hlive] at hmatch
          cases hmatch
  | notFound hnone hmiss =>
      cases h' with
      | exact hlive' => exact absurd hlive' (hnone _ _)
      | glob _ hlive' hmatch' _ =>
          rw [hmiss _ _ _ hlive'] at hmatch'
          cases hmatch'
      | notFound _ _ => rfl

/-- What `getMatchedServlet` finds in tables that hold what lives. -/
theorem Follows.getMatchedServlet (h : Follows notFound history d dated)
    (fnmatch : List UInt8 → List UInt8 → Bool) (uri : List UInt8) :
    ∃ slt, d.getMatchedServlet fnmatch uri = some slt ∧
      Dispatched fnmatch notFound history uri slt := by
  unfold ServletDispatch.getMatchedServlet
  cases hexact : d.datas.find? fun entry => entry.1 = uri with
  | some entry =>
      obtain ⟨uri', v⟩ := entry
      have huri : uri' = uri := by simpa using List.find?_some hexact
      obtain ⟨slt, i, hv, hlive⟩ := (h.datas uri' v).mp (List.mem_of_find?_eq_some hexact)
      rw [huri] at hlive
      exact ⟨slt, hv, .exact hlive⟩
  | none =>
      have hnone : ∀ slt j, ¬ LiveExact history uri slt j := by
        intro slt j hlive
        have hmem := (h.datas uri (some slt)).mpr ⟨slt, j, rfl, hlive⟩
        have hmiss := List.find?_eq_none.mp hexact _ hmem
        exact hmiss (decide_eq_true rfl)
      rw [h.globs, List.find?_map]
      cases hglob : dated.find?
          ((fun entry => fnmatch (cStr entry.1) (cStr uri)) ∘ Dated.entry) with
      | some g =>
          obtain ⟨hmatch, before, after, hsplit, hmiss⟩ := List.find?_eq_some_iff_append.mp hglob
          have hg : g ∈ dated := List.mem_of_find?_eq_some hglob
          refine ⟨g.slt, rfl, .glob hnone ((h.live g).mp hg) hmatch ?_⟩
          intro pattern slt j hlive hother
          have hmem := (h.live ⟨pattern, slt, j⟩).mpr hlive
          have hordered := h.ordered
          rw [hsplit] at hmem hordered
          rcases List.mem_append.mp hmem with hbefore | hmem
          · have hnot := hmiss _ hbefore
            rw [Function.comp_apply, Dated.entry, hother] at hnot
            cases hnot
          · rcases List.mem_cons.mp hmem with rfl | hafter
            · exact Nat.le_refl _
            · have hrest := (List.pairwise_append.mp hordered).2.1
              exact Nat.le_of_lt ((List.pairwise_cons.mp hrest).1 _ hafter)
      | none =>
          refine ⟨notFound, h.dflt, .notFound hnone ?_⟩
          intro pattern slt j hlive
          have hmiss := List.find?_eq_none.mp hglob _ ((h.live ⟨pattern, slt, j⟩).mpr hlive)
          exact Bool.eq_false_iff.mpr hmiss

theorem Follows.getGlobServlet (h : Follows notFound history d dated) (pattern : List UInt8)
    (slt : σ) : d.getGlobServlet pattern = some slt ↔ ∃ i, LiveGlob history pattern slt i := by
  unfold ServletDispatch.getGlobServlet
  rw [h.globs, List.find?_map]
  cases hglob : dated.find? ((fun entry => decide (entry.1 = pattern)) ∘ Dated.entry) with
  | some g =>
      have htest := List.find?_some hglob
      have hpattern : g.pattern = pattern := of_decide_eq_true htest
      have hlive := (h.live g).mp (List.mem_of_find?_eq_some hglob)
      rw [hpattern] at hlive
      constructor
      · intro hslt
        rw [← Option.some.inj hslt]
        exact ⟨g.time, hlive⟩
      · rintro ⟨i, hlive'⟩
        have htime : g.time = i := Live.unique hlive hlive' rfl rfl
        rw [htime] at hlive
        exact congrArg some (Registration.addGlobServlet.inj (Live.event_eq hlive hlive')).2
  | none =>
      refine iff_of_false (fun hnone => Option.some_ne_none slt hnone.symm) ?_
      rintro ⟨i, hlive⟩
      have hmiss := List.find?_eq_none.mp hglob _ ((h.live ⟨pattern, slt, i⟩).mpr hlive)
      exact hmiss (decide_eq_true rfl)

end Found

/-- The servlet that is found is the one the history tells, and a pattern has one entry. -/
theorem getMatchedServlet_history (fnmatch : List UInt8 → List UInt8 → Bool) (notFound : σ)
    (history : List (Registration σ)) :
    (∀ uri slt, (registered notFound history).getMatchedServlet fnmatch uri = some slt ↔
      Dispatched fnmatch notFound history uri slt) ∧
    (∀ uri, ((registered notFound history).getMatchedServlet fnmatch uri).isSome = true) ∧
    ((registered notFound history).globs.map Prod.fst).Nodup ∧
    (∀ pattern slt, (registered notFound history).getGlobServlet pattern = some slt ↔
      ∃ i, LiveGlob history pattern slt i) ∧
    ∀ pattern, ((registered notFound history).delGlobServlet pattern).globs =
      (registered notFound history).globs.filter fun entry => entry.1 ≠ pattern := by
  obtain ⟨dated, h⟩ := registered_follows notFound history
  have hpatterns : ((registered notFound history).globs.map Prod.fst).Nodup := by
    rw [h.globs, List.map_map]
    exact h.nodup
  refine ⟨?_, ?_, hpatterns, h.getGlobServlet, ?_⟩
  · intro uri slt
    obtain ⟨found, hfound, hdispatched⟩ := h.getMatchedServlet fnmatch uri
    rw [hfound]
    constructor
    · intro heq
      rw [← Option.some.inj heq]
      exact hdispatched
    · intro hslt
      exact congrArg some (Dispatched.unique hdispatched hslt)
  · intro uri
    obtain ⟨found, hfound, _⟩ := h.getMatchedServlet fnmatch uri
    rw [hfound]
    rfl
  · intro pattern
    exact eraseP_eq_filter hpatterns pattern

end ServletDispatch

end Lyslg.Http
