import Mathlib.Data.List.Nodup
import Mathlib.Data.List.Rotate

/-! # Bounded backtracking over labelled cycles

    A network lists the edges out of every vertex and labels each edge.
    `closures` is the search that extends a path edge by edge, never repeats a
    label, stops a branch as soon as it is back at the target and gives up
    after `k` edges.  **`mem_closures_iff_cycle`**: from the empty path at the
    target it lists exactly the label-simple cycles of at most `k` edges that
    return to the target only at their end (a first edge that is a loop at the
    target apart, which is not yet a cycle).  **`closures_nodup`**: each once.
    A cycle that leaves no vertex twice is known by its edges: in another order
    they make the same cycle, begun elsewhere (`rotated_of_perm`). -/

namespace Backtracking

/-- A directed multigraph with labelled edges, read from its sources. -/
structure Network (V E L : Type) where
  out : V → List E
  dest : E → V
  label : E → L

variable {V E L : Type} (N : Network V E L)

/-! ## Trails and cycles -/

/-- The edges `es` can be followed one after the other from `v`. -/
def Network.Trail : V → List E → Prop
  | _, [] => True
  | v, e :: es => e ∈ N.out v ∧ Network.Trail (N.dest e) es

/-- Where a trail from `v` ends. -/
def Network.endOf (v : V) (es : List E) : V := es.getLast?.elim v N.dest

/-- A cycle through `target` as the search understands it. -/
structure Network.Cycle (target : V) (es : List E) : Prop where
  two_le : 2 ≤ es.length
  trail : N.Trail target es
  closed : N.endOf target es = target
  simple : (es.map N.label).Nodup
  interior : ∀ e ∈ es.tail.dropLast, N.dest e ≠ target

theorem Network.endOf_cons (v : V) (e : E) (es : List E) :
    N.endOf v (e :: es) = N.endOf (N.dest e) es := by
  cases es with
  | nil => rfl
  | cons e' es' =>
      simp only [Network.endOf, List.getLast?_cons_cons]
      rw [List.getLast?_eq_some_getLast (List.cons_ne_nil e' es')]
      rfl

/-! ## The search -/

variable [DecidableEq V] [DecidableEq L]

/-- The cycles through `target` that extend `path`, now at `current`, by at most
    `k` edges. -/
def closures (target : V) : Nat → V → List E → List (List E)
  | 0, _, _ => []
  | k + 1, current, path =>
      (N.out current).flatMap fun e =>
        if N.label e ∈ path.map N.label then []
        else if N.dest e = target ∧ path ≠ [] then [path ++ [e]]
        else closures target k (N.dest e) (path ++ [e])

/-- `tail` completes `path`, now at `current`, the way the search does. -/
def Completes (target : V) : V → List E → List E → Prop
  | _, _, [] => False
  | current, path, e :: tail =>
      e ∈ N.out current ∧ N.label e ∉ path.map N.label ∧
        if N.dest e = target ∧ path ≠ [] then tail = []
        else Completes target (N.dest e) (path ++ [e]) tail

/-- One branch of the search, for the edge it starts with. -/
theorem mem_branch_iff (target : V) (k : Nat) (path c : List E) (e : E)
    (ih : ∀ current path, c ∈ closures N target k current path ↔
      ∃ tail, c = path ++ tail ∧ tail.length ≤ k ∧ Completes N target current path tail) :
    c ∈ (if N.label e ∈ path.map N.label then []
        else if N.dest e = target ∧ path ≠ [] then [path ++ [e]]
        else closures N target k (N.dest e) (path ++ [e])) ↔
      N.label e ∉ path.map N.label ∧ ∃ tail, c = path ++ e :: tail ∧ tail.length ≤ k ∧
        if N.dest e = target ∧ path ≠ [] then tail = []
        else Completes N target (N.dest e) (path ++ [e]) tail := by
  by_cases hlabel : N.label e ∈ path.map N.label
  · simp [hlabel]
  · rw [if_neg hlabel]
    by_cases hclose : N.dest e = target ∧ path ≠ []
    · rw [if_pos hclose, List.mem_singleton]
      constructor
      · intro hc
        exact ⟨hlabel, [], hc, Nat.zero_le k, by rw [if_pos hclose]⟩
      · rintro ⟨-, tail, hc, -, htail⟩
        rw [if_pos hclose] at htail
        rw [hc, htail]
    · rw [if_neg hclose, ih]
      constructor
      · rintro ⟨tail, hc, hlen, htail⟩
        exact ⟨hlabel, tail, by rw [hc, List.append_assoc]; rfl, hlen, by rwa [if_neg hclose]⟩
      · rintro ⟨-, tail, hc, hlen, htail⟩
        rw [if_neg hclose] at htail
        exact ⟨tail, by rw [hc, List.append_assoc]; rfl, hlen, htail⟩

/-- The search lists exactly the completions within its bound. -/
theorem mem_closures_iff (target : V) (k : Nat) (current : V) (path c : List E) :
    c ∈ closures N target k current path ↔
      ∃ tail, c = path ++ tail ∧ tail.length ≤ k ∧ Completes N target current path tail := by
  induction k generalizing current path with
  | zero =>
      constructor
      · intro h
        exact absurd h List.not_mem_nil
      · rintro ⟨tail, -, hlen, htail⟩
        rw [List.eq_nil_of_length_eq_zero (Nat.le_zero.mp hlen)] at htail
        exact htail.elim
  | succ k ih =>
      rw [closures, List.mem_flatMap]
      constructor
      · rintro ⟨e, he, hc⟩
        obtain ⟨hlabel, tail, hc, hlen, htail⟩ := (mem_branch_iff N target k path c e ih).mp hc
        exact ⟨e :: tail, hc, Nat.succ_le_succ hlen, he, hlabel, htail⟩
      · rintro ⟨tail, hc, hlen, htail⟩
        cases tail with
        | nil => exact htail.elim
        | cons e tail =>
            obtain ⟨he, hlabel, htail⟩ := htail
            exact ⟨e, he, (mem_branch_iff N target k path c e ih).mpr
              ⟨hlabel, tail, hc, Nat.le_of_succ_le_succ hlen, htail⟩⟩

/-! ## Completions are cycles -/

omit [DecidableEq V] [DecidableEq L] in
/-- An edge of a path and a tail that avoids the labels of the path. -/
theorem nodup_cons_of_fresh {e : E} {path tail : List E} (he : e ∈ path)
    (hnodup : (tail.map N.label).Nodup) (hfresh : ∀ e' ∈ tail, N.label e' ∉ path.map N.label) :
    ((e :: tail).map N.label).Nodup := by
  rw [List.map_cons, List.nodup_cons]
  refine ⟨?_, hnodup⟩
  intro hmem
  obtain ⟨e', he', heq⟩ := List.mem_map.mp hmem
  exact hfresh e' he' (heq ▸ List.mem_map_of_mem he)

/-- A way on from a path: label-fresh, and back at the target only at its end. -/
structure Fresh (target current : V) (path tail : List E) : Prop where
  ne_nil : tail ≠ []
  trail : N.Trail current tail
  closed : N.endOf current tail = target
  nodup : (tail.map N.label).Nodup
  fresh : ∀ e ∈ tail, N.label e ∉ path.map N.label
  interior : ∀ e ∈ tail.dropLast, N.dest e ≠ target

omit [DecidableEq V] [DecidableEq L] in
/-- An edge back to the target ends it. -/
theorem fresh_closing_iff {target current : V} {path : List E} {e : E} {tail : List E}
    (hdest : N.dest e = target) :
    Fresh N target current path (e :: tail) ↔
      e ∈ N.out current ∧ N.label e ∉ path.map N.label ∧ tail = [] := by
  constructor
  · intro h
    refine ⟨h.trail.1, h.fresh e List.mem_cons_self, ?_⟩
    cases tail with
    | nil => rfl
    | cons e' tail =>
        have hint := h.interior
        rw [List.dropLast_cons_cons] at hint
        exact absurd hdest (hint e List.mem_cons_self)
  · rintro ⟨he, hlabel, rfl⟩
    refine ⟨List.cons_ne_nil e [], ⟨he, trivial⟩, hdest, List.nodup_singleton _, ?_, ?_⟩
    · intro e' he'
      rwa [List.mem_singleton.mp he']
    · intro e' he'
      exact absurd he' List.not_mem_nil

omit [DecidableEq V] [DecidableEq L] in
/-- Any other edge lengthens the path. -/
theorem fresh_ongoing_iff {target current : V} {path : List E} {e : E} {tail : List E}
    (hdest : N.dest e ≠ target) :
    Fresh N target current path (e :: tail) ↔
      e ∈ N.out current ∧ N.label e ∉ path.map N.label ∧
        Fresh N target (N.dest e) (path ++ [e]) tail := by
  constructor
  · intro h
    have hend := h.closed
    rw [N.endOf_cons] at hend
    have hne : tail ≠ [] := by
      rintro rfl
      exact hdest hend
    have hnodup := h.nodup
    rw [List.map_cons, List.nodup_cons] at hnodup
    refine ⟨h.trail.1, h.fresh e List.mem_cons_self, hne, h.trail.2, hend, hnodup.2, ?_, ?_⟩
    · intro e' he' hmem
      rw [List.map_append, List.mem_append] at hmem
      rcases hmem with hmem | hmem
      · exact h.fresh e' (List.mem_cons_of_mem e he') hmem
      · have heq := List.mem_singleton.mp hmem
        exact hnodup.1 (heq ▸ List.mem_map_of_mem he')
    · intro e' he'
      have hint := h.interior
      rw [List.dropLast_cons_of_ne_nil hne] at hint
      exact hint e' (List.mem_cons_of_mem e he')
  · rintro ⟨he, hlabel, h⟩
    refine ⟨List.cons_ne_nil e tail, ⟨he, h.trail⟩, ?_, ?_, ?_, ?_⟩
    · rw [N.endOf_cons]
      exact h.closed
    · exact nodup_cons_of_fresh N (List.mem_append_right path List.mem_cons_self) h.nodup h.fresh
    · intro e' he'
      rcases List.mem_cons.mp he' with rfl | he'
      · exact hlabel
      · have hfresh := h.fresh e' he'
        rw [List.map_append, List.mem_append] at hfresh
        exact fun hmem => hfresh (Or.inl hmem)
    · intro e' he'
      rw [List.dropLast_cons_of_ne_nil h.ne_nil] at he'
      rcases List.mem_cons.mp he' with rfl | he'
      · exact hdest
      · exact h.interior e' he'

omit [DecidableEq L] in
/-- The completions of a nonempty path are the ways on from it. -/
theorem completes_iff_of_ne_nil (target current : V) {path : List E} (hpath : path ≠ [])
    (tail : List E) :
    Completes N target current path tail ↔ Fresh N target current path tail := by
  -- on the tail; the path behind it grows, so label-freshness is asked of the path
  induction tail generalizing current path with
  | nil => exact ⟨False.elim, fun h => h.ne_nil rfl⟩
  | cons e tail ih =>
      rw [Completes]
      -- an edge back to the target closes the walk there, any other must go on
      by_cases hdest : N.dest e = target
      · rw [if_pos ⟨hdest, hpath⟩, fresh_closing_iff N hdest]
      · rw [if_neg fun h => hdest h.1, fresh_ongoing_iff N hdest,
          ih (N.dest e) (List.append_ne_nil_of_right_ne_nil path (List.cons_ne_nil e []))]

omit [DecidableEq L] in
/-- A completion of the empty path is a cycle. -/
theorem completes_nil_iff (target : V) (es : List E) :
    Completes N target target [] es ↔ N.Cycle target es := by
  cases es with
  | nil =>
      constructor
      · exact False.elim
      · intro h
        exact absurd h.two_le (by simp)
  | cons e tail =>
      -- the first edge never closes: with an empty path the search goes on
      rw [Completes, if_neg (fun h => h.2 rfl), List.nil_append,
        completes_iff_of_ne_nil N target (N.dest e) (List.cons_ne_nil e []) tail]
      constructor
      · rintro ⟨he, -, h⟩
        refine ⟨?_, ⟨he, h.trail⟩, ?_, ?_, h.interior⟩
        · exact Nat.succ_le_succ (List.length_pos_of_ne_nil h.ne_nil)
        · rw [N.endOf_cons]
          exact h.closed
        · exact nodup_cons_of_fresh N List.mem_cons_self h.nodup h.fresh
      · rintro ⟨htwo, ⟨he, htrail⟩, hend, hnodup, hint⟩
        rw [N.endOf_cons] at hend
        rw [List.map_cons, List.nodup_cons] at hnodup
        refine ⟨he, by simp, ?_, htrail, hend, hnodup.2, ?_, hint⟩
        · exact List.ne_nil_of_length_pos (Nat.le_of_succ_le_succ htwo)
        · intro e' he' hmem
          have heq := List.mem_singleton.mp hmem
          exact hnodup.1 (heq ▸ List.mem_map_of_mem he')

/-- **THE SEARCH IS EXACT**: from the target it lists the cycles of at most `k`
    edges. -/
theorem mem_closures_iff_cycle (target : V) (k : Nat) (es : List E) :
    es ∈ closures N target k target [] ↔ N.Cycle target es ∧ es.length ≤ k := by
  rw [mem_closures_iff]
  constructor
  · rintro ⟨tail, hes, hlen, htail⟩
    rw [List.nil_append] at hes
    subst hes
    exact ⟨(completes_nil_iff N target es).mp htail, hlen⟩
  · rintro ⟨hcycle, hlen⟩
    exact ⟨es, rfl, hlen, (completes_nil_iff N target es).mpr hcycle⟩

/-! ## No cycle twice -/

/-- Every cycle of a branch has the branch's edge after the path. -/
theorem branch_shape (target : V) (k : Nat) (path c : List E) (e : E)
    (hc : c ∈ (if N.label e ∈ path.map N.label then []
        else if N.dest e = target ∧ path ≠ [] then [path ++ [e]]
        else closures N target k (N.dest e) (path ++ [e]))) :
    ∃ tail, c = path ++ e :: tail := by
  obtain ⟨-, tail, hc, -⟩ :=
    (mem_branch_iff N target k path c e fun current path =>
      mem_closures_iff N target k current path c).mp hc
  exact ⟨tail, hc⟩

/-- **THE SEARCH REPEATS NOTHING** when no vertex lists an edge twice. -/
theorem closures_nodup (hout : ∀ v, (N.out v).Nodup) (target : V) (k : Nat) (current : V)
    (path : List E) : (closures N target k current path).Nodup := by
  induction k generalizing current path with
  | zero => exact List.nodup_nil
  | succ k ih =>
      rw [closures, List.nodup_flatMap]
      refine ⟨?_, ?_⟩
      · intro e _
        split
        · exact List.nodup_nil
        · split
          · exact List.nodup_singleton _
          · exact ih (N.dest e) (path ++ [e])
      -- two branches differ in the edge after the path
      · refine (hout current).imp ?_
        intro e e' hne c hc hc'
        obtain ⟨tail, rfl⟩ := branch_shape N target k path c e hc
        obtain ⟨tail', heq⟩ := branch_shape N target k path _ e' hc'
        exact hne (List.cons.inj (List.append_cancel_left heq)).1

/-! ## The same edges in another order -/

section Order

omit [DecidableEq V] [DecidableEq L]

theorem Network.trail_append (v : V) (es es' : List E) :
    N.Trail v (es ++ es') ↔ N.Trail v es ∧ N.Trail (N.endOf v es) es' := by
  induction es generalizing v with
  | nil => exact ⟨fun h => ⟨trivial, h⟩, fun h => h.2⟩
  | cons e es ih =>
      rw [List.cons_append, Network.Trail, Network.Trail, ih, Network.endOf_cons, and_assoc]

/-- At most one of the edges leaves each vertex. -/
def Network.OneOut (es : List E) : Prop :=
  ∀ v, ∀ e ∈ es, ∀ e' ∈ es, e ∈ N.out v → e' ∈ N.out v → e = e'

variable {N}

/-- Then there is one way to follow them. -/
theorem Network.OneOut.trail_unique {es : List E} (h : N.OneOut es) {v : V} {c c' : List E}
    (hc : N.Trail v c) (hc' : N.Trail v c') (hlen : c.length = c'.length)
    (hsub : ∀ e ∈ c, e ∈ es) (hsub' : ∀ e ∈ c', e ∈ es) : c = c' := by
  induction c generalizing v c' with
  | nil => exact (List.eq_nil_of_length_eq_zero hlen.symm).symm
  | cons e c ih =>
      cases c' with
      | nil => cases hlen
      | cons e' c' =>
          obtain ⟨he, hc⟩ := hc
          obtain ⟨he', hc'⟩ := hc'
          obtain rfl := h v e (hsub e List.mem_cons_self) e' (hsub' e' List.mem_cons_self) he he'
          rw [ih hc hc' (Nat.succ.inj hlen) (fun x hx => hsub x (List.mem_cons_of_mem e hx))
            fun x hx => hsub' x (List.mem_cons_of_mem e hx)]

/-- From any edge of a cycle the rest of it leads around to where the edge starts. -/
theorem Network.Cycle.around {target : V} {e : E} {before behind : List E}
    (h : N.Cycle target (before ++ e :: behind)) : N.Trail (N.dest e) (behind ++ before) := by
  obtain ⟨hbefore, hfrom⟩ := (N.trail_append target before (e :: behind)).mp h.trail
  have hend : N.endOf (N.dest e) behind = target := by
    have hclosed := h.closed
    rw [Network.endOf, List.getLast?_append, List.getLast?_cons] at hclosed
    rw [Network.endOf]
    cases hlast : behind.getLast? with
    | none =>
        rw [hlast] at hclosed
        exact hclosed
    | some f =>
        rw [hlast] at hclosed
        exact hclosed
  rw [N.trail_append, hend]
  exact ⟨hfrom.2, hbefore⟩

/-- **THE SAME EDGES IN ANOTHER ORDER** are the same cycle begun elsewhere, and the same
    list when begun at the same vertex. -/
theorem rotated_of_perm {target target' : V} {c c' : List E} (hc : N.Cycle target c)
    (hc' : N.Cycle target' c') (hperm : c.Perm c') (hone : N.OneOut c) :
    c.IsRotated c' ∧ (target = target' → c = c') := by
  have hsub' : ∀ e ∈ c', e ∈ c := fun e he => hperm.mem_iff.mpr he
  constructor
  · cases c' with
    | nil =>
        rw [hperm.eq_nil]
    | cons e tail =>
        obtain ⟨before, behind, rfl⟩ := List.append_of_mem (hsub' e List.mem_cons_self)
        have hrotated : behind ++ before = tail := by
          refine hone.trail_unique hc.around hc'.trail.2 ?_ ?_ ?_
          · have hlen := hperm.length_eq
            simp only [List.length_append, List.length_cons] at hlen ⊢
            omega
          · intro x hx
            simp only [List.mem_append, List.mem_cons] at hx ⊢
            tauto
          · exact fun x hx => hsub' x (List.mem_cons_of_mem e hx)
        rw [← hrotated, ← List.cons_append]
        exact List.isRotated_append
  · rintro rfl
    exact hone.trail_unique hc.trail hc'.trail hperm.length_eq (fun _ h => h) hsub'

end Order

end Backtracking
