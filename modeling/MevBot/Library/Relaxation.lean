import Mathlib.Algebra.BigOperators.Group.List.Basic
import Mathlib.Algebra.Order.Group.Defs
import Mathlib.Algebra.Order.Monoid.WithTop
import Mathlib.Data.List.Induction
import Mathlib.Data.List.Nodup
import Mathlib.Logic.Function.Basic
import Mathlib.Tactic.Abel

/-! # Edge relaxation along a schedule

    A weighted digraph is relaxed edge by edge along a list, its schedule; every
    vertex keeps the least distance seen and the edge that gave it.  Both are
    known exactly: the distance is the weight of the lightest walk that FITS the
    schedule, as a subsequence of it (`dist_le_of_fits`, `exists_fits`), and the
    predecessor is the last edge of the schedule that made such a walk lighter
    (`pred_eq_some_iff`).  Cycles of predecessor edges are negative
    (`Kept.run`), and a negative cycle has an edge that can still be relaxed by
    its share of the weight (`exists_slack`). -/

namespace Relaxation

/-- A directed multigraph with weighted edges. -/
structure Weighted (V E W : Type) where
  src : E → V
  dst : E → V
  weight : E → W

variable {V E W : Type} (N : Weighted V E W)

/-! ## Walks -/

/-- The edges can be followed one after the other from `u`, and end at `v`. -/
def Weighted.Walk : V → List E → V → Prop
  | u, [], v => u = v
  | u, e :: p, v => N.src e = u ∧ Weighted.Walk (N.dst e) p v

theorem Weighted.walk_append (u : V) (p q : List E) (v : V) :
    N.Walk u (p ++ q) v ↔ ∃ x, N.Walk u p x ∧ N.Walk x q v := by
  induction p generalizing u with
  | nil =>
      constructor
      · intro h
        exact ⟨u, rfl, h⟩
      · rintro ⟨x, rfl, h⟩
        exact h
  | cons e p ih =>
      constructor
      · rintro ⟨he, h⟩
        obtain ⟨x, hp, hq⟩ := (ih (N.dst e)).mp h
        exact ⟨x, ⟨he, hp⟩, hq⟩
      · rintro ⟨x, ⟨he, hp⟩, hq⟩
        exact ⟨he, (ih (N.dst e)).mpr ⟨x, hp, hq⟩⟩

theorem Weighted.walk_concat (u : V) (p : List E) (e : E) (v : V) :
    N.Walk u (p ++ [e]) v ↔ N.Walk u p (N.src e) ∧ N.dst e = v := by
  rw [N.walk_append]
  constructor
  · rintro ⟨x, hp, rfl, hv⟩
    exact ⟨hp, hv⟩
  · rintro ⟨hp, hv⟩
    exact ⟨N.src e, hp, rfl, hv⟩

/-- A closed walk can be started at any of its edges. -/
theorem Weighted.walk_rotate {v : V} {p q : List E} {e : E} (h : N.Walk v (p ++ e :: q) v) :
    N.Walk (N.src e) (e :: q ++ p) (N.src e) := by
  obtain ⟨x, hp, rfl, hq⟩ := (N.walk_append v p (e :: q) v).mp h
  exact (N.walk_append _ (e :: q) p _).mpr ⟨v, ⟨rfl, hq⟩, hp⟩

/-- A nonempty walk arrives by one of its edges. -/
theorem Weighted.exists_dst {u v : V} {p : List E} (h : N.Walk u p v) (hp : p ≠ []) :
    ∃ e ∈ p, N.dst e = v := by
  obtain ⟨q, e, rfl⟩ := (List.eq_nil_or_concat' p).resolve_left hp
  exact ⟨e, List.mem_append_right q List.mem_cons_self, ((N.walk_concat u q e v).mp h).2⟩

/-- The edges of a walk are joined end to start. -/
theorem Weighted.walk_isChain {u v : V} {p : List E} (h : N.Walk u p v) :
    p.IsChain fun e f => N.dst e = N.src f := by
  induction p generalizing u with
  | nil => exact List.IsChain.nil
  | cons e p ih =>
      obtain ⟨-, h⟩ := h
      cases p with
      | nil => exact List.IsChain.singleton e
      | cons f p => exact List.isChain_cons_cons.mpr ⟨h.1.symm, ih h⟩

/-- A walk starts its edges where it has come to, and ends them one step on. -/
theorem Weighted.walk_vertices {u v : V} {p : List E} (h : N.Walk u p v) :
    p.map N.src ++ [v] = u :: p.map N.dst := by
  induction p generalizing u with
  | nil => exact congrArg (fun x => [x]) (Eq.symm h)
  | cons e p ih =>
      obtain ⟨rfl, h⟩ := h
      exact congrArg (N.src e :: ·) (ih h)

/-- Once round a closed walk, every edge starts where one ends. -/
theorem Weighted.src_perm_dst {v : V} {c : List E} (h : N.Walk v c v) :
    (c.map N.src).Perm (c.map N.dst) := by
  refine List.Perm.cons_inv (a := v) ?_
  rw [← N.walk_vertices h]
  exact (List.perm_append_singleton v _).symm

/-- Every edge of a closed walk follows one of its edges. -/
theorem Weighted.exists_before {v : V} {c : List E} (h : N.Walk v c v) {e : E} (he : e ∈ c) :
    ∃ f ∈ c, N.dst f = N.src e :=
  List.mem_map.mp ((N.src_perm_dst h).mem_iff.mp (List.mem_map_of_mem he))

/-- Every edge of a closed walk is followed by one of its edges. -/
theorem Weighted.exists_after {v : V} {c : List E} (h : N.Walk v c v) {e : E} (he : e ∈ c) :
    ∃ f ∈ c, N.src f = N.dst e :=
  List.mem_map.mp ((N.src_perm_dst h).mem_iff.mpr (List.mem_map_of_mem he))

/-- A simple closed walk with two edges there and back has no others. -/
theorem Weighted.perm_of_there_and_back {v : V} {c : List E} (h : N.Walk v c v)
    (hc : (c.map N.dst).Nodup) {a b : E} (ha : a ∈ c) (hb : b ∈ c) (hne : a ≠ b)
    (hab : N.dst a = N.src b) (hba : N.dst b = N.src a) : c.Perm [a, b] := by
  obtain ⟨p, q, rfl⟩ := List.append_of_mem ha
  have hrest : N.Walk (N.dst a) (q ++ p) (N.src a) := (N.walk_rotate h).2
  have hperm : (p ++ a :: q).Perm (a :: (q ++ p)) := List.perm_append_comm
  have hb' : b ∈ q ++ p :=
    (List.mem_cons.mp (hperm.mem_iff.mp hb)).resolve_left (Ne.symm hne)
  have hnodup := (hperm.map N.dst).nodup_iff.mp hc
  obtain ⟨r, t, hqp⟩ := List.append_of_mem hb'
  rw [hqp] at hrest hperm hnodup
  rw [List.map_cons, List.nodup_cons] at hnodup
  obtain ⟨x, hr, rfl, ht⟩ := (N.walk_append _ r (b :: t) _).mp hrest
  -- an edge before `b` would arrive where `a` does, an edge after it where `b` does
  have hr_nil : r = [] := by
    by_contra hrne
    obtain ⟨e, he, heq⟩ := N.exists_dst hr hrne
    refine hnodup.1 (List.mem_map.mpr ⟨e, List.mem_append_left _ he, ?_⟩)
    exact heq.trans hab.symm
  have ht_nil : t = [] := by
    by_contra htne
    obtain ⟨e, he, heq⟩ := N.exists_dst ht htne
    rw [hr_nil, List.nil_append, List.map_cons, List.nodup_cons] at hnodup
    exact hnodup.2.1 (List.mem_map.mpr ⟨e, he, heq.trans hba.symm⟩)
  rwa [hr_nil, ht_nil] at hperm

variable [AddCommGroup W] [LinearOrder W]

/-- The weight of a list of edges. -/
def Weighted.weightOf (p : List E) : W := (p.map N.weight).sum

omit [LinearOrder W] in
@[simp] theorem Weighted.weightOf_nil : N.weightOf [] = 0 := rfl

omit [LinearOrder W] in
@[simp] theorem Weighted.weightOf_cons (e : E) (p : List E) :
    N.weightOf (e :: p) = N.weight e + N.weightOf p := List.sum_cons

omit [LinearOrder W] in
@[simp] theorem Weighted.weightOf_append (p q : List E) :
    N.weightOf (p ++ q) = N.weightOf p + N.weightOf q := by
  rw [Weighted.weightOf, List.map_append, List.sum_append]
  rfl

omit [LinearOrder W] in
theorem Weighted.weightOf_concat (p : List E) (e : E) :
    N.weightOf (p ++ [e]) = N.weightOf p + N.weight e := by
  simp

/-! ## Relaxation -/

/-- A tentative distance and the edge that gave it, at every vertex. -/
structure Labels (V E W : Type) where
  dist : V → WithTop W
  pred : V → Option E

variable [DecidableEq V]

/-- Distance zero at the source, no edge taken yet. -/
def Labels.source (s : V) : Labels V E W := ⟨Function.update (fun _ => ⊤) s 0, fun _ => none⟩

/-- Relax one edge. -/
def relax (L : Labels V E W) (e : E) : Labels V E W :=
  if L.dist (N.src e) + N.weight e < L.dist (N.dst e) then
    ⟨Function.update L.dist (N.dst e) (L.dist (N.src e) + N.weight e),
      Function.update L.pred (N.dst e) (some e)⟩
  else L

/-- Relax the edges of a schedule in order. -/
def run (s : V) (schedule : List E) : Labels V E W :=
  schedule.foldl (relax N) (Labels.source s)

theorem run_concat (s : V) (schedule : List E) (e : E) :
    run N s (schedule ++ [e]) = relax N (run N s schedule) e := by
  rw [run, List.foldl_append]
  rfl

theorem relax_of_lt {L : Labels V E W} {e : E}
    (h : L.dist (N.src e) + N.weight e < L.dist (N.dst e)) :
    relax N L e = ⟨Function.update L.dist (N.dst e) (L.dist (N.src e) + N.weight e),
      Function.update L.pred (N.dst e) (some e)⟩ := if_pos h

theorem relax_of_not_lt {L : Labels V E W} {e : E}
    (h : ¬L.dist (N.src e) + N.weight e < L.dist (N.dst e)) : relax N L e = L := if_neg h

/-- A relaxation that lowers the distance at its end. -/
theorem relax_dist_dst {L : Labels V E W} {e : E}
    (h : L.dist (N.src e) + N.weight e < L.dist (N.dst e)) :
    (relax N L e).dist (N.dst e) = L.dist (N.src e) + N.weight e := by
  rw [relax_of_lt N h]
  exact Function.update_self _ _ _

theorem relax_pred_dst {L : Labels V E W} {e : E}
    (h : L.dist (N.src e) + N.weight e < L.dist (N.dst e)) :
    (relax N L e).pred (N.dst e) = some e := by
  rw [relax_of_lt N h]
  exact Function.update_self _ _ _

/-- Only the end of the edge is touched. -/
theorem relax_of_ne (L : Labels V E W) (e : E) {v : V} (hv : v ≠ N.dst e) :
    (relax N L e).dist v = L.dist v ∧ (relax N L e).pred v = L.pred v := by
  by_cases h : L.dist (N.src e) + N.weight e < L.dist (N.dst e)
  · rw [relax_of_lt N h]
    exact ⟨Function.update_of_ne hv _ _, Function.update_of_ne hv _ _⟩
  · rw [relax_of_not_lt N h]
    exact ⟨rfl, rfl⟩

/-- A predecessor behind a relaxation that improved is the edge or was there before. -/
theorem relax_pred_cases {L : Labels V E W} {e : E}
    (hlt : L.dist (N.src e) + N.weight e < L.dist (N.dst e)) {v : V} {f : E}
    (hf : (relax N L e).pred v = some f) :
    v = N.dst e ∧ f = e ∨ v ≠ N.dst e ∧ L.pred v = some f := by
  by_cases hv : v = N.dst e
  · subst hv
    rw [relax_pred_dst N hlt] at hf
    exact Or.inl ⟨rfl, (Option.some.inj hf).symm⟩
  · exact Or.inr ⟨hv, (relax_of_ne N L e hv).2.symm.trans hf⟩

/-- Relaxing never raises a distance. -/
theorem relax_dist_le (L : Labels V E W) (e : E) (v : V) :
    (relax N L e).dist v ≤ L.dist v := by
  by_cases hv : v = N.dst e
  · subst hv
    by_cases h : L.dist (N.src e) + N.weight e < L.dist (N.dst e)
    · rw [relax_dist_dst N h]
      exact le_of_lt h
    · rw [relax_of_not_lt N h]
  · rw [(relax_of_ne N L e hv).1]

/-- Afterwards the edge is satisfied. -/
theorem relax_dist_dst_le (L : Labels V E W) (e : E) :
    (relax N L e).dist (N.dst e) ≤ L.dist (N.src e) + N.weight e := by
  by_cases h : L.dist (N.src e) + N.weight e < L.dist (N.dst e)
  · rw [relax_dist_dst N h]
  · rw [relax_of_not_lt N h]
    exact le_of_not_gt h

/-! ## Distances are walks that fit the schedule -/

/-- A walk from `s` to `v` along a subsequence of the schedule. -/
structure Fits (s : V) (schedule p : List E) (v : V) : Prop where
  sublist : p.Sublist schedule
  walk : N.Walk s p v

omit [AddCommGroup W] [LinearOrder W] [DecidableEq V] in
/-- A fitting walk uses the last edge of the schedule last, or not at all. -/
theorem fits_concat_iff (s : V) (schedule : List E) (e : E) (p : List E) (v : V) :
    Fits N s (schedule ++ [e]) p v ↔
      Fits N s schedule p v ∨
        ∃ q, p = q ++ [e] ∧ Fits N s schedule q (N.src e) ∧ N.dst e = v := by
  constructor
  · rintro ⟨hsub, hwalk⟩
    obtain ⟨q, r, rfl, hq, hr⟩ := List.sublist_append_iff.mp hsub
    rcases List.sublist_singleton.mp hr with rfl | rfl
    · rw [List.append_nil] at hwalk ⊢
      exact Or.inl ⟨hq, hwalk⟩
    · obtain ⟨hwalk, hv⟩ := (N.walk_concat s q e v).mp hwalk
      exact Or.inr ⟨q, rfl, ⟨hq, hwalk⟩, hv⟩
  · rintro (⟨hsub, hwalk⟩ | ⟨q, rfl, ⟨hsub, hwalk⟩, hv⟩)
    · exact ⟨hsub.trans (List.sublist_append_left schedule [e]), hwalk⟩
    · exact ⟨hsub.append (List.Sublist.refl [e]), (N.walk_concat s q e v).mpr ⟨hwalk, hv⟩⟩

variable [IsOrderedAddMonoid W]

/-- No fitting walk is lighter than the distance. -/
theorem dist_le_of_fits {s : V} {schedule p : List E} {v : V} (h : Fits N s schedule p v) :
    (run N s schedule).dist v ≤ N.weightOf p := by
  induction schedule using List.reverseRecOn generalizing p v with
  | nil =>
      obtain ⟨hsub, hwalk⟩ := h
      obtain rfl := List.sublist_nil.mp hsub
      obtain rfl : s = v := hwalk
      show Function.update (fun _ => (⊤ : WithTop W)) s 0 s ≤ (N.weightOf [] : W)
      rw [Function.update_self]
      rfl
  | append_singleton schedule e ih =>
      rw [run_concat]
      -- a walk that skips the last edge was there before it
      rcases (fits_concat_iff N s schedule e p v).mp h with h | ⟨q, rfl, hq, rfl⟩
      · exact (relax_dist_le N _ e v).trans (ih h)
      · refine (relax_dist_dst_le N _ e).trans ?_
        rw [N.weightOf_concat, WithTop.coe_add]
        exact add_le_add_left (ih hq) _

omit [IsOrderedAddMonoid W] in
/-- Some fitting walk weighs the distance. -/
theorem exists_fits {s : V} {schedule : List E} {v : V} {d : W}
    (h : (run N s schedule).dist v = d) :
    ∃ p, Fits N s schedule p v ∧ N.weightOf p = d := by
  induction schedule using List.reverseRecOn generalizing v d with
  | nil =>
      replace h : Function.update (fun _ => (⊤ : WithTop W)) s 0 v = d := h
      by_cases hv : v = s
      · subst hv
        rw [Function.update_self] at h
        exact ⟨[], ⟨List.Sublist.refl [], rfl⟩, WithTop.coe_inj.mp h⟩
      · rw [Function.update_of_ne hv] at h
        exact absurd h (WithTop.top_ne_coe)
  | append_singleton schedule e ih =>
      rw [run_concat] at h
      -- whatever the last edge does not change, an earlier walk still accounts for
      have hold : (run N s schedule).dist v = d →
          ∃ p, Fits N s (schedule ++ [e]) p v ∧ N.weightOf p = d := by
        intro h
        obtain ⟨p, hp, hw⟩ := ih h
        exact ⟨p, (fits_concat_iff N s schedule e p v).mpr (Or.inl hp), hw⟩
      by_cases hlt : (run N s schedule).dist (N.src e) + N.weight e <
          (run N s schedule).dist (N.dst e)
      · by_cases hv : v = N.dst e
        · subst hv
          rw [relax_dist_dst N hlt] at h
          obtain ⟨x, y, hx, hy, rfl⟩ := WithTop.add_eq_coe.mp h
          obtain ⟨p, hp, hw⟩ := ih hx.symm
          refine ⟨p ++ [e], (fits_concat_iff N s schedule e _ _).mpr (Or.inr ⟨p, rfl, hp, rfl⟩), ?_⟩
          rw [N.weightOf_concat, hw, WithTop.coe_inj.mp hy]
        · exact hold ((relax_of_ne N _ e hv).1.symm.trans h)
      · rw [relax_of_not_lt N hlt] at h
        exact hold h

/-! ## Predecessors are last improvements -/

/-- Tried after `schedule`, the edge makes the lightest fitting walk to its end
    lighter. -/
def Improves (s : V) (schedule : List E) (e : E) : Prop :=
  ∃ p, Fits N s schedule p (N.src e) ∧
    ∀ q, Fits N s schedule q (N.dst e) → N.weightOf p + N.weight e < N.weightOf q

/-- A relaxation changes the labels exactly when its edge improves. -/
theorem lt_iff_improves (s : V) (schedule : List E) (e : E) :
    (run N s schedule).dist (N.src e) + N.weight e < (run N s schedule).dist (N.dst e) ↔
      Improves N s schedule e := by
  constructor
  · intro h
    cases hsrc : (run N s schedule).dist (N.src e) with
    | top =>
        rw [hsrc, WithTop.top_add] at h
        exact absurd h not_top_lt
    | coe d =>
        obtain ⟨p, hp, rfl⟩ := exists_fits N hsrc
        refine ⟨p, hp, ?_⟩
        intro q hq
        rw [hsrc] at h
        have := h.trans_le (dist_le_of_fits N hq)
        exact_mod_cast this
  -- the lightest walk to the end realises its distance, so `p` beats that distance
  · rintro ⟨p, hp, hlt⟩
    refine (add_le_add_left (dist_le_of_fits N hp) _).trans_lt ?_
    cases hdst : (run N s schedule).dist (N.dst e) with
    | top =>
        rw [← WithTop.coe_add]
        exact WithTop.coe_lt_top _
    | coe d =>
        obtain ⟨q, hq, rfl⟩ := exists_fits N hdst
        exact_mod_cast hlt q hq

/-- `e` is the last edge of the schedule that improves at `v`. -/
def LastImprovement (s : V) (schedule : List E) (v : V) (e : E) : Prop :=
  ∃ before after, schedule = before ++ e :: after ∧ N.dst e = v ∧ Improves N s before e ∧
    ∀ mid f rest, after = mid ++ f :: rest → N.dst f = v → ¬Improves N s (before ++ e :: mid) f

omit [DecidableEq V] [IsOrderedAddMonoid W] in
/-- The last improvement is the last edge of the schedule if that improves, and
    an earlier one otherwise. -/
theorem lastImprovement_concat_iff (s : V) (schedule : List E) (x : E) (v : V) (e : E) :
    LastImprovement N s (schedule ++ [x]) v e ↔
      (N.dst x = v ∧ Improves N s schedule x) ∧ e = x ∨
        ¬(N.dst x = v ∧ Improves N s schedule x) ∧ LastImprovement N s schedule v e := by
  constructor
  · rintro ⟨before, after, heq, hv, himp, hlast⟩
    -- does the improvement stand at the end of the schedule, or before `x`?
    rcases List.eq_nil_or_concat' after with rfl | ⟨after, y, rfl⟩
    · obtain ⟨rfl, hx⟩ := List.append_inj' heq rfl
      obtain rfl := (List.cons.inj hx).1
      exact Or.inl ⟨⟨hv, himp⟩, rfl⟩
    · rw [← List.cons_append, ← List.append_assoc] at heq
      obtain ⟨rfl, hx⟩ := List.append_inj' heq rfl
      obtain rfl := (List.cons.inj hx).1
      refine Or.inr ⟨fun h => hlast after x [] rfl h.1 h.2, before, after, rfl, hv, himp, ?_⟩
      intro mid f rest hafter
      exact hlast mid f (rest ++ [x]) (by rw [hafter, List.append_assoc]; rfl)
  · rintro (⟨⟨hv, himp⟩, rfl⟩ | ⟨hnot, before, after, rfl, hv, himp, hlast⟩)
    · refine ⟨schedule, [], rfl, hv, himp, ?_⟩
      intro mid f rest h
      exact absurd h.symm (by simp)
    · refine ⟨before, after ++ [x], by rw [List.append_assoc]; rfl, hv, himp, ?_⟩
      intro mid f rest hafter hf himpf
      -- `x` itself does not improve at `v`, so a later improvement lies before it
      rcases List.eq_nil_or_concat' rest with rfl | ⟨rest, y, rfl⟩
      · obtain ⟨rfl, hx⟩ := List.append_inj' hafter rfl
        obtain rfl := (List.cons.inj hx).1
        exact hnot ⟨hf, himpf⟩
      · rw [← List.cons_append, ← List.append_assoc] at hafter
        exact hlast mid f rest (List.append_inj' hafter rfl).1 hf himpf

/-- **THE PREDECESSOR IS THE LAST IMPROVEMENT.** -/
theorem pred_eq_some_iff (s : V) (schedule : List E) (v : V) (e : E) :
    (run N s schedule).pred v = some e ↔ LastImprovement N s schedule v e := by
  induction schedule using List.reverseRecOn with
  | nil =>
      constructor
      · intro h
        cases h
      · rintro ⟨before, after, h, -⟩
        exact absurd h.symm (by simp)
  | append_singleton schedule x ih =>
      rw [run_concat, lastImprovement_concat_iff, ← ih, ← lt_iff_improves]
      -- only an edge that improves is recorded, and only at its own end
      by_cases hlt : (run N s schedule).dist (N.src x) + N.weight x <
          (run N s schedule).dist (N.dst x)
      · by_cases hv : N.dst x = v
        · subst hv
          simp only [relax_pred_dst N hlt, hlt, and_self, true_and, not_true_eq_false, false_and,
            or_false, Option.some.injEq]
          exact eq_comm
        · simp only [(relax_of_ne N _ x (Ne.symm hv)).2, hv, false_and, not_false_eq_true,
            true_and, false_or]
      · rw [relax_of_not_lt N hlt]
        simp only [hlt, and_false, false_and, not_false_eq_true, true_and, false_or]

/-! ## Cycles of predecessor edges -/

/-- Every edge of the list is the predecessor at its end. -/
def Followed (L : Labels V E W) (p : List E) : Prop := ∀ e ∈ p, L.pred (N.dst e) = some e

omit [AddCommGroup W] [LinearOrder W] [DecidableEq V] [IsOrderedAddMonoid W] in
theorem Followed.concat {L : Labels V E W} {p : List E} {e : E} (h : Followed N L p)
    (he : L.pred (N.dst e) = some e) : Followed N L (p ++ [e]) := by
  intro f hf
  rcases List.mem_append.mp hf with hf | hf
  · exact h f hf
  · rw [List.mem_singleton.mp hf]
    exact he

/-- What relaxation keeps: a predecessor edge ends where it is recorded, at a
    finite distance that it does not exceed, and cycles of such edges are
    negative. -/
structure Kept (L : Labels V E W) : Prop where
  ends : ∀ v e, L.pred v = some e → N.dst e = v
  tight : ∀ v e, L.pred v = some e → L.dist (N.src e) + N.weight e ≤ L.dist v
  finite : ∀ v e, L.pred v = some e → L.dist v ≠ ⊤
  cycle_neg : ∀ v c, c ≠ [] → N.Walk v c v → (c.map N.dst).Nodup → Followed N L c →
    N.weightOf c < 0

omit [DecidableEq V] in
/-- Along predecessor edges the distances drop by at least the weights. -/
theorem dist_add_le {L : Labels V E W} (htight : ∀ v e, L.pred v = some e →
      L.dist (N.src e) + N.weight e ≤ L.dist v) {u : V} {p : List E} {v : V}
    (hwalk : N.Walk u p v) (hp : Followed N L p) : L.dist u + N.weightOf p ≤ L.dist v := by
  induction p generalizing u with
  | nil =>
      obtain rfl : u = v := hwalk
      rw [N.weightOf_nil, WithTop.coe_zero, add_zero]
  | cons e p ih =>
      obtain ⟨rfl, hwalk⟩ := hwalk
      have hrest := ih hwalk fun f hf => hp f (List.mem_cons_of_mem e hf)
      have hedge := htight _ e (hp e List.mem_cons_self)
      calc L.dist (N.src e) + N.weightOf (e :: p)
          = L.dist (N.src e) + N.weight e + N.weightOf p := by
            rw [N.weightOf_cons, WithTop.coe_add, add_assoc]
        _ ≤ L.dist (N.dst e) + N.weightOf p := add_le_add_left hedge _
        _ ≤ L.dist v := hrest

omit [IsOrderedAddMonoid W] in
theorem Kept.source (s : V) : Kept N (Labels.source s) where
  ends := fun _ _ h => nomatch h
  tight := fun _ _ h => nomatch h
  finite := fun _ _ h => nomatch h
  cycle_neg := by
    intro v c hc _ _ hfollowed
    obtain ⟨e, he⟩ := List.exists_mem_of_ne_nil c hc
    exact nomatch hfollowed e he

omit [DecidableEq V] in
/-- A cycle closed by the edge just relaxed is negative: before, the rest of it
    led from its end back to its start. -/
theorem closed_cycle_neg {L : Labels V E W} (h : Kept N L) {e : E}
    (hlt : L.dist (N.src e) + N.weight e < L.dist (N.dst e)) {p : List E}
    (hwalk : N.Walk (N.dst e) p (N.src e)) (hp : Followed N L p) :
    N.weight e + N.weightOf p < 0 := by
  have hle := dist_add_le N h.tight hwalk hp
  have hsum : L.dist (N.dst e) + (N.weight e + N.weightOf p : W) < L.dist (N.dst e) :=
    calc L.dist (N.dst e) + (N.weight e + N.weightOf p : W)
        = L.dist (N.dst e) + N.weightOf p + N.weight e := by
          rw [WithTop.coe_add, add_comm (N.weight e : WithTop W), add_assoc]
      _ ≤ L.dist (N.src e) + N.weight e := add_le_add_left hle _
      _ < L.dist (N.dst e) := hlt
  -- at distance ⊤ the drop is impossible; a finite distance cancels
  cases hdst : L.dist (N.dst e) with
  | top =>
      rw [hdst, WithTop.top_add] at hsum
      exact absurd hsum (lt_irrefl _)
  | coe d =>
      rw [hdst, ← WithTop.coe_add, WithTop.coe_lt_coe] at hsum
      exact add_lt_iff_neg_left.mp hsum

/-- The cycles through an edge just relaxed are negative. -/
theorem Kept.relaxed_cycle_neg {L : Labels V E W} (h : Kept N L) {e : E}
    (hlt : L.dist (N.src e) + N.weight e < L.dist (N.dst e)) {v : V} {p q : List E}
    (hwalk : N.Walk v (p ++ e :: q) v) (hnodup : ((p ++ e :: q).map N.dst).Nodup)
    (hfollowed : Followed N (Relaxation.relax N L e) (p ++ e :: q)) :
    N.weightOf (p ++ e :: q) < 0 := by
  -- the rest of the cycle was there before
  have hrest : N.Walk (N.dst e) (q ++ p) (N.src e) := (N.walk_rotate hwalk).2
  have hold : Followed N L (q ++ p) := by
    intro f hf
    -- the cycle visits the end of `e` once, so the rest of it keeps its predecessors
    have hne : N.dst f ≠ N.dst e := by
      intro heq
      rw [List.map_append, List.map_cons, List.nodup_middle, List.nodup_cons,
        ← List.map_append] at hnodup
      refine hnodup.1 (heq ▸ List.mem_map_of_mem ?_)
      exact List.mem_append.mpr (List.mem_append.mp hf).symm
    have hmem : f ∈ p ++ e :: q := by
      rcases List.mem_append.mp hf with hf | hf
      · exact List.mem_append_right p (List.mem_cons_of_mem e hf)
      · exact List.mem_append_left _ hf
    rcases relax_pred_cases N hlt (hfollowed f hmem) with ⟨heq, -⟩ | ⟨-, hf⟩
    · exact absurd heq hne
    · exact hf
  have hneg := closed_cycle_neg N h hlt hrest hold
  rw [N.weightOf_append] at hneg
  rw [N.weightOf_append, N.weightOf_cons]
  calc N.weightOf p + (N.weight e + N.weightOf q)
      = N.weight e + (N.weightOf q + N.weightOf p) := by abel
    _ < 0 := hneg

/-- One relaxation keeps it. -/
theorem Kept.relax {L : Labels V E W} (h : Kept N L) (e : E) : Kept N (relax N L e) := by
  by_cases hlt : L.dist (N.src e) + N.weight e < L.dist (N.dst e)
  · refine ⟨?_, ?_, ?_, ?_⟩
    · intro v f hf
      rcases relax_pred_cases N hlt hf with ⟨rfl, rfl⟩ | ⟨-, hf⟩
      · rfl
      · exact h.ends v f hf
    · intro v f hf
      rcases relax_pred_cases N hlt hf with ⟨rfl, rfl⟩ | ⟨hv, hf⟩
      · rw [relax_dist_dst N hlt]
        exact add_le_add_left (relax_dist_le N L f (N.src f)) _
      · rw [(relax_of_ne N L e hv).1]
        exact (add_le_add_left (relax_dist_le N L e (N.src f)) _).trans (h.tight v f hf)
    · intro v f hf
      rcases relax_pred_cases N hlt hf with ⟨rfl, rfl⟩ | ⟨hv, hf⟩
      · rw [relax_dist_dst N hlt]
        exact ne_top_of_lt hlt
      · rw [(relax_of_ne N L e hv).1]
        exact h.finite v f hf
    · intro v c hc hwalk hnodup hfollowed
      by_cases he : e ∈ c
      · obtain ⟨p, q, rfl⟩ := List.append_of_mem he
        exact h.relaxed_cycle_neg N hlt hwalk hnodup hfollowed
      -- without `e` the whole cycle was there before
      · refine h.cycle_neg v c hc hwalk hnodup ?_
        intro f hf
        rcases relax_pred_cases N hlt (hfollowed f hf) with ⟨-, rfl⟩ | ⟨-, hpredf⟩
        · exact absurd hf he
        · exact hpredf
  · rw [relax_of_not_lt N hlt]
    exact h

/-- Every schedule keeps it. -/
theorem Kept.run (s : V) (schedule : List E) : Kept N (run N s schedule) := by
  induction schedule using List.reverseRecOn with
  | nil => exact Kept.source N s
  | append_singleton schedule e ih =>
      rw [run_concat]
      exact ih.relax N e

/-! ## Tracing back -/

/-- A walk leaves its start once: no later edge starts there. -/
def LeavesOnce (u : V) (p : List E) : Prop := ∀ e ∈ p.tail, N.src e ≠ u

omit [AddCommGroup W] [LinearOrder W] [DecidableEq V] [IsOrderedAddMonoid W] in
theorem LeavesOnce.of_concat {u : V} {p : List E} {e : E} (h : LeavesOnce N u (p ++ [e])) :
    LeavesOnce N u p := by
  intro f hf
  cases p with
  | nil => exact absurd hf List.not_mem_nil
  | cons g p => exact h f (List.mem_append_left [e] hf)

omit [AddCommGroup W] [LinearOrder W] [DecidableEq V] [IsOrderedAddMonoid W] in
theorem LeavesOnce.concat {u : V} {p : List E} {e : E} (hp : p ≠ []) (h : LeavesOnce N u p)
    (he : N.src e ≠ u) : LeavesOnce N u (p ++ [e]) := by
  intro f hf
  rw [List.tail_append_of_ne_nil hp] at hf
  rcases List.mem_append.mp hf with hf | hf
  · exact h f hf
  · rw [List.mem_singleton.mp hf]
    exact he

omit [AddCommGroup W] [LinearOrder W] [DecidableEq V] [IsOrderedAddMonoid W] in
/-- Tracing predecessors back from `v` until `u` comes up gives one walk only. -/
theorem followed_unique {L : Labels V E W} {u : V} {p q : List E} (hp : p ≠ []) (hq : q ≠ [])
    {v : V} (hpw : N.Walk u p v) (hqw : N.Walk u q v) (hpf : Followed N L p)
    (hqf : Followed N L q) (hpo : LeavesOnce N u p) (hqo : LeavesOnce N u q) : p = q := by
  -- on the last edge: it is the predecessor of the common end on both sides, and
  -- neither walk can go on once the other is back at `u`
  induction p using List.reverseRecOn generalizing q v with
  | nil => exact absurd rfl hp
  | append_singleton p e ih =>
      obtain ⟨q, f, rfl⟩ := (List.eq_nil_or_concat' q).resolve_left hq
      obtain ⟨hpu, rfl⟩ := (N.walk_concat u p e v).mp hpw
      obtain ⟨hqu, hef⟩ := (N.walk_concat u q f _).mp hqw
      have he := hpf e (List.mem_append_right p List.mem_cons_self)
      have hf := hqf f (List.mem_append_right q List.mem_cons_self)
      rw [hef, he] at hf
      obtain rfl := Option.some.inj hf
      by_cases hpn : p = []
      · subst hpn
        obtain rfl : u = N.src e := hpu
        cases q with
        | nil => rfl
        | cons g q => exact absurd rfl (hqo e (List.mem_append_right q List.mem_cons_self))
      · by_cases hqn : q = []
        · subst hqn
          obtain rfl : u = N.src e := hqu
          cases p with
          | nil => rfl
          | cons g p => exact absurd rfl (hpo e (List.mem_append_right p List.mem_cons_self))
        · rw [ih hpn hqn hpu hqu (fun g hg => hpf g (List.mem_append_left [e] hg))
            (fun g hg => hqf g (List.mem_append_left [e] hg)) (hpo.of_concat N)
            (hqo.of_concat N)]

omit [AddCommGroup W] [LinearOrder W] [DecidableEq V] [IsOrderedAddMonoid W] in
/-- **TRACING BACK REPEATS NO VERTEX** before `u` comes up. -/
theorem nodup_of_leavesOnce {L : Labels V E W} {u : V} {p : List E} {v : V}
    (hwalk : N.Walk u p v) (hp : Followed N L p) (honce : LeavesOnce N u p) :
    (p.map N.dst).Nodup := by
  induction p using List.reverseRecOn generalizing v with
  | nil => exact List.nodup_nil
  | append_singleton p e ih =>
      obtain ⟨hpw, -⟩ := (N.walk_concat u p e v).mp hwalk
      have hpf : Followed N L p := fun f hf => hp f (List.mem_append_left [e] hf)
      rw [List.map_append, List.map_singleton, List.nodup_append_comm, List.singleton_append,
        List.nodup_cons]
      refine ⟨?_, ih hpw hpf (honce.of_concat N)⟩
      intro hmem
      -- an earlier edge to the same vertex is this edge, and cuts the walk short
      obtain ⟨f, hf, heq⟩ := List.mem_map.mp hmem
      have hpred := hp e (List.mem_append_right p List.mem_cons_self)
      rw [← heq, hpf f hf] at hpred
      obtain rfl := Option.some.inj hpred
      obtain ⟨a, b, rfl⟩ := List.append_of_mem hf
      have hsplit : a ++ f :: b = (a ++ [f]) ++ b := by rw [List.append_assoc]; rfl
      rw [hsplit] at hpw hpf honce
      obtain ⟨x, hax, -⟩ := (N.walk_append u (a ++ [f]) b _).mp hpw
      obtain ⟨haw, rfl⟩ := (N.walk_concat u a f x).mp hax
      have hshort : LeavesOnce N u (a ++ [f]) := by
        intro g hg
        refine honce g ?_
        rw [List.append_assoc, List.tail_append_of_ne_nil (by simp)]
        exact List.mem_append_left _ hg
      have hlen := congrArg List.length (followed_unique N (by simp) (by simp) hax
        ((N.walk_concat u (a ++ [f] ++ b) f _).mpr ⟨hpw, rfl⟩)
        (fun g hg => hpf g (List.mem_append_left b hg)) (hsplit ▸ hp) hshort honce)
      simp only [List.length_append, List.length_singleton] at hlen
      omega

omit [DecidableEq V] in
/-- **CLOSED WALKS OF PREDECESSORS ARE NEGATIVE**, however often they go round. -/
theorem Kept.closed_neg {L : Labels V E W} (h : Kept N L) {c : List E} (hc : c ≠ []) {v : V}
    (hwalk : N.Walk v c v) (hf : Followed N L c) : N.weightOf c < 0 := by
  induction hlen : c.length using Nat.strong_induction_on generalizing c with
  | _ m ih =>
      by_cases honce : LeavesOnce N v c
      · exact h.cycle_neg v c hc hwalk (nodup_of_leavesOnce N hwalk hf honce) hf
      -- back at its start before the end, the walk is two shorter ones
      · obtain ⟨e, he, rfl⟩ : ∃ e ∈ c.tail, N.src e = v := by
          simpa only [LeavesOnce, not_forall, not_not, exists_prop] using honce
        obtain ⟨a, rest, rfl⟩ := List.exists_cons_of_ne_nil hc
        obtain ⟨p, q, hrest⟩ := List.append_of_mem he
        obtain rfl : rest = p ++ e :: q := hrest
        rw [← List.cons_append] at hwalk hf hlen ⊢
        obtain ⟨x, hfirst, hsecond⟩ := (N.walk_append _ (a :: p) (e :: q) _).mp hwalk
        obtain rfl : N.src e = x := hsecond.1
        rw [List.length_append] at hlen
        have hneg := ih (a :: p).length (by rw [← hlen]; simp) (List.cons_ne_nil a p) hfirst
          (fun f hmem => hf f (List.mem_append_left _ hmem)) rfl
        have hneg' := ih (e :: q).length (by rw [← hlen]; simp) (List.cons_ne_nil e q) hsecond
          (fun f hmem => hf f (List.mem_append_right _ hmem)) rfl
        rw [N.weightOf_append]
        exact add_neg hneg hneg'

omit [AddCommGroup W] [LinearOrder W] [DecidableEq V] [IsOrderedAddMonoid W] in
/-- A walk along predecessors that ends on a cycle of them never was off it. -/
theorem mem_cycle_of_followed {L : Labels V E W} {w : V} {d : List E} (hd : N.Walk w d w)
    (hdf : Followed N L d) {u v : V} {p : List E} (hp : N.Walk u p v) (hpf : Followed N L p)
    (hv : ∃ f ∈ d, N.dst f = v) : ∀ e ∈ p, e ∈ d := by
  induction p using List.reverseRecOn generalizing v with
  | nil =>
      intro e he
      exact absurd he List.not_mem_nil
  | append_singleton p a ih =>
      obtain ⟨hpu, hav⟩ := (N.walk_concat u p a v).mp hp
      obtain ⟨f, hf, hfv⟩ := hv
      -- both edges are the predecessor where they end
      have hpred := hpf a (List.mem_append_right p List.mem_cons_self)
      rw [hav, ← hfv, hdf f hf] at hpred
      obtain rfl := Option.some.inj hpred
      have hrest := ih hpu (fun e he => hpf e (List.mem_append_left [f] he))
        (N.exists_before hd hf)
      intro e he
      rcases List.mem_append.mp he with he | he
      · exact hrest e he
      · rw [List.mem_singleton.mp he]
        exact hf

omit [AddCommGroup W] [LinearOrder W] [DecidableEq V] [IsOrderedAddMonoid W] in
/-- **CYCLES OF PREDECESSORS THAT MEET ARE ONE CYCLE.** -/
theorem cycle_subset_of_meet {L : Labels V E W} {v w : V} {c d : List E} (hc : N.Walk v c v)
    (hd : N.Walk w d w) (hcf : Followed N L c) (hdf : Followed N L d) {e f : E} (he : e ∈ c)
    (hf : f ∈ d) (hmeet : N.dst e = N.dst f) : ∀ a ∈ c, a ∈ d := by
  -- go once round the first cycle, up to the edge that meets the second
  obtain ⟨p, q, rfl⟩ := List.append_of_mem he
  obtain ⟨x, hpx, rfl, hq⟩ := (N.walk_append v p (e :: q) v).mp hc
  have hround : N.Walk (N.dst e) (q ++ (p ++ [e])) (N.dst e) :=
    (N.walk_append _ q (p ++ [e]) _).mpr ⟨v, hq, (N.walk_concat v p e _).mpr ⟨hpx, rfl⟩⟩
  have hmem : ∀ a, a ∈ q ++ (p ++ [e]) ↔ a ∈ p ++ e :: q := by
    intro a
    rw [List.append_cons p e q]
    exact List.mem_append.trans (or_comm.trans List.mem_append.symm)
  intro a ha
  exact mem_cycle_of_followed N hd hdf hround (fun b hb => hcf b ((hmem b).mp hb))
    ⟨f, hf, hmeet.symm⟩ a ((hmem a).mpr ha)

/-! ## Slack -/

omit [DecidableEq V] in
/-- If no edge of a walk can be relaxed by more than `ε`, the distances rise along
    it by at most its weight and `ε` an edge. -/
theorem dist_le_add_slack {L : Labels V E W} {ε : W} {u : V} {p : List E} {v : V}
    (hwalk : N.Walk u p v)
    (h : ∀ e ∈ p, L.dist (N.dst e) ≤ L.dist (N.src e) + (N.weight e + ε : W)) :
    L.dist v ≤ L.dist u + (N.weightOf p + p.length • ε : W) := by
  induction p generalizing u with
  | nil =>
      obtain rfl : u = v := hwalk
      rw [N.weightOf_nil, List.length_nil, zero_nsmul, add_zero, WithTop.coe_zero, add_zero]
  | cons e p ih =>
      obtain ⟨rfl, hwalk⟩ := hwalk
      have hrest := ih hwalk fun f hf => h f (List.mem_cons_of_mem e hf)
      have hsum : N.weightOf (e :: p) + (e :: p).length • ε =
          N.weight e + ε + (N.weightOf p + p.length • ε) := by
        rw [N.weightOf_cons, List.length_cons, succ_nsmul]
        abel
      rw [hsum, WithTop.coe_add, ← add_assoc]
      exact hrest.trans (add_le_add_left (h e List.mem_cons_self) _)

omit [DecidableEq V] in
/-- **A NEGATIVE CYCLE HAS SLACK**: one of its edges can be relaxed by more than
    `ε` when `ε` an edge does not make up for its weight. -/
theorem exists_slack {L : Labels V E W} {ε : W} {v : V} {c : List E} (hwalk : N.Walk v c v)
    (hfinite : L.dist v ≠ ⊤) (hneg : N.weightOf c + c.length • ε < 0) :
    ∃ e ∈ c, L.dist (N.src e) + (N.weight e + ε : W) < L.dist (N.dst e) := by
  by_contra hno
  -- no edge with slack: once round the cycle the distance would not rise
  have hle := dist_le_add_slack N hwalk fun e he =>
    le_of_not_gt fun hlt => hno ⟨e, he, hlt⟩
  cases hv : L.dist v with
  | top => exact hfinite hv
  | coe d =>
      rw [hv, ← WithTop.coe_add, WithTop.coe_le_coe] at hle
      exact absurd ((le_add_iff_nonneg_right d).mp hle) (not_le_of_gt hneg)

end Relaxation
