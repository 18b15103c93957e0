import Mathlib.Order.Iterate
import Mathlib.Order.Lattice

/-! # Ternary search

    A search for a good place of a function probes the two thirds of its bracket
    and drops the third next to the lower value; ties drop the upper one.  A
    bracket that is narrow enough is left alone.

    Nothing is assumed of the function, so a cut may drop every good place
    (`Misled`).  The search ends well exactly when no cut does and the middle of
    the last bracket is as good as what is left there (`good_mid_iff`).  That no
    cut does is certain for a function that rises to a plateau and falls behind
    it, at the distance of the probes (`Peaked.search`). -/

namespace TernarySearch

/-! ## Brackets -/

/-- An interval of places, with both ends. -/
@[ext] structure Bracket where
  lo : Nat
  hi : Nat
  le : lo ≤ hi

/-- The places between the ends. -/
def Bracket.Has (b : Bracket) (x : Nat) : Prop := b.lo ≤ x ∧ x ≤ b.hi

/-- How far the ends lie apart. -/
def Bracket.width (b : Bracket) : Nat := b.hi - b.lo

/-- The first third. -/
def Bracket.first (b : Bracket) : Nat := b.lo + b.width / 3

/-- The second third. -/
def Bracket.second (b : Bracket) : Nat := b.hi - b.width / 3

/-- The point between the ends. -/
def Bracket.mid (b : Bracket) : Nat := (b.lo + b.hi) / 2

/-- The first third ends inside. -/
theorem Bracket.first_le (b : Bracket) : b.first ≤ b.hi := by
  have := b.le
  rw [first, width]
  omega

/-- The last third begins inside. -/
theorem Bracket.le_second (b : Bracket) : b.lo ≤ b.second := by
  have := b.le
  rw [second, width]
  omega

/-- The point between the ends is inside. -/
theorem Bracket.has_mid (b : Bracket) : b.Has b.mid := by
  have := b.le
  rw [Has, mid]
  omega

/-- The probes of a wide bracket are a third of the width apart. -/
theorem Bracket.first_add_le (b : Bracket) {d : Nat} (h : 3 * d ≤ b.width) :
    b.first + d ≤ b.second := by
  have := b.le
  rw [first, second]
  rw [width] at h ⊢
  omega

/-! ## The search -/

section Search

variable {β : Type} [LinearOrder β] (f : Nat → β)

/-- Drop the third next to the lower probe. -/
def cut (b : Bracket) : Bracket :=
  if f b.first < f b.second then ⟨b.first, b.hi, b.first_le⟩ else ⟨b.lo, b.second, b.le_second⟩

/-- One round: a bracket narrower than `w` is left alone. -/
def step (w : Nat) (b : Bracket) : Bracket := if b.width < w then b else cut f b

/-- The bracket after `n` rounds. -/
def search (w n : Nat) (b : Bracket) : Bracket := (step f w)^[n] b

/-- A search begins with a step. -/
theorem search_succ (w n : Nat) (b : Bracket) :
    search f w (n + 1) b = search f w n (step f w b) := rfl

/-- A search ends with a step. -/
theorem search_succ' (w n : Nat) (b : Bracket) :
    search f w (n + 1) b = step f w (search f w n b) :=
  Function.iterate_succ_apply' _ n b

/-- A search can be interrupted. -/
theorem search_add (w m n : Nat) (b : Bracket) :
    search f w (m + n) b = search f w m (search f w n b) :=
  Function.iterate_add_apply _ m n b

variable {f} {w n k x : Nat} {b : Bracket}

/-- Where the function rises, the first third goes. -/
theorem cut_upper (h : f b.first < f b.second) : cut f b = ⟨b.first, b.hi, b.first_le⟩ := if_pos h

/-- Where it does not, the last third goes. -/
theorem cut_lower (h : ¬f b.first < f b.second) : cut f b = ⟨b.lo, b.second, b.le_second⟩ :=
  if_neg h

/-- A narrow bracket is left as it is. -/
theorem step_narrow (h : b.width < w) : step f w b = b := if_pos h

/-- A wide one is cut. -/
theorem step_wide (h : w ≤ b.width) : step f w b = cut f b := if_neg (Nat.not_lt.mpr h)

/-- A cut adds no points. -/
theorem has_of_cut (h : (cut f b).Has x) : b.Has x := by
  by_cases hlt : f b.first < f b.second
  · rw [cut_upper hlt] at h
    exact ⟨Nat.le_trans (Nat.le_add_right _ _) h.1, h.2⟩
  · rw [cut_lower hlt] at h
    exact ⟨h.1, Nat.le_trans h.2 (Nat.sub_le _ _)⟩

/-- A step adds no points. -/
theorem has_of_step (h : (step f w b).Has x) : b.Has x := by
  rcases Nat.lt_or_ge b.width w with hw | hw
  · rwa [step_narrow hw] at h
  · rw [step_wide hw] at h
    exact has_of_cut h

/-- A later bracket lies in every earlier one. -/
theorem has_of_search (hk : k ≤ n) (h : (search f w n b).Has x) : (search f w k b).Has x := by
  induction hk with
  | refl => exact h
  | step _ ih =>
      rw [search_succ'] at h
      exact ih (has_of_step h)

/-! ## Narrowing -/

/-- A cut takes a third of the width, rounded down. -/
theorem width_cut (b : Bracket) : (cut f b).width = b.width - b.width / 3 := by
  have := b.le
  by_cases hlt : f b.first < f b.second
  · rw [cut_upper hlt]
    show b.hi - (b.lo + b.width / 3) = _
    rw [Bracket.width]
    omega
  · rw [cut_lower hlt]
    show b.hi - b.width / 3 - b.lo = _
    rw [Bracket.width]
    omega

/-- A search leaves a narrow bracket as it is. -/
theorem search_narrow (h : b.width < w) : search f w n b = b :=
  Function.iterate_fixed (step_narrow h) n

/-- A narrow bracket is kept from then on. -/
theorem search_of_narrow (hn : n ≤ k) (h : (search f w n b).width < w) :
    search f w k b = search f w n b := by
  obtain ⟨m, rfl⟩ := Nat.exists_eq_add_of_le' hn
  rw [search_add]
  exact search_narrow h

/-- Enough cuts make any bracket narrow. -/
theorem width_search_lt {m : Nat} (hb : b.width ≤ m) (h : (fun x => x - x / 3)^[n] m < w) :
    (search f w n b).width < w := by
  induction n generalizing b m with
  | zero => exact Nat.lt_of_le_of_lt hb h
  | succ n ih =>
      rcases Nat.lt_or_ge b.width w with hw | hw
      · rwa [search_narrow hw]
      · rw [search_succ, step_wide hw]
        refine ih (m := m - m / 3) ?_ h
        rw [width_cut]
        omega

/-- As long as the cuts leave it wide, a bracket is cut every round. -/
theorem width_search_wide (h : w ≤ (fun x => x - x / 3)^[n] b.width) :
    (search f w n b).width = (fun x => x - x / 3)^[n] b.width := by
  induction n generalizing b with
  | zero => rfl
  | succ n ih =>
      have hshrink : (fun x => x - x / 3)^[n + 1] b.width ≤ b.width := by
        have hle : (fun x : Nat => x - x / 3) ≤ id := fun x => Nat.sub_le x _
        exact Function.iterate_le_id_of_le_id hle (n + 1) b.width
      rw [Function.iterate_succ_apply] at h ⊢
      rw [search_succ, step_wide (Nat.le_trans h hshrink), ih]
      · rw [width_cut]
      · rwa [width_cut]

/-- **WHEN THE SEARCH ENDS NARROW** does not depend on what it searches. -/
theorem width_search_lt_iff :
    (search f w n b).width < w ↔ (fun x => x - x / 3)^[n] b.width < w := by
  constructor
  · intro h
    by_contra hle
    rw [width_search_wide (Nat.not_lt.mp hle)] at h
    exact hle h
  · exact width_search_lt (Nat.le_refl _)

/-- A wider bracket is still wider after as many cuts. -/
theorem shrink_mono (n : Nat) : Monotone (fun x : Nat => x - x / 3)^[n] := by
  refine Monotone.iterate ?_ n
  intro x y hxy
  dsimp only
  omega

/-! ## Good places -/

variable (f) in
/-- The cut of a bracket with a good place drops all of them. -/
structure Misled (good : Nat → Prop) (b : Bracket) : Prop where
  had : ∃ x, b.Has x ∧ good x
  dropped : ∀ x, b.Has x → good x →
    if f b.first < f b.second then x < b.first else b.second < x

variable {good : Nat → Prop}

/-- A cut misleads when it loses the last good point. -/
theorem misled_iff :
    Misled f good b ↔ (∃ x, b.Has x ∧ good x) ∧ ¬∃ x, (cut f b).Has x ∧ good x := by
  have hcut : ∀ x, b.Has x →
      ((if f b.first < f b.second then x < b.first else b.second < x) ↔ ¬(cut f b).Has x) := by
    intro x hx
    by_cases hlt : f b.first < f b.second
    · rw [if_pos hlt, cut_upper hlt]
      exact ⟨fun h hin => absurd hin.1 (Nat.not_le.mpr h),
        fun h => Nat.lt_of_not_le fun hle => h ⟨hle, hx.2⟩⟩
    · rw [if_neg hlt, cut_lower hlt]
      exact ⟨fun h hin => absurd hin.2 (Nat.not_le.mpr h),
        fun h => Nat.lt_of_not_le fun hle => h ⟨hx.1, hle⟩⟩
  constructor
  · rintro ⟨hhad, hdropped⟩
    refine ⟨hhad, ?_⟩
    rintro ⟨x, hx, hgood⟩
    exact (hcut x (has_of_cut hx)).mp (hdropped x (has_of_cut hx) hgood) hx
  · rintro ⟨hhad, hnone⟩
    exact ⟨hhad, fun x hx hgood => (hcut x hx).mpr fun hin => hnone ⟨x, hin, hgood⟩⟩

/-- Where no cut misleads, a good place is left. -/
theorem exists_good (hb : ∃ x, b.Has x ∧ good x)
    (h : ∀ k, w ≤ (search f w k b).width → ¬Misled f good (search f w k b)) (n : Nat) :
    ∃ x, (search f w n b).Has x ∧ good x := by
  induction n with
  | zero => exact hb
  | succ n ih =>
      rw [search_succ']
      rcases Nat.lt_or_ge (search f w n b).width w with hw | hw
      · rwa [step_narrow hw]
      · rw [step_wide hw]
        by_contra hnone
        exact h n hw (misled_iff.mpr ⟨ih, hnone⟩)

/-- A good place that is left was dropped by no cut. -/
theorem not_misled (hk : k < n) (hx : (search f w n b).Has x) (hgood : good x)
    (hw : w ≤ (search f w k b).width) : ¬Misled f good (search f w k b) := by
  intro h
  have hkept := has_of_search (Nat.succ_le_of_lt hk) hx
  rw [search_succ', step_wide hw] at hkept
  exact (misled_iff.mp h).2 ⟨x, hkept, hgood⟩

/-- **WHEN THE SEARCH ENDS WELL**: when no cut drops the last good place, and the middle of
    the last bracket is good if anything there is. -/
theorem good_mid_iff (hb : ∃ x, b.Has x ∧ good x) (hn : (search f w n b).width < w) :
    good (search f w n b).mid ↔
      (∀ k, w ≤ (search f w k b).width → ¬Misled f good (search f w k b)) ∧
        ((∃ x, (search f w n b).Has x ∧ good x) → good (search f w n b).mid) := by
  constructor
  · intro hgood
    refine ⟨?_, fun _ => hgood⟩
    intro k hw
    have hk : k < n := by
      by_contra hle
      rw [search_of_narrow (Nat.not_lt.mp hle) hn] at hw
      exact Nat.not_le.mpr hn hw
    exact not_misled hk (search f w n b).has_mid hgood hw
  · rintro ⟨hnone, hmid⟩
    exact hmid (exists_good hb hnone n)

end Search

/-! ## Peaks -/

section Peaks

variable {β : Type} [LinearOrder β] {f : Nat → β}

/-- Over distances of `d` and more, the function rises up to `p` and does not rise from `q`
    on. -/
structure Peaked (f : Nat → β) (d : Nat) (b : Bracket) (p q : Nat) : Prop where
  rises : ∀ x y, b.lo ≤ x → x + d ≤ y → y ≤ p → f x < f y
  falls : ∀ x y, q ≤ x → x + d ≤ y → y ≤ b.hi → f y ≤ f x

variable {d w p q : Nat} {b : Bracket}

/-- A bracket that meets the plateau still meets it after a round. -/
theorem Peaked.step (hd : 3 * d ≤ w) (h : Peaked f d b p q) (hlo : b.lo ≤ q) (hhi : p ≤ b.hi) :
    Peaked f d (step f w b) p q ∧ (TernarySearch.step f w b).lo ≤ q ∧
      p ≤ (TernarySearch.step f w b).hi := by
  rcases Nat.lt_or_ge b.width w with hw | hw
  · rw [step_narrow hw]
    exact ⟨h, hlo, hhi⟩
  · have hapart := b.first_add_le (Nat.le_trans hd hw)
    rw [step_wide hw]
    by_cases hlt : f b.first < f b.second
    · rw [cut_upper hlt]
      refine ⟨⟨?_, h.falls⟩, ?_, hhi⟩
      · intro x y hx
        exact h.rises x y (Nat.le_trans (Nat.le_add_right _ _) hx)
      · -- from the plateau on the second probe would not be higher
        by_contra hle
        exact absurd hlt (not_lt.mpr (h.falls _ _ (Nat.le_of_lt (Nat.not_le.mp hle)) hapart
          (Nat.sub_le _ _)))
    · rw [cut_lower hlt]
      refine ⟨⟨h.rises, ?_⟩, hlo, ?_⟩
      · intro x y hx hy hhi'
        exact h.falls x y hx hy (Nat.le_trans hhi' (Nat.sub_le _ _))
      · -- up to the plateau the second probe would be higher
        by_contra hle
        exact hlt (h.rises _ _ (Nat.le_add_right _ _) hapart (Nat.le_of_lt (Nat.not_le.mp hle)))

/-- **THE SEARCH STAYS WITH THE PLATEAU**: its brackets meet it to the end. -/
theorem Peaked.search (hd : 3 * d ≤ w) (h : Peaked f d b p q) (hlo : b.lo ≤ q) (hhi : p ≤ b.hi)
    (n : Nat) : (search f w n b).lo ≤ q ∧ p ≤ (TernarySearch.search f w n b).hi := by
  induction n generalizing b with
  | zero => exact ⟨hlo, hhi⟩
  | succ n ih =>
      obtain ⟨hstep, hlo', hhi'⟩ := h.step hd hlo hhi
      rw [search_succ]
      exact ih hstep hlo' hhi'

/-- The middle of a narrow bracket that meets the plateau is near it. -/
theorem mid_near (hw : b.width < w) (hlo : b.lo ≤ q) (hhi : p ≤ b.hi) :
    p ≤ b.mid + w / 2 ∧ b.mid ≤ q + w / 2 := by
  have := b.le
  rw [Bracket.width] at hw
  rw [Bracket.mid]
  omega

end Peaks

end TernarySearch
