import Mathlib.Data.List.Basic
import Mathlib.Order.Lattice

/-! # A sliding window over a stamped log

    A log grows at its end, with nondecreasing stamps, and is never forgotten.
    A deque keeps a part of it: every push first appends the new entry and then
    pops expired entries off the FRONT, until the first one that is not.  As
    long as expiry only depends on age, the deque has exactly the entries of the
    log that are still inside the window (`Keeps.push`), whatever was popped. -/

namespace SlidingWindow

variable {T α : Type} [LinearOrder T]

/-- Which stamps are inside the window at a given time: newer ones last longer,
    and what is inside later was inside before. -/
structure Window (T : Type) [LinearOrder T] where
  live : T → T → Bool
  newer : ∀ {now s s' : T}, live now s = true → s ≤ s' → live now s' = true
  earlier : ∀ {now now' s : T}, live now' s = true → now ≤ now' → live now s = true

/-- The entries inside the window. -/
def Window.inside (w : Window T) (now : T) (log : List (T × α)) : List (T × α) :=
  log.filter fun x => w.live now x.1

/-- What popping expired entries off the front leaves. -/
def Window.evict (w : Window T) (now : T) (deque : List (T × α)) : List (T × α) :=
  deque.dropWhile fun x => !w.live now x.1

/-- Stamps in order. -/
def Ordered (log : List (T × α)) : Prop := log.Pairwise fun x y => x.1 ≤ y.1

variable {w : Window T}

@[simp] theorem inside_nil (now : T) : w.inside now ([] : List (T × α)) = [] := rfl

theorem inside_append (now : T) (xs ys : List (T × α)) :
    w.inside now (xs ++ ys) = w.inside now xs ++ w.inside now ys :=
  List.filter_append xs ys

/-- In an ordered deque no live entry stands behind an expired one. -/
theorem evict_eq_inside {deque : List (T × α)} (h : Ordered deque) (now : T) :
    w.evict now deque = w.inside now deque := by
  induction deque with
  | nil => rfl
  | cons x xs ih =>
      obtain ⟨hx, hxs⟩ := List.pairwise_cons.mp h
      rw [Window.evict, Window.inside]
      by_cases hlive : w.live now x.1 = true
      · -- the first live entry stops the popping: everything behind it is newer
        have hall : ∀ y ∈ x :: xs, w.live now y.1 = true := by
          intro y hy
          rcases List.mem_cons.mp hy with rfl | hy
          · exact hlive
          · exact w.newer hlive (hx y hy)
        rw [List.filter_eq_self.mpr hall]
        simp [hlive]
      · rw [Bool.not_eq_true] at hlive
        simpa [Window.evict, Window.inside, hlive] using ih hxs

/-- What a later window keeps of an earlier one is the later window. -/
theorem inside_inside {now now' : T} (h : now ≤ now') (log : List (T × α)) :
    w.inside now' (w.inside now log) = w.inside now' log := by
  rw [Window.inside, Window.inside, Window.inside, List.filter_filter]
  refine List.filter_congr ?_
  intro x _
  cases hlive : w.live now' x.1 with
  | false => rfl
  | true => exact w.earlier hlive h

/-! ## The deque -/

/-- A deque that still has all that counts of its log, now and later. -/
structure Keeps (w : Window T) (deque log : List (T × α)) : Prop where
  part : deque.Sublist log
  agrees : ∀ now, (∀ x ∈ log, x.1 ≤ now) → w.inside now deque = w.inside now log

theorem Keeps.empty : Keeps w ([] : List (T × α)) [] where
  part := List.Sublist.refl []
  agrees := fun _ _ => rfl

/-- A push leaves the window of the log, and still keeps it. -/
theorem Keeps.push {deque log : List (T × α)} (h : Keeps w deque log) {x : T × α}
    (hlog : Ordered (log ++ [x])) :
    w.evict x.1 (deque ++ [x]) = w.inside x.1 (log ++ [x]) ∧
      Keeps w (w.evict x.1 (deque ++ [x])) (log ++ [x]) := by
  have hpart : (deque ++ [x]).Sublist (log ++ [x]) := h.part.append (List.Sublist.refl [x])
  have hlast : ∀ y ∈ log, y.1 ≤ x.1 := by
    intro y hy
    exact (List.pairwise_append.mp hlog).2.2 y hy x (List.mem_singleton_self x)
  have hevict : w.evict x.1 (deque ++ [x]) = w.inside x.1 (log ++ [x]) := by
    rw [evict_eq_inside (hlog.sublist hpart), inside_append, h.agrees x.1 hlast, ← inside_append]
  refine ⟨hevict, ?_, ?_⟩
  · rw [hevict]
    exact List.filter_sublist
  · intro now hnow
    rw [hevict]
    exact inside_inside (hnow x (List.mem_append_right log (List.mem_singleton_self x))) _

end SlidingWindow
