import Mathlib.Data.List.Induction

/-! # Overwriting in place

    A write changes the cells it hits and no others, and where it hits it leaves
    nothing of earlier writes.  A cell is settled by a sequence of writes when
    going through the sequence once more would not change it.  Whatever a run of
    writes leaves is settled by every last part of the run
    (`Overwriting.settled_run`, `Overwriting.settled_suffix`), so replaying that
    part changes nothing (`Overwriting.replay`). -/

namespace Overwrites

variable {α β : Type}

/-- The laws of a write. -/
structure Overwriting (hits : α → β → Prop) (write : α → β → β) : Prop where
  /-- A write leaves what it does not hit. -/
  kept : ∀ x b, ¬hits x b → write x b = b
  /-- A write does not change which writes hit. -/
  hits_write : ∀ x y b, hits x (write y b) ↔ hits x b
  /-- A write that hits leaves nothing of the one before. -/
  absorbs : ∀ x y b, hits x b → write x (write y b) = write x b

/-- A cell after a sequence of writes. -/
def run (write : α → β → β) (xs : List α) (b : β) : β := xs.foldl (fun b x => write x b) b

/-- A cell that the writes would not change. -/
def Settled (write : α → β → β) (xs : List α) (b : β) : Prop := run write xs b = b

theorem run_append (write : α → β → β) (xs ys : List α) (b : β) :
    run write (xs ++ ys) b = run write ys (run write xs b) :=
  List.foldl_append

theorem run_concat (write : α → β → β) (xs : List α) (x : α) (b : β) :
    run write (xs ++ [x]) b = write x (run write xs b) := by
  rw [run_append]
  rfl

/-- Only what the writes do matters. -/
theorem run_congr {write : α → β → β} {xs ys : List α} (h : xs.map write = ys.map write) (b : β) :
    run write xs b = run write ys b := by
  have hmap : ∀ zs : List α, run write zs b = (zs.map write).foldl (fun b f => f b) b := by
    intro zs
    rw [List.foldl_map]
    rfl
  rw [hmap, hmap, h]

theorem settled_nil (write : α → β → β) (b : β) : Settled write [] b := rfl

namespace Overwriting

variable {hits : α → β → Prop} {write : α → β → β} (h : Overwriting hits write)

include h

theorem hits_run (x : α) (xs : List α) (b : β) : hits x (run write xs b) ↔ hits x b := by
  induction xs using List.reverseRecOn with
  | nil => exact Iff.rfl
  | append_singleton xs y ih =>
      rw [run_concat, h.hits_write]
      exact ih

/-- A write that hits leaves nothing of all those before. -/
theorem absorbs_run {x : α} {b : β} (hx : hits x b) (xs : List α) :
    write x (run write xs b) = write x b := by
  induction xs using List.reverseRecOn with
  | nil => rfl
  | append_singleton xs y ih =>
      rw [run_concat, h.absorbs x y _ ((h.hits_run x xs b).mpr hx)]
      exact ih

/-- One more write settles a settled cell for one write more. -/
theorem settled_write {xs : List α} {b : β} (hb : Settled write xs b) (x : α) :
    Settled write (xs ++ [x]) (write x b) := by
  rw [Settled, run_concat]
  by_cases hx : hits x b
  · rw [h.absorbs_run ((h.hits_write x x b).mpr hx)]
    exact h.absorbs x x b hx
  · rw [h.kept x b hx, hb]
    exact h.kept x b hx

/-- A cell that is what the last write leaves is settled. -/
theorem settled_new {x : α} {b : β} (hx : hits x b) (hb : write x b = b) (xs : List α) :
    Settled write (xs ++ [x]) b := by
  rw [Settled, run_concat, h.absorbs_run hx]
  exact hb

/-- **WHAT A RUN LEAVES IS SETTLED.** -/
theorem settled_run (xs : List α) (b : β) : Settled write xs (run write xs b) := by
  induction xs using List.reverseRecOn with
  | nil => exact settled_nil write b
  | append_singleton xs x ih =>
      rw [run_concat]
      exact h.settled_write ih x

/-- What a sequence settles, each last part of it settles. -/
theorem settled_suffix {xs ys : List α} {b : β} (hb : Settled write (xs ++ ys) b) :
    Settled write ys b := by
  rw [Settled, run_append] at hb
  rw [← hb]
  exact h.settled_run ys _

/-- **A REPLAY CHANGES NOTHING**: going through the last part of a run again. -/
theorem replay (xs ys : List α) (b : β) :
    run write (xs ++ ys ++ ys) b = run write (xs ++ ys) b := by
  rw [run_append]
  exact h.settled_suffix (h.settled_run (xs ++ ys) b)

end Overwriting

end Overwrites
