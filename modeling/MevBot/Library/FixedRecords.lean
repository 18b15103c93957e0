import Mathlib.Data.List.Basic

/-! # Counted records of a fixed size

    A list on the wire: records of one size, one behind the other, and a count
    declared beforehand.  A reader steps from record to record and stops at the
    first one cut off by the end of the data.  Nothing is complete behind a record
    that is not, so it finds all complete ones (`scan_eq_complete`), at fixed
    distances (`scan_getElem`). -/

namespace FixedRecords

variable (size len : Nat)

/-- Where the reader finds `count` more records, the next one at `offset`, in
    data of `len` bytes. -/
def scan : Nat → Nat → List Nat
  | 0, _ => []
  | count + 1, offset =>
      if offset + size > len then [] else offset :: scan count (offset + size)

/-- The complete ones of the `count` records declared from `offset` on. -/
def complete (count offset : Nat) : List Nat :=
  ((List.range count).map fun i => offset + size * i).filter fun pos => pos + size ≤ len

variable {size len}

/-- A record that does not fit ends the scan. -/
theorem scan_short {offset : Nat} (h : len < offset + size) (count : Nat) :
    scan size len count offset = [] := by
  cases count with
  | zero => rfl
  | succ count => rw [scan, if_pos h]

/-- A record that fits is the next. -/
theorem scan_room {offset : Nat} (h : offset + size ≤ len) (count : Nat) :
    scan size len (count + 1) offset = offset :: scan size len count (offset + size) := by
  rw [scan, if_neg (Nat.not_lt.mpr h)]

/-- The record at `offset`, and the others behind it. -/
theorem declared_succ (count offset : Nat) :
    ((List.range (count + 1)).map fun i => offset + size * i) =
      offset :: (List.range count).map fun i => offset + size + size * i := by
  rw [List.range_succ_eq_map, List.map_cons, List.map_map]
  refine congrArg (offset :: ·) (List.map_congr_left fun i _ => ?_)
  show offset + size * (i + 1) = offset + size + size * i
  rw [Nat.mul_succ, Nat.add_assoc, Nat.add_comm size]

/-- **THE READER FINDS THE COMPLETE RECORDS.** -/
theorem scan_eq_complete (count offset : Nat) :
    scan size len count offset = complete size len count offset := by
  induction count generalizing offset with
  | zero => rfl
  | succ count ih =>
      rw [complete, declared_succ]
      by_cases hroom : offset + size ≤ len
      · rw [scan_room hroom, ih, List.filter_cons_of_pos (by simpa using hroom)]
        rfl
      -- nothing behind a record that is cut off is complete
      · rw [scan_short (Nat.not_le.mp hroom), eq_comm, List.filter_eq_nil_iff]
        intro pos hpos
        rw [decide_eq_true_eq]
        rcases List.mem_cons.mp hpos with rfl | hpos
        · exact hroom
        · obtain ⟨i, -, rfl⟩ := List.mem_map.mp hpos
          omega

/-- No more records are found than declared. -/
theorem length_scan_le (count offset : Nat) : (scan size len count offset).length ≤ count := by
  rw [scan_eq_complete]
  refine Nat.le_trans (List.length_filter_le _ _) (Nat.le_of_eq ?_)
  rw [List.length_map, List.length_range]

/-- **THE `j`-TH RECORD FOUND** is `j` records behind the first, and complete. -/
theorem scan_getElem {count offset j pos : Nat} (h : (scan size len count offset)[j]? = some pos) :
    pos = offset + size * j ∧ pos + size ≤ len := by
  induction count generalizing offset j with
  | zero => cases h
  | succ count ih =>
      by_cases hroom : offset + size ≤ len
      · rw [scan_room hroom] at h
        cases j with
        | zero =>
            obtain rfl := Option.some.inj h
            exact ⟨rfl, hroom⟩
        | succ j =>
            obtain ⟨rfl, hin⟩ := ih h
            exact ⟨by rw [Nat.mul_succ, Nat.add_assoc, Nat.add_comm size], hin⟩
      · rw [scan_short (Nat.not_le.mp hroom)] at h
        cases h

/-- How many records are found: as many as are declared and fit. -/
theorem length_scan (hsize : 0 < size) (count offset : Nat) :
    (scan size len count offset).length = min count ((len - offset) / size) := by
  induction count generalizing offset with
  | zero => rw [scan, Nat.zero_min, List.length_nil]
  | succ count ih =>
      by_cases hroom : offset + size ≤ len
      · have hdiv : (len - offset) / size = (len - (offset + size)) / size + 1 := by
          rw [← Nat.sub_sub, ← Nat.add_div_right _ hsize, Nat.sub_add_cancel (by omega)]
        rw [scan_room hroom, List.length_cons, ih, hdiv, Nat.add_min_add_right]
      · rw [scan_short (Nat.not_le.mp hroom), Nat.div_eq_of_lt (by omega), Nat.min_zero,
          List.length_nil]

end FixedRecords
