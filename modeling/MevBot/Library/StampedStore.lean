import Mathlib.Data.List.Induction
import Mathlib.Logic.Function.Basic
import Mathlib.Order.Lattice

/-! # A store gated by stamps

    A store keeps one entry a key.  An arriving entry replaces the kept one
    unless its stamp is lower.  Whatever the order of arrival, the entry kept is
    the newest: of those with the greatest stamp, the last (`after_iff`).  Where
    no two stamps of a key are equal, the order of arrival does not matter
    (`after_perm`); where no key's stamps ever fall, the entry kept is just the
    last (`after_ordered`). -/

namespace StampedStore

variable {K S E : Type} [LinearOrder S] (key : E → K) (stamp : E → S)

/-- The entry kept when one arrives. -/
def keep (current : Option E) (e : E) : E :=
  match current with
  | some c => if stamp c ≤ stamp e then e else c
  | none => e

/-- The store after an arrival. -/
def put [DecidableEq K] (store : K → Option E) (e : E) : K → Option E :=
  Function.update store (key e) (some (keep stamp (store (key e)) e))

/-- The store after a sequence of arrivals. -/
def after [DecidableEq K] (arrivals : List E) : K → Option E :=
  arrivals.foldl (put key stamp) fun _ => none

/-- An arrival under the key with no newer one beside it: those before it have no
    greater stamp, those behind it have a lower one. -/
def Newest (arrivals : List E) (k : K) (e : E) : Prop :=
  ∃ before behind, arrivals = before ++ e :: behind ∧ key e = k ∧
    (∀ x ∈ before, key x = k → stamp x ≤ stamp e) ∧ ∀ x ∈ behind, key x = k → stamp x < stamp e

variable {key stamp}

theorem Newest.mem {arrivals : List E} {k : K} {e : E} (h : Newest key stamp arrivals k e) :
    e ∈ arrivals := by
  obtain ⟨before, behind, rfl, -⟩ := h
  exact List.mem_append_right _ List.mem_cons_self

theorem Newest.key_eq {arrivals : List E} {k : K} {e : E} (h : Newest key stamp arrivals k e) :
    key e = k := by
  obtain ⟨before, behind, -, hkey, -⟩ := h
  exact hkey

/-- No arrival under the key has a greater stamp. -/
theorem Newest.stamp_le {arrivals : List E} {k : K} {e : E} (h : Newest key stamp arrivals k e)
    {x : E} (hx : x ∈ arrivals) (hkey : key x = k) : stamp x ≤ stamp e := by
  obtain ⟨before, behind, rfl, -, hbefore, hbehind⟩ := h
  rcases List.mem_append.mp hx with hx | hx
  · exact hbefore x hx hkey
  · rcases List.mem_cons.mp hx with rfl | hx
    · exact le_refl _
    · exact le_of_lt (hbehind x hx hkey)

/-- An arrival under another key, or with a lower stamp, changes nothing. -/
theorem Newest.concat_other {arrivals : List E} {k : K} {e e' : E}
    (h : Newest key stamp arrivals k e) (hother : key e' = k → stamp e' < stamp e) :
    Newest key stamp (arrivals ++ [e']) k e := by
  obtain ⟨before, behind, rfl, hkey, hbefore, hbehind⟩ := h
  refine ⟨before, behind ++ [e'], ?_, hkey, hbefore, ?_⟩
  · rw [List.append_assoc, List.cons_append]
  · intro x hx
    rcases List.mem_append.mp hx with hx | hx
    · exact hbehind x hx
    · rw [List.mem_singleton.mp hx]
      exact hother

/-- An arrival with no greater stamp before it is the newest. -/
theorem Newest.concat_self {arrivals : List E} {e : E}
    (h : ∀ x ∈ arrivals, key x = key e → stamp x ≤ stamp e) :
    Newest key stamp (arrivals ++ [e]) (key e) e :=
  ⟨arrivals, [], rfl, rfl, h, fun _ hx => (nomatch hx)⟩

/-- The newest arrival stays so when earlier ones are missing. -/
theorem Newest.of_sublist {xs xs' ys : List E} {k : K} {e : E}
    (h : Newest key stamp (xs ++ ys) k e) (he : e ∈ ys) (hsub : xs'.Sublist xs) :
    Newest key stamp (xs' ++ ys) k e := by
  obtain ⟨before, behind, hsplit, hkey, hbefore, hbehind⟩ := h
  rcases List.append_eq_append_iff.mp hsplit with ⟨zs, rfl, rfl⟩ | ⟨zs, rfl, hcons⟩
  · refine ⟨xs' ++ zs, behind, (List.append_assoc ..).symm, hkey, ?_, hbehind⟩
    intro x hx
    exact hbefore x ((hsub.append (List.Sublist.refl zs)).subset hx)
  · cases zs with
    | nil =>
        obtain rfl : ys = e :: behind := hcons.symm
        rw [List.append_nil] at hsub
        exact ⟨xs', behind, rfl, hkey, fun x hx => hbefore x (hsub.subset hx), hbehind⟩
    | cons z zs =>
        -- split before the arrival, it would come again behind itself
        obtain ⟨rfl, rfl⟩ := List.cons.inj hcons
        exact absurd (hbehind e (List.mem_append_right zs he) hkey) (lt_irrefl _)

/-- The newest arrival stays so when the last part arrives again. -/
theorem Newest.replay {xs ys : List E} {k : K} {e : E} (h : Newest key stamp (xs ++ ys) k e) :
    Newest key stamp (xs ++ ys ++ ys) k e := by
  have hle : ∀ x ∈ xs ++ ys, key x = k → stamp x ≤ stamp e := fun x hx => h.stamp_le hx
  obtain ⟨before, behind, hsplit, hkey, hbefore, hbehind⟩ := h
  -- an arrival of the last part is now behind the first copy, an earlier one has two behind it
  rcases List.append_eq_append_iff.mp hsplit with ⟨zs, rfl, rfl⟩ | ⟨zs, rfl, hcons⟩
  · refine ⟨xs ++ (zs ++ e :: behind) ++ zs, behind, (List.append_assoc ..).symm, hkey, ?_,
      hbehind⟩
    intro x hx
    rcases List.mem_append.mp hx with hx | hx
    · exact hle x hx
    · exact hbefore x (List.mem_append_right _ hx)
  · cases zs with
    | nil =>
        obtain rfl : ys = e :: behind := hcons.symm
        exact ⟨before ++ [] ++ e :: behind, behind, rfl, hkey, hle, hbehind⟩
    | cons z zs =>
        obtain ⟨rfl, rfl⟩ := List.cons.inj hcons
        refine ⟨before, zs ++ ys ++ ys, by simp, hkey, hbefore, ?_⟩
        intro x hx
        rcases List.mem_append.mp hx with hx | hx
        · exact hbehind x hx
        · exact hbehind x (List.mem_append_right _ hx)

variable [DecidableEq K]

theorem after_concat (arrivals : List E) (e : E) :
    after key stamp (arrivals ++ [e]) = put key stamp (after key stamp arrivals) e := by
  rw [after, List.foldl_append]
  rfl

/-- A key has an entry as soon as one has arrived. -/
theorem after_none_iff {arrivals : List E} {k : K} :
    after key stamp arrivals k = none ↔ ∀ x ∈ arrivals, key x ≠ k := by
  induction arrivals using List.reverseRecOn with
  | nil => exact ⟨fun _ x hx => (nomatch hx), fun _ => rfl⟩
  | append_singleton arrivals e ih =>
      rw [after_concat, List.forall_mem_append, List.forall_mem_singleton, put]
      by_cases hk : key e = k
      · rw [hk, Function.update_self]
        exact ⟨fun h => (nomatch h), fun h => absurd rfl h.2⟩
      · rw [Function.update_of_ne (Ne.symm hk), ih]
        exact ⟨fun h => ⟨h, hk⟩, fun h => h.1⟩

/-- What the store keeps is the newest arrival. -/
theorem newest_of_after {arrivals : List E} {k : K} {e : E}
    (h : after key stamp arrivals k = some e) : Newest key stamp arrivals k e := by
  induction arrivals using List.reverseRecOn generalizing e with
  | nil => cases h
  | append_singleton arrivals e' ih =>
      rw [after_concat, put] at h
      by_cases hk : key e' = k
      · subst hk
        rw [Function.update_self] at h
        obtain rfl := Option.some.inj h
        cases hcurrent : after key stamp arrivals (key e') with
        | none =>
            exact Newest.concat_self fun x hx hkey => absurd hkey (after_none_iff.mp hcurrent x hx)
        | some c =>
            have hc := ih hcurrent
            rw [keep]
            split
            · rename_i hle
              exact Newest.concat_self fun x hx hkey => le_trans (hc.stamp_le hx hkey) hle
            · rename_i hlt
              exact hc.concat_other fun _ => not_le.mp hlt
      · rw [Function.update_of_ne (Ne.symm hk)] at h
        exact (ih h).concat_other fun hkey => absurd hkey hk

/-- Arrivals with lower stamps are dropped. -/
theorem after_append_lower {arrivals behind : List E} {k : K} {e : E}
    (h : after key stamp arrivals k = some e)
    (hlower : ∀ x ∈ behind, key x = k → stamp x < stamp e) :
    after key stamp (arrivals ++ behind) k = some e := by
  induction behind using List.reverseRecOn with
  | nil =>
      rw [List.append_nil]
      exact h
  | append_singleton behind x ih =>
      rw [List.forall_mem_append, List.forall_mem_singleton] at hlower
      rw [← List.append_assoc, after_concat, put]
      by_cases hk : key x = k
      · rw [hk, Function.update_self, ih hlower.1, keep, if_neg (not_le.mpr (hlower.2 hk))]
      · rw [Function.update_of_ne (Ne.symm hk)]
        exact ih hlower.1

/-- The newest arrival is kept. -/
theorem after_of_newest {arrivals : List E} {k : K} {e : E}
    (h : Newest key stamp arrivals k e) : after key stamp arrivals k = some e := by
  obtain ⟨before, behind, rfl, rfl, hbefore, hbehind⟩ := h
  rw [← List.singleton_append, ← List.append_assoc]
  refine after_append_lower ?_ hbehind
  rw [after_concat, put, Function.update_self]
  cases hcurrent : after key stamp before (key e) with
  | none => rfl
  | some c =>
      have hc := newest_of_after hcurrent
      rw [keep, if_pos (hbefore c hc.mem hc.key_eq)]

/-- **THE STORE KEEPS THE NEWEST ARRIVAL.** -/
theorem after_iff {arrivals : List E} {k : K} {e : E} :
    after key stamp arrivals k = some e ↔ Newest key stamp arrivals k e :=
  ⟨newest_of_after, after_of_newest⟩

/-- An entry kept stays, or gives way to one of no lower stamp. -/
theorem after_append {arrivals : List E} {k : K} {e : E}
    (h : after key stamp arrivals k = some e) (behind : List E) :
    ∃ e', after key stamp (arrivals ++ behind) k = some e' ∧ stamp e ≤ stamp e' := by
  have hnewest := newest_of_after h
  have hmem : e ∈ arrivals ++ behind := List.mem_append_left _ hnewest.mem
  cases hafter : after key stamp (arrivals ++ behind) k with
  | none => exact absurd hnewest.key_eq (after_none_iff.mp hafter e hmem)
  | some e' => exact ⟨e', rfl, (newest_of_after hafter).stamp_le hmem hnewest.key_eq⟩

/-- **A REPLAY CHANGES NOTHING**: the last part of the arrivals arriving again. -/
theorem after_replay (xs ys : List E) :
    after key stamp (xs ++ ys ++ ys) = after key stamp (xs ++ ys) := by
  funext k
  cases hafter : after key stamp (xs ++ ys) k with
  | none =>
      refine after_none_iff.mpr ?_
      intro x hx
      rcases List.mem_append.mp hx with hx | hx
      · exact after_none_iff.mp hafter x hx
      · exact after_none_iff.mp hafter x (List.mem_append_right _ hx)
  | some e => exact after_iff.mpr (newest_of_after hafter).replay

/-! ## Any order -/

/-- No two arrivals under a key share a stamp. -/
def Distinct (key : E → K) (stamp : E → S) (arrivals : List E) : Prop :=
  arrivals.Pairwise fun x y => key x = key y → stamp x ≠ stamp y

omit [LinearOrder S] [DecidableEq K] in
theorem Distinct.perm {arrivals arrivals' : List E} (h : Distinct key stamp arrivals)
    (hperm : arrivals.Perm arrivals') : Distinct key stamp arrivals' := by
  refine List.Pairwise.perm h hperm ?_
  intro x y hne hkey
  exact (hne hkey.symm).symm

omit [DecidableEq K] in
/-- With distinct stamps, an arrival of greatest stamp is the newest. -/
theorem Distinct.newest {arrivals : List E} (h : Distinct key stamp arrivals) {e : E}
    (he : e ∈ arrivals) (hmax : ∀ x ∈ arrivals, key x = key e → stamp x ≤ stamp e) :
    Newest key stamp arrivals (key e) e := by
  obtain ⟨before, behind, rfl⟩ := List.append_of_mem he
  obtain ⟨-, hbehind, -⟩ := List.pairwise_append.mp h
  refine ⟨before, behind, rfl, rfl, ?_, ?_⟩
  · intro x hx
    exact hmax x (List.mem_append_left _ hx)
  · intro x hx hkey
    have hle := hmax x (List.mem_append_right _ (List.mem_cons_of_mem e hx)) hkey
    exact lt_of_le_of_ne hle (List.rel_of_pairwise_cons hbehind hx hkey.symm).symm

/-- **WITH DISTINCT STAMPS, THE ORDER OF ARRIVAL DOES NOT MATTER.** -/
theorem after_perm {arrivals arrivals' : List E} (h : Distinct key stamp arrivals)
    (hperm : arrivals.Perm arrivals') :
    after key stamp arrivals = after key stamp arrivals' := by
  funext k
  ext e
  constructor
  · intro he
    have hnewest := newest_of_after he
    obtain rfl := hnewest.key_eq
    refine after_of_newest ((h.perm hperm).newest (hperm.subset hnewest.mem) ?_)
    intro x hx hkey
    exact hnewest.stamp_le (hperm.symm.subset hx) hkey
  · intro he
    have hnewest := newest_of_after he
    obtain rfl := hnewest.key_eq
    refine after_of_newest (h.newest (hperm.symm.subset hnewest.mem) ?_)
    intro x hx hkey
    exact hnewest.stamp_le (hperm.subset hx) hkey

/-! ## In order -/

/-- Stamps that never fall under a key. -/
def Ordered (key : E → K) (stamp : E → S) (arrivals : List E) : Prop :=
  arrivals.Pairwise fun x y => key x = key y → stamp x ≤ stamp y

/-- **IN ORDER, THE STORE KEEPS THE LAST ARRIVAL.** -/
theorem after_ordered {arrivals : List E} (h : Ordered key stamp arrivals) (k : K) :
    after key stamp arrivals k = arrivals.reverse.find? fun e => decide (key e = k) := by
  induction arrivals using List.reverseRecOn with
  | nil => rfl
  | append_singleton arrivals e ih =>
      obtain ⟨harrivals, -, hlast⟩ := List.pairwise_append.mp h
      rw [after_concat, put, List.reverse_append, List.reverse_singleton, List.singleton_append,
        List.find?_cons]
      by_cases hk : key e = k
      · subst hk
        rw [Function.update_self, decide_eq_true rfl]
        cases hcurrent : after key stamp arrivals (key e) with
        | none => rfl
        | some c =>
            have hc := newest_of_after hcurrent
            rw [keep, if_pos (hlast c hc.mem e (List.mem_singleton.mpr rfl) hc.key_eq)]
      · rw [Function.update_of_ne (Ne.symm hk), decide_eq_false hk]
        exact ih harrivals

end StampedStore
