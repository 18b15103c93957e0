import Mathlib.Data.Option.Basic
import Mathlib.Logic.Equiv.Defs

/-! # Documents in layers

    A configuration document may leave keys out.  Loading it takes every mandatory
    key; laying one document over another takes each key from the upper one where
    it has it and from the lower one otherwise.  A `Table` is a shape of documents
    with both operations and the law that what loads is just the document written
    from what was loaded.  Tables are built from single keys (`Table.key`), side by
    side (`Table.both`), from tables inside tables, mandatory (`Table.required`) or
    not (`Table.optional`), and seen as records (`Table.record`). -/

namespace LayeredDocuments

/-- A shape of documents `D` for configurations `C`. -/
structure Table (D C : Type) where
  load : D → Option C
  document : C → D
  /-- The second document over the first. -/
  override : D → D → D
  load_iff : ∀ {d : D} {c : C}, load d = some c ↔ d = document c

variable {D C D' C' : Type}

/-- A configuration is loaded back from its document. -/
theorem Table.load_document (t : Table D C) (c : C) : t.load (t.document c) = some c :=
  t.load_iff.mpr rfl

/-- Different configurations have different documents. -/
theorem Table.document_inj (t : Table D C) {c c' : C} : t.document c = t.document c' ↔ c = c' := by
  constructor
  · intro h
    exact Option.some.inj ((t.load_document c).symm.trans (t.load_iff.mpr h))
  · rintro rfl
    rfl

/-- Every key is mandatory, so a document that loads hides the one below it. -/
def Table.Full (t : Table D C) : Prop := ∀ d c, t.override d (t.document c) = t.document c

/-! ## Keys -/

/-- One mandatory key. -/
def Table.key {α : Type} : Table (Option α) α where
  load d := d
  document c := some c
  override lower upper := upper.or lower
  load_iff := Iff.rfl

/-- The keys of two tables together. -/
def Table.both (t : Table D C) (t' : Table D' C') : Table (D × D') (C × C') where
  load d := do
    let c ← t.load d.1
    let c' ← t'.load d.2
    return (c, c')
  document c := (t.document c.1, t'.document c.2)
  override lower upper := (t.override lower.1 upper.1, t'.override lower.2 upper.2)
  load_iff := by
    rintro ⟨d, d'⟩ ⟨c, c'⟩
    simp only [Prod.mk.injEq, ← t.load_iff, ← t'.load_iff]
    constructor
    · intro h
      obtain ⟨a, ha, h⟩ := Option.bind_eq_some_iff.mp h
      obtain ⟨a', ha', h⟩ := Option.bind_eq_some_iff.mp h
      cases h
      exact ⟨ha, ha'⟩
    · rintro ⟨h, h'⟩
      show (t.load d).bind (fun c => (t'.load d').bind fun c' => some (c, c')) = _
      rw [h, h']
      rfl

/-- A table whose documents and configurations are records. -/
def Table.record (documentKeys : D' ≃ D) (keys : C' ≃ C) (t : Table D C) : Table D' C' where
  load d := (t.load (documentKeys d)).map keys.symm
  document c := documentKeys.symm (t.document (keys c))
  override lower upper :=
    documentKeys.symm (t.override (documentKeys lower) (documentKeys upper))
  load_iff := by
    intro d c
    rw [Option.map_eq_some_iff, Equiv.eq_symm_apply, ← t.load_iff]
    constructor
    · rintro ⟨c', h, rfl⟩
      rwa [Equiv.apply_symm_apply]
    · intro h
      exact ⟨keys c, h, Equiv.symm_apply_apply ..⟩

/-- A mandatory key hides the one below it. -/
theorem Table.key_full {α : Type} : (@Table.key α).Full := fun _ _ => rfl

/-- Two parts that hide what lies below. -/
theorem Table.Full.both {t : Table D C} {t' : Table D' C'} (h : t.Full) (h' : t'.Full) :
    (t.both t').Full := by
  rintro ⟨d, d'⟩ ⟨c, c'⟩
  exact Prod.ext (h d c) (h' d' c')

/-- A section hides what its keys hide. -/
theorem Table.Full.record {t : Table D C} {documentKeys : D' ≃ D} {keys : C' ≃ C} (h : t.Full) :
    (Table.record documentKeys keys t).Full := by
  intro d c
  show documentKeys.symm (t.override _ (documentKeys (documentKeys.symm _))) = _
  rw [Equiv.apply_symm_apply, h]
  rfl

/-! ## Tables inside tables -/

/-- One table over another, where both are there. -/
def overrideTable (override : D → D → D) : Option D → Option D → Option D
  | lower, none => lower
  | none, some upper => some upper
  | some lower, some upper => some (override lower upper)

/-- A table that must be there. -/
def Table.required (t : Table D C) : Table (Option D) C where
  load d := d.bind t.load
  document c := some (t.document c)
  override := overrideTable t.override
  load_iff := by
    intro d c
    cases d with
    | none => exact ⟨fun h => (by cases h), fun h => (by cases h)⟩
    | some d => exact t.load_iff.trans (Option.some.injEq _ _).symm.to_iff

/-- A table that may be left out. -/
def Table.optional (t : Table D C) : Table (Option D) (Option C) where
  load
    | none => some none
    | some d => (t.load d).map some
  document c := c.map t.document
  override := overrideTable t.override
  load_iff := by
    intro d c
    cases d with
    | none =>
        cases c with
        | none => exact ⟨fun _ => rfl, fun _ => rfl⟩
        | some c => exact ⟨fun h => (by cases h), fun h => (by cases h)⟩
    | some d =>
        cases c with
        | none =>
            refine ⟨fun h => ?_, fun h => (by cases h)⟩
            obtain ⟨c, -, h⟩ := Option.map_eq_some_iff.mp h
            cases h
        | some c =>
            rw [Option.map_some, Option.some.injEq, ← t.load_iff]
            constructor
            · intro h
              obtain ⟨c', hc, h⟩ := Option.map_eq_some_iff.mp h
              obtain rfl := Option.some.inj h
              exact hc
            · intro h
              show (t.load d).map some = _
              rw [h]
              rfl

/-- A mandatory section that hides the one below it. -/
theorem Table.Full.required {t : Table D C} (h : t.Full) : t.required.Full := by
  intro d c
  cases d with
  | none => rfl
  | some d => exact congrArg some (h d c)

/-- An optional table left out of the upper document, or equal in both, changes nothing. -/
theorem Table.Full.optional_unchanged {t : Table D C} (h : t.Full) (lower upper : Option C) :
    t.optional.override (t.optional.document lower) (t.optional.document upper) =
        t.optional.document lower ↔
      ∀ c, upper = some c → lower = some c := by
  cases upper with
  | none => exact ⟨fun _ _ hc => (by cases hc), fun _ => (by cases lower <;> rfl)⟩
  | some c =>
      cases lower with
      | none => exact ⟨fun heq => (by cases heq), fun hall => (by cases hall c rfl)⟩
      | some c' =>
          show some (t.override (t.document c') (t.document c)) = some (t.document c') ↔ _
          rw [h, Option.some.injEq, t.document_inj]
          constructor
          · rintro rfl c hc
            exact hc
          · intro hall
            exact (Option.some.inj (hall c rfl)).symm

end LayeredDocuments
