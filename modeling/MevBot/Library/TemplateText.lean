import Mathlib.Data.List.Basic

/-! # Texts with placeholders

    A placeholder is an opening of two characters, a name and a closing
    character.  A text is expanded in one of two ways: in one pass from left to
    right (`expand`), or by replacing the first placeholder until there is none
    left.  The second way looks at what it has written, so the two agree, name by
    name, exactly when nothing written before a placeholder opens one, and what is
    written in the end has none (`rescan_iff`). -/

namespace TemplateText

/-- The characters that delimit a placeholder: a two-character opening and a closing. -/
structure Marks (α : Type) where
  first : α
  second : α
  close : α
  first_ne_second : first ≠ second
  first_ne_close : first ≠ close
  second_ne_close : second ≠ close

variable {α : Type} [DecidableEq α] (m : Marks α)

/-! ## Finding a placeholder -/

/-- The text before and behind the first opening. -/
def splitOpen : List α → Option (List α × List α)
  | x :: y :: rest =>
      if x = m.first ∧ y = m.second then some ([], rest)
      else (splitOpen (y :: rest)).map fun s => (x :: s.1, s.2)
  | _ => none

/-- The text before and behind the first closing. -/
def splitClose : List α → Option (List α × List α)
  | [] => none
  | x :: rest =>
      if x = m.close then some ([], rest)
      else (splitClose rest).map fun s => (x :: s.1, s.2)

/-- What is before the first placeholder, its name, and what is behind it. -/
def firstPlaceholder (text : List α) : Option (List α × List α × List α) :=
  (splitOpen m text).bind fun s => (splitClose m s.2).map fun t => (s.1, t)

/-- No opening. -/
def Unopened (text : List α) : Prop := splitOpen m text = none

/-- No placeholder. -/
def Settled (text : List α) : Prop := firstPlaceholder m text = none

instance (text : List α) : Decidable (Unopened m text) :=
  inferInstanceAs (Decidable (_ = none))

instance (text : List α) : Decidable (Settled m text) :=
  inferInstanceAs (Decidable (_ = none))

/-- A placeholder. -/
def placeholder (name : List α) : List α := m.first :: m.second :: (name ++ [m.close])

variable {m}

/-- The opening found is the first. -/
theorem splitOpen_append {before : List α} (h : Unopened m before) (opened : List α) :
    splitOpen m (before ++ m.first :: m.second :: opened) = some (before, opened) := by
  induction before with
  | nil => rw [List.nil_append, splitOpen, if_pos ⟨rfl, rfl⟩]
  | cons x before ih =>
      cases before with
      | nil =>
          rw [List.singleton_append, splitOpen, if_neg fun hx => m.first_ne_second hx.2, splitOpen,
            if_pos ⟨rfl, rfl⟩]
          rfl
      | cons y before =>
          rw [Unopened, splitOpen] at h
          split at h
          · cases h
          · rename_i hxy
            rw [List.cons_append, List.cons_append, splitOpen, if_neg hxy, ← List.cons_append,
              ih (Option.map_eq_none_iff.mp h)]
            rfl

theorem splitOpen_some {text before opened : List α}
    (h : splitOpen m text = some (before, opened)) :
    text = before ++ m.first :: m.second :: opened ∧ Unopened m before := by
  induction text generalizing before with
  | nil => cases h
  | cons x text ih =>
      cases text with
      | nil => cases h
      | cons y text =>
          rw [splitOpen] at h
          split at h
          · rename_i hxy
            obtain ⟨rfl, rfl⟩ := Prod.mk.inj (Option.some.inj h)
            exact ⟨by rw [hxy.1, hxy.2]; rfl, rfl⟩
          · rename_i hxy
            obtain ⟨⟨rest, opened'⟩, hrest, h⟩ := Option.map_eq_some_iff.mp h
            obtain ⟨rfl, rfl⟩ := Prod.mk.inj h
            obtain ⟨htext, hunopened⟩ := ih hrest
            refine ⟨by rw [htext]; rfl, ?_⟩
            -- the character put in front does not open anything
            cases rest with
            | nil => rfl
            | cons z rest =>
                obtain ⟨rfl, -⟩ := List.cons.inj htext
                rw [Unopened, splitOpen, if_neg hxy]
                exact Option.map_eq_none_iff.mpr hunopened

theorem splitClose_append {name : List α} (h : m.close ∉ name) (behind : List α) :
    splitClose m (name ++ m.close :: behind) = some (name, behind) := by
  induction name with
  | nil => rw [List.nil_append, splitClose, if_pos rfl]
  | cons x name ih =>
      rw [List.mem_cons, not_or] at h
      rw [List.cons_append, splitClose, if_neg (Ne.symm h.1), ih h.2]
      rfl

theorem splitClose_some {text name behind : List α}
    (h : splitClose m text = some (name, behind)) :
    text = name ++ m.close :: behind ∧ m.close ∉ name := by
  induction text generalizing name with
  | nil => cases h
  | cons x text ih =>
      rw [splitClose] at h
      split at h
      · rename_i hx
        obtain ⟨rfl, rfl⟩ := Prod.mk.inj (Option.some.inj h)
        exact ⟨by rw [hx]; rfl, List.not_mem_nil⟩
      · rename_i hx
        obtain ⟨⟨rest, behind'⟩, hrest, h⟩ := Option.map_eq_some_iff.mp h
        obtain ⟨rfl, rfl⟩ := Prod.mk.inj h
        obtain ⟨htext, hclose⟩ := ih hrest
        refine ⟨by rw [htext]; rfl, ?_⟩
        rw [List.mem_cons, not_or]
        exact ⟨Ne.symm hx, hclose⟩

/-- **THE FIRST PLACEHOLDER**, found and read. -/
theorem firstPlaceholder_iff {text before name behind : List α} :
    firstPlaceholder m text = some (before, name, behind) ↔
      text = before ++ placeholder m name ++ behind ∧ Unopened m before ∧ m.close ∉ name := by
  have hshape : before ++ placeholder m name ++ behind =
      before ++ m.first :: m.second :: (name ++ m.close :: behind) := by
    simp [placeholder]
  rw [hshape]
  constructor
  · intro h
    obtain ⟨⟨before', opened⟩, hopen, h⟩ := Option.bind_eq_some_iff.mp h
    obtain ⟨⟨name', behind'⟩, hclose, h⟩ := Option.map_eq_some_iff.mp h
    obtain ⟨hbefore', h⟩ := Prod.mk.inj h
    obtain ⟨rfl, rfl⟩ := Prod.mk.inj h
    dsimp only at hbefore' hclose
    subst hbefore'
    obtain ⟨rfl, hbefore⟩ := splitOpen_some hopen
    obtain ⟨rfl, hname⟩ := splitClose_some hclose
    exact ⟨rfl, hbefore, hname⟩
  · rintro ⟨rfl, hbefore, hname⟩
    rw [firstPlaceholder, splitOpen_append hbefore]
    show (splitClose m _).map _ = _
    rw [splitClose_append hname]
    rfl

theorem length_behind_lt {text before name behind : List α}
    (h : firstPlaceholder m text = some (before, name, behind)) : behind.length < text.length := by
  rw [(firstPlaceholder_iff.mp h).1, placeholder]
  simp only [List.length_append, List.length_cons]
  omega

theorem splitClose_ne_none {text : List α} (h : m.close ∈ text) : splitClose m text ≠ none := by
  induction text with
  | nil => exact absurd h List.not_mem_nil
  | cons x text ih =>
      rw [splitClose]
      split
      · exact Option.some_ne_none _
      · rename_i hx
        have hrest := (List.mem_cons.mp h).resolve_left fun heq => hx heq.symm
        exact fun hnone => ih hrest (Option.map_eq_none_iff.mp hnone)

/-- An opening with a closing behind it is a placeholder. -/
theorem not_settled {before opened : List α} (hbefore : Unopened m before)
    (hclose : m.close ∈ opened) : ¬Settled m (before ++ m.first :: m.second :: opened) := by
  rw [Settled, firstPlaceholder, splitOpen_append hbefore]
  exact fun hnone => splitClose_ne_none hclose (Option.map_eq_none_iff.mp hnone)

/-! ## The placeholders of a text -/

/-- The placeholders' names, from left to right, each with the plain text before it, and
    the plain text behind the last one. -/
structure Segments (α : Type) where
  parts : List (List α × List α)
  tail : List α

variable (m) in
def segments (text : List α) : Segments α :=
  match _h : firstPlaceholder m text with
  | none => ⟨[], text⟩
  | some (before, name, behind) =>
      { parts := (before, name) :: (segments behind).parts, tail := (segments behind).tail }
termination_by text.length
decreasing_by all_goals exact length_behind_lt _h

theorem segments_nil {text : List α} (h : (segments m text).parts = []) :
    firstPlaceholder m text = none ∧ (segments m text).tail = text := by
  rw [segments] at h ⊢
  split at h
  · rename_i hnone
    exact ⟨hnone, rfl⟩
  · cases h

theorem segments_cons {text before name : List α} {parts : List (List α × List α)}
    (h : (segments m text).parts = (before, name) :: parts) :
    ∃ behind, firstPlaceholder m text = some (before, name, behind) ∧
      (segments m behind).parts = parts ∧ (segments m text).tail = (segments m behind).tail := by
  rw [segments] at h ⊢
  split at h
  · cases h
  · rename_i before' name' behind hsome
    obtain ⟨hpart, rfl⟩ := List.cons.inj h
    obtain ⟨rfl, rfl⟩ := Prod.mk.inj hpart
    exact ⟨behind, hsome, rfl, rfl⟩

/-! ## The two ways to expand -/

section Expand

variable (value : List α → List α)

/-- What the parts of a text expand to. -/
def render : List (List α × List α) → List α
  | [] => []
  | (before, name) :: parts => before ++ value name ++ render parts

/-- What a single pass has written when it comes to each placeholder, behind `done`. -/
def written : List α → List (List α × List α) → List (List α)
  | _, [] => []
  | done, (before, name) :: parts =>
      (done ++ before) :: written (done ++ before ++ value name) parts

variable (m)

/-- One pass from left to right. -/
def expand (text : List α) : List α :=
  render value (segments m text).parts ++ (segments m text).tail

/-- The names of the placeholders, from left to right. -/
def names (text : List α) : List (List α) := (segments m text).parts.map (·.2)

/-- Replace the first placeholder until there is none left, in less than `fuel` rounds. -/
def rescan : Nat → List α → Option (List α)
  | 0, _ => none
  | fuel + 1, text =>
      match firstPlaceholder m text with
      | none => some text
      | some (before, name, behind) => rescan fuel (before ++ value name ++ behind)

/-- The names that rescanning looks up, one a round. -/
def lookedUp : Nat → List α → List (List α)
  | 0, _ => []
  | fuel + 1, text =>
      match firstPlaceholder m text with
      | none => []
      | some (before, name, behind) => name :: lookedUp fuel (before ++ value name ++ behind)

variable {m value}

/-- Rescanning ends with a text without placeholders. -/
theorem settled_of_rescan {fuel : Nat} {text result : List α}
    (h : rescan m value fuel text = some result) : Settled m result := by
  induction fuel generalizing text with
  | zero => cases h
  | succ fuel ih =>
      rw [rescan] at h
      split at h
      · rename_i hnone
        obtain rfl := Option.some.inj h
        exact hnone
      · exact ih h

section Parts

variable {parts : List (List α × List α)} {done text : List α}

/-- With `done` written and the parts of `text` left, a placeholder is found next where the
    text has it if nothing before opens one. -/
theorem firstPlaceholder_done {before name behind : List α}
    (h : firstPlaceholder m text = some (before, name, behind))
    (hdone : Unopened m (done ++ before)) :
    firstPlaceholder m (done ++ text) = some (done ++ before, name, behind) := by
  obtain ⟨rfl, -, hname⟩ := firstPlaceholder_iff.mp h
  refine firstPlaceholder_iff.mpr ⟨?_, hdone, hname⟩
  rw [List.append_assoc, List.append_assoc, List.append_assoc]

/-- **UNDISTURBED**, rescanning replaces the parts one after the other. -/
theorem rescan_of_unopened (hparts : (segments m text).parts = parts)
    (hwritten : ∀ w ∈ written value done parts, Unopened m w)
    (hsettled : Settled m (done ++ render value parts ++ (segments m text).tail)) {fuel : Nat}
    (hfuel : parts.length < fuel) :
    rescan m value fuel (done ++ text) =
        some (done ++ render value parts ++ (segments m text).tail) ∧
      lookedUp m value fuel (done ++ text) = parts.map (·.2) := by
  obtain ⟨fuel, rfl⟩ := Nat.exists_eq_succ_of_ne_zero (Nat.ne_of_gt (Nat.zero_lt_of_lt hfuel))
  induction parts generalizing done text fuel with
  | nil =>
      rw [(segments_nil hparts).2, render, List.append_nil] at hsettled ⊢
      rw [rescan, lookedUp, show firstPlaceholder m (done ++ text) = none from hsettled]
      exact ⟨rfl, rfl⟩
  | cons part parts ih =>
      obtain ⟨before, name⟩ := part
      obtain ⟨behind, hfirst, hrest, htail⟩ := segments_cons hparts
      rw [written, List.forall_mem_cons] at hwritten
      have hnext := firstPlaceholder_done hfirst hwritten.1
      obtain ⟨fuel, rfl⟩ : ∃ fuel', fuel = fuel' + 1 :=
        Nat.exists_eq_succ_of_ne_zero (by rw [List.length_cons] at hfuel; omega)
      have hrender : done ++ render value ((before, name) :: parts) =
          done ++ before ++ value name ++ render value parts := by
        simp only [render, List.append_assoc]
      rw [hrender, htail] at hsettled ⊢
      obtain ⟨hresult, hnames⟩ := ih hrest hwritten.2 hsettled fuel
        (by rw [List.length_cons] at hfuel; omega)
      rw [rescan, lookedUp, hnext]
      exact ⟨hresult, congrArg (name :: ·) hnames⟩

/-- A placeholder opened before the next one of the text has another name, or is still
    there in the end. -/
theorem unopened_of_lookup {before name behind before' behind' : List α}
    (h : firstPlaceholder m text = some (before, name, behind))
    (hfound : firstPlaceholder m (done ++ text) = some (before', name, behind')) {more : List α}
    (hsettled : Settled m (done ++ before ++ more)) : Unopened m (done ++ before) := by
  by_contra hopen
  obtain ⟨⟨early, opened⟩, hsplit⟩ := Option.ne_none_iff_exists'.mp hopen
  obtain ⟨heq, hearly⟩ := splitOpen_some hsplit
  obtain ⟨rfl, -, hname⟩ := firstPlaceholder_iff.mp h
  by_cases hclose : m.close ∈ opened
  · rw [heq, List.append_assoc, List.cons_append, List.cons_append] at hsettled
    exact not_settled hearly (List.mem_append_left more hclose) hsettled
  · -- the early placeholder ends where this one does, so its name is longer
    have hlonger : m.close ∉ opened ++ m.first :: m.second :: name := by
      simp only [List.mem_append, List.mem_cons, not_or]
      exact ⟨hclose, m.first_ne_close.symm, m.second_ne_close.symm, hname⟩
    have hearlier : firstPlaceholder m (done ++ (before ++ placeholder m name ++ behind)) =
        some (early, opened ++ m.first :: m.second :: name, behind) := by
      refine firstPlaceholder_iff.mpr ⟨?_, hearly, hlonger⟩
      rw [← List.append_assoc, ← List.append_assoc, heq]
      simp [placeholder]
    obtain ⟨-, hrest⟩ := Prod.mk.inj (Option.some.inj (hearlier.symm.trans hfound))
    have hlen := congrArg List.length (Prod.mk.inj hrest).1
    rw [List.length_append, List.length_cons, List.length_cons] at hlen
    omega

/-- **RESCANNING THAT AGREES** was undisturbed. -/
theorem unopened_of_rescan (hparts : (segments m text).parts = parts) {fuel : Nat}
    (hresult : rescan m value fuel (done ++ text) =
      some (done ++ render value parts ++ (segments m text).tail))
    (hnames : lookedUp m value fuel (done ++ text) = parts.map (·.2)) :
    ∀ w ∈ written value done parts, Unopened m w := by
  induction parts generalizing done text fuel with
  | nil => exact fun w hw => absurd hw List.not_mem_nil
  | cons part parts ih =>
      obtain ⟨before, name⟩ := part
      obtain ⟨behind, hfirst, hrest, htail⟩ := segments_cons hparts
      have hrender : done ++ render value ((before, name) :: parts) =
          done ++ before ++ value name ++ render value parts := by
        simp only [render, List.append_assoc]
      have hsettled := settled_of_rescan hresult
      rw [hrender, htail] at hresult hsettled
      cases fuel with
      | zero => cases hresult
      | succ fuel =>
          rw [rescan] at hresult
          rw [lookedUp] at hnames
          cases hfound : firstPlaceholder m (done ++ text) with
          | none =>
              rw [hfound] at hnames
              cases hnames
          | some found =>
              obtain ⟨before', name', behind'⟩ := found
              rw [hfound] at hresult hnames
              obtain ⟨rfl, hlater⟩ := List.cons.inj hnames
              rw [List.append_assoc, List.append_assoc] at hsettled
              have hunopened := unopened_of_lookup hfirst hfound hsettled
              have hnext := firstPlaceholder_done hfirst hunopened
              obtain ⟨rfl, hbehind⟩ := Prod.mk.inj (Option.some.inj (hfound.symm.trans hnext))
              obtain ⟨-, rfl⟩ := Prod.mk.inj hbehind
              exact List.forall_mem_cons.mpr ⟨hunopened, ih hrest hresult hlater⟩

end Parts

variable (m value)

/-- **WHEN RESCANNING IS A SINGLE PASS**: it replaces the placeholders of the text, each
    once, exactly when nothing written before one of them opens a placeholder and none is
    left in the end. -/
theorem rescan_iff (text : List α) :
    (∃ fuel, rescan m value fuel text = some (expand m value text) ∧
        lookedUp m value fuel text = names m text) ↔
      (∀ w ∈ written value [] (segments m text).parts, Unopened m w) ∧
        Settled m (expand m value text) := by
  constructor
  · rintro ⟨fuel, hresult, hnames⟩
    have hwritten : ∀ w ∈ written value [] (segments m text).parts, Unopened m w :=
      unopened_of_rescan rfl hresult hnames
    exact ⟨hwritten, settled_of_rescan hresult⟩
  · rintro ⟨hwritten, hsettled⟩
    exact ⟨_, rescan_of_unopened rfl hwritten hsettled (Nat.lt_succ_self _)⟩

end Expand

end TemplateText
