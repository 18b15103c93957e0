import Mathlib.Algebra.BigOperators.Group.Finset.Piecewise
import Mathlib.Algebra.Order.BigOperators.Group.Finset
import Mathlib.Data.Fintype.Basic
import Mathlib.Data.List.Induction
import MevBot.Library.FairRounds

/-! # Handing over through a bounded channel

    Several producers hand items to one consumer through a channel of bounded
    capacity.  An idle producer takes up a batch; of its batch it looks at one
    item at a time, and drops it or holds it until the channel has room; while
    it holds one it looks at no other.  `Delivered` is the safety law: every
    accepted item of every producer is at one place of the way, once, and in
    order.  `run_drained` is the progress law: the producers never block each
    other for good. -/

namespace Handover

open FairRounds (Progress Fair)

variable {ι α : Type}

/-- A producer: its batch still to look at, and the item it holds for the channel. -/
structure Port (α : Type) where
  batch : List α
  held : Option α

/-- The batch is through. -/
def Port.idle (p : Port α) : Bool := p.batch.isEmpty && p.held.isNone

/-- One look: the next item is dropped, or held. -/
def Port.check (accepts : α → Bool) (p : Port α) : Port α :=
  match p.held, p.batch with
  | none, x :: rest => ⟨rest, if accepts x then some x else none⟩
  | _, _ => p

/-- Producers, channel and consumer.  Items in the channel and with the consumer
    carry the name of their producer; `offered` lists all the batches of a
    producer. -/
structure Hub (ι α : Type) where
  ports : ι → Port α
  channel : List (ι × α)
  taken : List (ι × α)
  offered : ι → List α

/-- Nothing offered yet. -/
def Hub.empty : Hub ι α := ⟨fun _ => ⟨[], none⟩, [], [], fun _ => []⟩

/-- One move of one party. -/
inductive Move (ι α : Type) where
  /-- A producer takes up a batch. -/
  | offer (i : ι) (batch : List α)
  /-- A producer looks at its next item. -/
  | check (i : ι)
  /-- A producer sends the item it holds. -/
  | send (i : ι)
  /-- The consumer takes the next item. -/
  | take

variable [DecidableEq ι]

/-- A move that its party cannot make changes nothing. -/
def step (accepts : α → Bool) (capacity : Nat) (h : Hub ι α) : Move ι α → Hub ι α
  | .offer i batch =>
      if (h.ports i).idle then
        { h with
          ports := Function.update h.ports i ⟨batch, none⟩
          offered := Function.update h.offered i (h.offered i ++ batch) }
      else h
  | .check i => { h with ports := Function.update h.ports i ((h.ports i).check accepts) }
  | .send i =>
      match (h.ports i).held with
      | some x =>
          if h.channel.length < capacity then
            { h with
              ports := Function.update h.ports i ⟨(h.ports i).batch, none⟩
              channel := h.channel ++ [(i, x)] }
          else h
      | none => h
  | .take =>
      match h.channel with
      | x :: rest => { h with channel := rest, taken := h.taken ++ [x] }
      | [] => h

/-- A sequence of moves. -/
def run (accepts : α → Bool) (capacity : Nat) (h : Hub ι α) (moves : List (Move ι α)) :
    Hub ι α :=
  moves.foldl (step accepts capacity) h

/-- A run can be interrupted. -/
theorem run_append (accepts : α → Bool) (capacity : Nat) (h : Hub ι α)
    (moves moves' : List (Move ι α)) :
    run accepts capacity h (moves ++ moves') =
      run accepts capacity (run accepts capacity h moves) moves' :=
  List.foldl_append

/-! ## Safety -/

/-- The items of one producer. -/
def ofPort (i : ι) (xs : List (ι × α)) : List α := (xs.filter fun x => x.1 = i).map (·.2)

/-- A port's items, in the order of all. -/
theorem ofPort_append (i : ι) (xs ys : List (ι × α)) :
    ofPort i (xs ++ ys) = ofPort i xs ++ ofPort i ys := by
  rw [ofPort, List.filter_append, List.map_append]
  rfl

theorem ofPort_self (i : ι) (x : α) : ofPort i [(i, x)] = [x] := by
  simp [ofPort]

theorem ofPort_other {i j : ι} (h : j ≠ i) (x : α) : ofPort i [(j, x)] = [] := by
  simp [ofPort, h]

theorem mem_ofPort {x : ι × α} {xs : List (ι × α)} (h : x ∈ xs) : x.2 ∈ ofPort x.1 xs :=
  List.mem_map_of_mem (List.mem_filter.mpr ⟨h, decide_eq_true rfl⟩)

/-- What a producer still has: the item it holds, and what it will accept of its batch. -/
def Port.ahead (accepts : α → Bool) (p : Port α) : List α :=
  p.held.toList ++ p.batch.filter accepts

/-- Every accepted item of a producer is with the consumer, in the channel, held, or still
    in the batch, in the order of the batches; the channel is within its capacity. -/
structure Delivered (accepts : α → Bool) (capacity : Nat) (h : Hub ι α) : Prop where
  inOrder : ∀ i, (h.offered i).filter accepts =
    ofPort i (h.taken ++ h.channel) ++ (h.ports i).ahead accepts
  bounded : h.channel.length ≤ capacity

/-- An empty hub owes nothing. -/
theorem Delivered.empty (accepts : α → Bool) (capacity : Nat) :
    Delivered accepts capacity (Hub.empty : Hub ι α) where
  inOrder := fun _ => rfl
  bounded := Nat.zero_le capacity

omit [DecidableEq ι] in
/-- A look takes the first of what is ahead out of the batch, or drops an item that is
    not accepted. -/
theorem check_ahead (accepts : α → Bool) (p : Port α) :
    (p.check accepts).ahead accepts = p.ahead accepts := by
  obtain ⟨batch, held⟩ := p
  cases held with
  | some x => rfl
  | none =>
      cases batch with
      | nil => rfl
      | cons x rest =>
          show (if accepts x then some x else none).toList ++ rest.filter accepts =
            (x :: rest).filter accepts
          by_cases hx : accepts x = true
          · rw [if_pos hx, List.filter_cons_of_pos hx]
            rfl
          · rw [if_neg hx, List.filter_cons_of_neg hx]
            rfl

omit [DecidableEq ι] in
/-- An idle port has nothing ahead. -/
theorem ahead_of_idle {accepts : α → Bool} {p : Port α} (h : p.idle = true) :
    p.ahead accepts = [] := by
  rw [Port.idle, Bool.and_eq_true, List.isEmpty_iff, Option.isNone_iff_eq_none] at h
  rw [Port.ahead, h.1, h.2]
  rfl

/-- **ONE MOVE** loses nothing, repeats nothing and keeps the order. -/
theorem Delivered.step {accepts : α → Bool} {capacity : Nat} {h : Hub ι α}
    (hd : Delivered accepts capacity h) (m : Move ι α) :
    Delivered accepts capacity (step accepts capacity h m) := by
  cases m with
  | offer i batch =>
      simp only [Handover.step]
      split
      · rename_i hidle
        refine ⟨?_, hd.bounded⟩
        intro j
        by_cases hj : j = i
        · subst hj
          have hold := hd.inOrder j
          rw [ahead_of_idle hidle, List.append_nil] at hold
          simp only [Function.update_self, List.filter_append, hold]
          rfl
        · simp only [Function.update_of_ne hj]
          exact hd.inOrder j
      · exact hd
  | check i =>
      refine ⟨?_, hd.bounded⟩
      intro j
      by_cases hj : j = i
      · subst hj
        simp only [Handover.step, Function.update_self, check_ahead]
        exact hd.inOrder j
      · simp only [Handover.step, Function.update_of_ne hj]
        exact hd.inOrder j
  | send i =>
      simp only [Handover.step]
      split
      · rename_i x hheld
        split
        · rename_i hroom
          refine ⟨?_, ?_⟩
          · intro j
            show (h.offered j).filter accepts = ofPort j (h.taken ++ (h.channel ++ [(i, x)])) ++
              (Function.update h.ports i ⟨(h.ports i).batch, none⟩ j).ahead accepts
            rw [← List.append_assoc, ofPort_append, hd.inOrder j]
            by_cases hj : j = i
            · subst hj
              rw [Function.update_self, ofPort_self, Port.ahead, hheld, List.append_assoc]
              rfl
            · rw [Function.update_of_ne hj, ofPort_other (Ne.symm hj), List.append_nil]
          · rw [List.length_append, List.length_singleton]
            exact hroom
        · exact hd
      · exact hd
  | take =>
      simp only [Handover.step]
      split
      · rename_i x rest hchannel
        refine ⟨?_, ?_⟩
        · intro j
          rw [List.append_assoc, List.singleton_append, ← hchannel]
          exact hd.inOrder j
        · have hle := hd.bounded
          rw [hchannel, List.length_cons] at hle
          exact Nat.le_of_succ_le hle
      · exact hd

/-- No run loses an item. -/
theorem Delivered.run {accepts : α → Bool} {capacity : Nat} {h : Hub ι α}
    (hd : Delivered accepts capacity h) (moves : List (Move ι α)) :
    Delivered accepts capacity (run accepts capacity h moves) := by
  refine List.foldlRecOn moves _ hd ?_
  intro h hd m _
  exact hd.step m

/-- What is in the channel or with the consumer was accepted. -/
theorem Delivered.accepted {accepts : α → Bool} {capacity : Nat} {h : Hub ι α}
    (hd : Delivered accepts capacity h) {x : ι × α} (hx : x ∈ h.taken ++ h.channel) :
    x.2 ∈ h.offered x.1 ∧ accepts x.2 = true := by
  refine List.mem_filter.mp ?_
  rw [hd.inOrder x.1]
  exact List.mem_append_left _ (mem_ofPort hx)

/-! ## Progress -/

/-- A move of the way on: anything but a new batch. -/
def Move.handles : Move ι α → Prop
  | .offer _ _ => False
  | _ => True

/-- The moves an item still needs: a look, a send and a take. -/
def Port.work (p : Port α) : Nat := 3 * p.batch.length + 2 * p.held.toList.length

variable [Fintype ι]

/-- The moves all items still need. -/
def Hub.work (h : Hub ι α) : Nat := (∑ i, (h.ports i).work) + h.channel.length

theorem sum_update (ports : ι → Port α) (i : ι) (p : Port α) :
    (∑ j, (Function.update ports i p j).work) + (ports i).work =
      (∑ j, (ports j).work) + p.work := by
  have hsum : (fun j => (Function.update ports i p j).work) =
      Function.update (fun j => (ports j).work) i p.work := by
    funext j
    exact Function.apply_update (fun _ => Port.work) ports i p j
  rw [hsum, Finset.sum_update_of_mem (Finset.mem_univ i),
    Finset.sum_eq_add_sum_sdiff_singleton_of_mem (Finset.mem_univ i) fun j => (ports j).work]
  omega

omit [DecidableEq ι] [Fintype ι] in
/-- A check leaves the port alone or less to do. -/
theorem check_work (accepts : α → Bool) (p : Port α) :
    p.check accepts = p ∨ (p.check accepts).work < p.work := by
  obtain ⟨batch, held⟩ := p
  cases held with
  | some x => exact Or.inl rfl
  | none =>
      cases batch with
      | nil => exact Or.inl rfl
      | cons x rest =>
          right
          show 3 * rest.length + 2 * (if accepts x then some x else none).toList.length <
            3 * (rest.length + 1) + 0
          split
          · show 3 * rest.length + 2 * 1 < _
            omega
          · show 3 * rest.length + 2 * 0 < _
            omega

/-- **ONE MOVE** of the way on does nothing, or leaves less to do. -/
theorem step_work (accepts : α → Bool) (capacity : Nat) (h : Hub ι α) {m : Move ι α}
    (hm : m.handles) :
    step accepts capacity h m = h ∨ (step accepts capacity h m).work < h.work := by
  cases m with
  | offer i batch => exact hm.elim
  | check i =>
      have hsum := sum_update h.ports i ((h.ports i).check accepts)
      rcases check_work accepts (h.ports i) with heq | hlt
      · left
        rw [step, heq, Function.update_eq_self]
      · right
        show (∑ j, (Function.update h.ports i ((h.ports i).check accepts) j).work) +
          h.channel.length < (∑ j, (h.ports j).work) + h.channel.length
        omega
  | send i =>
      simp only [step]
      split
      · rename_i x hheld
        split
        · right
          have hsum := sum_update h.ports i ⟨(h.ports i).batch, none⟩
          have hlt : (⟨(h.ports i).batch, none⟩ : Port α).work + 2 = (h.ports i).work := by
            rw [Port.work, Port.work, hheld]
            rfl
          show (∑ j, (Function.update h.ports i ⟨(h.ports i).batch, none⟩ j).work) +
            (h.channel ++ [(i, x)]).length < (∑ j, (h.ports j).work) + h.channel.length
          rw [List.length_append, List.length_singleton]
          omega
        · exact Or.inl rfl
      · exact Or.inl rfl
  | take =>
      simp only [step]
      split
      · rename_i x rest hchannel
        right
        show (∑ j, (h.ports j).work) + rest.length < (∑ j, (h.ports j).work) + h.channel.length
        rw [hchannel, List.length_cons]
        omega
      · exact Or.inl rfl

omit [Fintype ι] in
/-- A producer with work can look, or can send once the channel has room. -/
theorem port_moves {accepts : α → Bool} {capacity : Nat} {h : Hub ι α} {i : ι}
    (hwork : (h.ports i).work ≠ 0) (hroom : h.channel.length < capacity) :
    step accepts capacity h (.check i) ≠ h ∨ step accepts capacity h (.send i) ≠ h := by
  cases hheld : (h.ports i).held with
  | some x =>
      right
      simp only [step, hheld, if_pos hroom]
      intro heq
      have hlen := congrArg (fun h => h.channel.length) heq
      simp at hlen
  | none =>
      left
      cases hbatch : (h.ports i).batch with
      | nil =>
          rw [Port.work, hheld, hbatch] at hwork
          exact absurd rfl hwork
      | cons x rest =>
          intro heq
          have hport := congrArg (fun h => ((h.ports i).batch).length) heq
          simp only [step, Function.update_self] at hport
          rw [Port.check, hheld, hbatch] at hport
          simp at hport

/-- **NO DEADLOCK**: while there is work, some move does some of it. -/
theorem exists_move (accepts : α → Bool) {capacity : Nat} (hcap : 0 < capacity) {h : Hub ι α}
    (hwork : h.work ≠ 0) :
    step accepts capacity h .take ≠ h ∨
      ∃ i, step accepts capacity h (.check i) ≠ h ∨ step accepts capacity h (.send i) ≠ h := by
  cases hchannel : h.channel with
  | cons x rest =>
      left
      simp only [step, hchannel]
      intro heq
      have hlen := congrArg (fun h => h.channel.length) heq
      rw [hchannel] at hlen
      simp at hlen
  | nil =>
      right
      have hroom : h.channel.length < capacity := by
        rw [hchannel]
        exact hcap
      have hsum : ∑ i, (h.ports i).work ≠ 0 := by
        rw [Hub.work, hchannel] at hwork
        exact hwork
      obtain ⟨i, -, hi⟩ := Finset.exists_ne_zero_of_sum_ne_zero hsum
      exact ⟨i, port_moves hi hroom⟩

/-- The moves of the way on make progress. -/
theorem progress (accepts : α → Bool) (capacity : Nat) :
    Progress (step accepts capacity) (Move.handles (ι := ι)) (fun _ => True) id Hub.work where
  kept := fun _ _ _ _ => trivial
  moves := fun h _ _ hm => step_work accepts capacity h hm

/-- A round in which every party gets its turns. -/
structure Round (moves : List (Move ι α)) : Prop where
  handles : ∀ m ∈ moves, m.handles
  checks : ∀ i, Move.check i ∈ moves
  sends : ∀ i, Move.send i ∈ moves
  takes : Move.take ∈ moves

theorem Round.fair (accepts : α → Bool) {capacity : Nat} (hcap : 0 < capacity)
    {moves : List (Move ι α)} (hround : Round moves) :
    Fair (step accepts capacity) Move.handles (fun _ => True) id Hub.work moves where
  allowed := hround.handles
  works := by
    intro h hwork
    rcases exists_move accepts hcap hwork with htake | ⟨i, hcheck | hsend⟩
    · exact ⟨_, hround.takes, fun s _ hs => hs ▸ htake⟩
    · exact ⟨_, hround.checks i, fun s _ hs => hs ▸ hcheck⟩
    · exact ⟨_, hround.sends i, fun s _ hs => hs ▸ hsend⟩

/-- **EVERYTHING ARRIVES**: as many rounds as there is work leave none, in whatever order
    the parties move inside each. -/
theorem run_drained {accepts : α → Bool} {capacity : Nat} (hcap : 0 < capacity) (h : Hub ι α)
    {rounds : List (List (Move ι α))} (hrounds : ∀ moves ∈ rounds, Round moves)
    (hlen : h.work ≤ rounds.length) :
    (run accepts capacity h rounds.flatten).work = 0 :=
  (progress accepts capacity).run_drained trivial
    (fun moves hmem => (hrounds moves hmem).fair accepts hcap) hlen

omit [DecidableEq ι] in
/-- Without work left, the channel is empty and every producer idle. -/
theorem settled {h : Hub ι α} (hwork : h.work = 0) :
    h.channel = [] ∧ ∀ i, (h.ports i).batch = [] ∧ (h.ports i).held = none := by
  rw [Hub.work, Nat.add_eq_zero_iff] at hwork
  refine ⟨List.eq_nil_of_length_eq_zero hwork.2, ?_⟩
  intro i
  have hport := Finset.sum_eq_zero_iff.mp hwork.1 i (Finset.mem_univ i)
  cases hheld : (h.ports i).held with
  | none =>
      rw [Port.work, hheld] at hport
      exact ⟨List.eq_nil_of_length_eq_zero ((Nat.mul_eq_zero.mp hport).resolve_left (by omega)),
        rfl⟩
  | some x =>
      rw [Port.work, hheld] at hport
      exact absurd hport (by simp)

/-- Without work left, every accepted item is with the consumer. -/
theorem Delivered.all_taken {accepts : α → Bool} {capacity : Nat} {h : Hub ι α}
    (hd : Delivered accepts capacity h) (hwork : h.work = 0) (i : ι) :
    (h.offered i).filter accepts = ofPort i h.taken := by
  obtain ⟨hchannel, hports⟩ := settled hwork
  rw [hd.inOrder i, hchannel, List.append_nil, Port.ahead, (hports i).1, (hports i).2]
  exact List.append_nil _

end Handover
