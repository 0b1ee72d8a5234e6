import SharedQuota.Proofs.List
import SharedQuota.Proofs.Locks.Waiting

/-!
Locks on which the handles have other numbers. Nothing that is done with locks tells them apart: of
a handle only its name, its use and its place among the others matter (`Renumbered`).
-/

namespace SharedQuota

/-- A handle with a number that is greater by `k`, on a lock that may have any number. -/
structure Handle.Renumbered (k : Nat) (h h' : Handle) : Prop where
  id : h'.id = h.id + k
  name : h'.name = h.name
  use : h'.use = h.use

namespace Locks

theorem nextHandle_wait (l : Locks) (id : Nat) : (l.wait id).nextHandle = l.nextHandle := by
  cases hf : l.find? id with
  | none => rw [wait_of_none hf]
  | some h => rw [wait_of_find? hf]

theorem nextHandle_drop (l : Locks) (id : Nat) : (l.drop id).nextHandle = l.nextHandle := by
  cases hf : l.find? id with
  | none => rw [drop_of_none hf]
  | some h => rw [drop_of_find? hf]

/-- The same handles in the same order, under numbers that are greater by `k`. -/
structure Renumbered (k : Nat) (l l' : Locks) : Prop where
  sound : l.Sound
  sound' : l'.Sound
  nextHandle : l'.nextHandle = l.nextHandle + k
  handles : List.Forall₂ (Handle.Renumbered k) l.handles l'.handles

/-- No handle on any lock lives. -/
structure AtRest (l : Locks) : Prop where
  sound : l.Sound
  handles : l.handles = []

theorem atRest_empty : empty.AtRest := ⟨sound_empty, rfl⟩

namespace AtRest

theorem renumbered {l : Locks} (h : l.AtRest) : Renumbered l.nextHandle empty l where
  sound := sound_empty
  sound' := h.sound
  nextHandle := (Nat.zero_add _).symm
  handles := by
    rw [h.handles]
    exact .nil

end AtRest

namespace Renumbered

variable {k : Nat} {l l' : Locks} {h h' x x' : Handle}

theorem atRest (hl : l.Renumbered k l') (hrest : l.handles = []) : l'.AtRest := by
  refine ⟨hl.sound', ?_⟩
  have hhandles := hl.handles
  rw [hrest] at hhandles
  exact List.forall₂_nil_left_iff.1 hhandles

theorem find? (hl : l.Renumbered k l') (id : Nat) :
    Option.Rel (Handle.Renumbered k) (l.find? id) (l'.find? (id + k)) :=
  rel_find?_of_forall₂ hl.handles fun h h' hh => by simp [hh.id]

theorem others (hl : l.Renumbered k l') (id : Nat) :
    List.Forall₂ (Handle.Renumbered k) (l.others id) (l'.others (id + k)) :=
  List.rel_filter (fun h h' hh => by simp [hh.id]) hl.handles

theorem holds (hl : l.Renumbered k l') (id : Nat) : l'.holds (id + k) = l.holds id := by
  have hfind := hl.find? id
  simp only [Locks.holds]
  generalize l.find? id = o at *
  generalize l'.find? (id + k) = o' at *
  cases hfind with
  | none => rfl
  | some hh => simp only [Option.any_some, hh.use]

/-- Handles are on one lock if those with the other numbers are. -/
theorem lock_eq_iff (hl : l.Renumbered k l') (hh : h.Renumbered k h') (hx : x.Renumbered k x')
    (hmem : h ∈ l.handles) (hmem' : h' ∈ l'.handles) (hmemx : x ∈ l.handles)
    (hmemx' : x' ∈ l'.handles) : x'.lock = h'.lock ↔ x.lock = h.lock := by
  rw [hl.sound'.lock_eq_iff hmemx' hmem', hl.sound.lock_eq_iff hmemx hmem, hh.name, hx.name]

theorem isHeld (hl : l.Renumbered k l') (hh : h.Renumbered k h') (hmem : h ∈ l.handles)
    (hmem' : h' ∈ l'.handles) : l'.isHeld h'.lock = l.isHeld h.lock :=
  any_eq_of_forall₂ hl.handles fun x hmemx x' hmemx' hx => by
    rw [hx.use, Bool.eq_iff_iff]
    simp only [Bool.and_eq_true, beq_iff_eq, hl.lock_eq_iff hh hx hmem hmem' hmemx hmemx']

theorem get (hl : l.Renumbered k l') (name : String) :
    (l'.get name).1 = (l.get name).1 + k ∧ (l.get name).2.Renumbered k (l'.get name).2 := by
  have hid (l : Locks) : (l.get name).1 = l.nextHandle := by
    rw [get_eq]
    split <;> rfl
  have hnext (l : Locks) : (l.get name).2.nextHandle = l.nextHandle + 1 := by
    rw [get_eq]
    split <;> rfl
  have hfirst : (l'.get name).1 = (l.get name).1 + k := by rw [hid, hid, hl.nextHandle]
  refine ⟨hfirst, hl.sound.get name, hl.sound'.get name, ?_, ?_⟩
  · rw [hnext, hnext, hl.nextHandle]
    omega
  · obtain ⟨lock, hhandles⟩ := handles_get l name
    obtain ⟨lock', hhandles'⟩ := handles_get l' name
    rw [hhandles, hhandles']
    exact List.rel_append hl.handles (.cons ⟨hfirst, rfl, rfl⟩ .nil)

theorem wait (hl : l.Renumbered k l') (id : Nat) :
    (l.wait id).Renumbered k (l'.wait (id + k)) := by
  refine ⟨hl.sound.wait id, hl.sound'.wait _, ?_, ?_⟩
  · rw [nextHandle_wait, nextHandle_wait, hl.nextHandle]
  · have hfind := hl.find? id
    generalize hf : l.find? id = o at hfind
    generalize hf' : l'.find? (id + k) = o' at hfind
    cases hfind with
    | none =>
      rw [wait_of_none hf, wait_of_none hf']
      exact hl.handles
    | some hh =>
      have hheld := hl.isHeld hh (mem_of_find? hf).1 (mem_of_find? hf').1
      rw [wait_of_find? hf, wait_of_find? hf', hheld]
      exact List.rel_append (hl.others id) (.cons ⟨hh.id, hh.name, rfl⟩ .nil)

theorem handOver {hs hs' : List Handle} {lock lock' : Nat}
    (hhs : List.Forall₂ (Handle.Renumbered k) hs hs')
    (hlock : ∀ x ∈ hs, ∀ x' ∈ hs', x.Renumbered k x' → (x'.lock = lock' ↔ x.lock = lock)) :
    List.Forall₂ (Handle.Renumbered k) (Locks.handOver lock hs) (Locks.handOver lock' hs') := by
  induction hhs with
  | nil => exact .nil
  | @cons x x' hs hs' hx hrest ih =>
    have hfirst : x'.lock = lock' ∧ x'.use = .waiting ↔ x.lock = lock ∧ x.use = .waiting := by
      rw [hlock x List.mem_cons_self x' List.mem_cons_self hx, hx.use]
    rw [Locks.handOver, Locks.handOver]
    by_cases hfree : x.lock = lock ∧ x.use = .waiting
    · rw [if_pos hfree, if_pos (hfirst.2 hfree)]
      exact .cons ⟨hx.id, hx.name, rfl⟩ hrest
    · rw [if_neg hfree, if_neg (mt hfirst.1 hfree)]
      refine .cons hx (ih fun y hy y' hy' => ?_)
      exact hlock y (List.mem_cons_of_mem _ hy) y' (List.mem_cons_of_mem _ hy')

theorem drop (hl : l.Renumbered k l') (id : Nat) :
    (l.drop id).Renumbered k (l'.drop (id + k)) := by
  refine ⟨hl.sound.drop id, hl.sound'.drop _, ?_, ?_⟩
  · rw [nextHandle_drop, nextHandle_drop, hl.nextHandle]
  · have hfind := hl.find? id
    generalize hf : l.find? id = o at hfind
    generalize hf' : l'.find? (id + k) = o' at hfind
    cases hfind with
    | none =>
      rw [drop_of_none hf, drop_of_none hf']
      exact hl.handles
    | @some h h' hh =>
      rw [drop_of_find? hf, drop_of_find? hf', hh.use]
      dsimp only
      split
      case isTrue =>
        refine handOver (hl.others id) fun x hx x' hx' hxx' => ?_
        exact hl.lock_eq_iff hh hxx' (mem_of_find? hf).1 (mem_of_find? hf').1 (mem_others.1 hx).1
          (mem_others.1 hx').1
      case isFalse => exact hl.others id

theorem passesOn (hl : l.Renumbered k l') (id : Nat) :
    l'.passesOn (id + k) = l.passesOn id := by
  have hfind := hl.find? id
  simp only [Locks.passesOn]
  generalize hf : l.find? id = o at *
  generalize hf' : l'.find? (id + k) = o' at *
  cases hfind with
  | none => rfl
  | @some h h' hh =>
    simp only [Option.any_some, hh.use]
    congr 1
    refine any_eq_of_forall₂ hl.handles fun x hx x' hx' hxx' => ?_
    have hlock := hl.lock_eq_iff hh hxx' (mem_of_find? hf).1 (mem_of_find? hf').1 hx hx'
    rw [hxx'.use, Bool.eq_iff_iff]
    simp only [Bool.and_eq_true, beq_iff_eq, hlock]

end Renumbered

end Locks

end SharedQuota
