import SharedQuota.Proofs.Engine.Crowd
import SharedQuota.Proofs.Locks.Exclusion

/-!
The locks that calls hold. A call that reads, compares or reserves holds the lock of every quota it
is checked against, and so no two such calls have a quota in common (`IsGuarded.name_ne`). Every
live handle belongs to one call.
-/

namespace SharedQuota

open Engine (handles Advance)

namespace Stage

def guarded : Stage → List Applicable
  | .checking charge .. | .reading charge .. | .reserving charge .. => charge.quotas
  | _ => []

def HoldAll (l : Locks) (held : List Nat) (quotas : List Applicable) : Prop :=
  List.Forall₂ (fun id a => l.Holds id a.name) held quotas

/-- The locks are taken as far as the call has come. -/
def IsGuarded (l : Locks) : Stage → Prop
  | .locking charge held next => ∃ done, charge.quotas = done ++ next ∧ HoldAll l held done
  | .waiting charge held handle a next =>
    l.Has handle a.name ∧ ∃ done, charge.quotas = done ++ a :: next ∧ HoldAll l held done
  | .checking charge held .. | .reading charge held .. | .reserving charge held _ =>
    HoldAll l held charge.quotas
  | _ => True

variable {l l' : Locks} {held : List Nat} {quotas : List Applicable} {stage : Stage}

theorem HoldAll.keeps (h : HoldAll l held quotas) (hk : ∀ id ∈ held, Locks.Keeps l l' id) :
    HoldAll l' held quotas := by
  induction h with
  | nil => exact .nil
  | cons hid _ ih =>
    refine .cons ((hk _ (List.mem_cons_self ..)).holds hid) (ih fun id hm => ?_)
    exact hk id (List.mem_cons_of_mem _ hm)

theorem HoldAll.snoc (h : HoldAll l held quotas) {id : Nat} {a : Applicable}
    (hid : l.Holds id a.name) : HoldAll l (held ++ [id]) (quotas ++ [a]) := by
  induction h with
  | nil => exact .cons hid .nil
  | cons hhead _ ih => exact .cons hhead ih

theorem HoldAll.exists_holds (h : HoldAll l held quotas) {a : Applicable} (ha : a ∈ quotas) :
    ∃ id ∈ held, l.Holds id a.name := by
  induction h with
  | nil => cases ha
  | cons hid _ ih =>
    rcases List.mem_cons.1 ha with rfl | ha
    · exact ⟨_, List.mem_cons_self .., hid⟩
    · obtain ⟨id, hm, hholds⟩ := ih ha
      exact ⟨id, List.mem_cons_of_mem _ hm, hholds⟩

/-- A call that holds the locks of quotas holds each under a name of its own. -/
theorem HoldAll.names_nodup (h : HoldAll l held quotas) (hl : l.Sound) (hheld : held.Nodup) :
    (quotas.map (·.name)).Nodup := by
  induction h with
  | nil => exact List.nodup_nil
  | @cons id a held quotas hid hrest ih =>
    obtain ⟨hnot, hheld⟩ := List.nodup_cons.1 hheld
    refine List.nodup_cons.2 ⟨fun hname => ?_, ih hheld⟩
    obtain ⟨b, hb, hsame⟩ := List.mem_map.1 hname
    obtain ⟨id', hid', hholds⟩ := HoldAll.exists_holds hrest hb
    rw [hsame] at hholds
    exact hnot (hl.holds_unique hid hholds ▸ hid')

theorem IsGuarded.keeps (h : stage.IsGuarded l)
    (hk : ∀ id ∈ handles stage, Locks.Keeps l l' id) : stage.IsGuarded l' := by
  cases stage with
  | locking charge held next =>
    obtain ⟨done, hdone, hheld⟩ := h
    exact ⟨done, hdone, hheld.keeps hk⟩
  | waiting charge held handle a next =>
    obtain ⟨hhas, done, hdone, hheld⟩ := h
    refine ⟨(hk handle (by simp [handles])).has hhas, done, hdone, hheld.keeps fun id hm => ?_⟩
    exact hk id (List.mem_append_left _ hm)
  | checking charge held checked next => exact HoldAll.keeps h hk
  | reading charge held checked a since next => exact HoldAll.keeps h hk
  | reserving charge held next => exact HoldAll.keeps h hk
  | _ => trivial

theorem IsGuarded.exists_holds (h : stage.IsGuarded l) {a : Applicable} (ha : a ∈ stage.guarded) :
    ∃ id ∈ handles stage, l.Holds id a.name := by
  cases stage with
  | checking charge held checked next => exact HoldAll.exists_holds h ha
  | reading charge held checked b since next => exact HoldAll.exists_holds h ha
  | reserving charge held next => exact HoldAll.exists_holds h ha
  | _ => cases ha

end Stage

theorem Work.start_cases (work : Work) :
    (∃ result, work.start = .finished result) ∨
      (∃ name delta, work.start = .listing name delta) ∨
      (∃ old new, work.start = .relabelling old new) ∨
      ∃ proposed limits, work.start = .surveying proposed limits := by
  cases work with
  | usage name delta =>
    simp only [start]
    split
    case isTrue => exact .inl ⟨_, rfl⟩
    case isFalse => exact .inr (.inl ⟨_, _, rfl⟩)
  | relabel old new => exact .inr (.inr (.inl ⟨_, _, rfl⟩))
  | quota new old =>
    simp only [start]
    split
    case h_1 => exact .inl ⟨_, rfl⟩
    case h_2 =>
      cases old with
      | none => exact .inl ⟨_, rfl⟩
      | some old =>
        dsimp only
        split
        case isTrue => exact .inl ⟨_, rfl⟩
        case isFalse => exact .inr (.inr (.inr ⟨_, _, rfl⟩))

namespace Engine

variable {rules : Rules} {now : Now} {dryRun : Bool} {shared shared' : Shared}
  {stage stage' : Stage} {answer : Answer}

theorem start_cases (name : String) (delta : ResourceList) (listing : List Namespace)
    (quotas : List Quota) :
    Charge.start name delta listing quotas = .finished (.ok ()) ∨
      Charge.start name delta listing quotas =
        .locking ⟨name, delta, listing, Applicable.sorted delta quotas⟩ []
          (Applicable.sorted delta quotas) := by
  simp only [Charge.start]
  split
  case isTrue => exact .inl rfl
  case isFalse => exact .inr rfl

def IsUnheld (stage : Stage) : Prop := handles stage = [] ∧ ∀ l, stage.IsGuarded l

theorem isUnheld_start (name : String) (delta : ResourceList) (listing : List Namespace)
    (quotas : List Quota) : IsUnheld (Charge.start name delta listing quotas) := by
  rcases start_cases name delta listing quotas with h | h <;> rw [h]
  · exact ⟨rfl, fun _ => trivial⟩
  · exact ⟨rfl, fun _ => ⟨[], rfl, .nil⟩⟩

theorem isUnheld_charge (x : Exclusions) (name : String) (delta : ResourceList)
    (namespaces : List Namespace) (quotas : List Quota) :
    IsUnheld (charge x name delta namespaces quotas) := by
  simp only [charge]
  cases namespaces.find? (·.name == name) with
  | none => exact ⟨rfl, fun _ => trivial⟩
  | some ns => exact isUnheld_start ..

theorem isUnheld_relabel (x : Exclusions) (old new : Namespace) (namespaces : List Namespace)
    (quotas : List Quota) : IsUnheld (relabel x old new namespaces quotas) := by
  simp only [relabel]
  split <;> exact ⟨rfl, fun _ => trivial⟩

theorem isUnheld_work (work : Work) : IsUnheld work.start := by
  rcases work.start_cases with ⟨_, h⟩ | ⟨_, _, h⟩ | ⟨_, _, h⟩ | ⟨_, _, h⟩ <;> rw [h] <;>
    exact ⟨rfl, fun _ => trivial⟩

/-- What a step does to the locks and to the handles of the call. -/
theorem Advance.locks_cases (h : Advance rules now dryRun shared stage answer shared' stage') :
    (shared'.locks = shared.locks ∧ handles stage' = handles stage) ∨
      (∃ name, shared'.locks = (shared.locks.get name).2.wait (shared.locks.get name).1 ∧
        handles stage' = handles stage ++ [(shared.locks.get name).1]) ∨
      ∃ handle, shared'.locks = shared.locks.drop handle ∧
        handles stage = handle :: handles stage' := by
  cases h with
  | list => exact .inl ⟨rfl, (isUnheld_charge ..).1⟩
  | relist => exact .inl ⟨rfl, (isUnheld_relabel ..).1⟩
  | join => exact .inl ⟨rfl, (isUnheld_start ..).1⟩
  | ask => exact .inr (.inl ⟨_, rfl, rfl⟩)
  | deny hr he => exact .inl ⟨rfl, (handles_of_reading? hr).symm⟩
  | clear hr he => exact .inl ⟨rfl, (handles_of_reading? hr).symm⟩
  | release => exact .inr (.inr ⟨_, rfl, rfl⟩)
  | _ => exact .inl ⟨rfl, rfl⟩

theorem Advance.isGuarded (h : Advance rules now dryRun shared stage answer shared' stage')
    (hl : shared.locks.Sound) (hlive : ∀ id ∈ handles stage, id ∈ shared.locks.ids)
    (hs : stage.IsGuarded shared.locks) : stage'.IsGuarded shared'.locks := by
  cases h with
  | list => exact (isUnheld_charge ..).2 _
  | relist => exact (isUnheld_relabel ..).2 _
  | join => exact (isUnheld_start ..).2 _
  | @locked charge held =>
    obtain ⟨done, hdone, hheld⟩ := hs
    rw [List.append_nil] at hdone
    change Stage.HoldAll shared.locks held charge.quotas
    rwa [hdone]
  | @ask charge held a next =>
    obtain ⟨done, hdone, hheld⟩ := hs
    refine ⟨Locks.has_wait (hl.get a.name) (Locks.has_get ..), done, hdone, ?_⟩
    refine hheld.keeps fun id hid => ?_
    exact Locks.keeps_get_wait hl a.name (hlive id hid)
  | @take charge held handle a next hholds =>
    obtain ⟨hhas, done, hdone, hheld⟩ := hs
    exact ⟨done ++ [a], by simp [hdone], hheld.snoc (hl.holds_of_has hhas hholds)⟩
  | measure hr => exact hs
  | clear hr he =>
    rcases stage_of_reading? hr with rfl | ⟨since, rfl⟩ <;> exact hs
  | pass hdry => exact hs
  | reserve => exact hs
  | _ => trivial

/-- While no other call runs, the handles that live are those of the call. -/
structure OwnsAll (locks : Locks) (stage : Stage) : Prop where
  sound : locks.Sound
  owned : (handles stage).Perm locks.ids
  guarded : stage.IsGuarded locks

theorem OwnsAll.advance (h : OwnsAll shared.locks stage)
    (hadvance : Advance rules now dryRun shared stage answer shared' stage') :
    OwnsAll shared'.locks stage' := by
  have hguarded := hadvance.isGuarded h.sound (fun id hid => h.owned.subset hid) h.guarded
  rcases hadvance.locks_cases with ⟨hlocks, hhandles⟩ | ⟨name, hlocks, hhandles⟩ |
    ⟨handle, hlocks, hhandles⟩
  · exact ⟨hlocks ▸ h.sound, hlocks ▸ hhandles ▸ h.owned, hguarded⟩
  · refine ⟨hlocks ▸ (h.sound.get name).wait _, ?_, hguarded⟩
    rw [hlocks, hhandles]
    refine .trans ?_ (Locks.ids_wait (h.sound.get name) _).symm
    rw [Locks.ids_get]
    exact h.owned.append_right _
  · refine ⟨hlocks ▸ h.sound.drop handle, ?_, hguarded⟩
    have howned := h.owned
    rw [hhandles] at howned
    rw [hlocks, Locks.ids_drop h.sound]
    have hmem : handle ∈ shared.locks.ids := howned.subset List.mem_cons_self
    exact (howned.trans (List.perm_cons_erase hmem)).cons_inv

theorem OwnsAll.handles_nil {locks : Locks} {result : Except Denial Unit}
    (h : OwnsAll locks (.finished result)) : locks.handles = [] :=
  List.map_eq_nil_iff.1 (List.nil_perm.1 h.owned)

end Engine

namespace Crowd

/-- The locks are sound, each live handle belongs to one call, and calls hold what they need. -/
structure IsGuarded (s : Crowd) : Prop where
  sound : s.shared.locks.Sound
  owned : (s.callers.flatMap fun c => handles c.stage).Perm s.shared.locks.ids
  guarded : ∀ c ∈ s.callers, c.stage.IsGuarded s.shared.locks

variable {rules : Rules} {s t : Crowd} {m : Move} {before after : List Caller} {c c' : Caller}

theorem isGuarded_start (works : List (Work × Bool)) : (start works).IsGuarded where
  sound := Locks.sound_empty
  owned := by
    have hnone : ((start works).callers.flatMap fun c => handles c.stage) = [] := by
      rw [List.flatMap_eq_nil_iff]
      intro c hc
      obtain ⟨w, -, rfl⟩ := List.mem_map.1 hc
      exact (Engine.isUnheld_work w.1).1
    rw [hnone]
    exact .refl _
  guarded c hc := by
    obtain ⟨w, -, rfl⟩ := List.mem_map.1 hc
    exact (Engine.isUnheld_work w.1).2 _

namespace IsGuarded

theorem nodup (hs : s.IsGuarded) : (s.callers.flatMap fun c => handles c.stage).Nodup :=
  hs.owned.nodup_iff.2 hs.sound.ids_nodup

theorem mem_ids (hs : s.IsGuarded) (hc : c ∈ s.callers) {id : Nat} (hid : id ∈ handles c.stage) :
    id ∈ s.shared.locks.ids :=
  hs.owned.subset (List.mem_flatMap.2 ⟨c, hc, hid⟩)

theorem handle_ne (hs : s.IsGuarded) (h : s.callers = before ++ c :: after)
    (hc' : c' ∈ before ++ after) {id id' : Nat} (hid : id ∈ handles c.stage)
    (hid' : id' ∈ handles c'.stage) : id ≠ id' := by
  have hnodup := hs.nodup
  have hperm : s.callers.Perm (c :: (before ++ after)) := by
    rw [h]
    exact List.perm_middle
  rw [(hperm.flatMap_right _).nodup_iff, List.flatMap_cons, List.nodup_append] at hnodup
  exact hnodup.2.2 id hid id' (List.mem_flatMap.2 ⟨c', hc', hid'⟩)

/-- Two calls that are guarded have no quota in common. -/
theorem name_ne (hs : s.IsGuarded) (h : s.callers = before ++ c :: after)
    (hc' : c' ∈ before ++ after) {a a' : Applicable} (ha : a ∈ c.stage.guarded)
    (ha' : a' ∈ c'.stage.guarded) : a.name ≠ a'.name := by
  have hmem := mem_callers_of_split h hc'
  obtain ⟨id, hid, hholds⟩ := (hs.guarded c (by simp [h])).exists_holds ha
  obtain ⟨id', hid', hholds'⟩ := (hs.guarded c' hmem).exists_holds ha'
  intro hname
  rw [← hname] at hholds'
  exact hs.handle_ne h hc' hid hid' (hs.sound.holds_unique hholds hholds')

theorem step (hs : s.IsGuarded) (h : s.step? rules m = some t) : t.IsGuarded := by
  obtain ⟨before, c, after, shared, stage, hcallers, -, rfl, hadvance⟩ := of_step? h
  have hc : c ∈ s.callers := by simp [hcallers]
  have hothers (c' : Caller) (hc' : c' ∈ before ++ after) : c' ∈ s.callers :=
    mem_callers_of_split hcallers hc'
  have hown := hadvance.isGuarded hs.sound (fun id hid => hs.mem_ids hc hid) (hs.guarded c hc)
  have howned : (before.flatMap (fun c => handles c.stage) ++ (handles c.stage ++
      after.flatMap fun c => handles c.stage)).Perm s.shared.locks.ids := by
    simpa [hcallers] using hs.owned
  -- the other calls keep their handles, whatever this one does
  have hguarded (hkeeps : ∀ c' ∈ before ++ after, ∀ id ∈ handles c'.stage,
      Locks.Keeps s.shared.locks shared.locks id) :
      ∀ c' ∈ before ++ { c with stage } :: after, c'.stage.IsGuarded shared.locks := by
    refine forall_mem_split (fun c' hc' => ?_) hown
    exact (hs.guarded c' (hothers c' hc')).keeps (hkeeps c' hc')
  rcases hadvance.locks_cases with ⟨hlocks, hhandles⟩ | ⟨name, hlocks, hhandles⟩ |
    ⟨handle, hlocks, hhandles⟩
  · refine ⟨?_, ?_, hguarded ?_⟩ <;> simp only [hlocks]
    · exact hs.sound
    · simpa [hhandles] using howned
    · exact fun c' _ id _ x hx hid => ⟨x, hx, hid, rfl, fun h => h⟩
  · refine ⟨?_, ?_, hguarded ?_⟩ <;> simp only [hlocks]
    · exact (hs.sound.get name).wait _
    · refine .trans ?_ (Locks.ids_wait (hs.sound.get name) _).symm
      rw [Locks.ids_get]
      refine .trans ?_ (howned.append_right _)
      simp only [List.flatMap_append, List.flatMap_cons, hhandles, List.append_assoc]
      exact (List.perm_append_comm.append_left _).append_left _
    · exact fun c' hc' id hid =>
        Locks.keeps_get_wait hs.sound name (hs.mem_ids (hothers c' hc') hid)
  · have hmem : handle ∈ handles c.stage := by simp [hhandles]
    refine ⟨?_, ?_, hguarded ?_⟩ <;> simp only [hlocks]
    · exact hs.sound.drop handle
    · rw [Locks.ids_drop hs.sound]
      have hlast := List.perm_cons_erase (hs.mem_ids hc hmem)
      rw [hhandles, List.cons_append] at howned
      have hfirst := (List.perm_middle.symm.trans howned).trans hlast
      simpa using hfirst.cons_inv
    · exact fun c' hc' id hid => Locks.keeps_drop (hs.handle_ne hcallers hc' hmem hid).symm

end IsGuarded

end Crowd

end SharedQuota
