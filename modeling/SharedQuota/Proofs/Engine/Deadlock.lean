import SharedQuota.Proofs.Engine.Applicable
import SharedQuota.Proofs.Engine.Guard
import SharedQuota.Proofs.Locks.Waiting
import Mathlib.Data.Fintype.EquivFin
import Mathlib.Logic.Relation

/-!
Calls that wait for each other's locks. Main statement (`hasNoDeadlock`): as every call takes its
locks in the order of the names, no calls wait for each other in a circle, and whoever waits, waits
in the end for a call that holds a lock and does not wait.
-/

namespace SharedQuota

open Engine (handles Advance)

/-- A listing in which each quota has a name of its own. -/
def Answer.IsDistinct : Answer → Prop
  | .listed _ quotas => (quotas.map (·.name)).Nodup
  | _ => True

/-- The quotas are those of some listing that limit the usage, in the order of their names. -/
def Charge.IsOrdered (c : Charge) : Prop :=
  ∃ quotas : List Quota,
    (quotas.map (·.name)).Nodup ∧ c.quotas = Applicable.sorted c.delta quotas

namespace Charge

variable {c : Charge}

theorem IsOrdered.pairwise (h : c.IsOrdered) :
    c.quotas.Pairwise fun a b => compare a.name b.name = .lt := by
  obtain ⟨quotas, hnodup, heq⟩ := h
  exact heq ▸ Applicable.pairwise_sorted hnodup

theorem IsOrdered.limits (h : c.IsOrdered) {a : Applicable} (ha : a ∈ c.quotas) :
    Applicable.of? c.delta a.quota = some a := by
  obtain ⟨quotas, -, heq⟩ := h
  rw [heq, Applicable.mem_sorted_iff] at ha
  obtain ⟨q, -, hq⟩ := ha
  rwa [(Applicable.of_of? hq).1]

end Charge

namespace Stage

def IsOrdered : Stage → Prop
  | .joining _ _ joined _ => (joined.map (·.name)).Nodup
  | .locking charge _ _ | .waiting charge _ _ _ _ => charge.IsOrdered
  | _ => True

theorem isOrdered_start (name : String) (delta : ResourceList) (listing : List Namespace)
    {quotas : List Quota} (h : (quotas.map (·.name)).Nodup) :
    (Charge.start name delta listing quotas).IsOrdered := by
  rcases Engine.start_cases name delta listing quotas with heq | heq <;> rw [heq]
  · trivial
  · exact ⟨quotas, h, rfl⟩

theorem isOrdered_work (work : Work) : work.start.IsOrdered := by
  cases work with
  | usage name delta =>
    simp only [Work.start]
    split <;> trivial
  | relabel old new => trivial
  | quota new old =>
    simp only [Work.start]
    split
    case h_1 => trivial
    case h_2 =>
      cases old with
      | none => trivial
      | some old =>
        dsimp only
        split <;> trivial

variable {rules : Rules} {now : Now} {dryRun : Bool} {shared shared' : Shared}
  {stage stage' : Stage} {answer : Answer}

theorem IsOrdered.advance (h : stage.IsOrdered) (hanswer : answer.IsDistinct)
    (hadvance : Advance rules now dryRun shared stage answer shared' stage') :
    stage'.IsOrdered := by
  have hfilter {quotas : List Quota} (hnodup : (quotas.map (·.name)).Nodup) (p : Quota → Bool) :
      ((quotas.filter p).map (·.name)).Nodup :=
    hnodup.sublist (List.filter_sublist.map _)
  cases hadvance with
  | list =>
    simp only [Engine.charge]
    split
    case h_1 => trivial
    case h_2 => exact isOrdered_start _ _ _ (hfilter hanswer _)
  | relist =>
    simp only [Engine.relabel]
    split
    case isTrue => trivial
    case isFalse => exact hfilter hanswer _
  | join => exact isOrdered_start _ _ _ h
  | ask | take => exact h
  | _ => trivial

theorem HoldAll.exists_mem {l : Locks} {held : List Nat} {quotas : List Applicable}
    (h : HoldAll l held quotas) {id : Nat} (hid : id ∈ held) :
    ∃ a ∈ quotas, l.Holds id a.name := by
  induction h with
  | nil => cases hid
  | cons hhead _ ih =>
    rcases List.mem_cons.1 hid with rfl | hid
    · exact ⟨_, List.mem_cons_self .., hhead⟩
    · obtain ⟨a, ha, hholds⟩ := ih hid
      exact ⟨a, List.mem_cons_of_mem _ ha, hholds⟩

end Stage

namespace Crowd

/-- The handle with which the call at a place waits for a lock, if it does. One to which the lock
was handed over waits no more. -/
def awaited? (s : Crowd) (place : Nat) : Option Handle :=
  match s.callers[place]?.map Caller.stage with
  | some (.waiting _ _ id _ _) => (s.shared.locks.find? id).filter (·.use == .waiting)
  | _ => none

/-- The handles through which the call at a place holds locks. -/
def heldBy (s : Crowd) (place : Nat) : List Handle :=
  s.shared.locks.handles.filter fun h =>
    h.use == .holding && s.callers[place]?.any fun c => (handles c.stage).contains h.id

/-- The call at one place waits for a lock that the call at another holds. -/
def WaitsFor (s : Crowd) (place other : Nat) : Prop :=
  ∃ h, s.awaited? place = some h ∧ ∃ g ∈ s.heldBy other, g.lock = h.lock

/-- Calls may wait, but not in a circle. -/
structure HasNoDeadlock (s : Crowd) : Prop where
  /-- What a call waits for is the lock of a quota that limits what it adds. -/
  applicable : ∀ {place : Nat} {c : Caller} {charge held id a next},
    s.callers[place]? = some c → c.stage = .waiting charge held id a next →
      s.shared.locks.Has id a.name ∧ a ∈ charge.quotas ∧
        Applicable.of? charge.delta a.quota = some a
  acyclic : ∀ place, ¬ Relation.TransGen s.WaitsFor place place
  /-- Whoever waits, waits in the end for a call that holds a lock and goes on. -/
  goesOn : ∀ place, (s.awaited? place).isSome → ∃ other,
    Relation.TransGen s.WaitsFor place other ∧ s.heldBy other ≠ [] ∧ s.awaited? other = none

/-- Locks are guarded, nobody waits for what is free, and all take them in the order of names. -/
structure IsOrdered (s : Crowd) : Prop where
  guarded : s.IsGuarded
  attended : s.shared.locks.IsAttended
  ordered : ∀ c ∈ s.callers, c.stage.IsOrdered

variable {rules : Rules} {s t : Crowd} {m : Move} {place other : Nat} {h : Handle}

theorem isOrdered_start (works : List (Work × Bool)) : (start works).IsOrdered where
  guarded := isGuarded_start works
  attended := Locks.isAttended_empty
  ordered c hc := by
    obtain ⟨w, -, rfl⟩ := List.mem_map.1 hc
    exact Stage.isOrdered_work w.1

theorem mem_heldBy_iff {g : Handle} : g ∈ s.heldBy place ↔
    g ∈ s.shared.locks.handles ∧ g.use = .holding ∧
      ∃ c, s.callers[place]? = some c ∧ g.id ∈ handles c.stage := by
  simp [heldBy, Option.any_eq_true]

theorem of_awaited? (h' : s.awaited? place = some h) :
    h ∈ s.shared.locks.handles ∧ h.use = .waiting ∧
      ∃ c charge held a next, s.callers[place]? = some c ∧
        c.stage = .waiting charge held h.id a next := by
  simp only [awaited?] at h'
  split at h'
  case h_1 charge held id a next hstage =>
    obtain ⟨c, hc, hstage⟩ := Option.map_eq_some_iff.1 hstage
    obtain ⟨hfind, huse⟩ := Option.filter_eq_some_iff.1 h'
    obtain ⟨hm, rfl⟩ := Locks.mem_of_find? hfind
    exact ⟨hm, by simpa using huse, c, charge, held, a, next, hc, hstage⟩
  case h_2 => cases h'

namespace IsOrdered

theorem step (hs : s.IsOrdered) (hm : m.answer.IsDistinct) (h : s.step? rules m = some t) :
    t.IsOrdered := by
  have hguarded := hs.guarded.step h
  obtain ⟨before, c, after, shared, stage, hcallers, -, rfl, hadvance⟩ := of_step? h
  have hc : c ∈ s.callers := by simp [hcallers]
  refine ⟨hguarded, ?_, forall_mem_split (fun c' hc' => ?_) ?_⟩
  · rcases hadvance.locks_cases with ⟨hlocks, -⟩ | ⟨name, hlocks, -⟩ | ⟨handle, hlocks, -⟩ <;>
      simp only [hlocks]
    · exact hs.attended
    · exact hs.attended.get_wait hs.guarded.sound name
    · exact hs.attended.drop hs.guarded.sound handle
  · exact hs.ordered c' (mem_callers_of_split hcallers hc')
  · exact (hs.ordered c hc).advance hm hadvance

/-- The lock of a call that waits itself comes behind those that it holds. -/
theorem name_lt (hs : s.IsOrdered) {h' : Handle} (hwaits : s.WaitsFor place other)
    (hplace : s.awaited? place = some h) (hother : s.awaited? other = some h') :
    compare h.name h'.name = .lt := by
  have hsound := hs.guarded.sound
  obtain ⟨h₁, hh₁, g, hg, hlock⟩ := hwaits
  obtain rfl : h₁ = h := Option.some.inj (hh₁.symm.trans hplace)
  obtain ⟨hgm, hguse, c, hc, hgid⟩ := mem_heldBy_iff.1 hg
  obtain ⟨hm', huse', c', charge, held, a, next, hc', hstage⟩ := of_awaited? hother
  obtain rfl : c = c' := Option.some.inj (hc.symm.trans hc')
  have hcm : c ∈ s.callers := List.mem_of_getElem? hc
  have hguarded := hs.guarded.guarded c hcm
  have hordered := hs.ordered c hcm
  rw [hstage] at hguarded hordered hgid
  obtain ⟨⟨x, hx, hxid, hxname⟩, done, hquotas, hheld⟩ := hguarded
  obtain rfl : x = h' := hsound.eq_of_id hx hm' hxid
  -- the handle with which the call waits holds nothing yet
  have hgheld : g.id ∈ held := (List.mem_append.1 hgid).resolve_right fun hlast => by
    obtain rfl := hsound.eq_of_id hgm hm' (List.mem_singleton.1 hlast)
    rw [hguse] at huse'
    cases huse'
  obtain ⟨b, hb, y, hy, hyid, hyname, -⟩ := hheld.exists_mem hgheld
  obtain rfl : y = g := hsound.eq_of_id hy hgm hyid
  have hname : y.name = h₁.name :=
    (hsound.lock_eq_iff hgm (of_awaited? hplace).1).1 hlock
  have hpairwise := hordered.pairwise
  rw [hquotas, List.pairwise_append] at hpairwise
  rw [← hname, hyname, hxname]
  exact hpairwise.2.2 b hb a (List.mem_cons_self ..)

theorem name_lt_of_transGen (hs : s.IsOrdered) {h' : Handle}
    (hwaits : Relation.TransGen s.WaitsFor place other) (hplace : s.awaited? place = some h)
    (hother : s.awaited? other = some h') : compare h.name h'.name = .lt := by
  induction hwaits generalizing h' with
  | single hwaits => exact hs.name_lt hwaits hplace hother
  | tail _ hlast ih =>
    obtain ⟨h₁, hh₁, -⟩ := id hlast
    exact Std.TransCmp.lt_trans (ih hh₁) (hs.name_lt hlast hh₁ hother)

theorem not_transGen_self (hs : s.IsOrdered) (place : Nat) :
    ¬ Relation.TransGen s.WaitsFor place place := by
  intro hcycle
  obtain ⟨other, ⟨h, hh, -⟩, -⟩ := Relation.TransGen.head'_iff.1 hcycle
  have hlt := hs.name_lt_of_transGen hcycle hh hh
  rw [Std.compare_self] at hlt
  cases hlt

/-- A lock that is waited for is held by some call. -/
theorem exists_waitsFor (hs : s.IsOrdered) (hplace : s.awaited? place = some h) :
    ∃ other, s.WaitsFor place other := by
  obtain ⟨hm, huse, -⟩ := of_awaited? hplace
  obtain ⟨g, hg, hlock, hholding⟩ := Locks.isHeld_iff.1 (hs.attended h hm huse)
  have hid : g.id ∈ s.callers.flatMap fun c => handles c.stage :=
    hs.guarded.owned.symm.subset (List.mem_map.2 ⟨g, hg, rfl⟩)
  obtain ⟨c, hc, hgc⟩ := List.mem_flatMap.1 hid
  obtain ⟨other, hother⟩ := List.mem_iff_getElem?.1 hc
  exact ⟨other, h, hplace, g, mem_heldBy_iff.2 ⟨hg, hholding, c, hother, hgc⟩, hlock⟩

theorem exists_goesOn (hs : s.IsOrdered) (hplace : (s.awaited? place).isSome) : ∃ other,
    Relation.TransGen s.WaitsFor place other ∧ s.heldBy other ≠ [] ∧
      s.awaited? other = none := by
  -- there are finitely many calls, so the chain of those that wait comes to an end
  let Behind (i j : Fin s.callers.length) : Prop := Relation.TransGen s.WaitsFor j i
  have htrans : IsTrans _ Behind := ⟨fun _ _ _ hij hjk => hjk.trans hij⟩
  have hirrefl : Std.Irrefl Behind := ⟨fun i => hs.not_transGen_self i⟩
  have hlt {i : Nat} (hi : (s.awaited? i).isSome) : i < s.callers.length := by
    obtain ⟨h, hh⟩ := Option.isSome_iff_exists.1 hi
    obtain ⟨-, -, c, -, -, -, -, hc, -⟩ := of_awaited? hh
    exact (List.getElem?_eq_some_iff.1 hc).1
  suffices hall : ∀ i : Fin s.callers.length, (s.awaited? i).isSome → ∃ other,
      Relation.TransGen s.WaitsFor i other ∧ s.heldBy other ≠ [] ∧ s.awaited? other = none from
    hall ⟨place, hlt hplace⟩ hplace
  intro i
  induction i using (Finite.wellFounded_of_trans_of_irrefl Behind).induction with
  | h i ih =>
    intro hi
    obtain ⟨h, hh⟩ := Option.isSome_iff_exists.1 hi
    obtain ⟨j, hj⟩ := hs.exists_waitsFor hh
    cases hnext : s.awaited? j with
    | none =>
      obtain ⟨-, -, g, hg, -⟩ := id hj
      exact ⟨j, .single hj, List.ne_nil_of_mem hg, hnext⟩
    | some h' =>
      have hjs : (s.awaited? j).isSome := by rw [hnext]; rfl
      obtain ⟨other, hother, hrest⟩ := ih ⟨j, hlt hjs⟩ (.single hj) hjs
      exact ⟨other, .head hj hother, hrest⟩

end IsOrdered

/-- However calls interleave, they do not come to a deadlock. -/
theorem hasNoDeadlock {works : List (Work × Bool)} {ms : List Move}
    (h : (start works).run? rules ms = some s) (hdistinct : ∀ m ∈ ms, m.answer.IsDistinct) :
    s.HasNoDeadlock := by
  have hs : s.IsOrdered :=
    of_run? (fun m hm _ _ hu hstep => hu.step (hdistinct m hm) hstep) h (isOrdered_start works)
  refine ⟨fun {place c charge held id a next} hc hstage => ?_, hs.not_transGen_self,
    fun place hplace => hs.exists_goesOn hplace⟩
  have hcm : c ∈ s.callers := List.mem_of_getElem? hc
  have hguarded := hs.guarded.guarded c hcm
  have hordered := hs.ordered c hcm
  rw [hstage] at hguarded hordered
  obtain ⟨hhas, done, hquotas, -⟩ := hguarded
  have ha : a ∈ charge.quotas := by simp [hquotas]
  exact ⟨hhas, ha, hordered.limits ha⟩

/-! Two calls for a pod that one quota limits: the second waits for the lock of the first. -/

private def podLimit : Quota :=
  ⟨⟨some "pods", none, none, none, none, []⟩, ⟨none, Table.ofList [("pods", "2")]⟩, none⟩

private def podCalls : List (Work × Bool) :=
  List.replicate 2 (.usage "ns" (.ofPairs [(.pods, .one)]), false)

private def nothingExcluded : Rules := ⟨⟨none, []⟩, 15000, 30000⟩

private def untilWaiting : List Move :=
  let move (place : Nat) (answer : Answer) : Move := ⟨place, ⟨0, ⟨0, 0⟩⟩, answer⟩
  let listed : Answer := .listed [⟨"ns", Table.empty⟩] [podLimit]
  [move 0 listed, move 1 listed, move 0 .proceed, move 0 .proceed, move 1 .proceed]

theorem hasNoDeadlock_secondWaits : ∃ s,
    (start podCalls).run? nothingExcluded untilWaiting = some s ∧
      (∀ m ∈ untilWaiting, m.answer.IsDistinct) ∧ (s.awaited? 1).isSome ∧ s.HasNoDeadlock := by
  have hruns : (((start podCalls).run? nothingExcluded untilWaiting).any fun s =>
      (s.awaited? 1).isSome) = true := by decide +kernel
  have hdistinct : ∀ m ∈ untilWaiting, m.answer.IsDistinct := by
    simp [untilWaiting, Answer.IsDistinct]
  obtain ⟨s, hs, hwaits⟩ := (Option.any_eq_true _ _).1 hruns
  exact ⟨s, hs, hdistinct, hwaits, hasNoDeadlock hs hdistinct⟩

end Crowd

end SharedQuota
