import SharedQuota.Proofs.Ledger.Amount
import SharedQuota.Proofs.Ledger.History

/-!
The ledger of one quota while nothing is deleted and the objects of each namespace become visible in
the order in which they were admitted. Main statement (`Lineup.used_add_held_eq`): what a reading
shows of a namespace and what is then still reserved in it are exactly what the namespace had at
first and what was admitted into it, whatever resources were asked for on the way.

A reservation is visible where its namespace has what it had at first and all that was admitted up
to it. So it is released by the first reading that shows it, among those that ask for some of it.
-/

namespace SharedQuota

/-! ### Objects in a line -/

/-- What some objects use of a resource. -/
def uses (us : List ResourceList) (r : ResourceName) : Int :=
  (us.map fun u => (u.amount r).nanos).sum

@[simp] theorem uses_nil (r : ResourceName) : uses [] r = 0 := rfl

@[simp] theorem uses_cons (u : ResourceList) (us : List ResourceList) (r : ResourceName) :
    uses (u :: us) r = (u.amount r).nanos + uses us r := by
  simp [uses]

@[simp] theorem uses_append (us more : List ResourceList) (r : ResourceName) :
    uses (us ++ more) r = uses us r + uses more r := by
  simp [uses]

/-! ### Readings at a level -/

/-- The reading shows a namespace at a level, for each resource that is asked for. -/
def Snapshot.ShowsAt (s : Snapshot) (name : String) (resources : KeySet ResourceName)
    (level : ResourceName → Int) : Prop :=
  ∃ used, s.namespaces.get? name = some used ∧
    ∀ r, resources.contains r = true → (used.amount r).nanos = level r

namespace Reservation

variable {x : Reservation} {s : Snapshot} {resources : KeySet ResourceName}
  {level : ResourceName → Int} {r : ResourceName}

theorem isShown_iff_le (h : s.ShowsAt x.namespaceName resources level) :
    x.isShown s resources = true ↔
      (∃ n, x.visibleAt.contains n = true ∧ resources.contains n = true) ∧
      ∀ n, x.visibleAt.contains n = true → resources.contains n = true →
        (x.visibleAt.amount n).nanos ≤ level n := by
  obtain ⟨used, hused, hlevel⟩ := h
  rw [isShown_iff]
  constructor
  · rintro ⟨used', hused', hsome, hreached⟩
    obtain rfl := Option.some.inj (hused'.symm.trans hused)
    refine ⟨hsome, fun n hn hasked => ?_⟩
    have hle := hreached n hn hasked
    rwa [Quantity.le_iff, hlevel n hasked] at hle
  · rintro ⟨hsome, hreached⟩
    refine ⟨used, hused, hsome, fun n hn hasked => ?_⟩
    rw [Quantity.le_iff, hlevel n hasked]
    exact hreached n hn hasked

/-- The reservation is visible at a level, for each resource that it reserves. -/
structure IsVisibleBy (x : Reservation) (level : ResourceName → Int) : Prop where
  thresholds : ∀ r, x.visibleAt.contains r = true ↔ x.usage.contains r = true
  reached : ∀ r, x.usage.contains r = true → (x.visibleAt.amount r).nanos ≤ level r

/-- What is visible at a level is shown by every reading at it that asks for some of it. -/
theorem IsVisibleBy.isShown (h : x.IsVisibleBy level)
    (hs : s.ShowsAt x.namespaceName resources level) (hr : x.usage.contains r = true)
    (hasked : resources.contains r = true) : x.isShown s resources = true :=
  (isShown_iff_le hs).2 ⟨⟨r, (h.thresholds r).2 hr, hasked⟩,
    fun n hn _ => h.reached n ((h.thresholds n).1 hn)⟩

end Reservation

/-! ### Reservations in a line -/

/-- A level with an object on top. -/
def raise (level : ResourceName → Int) (u : ResourceList) (r : ResourceName) : Int :=
  level r + (u.amount r).nanos

theorem raise_of_isEmpty {u : ResourceList} (h : u.isEmpty = true) (level : ResourceName → Int) :
    raise level u = level := by
  funext r
  rw [raise, ResourceList.nanos_amount_of_isEmpty h, Int.add_zero]

/-- The reservations of objects that come one after the other on top of a level. -/
inductive Queued : (ResourceName → Int) → List ResourceList → List Reservation → Prop
  | nil {level} : Queued level [] []
  /-- Nothing is reserved of an object that uses nothing. -/
  | nothing {level u us rs} (hempty : u.isEmpty = true) (rest : Queued level us rs) :
    Queued level (u :: us) rs
  | reserved {level u us x rs} (usage_eq : x.usage = u)
      (thresholds : ∀ r, x.visibleAt.contains r = true ↔ u.contains r = true)
      (visibleAt_eq : ∀ r, u.contains r = true → (x.visibleAt.amount r).nanos = raise level u r)
      (rest : Queued (raise level u) us rs) :
    Queued level (u :: us) (x :: rs)

namespace Queued

open Ledger (held)

variable {level : ResourceName → Int} {us : List ResourceList} {u : ResourceList}
  {rs : List Reservation} {x : Reservation} {r : ResourceName}

theorem held_eq (h : Queued level us rs) (r : ResourceName) : held rs r = uses us r := by
  induction h with
  | nil => rfl
  | nothing hempty _ ih =>
    rw [ih, uses_cons, ResourceList.nanos_amount_of_isEmpty hempty, Int.zero_add]
  | reserved husage _ _ _ ih => rw [Ledger.held_cons, ih, uses_cons, husage]

/-- The reservation of an object at the end of the line. -/
theorem append (h : Queued level us rs) (husage : x.usage = u)
    (hthresholds : ∀ r, x.visibleAt.contains r = true ↔ u.contains r = true)
    (hvisible : ∀ r, u.contains r = true →
      (x.visibleAt.amount r).nanos = level r + uses us r + (u.amount r).nanos) :
    Queued level (us ++ [u]) (rs ++ [x]) := by
  induction h with
  | nil =>
    refine .reserved husage hthresholds (fun r hr => ?_) .nil
    rw [hvisible r hr, uses_nil, Int.add_zero, raise]
  | nothing hempty _ ih =>
    refine .nothing hempty (ih fun r hr => ?_)
    simpa [ResourceList.nanos_amount_of_isEmpty hempty] using hvisible r hr
  | reserved husage' hthresholds' hvisible' _ ih =>
    refine .reserved husage' hthresholds' hvisible' (ih fun r hr => ?_)
    rw [hvisible r hr, uses_cons, raise]
    omega

theorem append_nothing (h : Queued level us rs) (hempty : u.isEmpty = true) :
    Queued level (us ++ [u]) rs := by
  induction h with
  | nil => exact .nothing hempty .nil
  | nothing hempty' _ ih => exact .nothing hempty' ih
  | reserved husage hthresholds hvisible _ ih => exact .reserved husage hthresholds hvisible ih

/-- No reservation in the line is visible at the level. -/
theorem lt_visibleAt (h : Queued level us rs) (hpositive : ∀ u ∈ us, u.IsPositive) (hx : x ∈ rs)
    (hr : x.visibleAt.contains r = true) : level r < (x.visibleAt.amount r).nanos := by
  induction h with
  | nil => cases hx
  | nothing _ _ ih => exact ih (fun u hu => hpositive u (List.mem_cons_of_mem _ hu)) hx
  | @reserved level u us y rs husage hthresholds hvisible _ ih =>
    have hu := hpositive u (List.mem_cons_self ..)
    rcases List.mem_cons.1 hx with rfl | hx
    · have hr := (hthresholds r).1 hr
      have := hu.amount hr
      rw [hvisible r hr, raise]
      omega
    · -- what comes later lies on top of this object, and so higher still
      have hlater := ih (fun u hu => hpositive u (List.mem_cons_of_mem _ hu)) hx
      have := hu.nonneg r
      rw [raise] at hlater
      omega

/-- A reading at the level shows none of them. -/
theorem isShown_eq_false (h : Queued level us rs) (hpositive : ∀ u ∈ us, u.IsPositive)
    (hx : x ∈ rs) {s : Snapshot} {resources : KeySet ResourceName}
    (hs : s.ShowsAt x.namespaceName resources level) : x.isShown s resources = false := by
  rw [Bool.eq_false_iff]
  intro hshown
  obtain ⟨⟨r, hr, hasked⟩, hreached⟩ := (Reservation.isShown_iff_le hs).1 hshown
  exact absurd (h.lt_visibleAt hpositive hx hr) (Int.not_lt.2 (hreached r hr hasked))

/-- When the first object of the line has become visible its reservation is reached. -/
theorem uncons (h : Queued level (u :: us) rs) : ∃ front rest, rs = front ++ rest ∧
    (∀ x ∈ front, x.IsVisibleBy (raise level u)) ∧ Queued (raise level u) us rest := by
  cases h with
  | nothing hempty rest =>
    rw [raise_of_isEmpty hempty]
    exact ⟨[], rs, rfl, nofun, rest⟩
  | @reserved _ _ _ x rs husage hthresholds hvisible rest =>
    refine ⟨[x], rs, rfl, fun y hy => ?_, rest⟩
    obtain rfl := List.mem_singleton.1 hy
    exact ⟨husage ▸ hthresholds, fun r hr => Int.le_of_eq (hvisible r (husage ▸ hr))⟩

end Queued

/-! ### The ledger beside the line of each namespace -/

structure Lineup where
  ledger : Ledger
  /-- What was admitted into each namespace, in order. -/
  admitted : String → List ResourceList
  /-- How many of the admitted objects of each namespace are visible: the first ones. -/
  shown : String → Nat
  /-- The last reading and what it was asked for, as long as nothing was reserved on it. -/
  reading : Option (Snapshot × KeySet ResourceName)

namespace Lineup

variable (initial : String → ResourceName → Int) (quota : String) (σ : Lineup)

/-- Nothing was admitted yet. -/
def IsFresh : Prop :=
  σ.ledger.under quota = [] ∧ (∀ name, σ.admitted name = []) ∧ (∀ name, σ.shown name = 0) ∧
    σ.reading = none

/-- What readings find in a namespace. -/
def visible (name : String) (r : ResourceName) : Int :=
  initial name r + uses ((σ.admitted name).take (σ.shown name)) r

def IsLive (now : Nat) : Prop := ∀ x ∈ σ.ledger.under quota, x.isLive now = true

instance (now : Nat) : Decidable (σ.IsLive quota now) :=
  inferInstanceAs (Decidable (∀ x ∈ σ.ledger.under quota, x.isLive now = true))

/-- The quota may be read: nothing has expired, and every namespace that is shown is shown at what
readings find of the resources asked for. -/
structure MayRead (now : Nat) (reads : Table String ResourceList)
    (resources : KeySet ResourceName) : Prop where
  live : σ.IsLive quota now
  shown : ∀ e ∈ reads.entries, ∀ r ∈ resources.toList,
    (e.2.amount r).nanos = σ.visible initial e.1 r

/-- A reading of the quota at which they are left. -/
def read (now : Nat) (reads : Table String ResourceList) (resources : KeySet ResourceName) :
    Lineup :=
  let s := Snapshot.recompute reads resources
  { σ with
    ledger := (σ.ledger.pending now quota s resources).2
    reading := some (s, resources) }

/-- An object may be admitted that uses some of each of the resources that were asked for, and
nothing else, while no sum goes out of bounds. -/
structure MayAccept (now : Nat) (name : String) (resources : KeySet ResourceName)
    (usage observed : ResourceList) : Prop where
  live : σ.IsLive quota now
  exact : usage.keys = resources.toList
  positive : usage.IsPositive
  bounded : ∀ r ∈ usage.keys, (observed.amount r).nanos +
    Ledger.held (Ledger.inside (σ.ledger.under quota) name) r + (usage.amount r).nanos < 2 ^ 127 - 1

def accept (now : Nat) (wall : Time) (ttl : Nat) (name : String) (usage observed : ResourceList) :
    Lineup :=
  { σ with
    ledger := σ.ledger.reserve now wall ttl quota name usage observed
    admitted := Function.update σ.admitted name (σ.admitted name ++ [usage])
    reading := none }

/-- The next object of a namespace becomes visible. -/
def appear (name : String) : Lineup :=
  { σ with shown := Function.update σ.shown name (σ.shown name + 1) }

inductive Step : Lineup → Lineup → Prop
  | read {σ now reads resources} (h : σ.MayRead initial quota now reads resources) :
    Step σ (σ.read quota now reads resources)
  | accept {σ s resources now wall ttl name usage observed}
      (hs : σ.reading = some (s, resources)) (hname : s.namespaces.get? name = some observed)
      (h : σ.MayAccept quota now name resources usage observed) :
    Step σ (σ.accept quota now wall ttl name usage observed)
  | appear {σ name} (h : σ.shown name < (σ.admitted name).length) : Step σ (σ.appear name)
  /-- Other quotas have reservations of their own. -/
  | elsewhere {σ ledger} (h : Ledger.under ledger quota = σ.ledger.under quota) :
    Step σ { σ with ledger }

/-! ### What every step keeps -/

open Ledger (under inside held)

/-- The reservations in a namespace: some of objects that are visible, and all of the others. -/
def IsSplit (level : ResourceName → Int) (hidden : List ResourceList) (rs : List Reservation) :
    Prop :=
  ∃ old recent, rs = old ++ recent ∧ (∀ x ∈ old, x.IsVisibleBy level) ∧ Queued level hidden recent

structure IsExact : Prop where
  shown_le : ∀ name, σ.shown name ≤ (σ.admitted name).length
  positive : ∀ name, ∀ u ∈ σ.admitted name, u.IsPositive
  reserved : ∀ x ∈ σ.ledger.under quota, x.usage.IsPositive
  split : ∀ name, IsSplit (σ.visible initial name) ((σ.admitted name).drop (σ.shown name))
    (inside (σ.ledger.under quota) name)
  /-- What was read, and what is reserved, is all that there was and that was admitted. -/
  reading : ∀ s resources, σ.reading = some (s, resources) → ∀ name used,
    s.namespaces.get? name = some used → ∀ r, resources.contains r = true →
      (used.amount r).nanos + held (inside (σ.ledger.under quota) name) r =
        initial name r + uses (σ.admitted name) r

variable {initial quota σ} {τ : Lineup} {level : ResourceName → Int} {hidden : List ResourceList}
  {rs : List Reservation} {u : ResourceList}

theorem IsFresh.isExact (h : σ.IsFresh quota) : σ.IsExact initial quota := by
  obtain ⟨hunder, hadmitted, hshown, hreading⟩ := h
  refine ⟨?_, ?_, ?_, ?_, ?_⟩
  · simp [hshown]
  · simp [hadmitted]
  · simp [hunder]
  · intro name
    rw [hunder, hadmitted, List.drop_nil]
    exact ⟨[], [], rfl, nofun, .nil⟩
  · simp [hreading]

theorem visible_add_uses (initial : String → ResourceName → Int) (σ : Lineup) (name : String)
    (r : ResourceName) :
    σ.visible initial name r + uses ((σ.admitted name).drop (σ.shown name)) r =
      initial name r + uses (σ.admitted name) r := by
  rw [visible, Int.add_assoc, ← uses_append, List.take_append_drop]

/-- A reading at the level releases what is visible and asked for, and nothing else. -/
theorem IsSplit.filter (h : IsSplit level hidden rs) (hpositive : ∀ u ∈ hidden, u.IsPositive)
    {s : Snapshot} {resources : KeySet ResourceName}
    (hs : ∀ x ∈ rs, s.ShowsAt x.namespaceName resources level) :
    IsSplit level hidden (rs.filter fun x => !x.isShown s resources) ∧
      ∀ r, resources.contains r = true →
        held (rs.filter fun x => !x.isShown s resources) r = uses hidden r := by
  obtain ⟨old, recent, rfl, hold, hrecent⟩ := h
  have hkept : recent.filter (fun x => !x.isShown s resources) = recent := by
    refine List.filter_eq_self.2 fun x hx => ?_
    rw [hrecent.isShown_eq_false hpositive hx (hs x (List.mem_append_right _ hx)), Bool.not_false]
  -- what is left of the visible ones has nothing of what was asked for
  have hheld (r : ResourceName) (hr : resources.contains r = true) :
      held (old.filter fun x => !x.isShown s resources) r = 0 := by
    refine List.sum_eq_zero fun n hn => ?_
    obtain ⟨x, hx, rfl⟩ := List.mem_map.1 hn
    obtain ⟨hx, hnot⟩ := List.mem_filter.1 hx
    have hlacks : ¬ x.usage.contains r = true := fun hc => by
      rw [(hold x hx).isShown (hs x (List.mem_append_left _ hx)) hc hr] at hnot
      cases hnot
    rw [ResourceList.amount_of_not_contains hlacks]
    rfl
  rw [List.filter_append, hkept]
  refine ⟨⟨_, recent, rfl, fun x hx => hold x (List.mem_filter.1 hx).1, hrecent⟩, fun r hr => ?_⟩
  rw [Ledger.held_append, hheld r hr, hrecent.held_eq, Int.zero_add]

/-- The first of the objects that are hidden becomes visible. -/
theorem IsSplit.appear (h : IsSplit level (u :: hidden) rs) (hu : u.IsPositive) :
    IsSplit (raise level u) hidden rs := by
  obtain ⟨old, recent, rfl, hold, hrecent⟩ := h
  obtain ⟨front, rest, rfl, hfront, hrest⟩ := hrecent.uncons
  refine ⟨old ++ front, rest, (List.append_assoc ..).symm, fun x hx => ?_, hrest⟩
  rcases List.mem_append.1 hx with hx | hx
  · refine ⟨(hold x hx).thresholds, fun r hr => ?_⟩
    have := (hold x hx).reached r hr
    have := hu.nonneg r
    rw [raise]
    omega
  · exact hfront x hx

/-- An object is admitted. -/
theorem IsSplit.append {x : Reservation} (h : IsSplit level hidden rs) (husage : x.usage = u)
    (hthresholds : ∀ r, x.visibleAt.contains r = true ↔ u.contains r = true)
    (hvisible : ∀ r, u.contains r = true →
      (x.visibleAt.amount r).nanos = level r + uses hidden r + (u.amount r).nanos) :
    IsSplit level (hidden ++ [u]) (rs ++ [x]) := by
  obtain ⟨old, recent, rfl, hold, hrecent⟩ := h
  exact ⟨old, recent ++ [x], List.append_assoc .., hold,
    hrecent.append husage hthresholds hvisible⟩

theorem IsSplit.append_nothing (h : IsSplit level hidden rs) (hempty : u.isEmpty = true) :
    IsSplit level (hidden ++ [u]) rs := by
  obtain ⟨old, recent, rfl, hold, hrecent⟩ := h
  exact ⟨old, recent, rfl, hold, hrecent.append_nothing hempty⟩

section

variable {now : Nat} {reads : Table String ResourceList} {resources : KeySet ResourceName}

theorem inside_read (hlive : σ.IsLive quota now) (name : String) :
    inside ((σ.read quota now reads resources).ledger.under quota) name =
      (inside (σ.ledger.under quota) name).filter fun x =>
        !x.isShown (.recompute reads resources) resources := by
  rw [read, Ledger.under_pending, if_pos rfl, Ledger.unseen_eq, List.filter_eq_self.2 hlive]
  simp only [Reservation.isObserved_recompute, Ledger.inside_filter]

theorem IsExact.read (hσ : σ.IsExact initial quota)
    (h : σ.MayRead initial quota now reads resources) :
    (σ.read quota now reads resources).IsExact initial quota := by
  have hlevel {name : String} {used : ResourceList} (hused : reads.get? name = some used)
      (r : ResourceName) (hr : resources.contains r = true) :
      (used.amount r).nanos = σ.visible initial name r :=
    h.shown _ ((Table.mem_entries_iff reads).2 hused) r ((KeySet.mem_toList_iff _).2 hr)
  have hshows {name : String} {used : ResourceList} (hused : reads.get? name = some used) :
      ∀ x ∈ inside (σ.ledger.under quota) name, (Snapshot.recompute reads resources).ShowsAt
        x.namespaceName resources (σ.visible initial name) := fun x hx => by
    rw [(Ledger.mem_inside.1 hx).2]
    exact ⟨used, hused, hlevel hused⟩
  have hfilter {name : String} {used : ResourceList} (hused : reads.get? name = some used) :=
    (hσ.split name).filter (fun u hu => hσ.positive name u (List.mem_of_mem_drop hu))
      (hshows hused)
  refine ⟨hσ.shown_le, hσ.positive, fun x hx => ?_, fun name => ?_, ?_⟩
  · rw [Lineup.read, Ledger.under_pending, if_pos rfl] at hx
    exact hσ.reserved x (List.mem_filter.1 hx).1
  · rw [inside_read h.live]
    cases hused : reads.get? name with
    | some used => exact (hfilter hused).1
    | none =>
      have hkept : (inside (σ.ledger.under quota) name).filter (fun x =>
          !x.isShown (.recompute reads resources) resources) =
            inside (σ.ledger.under quota) name := by
        refine List.filter_eq_self.2 fun x hx => ?_
        rw [Bool.not_eq_true', Bool.eq_false_iff]
        intro hshown
        obtain ⟨used, hsome, -⟩ := (x.isShown_iff _ _).1 hshown
        rw [(Ledger.mem_inside.1 hx).2, Snapshot.recompute, hused] at hsome
        cases hsome
      rw [hkept]
      exact hσ.split name
  · intro s asked hreading name used hused r hr
    obtain ⟨rfl, rfl⟩ := Prod.mk.inj (Option.some.inj hreading)
    rw [inside_read h.live, (hfilter hused).2 r hr, hlevel hused r hr]
    exact visible_add_uses initial σ name r

end

theorem IsExact.appear {name : String} (hσ : σ.IsExact initial quota)
    (h : σ.shown name < (σ.admitted name).length) : (σ.appear name).IsExact initial quota := by
  refine ⟨fun n => ?_, hσ.positive, hσ.reserved, fun n => ?_, hσ.reading⟩
  · by_cases hn : n = name
    · subst hn
      simpa [Lineup.appear] using Nat.succ_le_of_lt h
    · simpa [Lineup.appear, hn] using hσ.shown_le n
  · by_cases hn : n = name
    · subst hn
      have hsplit := hσ.split n
      rw [List.drop_eq_getElem_cons h] at hsplit
      have hvisible : (σ.appear n).visible initial n =
          raise (σ.visible initial n) (σ.admitted n)[σ.shown n] := by
        funext r
        simp only [visible, Lineup.appear, Function.update_self, List.take_succ_eq_append_getElem h,
          uses_append, uses_cons, uses_nil, raise]
        omega
      have hdrop : ((σ.appear n).admitted n).drop ((σ.appear n).shown n) =
          (σ.admitted n).drop (σ.shown n + 1) := by
        simp [Lineup.appear]
      rw [hvisible, hdrop]
      exact hsplit.appear (hσ.positive n _ (List.getElem_mem h))
    · have hshown : (σ.appear name).shown n = σ.shown n := Function.update_of_ne hn ..
      have hvisible : (σ.appear name).visible initial n = σ.visible initial n := by
        funext r
        rw [visible, visible, hshown]
        rfl
      rw [hvisible, hshown]
      exact hσ.split n

section

variable {now : Nat} {wall : Time} {ttl : Nat} {name : String} {s : Snapshot}
  {resources : KeySet ResourceName} {usage observed : ResourceList}

/-- An object is visible where all that was admitted before it is, and it as well. -/
theorem IsExact.nanos_visibleAt (hσ : σ.IsExact initial quota)
    (hs : σ.reading = some (s, resources)) (hname : s.namespaces.get? name = some observed)
    (h : σ.MayAccept quota now name resources usage observed) {r : ResourceName}
    (hr : usage.contains r = true) :
    ((Ledger.visibleAt (σ.ledger.under quota) name usage observed).amount r).nanos =
      σ.visible initial name r + uses ((σ.admitted name).drop (σ.shown name)) r +
        (usage.amount r).nanos := by
  have hkey : r ∈ usage.keys := (Table.mem_keys_iff _).2 hr
  have hasked : resources.contains r = true :=
    (KeySet.mem_toList_iff _).1 (h.exact ▸ hkey : r ∈ resources.toList)
  have hread := hσ.reading s resources hs name observed hname r hasked
  have hbound := h.bounded r hkey
  have hvisible := Ledger.nanos_amount_visibleAt (σ.ledger.under quota) name usage observed hr
    (h.positive.nonneg r) fun y hy => (hσ.reserved y (Ledger.mem_inside.1 hy).1).nonneg r
  rw [visible_add_uses]
  omega

theorem under_accept (hlive : σ.IsLive quota now) (wall : Time) (ttl : Nat) :
    (σ.accept quota now wall ttl name usage observed).ledger.under quota =
      σ.ledger.under quota ++
        if usage.isEmpty then []
        else [⟨name, usage, Ledger.visibleAt (σ.ledger.under quota) name usage observed, wall,
          now + ttl⟩] := by
  rw [accept, Ledger.under_reserve, if_pos rfl, Ledger.reserved?, List.filter_eq_self.2 hlive]
  cases usage.isEmpty <;> rfl

/-- The objects of the namespace, one of them new. -/
theorem IsExact.split_accept (hσ : σ.IsExact initial quota)
    (hs : σ.reading = some (s, resources)) (hname : s.namespaces.get? name = some observed)
    (h : σ.MayAccept quota now name resources usage observed) (wall : Time) (ttl : Nat) :
    IsSplit (σ.visible initial name) ((σ.admitted name).drop (σ.shown name) ++ [usage])
      (inside ((σ.accept quota now wall ttl name usage observed).ledger.under quota) name) := by
  rw [under_accept h.live]
  cases hempty : usage.isEmpty with
  | true =>
    rw [if_pos rfl, List.append_nil]
    exact (hσ.split name).append_nothing hempty
  | false =>
    rw [if_neg Bool.false_ne_true]
    simp only [inside, List.filter_append, List.filter_singleton, beq_self_eq_true]
    exact (hσ.split name).append rfl
      (fun r => Ledger.contains_visibleAt _ _ _ _ r)
      fun r hr => hσ.nanos_visibleAt hs hname h hr

theorem IsExact.accept (hσ : σ.IsExact initial quota)
    (hs : σ.reading = some (s, resources)) (hname : s.namespaces.get? name = some observed)
    (h : σ.MayAccept quota now name resources usage observed) (wall : Time) (ttl : Nat) :
    (σ.accept quota now wall ttl name usage observed).IsExact initial quota := by
  have hsame : (σ.accept quota now wall ttl name usage observed).admitted name =
      σ.admitted name ++ [usage] := Function.update_self ..
  have hother {n : String} (hn : n ≠ name) :
      (σ.accept quota now wall ttl name usage observed).admitted n = σ.admitted n :=
    Function.update_of_ne hn ..
  have hshown (n : String) :
      (σ.accept quota now wall ttl name usage observed).shown n = σ.shown n := rfl
  refine ⟨fun n => ?_, fun n u hu => ?_, fun x hx => ?_, fun n => ?_, fun _ _ hreading => ?_⟩
  · by_cases hn : n = name
    · subst hn
      rw [hsame, hshown, List.length_append]
      exact Nat.le_trans (hσ.shown_le n) (Nat.le_add_right ..)
    · rw [hother hn, hshown]
      exact hσ.shown_le n
  · by_cases hn : n = name
    · subst hn
      rw [hsame, List.mem_append, List.mem_singleton] at hu
      rcases hu with hu | rfl
      · exact hσ.positive n u hu
      · exact h.positive
    · rw [hother hn] at hu
      exact hσ.positive n u hu
  · rw [under_accept h.live, List.mem_append] at hx
    rcases hx with hx | hx
    · exact hσ.reserved x hx
    · split at hx
      case isTrue => cases hx
      case isFalse =>
        rw [List.mem_singleton.1 hx]
        exact h.positive
  · by_cases hn : n = name
    · subst hn
      have hvisible : (σ.accept quota now wall ttl n usage observed).visible initial n =
          σ.visible initial n := by
        funext r
        rw [visible, visible, hsame, hshown, List.take_append_of_le_length (hσ.shown_le n)]
      rw [hvisible, hsame, hshown, List.drop_append_of_le_length (hσ.shown_le n)]
      exact hσ.split_accept hs hname h wall ttl
    · have hvisible : (σ.accept quota now wall ttl name usage observed).visible initial n =
          σ.visible initial n := by
        funext r
        rw [visible, visible, hother hn, hshown]
      have hinside : inside ((σ.accept quota now wall ttl name usage observed).ledger.under quota)
          n = inside (σ.ledger.under quota) n := by
        rw [under_accept h.live, inside, List.filter_append]
        split <;> simp [inside, Ne.symm hn]
      rw [hvisible, hother hn, hshown, hinside]
      exact hσ.split n
  · cases hreading

end

theorem IsExact.step (hσ : σ.IsExact initial quota) (h : Step initial quota σ τ) :
    τ.IsExact initial quota := by
  cases h with
  | read h => exact hσ.read h
  | accept hs hname h => exact hσ.accept hs hname h ..
  | appear h => exact hσ.appear h
  | elsewhere h =>
    refine ⟨hσ.shown_le, hσ.positive, ?_, ?_, ?_⟩ <;> simp only [h]
    · exact hσ.reserved
    · exact hσ.split
    · exact hσ.reading

theorem IsExact.run (hσ : σ.IsExact initial quota)
    (h : Relation.ReflTransGen (Step initial quota) σ τ) : τ.IsExact initial quota := by
  induction h with
  | refl => exact hσ
  | tail _ hstep ih => exact ih.step hstep

/-- While objects become visible in order and nothing goes, a reading and what is reserved after it
are exact: together they are what each namespace that is shown had at first and all that was
admitted into it, of each resource asked for. -/
theorem used_add_held_eq (hfresh : σ.IsFresh quota)
    (hrun : Relation.ReflTransGen (Step initial quota) σ τ) {now : Nat}
    {reads : Table String ResourceList} {resources : KeySet ResourceName}
    (h : τ.MayRead initial quota now reads resources) {name : String} {used : ResourceList}
    (hname : reads.get? name = some used) {r : ResourceName} (hr : resources.contains r = true) :
    (used.amount r).nanos +
        held (inside ((τ.ledger.pending now quota (.recompute reads resources) resources).2.under
          quota) name) r =
      initial name r + uses (τ.admitted name) r :=
  ((hfresh.isExact.run hrun).read h).reading _ _ rfl name used hname r hr

/-! A pod with a core is admitted into a namespace with two pods, and then three pods on a reading
that asks for pods alone. When the first is visible a reading of pods releases its reservation and
keeps the other. -/

private def twoAtFirst (_ : String) (r : ResourceName) : Int :=
  if r = .pods then 2_000_000_000 else 0

private def podList (n : Int) : ResourceList := .ofPairs [(.pods, .ofUnits n)]

private def oneWithCore : ResourceList := .ofPairs [(.ofText "cpu", .one), (.pods, .one)]

private def podsShown (n : Int) : Table String ResourceList := Table.ofList [("ns", podList n)]

private def enter (σ : Lineup) (resources : KeySet ResourceName) (usage : ResourceList) : Lineup :=
  (σ.read "q" 0 (podsShown 2) resources).accept "q" 0 ⟨0, 0⟩ 1 "ns" usage (podList 2)

private def noneAdmitted : Lineup := ⟨Table.empty, fun _ => [], fun _ => 0, none⟩

private def bothAdmitted : Lineup :=
  enter (enter noneAdmitted (KeySet.ofList oneWithCore.keys) oneWithCore) (KeySet.ofList [.pods])
    (podList 3)

private theorem steps_enter {σ τ : Lineup} {resources : KeySet ResourceName} {usage : ResourceList}
    (h : Relation.ReflTransGen (Step twoAtFirst "q") σ τ)
    (hread : τ.MayRead twoAtFirst "q" 0 (podsShown 2) resources)
    (haccept : (τ.read "q" 0 (podsShown 2) resources).MayAccept "q" 0 "ns" resources usage
      (podList 2)) :
    Relation.ReflTransGen (Step twoAtFirst "q") σ (enter τ resources usage) := by
  have hname : (podsShown 2).get? "ns" = some (podList 2) := by decide +kernel
  exact (h.tail (.read hread)).tail (.accept rfl hname haccept)

theorem used_add_held_eq_firstVisible :
    noneAdmitted.IsFresh "q" ∧
      Relation.ReflTransGen (Step twoAtFirst "q") noneAdmitted (bothAdmitted.appear "ns") ∧
      (bothAdmitted.appear "ns").MayRead twoAtFirst "q" 0 (podsShown 3) (KeySet.ofList [.pods]) ∧
      ((podList 3).amount .pods).nanos +
          held (inside (((bothAdmitted.appear "ns").ledger.pending 0 "q"
            (.recompute (podsShown 3) (KeySet.ofList [.pods])) (KeySet.ofList [.pods])).2.under "q")
              "ns") .pods =
        twoAtFirst "ns" .pods + uses [oneWithCore, podList 3] .pods := by
  have hfresh : noneAdmitted.IsFresh "q" := ⟨rfl, fun _ => rfl, fun _ => rfl, rfl⟩
  have hone : Relation.ReflTransGen (Step twoAtFirst "q") noneAdmitted
      (enter noneAdmitted (KeySet.ofList oneWithCore.keys) oneWithCore) :=
    steps_enter .refl ⟨by decide +kernel, by decide +kernel⟩
      ⟨by decide +kernel, by decide +kernel, by decide +kernel, by decide +kernel⟩
  have hboth : Relation.ReflTransGen (Step twoAtFirst "q") noneAdmitted bothAdmitted :=
    steps_enter hone ⟨by decide +kernel, by decide +kernel⟩
      ⟨by decide +kernel, by decide +kernel, by decide +kernel, by decide +kernel⟩
  have hhidden : bothAdmitted.shown "ns" < (bothAdmitted.admitted "ns").length := by
    decide +kernel
  have hvisible := hboth.tail (.appear hhidden)
  have hread : (bothAdmitted.appear "ns").MayRead twoAtFirst "q" 0 (podsShown 3)
      (KeySet.ofList [.pods]) := ⟨by decide +kernel, by decide +kernel⟩
  exact ⟨hfresh, hvisible, hread,
    used_add_held_eq hfresh hvisible hread (by decide +kernel) (by decide +kernel)⟩

end Lineup

end SharedQuota
