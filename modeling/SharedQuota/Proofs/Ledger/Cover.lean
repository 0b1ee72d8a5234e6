import SharedQuota.Proofs.Ledger.Surroundings

/-!
The reservations of a quota cover what readings cannot show yet. Objects are admitted, become
visible in any order and are deleted, while readings release what they show. Main statement
(`visible_add_hidden_le`): what a reading shows of a namespace and what is then still reserved in it
are at least what its visible and its admitted objects use, of each resource of which no object of
the namespace is deleted that uses a negative amount. When such an object goes the usage grows, and
a reading may take that for what was admitted (`not_visible_add_hidden_le_negative`).

Thresholds of visibility are not monotone once objects are deleted, so the invariant speaks of the
reservations behind the latest that was ever released.
-/

namespace SharedQuota

namespace Ledger

/-! ### Reservations that cover -/

/-- What a namespace has and is to get, `total`, is no more than where any of the reservations is
visible and what comes after it. -/
def Bounds (r : ResourceName) (total : Int) : List Reservation → Prop
  | [] => True
  | x :: later =>
    (x.usage.contains r = true → total ≤ (x.visibleAt.amount r).nanos + held later r) ∧
      Bounds r total later

/-- The last of the reservations cover what is hidden, and where they are visible all is. -/
def Covers (r : ResourceName) (visible hidden : Int) (rs : List Reservation) : Prop :=
  ∃ recent, recent <:+ rs ∧ hidden ≤ held recent r ∧ Bounds r (visible + hidden) recent

section

variable {r : ResourceName} {rs recent : List Reservation} {visible hidden : Int}

theorem Bounds.mono {total total' : Int} (hle : total' ≤ total) (h : Bounds r total recent) :
    Bounds r total' recent := by
  induction recent with
  | nil => trivial
  | cons x later ih =>
    obtain ⟨hx, hlater⟩ := h
    exact ⟨fun hc => Int.le_trans hle (hx hc), ih hlater⟩

theorem Bounds.append {total more : Int} {x : Reservation} (h : Bounds r total recent)
    (hmore : more = (x.usage.amount r).nanos)
    (hx : x.usage.contains r = true → total + more ≤ (x.visibleAt.amount r).nanos) :
    Bounds r (total + more) (recent ++ [x]) := by
  induction recent with
  | nil => exact ⟨fun hc => by simpa using hx hc, trivial⟩
  | cons y later ih =>
    obtain ⟨hy, hlater⟩ := h
    rw [List.cons_append]
    refine ⟨fun hc => ?_, ih hlater⟩
    have := hy hc
    simp only [held_append, held_cons, held_nil]
    omega

/-- Taking out reservations that are visible leaves the rest as it was, or leaves some that cover
what is hidden: those behind the last one taken out. -/
theorem Bounds.filter {p : Reservation → Bool} (h : Bounds r (visible + hidden) recent)
    (out : ∀ x ∈ recent, p x = false → x.usage.contains r = true →
      (x.visibleAt.amount r).nanos ≤ visible) :
    (held (recent.filter p) r = held recent r ∧
        Bounds r (visible + hidden) (recent.filter p)) ∨
      Covers r visible hidden (recent.filter p) := by
  induction recent with
  | nil => exact .inl ⟨rfl, trivial⟩
  | cons x later ih =>
    obtain ⟨hx, hlater⟩ := h
    rcases ih hlater fun y hy => out y (List.mem_cons_of_mem _ hy) with ⟨heq, hb⟩ | hcover
    · by_cases hp : p x = true
      · refine .inl ?_
        rw [List.filter_cons_of_pos hp]
        refine ⟨by simp [heq], fun hc => ?_, hb⟩
        rw [heq]
        exact hx hc
      · rw [Bool.not_eq_true] at hp
        rw [List.filter_cons_of_neg (by simp [hp])]
        by_cases hc : x.usage.contains r = true
        · refine .inr ⟨_, List.suffix_refl _, ?_, hb⟩
          have hreached := out x (List.mem_cons_self ..) hp hc
          have htotal := hx hc
          omega
        · refine .inl ⟨?_, hb⟩
          rw [heq, held_cons, ResourceList.amount_of_not_contains hc]
          simp
    · refine .inr ?_
      obtain ⟨last, hlast, hrest⟩ := hcover
      refine ⟨last, hlast.trans ?_, hrest⟩
      exact (List.suffix_cons x later).filter p

theorem Covers.nil (visible : Int) : Covers r visible 0 [] :=
  ⟨[], List.suffix_refl _, by simp, trivial⟩

theorem Covers.mono {visible' hidden' : Int} (hhidden : hidden' ≤ hidden)
    (htotal : visible' + hidden' ≤ visible + hidden) (h : Covers r visible hidden rs) :
    Covers r visible' hidden' rs := by
  obtain ⟨recent, hsuffix, hle, hb⟩ := h
  exact ⟨recent, hsuffix, by omega, hb.mono htotal⟩

theorem Covers.append {more : Int} {x : Reservation} (h : Covers r visible hidden rs)
    (hmore : more = (x.usage.amount r).nanos)
    (hx : x.usage.contains r = true → visible + hidden + more ≤ (x.visibleAt.amount r).nanos) :
    Covers r visible (hidden + more) (rs ++ [x]) := by
  obtain ⟨recent, hsuffix, hle, hb⟩ := h
  refine ⟨recent ++ [x], ?_, ?_, ?_⟩
  · obtain ⟨before, rfl⟩ := hsuffix
    exact ⟨before, by simp⟩
  · simp only [held_append, held_cons, held_nil]
    omega
  · have := hb.append hmore hx
    rwa [Int.add_assoc] at this

theorem Covers.filter {p : Reservation → Bool} (h : Covers r visible hidden rs)
    (out : ∀ x ∈ rs, p x = false → x.usage.contains r = true →
      (x.visibleAt.amount r).nanos ≤ visible) :
    Covers r visible hidden (rs.filter p) := by
  obtain ⟨recent, hsuffix, hle, hb⟩ := h
  have hfilter : recent.filter p <:+ rs.filter p := hsuffix.filter p
  rcases hb.filter fun x hx => out x (hsuffix.subset hx) with ⟨heq, hb⟩ | ⟨last, hlast, hrest⟩
  · exact ⟨_, hfilter, by omega, hb⟩
  · exact ⟨last, hlast.trans hfilter, hrest⟩

theorem Covers.hidden_le (h : Covers r visible hidden rs)
    (hnonneg : ∀ x ∈ rs, 0 ≤ (x.usage.amount r).nanos) : hidden ≤ held rs r := by
  obtain ⟨recent, ⟨before, rfl⟩, hle, -⟩ := h
  have hbefore : 0 ≤ held before r :=
    held_nonneg fun x hx => hnonneg x (List.mem_append_left _ hx)
  rw [held_append]
  omega

end

end Ledger

namespace Surroundings

open Ledger (under inside held Covers)

/-! ### What every step keeps -/

/-- What holds of a resource in a namespace as long as nothing goes there that uses a negative
amount of it. -/
structure IsCovered (σ : Surroundings) (quota name : String) (r : ResourceName) : Prop where
  /-- Every reservation has an amount of visibility for just what it reserves. -/
  thresholds : ∀ x ∈ σ.ledger.under quota, x.visibleAt.contains r = true ↔ x.usage.contains r = true
  reserved_nonneg : ∀ x ∈ σ.ledger.under quota, 0 ≤ (x.usage.amount r).nanos
  hidden_nonneg : ∀ o ∈ σ.hidden, 0 ≤ (o.usage.amount r).nanos
  covers : Covers r (Placed.sum σ.visible name r) (Placed.sum σ.hidden name r)
    (inside (σ.ledger.under quota) name)
  /-- What was read, and what is reserved, is still no less than what there is. -/
  reading : ∀ s resources, σ.reading = some (s, resources) → ∀ used,
    s.namespaces.get? name = some used → resources.contains r = true →
      Placed.sum σ.visible name r + Placed.sum σ.hidden name r ≤
        (used.amount r).nanos + held (inside (σ.ledger.under quota) name) r

variable {quota name : String} {r : ResourceName} {σ τ : Surroundings}

theorem IsFresh.isCovered (h : σ.IsFresh quota) (name : String) (r : ResourceName) :
    σ.IsCovered quota name r := by
  obtain ⟨hunder, hhidden, hreading⟩ := h
  refine ⟨?_, ?_, ?_, ?_, ?_⟩
  · simp [hunder]
  · simp [hunder]
  · simp [hhidden]
  · rw [hunder, hhidden]
    exact Covers.nil _
  · simp [hreading]

theorem IsCovered.hidden_le (h : σ.IsCovered quota name r) :
    Placed.sum σ.hidden name r ≤ held (inside (σ.ledger.under quota) name) r :=
  h.covers.hidden_le fun x hx => h.reserved_nonneg x (Ledger.mem_inside.1 hx).1

theorem under_read (now : Nat) (reads : Table String ResourceList)
    (resources : KeySet ResourceName) :
    (σ.read quota now reads resources).ledger.under quota = (σ.ledger.under quota).filter fun x =>
      x.isLive now && !x.isShown (.recompute reads resources) resources := by
  simp only [read, Ledger.under_pending, if_true, Ledger.unseen, Reservation.isObserved_recompute]

/-- What is shown of a reservation is all that it reserves. -/
theorem IsCovered.visibleAt_le {now : Nat} {reads : Table String ResourceList}
    {resources : KeySet ResourceName} (hσ : σ.IsCovered quota name r)
    (h : σ.MayRead quota now reads resources) {x : Reservation} (hx : x ∈ σ.ledger.under quota)
    (hshown : x.isShown (.recompute reads resources) resources = true)
    (hr : x.usage.contains r = true) :
    (x.visibleAt.amount r).nanos ≤ Placed.sum σ.visible x.namespaceName r := by
  obtain ⟨used, hused, -, hreached⟩ := (x.isShown_iff _ _).1 hshown
  have hasked : resources.contains r = true := h.asked x hx r ((Table.mem_keys_iff _).2 hr)
  have hle := hreached r ((hσ.thresholds x hx).2 hr) hasked
  rw [Quantity.le_iff, h.shown _ ((Table.mem_entries_iff reads).2 hused) r
    ((KeySet.mem_toList_iff _).2 hasked)] at hle
  exact hle

theorem IsCovered.read {now : Nat} {reads : Table String ResourceList}
    {resources : KeySet ResourceName} (hσ : σ.IsCovered quota name r)
    (h : σ.MayRead quota now reads resources) :
    (σ.read quota now reads resources).IsCovered quota name r := by
  have hsub : ∀ x ∈ (σ.read quota now reads resources).ledger.under quota,
      x ∈ σ.ledger.under quota := fun x hx => by
    rw [under_read] at hx
    exact (List.mem_filter.1 hx).1
  -- only what is shown goes
  have hout : ∀ x ∈ inside (σ.ledger.under quota) name,
      (x.isLive now && !x.isShown (.recompute reads resources) resources) = false →
      x.usage.contains r = true → (x.visibleAt.amount r).nanos ≤ Placed.sum σ.visible name r := by
    intro x hx hgone hr
    obtain ⟨hmem, hname⟩ := Ledger.mem_inside.1 hx
    rw [← hname]
    exact hσ.visibleAt_le h hmem (by simpa [h.live x hmem] using hgone) hr
  have hcovers : Covers r (Placed.sum σ.visible name r) (Placed.sum σ.hidden name r)
      (inside ((σ.read quota now reads resources).ledger.under quota) name) := by
    rw [under_read, Ledger.inside_filter]
    exact hσ.covers.filter hout
  have hreserved : ∀ x ∈ (σ.read quota now reads resources).ledger.under quota,
      0 ≤ (x.usage.amount r).nanos := fun x hx => hσ.reserved_nonneg x (hsub x hx)
  refine ⟨fun x hx => hσ.thresholds x (hsub x hx), hreserved, hσ.hidden_nonneg, hcovers, ?_⟩
  intro s asked hreading used hused hr
  simp only [Surroundings.read, Option.some.injEq, Prod.mk.injEq] at hreading
  obtain ⟨rfl, rfl⟩ := hreading
  have hshown : (used.amount r).nanos = Placed.sum σ.visible name r :=
    h.shown _ ((Table.mem_entries_iff reads).2 hused) r ((KeySet.mem_toList_iff _).2 hr)
  have hle := hcovers.hidden_le fun x hx => hreserved x (Ledger.mem_inside.1 hx).1
  simp only [Surroundings.read] at hle ⊢
  omega

section

variable {now : Nat} {place : String} {usage observed : ResourceList}

theorem under_accept (wall : Time) (ttl : Nat) (h : σ.MayAccept quota now place usage observed) :
    (σ.accept quota now wall ttl place usage observed).ledger.under quota =
      σ.ledger.under quota ++
        (σ.ledger.reserved? now wall ttl quota place usage observed).toList := by
  rw [Surroundings.accept, Ledger.under_reserve, if_pos rfl, List.filter_eq_self.2 h.live]

theorem eq_of_reserved? {wall : Time} {ttl : Nat} {x : Reservation}
    (h : σ.MayAccept quota now place usage observed)
    (hx : σ.ledger.reserved? now wall ttl quota place usage observed = some x) :
    x = ⟨place, usage, Ledger.visibleAt (σ.ledger.under quota) place usage observed, wall,
      now + ttl⟩ := by
  rw [Ledger.eq_of_reserved? σ.ledger now hx, List.filter_eq_self.2 h.live]

theorem mem_under_accept {wall : Time} {ttl : Nat} {y : Reservation}
    (h : σ.MayAccept quota now place usage observed)
    (hy : y ∈ (σ.accept quota now wall ttl place usage observed).ledger.under quota) :
    y ∈ σ.ledger.under quota ∨ y = ⟨place, usage,
      Ledger.visibleAt (σ.ledger.under quota) place usage observed, wall, now + ttl⟩ := by
  rw [under_accept wall ttl h, List.mem_append, Option.mem_toList] at hy
  exact hy.imp_right (eq_of_reserved? h)

/-- The namespace was read at no less than it then had, less what is reserved in it, and so the
object is visible where all is. -/
theorem IsCovered.le_visibleAt {s : Snapshot} {resources : KeySet ResourceName}
    (hσ : σ.IsCovered quota name r) (hs : σ.reading = some (s, resources))
    (hname : s.namespaces.get? name = some observed)
    (hasked : ∀ r ∈ usage.keys, resources.contains r = true)
    (h : σ.MayAccept quota now name usage observed) (hr : usage.contains r = true) :
    Placed.sum σ.visible name r + Placed.sum σ.hidden name r + (usage.amount r).nanos ≤
      ((Ledger.visibleAt (σ.ledger.under quota) name usage observed).amount r).nanos := by
  have hkey : r ∈ usage.keys := (Table.mem_keys_iff _).2 hr
  have hread := hσ.reading s resources hs observed hname (hasked r hkey)
  have hbound := h.bounded r hkey
  have hvisible := Ledger.nanos_amount_visibleAt (σ.ledger.under quota) name usage observed hr
    (h.nonneg.amount r) fun y hy => hσ.reserved_nonneg y (Ledger.mem_inside.1 hy).1
  omega

/-- What covers a namespace still does when an object is accepted, there or elsewhere. -/
theorem IsCovered.covers_accept {s : Snapshot} {resources : KeySet ResourceName}
    (hσ : σ.IsCovered quota name r) (hs : σ.reading = some (s, resources))
    (hplace : s.namespaces.get? place = some observed)
    (hasked : ∀ r ∈ usage.keys, resources.contains r = true)
    (h : σ.MayAccept quota now place usage observed) (wall : Time) (ttl : Nat) :
    Covers r (Placed.sum σ.visible name r) (Placed.sum (⟨place, usage⟩ :: σ.hidden) name r)
      (inside ((σ.accept quota now wall ttl place usage observed).ledger.under quota) name) := by
  rw [under_accept wall ttl h, Placed.sum_cons]
  cases hx : σ.ledger.reserved? now wall ttl quota place usage observed with
  | none =>
    -- nothing is reserved of an object that uses nothing
    have hempty := Ledger.held_reserved? σ.ledger now wall ttl quota place usage observed r
    rw [hx, Option.toList_none, Ledger.held_nil] at hempty
    have hsum : (if place = name then (usage.amount r).nanos else 0) = 0 := by
      rw [← hempty, ite_self]
    rw [Option.toList_none, List.append_nil, hsum, Int.zero_add]
    exact hσ.covers
  | some x =>
    have hx := eq_of_reserved? h hx
    rw [Option.toList_some]
    by_cases hn : place = name
    · subst hn
      have hinside : inside (σ.ledger.under quota ++ [x]) place =
          inside (σ.ledger.under quota) place ++ [x] := by
        simp [inside, hx]
      rw [hinside, if_pos rfl, Int.add_comm]
      refine hσ.covers.append (by rw [hx]) fun hr => ?_
      rw [hx] at hr ⊢
      exact hσ.le_visibleAt hs hplace hasked h hr
    · have hinside : inside (σ.ledger.under quota ++ [x]) name =
          inside (σ.ledger.under quota) name := by
        simp [inside, hx, hn]
      rw [hinside, if_neg hn, Int.zero_add]
      exact hσ.covers

theorem IsCovered.accept {wall : Time} {ttl : Nat} {s : Snapshot}
    {resources : KeySet ResourceName} (hσ : σ.IsCovered quota name r)
    (hs : σ.reading = some (s, resources)) (hplace : s.namespaces.get? place = some observed)
    (hasked : ∀ r ∈ usage.keys, resources.contains r = true)
    (h : σ.MayAccept quota now place usage observed) :
    (σ.accept quota now wall ttl place usage observed).IsCovered quota name r where
  thresholds y hy := by
    rcases mem_under_accept h hy with hy | rfl
    · exact hσ.thresholds y hy
    · exact Ledger.contains_visibleAt _ _ _ _ r
  reserved_nonneg y hy := by
    rcases mem_under_accept h hy with hy | rfl
    · exact hσ.reserved_nonneg y hy
    · exact h.nonneg.amount r
  hidden_nonneg o ho := by
    rcases List.mem_cons.1 ho with rfl | ho
    · exact h.nonneg.amount r
    · exact hσ.hidden_nonneg o ho
  covers := hσ.covers_accept hs hplace hasked h wall ttl
  reading s resources hreading := by cases hreading

end

theorem IsCovered.appear {before after : List Placed} {o : Placed}
    (hσ : σ.IsCovered quota name r) (h : σ.hidden = before ++ o :: after) :
    IsCovered { σ with visible := o :: σ.visible, hidden := before ++ after } quota name r := by
  have hnonneg : 0 ≤ (o.usage.amount r).nanos := hσ.hidden_nonneg o (by simp [h])
  have hsum : Placed.sum (before ++ after) name r ≤ Placed.sum σ.hidden name r ∧
      Placed.sum (o :: σ.visible) name r + Placed.sum (before ++ after) name r =
        Placed.sum σ.visible name r + Placed.sum σ.hidden name r := by
    simp only [h, Placed.sum_append, Placed.sum_cons]
    split <;> constructor <;> omega
  refine ⟨hσ.thresholds, hσ.reserved_nonneg, ?_, hσ.covers.mono hsum.1 hsum.2.le, ?_⟩
  · intro p hp
    refine hσ.hidden_nonneg p ?_
    rw [h]
    rcases List.mem_append.1 hp with hp | hp
    · exact List.mem_append_left _ hp
    · exact List.mem_append_right _ (List.mem_cons_of_mem _ hp)
  · intro s resources hreading used hused hr
    have hle := hσ.reading s resources hreading used hused hr
    have heq := hsum.2
    simp only at heq ⊢
    omega

theorem IsCovered.delete {before after : List Placed} {o : Placed}
    (hσ : σ.IsCovered quota name r) (h : σ.visible = before ++ o :: after)
    (howes : o.OwesNothing name r) :
    IsCovered { σ with visible := before ++ after } quota name r := by
  have hsum : Placed.sum (before ++ after) name r ≤ Placed.sum σ.visible name r := by
    simp only [h, Placed.sum_append, Placed.sum_cons]
    split
    case isTrue hname =>
      have hnonneg := howes hname
      omega
    case isFalse => omega
  refine ⟨hσ.thresholds, hσ.reserved_nonneg, hσ.hidden_nonneg, ?_, ?_⟩
  · exact hσ.covers.mono (le_refl _) (Int.add_le_add_right hsum _)
  · intro s resources hreading used hused hr
    have hle := hσ.reading s resources hreading used hused hr
    simp only at hsum ⊢
    omega

theorem IsCovered.step (hσ : σ.IsCovered quota name r)
    (h : Step quota (Placed.OwesNothing name r) σ τ) : τ.IsCovered quota name r := by
  cases h with
  | read h => exact hσ.read h
  | accept hs hplace h =>
    refine hσ.accept hs hplace (fun r hr => ?_) h
    have hr := (ResourceList.contains_restrict _ _ r).1 ((Table.mem_keys_iff _).1 hr)
    exact (KeySet.mem_toList_iff _).1 hr.1
  | appear h => exact hσ.appear h
  | delete h howes => exact hσ.delete h howes
  | elsewhere h =>
    refine ⟨?_, ?_, hσ.hidden_nonneg, ?_, ?_⟩ <;> simp only [h]
    · exact hσ.thresholds
    · exact hσ.reserved_nonneg
    · exact hσ.covers
    · exact hσ.reading

theorem IsCovered.run (hσ : σ.IsCovered quota name r)
    (h : Relation.ReflTransGen (Step quota (Placed.OwesNothing name r)) σ τ) :
    τ.IsCovered quota name r := by
  induction h with
  | refl => exact hσ
  | tail _ hstep ih => exact ih.step hstep

/-- Whatever was admitted, became visible and was deleted, unless an object of the namespace was
deleted that used a negative amount of the resource: at every reading what it shows of the
namespace, and what is reserved in the namespace after it, are at least what the visible objects and
the admitted ones that are not yet visible use. -/
theorem visible_add_hidden_le (hfresh : σ.IsFresh quota)
    (hrun : Relation.ReflTransGen (Step quota (Placed.OwesNothing name r)) σ τ) {now : Nat}
    {reads : Table String ResourceList} {resources : KeySet ResourceName}
    (h : τ.MayRead quota now reads resources) {used : ResourceList}
    (hname : reads.get? name = some used) (hr : resources.contains r = true) :
    Placed.sum τ.visible name r + Placed.sum τ.hidden name r ≤
      (used.amount r).nanos +
        held (inside ((τ.ledger.pending now quota (.recompute reads resources) resources).2.under
          quota) name) r := by
  have hcovered := ((hfresh.isCovered name r).run hrun).read h
  exact hcovered.reading _ _ rfl used hname hr

private def someCpu (n : Int) : ResourceList := .ofPairs [(.requests "cpu", .ofUnits n)]

private def showing (n : Int) : Table String ResourceList := Table.ofList [("ns", someCpu n)]

private def cpuAsked : KeySet ResourceName := KeySet.ofList [.requests "cpu"]

private def acceptCpu (σ : Surroundings) (shown n : Int) : Surroundings :=
  (σ.read "q" 0 (showing shown) cpuAsked).accept "q" 0 ⟨0, 0⟩ 1 "ns"
    ((someCpu n).restrict cpuAsked.toList) (someCpu shown)

private theorem steps_acceptCpu {mayGo : Placed → Prop} {σ τ : Surroundings} {shown n : Int}
    (h : Relation.ReflTransGen (Step "q" mayGo) σ τ)
    (hread : τ.MayRead "q" 0 (showing shown) cpuAsked)
    (hname : (showing shown).get? "ns" = some (someCpu shown))
    (haccept : (τ.read "q" 0 (showing shown) cpuAsked).MayAccept "q" 0 "ns"
      ((someCpu n).restrict cpuAsked.toList) (someCpu shown)) :
    Relation.ReflTransGen (Step "q" mayGo) σ (acceptCpu τ shown n) :=
  (h.tail (.read hread)).tail (.accept rfl hname haccept)

/-! The larger of two admitted objects becomes visible first and what was there before is deleted.
The reading then releases the reservation of the smaller one, which is still hidden. -/

private def twoCpu : Surroundings := ⟨Table.empty, [⟨"ns", someCpu 2⟩], [], none⟩

private def outOfOrder : Surroundings :=
  let σ := acceptCpu (acceptCpu twoCpu 2 1) 2 3
  { σ with
    visible := [⟨"ns", (someCpu 3).restrict cpuAsked.toList⟩]
    hidden := [⟨"ns", (someCpu 1).restrict cpuAsked.toList⟩] }

theorem visible_add_hidden_le_outOfOrder :
    twoCpu.IsFresh "q" ∧
      Relation.ReflTransGen (Step "q" (Placed.OwesNothing "ns" (.requests "cpu")))
        twoCpu outOfOrder ∧
      outOfOrder.MayRead "q" 0 (showing 3) cpuAsked ∧
      Placed.sum outOfOrder.visible "ns" (.requests "cpu") +
          Placed.sum outOfOrder.hidden "ns" (.requests "cpu") ≤
        ((someCpu 3).amount (.requests "cpu")).nanos +
          held (inside ((outOfOrder.ledger.pending 0 "q" (.recompute (showing 3) cpuAsked)
            cpuAsked).2.under "q") "ns") (.requests "cpu") := by
  have hfresh : twoCpu.IsFresh "q" := ⟨rfl, rfl, rfl⟩
  have hone : Relation.ReflTransGen (Step "q" (Placed.OwesNothing "ns" (.requests "cpu")))
      twoCpu (acceptCpu twoCpu 2 1) :=
    steps_acceptCpu .refl ⟨by decide +kernel, by decide +kernel, by decide +kernel⟩
      (by decide +kernel) ⟨by decide +kernel, by decide +kernel, by decide +kernel⟩
  have htwo : Relation.ReflTransGen (Step "q" (Placed.OwesNothing "ns" (.requests "cpu")))
      twoCpu (acceptCpu (acceptCpu twoCpu 2 1) 2 3) := steps_acceptCpu hone
    ⟨by decide +kernel, by decide +kernel, by decide +kernel⟩ (by decide +kernel)
    ⟨by decide +kernel, by decide +kernel, by decide +kernel⟩
  have happear := htwo.tail (.appear (show _ = [] ++ _ :: _ from rfl))
  have hdelete := happear.tail (.delete (show _ = [_] ++ _ :: _ from rfl) (by decide +kernel))
  have hread : outOfOrder.MayRead "q" 0 (showing 3) cpuAsked :=
    ⟨by decide +kernel, by decide +kernel, by decide +kernel⟩
  exact ⟨hfresh, hdelete, hread,
    visible_add_hidden_le hfresh hdelete hread (by decide +kernel) (by decide +kernel)⟩

/-! An object is admitted where another one uses a negative amount, and that other one is deleted.
The reading grows by as much as was admitted and releases what is still hidden. -/

private def owing : Surroundings :=
  ⟨Table.empty, [⟨"ns", someCpu 2⟩, ⟨"ns", someCpu (-1)⟩], [], none⟩

private def owingGone : Surroundings :=
  { acceptCpu owing 1 1 with visible := [⟨"ns", someCpu 2⟩] }

theorem not_visible_add_hidden_le_negative :
    owing.IsFresh "q" ∧ Relation.ReflTransGen (Step "q" fun _ => True) owing owingGone ∧
      owingGone.MayRead "q" 0 (showing 2) cpuAsked ∧
      ¬ Placed.sum owingGone.visible "ns" (.requests "cpu") +
          Placed.sum owingGone.hidden "ns" (.requests "cpu") ≤
        ((someCpu 2).amount (.requests "cpu")).nanos +
          held (inside ((owingGone.ledger.pending 0 "q" (.recompute (showing 2) cpuAsked)
            cpuAsked).2.under "q") "ns") (.requests "cpu") := by
  have haccept : Relation.ReflTransGen (Step "q" fun _ => True) owing (acceptCpu owing 1 1) :=
    steps_acceptCpu .refl ⟨by decide +kernel, by decide +kernel, by decide +kernel⟩
      (by decide +kernel) ⟨by decide +kernel, by decide +kernel, by decide +kernel⟩
  have hdelete := haccept.tail (.delete (show _ = [_] ++ _ :: [] from rfl) trivial)
  exact ⟨⟨rfl, rfl, rfl⟩, hdelete,
    ⟨by decide +kernel, by decide +kernel, by decide +kernel⟩, by decide +kernel⟩

end Surroundings

end SharedQuota
