import SharedQuota.Proofs.Engine.Guard
import SharedQuota.Proofs.Engine.Still

/-!
No interleaving of calls overcommits a quota. Main statement (`total_add_admitted_le`): on a cluster
that does not change, while no reservation expires, what is in use and what was admitted stay within
every limit of which something was admitted.

The invariant ties the three together: the ledger holds what calls have settled, calls have room for
what they were compared with as long as they hold its locks, and what the ledger holds is within the
limits.
-/

namespace SharedQuota

open Engine (Reading Advance handles reading? reservation)

/-- The quotas that a call was compared with and did not exceed, if it is still to reserve. -/
def Stage.cleared : Stage → List (Applicable × ResourceList)
  | .checking _ _ checked _ | .reading _ _ checked _ _ _ => checked
  | .reserving _ _ next => next
  | _ => []

/-- Whether a call was told that it may go on. -/
def Stage.isAllowed : Stage → Bool
  | .releasing _ (.ok ()) | .finished (.ok ()) => true
  | _ => false

def Caller.isAdmitted (c : Caller) : Bool := !c.dryRun && c.stage.isAllowed

namespace Still

/-- How far a call that adds usage can have come, and with what. -/
def Fits (c : Charge) (dryRun : Bool) : Stage → Prop
  | .listing name delta => name = c.name ∧ delta = c.delta
  | .locking charge _ _ | .waiting charge _ _ _ _ => charge = c
  | .checking charge _ checked next => charge = c ∧ checked.map (·.1) ++ next = c.quotas
  | .reading charge _ checked a _ next => charge = c ∧ checked.map (·.1) ++ a :: next = c.quotas
  | .reserving charge _ next => charge = c ∧ dryRun = false ∧ next.map (·.1) <:+ c.quotas
  | .releasing _ _ | .finished _ => True
  | _ => False

/-- What a call has entered into the ledger under a quota. -/
def settled (c : Charge) (dryRun : Bool) (quota : String) (r : ResourceName) (stage : Stage) :
    Int :=
  match stage with
  | .reserving _ _ next =>
    Applicable.share c.delta quota r c.quotas - Applicable.share c.delta quota r (next.map (·.1))
  | stage => if !dryRun && stage.isAllowed then Applicable.share c.delta quota r c.quotas else 0

variable (k : Still) (x : Exclusions)

def settledBy (quota : String) (r : ResourceName) (c : Caller) : Int :=
  settled (k.charged x c.work) c.dryRun quota r c.stage

/-- A call has come so far by adding usage, and has room for it where it was compared. -/
structure IsCharged (u : String → List Reservation) (w : Work) (dryRun : Bool) (stage : Stage) :
    Prop where
  usage : w.IsUsage
  fits : Fits (k.charged x w) dryRun stage
  cleared : ∀ e ∈ stage.cleared, k.Clears x u (k.charged x w) e

structure IsSafe (s : Crowd) : Prop where
  guarded : s.IsGuarded
  books : k.Books x s.shared.ledger.under
  charged : ∀ c ∈ s.callers, k.IsCharged x s.shared.ledger.under c.work c.dryRun c.stage
  settled : ∀ quota r,
    (s.callers.map (k.settledBy x quota r)).sum = Ledger.held (s.shared.ledger.under quota) r

variable {k} {rules : Rules} {now : Now} {dryRun : Bool} {shared shared' : Shared} {w : Work}
  {stage stage' : Stage} {answer : Answer}

/-! ### One call -/

theorem Fits.reading (hk : k.IsProper)
    (hfits : Fits (k.charged rules.exclusions w) dryRun stage)
    (hanswer : k.Answers rules.exclusions stage answer) {r : Reading}
    (hr : reading? rules now stage answer = some r) :
    r.charge = k.charged rules.exclusions w ∧
      r.checked.map (·.1) ++ r.quota :: r.next = (k.charged rules.exclusions w).quotas ∧
      stage.cleared = r.checked ∧
      r.snapshot = .ofLive (Scope.resolve rules.exclusions r.quota.quota k.namespaces).aggregated
        k.usage r.quota.resources := by
  rcases Engine.stage_of_reading? hr with rfl | ⟨since, rfl⟩
  · -- no quota has a status to read
    obtain ⟨hcharge, hquotas⟩ := hfits
    have hmem : r.quota ∈ (k.charged rules.exclusions w).quotas := by simp [← hquotas]
    have hsync := hk.unsynced _ (of_mem_quotas hmem).1
    cases answer with
    | proceed => simp [reading?, Snapshot.ofStatus?_of_lastSync hsync] at hr
    | _ => cases hr
  · obtain ⟨hcharge, hquotas⟩ := hfits
    have hlisting : r.charge.listing = k.namespaces := by
      rw [hcharge]
      cases w <;> rfl
    refine ⟨hcharge, hquotas, rfl, ?_⟩
    cases hanswer with
    | proceed => cases hr
    | failed => cases hr
    | listed => cases hr
    | measured =>
      rw [← Option.some.inj hr, ← hlisting]
      rfl

theorem settled_of_canFail {c : Charge} {quota : String} {r : ResourceName}
    (h : stage.canFail = true) : settled c dryRun quota r stage = 0 := by
  cases stage with
  | reserving => cases h
  | releasing => cases h
  | finished => cases h
  | _ => simp [settled, Stage.isAllowed]

/-- What a step of a call does: it leaves the ledger as it is and settles nothing, or it reserves in
a quota that the call was compared with. -/
theorem IsCharged.advance (hk : k.IsProper) (hbooks : k.Books rules.exclusions shared.ledger.under)
    (hlive : ∀ quota, ∀ y ∈ shared.ledger.under quota, y.isLive now.millis = true)
    (hc : k.IsCharged rules.exclusions shared.ledger.under w dryRun stage)
    (hanswer : k.Answers rules.exclusions stage answer)
    (hadvance : Advance rules now dryRun shared stage answer shared' stage') :
    (shared'.ledger.under = shared.ledger.under ∧
        k.IsCharged rules.exclusions shared.ledger.under w dryRun stage' ∧
        ∀ quota r, settled (k.charged rules.exclusions w) dryRun quota r stage' =
          settled (k.charged rules.exclusions w) dryRun quota r stage) ∨
      ∃ held a observed next,
        stage = .reserving (k.charged rules.exclusions w) held ((a, observed) :: next) ∧
        stage' = .reserving (k.charged rules.exclusions w) held next ∧
        shared'.ledger = shared.ledger.apply
          (reservation rules now (k.charged rules.exclusions w) a observed) := by
  obtain ⟨hw, hfits, hcleared⟩ := hc
  -- a call that ends has nothing left to reserve
  have hend (result : Except Denial Unit) (held : List Nat) :
      k.IsCharged rules.exclusions shared.ledger.under w dryRun (.releasing held result) :=
    ⟨hw, trivial, fun e he => by cases he⟩
  cases hadvance with
  | fail hfail =>
    refine .inl ⟨rfl, hend _ _, fun quota r => ?_⟩
    rw [settled_of_canFail hfail]
    simp [settled, Stage.isAllowed]
  | @list name delta namespaces quotas =>
    obtain ⟨rfl, rfl⟩ := hfits
    cases hanswer
    have hcharge := charged_eq (k := k) (x := rules.exclusions) hw
    rcases charge_cases (k := k) (x := rules.exclusions) (k.charged rules.exclusions w).name
      (k.charged rules.exclusions w).delta with ⟨hstage, hnone⟩ | hstage
    · rw [← hcharge] at hnone
      rw [hstage]
      refine .inl ⟨rfl, ⟨hw, trivial, fun e he => by cases he⟩, fun quota r => ?_⟩
      simp [settled, Stage.isAllowed, hnone]
    · rw [← hcharge] at hstage
      rw [hstage]
      exact .inl ⟨rfl, ⟨hw, rfl, fun e he => by cases he⟩, fun _ _ => rfl⟩
  | relist => cases hfits
  | survey => cases hfits
  | compare => cases hfits
  | join => cases hfits
  | locked =>
    refine .inl ⟨rfl, ⟨hw, ⟨hfits, ?_⟩, fun e he => by cases he⟩, fun _ _ => rfl⟩
    exact congrArg Charge.quotas hfits
  | ask => exact .inl ⟨rfl, ⟨hw, hfits, fun e he => by cases he⟩, fun _ _ => rfl⟩
  | take => exact .inl ⟨rfl, ⟨hw, hfits, fun e he => by cases he⟩, fun _ _ => rfl⟩
  | measure => exact .inl ⟨rfl, ⟨hw, hfits, hcleared⟩, fun _ _ => rfl⟩
  | deny hr he =>
    obtain ⟨-, -, -, hsnapshot⟩ := hfits.reading hk hanswer hr
    refine .inl ⟨?_, hend _ _, fun quota r => ?_⟩
    · rw [Reading.operation, hsnapshot]
      exact hbooks.under_pending hlive _
    · rw [settled_of_canFail (Engine.canFail_of_reading? hr)]
      simp [settled, Stage.isAllowed]
  | @clear _ _ r hr he =>
    obtain ⟨hcharge, hquotas, hchecked, hsnapshot⟩ := hfits.reading hk hanswer hr
    have hmem : r.quota ∈ (k.charged rules.exclusions w).quotas := by simp [← hquotas]
    rw [hsnapshot, hcharge] at he
    refine .inl ⟨?_, ⟨hw, ⟨hcharge, by simpa using hquotas⟩, fun e hmem' => ?_⟩, fun quota r => ?_⟩
    · rw [Reading.operation, hsnapshot]
      exact hbooks.under_pending hlive _
    · rcases List.mem_append.1 hmem' with hmem' | hmem'
      · exact hcleared e (hchecked ▸ hmem')
      · rw [List.mem_singleton.1 hmem', hsnapshot, hcharge]
        exact hbooks.clears hk (hlive _) hw hmem he
    · rw [settled_of_canFail (Engine.canFail_of_reading? hr)]
      simp [settled, Stage.isAllowed]
  | passDry hdry =>
    refine .inl ⟨rfl, hend _ _, fun quota r => ?_⟩
    simp [settled, Stage.isAllowed, hdry]
  | pass hdry =>
    obtain ⟨hcharge, hquotas⟩ := hfits
    rw [List.append_nil] at hquotas
    refine .inl ⟨rfl, ⟨hw, ⟨hcharge, hdry, ?_⟩, hcleared⟩, fun quota r => ?_⟩
    · exact hquotas ▸ List.suffix_refl _
    · simp [settled, Stage.isAllowed, hquotas]
  | @reserve charge held a observed next =>
    obtain ⟨hcharge, -, -⟩ := hfits
    exact .inr ⟨held, a, observed, next, by rw [hcharge], by rw [hcharge], by rw [hcharge]⟩
  | reserved =>
    obtain ⟨-, hdry, -⟩ := hfits
    refine .inl ⟨rfl, hend _ _, fun quota r => ?_⟩
    simp [settled, Stage.isAllowed, hdry]
  | @release handle held result =>
    refine .inl ⟨rfl, hend _ _, fun quota r => ?_⟩
    cases result <;> rfl
  | @finish result =>
    refine .inl ⟨rfl, ⟨hw, trivial, fun e he => by cases he⟩, fun quota r => ?_⟩
    cases result <;> rfl

/-! ### All calls -/

/-- A move that tells its call of the cluster, at a time at which nothing that is reserved has
expired. -/
structure Allows (k : Still) (rules : Rules) (s : Crowd) (m : Move) : Prop where
  answer : ∀ c, s.callers[m.place]? = some c → k.Answers rules.exclusions c.stage m.answer
  live : ∀ quota, ∀ y ∈ s.shared.ledger.under quota, y.isLive m.now.millis = true

def Step (k : Still) (rules : Rules) (s t : Crowd) : Prop :=
  ∃ m, k.Allows rules s m ∧ s.step? rules m = some t

variable {works : List (Work × Bool)} {s t : Crowd}

theorem isSafe_start (hworks : ∀ e ∈ works, e.1.IsUsage) :
    k.IsSafe rules.exclusions (Crowd.start works) where
  guarded := Crowd.isGuarded_start works
  books := books_empty
  charged c hc := by
    obtain ⟨⟨w, dryRun⟩, hw, rfl⟩ := List.mem_map.1 hc
    have husage := hworks _ hw
    cases w with
    | usage name delta =>
      simp only [Work.start]
      split
      case isTrue => exact ⟨husage, trivial, fun e he => by cases he⟩
      case isFalse => exact ⟨husage, ⟨rfl, rfl⟩, fun e he => by cases he⟩
    | relabel old new => cases husage
    | quota new old => cases husage
  settled quota r := by
    refine List.sum_eq_zero fun n hn => ?_
    obtain ⟨c, hc, rfl⟩ := List.mem_map.1 hn
    obtain ⟨⟨w, dryRun⟩, hw, rfl⟩ := List.mem_map.1 hc
    have husage := hworks _ hw
    cases w with
    | usage name delta =>
      simp only [settledBy, Work.start]
      split
      case isTrue hempty =>
        have hnone := Applicable.share_of_isEmpty hempty quota r
          (k.charged rules.exclusions (.usage name delta)).quotas
        simp only [settled]
        split
        case isTrue => exact hnone
        case isFalse => rfl
      case isFalse => simp [settled, Stage.isAllowed]
    | relabel old new => cases husage
    | quota new old => cases husage

theorem IsCharged.mem_guarded {u : String → List Reservation} {x : Exclusions}
    (hc : k.IsCharged x u w dryRun stage) {e : Applicable × ResourceList} (he : e ∈ stage.cleared) :
    e.1 ∈ stage.guarded := by
  obtain ⟨-, hfits, -⟩ := hc
  have hmem : e.1 ∈ stage.cleared.map (·.1) := List.mem_map.2 ⟨e, he, rfl⟩
  cases stage with
  | checking charge held checked next =>
    obtain ⟨hcharge, hquotas⟩ := hfits
    rw [Stage.guarded, hcharge, ← hquotas]
    exact List.mem_append_left _ hmem
  | reading charge held checked a since next =>
    obtain ⟨hcharge, hquotas⟩ := hfits
    rw [Stage.guarded, hcharge, ← hquotas]
    exact List.mem_append_left _ hmem
  | reserving charge held next =>
    obtain ⟨hcharge, -, hsuffix⟩ := hfits
    rw [Stage.guarded, hcharge]
    exact hsuffix.subset hmem
  | _ => cases he

/-- A call that reserves in a quota still has room in those that come after it. -/
theorem IsCharged.reserved {u u' : String → List Reservation} {x : Exclusions} {held : List Nat}
    {a : Applicable} {observed : ResourceList} {next : List (Applicable × ResourceList)}
    (hk : k.IsProper)
    (hc : k.IsCharged x u w dryRun (.reserving (k.charged x w) held ((a, observed) :: next)))
    (hu : ∀ quota, quota ≠ a.name → u' quota = u quota) :
    k.IsCharged x u' w dryRun (.reserving (k.charged x w) held next) := by
  obtain ⟨hw, ⟨-, hdry, hsuffix⟩, hcleared⟩ := hc
  have hnodup := (names_quotas_nodup (x := x) hk w).sublist (hsuffix.sublist.map _)
  simp only [List.map_cons, List.nodup_cons] at hnodup
  refine ⟨hw, ⟨rfl, hdry, (List.suffix_cons _ _).trans hsuffix⟩, fun e he => ?_⟩
  have hne : e.1.name ≠ a.name := fun heq =>
    hnodup.1 (heq ▸ List.mem_map.2 ⟨e.1, List.mem_map.2 ⟨e, he, rfl⟩, rfl⟩)
  exact (hcleared e (List.mem_cons_of_mem _ he)).congr (hu _ hne)

theorem settled_reserving_cons (c charge : Charge) (held : List Nat) (a : Applicable)
    (observed : ResourceList) (next : List (Applicable × ResourceList)) (quota : String)
    (r : ResourceName) :
    settled c dryRun quota r (.reserving charge held next) =
      settled c dryRun quota r (.reserving charge held ((a, observed) :: next)) +
        if a.name = quota then ((c.delta.restrict a.resources.toList).amount r).nanos else 0 := by
  simp only [settled, List.map_cons, Applicable.share_cons]
  omega

variable {before after : List Caller} {c : Caller} {shared : Shared}

theorem IsSafe.quiet (hs : k.IsSafe rules.exclusions s)
    (hcallers : s.callers = before ++ c :: after)
    (hguarded : Crowd.IsGuarded ⟨shared, before ++ { c with stage } :: after⟩)
    (hunder : shared.ledger.under = s.shared.ledger.under)
    (hcharged : k.IsCharged rules.exclusions s.shared.ledger.under c.work c.dryRun stage)
    (hsettled : ∀ quota r,
      Still.settled (k.charged rules.exclusions c.work) c.dryRun quota r stage =
        Still.settled (k.charged rules.exclusions c.work) c.dryRun quota r c.stage) :
    k.IsSafe rules.exclusions ⟨shared, before ++ { c with stage } :: after⟩ := by
  refine ⟨hguarded, hunder ▸ hs.books, ?_, fun quota r => ?_⟩
  · refine Crowd.forall_mem_split (fun c' hc' => ?_) (hunder ▸ hcharged)
    exact hunder ▸ hs.charged c' (Crowd.mem_callers_of_split hcallers hc')
  · have hsum := hs.settled quota r
    simp only [hcallers, List.map_append, List.map_cons, List.sum_append, List.sum_cons] at hsum
    simp only [List.map_append, List.map_cons, List.sum_append, List.sum_cons, hunder, ← hsum]
    simp only [settledBy, hsettled]

theorem IsSafe.reserve (hk : k.IsProper) (hs : k.IsSafe rules.exclusions s)
    (hcallers : s.callers = before ++ c :: after)
    (hguarded : Crowd.IsGuarded ⟨shared, before ++ { c with stage } :: after⟩)
    (hlive : ∀ quota, ∀ y ∈ s.shared.ledger.under quota, y.isLive now.millis = true)
    {held : List Nat} {a : Applicable} {observed : ResourceList}
    {next : List (Applicable × ResourceList)}
    (hstage : c.stage =
      .reserving (k.charged rules.exclusions c.work) held ((a, observed) :: next))
    (hstage' : stage = .reserving (k.charged rules.exclusions c.work) held next)
    (hledger : shared.ledger = s.shared.ledger.apply
      (reservation rules now (k.charged rules.exclusions c.work) a observed)) :
    k.IsSafe rules.exclusions ⟨shared, before ++ { c with stage } :: after⟩ := by
  have hc := hs.charged c (by simp [hcallers])
  rw [hstage] at hc
  have hname : a ∈ c.stage.guarded := by
    rw [hstage]
    exact hc.mem_guarded (List.mem_cons_self ..)
  have ha : a ∈ (k.charged rules.exclusions c.work).quotas := hc.fits.2.2.subset (by simp)
  have hunder (quota : String) (hne : quota ≠ a.name) :
      shared.ledger.under quota = s.shared.ledger.under quota := by
    rw [hledger]
    exact under_reservation_of_ne hlive hne
  refine ⟨hguarded, ?_, Crowd.forall_mem_split (fun c' hc' => ?_) ?_, fun quota r => ?_⟩
  · rw [hledger]
    exact hs.books.reserve hk hlive hc.usage ha (hc.cleared _ (List.mem_cons_self ..))
  · -- the room of the others is in other quotas
    have hcharged := hs.charged c' (Crowd.mem_callers_of_split hcallers hc')
    refine ⟨hcharged.usage, hcharged.fits, fun e he => ?_⟩
    refine (hcharged.cleared e he).congr (hunder _ ?_)
    exact (hs.guarded.name_ne hcallers hc' hname (hcharged.mem_guarded he)).symm
  · rw [hstage']
    exact hc.reserved hk hunder
  · have hown : k.settledBy rules.exclusions quota r { c with stage } =
        k.settledBy rules.exclusions quota r c +
          if a.name = quota then
            (((k.charged rules.exclusions c.work).delta.restrict a.resources.toList).amount r).nanos
          else 0 := by
      rw [settledBy, settledBy, hstage, hstage']
      exact settled_reserving_cons ..
    have hsum := hs.settled quota r
    simp only [hcallers, List.map_append, List.map_cons, List.sum_append, List.sum_cons] at hsum
    simp only [List.map_append, List.map_cons, List.sum_append, List.sum_cons, hown]
    rw [hledger, held_reservation hlive, ← hsum]
    omega

theorem IsSafe.step (hk : k.IsProper) (hs : k.IsSafe rules.exclusions s) (h : k.Step rules s t) :
    k.IsSafe rules.exclusions t := by
  obtain ⟨m, hm, hstep⟩ := h
  obtain ⟨before, c, after, shared, stage, hcallers, hlength, rfl, hadvance⟩ := Crowd.of_step? hstep
  have hguarded := hs.guarded.step hstep
  have hc := hs.charged c (by simp [hcallers])
  have hanswer := hm.answer c (by simp [hcallers, ← hlength])
  rcases hc.advance hk hs.books hm.live hanswer hadvance with
    ⟨hunder, hcharged, hsettled⟩ | ⟨held, a, observed, next, hstage, hstage', hledger⟩
  · exact hs.quiet hcallers hguarded hunder hcharged hsettled
  · exact hs.reserve hk hcallers hguarded hm.live hstage hstage' hledger

theorem IsSafe.run (hk : k.IsProper) (hs : k.IsSafe rules.exclusions s)
    (h : Relation.ReflTransGen (k.Step rules) s t) : k.IsSafe rules.exclusions t := by
  induction h with
  | refl => exact hs
  | tail _ hstep ih => exact ih.step hk hstep

/-! ### What was admitted -/

/-- What a call adds of a resource to the namespaces that a quota selects. -/
def adds (k : Still) (x : Exclusions) (q : Quota) (r : ResourceName) : Work → Int
  | .usage name delta => if k.governs x name q then (delta.amount r).nanos else 0
  | _ => 0

/-- What was admitted of a resource into the namespaces that a quota selects. -/
def admitted (k : Still) (x : Exclusions) (q : Quota) (r : ResourceName) (s : Crowd) : Int :=
  ((s.callers.filter (·.isAdmitted)).map fun c => k.adds x q r c.work).sum

section

variable {x : Exclusions} {u : String → List Reservation} {q : Quota} {r : ResourceName}
  {hard : ResourceList} {c : Caller}

theorem IsCharged.settledBy_nonneg (hc : k.IsCharged x u c.work c.dryRun c.stage) (quota : String)
    (r : ResourceName) : 0 ≤ k.settledBy x quota r c := by
  obtain ⟨hw, hfits, -⟩ := hc
  have hnonneg := Applicable.share_nonneg (delta_nonneg (k := k) (x := x) hw) quota r
  rw [settledBy, settled.eq_def]
  split
  case h_1 charge held next hstage =>
    rw [hstage] at hfits
    obtain ⟨before, hsplit⟩ := hfits.2.2
    rw [← hsplit, Applicable.share_append]
    have := hnonneg before
    omega
  case h_2 =>
    split
    · exact hnonneg _
    · exact Int.le_refl 0

theorem settledBy_of_isAdmitted (hk : k.IsProper) (hw : c.work.IsUsage) (hq : q ∈ k.quotas)
    (hhard : q.hardLimits = .ok hard) (hr : hard.contains r = true) (hc : c.isAdmitted = true) :
    k.settledBy x q.name r c = k.adds x q r c.work := by
  have hshare : Applicable.share (k.charged x c.work).delta q.name r (k.charged x c.work).quotas =
      k.adds x q r c.work := by
    cases hwork : c.work with
    | usage name delta =>
      have hall : Applicable.share delta.nonZero q.name r
          (k.charge x name delta.nonZero).quotas = _ :=
        Applicable.share_sorted (k.governs x name) hk.names_nodup hq hhard hr
      rw [ResourceList.amount_nonZero] at hall
      exact hall
    | relabel old new => rw [hwork] at hw; cases hw
    | quota new old => rw [hwork] at hw; cases hw
  rw [Caller.isAdmitted] at hc
  rw [settledBy, settled.eq_def]
  split
  case h_1 charge held next hstage =>
    rw [hstage] at hc
    simp [Stage.isAllowed] at hc
  case h_2 => rw [if_pos hc, hshare]

end

theorem sum_filter_le {α : Type} {p : α → Bool} {f g : α → Int} {as : List α}
    (hle : ∀ a ∈ as, p a = true → f a ≤ g a) (hnonneg : ∀ a ∈ as, 0 ≤ g a) :
    ((as.filter p).map f).sum ≤ (as.map g).sum := by
  induction as with
  | nil => exact Int.le_refl 0
  | cons a rest ih =>
    have hrest := ih (fun b hb => hle b (List.mem_cons_of_mem _ hb))
      fun b hb => hnonneg b (List.mem_cons_of_mem _ hb)
    have ha := hnonneg a (List.mem_cons_self ..)
    rw [List.map_cons, List.sum_cons]
    by_cases hp : p a = true
    · have := hle a (List.mem_cons_self ..) hp
      rw [List.filter_cons_of_pos hp, List.map_cons, List.sum_cons]
      omega
    · rw [List.filter_cons_of_neg hp]
      omega

/-- However the steps of the calls interleave: as soon as something of a limited resource was
admitted under a quota, what is in use and all that was admitted are within the limit. -/
theorem total_add_admitted_le (hk : k.IsProper) (hworks : ∀ e ∈ works, e.1.IsUsage)
    (hrun : Relation.ReflTransGen (k.Step rules) (Crowd.start works) s) {q : Quota}
    (hq : q ∈ k.quotas) {hard : ResourceList} (hhard : q.hardLimits = .ok hard) {r : ResourceName}
    {limit : Quantity} (hlimit : hard.get? r = some limit)
    (hsome : ∃ c ∈ s.callers, c.isAdmitted = true ∧ 0 < k.adds rules.exclusions q r c.work) :
    k.total rules.exclusions q r + k.admitted rules.exclusions q r s ≤ limit.nanos := by
  have hs := (isSafe_start hworks).run hk hrun
  have hr : hard.contains r = true := (Table.contains_iff hard).2 ⟨limit, hlimit⟩
  have hsettled (c : Caller) (hc : c ∈ s.callers) (ha : c.isAdmitted = true) :
      k.settledBy rules.exclusions q.name r c = k.adds rules.exclusions q r c.work :=
    settledBy_of_isAdmitted hk (hs.charged c hc).usage hq hhard hr ha
  have hnonneg (c : Caller) (hc : c ∈ s.callers) : 0 ≤ k.settledBy rules.exclusions q.name r c :=
    (hs.charged c hc).settledBy_nonneg q.name r
  have hheld := hs.settled q.name r
  have hle : k.admitted rules.exclusions q r s ≤
      Ledger.held (s.shared.ledger.under q.name) r := by
    rw [← hheld]
    exact sum_filter_le (fun c hc ha => (hsettled c hc ha).ge) hnonneg
  have hpos : 0 < Ledger.held (s.shared.ledger.under q.name) r := by
    obtain ⟨c, hc, ha, hadds⟩ := hsome
    rw [← hheld]
    refine lt_of_lt_of_le ((hsettled c hc ha).symm ▸ hadds) ?_
    refine List.single_le_sum (fun n hn => ?_) _ (List.mem_map.2 ⟨c, hc, rfl⟩)
    obtain ⟨c', hc', rfl⟩ := List.mem_map.1 hn
    exact hnonneg c' hc'
  have hwithin := hs.books.within q hq hard hhard r limit hlimit hpos
  omega

/-! Runs can be computed: what the cluster tells a call is determined by its stage. -/

def told (k : Still) (x : Exclusions) : Stage → Answer
  | .listing _ _ => .listed k.namespaces k.quotas
  | .reading charge _ _ a _ _ =>
    .measured (Snapshot.measured (Scope.resolve x a.quota charge.listing).aggregated k.usage
      a.resources)
  | _ => .proceed

/-- The call in some place takes a step, unless something has expired. -/
def next? (k : Still) (rules : Rules) (now : Now) (s : Crowd) (place : Nat) : Option Crowd :=
  if s.shared.ledger.values.all (·.all (·.isLive now.millis)) then
    s.callers[place]?.bind fun c => s.step? rules ⟨place, now, k.told rules.exclusions c.stage⟩
  else none

theorem step_of_next? {place : Nat} (h : k.next? rules now s place = some t) :
    k.Step rules s t := by
  rw [next?] at h
  split at h
  case isFalse => cases h
  case isTrue hlive =>
    obtain ⟨c, hc, hstep⟩ := Option.bind_eq_some_iff.1 h
    refine ⟨_, ⟨fun c' hc' => ?_, fun quota y hy => ?_⟩, hstep⟩
    · obtain rfl : c = c' := Option.some.inj (hc.symm.trans hc')
      cases hstage : c.stage with
      | listing name delta => exact .listed
      | reading charge held checked a since next => exact .measured
      | _ => exact .proceed
    · cases hget : s.shared.ledger.get? quota with
      | none => simp [Ledger.under, hget] at hy
      | some rs =>
        have hy : y ∈ rs := by simpa [Ledger.under, hget] using hy
        have hmem := (Table.mem_values_iff _).2 ⟨quota, hget⟩
        exact List.all_eq_true.1 (List.all_eq_true.1 hlive rs hmem) y hy

theorem run_of_foldlM {places : List Nat} (h : places.foldlM (k.next? rules now) s = some t) :
    Relation.ReflTransGen (k.Step rules) s t := by
  induction places generalizing s with
  | nil =>
    cases h
    exact .refl
  | cons place rest ih =>
    obtain ⟨u, hu, hrest⟩ := Option.bind_eq_some_iff.1 h
    exact (ih hrest).head (step_of_next? hu)

private def twoPodsLimit : Quota :=
  ⟨⟨some "team", none, none, none, none, []⟩, ⟨none, Table.ofList [("pods", "2")]⟩, none⟩

private def onePodLeft : Still where
  namespaces := [⟨"ns", Table.empty⟩]
  quotas := [twoPodsLimit]
  usage _ := .ofPairs [(.pods, .one)]

private def twoPodsOrOne : List (Work × Bool) :=
  [(.usage "ns" (.ofPairs [(.pods, .ofUnits 2)]), false),
    (.usage "ns" (.ofPairs [(.pods, .one)]), false)]

private def plainRules : Rules := ⟨⟨none, []⟩, 15000, 30000⟩

private theorem hardLimits_twoPodsLimit :
    twoPodsLimit.hardLimits = .ok (.ofPairs [(.pods, .ofUnits 2)]) := by
  decide +kernel

private theorem isProper_onePodLeft : onePodLeft.IsProper where
  names_nodup := by decide
  unsynced q hq := by
    rw [List.mem_singleton.1 hq]
    rfl
  limited q hq hard hhard := by
    rw [List.mem_singleton.1 hq, hardLimits_twoPodsLimit] at hhard
    rw [← Except.ok.inj hhard]
    decide +kernel
  usage_nonneg _ := by
    change (ResourceList.ofPairs [(.pods, .one)]).Nonneg
    decide +kernel

/-- The call for two pods takes the lock first and is denied, while the call for one waits. -/
theorem total_add_admitted_le_onePodLeft :
    ∃ s, Relation.ReflTransGen (onePodLeft.Step plainRules) (Crowd.start twoPodsOrOne) s ∧
      (∃ c ∈ s.callers, c.isAdmitted = true ∧
        0 < onePodLeft.adds plainRules.exclusions twoPodsLimit .pods c.work) ∧
      onePodLeft.total plainRules.exclusions twoPodsLimit .pods +
        onePodLeft.admitted plainRules.exclusions twoPodsLimit .pods s ≤
          (Quantity.ofUnits 2).nanos := by
  have hrun : ((([0, 1, 0, 1] ++ List.replicate 6 0 ++ List.replicate 9 1).foldlM
      (onePodLeft.next? plainRules ⟨0, ⟨0, 0⟩⟩) (Crowd.start twoPodsOrOne)).any fun s : Crowd =>
        s.callers.any fun c => c.isAdmitted &&
          decide (0 < onePodLeft.adds plainRules.exclusions twoPodsLimit .pods c.work)) = true := by
    decide +kernel
  obtain ⟨s, hs, hsome⟩ := (Option.any_eq_true _ _).1 hrun
  obtain ⟨c, hc, hboth⟩ := List.any_eq_true.1 hsome
  obtain ⟨hadmitted, hadds⟩ := Bool.and_eq_true_iff.1 hboth
  have hsteps := run_of_foldlM hs
  have hworks : ∀ e ∈ twoPodsOrOne, e.1.IsUsage := by decide +kernel
  have hcall := And.intro hadmitted (of_decide_eq_true hadds)
  exact ⟨s, hsteps, ⟨c, hc, hcall⟩,
    total_add_admitted_le isProper_onePodLeft hworks hsteps (List.mem_singleton_self _)
      hardLimits_twoPodsLimit (by decide +kernel) ⟨c, hc, hcall⟩⟩

end Still

end SharedQuota
