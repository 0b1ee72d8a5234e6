import SharedQuota.Proofs.Engine.Guard
import Mathlib.Logic.Relation

/-!
A call that adds usage while no other runs, and of which no read fails. It goes on until it ends
(`leads_locking_finished`): it gets every lock at once, and then compares its quotas one after the
other, each with what is under that quota at the start.
-/

namespace SharedQuota

namespace Locks

/-- A lock that no handle is on is taken by the first that waits for it. -/
theorem holds_get_wait {l : Locks} (hl : l.Sound) {name : String}
    (hfree : ∀ h ∈ l.handles, h.name ≠ name) :
    ((l.get name).2.wait (l.get name).1).holds (l.get name).1 = true := by
  obtain ⟨lock, hhandles⟩ := handles_get l name
  have hl' := hl.get name
  have hnew : ⟨(l.get name).1, name, lock, .idle⟩ ∈ (l.get name).2.handles := by simp [hhandles]
  have hheld : ¬ (l.get name).2.isHeld lock = true := fun hheld => by
    obtain ⟨h, hh, hlock, huse⟩ := isHeld_iff.1 hheld
    have hsame := hl'.mapped h hh
    rw [hlock] at hsame
    rw [hhandles, List.mem_append, List.mem_singleton] at hh
    rcases hh with hh | rfl
    · exact hfree h hh (hl'.map_injective hsame (hl'.mapped _ hnew))
    · cases huse
  have hwait := hl'.wait (l.get name).1
  have hholding : ⟨(l.get name).1, name, lock, .holding⟩ ∈
      ((l.get name).2.wait (l.get name).1).handles := by
    rw [wait_of_find? (hl'.find?_eq_some hnew), if_neg hheld]
    simp
  rw [holds, hwait.find?_eq_some hholding]
  rfl

theorem name_of_mem_get_wait {l : Locks} {name : String} {h : Handle}
    (hh : h ∈ ((l.get name).2.wait (l.get name).1).handles) :
    h.name = name ∨ ∃ h' ∈ l.handles, h'.name = h.name := by
  obtain ⟨lock, hhandles⟩ := handles_get l name
  have hget (h : Handle) (hh : h ∈ (l.get name).2.handles) :
      h.name = name ∨ ∃ h' ∈ l.handles, h'.name = h.name := by
    rw [hhandles, List.mem_append, List.mem_singleton] at hh
    rcases hh with hh | rfl
    · exact .inr ⟨h, hh, rfl⟩
    · exact .inl rfl
  cases hf : (l.get name).2.find? (l.get name).1 with
  | none =>
    rw [wait_of_none hf] at hh
    exact hget h hh
  | some x =>
    rw [wait_of_find? hf, List.mem_append, List.mem_singleton] at hh
    rcases hh with hh | rfl
    · exact hget h (mem_others.1 hh).1
    · exact hget x (mem_of_find? hf).1

end Locks

/-- What a call finds: the cluster, and by the name of each quota when its status is looked at, when
a measurement of its usage arrives, and what that shows of a namespace. -/
structure Findings where
  namespaces : List Namespace
  quotas : List Quota
  asked : String → Now
  read : String → Now
  usage : String → String → ResourceList
  /-- When any other step is taken. -/
  otherwise : Stage → Now

namespace Findings

variable (f : Findings) (rules : Rules) (dryRun : Bool)

def now : Stage → Now
  | .checking _ _ _ (a :: _) => f.asked a.name
  | .reading _ _ _ a _ _ => f.read a.name
  | stage => f.otherwise stage

/-- What is measured of the namespaces that count for a quota. -/
def measured (q : Quota) : Table String ResourceList :=
  (Scope.resolve rules.exclusions q f.namespaces).aggregated.map fun name _ => f.usage q.name name

def told : Stage → Answer
  | .listing _ _ => .listed f.namespaces f.quotas
  | .reading _ _ _ a _ _ => .measured (f.measured rules a.quota)
  | _ => .proceed

def next? (p : Shared × Stage) : Option (Shared × Stage) :=
  (Engine.step rules (f.now p.2) p.1 ⟨dryRun, p.2⟩ (f.told rules p.2)).map fun r =>
    (r.1, r.2.1.stage)

def Leads : Shared × Stage → Shared × Stage → Prop :=
  Relation.ReflTransGen fun p p' => f.next? rules dryRun p = some p'

/-- Some work comes to an end with a result. -/
def Returns (shared : Shared) (work : Work) (result : Except Denial Unit) : Prop :=
  ∃ shared', f.Leads rules dryRun (shared, work.start) (shared', .finished result)

variable {f rules dryRun} {shared : Shared} {work : Work} {held : List Nat} {charge : Charge}
  {a : Applicable} {checked : List (Applicable × ResourceList)} {next : List Applicable}

theorem Returns.unique {result result' : Except Denial Unit}
    (h : f.Returns rules dryRun shared work result)
    (h' : f.Returns rules dryRun shared work result') : result = result' := by
  obtain ⟨shared₁, h⟩ := h
  obtain ⟨shared₂, h'⟩ := h'
  have hends {p : Shared × Stage} {shared : Shared} {result : Except Denial Unit}
      (h : f.Leads rules dryRun (shared, .finished result) p) : p = (shared, .finished result) := by
    rcases h.cases_head with heq | ⟨p', hp', -⟩
    · exact heq.symm
    · cases hp'
  have hunique : Relator.RightUnique fun p p' => f.next? rules dryRun p = some p' :=
    fun p p₁ p₂ h₁ h₂ => Option.some.inj (h₁.symm.trans h₂)
  rcases h.total_of_right_unique hunique h' with h | h
  · cases hends h
    rfl
  · cases hends h
    rfl

/-! ### Locks -/

theorem leads_releasing (held : List Nat) (shared : Shared) (result : Except Denial Unit) :
    ∃ shared',
      f.Leads rules dryRun (shared, .releasing held result) (shared', .finished result) := by
  induction held generalizing shared with
  | nil => exact ⟨shared, .single rfl⟩
  | cons handle held ih =>
    obtain ⟨shared', h⟩ := ih { shared with locks := shared.locks.drop handle }
    exact ⟨shared', .head rfl h⟩

theorem next?_waiting {handle : Nat} (h : shared.locks.holds handle = true) :
    f.next? rules dryRun (shared, .waiting charge held handle a next) =
      some (shared, .locking charge (held ++ [handle]) next) := by
  simp [next?, told, Engine.step, h]

/-- While nobody else is on the locks of the quotas, they are taken one after the other. -/
theorem leads_locking (hl : shared.locks.Sound) (hnodup : (next.map (·.name)).Nodup)
    (hfree : ∀ a ∈ next, ∀ h ∈ shared.locks.handles, h.name ≠ a.name) :
    ∃ shared' held', shared'.ledger = shared.ledger ∧
      f.Leads rules dryRun (shared, .locking charge held next)
        (shared', .checking charge held' [] charge.quotas) := by
  induction next generalizing shared held with
  | nil => exact ⟨shared, held, rfl, .single rfl⟩
  | cons a next ih =>
    obtain ⟨hname, hrest⟩ := List.nodup_cons.1 hnodup
    have hholds := Locks.holds_get_wait hl fun h hh => hfree a (List.mem_cons_self ..) h hh
    have hfree' : ∀ b ∈ next,
        ∀ h ∈ ((shared.locks.get a.name).2.wait (shared.locks.get a.name).1).handles,
          h.name ≠ b.name := fun b hb h hh hsame => by
      rcases Locks.name_of_mem_get_wait hh with heq | ⟨h', hh', heq⟩
      · exact hname (List.mem_map.2 ⟨b, hb, hsame.symm.trans heq⟩)
      · exact hfree b (List.mem_cons_of_mem _ hb) h' hh' (heq.trans hsame)
    obtain ⟨shared', held', hledger, hleads⟩ := @ih
      ⟨shared.ledger, (shared.locks.get a.name).2.wait (shared.locks.get a.name).1⟩
      (held ++ [(shared.locks.get a.name).1]) ((hl.get a.name).wait _) hrest hfree'
    exact ⟨shared', held', hledger, .head rfl (.head (next?_waiting hholds) hleads)⟩

/-! ### Comparisons -/

/-- What is read of the usage of a quota for some resources, and when. -/
def reading (f : Findings) (rules : Rules) (q : Quota) (resources : KeySet ResourceName) :
    Now × Snapshot :=
  let scope := Scope.resolve rules.exclusions q f.namespaces
  match Snapshot.ofStatus? q scope resources rules.staleness (f.asked q.name).wall with
  | some s => (f.asked q.name, s)
  | none => (f.read q.name, .recompute (f.measured rules q) resources)

/-- What comes of the comparison with a quota, when something is reserved under it. -/
def exceeded? (f : Findings) (rules : Rules) (l : Ledger) (charge : Charge) (a : Applicable) :
    Option Exceeded :=
  (Engine.check (f.reading rules a.quota a.resources).1 l charge a
    (f.reading rules a.quota a.resources).2).1

theorem exceeded?_congr {l l' : Ledger} (h : l.under a.name = l'.under a.name) :
    f.exceeded? rules l charge a = f.exceeded? rules l' charge a := by
  simp only [exceeded?, Engine.check, Ledger.pending, Ledger.unseen, h]

/-- The stage behind the comparison with a quota. -/
def compared (f : Findings) (rules : Rules) (l : Ledger) (charge : Charge) (held : List Nat)
    (checked : List (Applicable × ResourceList)) (a : Applicable) (next : List Applicable) :
    Stage :=
  match f.exceeded? rules l charge a with
  | some e => .releasing held (.error (.exceeded e))
  | none => .checking charge held
      (checked ++ [(a, (f.reading rules a.quota a.resources).2.usedIn charge.name)]) next

theorem next?_checking (hlisting : charge.listing = f.namespaces) :
    f.next? rules dryRun (shared, .checking charge held checked (a :: next)) =
      match Snapshot.ofStatus? a.quota (Scope.resolve rules.exclusions a.quota f.namespaces)
        a.resources rules.staleness (f.asked a.name).wall with
      | some s => some (
        { shared with ledger := (Engine.check (f.asked a.name) shared.ledger charge a s).2 },
        (Engine.decide (f.asked a.name) shared ⟨dryRun, .checking charge held checked (a :: next)⟩
          charge held checked a next (f.asked a.name).millis s).2.1.stage)
      | none => some (shared, .reading charge held checked a (f.asked a.name).millis next) := by
  simp only [next?, told, now, Engine.step, hlisting]
  cases Snapshot.ofStatus? a.quota (Scope.resolve rules.exclusions a.quota f.namespaces)
    a.resources rules.staleness (f.asked a.name).wall <;> rfl

/-- A call whose turn has come for a quota compares itself with that. It reserves nothing, and
releases nothing under any other. -/
theorem leads_compared (hlisting : charge.listing = f.namespaces) :
    ∃ shared', f.Leads rules dryRun (shared, .checking charge held checked (a :: next))
        (shared', f.compared rules shared.ledger charge held checked a next) ∧
      ∀ quota, shared'.ledger.under quota ⊆ shared.ledger.under quota ∧
        (quota ≠ a.name → shared'.ledger.under quota = shared.ledger.under quota) := by
  have hledger (now : Now) (s : Snapshot) (quota : String) :
      (Engine.check now shared.ledger charge a s).2.under quota ⊆ shared.ledger.under quota ∧
        (quota ≠ a.name →
          (Engine.check now shared.ledger charge a s).2.under quota =
            shared.ledger.under quota) := by
    rw [Engine.check, Ledger.under_pending]
    refine ⟨?_, fun hne => if_neg hne⟩
    split
    case isTrue heq => exact heq ▸ List.filter_subset_self _
    case isFalse => exact List.Subset.refl _
  have hnext := @next?_checking f rules dryRun shared held charge a checked next hlisting
  refine ⟨{ shared with ledger := (Engine.check (f.reading rules a.quota a.resources).1
    shared.ledger charge a (f.reading rules a.quota a.resources).2).2 }, ?_, hledger _ _⟩
  simp only [compared, exceeded?, reading]
  cases hs : Snapshot.ofStatus? a.quota (Scope.resolve rules.exclusions a.quota f.namespaces)
      a.resources rules.staleness (f.asked a.quota.name).wall with
  | some s =>
    rw [Applicable.name, hs] at hnext
    exact .single hnext
  | none =>
    rw [Applicable.name, hs] at hnext
    exact .head hnext (.single rfl)

/-- The comparisons end at the first quota that is exceeded. What is under the quotas that follow is
what was there at first. -/
theorem leads_checking (hlisting : charge.listing = f.namespaces) (l : Ledger)
    (hnodup : (next.map (·.name)).Nodup)
    (hunder : ∀ a ∈ next, shared.ledger.under a.name = l.under a.name) :
    ∃ shared', (∀ quota, shared'.ledger.under quota ⊆ shared.ledger.under quota) ∧
      match next.findSome? (f.exceeded? rules l charge) with
      | some e => f.Leads rules dryRun (shared, .checking charge held checked next)
          (shared', .releasing held (.error (.exceeded e)))
      | none => ∃ checked', checked'.map (·.1) = checked.map (·.1) ++ next ∧
          f.Leads rules dryRun (shared, .checking charge held checked next)
            (shared', .checking charge held checked' []) := by
  induction next generalizing shared checked with
  | nil => exact ⟨shared, fun _ => List.Subset.refl _, checked, (List.append_nil _).symm, .refl⟩
  | cons a next ih =>
    obtain ⟨hname, hrest⟩ := List.nodup_cons.1 hnodup
    have hsame : f.exceeded? rules shared.ledger charge a = f.exceeded? rules l charge a :=
      exceeded?_congr (hunder a (List.mem_cons_self ..))
    obtain ⟨shared', hleads, hledger⟩ :=
      @leads_compared f rules dryRun shared held charge a checked next hlisting
    rw [compared, hsame] at hleads
    rw [List.findSome?_cons]
    cases he : f.exceeded? rules l charge a with
    | some e =>
      rw [he] at hleads
      exact ⟨shared', fun quota => (hledger quota).1, hleads⟩
    | none =>
      rw [he] at hleads
      have hunder' : ∀ b ∈ next, shared'.ledger.under b.name = l.under b.name := fun b hb => by
        have hne : b.name ≠ a.name := fun hsame => hname (List.mem_map.2 ⟨b, hb, hsame⟩)
        rw [(hledger b.name).2 hne, hunder b (List.mem_cons_of_mem _ hb)]
      obtain ⟨shared'', hledger', hend⟩ := @ih shared' (checked ++
        [(a, (f.reading rules a.quota a.resources).2.usedIn charge.name)]) hrest hunder'
      refine ⟨shared'', fun quota => List.Subset.trans (hledger' quota) (hledger quota).1, ?_⟩
      dsimp only at hleads ⊢
      split at hend
      case h_1 e heq =>
        rw [heq]
        exact hleads.trans hend
      case h_2 heq =>
        rw [heq]
        obtain ⟨checked', hchecked, hend⟩ := hend
        exact ⟨checked', by simpa using hchecked, hleads.trans hend⟩

theorem leads_reserving (shared : Shared) :
    ∃ shared', f.Leads rules dryRun (shared, .reserving charge held checked)
      (shared', .releasing held (.ok ())) := by
  induction checked generalizing shared with
  | nil => exact ⟨shared, .single rfl⟩
  | cons entry checked ih =>
    obtain ⟨ledger, hnext⟩ : ∃ ledger,
        f.next? rules dryRun (shared, .reserving charge held (entry :: checked)) =
          some ({ shared with ledger }, .reserving charge held checked) := ⟨_, rfl⟩
    obtain ⟨shared', h⟩ := ih { shared with ledger }
    exact ⟨shared', .head hnext h⟩

theorem leads_passed (shared : Shared) :
    ∃ shared', f.Leads rules dryRun (shared, .checking charge held checked [])
      (shared', .releasing held (.ok ())) := by
  cases dryRun with
  | true => exact ⟨shared, .single rfl⟩
  | false =>
    obtain ⟨shared', h⟩ := @leads_reserving f rules false held charge checked shared
    exact ⟨shared', .head rfl h⟩

/-! ### Results -/

/-- A call that is checked against quotas with names of their own either exceeds one of them or
comes to the end of its comparisons. -/
theorem leads_locking_checked (hlisting : charge.listing = f.namespaces)
    (hnodup : (charge.quotas.map (·.name)).Nodup) (hl : shared.locks.Sound)
    (hfree : shared.locks.handles = []) :
    ∃ shared' held, (∀ quota, shared'.ledger.under quota ⊆ shared.ledger.under quota) ∧
      match charge.quotas.findSome? (f.exceeded? rules shared.ledger charge) with
      | some e => f.Leads rules dryRun (shared, .locking charge [] charge.quotas)
          (shared', .releasing held (.error (.exceeded e)))
      | none => ∃ checked, checked.map (·.1) = charge.quotas ∧
          f.Leads rules dryRun (shared, .locking charge [] charge.quotas)
            (shared', .checking charge held checked []) := by
  obtain ⟨shared₁, held, hledger, hlocked⟩ :=
    @leads_locking f rules dryRun shared [] charge charge.quotas hl hnodup fun a _ h hh => by
      rw [hfree] at hh
      cases hh
  obtain ⟨shared₂, hkept, hchecked⟩ :=
    @leads_checking f rules dryRun shared₁ held charge [] charge.quotas hlisting shared.ledger
      hnodup fun a _ => by rw [hledger]
  refine ⟨shared₂, held, fun quota => hledger ▸ hkept quota, ?_⟩
  split at hchecked
  case h_1 => exact hlocked.trans hchecked
  case h_2 =>
    obtain ⟨checked, hmap, hchecked⟩ := hchecked
    exact ⟨checked, hmap, hlocked.trans hchecked⟩

def resultOf : Option Exceeded → Except Denial Unit
  | some e => .error (.exceeded e)
  | none => .ok ()

/-- It ends with the first quota that it exceeds. -/
theorem leads_locking_finished (hlisting : charge.listing = f.namespaces)
    (hnodup : (charge.quotas.map (·.name)).Nodup) (hl : shared.locks.Sound)
    (hfree : shared.locks.handles = []) :
    ∃ shared', f.Leads rules dryRun (shared, .locking charge [] charge.quotas)
      (shared', .finished (resultOf (charge.quotas.findSome?
        (f.exceeded? rules shared.ledger charge)))) := by
  obtain ⟨shared₁, held, -, hchecked⟩ :=
    @leads_locking_checked f rules dryRun shared charge hlisting hnodup hl hfree
  cases he : charge.quotas.findSome? (f.exceeded? rules shared.ledger charge) with
  | some e =>
    rw [he] at hchecked
    obtain ⟨shared₂, hend⟩ := leads_releasing held shared₁ (.error (.exceeded e))
    exact ⟨shared₂, hchecked.trans hend⟩
  | none =>
    rw [he] at hchecked
    obtain ⟨checked, -, hchecked⟩ := hchecked
    obtain ⟨shared₂, hpassed⟩ := @leads_passed f rules dryRun held charge checked shared₁
    obtain ⟨shared₃, hend⟩ := leads_releasing held shared₂ (.ok ())
    exact ⟨shared₃, (hchecked.trans hpassed).trans hend⟩

/-- What a call comes to alone, it can come to among others that do not move. -/
theorem exists_run?_of_leads {p p' : Shared × Stage} (h : f.Leads rules dryRun p p') {s : Crowd}
    {place : Nat} {c : Caller} (hc : s.callers[place]? = some c) (hshared : s.shared = p.1)
    (hstage : c.stage = p.2) (hdry : c.dryRun = dryRun) :
    ∃ ms t, s.run? rules ms = some t ∧ t.shared = p'.1 ∧
      ∀ m ∈ ms, ∃ stage, m.now = f.now stage := by
  induction h using Relation.ReflTransGen.head_induction_on generalizing s c with
  | refl => exact ⟨[], s, rfl, hshared, fun _ hm => nomatch hm⟩
  | @head p q hstep _ ih =>
    obtain ⟨r, hr, rfl⟩ := Option.map_eq_some_iff.1 hstep
    have hmove : s.step? rules ⟨place, f.now p.2, f.told rules p.2⟩ =
        some ⟨r.1, s.callers.set place { c with stage := r.2.1.stage }⟩ := by
      simp [Crowd.step?, hc, hshared, hstage, hdry, hr]
    have hplace : place < s.callers.length := (List.getElem?_eq_some_iff.1 hc).1
    obtain ⟨ms, t, hrun, ht, hnow⟩ := @ih
      ⟨r.1, s.callers.set place { c with stage := r.2.1.stage }⟩ { c with stage := r.2.1.stage }
      (by simp [hplace]) rfl rfl hdry
    refine ⟨_ :: ms, t, Option.bind_eq_some_iff.2 ⟨_, hmove, hrun⟩, ht, fun m hm => ?_⟩
    rcases List.mem_cons.1 hm with rfl | hm
    · exact ⟨p.2, rfl⟩
    · exact hnow m hm

end Findings

end SharedQuota
