import SharedQuota.Proofs.Ledger.Amount
import SharedQuota.Proofs.List

/-!
The ledger as the outcome of the operations on it. Each operation touches the list of one quota and
drops expired reservations of others (`under_pending`, `under_reserve`). After any operations the
unexpired reservations under a quota are those that were entered and that no later reading released
(`filter_isLive_under_run`).
-/

namespace SharedQuota

/-- What is live later was live before. -/
theorem Reservation.isLive_of_le {x : Reservation} {now next : Nat} (hle : now ≤ next)
    (h : x.isLive next = true) : x.isLive now = true := by
  simp only [isLive, decide_eq_true_eq] at h ⊢
  omega

namespace Ledger

variable (l : Ledger) (now : Nat)

/-! ### The list of one quota -/

@[simp] theorem under_empty (quota : String) : under Table.empty quota = [] := rfl

theorem get?_put (quota : String) (rs : List Reservation) (k : String) :
    (l.put quota rs).get? k =
      if k = quota then if rs.isEmpty then none else some rs else l.get? k := by
  cases rs with
  | nil => simp only [put, List.isEmpty_nil, if_true, Table.get?_erase]
  | cons r rest =>
    simp only [put, List.isEmpty_cons, Bool.false_eq_true, if_false, Table.get?_insert]

theorem under_put (quota : String) (rs : List Reservation) (k : String) :
    (l.put quota rs).under k = if k = quota then rs else l.under k := by
  rw [under, get?_put]
  by_cases h : k = quota
  · rw [if_pos h, if_pos h]
    cases rs <;> rfl
  · rw [if_neg h, if_neg h, under]

theorem under_prune (k : String) : (l.prune now).under k = (l.under k).filter (·.isLive now) := by
  simp only [under, prune, Table.get?_filter, Table.get?_map]
  cases l.get? k with
  | none => rfl
  | some rs =>
    cases h : rs.filter (·.isLive now) <;> simp [h, Option.filter]

theorem unseen_eq (quota : String) (s : Snapshot) (resources : KeySet ResourceName) :
    l.unseen now quota s resources =
      ((l.under quota).filter (·.isLive now)).filter fun x => !x.isObserved s resources :=
  filter_and ..

theorem under_pending (quota : String) (s : Snapshot) (resources : KeySet ResourceName)
    (k : String) :
    (l.pending now quota s resources).2.under k =
      if k = quota then l.unseen now quota s resources else l.under k :=
  under_put l quota _ k

def reserved? (wall : Time) (ttl : Nat) (quota name : String) (usage observed : ResourceList) :
    Option Reservation :=
  if usage.isEmpty then none
  else
    let earlier := (l.under quota).filter (·.isLive now)
    some ⟨name, usage, visibleAt earlier name usage observed, wall, now + ttl⟩

theorem eq_of_reserved? {wall : Time} {ttl : Nat} {quota name : String}
    {usage observed : ResourceList} {x : Reservation}
    (h : l.reserved? now wall ttl quota name usage observed = some x) :
    x = ⟨name, usage, visibleAt ((l.under quota).filter (·.isLive now)) name usage observed, wall,
      now + ttl⟩ := by
  rw [reserved?] at h
  split at h
  case isTrue => cases h
  case isFalse => exact (Option.some.inj h).symm

/-- What is entered holds the usage that is reserved, even if that is nothing. -/
theorem held_reserved? (wall : Time) (ttl : Nat) (quota name : String)
    (usage observed : ResourceList) (r : ResourceName) :
    held (l.reserved? now wall ttl quota name usage observed).toList r =
      (usage.amount r).nanos := by
  rw [reserved?]
  split
  case isTrue hempty => exact (ResourceList.nanos_amount_of_isEmpty hempty r).symm
  case isFalse => simp

theorem under_reserve (wall : Time) (ttl : Nat) (quota name : String)
    (usage observed : ResourceList) (k : String) :
    (l.reserve now wall ttl quota name usage observed).under k =
      (l.under k).filter (·.isLive now) ++
        if k = quota then (l.reserved? now wall ttl quota name usage observed).toList else [] := by
  cases h : usage.isEmpty with
  | true => by_cases hk : k = quota <;> simp [reserve, reserved?, h, under_prune, hk]
  | false =>
    by_cases hk : k = quota
    · subst hk
      simp [reserve, reserved?, h, under_put, under_prune]
    · simp [reserve, h, under_put, under_prune, hk]

/-- Where nothing was reserved there is one reservation then. -/
theorem exists_under_reserve {l : Ledger} {quota : String} {usage : ResourceList}
    (h : l.under quota = []) (husage : usage.isEmpty = false) (now : Nat) (wall : Time)
    (ttl : Nat) (name : String) (observed : ResourceList) :
    ∃ x, (l.reserve now wall ttl quota name usage observed).under quota = [x] ∧
      x.usage = usage ∧ x.expires = now + ttl := by
  simp [under_reserve, reserved?, h, husage]

/-! ### Operations -/

inductive Operation
  | pending (now : Nat) (quota : String) (s : Snapshot) (resources : KeySet ResourceName)
  | reserve (now : Nat) (wall : Time) (ttl : Nat) (quota name : String)
      (usage observed : ResourceList)

namespace Operation

def time : Operation → Nat
  | pending now _ _ _ => now
  | reserve now _ _ _ _ _ _ => now

/-- Whether the operation reads the quota and its reading accounts for the reservation. -/
def releases (quota : String) (r : Reservation) : Operation → Bool
  | pending _ q s resources => q == quota && r.isObserved s resources
  | reserve .. => false

def enters? (l : Ledger) (quota : String) : Operation → Option Reservation
  | pending .. => none
  | reserve now wall ttl q name usage observed =>
    if q = quota then l.reserved? now wall ttl q name usage observed else none

end Operation

def apply (l : Ledger) : Operation → Ledger
  | .pending now quota s resources => (l.pending now quota s resources).2
  | .reserve now wall ttl quota name usage observed =>
    l.reserve now wall ttl quota name usage observed

def run (l : Ledger) (ops : List Operation) : Ledger := ops.foldl apply l

@[simp] theorem run_nil : l.run [] = l := rfl

@[simp] theorem run_cons (op : Operation) (ops : List Operation) :
    l.run (op :: ops) = (l.apply op).run ops := rfl

theorem run_append (ops more : List Operation) : l.run (ops ++ more) = (l.run ops).run more :=
  List.foldl_append

/-- What is left under a quota of what was there, and what is new. Only what had not expired when
the operation was made is sure to be left. -/
theorem filter_isLive_under_apply {op : Operation} (h : op.time ≤ now) (quota : String) :
    ((l.apply op).under quota).filter (·.isLive now) =
      ((l.under quota).filter fun r => r.isLive now && !op.releases quota r) ++
        (op.enters? l quota).toList.filter (·.isLive now) := by
  cases op with
  | pending t q s resources =>
    have ht : t ≤ now := h
    simp only [apply, under_pending, Operation.enters?, Option.toList_none, List.filter_nil,
      List.append_nil, Operation.releases]
    by_cases hq : quota = q
    · subst hq
      simp only [if_true, unseen, List.filter_filter, beq_self_eq_true, Bool.true_and]
      refine List.filter_congr fun r _ => ?_
      by_cases hr : r.isLive now = true
      · simp [hr, Reservation.isLive_of_le ht hr]
      · simp [hr]
    · have hne : (q == quota) = false := beq_eq_false_iff_ne.2 (Ne.symm hq)
      simp [hq, hne]
  | reserve t wall ttl q name usage observed =>
    have ht : t ≤ now := h
    simp only [apply, under_reserve, Operation.enters?, Operation.releases, List.filter_append,
      List.filter_filter, Bool.not_false, Bool.and_true]
    congr 1
    · refine List.filter_congr fun r _ => ?_
      by_cases hr : r.isLive now = true
      · simp [hr, Reservation.isLive_of_le ht hr]
      · simp [hr]
    · by_cases hq : quota = q
      · simp [hq]
      · simp [hq, Ne.symm hq]

theorem mem_under_apply {op : Operation} {quota : String} {x : Reservation}
    (h : x ∈ (l.apply op).under quota) : x ∈ l.under quota ∨ op.enters? l quota = some x := by
  cases op with
  | pending t q s resources =>
    rw [apply, under_pending] at h
    split at h
    case isTrue hq =>
      subst hq
      exact .inl (List.mem_filter.1 h).1
    case isFalse => exact .inl h
  | reserve t wall ttl q name usage observed =>
    rw [apply, under_reserve, List.mem_append] at h
    rcases h with h | h
    · exact .inl (List.mem_filter.1 h).1
    · split at h
      case isTrue hq =>
        rw [Operation.enters?, if_pos hq.symm]
        exact .inr (Option.mem_toList.1 h)
      case isFalse => cases h

theorem under_apply_sublist (l : Ledger) (quota : String) (op : Operation) :
    ((l.apply op).under quota).Sublist (l.under quota ++ (op.enters? l quota).toList) := by
  cases op with
  | pending now q s resources =>
    rw [apply, under_pending, Operation.enters?, Option.toList_none, List.append_nil]
    split
    case isTrue hq => exact hq ▸ List.filter_sublist
    case isFalse => exact List.Sublist.refl _
  | reserve now wall ttl q name usage observed =>
    rw [apply, under_reserve]
    refine List.Sublist.append List.filter_sublist ?_
    by_cases hq : quota = q <;> simp [Operation.enters?, hq]

/-! ### Histories -/

/-- What holds of every reservation at first and of those that are entered holds of all. -/
theorem forall_mem_under_run {P : Reservation → Prop} {quota : String} {ops : List Operation}
    (hstart : ∀ x ∈ l.under quota, P x)
    (henters : ∀ (l : Ledger) (op : Operation) (x : Reservation),
      op.enters? l quota = some x → P x) :
    ∀ x ∈ (l.run ops).under quota, P x := by
  induction ops generalizing l with
  | nil => exact hstart
  | cons op ops ih =>
    refine ih (l.apply op) fun x hx => ?_
    rcases mem_under_apply l hx with hx | hx
    · exact hstart x hx
    · exact henters l op x hx

def isReleased (quota : String) (r : Reservation) (ops : List Operation) : Bool :=
  ops.any (·.releases quota r)

/-- The reservations entered under a quota, each with the operations that came after it. -/
def entered (quota : String) (l : Ledger) : List Operation → List (Reservation × List Operation)
  | [] => []
  | op :: ops => (op.enters? l quota).toList.map (·, ops) ++ entered quota (l.apply op) ops

/-- Nothing is under a quota but what was there and what was entered. -/
theorem under_run_sublist (l : Ledger) (quota : String) (ops : List Operation) :
    ((l.run ops).under quota).Sublist (l.under quota ++ (entered quota l ops).map (·.1)) := by
  induction ops generalizing l with
  | nil => simp [entered]
  | cons op ops ih =>
    refine (ih (l.apply op)).trans ?_
    rw [entered, List.map_append, ← List.append_assoc]
    refine List.Sublist.append ?_ (List.Sublist.refl _)
    rw [List.map_map]
    exact (under_apply_sublist l quota op).trans (by simp [Function.comp_def])

/-- The history of a quota tells its unexpired reservations: in the order in which they were
entered, those that were there or entered and that no later operation released. -/
theorem filter_isLive_under_run {ops : List Operation} (h : ∀ op ∈ ops, op.time ≤ now)
    (quota : String) :
    ((l.run ops).under quota).filter (·.isLive now) =
      ((l.under quota).filter fun r => r.isLive now && !isReleased quota r ops) ++
        ((entered quota l ops).filter fun e =>
          e.1.isLive now && !isReleased quota e.1 e.2).map (·.1) := by
  induction ops generalizing l with
  | nil => simp [isReleased, entered]
  | cons op ops ih =>
    have hop := filter_isLive_under_apply l now (h op (List.mem_cons_self ..)) quota
    rw [run_cons, ih (l.apply op) fun o ho => h o (List.mem_cons_of_mem _ ho),
      filter_and _ fun r => !isReleased quota r ops, hop,
      List.filter_append, List.filter_filter, entered, List.filter_append, List.map_append,
      List.append_assoc]
    congr 1
    · refine List.filter_congr fun r _ => ?_
      cases r.isLive now <;> cases hr : op.releases quota r <;>
        simp [isReleased, hr]
    · congr 1
      cases op.enters? l quota with
      | none => rfl
      | some r =>
        cases hl : r.isLive now <;> cases hr : isReleased quota r ops <;> simp [hl, hr]

end Ledger

end SharedQuota
