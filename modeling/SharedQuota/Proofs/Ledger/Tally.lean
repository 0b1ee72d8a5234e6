import SharedQuota.Proofs.Ledger.History

/-!
What a ledger answers, told by the calls on it. Main statement (`Ledger.tallies`): whatever was
reserved and read before, the pending usage of a quota is the sum of what its reserve calls have
reserved that has not expired and that no reading of the quota since, this one included, accounts
for. When an operation drops something is never seen in the answers.
-/

namespace SharedQuota

namespace Ledger

/-! ### The sum -/

/-- What some reservations add up to. -/
def sum (rs : List Reservation) : ResourceList :=
  rs.foldl (fun sum x => sum.addAll x.usage) Table.empty

theorem total_eq_restrict (rs : List Reservation) (resources : KeySet ResourceName) :
    total rs resources.toList = (sum rs).restrict resources.toList := by
  have hcontains (r : ResourceName) : (total rs resources.toList).contains r = true ↔
      ((sum rs).restrict resources.toList).contains r = true := by
    have hempty : ¬ (Table.empty : ResourceList).contains r = true := nofun
    rw [total, sum, ResourceList.contains_foldl_addAll fun x : Reservation =>
      x.usage.restrict resources.toList, ResourceList.contains_restrict,
      ResourceList.contains_foldl_addAll fun x : Reservation => x.usage, or_iff_right hempty,
      or_iff_right hempty]
    simp only [ResourceList.contains_restrict]
    constructor
    · rintro ⟨x, hx, hr, h⟩
      exact ⟨hr, x, hx, h⟩
    · rintro ⟨hr, x, hx, h⟩
      exact ⟨x, hx, hr, h⟩
  -- sums saturate, so both sides are compared as they are added up and not as whole numbers
  refine ResourceList.ext_amount hcontains fun r => ?_
  by_cases hr : r ∈ resources.toList
  · rw [ResourceList.amount_restrict _ resources.toList_nodup, if_pos hr, total, sum,
      ResourceList.amount_foldl_addAll fun x : Reservation => x.usage.restrict resources.toList,
      ResourceList.amount_foldl_addAll fun x : Reservation => x.usage]
    simp only [ResourceList.amount_restrict _ resources.toList_nodup, if_pos hr]
  · have hnot : ¬ ((sum rs).restrict resources.toList).contains r = true := fun h =>
      hr ((ResourceList.contains_restrict _ _ r).1 h).1
    rw [ResourceList.amount_of_not_contains hnot,
      ResourceList.amount_of_not_contains fun h => hnot ((hcontains r).1 h)]

/-! ### The calls that reserved -/

/-- The reservations of a quota that count at an instant: they have not expired, and no operation
since they were entered is a reading of the quota that accounts for them. -/
def counted (quota : String) (now : Nat) (ops : List Operation) : List Reservation :=
  ((entered quota Table.empty ops).filter fun e =>
    e.1.isLive now && !isReleased quota e.1 e.2).map (·.1)

variable {l l' : Ledger} {quota : String} {ops later : List Operation} {now : Nat}
  {x : Reservation}

theorem filter_isLive_under_run_empty (h : ∀ op ∈ ops, op.time ≤ now) :
    ((run Table.empty ops).under quota).filter (·.isLive now) = counted quota now ops := by
  rw [filter_isLive_under_run _ _ h, under_empty, List.filter_nil, List.nil_append, counted]

theorem mem_entered_iff : (x, later) ∈ entered quota l ops ↔
    ∃ before op, ops = before ++ op :: later ∧ op.enters? (l.run before) quota = some x := by
  induction ops generalizing l with
  | nil => simp [entered]
  | cons op ops ih =>
    rw [entered, List.mem_append, ih]
    simp only [List.mem_map, Option.mem_toList, Prod.mk.injEq]
    constructor
    · rintro (⟨_, hx, rfl, rfl⟩ | ⟨before, op', rfl, hx⟩)
      · exact ⟨[], op, rfl, hx⟩
      · exact ⟨op :: before, op', rfl, hx⟩
    · rintro ⟨_ | ⟨op'', before⟩, op', hops, hx⟩
      · obtain ⟨rfl, rfl⟩ := List.cons.inj hops
        exact .inl ⟨x, hx, rfl, rfl⟩
      · obtain ⟨rfl, rfl⟩ := List.cons.inj hops
        exact .inr ⟨before, op', rfl, hx⟩

theorem length_lt_of_mem_entered (h : (x, later) ∈ entered quota l ops) :
    later.length < ops.length := by
  obtain ⟨before, op, rfl, -⟩ := mem_entered_iff.1 h
  simp only [List.length_append, List.length_cons]
  omega

/-- The reservations are entered in the order of the calls. -/
theorem pairwise_entered (quota : String) (l : Ledger) (ops : List Operation) :
    (entered quota l ops).Pairwise fun e e' => e'.2.length < e.2.length := by
  induction ops generalizing l with
  | nil => exact .nil
  | cons op ops ih =>
    rw [entered, List.pairwise_append]
    refine ⟨?_, ih (l.apply op), fun e he e' he' => ?_⟩
    · cases op.enters? l quota with
      | none => exact .nil
      | some x => exact List.pairwise_singleton _ _
    · obtain ⟨_, -, rfl⟩ := List.mem_map.1 he
      exact length_lt_of_mem_entered he'

theorem enters?_eq_some_iff {op : Operation} : op.enters? l quota = some x ↔
    ∃ t wall ttl name usage observed, op = .reserve t wall ttl quota name usage observed ∧
      usage.isEmpty = false ∧
      x = ⟨name, usage, visibleAt ((l.under quota).filter (·.isLive t)) name usage observed, wall,
        t + ttl⟩ := by
  cases op with
  | pending => simp [Operation.enters?]
  | reserve t wall ttl q name usage observed =>
    simp only [Operation.enters?, reserved?]
    constructor
    · intro h
      split at h
      case isFalse => cases h
      case isTrue hq =>
        subst hq
        split at h
        case isTrue => cases h
        case isFalse hempty =>
          exact ⟨t, wall, ttl, name, usage, observed, rfl, Bool.not_eq_true _ ▸ hempty,
            (Option.some.inj h).symm⟩
    · rintro ⟨_, _, _, _, _, _, hop, hempty, rfl⟩
      cases hop
      simp [hempty]

/-! ### Calls on other quotas -/

def Operation.target : Operation → String
  | pending _ quota _ _ => quota
  | reserve _ _ _ quota _ _ _ => quota

/-- Two ledgers hold the same of a quota, apart from what has expired. -/
def AgreesAt (quota : String) (now : Nat) (l l' : Ledger) : Prop :=
  (l.under quota).filter (·.isLive now) = (l'.under quota).filter (·.isLive now)

theorem AgreesAt.mono (h : AgreesAt quota now l l') {next : Nat} (hle : now ≤ next) :
    AgreesAt quota next l l' := by
  have hnext (m : Ledger) : (m.under quota).filter (·.isLive next) =
      ((m.under quota).filter (·.isLive now)).filter (·.isLive next) := by
    rw [List.filter_filter]
    refine List.filter_congr fun x _ => ?_
    by_cases hx : x.isLive next = true
    · simp [hx, Reservation.isLive_of_le hle hx]
    · simp [hx]
  rw [AgreesAt, hnext l, hnext l', h]

theorem AgreesAt.enters? {op : Operation} (h : AgreesAt quota op.time l l') :
    op.enters? l quota = op.enters? l' quota := by
  cases op with
  | pending => rfl
  | reserve t wall ttl q name usage observed =>
    have hlive : (l.under quota).filter (·.isLive t) = (l'.under quota).filter (·.isLive t) := h
    simp only [Operation.enters?, reserved?]
    by_cases hq : q = quota
    · rw [if_pos hq, if_pos hq, hq, hlive]
    · rw [if_neg hq, if_neg hq]

theorem AgreesAt.apply {op : Operation} (h : AgreesAt quota op.time l l') :
    AgreesAt quota op.time (l.apply op) (l'.apply op) := by
  rw [AgreesAt, filter_isLive_under_apply _ _ (Nat.le_refl _),
    filter_isLive_under_apply _ _ (Nat.le_refl _), h.enters?,
    filter_and _ fun x => !op.releases quota x, filter_and _ fun x => !op.releases quota x, h]

/-- A call on another quota drops nothing of a quota but what has expired. -/
theorem agreesAt_apply_of_ne {op : Operation} (h : op.target ≠ quota) (l : Ledger) :
    AgreesAt quota op.time (l.apply op) l := by
  have hreleases (x : Reservation) : op.releases quota x = false := by
    cases op with
    | pending t q s resources => exact Bool.and_eq_false_imp.2 fun hq => absurd (eq_of_beq hq) h
    | reserve => rfl
  have henters : op.enters? l quota = none := by
    cases op with
    | pending => rfl
    | reserve => exact if_neg h
  rw [AgreesAt, filter_isLive_under_apply _ _ (Nat.le_refl _), henters]
  simp [hreleases]

theorem AgreesAt.run {start : Nat} (h : AgreesAt quota start l l')
    (hordered : ops.Pairwise (·.time ≤ ·.time)) (hstart : ∀ op ∈ ops, start ≤ op.time)
    (hnow : ∀ op ∈ ops, op.time ≤ now) (hle : start ≤ now) :
    AgreesAt quota now (l.run ops) (l'.run (ops.filter (·.target == quota))) := by
  -- both ledgers take the calls on the quota, and only the first one those on others
  induction ops generalizing l l' start with
  | nil => exact h.mono hle
  | cons op ops ih =>
    obtain ⟨hfirst, hordered⟩ := List.pairwise_cons.1 hordered
    have hop := h.mono (hstart op (List.mem_cons_self ..))
    have hnext : ∀ o ∈ ops, o.time ≤ now := fun o ho => hnow o (List.mem_cons_of_mem _ ho)
    by_cases htarget : op.target = quota
    · rw [List.filter_cons_of_pos (by simpa using htarget)]
      exact ih hop.apply hordered hfirst hnext (hnow op (List.mem_cons_self ..))
    · rw [List.filter_cons_of_neg (by simpa using htarget)]
      exact ih ((agreesAt_apply_of_ne htarget l).trans hop) hordered hfirst hnext
        (hnow op (List.mem_cons_self ..))

theorem AgreesAt.pending (h : AgreesAt quota now l l') (s : Snapshot)
    (resources : KeySet ResourceName) :
    (l.pending now quota s resources).1 = (l'.pending now quota s resources).1 := by
  rw [Ledger.pending, Ledger.pending, unseen_eq, unseen_eq, h]

/-! ### What is left after a reserve call -/

theorem of_get?_prune {k : String} {rs : List Reservation} (h : (l.prune now).get? k = some rs) :
    rs ≠ [] ∧ ∀ x ∈ rs, x.isLive now = true := by
  rw [prune, Table.get?_filter, Table.get?_map, Option.filter_eq_some_iff,
    Option.map_eq_some_iff] at h
  obtain ⟨⟨all, -, rfl⟩, hempty⟩ := h
  exact ⟨by simpa using hempty, fun x hx => (List.mem_filter.1 hx).2⟩

/-- A reserve call leaves no list that is empty, and nothing in any list that has expired. -/
theorem of_get?_reserve {wall : Time} {ttl : Nat} {name : String} {usage observed : ResourceList}
    (httl : 0 < ttl) {k : String} {rs : List Reservation}
    (h : (l.reserve now wall ttl quota name usage observed).get? k = some rs) :
    rs ≠ [] ∧ ∀ x ∈ rs, x.isLive now = true := by
  rw [reserve] at h
  split at h
  case isTrue => exact of_get?_prune h
  case isFalse =>
    rw [put, if_neg (by simp), Table.get?_insert] at h
    split at h
    case isFalse => exact of_get?_prune h
    case isTrue =>
      cases h
      refine ⟨by simp, fun x hx => ?_⟩
      rw [List.mem_append, List.mem_singleton, under_prune] at hx
      rcases hx with hx | rfl
      · exact (List.mem_filter.1 hx).2
      · simp only [Reservation.isLive, decide_eq_true_eq]
        omega

/-! ### Every history -/

/-- What is pending under a quota after any calls is the sum of what its reserve calls reserved that
counts and that the reading at hand does not account for. Each reserve call with some usage enters
one reservation, which is visible above those that count by then. Calls on other quotas make no
difference, and a reserve call leaves nothing behind that has expired, and no empty list. -/
theorem tallies (hordered : ops.Pairwise (·.time ≤ ·.time)) (hnow : ∀ op ∈ ops, op.time ≤ now)
    (quota : String) (s : Snapshot) (resources : KeySet ResourceName) :
    ((run Table.empty ops).pending now quota s resources).1 =
      (sum ((counted quota now ops).filter fun x => !x.isObserved s resources)).restrict
        resources.toList ∧
    (∀ x later, (x, later) ∈ entered quota Table.empty ops ↔
      ∃ before t wall ttl name usage observed,
        ops = before ++ .reserve t wall ttl quota name usage observed :: later ∧
        usage.isEmpty = false ∧
        x = ⟨name, usage, visibleAt (counted quota t before) name usage observed, wall,
          t + ttl⟩) ∧
    (entered quota Table.empty ops).Pairwise (fun e e' => e'.2.length < e.2.length) ∧
    ((run Table.empty ops).pending now quota s resources).1 =
      ((run Table.empty (ops.filter (·.target == quota))).pending now quota s resources).1 ∧
    ∀ wall ttl other name usage observed, 0 < ttl → ∀ k rs,
      ((run Table.empty ops).reserve now wall ttl other name usage observed).get? k = some rs →
        rs ≠ [] ∧ ∀ x ∈ rs, x.isLive now = true := by
  refine ⟨?_, fun x later => ?_, pairwise_entered .., ?_, fun _ _ _ _ _ _ httl _ _ =>
    of_get?_reserve httl⟩
  · rw [pending, unseen_eq, filter_isLive_under_run_empty hnow, total_eq_restrict]
  · have hbefore {before : List Operation} {op : Operation} (hops : ops = before ++ op :: later) :
        ((run Table.empty before).under quota).filter (·.isLive op.time) =
          counted quota op.time before := by
      refine filter_isLive_under_run_empty fun o ho => ?_
      exact (List.pairwise_append.1 (hops ▸ hordered)).2.2 o ho op (List.mem_cons_self ..)
    rw [mem_entered_iff]
    constructor
    · rintro ⟨before, op, hops, hx⟩
      obtain ⟨t, wall, ttl, name, usage, observed, rfl, hempty, rfl⟩ := enters?_eq_some_iff.1 hx
      have hlive := hbefore hops
      rw [Operation.time] at hlive
      exact ⟨before, t, wall, ttl, name, usage, observed, hops, hempty, by rw [hlive]⟩
    · rintro ⟨before, t, wall, ttl, name, usage, observed, hops, hempty, rfl⟩
      have hlive := hbefore hops
      rw [Operation.time] at hlive
      exact ⟨before, _, hops, enters?_eq_some_iff.2
        ⟨t, wall, ttl, name, usage, observed, rfl, hempty, by rw [hlive]⟩⟩
  · have hsame : AgreesAt quota 0 (Table.empty : Ledger) Table.empty := rfl
    exact (hsame.run hordered (fun _ _ => Nat.zero_le _) hnow (Nat.zero_le _)).pending s resources

/-! The first reservation expires, the second is shown by a reading, and nothing is reserved by the
third call. What is left is that of the last call on the quota. -/

private def podsOf (n : Int) : ResourceList := .ofPairs [(.pods, .ofUnits n)]

private def tallied : KeySet ResourceName := KeySet.ofList [.pods]

private def mixedCalls : List Operation := [
  .reserve 0 ⟨0, 0⟩ 100 "team" "a" (podsOf 1) (podsOf 0),
  .reserve 10 ⟨0, 0⟩ 1000 "team" "b" (podsOf 1) (podsOf 0),
  .reserve 10 ⟨0, 0⟩ 1000 "team" "b" Table.empty (podsOf 0),
  .pending 20 "team" (.recompute (Table.ofList [("b", podsOf 1)]) tallied) tallied,
  .pending 20 "other" (.recompute (Table.ofList [("a", podsOf 9)]) tallied) tallied,
  .reserve 50 ⟨0, 0⟩ 1000 "team" "a"
    (.ofPairs [(.ofText "cpu", .ofUnits 2), (.pods, .ofUnits 2)]) (podsOf 0),
  .reserve 60 ⟨0, 0⟩ 1000 "other" "a" (podsOf 4) (podsOf 0)]

theorem tallies_mixedCalls : ((run Table.empty mixedCalls).pending 200 "team"
    (.recompute (Table.ofList [("a", podsOf 0), ("b", podsOf 0)]) tallied) tallied).1 =
      podsOf 2 := by
  have hordered : mixedCalls.Pairwise (·.time ≤ ·.time) := by decide +kernel
  have hnow : ∀ op ∈ mixedCalls, op.time ≤ 200 := by decide +kernel
  rw [(tallies hordered hnow "team" _ tallied).1]
  decide +kernel

end Ledger

end SharedQuota
