import SharedQuota.Proofs.Time

/-!
The latest of some times, and how far back the times before it are. A leap second makes the
distance from it to a later time of its day longer by a second, and that to an earlier one does not
know of it; but for that, what is earlier is farther back (`since_le_of_not_before`).
-/

namespace SharedQuota.Time

theorem before_iff {a b : Time} :
    a.before b = true ↔ a.second < b.second ∨ a.second = b.second ∧ a.nano < b.nano := by
  simp only [before, beq_iff_eq, compare, Ordering.then_eq_lt]
  rw [show compareOfLessAndEq a.second b.second = compare a.second b.second from rfl,
    show compareOfLessAndEq a.nano b.nano = compare a.nano b.nano from rfl, compare_lt_iff_lt,
    compare_eq_iff_eq, compare_lt_iff_lt]

/-! ### The latest -/

/-- No time of the list is later. -/
structure IsLatest (ts : List Time) (t : Time) : Prop where
  mem : t ∈ ts
  not_before : ∀ t' ∈ ts, ¬ t.before t' = true

theorem IsLatest.unique {ts : List Time} {a b : Time} (ha : IsLatest ts a) (hb : IsLatest ts b) :
    a = b := by
  have hab := ha.not_before b hb.mem
  have hba := hb.not_before a ha.mem
  rw [before_iff] at hab hba
  cases a
  cases b
  rw [mk.injEq]
  dsimp only at hab hba
  omega

theorem later_cases (a b : Time) : later a b = b ∧ a.before b = true ∨
    later a b = a ∧ ¬ a.before b = true := by
  rw [later]
  split
  case isTrue h => exact .inl ⟨rfl, h⟩
  case isFalse h => exact .inr ⟨rfl, h⟩

theorem isLatest_foldl_later (t : Time) (ts : List Time) :
    IsLatest (t :: ts) (ts.foldl later t) := by
  induction ts generalizing t with
  | nil =>
    refine ⟨List.mem_singleton_self t, fun t' ht' => ?_⟩
    rw [List.mem_singleton.1 ht', List.foldl_nil, before_iff]
    omega
  | cons a ts ih =>
    obtain ⟨hmem, hlatest⟩ := ih (later t a)
    obtain ⟨hlater, hrest⟩ := List.forall_mem_cons.1 hlatest
    rw [List.foldl_cons]
    generalize ts.foldl later (later t a) = last at hmem hlater hrest
    simp only [before_iff] at hlater
    rcases later_cases t a with ⟨heq, h⟩ | ⟨heq, h⟩
    all_goals
      rw [heq] at hmem hlater
      rw [before_iff] at h
      refine ⟨?_, List.forall_mem_cons.2 ⟨?_, List.forall_mem_cons.2 ⟨?_, hrest⟩⟩⟩
      · rcases List.mem_cons.1 hmem with rfl | hmem <;> simp [*]
      · rw [before_iff]
        omega
      · rw [before_iff]
        omega

theorem latest?_cons (t : Time) (ts : List Time) :
    latest? (t :: ts) = some (ts.foldl later t) := by
  rw [latest?, List.foldl_cons]
  show List.foldl _ (some t) ts = _
  induction ts generalizing t with
  | nil => rfl
  | cons a ts ih => exact ih (later t a)

theorem latest?_eq_some_iff {ts : List Time} {t : Time} : latest? ts = some t ↔ IsLatest ts t := by
  cases ts with
  | nil => exact iff_of_false nofun fun h => nomatch h.mem
  | cons a ts =>
    rw [latest?_cons, Option.some.injEq]
    exact ⟨fun h => h ▸ isLatest_foldl_later a ts, (isLatest_foldl_later a ts).unique⟩

/-! ### Ages -/

variable {now a b : Time}

theorem not_before_iff_of_not_isLeap (ha : a.isLeap = false) (hb : b.isLeap = false) :
    ¬ a.before b = true ↔ b.nanos ≤ a.nanos := by
  rw [isLeap, decide_eq_false_iff_not] at ha hb
  rw [before_iff, nanos, nanos, nanosPerSecond]
  omega

theorem since_of_not_isLeap (hnow : now.isLeap = false) (ha : a.isLeap = false) :
    now.since a = now.nanos - a.nanos := by
  rw [isLeap, decide_eq_false_iff_not] at hnow
  refine (since_cases (b := a) (by omega)).resolve_right fun h => ?_
  rw [ha] at h
  cases h.1

/-- What is no later is no less far back, apart from leap seconds. -/
theorem since_le_of_not_before (hnow : now.isLeap = false) (ha : a.isLeap = false)
    (hb : b.isLeap = false) (h : ¬ a.before b = true) : now.since a ≤ now.since b := by
  rw [since_of_not_isLeap hnow ha, since_of_not_isLeap hnow hb]
  have := (not_before_iff_of_not_isLeap ha hb).1 h
  omega

/-- Leap seconds or not, it is less far back by a second at most. -/
theorem since_le_add_of_not_before (hnow : now.isLeap = false) (ha : a.nano < 2_000_000_000)
    (hb : b.nano < 2_000_000_000) (h : ¬ a.before b = true) :
    now.since a ≤ now.since b + nanosPerSecond := by
  rw [isLeap, decide_eq_false_iff_not] at hnow
  rw [before_iff] at h
  rcases since_cases (b := a) (Nat.not_le.1 hnow) with hsince | ⟨hleap, hsince⟩ <;>
    rcases since_cases (b := b) (Nat.not_le.1 hnow) with hsince' | ⟨-, hsince'⟩ <;>
    rw [hsince, hsince', nanos, nanos, nanos, nanosPerSecond]
  · omega
  · omega
  · rw [isLeap, decide_eq_true_eq] at hleap
    omega
  · omega

/-- Ten seconds into a minute the leap second that ended the one before is eleven seconds ago, and
what came half a second earlier only ten and a half. -/
example : since ⟨70, 0⟩ ⟨59, 1_000_000_000⟩ = 11_000_000_000 ∧
    since ⟨70, 0⟩ ⟨59, 500_000_000⟩ = 10_500_000_000 := by decide

theorem not_before_of_since_pos (hnow : now.isLeap = false) (h : 0 < now.since a) :
    ¬ now.before a = true := by
  rw [before_iff]
  simp only [since, hnow, nanosPerSecond, Bool.and_false, Bool.false_eq_true, if_false] at h
  rw [isLeap, decide_eq_false_iff_not] at hnow
  split at h
  case isTrue hclock =>
    rw [Bool.and_eq_true, decide_eq_true_eq, isLeap, decide_eq_true_eq] at hclock
    -- in the second of a leap second itself the clock is at that second too
    rintro (hlt | ⟨heq, -⟩)
    · omega
    · rw [heq] at hclock
      omega
  case isFalse => omega

end SharedQuota.Time
