import SharedQuota.Time.Rfc3339
import Mathlib.Algebra.Order.Ring.Int
import Mathlib.Data.List.Induction
import Mathlib.Data.List.TakeWhile

/-!
Distances between times. Apart from leap seconds a distance is the difference of the nanoseconds
that have been counted (`since_cases`), and a clock that runs for some milliseconds counts as many
(`nanos_plusMillis`). What is read from a text is at most one second ahead of its count.
-/

namespace SharedQuota

namespace Decimal

theorem digitValue_lt {c : Char} (h : isDigit c = true) : digitValue c < 10 := by
  simp only [isDigit, Bool.and_eq_true, decide_eq_true_eq] at h
  have hle : c.toNat ≤ '9'.toNat := h.2
  have hnine : '9'.toNat = 57 := rfl
  simp only [digitValue]
  omega

theorem value_lt {s : List Char} (h : ∀ c ∈ s, isDigit c = true) : value s < 10 ^ s.length := by
  induction s using List.reverseRecOn with
  | nil => decide
  | append_singleton s c ih =>
    have hs := ih fun d hd => h d (List.mem_append_left _ hd)
    have hc := digitValue_lt (h c (List.mem_append_right _ (List.mem_singleton_self c)))
    rw [value_append_singleton, List.length_append, List.length_singleton, Nat.pow_succ]
    omega

end Decimal

namespace Time

theorem fraction?_lt {s rest : List Char} {nano : Nat} (h : fraction? s = some (nano, rest)) :
    nano < 1_000_000_000 := by
  unfold fraction? at h
  split at h
  case h_1 s =>
    dsimp only at h
    split at h
    case isTrue => cases h
    case isFalse =>
      obtain ⟨rfl, -⟩ := Prod.mk.inj (Option.some.inj h)
      have hdigits : ∀ c ∈ (s.takeWhile Decimal.isDigit).take 9, Decimal.isDigit c = true :=
        fun c hc => List.mem_takeWhile_imp (List.mem_of_mem_take hc)
      have hvalue := Decimal.value_lt hdigits
      rw [List.length_take] at hvalue
      -- the digits that are read and the zeros that are added are nine together
      have hnine : min 9 (s.takeWhile Decimal.isDigit).length +
          (9 - (s.takeWhile Decimal.isDigit).length) = 9 := by omega
      have hpow := Nat.mul_lt_mul_of_pos_right hvalue
        (Nat.pow_pos (Nat.succ_pos 9) : 0 < 10 ^ (9 - (s.takeWhile Decimal.isDigit).length))
      rw [← Nat.pow_add, hnine] at hpow
      exact hpow
  case h_2 =>
    obtain ⟨rfl, -⟩ := Prod.mk.inj (Option.some.inj h)
    decide

theorem nano_ofRfc3339?_lt {text : String} {t : Time} (h : ofRfc3339? text = some t) :
    t.nano < 2_000_000_000 := by
  simp only [ofRfc3339?] at h
  obtain ⟨⟨year, _⟩, -, h⟩ := Option.bind_eq_some_iff.1 h
  obtain ⟨_, -, h⟩ := Option.bind_eq_some_iff.1 h
  obtain ⟨⟨month, _⟩, -, h⟩ := Option.bind_eq_some_iff.1 h
  obtain ⟨_, -, h⟩ := Option.bind_eq_some_iff.1 h
  obtain ⟨⟨day, _⟩, -, h⟩ := Option.bind_eq_some_iff.1 h
  split at h
  case h_2 => cases h
  case h_1 =>
    split at h
    case isFalse => cases h
    case isTrue =>
      obtain ⟨_, -, h⟩ := Option.bind_eq_some_iff.1 h
      obtain ⟨⟨hour, _⟩, -, h⟩ := Option.bind_eq_some_iff.1 h
      obtain ⟨_, -, h⟩ := Option.bind_eq_some_iff.1 h
      obtain ⟨⟨minute, _⟩, -, h⟩ := Option.bind_eq_some_iff.1 h
      obtain ⟨_, -, h⟩ := Option.bind_eq_some_iff.1 h
      obtain ⟨⟨second, _⟩, -, h⟩ := Option.bind_eq_some_iff.1 h
      obtain ⟨⟨nano, _⟩, hnano, h⟩ := Option.bind_eq_some_iff.1 h
      obtain ⟨⟨offset, _⟩, -, h⟩ := Option.bind_eq_some_iff.1 h
      have hlt := fraction?_lt hnano
      split at h
      case isFalse => cases h
      case isTrue =>
        rw [← Option.some.inj h]
        dsimp only
        split <;> omega

/-- The nanoseconds since the start of 1970 as a clock without leap seconds counts them. -/
def nanos (t : Time) : Int := t.second * nanosPerSecond + t.nano

theorem nano_plusMillis_lt (t : Time) (ms : Nat) : (t.plusMillis ms).nano < 1_000_000_000 :=
  Nat.mod_lt _ (by decide)

theorem nanos_plusMillis (t : Time) (ms : Nat) :
    (t.plusMillis ms).nanos = t.nanos + ms * 1_000_000 := by
  simp only [nanos, plusMillis, nanosPerSecond]
  omega

/-- A leap second is counted only where the time that it is measured from is one. -/
theorem since_cases {a b : Time} (ha : a.nano < 1_000_000_000) :
    a.since b = a.nanos - b.nanos ∨
      b.isLeap = true ∧ a.since b = a.nanos - b.nanos + nanosPerSecond := by
  have hleap : a.isLeap = false := decide_eq_false (by omega)
  simp only [since, nanos, nanosPerSecond, hleap, Bool.and_false, Bool.false_eq_true, if_false]
  split
  case isTrue hb =>
    refine .inr ⟨(Bool.and_eq_true_iff.1 hb).2, ?_⟩
    omega
  case isFalse =>
    refine .inl ?_
    omega

theorem le_of_not_before {a b : Time} (h : ¬ a.before b = true) :
    b.second < a.second ∨ b.second = a.second ∧ b.nano ≤ a.nano := by
  simp only [before, beq_iff_eq, compare, Ordering.then_eq_lt, not_or, not_and] at h
  obtain ⟨hsecond, hnano⟩ := h
  have hle := Int.not_lt.1 fun hlt => hsecond (compare_lt_iff_lt.2 hlt)
  rcases Int.lt_or_eq_of_le hle with hlt | heq
  · exact .inl hlt
  · refine .inr ⟨heq, Nat.not_lt.1 fun hlt => ?_⟩
    exact hnano (compare_eq_iff_eq.2 heq.symm) (compare_lt_iff_lt.2 hlt)

end Time

end SharedQuota
