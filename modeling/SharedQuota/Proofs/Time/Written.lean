import SharedQuota.Proofs.Time
import SharedQuota.Proofs.Time.Calendar
import SharedQuota.Time.Stamp

/-!
Times that are written and read back. Main statements (`ofRfc3339?_secondText`,
`ofRfc3339?_microsecondText`): what a text of a time is read as lacks what the text leaves out, and
a year that has not four digits is not read at all.
-/

namespace SharedQuota

namespace Decimal

theorem length_digits_le {width n : Nat} (h : n < 10 ^ (width + 1)) :
    (digits n).length ≤ width + 1 := by
  induction width generalizing n with
  | zero =>
    rw [digits, if_pos (by simpa using h)]
    simp
  | succ width ih =>
    rw [digits]
    split
    · simp
    · have := ih (n := n / 10) (by rw [Nat.pow_succ] at h; omega)
      rw [List.length_append, List.length_singleton]
      omega

theorem value_replicate_zero (count : Nat) (s : List Char) :
    value (List.replicate count '0' ++ s) = value s := by
  induction count with
  | zero => rfl
  | succ count ih =>
    rw [← ih]
    simp [List.replicate_succ, value, digitValue]

end Decimal

namespace Time

/-! ### Parts -/

theorem length_padded (width : Nat) {n : Nat} (h : n < 10 ^ (width + 1)) :
    (padded (width + 1) n).toList.length = width + 1 := by
  have := Decimal.length_digits_le h
  simp only [padded, String.toList_ofList, List.length_append, List.length_replicate]
  omega

theorem value_padded (width n : Nat) : Decimal.value (padded width n).toList = n := by
  rw [padded, String.toList_ofList, Decimal.value_replicate_zero, Decimal.value_digits]

theorem all_isDigit_padded (width n : Nat) :
    (padded width n).toList.all Decimal.isDigit = true := by
  rw [padded, String.toList_ofList, List.all_append, Decimal.all_isDigit_digits, Bool.and_true,
    List.all_replicate]
  split <;> decide

theorem digitsOf?_padded (width : Nat) {n : Nat} (h : n < 10 ^ (width + 1)) (rest : List Char) :
    digitsOf? (width + 1) ((padded (width + 1) n).toList ++ rest) = some (n, rest) := by
  have htake : ((padded (width + 1) n).toList ++ rest).take (width + 1) =
      (padded (width + 1) n).toList := List.take_left' (length_padded width h)
  have hdrop : ((padded (width + 1) n).toList ++ rest).drop (width + 1) = rest :=
    List.drop_left' (length_padded width h)
  simp only [digitsOf?, htake, hdrop, length_padded width h, all_isDigit_padded, value_padded]
  simp

theorem expect?_cons (c : Char) (rest : List Char) : expect? c (c :: rest) = some rest :=
  if_pos rfl

/-! ### Whole times -/

/-- Only the last second of a minute is a leap second. -/
structure IsProper (t : Time) : Prop where
  nano_lt : t.nano < 2_000_000_000
  leap : t.isLeap = true → t.second % 60 = 59

variable {t : Time} {fraction : Nat → String}

/-- The seconds of the day. -/
def clock (t : Time) : Nat := (t.second % secondsPerDay).toNat

theorem clock_lt (t : Time) : t.clock < 86400 := by
  rw [clock, secondsPerDay]
  omega

theorem second_eq (t : Time) : t.second / secondsPerDay * secondsPerDay + t.clock = t.second := by
  rw [clock, secondsPerDay]
  omega

theorem IsProper.leap_cases (h : t.IsProper) :
    t.nano / 1_000_000_000 = 1 ∧ t.clock % 60 = 59 ∨ t.nano / 1_000_000_000 = 0 := by
  by_cases hleap : t.isLeap = true
  · have hlast := h.leap hleap
    have hnano := h.nano_lt
    rw [isLeap, decide_eq_true_eq] at hleap
    rw [clock, secondsPerDay]
    omega
  · rw [isLeap, decide_eq_true_eq] at hleap
    omega

theorem toList_textWith_of_plain (h : t.hasPlainYear = true) : (t.textWith fraction).toList =
    (padded 4 t.date.year.natAbs).toList ++ '-' :: ((padded 2 t.date.month).toList ++
      '-' :: ((padded 2 t.date.day).toList ++ 'T' :: ((padded 2 (t.clock / 3600)).toList ++
        ':' :: ((padded 2 (t.clock / 60 % 60)).toList ++
          ':' :: ((padded 2 (t.clock % 60 + t.nano / 1_000_000_000)).toList ++
            ((fraction (t.nano % 1_000_000_000)).toList ++ ['Z'])))))) := by
  simp only [hasPlainYear, Bool.and_eq_true, decide_eq_true_eq] at h
  have hyear : yearText t.date.year = padded 4 t.date.year.natAbs := by
    rw [yearText, if_neg (by omega), if_neg (by omega)]
  simp [textWith, hyear, clock]

theorem ofRfc3339?_textWith (fraction : Nat → String) (ht : t.IsProper)
    (hplain : t.hasPlainYear = true) {nano : Nat}
    (hfraction : fraction? ((fraction (t.nano % 1_000_000_000)).toList ++ ['Z']) =
      some (nano, ['Z'])) :
    ofRfc3339? (t.textWith fraction) =
      some ⟨t.second, t.nano / 1_000_000_000 * 1_000_000_000 + nano⟩ := by
  have hvalid := Date.isValid_ofDays (t.second / secondsPerDay)
  have hdays := Date.toDays_ofDays (t.second / secondsPerDay)
  change t.date.isValid = true at hvalid
  change t.date.toDays = t.second / secondsPerDay at hdays
  have hyear : ((t.date.year.natAbs : Nat) : Int) = t.date.year ∧ t.date.year.natAbs < 10000 := by
    simp only [hasPlainYear, Bool.and_eq_true, decide_eq_true_eq] at hplain
    omega
  have hmonth : t.date.month < 100 := by
    simp only [Date.isValid, Bool.and_eq_true, decide_eq_true_eq] at hvalid
    omega
  have hday : t.date.day < 100 := by
    have hle : Date.daysInMonth t.date.year t.date.month ≤ 31 := by
      rw [Date.daysInMonth]
      split
      · split <;> decide
      · split <;> decide
    simp only [Date.isValid, Bool.and_eq_true, decide_eq_true_eq] at hvalid
    omega
  have hclock := t.clock_lt
  have hleap := ht.leap_cases
  have hseconds : t.clock % 60 + t.nano / 1_000_000_000 < 100 := by omega
  have hhour : t.clock / 3600 < 100 := by omega
  have hminute : t.clock / 60 % 60 < 100 := by omega
  rw [ofRfc3339?, toList_textWith_of_plain hplain]
  refine Option.bind_eq_some_iff.2 ⟨_, digitsOf?_padded 3 hyear.2 _, ?_⟩
  refine Option.bind_eq_some_iff.2 ⟨_, expect?_cons .., ?_⟩
  refine Option.bind_eq_some_iff.2 ⟨_, digitsOf?_padded 1 hmonth _, ?_⟩
  refine Option.bind_eq_some_iff.2 ⟨_, expect?_cons .., ?_⟩
  refine Option.bind_eq_some_iff.2 ⟨_, digitsOf?_padded 1 hday _, ?_⟩
  refine (if_pos rfl).trans ?_
  refine Option.bind_eq_some_iff.2 ⟨_, rfl, ?_⟩
  refine Option.bind_eq_some_iff.2 ⟨_, digitsOf?_padded 1 hhour _, ?_⟩
  refine Option.bind_eq_some_iff.2 ⟨_, expect?_cons .., ?_⟩
  refine Option.bind_eq_some_iff.2 ⟨_, digitsOf?_padded 1 hminute _, ?_⟩
  refine Option.bind_eq_some_iff.2 ⟨_, expect?_cons .., ?_⟩
  refine Option.bind_eq_some_iff.2 ⟨_, digitsOf?_padded 1 hseconds _, ?_⟩
  refine Option.bind_eq_some_iff.2 ⟨_, hfraction, ?_⟩
  refine Option.bind_eq_some_iff.2 ⟨_, rfl, ?_⟩
  rw [hyear.1]
  have haccepted : (([] : List Char).isEmpty && t.date.isValid && decide (t.clock / 3600 ≤ 23) &&
      decide (t.clock / 60 % 60 ≤ 59) &&
      decide (t.clock % 60 + t.nano / 1_000_000_000 ≤ 60)) = true := by
    simp only [hvalid, List.isEmpty_nil, Bool.and_eq_true, decide_eq_true_eq]
    exact ⟨⟨⟨⟨trivial, trivial⟩, by omega⟩, by omega⟩, by omega⟩
  refine (if_pos haccepted).trans (congrArg some ?_)
  have hsecond := t.second_eq
  have hhours : t.clock / 3600 = t.clock / 60 / 60 := (Nat.div_div_eq_div_mul t.clock 60 60).symm
  rw [hdays, mk.injEq, hhours]
  constructor
  · omega
  · split <;> omega

/-- A year that has not four digits carries its sign, and with that the text is no time. -/
theorem ofRfc3339?_textWith_of_not_plain (fraction : Nat → String) (h : t.hasPlainYear = false) :
    ofRfc3339? (t.textWith fraction) = none := by
  obtain ⟨c, rest, hsign, hc⟩ : ∃ c rest, (t.textWith fraction).toList = c :: rest ∧
      Decimal.isDigit c = false := by
    rw [hasPlainYear, Bool.and_eq_false_iff, decide_eq_false_iff_not, decide_eq_false_iff_not] at h
    by_cases hnegative : t.date.year < 0
    · have hyear : yearText t.date.year = "-" ++ padded 4 t.date.year.natAbs := if_pos hnegative
      simp only [textWith, hyear, String.toList_append, List.append_assoc]
      exact ⟨'-', _, rfl, rfl⟩
    · have hyear : yearText t.date.year = "+" ++ padded 4 t.date.year.natAbs := by
        rw [yearText, if_neg hnegative, if_pos (by omega)]
      simp only [textWith, hyear, String.toList_append, List.append_assoc]
      exact ⟨'+', _, rfl, rfl⟩
  have hdigits : digitsOf? 4 (c :: rest) = none := by simp [digitsOf?, hc]
  rw [ofRfc3339?, hsign, hdigits]
  rfl

theorem ofRfc3339?_secondText (ht : t.IsProper) :
    ofRfc3339? t.secondText = if t.hasPlainYear then some t.toSecond else none := by
  rw [secondText]
  split
  case isTrue hplain =>
    have hfraction : fraction? ("".toList ++ ['Z']) = some (0, ['Z']) := by decide
    rw [ofRfc3339?_textWith _ ht hplain hfraction, Nat.add_zero, toSecond]
  case isFalse hplain =>
    exact ofRfc3339?_textWith_of_not_plain _ (Bool.eq_false_iff.2 hplain)

theorem fraction?_padded {n : Nat} (h : n < 1_000_000) :
    fraction? (("." ++ padded 6 n).toList ++ ['Z']) = some (n * 1_000, ['Z']) := by
  have hdigits : ∀ c ∈ (padded 6 n).toList, Decimal.isDigit c = true :=
    List.all_eq_true.1 (all_isDigit_padded 6 n)
  have htake : ((padded 6 n).toList ++ ['Z']).takeWhile Decimal.isDigit = (padded 6 n).toList := by
    rw [List.takeWhile_append_of_pos hdigits]
    exact List.append_nil _
  have hdrop : ((padded 6 n).toList ++ ['Z']).dropWhile Decimal.isDigit = ['Z'] := by
    rw [List.dropWhile_append_of_pos hdigits]
    rfl
  have hlength : (padded 6 n).toList.length = 6 := length_padded 5 h
  have hnil : (padded 6 n).toList.isEmpty = false :=
    List.isEmpty_eq_false_iff.2 (List.ne_nil_of_length_eq_add_one hlength)
  have hnine : (padded 6 n).toList.take 9 = (padded 6 n).toList := List.take_of_length_le (by omega)
  rw [String.toList_append]
  show fraction? ('.' :: ((padded 6 n).toList ++ ['Z'])) = _
  simp only [fraction?, htake, hdrop, hnil, hnine, hlength, value_padded]
  rfl

theorem ofRfc3339?_microsecondText (ht : t.IsProper) :
    ofRfc3339? t.microsecondText = if t.hasPlainYear then some t.toMicrosecond else none := by
  rw [microsecondText]
  split
  case isTrue hplain =>
    have hfraction := fraction?_padded (n := t.nano % 1_000_000_000 / 1_000) (by omega)
    rw [ofRfc3339?_textWith (fun nano => "." ++ padded 6 (nano / 1_000)) ht hplain hfraction,
      toMicrosecond, Option.some.injEq, mk.injEq]
    exact ⟨rfl, by omega⟩
  case isFalse hplain =>
    exact ofRfc3339?_textWith_of_not_plain _ (Bool.eq_false_iff.2 hplain)

/-! ### Times of objects -/

theorem emod_of_hoursAndMinutes? {s rest : List Char} {seconds : Nat}
    (h : hoursAndMinutes? s = some (seconds, rest)) : seconds % 60 = 0 := by
  simp only [hoursAndMinutes?] at h
  obtain ⟨⟨hours, _⟩, -, h⟩ := Option.bind_eq_some_iff.1 h
  obtain ⟨⟨minutes, _⟩, -, h⟩ := Option.bind_eq_some_iff.1 h
  obtain ⟨-, h⟩ := Option.ite_none_right_eq_some.1 h
  rw [← (Prod.mk.inj (Option.some.inj h)).1]
  omega

/-- An offset is of whole minutes. -/
theorem emod_of_freeOffset? {s rest : List Char} {offset : Int}
    (h : freeOffset? s = some (offset, rest)) : offset % 60 = 0 := by
  unfold freeOffset? at h
  split at h
  case isTrue =>
    rw [← (Prod.mk.inj (Option.some.inj h)).1]
    rfl
  case isFalse =>
    split at h
    case h_1 => cases h
    case h_2 c s =>
      split at h
      case isTrue =>
        rw [← (Prod.mk.inj (Option.some.inj h)).1]
        rfl
      case isFalse =>
        split at h
        case isTrue =>
          obtain ⟨⟨seconds, _⟩, hseconds, heq⟩ := Option.map_eq_some_iff.1 h
          have hwhole := emod_of_hoursAndMinutes? hseconds
          rw [← (Prod.mk.inj heq).1]
          omega
        case isFalse =>
          obtain ⟨-, h⟩ := Option.ite_none_right_eq_some.1 h
          obtain ⟨⟨seconds, _⟩, hseconds, heq⟩ := Option.map_eq_some_iff.1 h
          have hwhole := emod_of_hoursAndMinutes? hseconds
          rw [← (Prod.mk.inj heq).1]
          omega

theorem isProper_of_ofStamp? {text : String} (h : ofStamp? text = some t) : t.IsProper := by
  simp only [ofStamp?] at h
  obtain ⟨⟨year, _⟩, -, h⟩ := Option.bind_eq_some_iff.1 h
  obtain ⟨_, -, h⟩ := Option.bind_eq_some_iff.1 h
  obtain ⟨⟨month, _⟩, -, h⟩ := Option.bind_eq_some_iff.1 h
  obtain ⟨_, -, h⟩ := Option.bind_eq_some_iff.1 h
  obtain ⟨⟨day, _⟩, -, h⟩ := Option.bind_eq_some_iff.1 h
  split at h
  case h_2 => cases h
  case h_1 =>
    split at h
    case isFalse => cases h
    case isTrue =>
      obtain ⟨_, -, h⟩ := Option.bind_eq_some_iff.1 h
      obtain ⟨⟨hour, _⟩, -, h⟩ := Option.bind_eq_some_iff.1 h
      obtain ⟨_, -, h⟩ := Option.bind_eq_some_iff.1 h
      obtain ⟨⟨minute, _⟩, -, h⟩ := Option.bind_eq_some_iff.1 h
      obtain ⟨_, -, h⟩ := Option.bind_eq_some_iff.1 h
      obtain ⟨⟨second, _⟩, -, h⟩ := Option.bind_eq_some_iff.1 h
      obtain ⟨⟨nano, _⟩, hnano, h⟩ := Option.bind_eq_some_iff.1 h
      obtain ⟨⟨offset, _⟩, hoffset, h⟩ := Option.bind_eq_some_iff.1 h
      have hlt := fraction?_lt hnano
      have hwhole := emod_of_freeOffset? hoffset
      obtain ⟨-, h⟩ := Option.ite_none_left_eq_some.1 h
      obtain ⟨-, h⟩ := Option.ite_none_right_eq_some.1 h
      rw [← Option.some.inj h]
      dsimp only
      refine ⟨?_, fun hleap => ?_⟩
      · dsimp only
        split <;> omega
      · rw [isLeap, decide_eq_true_eq] at hleap
        have hsixty : second = 60 := by
          by_contra hne
          rw [if_neg hne] at hleap
          exact absurd hleap (Nat.not_le.2 hlt)
        rw [hsixty, secondsPerDay]
        dsimp only
        omega

end Time

end SharedQuota
