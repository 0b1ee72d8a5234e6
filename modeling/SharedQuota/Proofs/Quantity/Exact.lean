import SharedQuota.Proofs.Quantity.Computed
import SharedQuota.Proofs.Quantity.Spelling

/-!
Amounts as they are read, against what their spelling says in exact arithmetic. All that is computed
on the way is a `Magnitude`, so that no number there goes out of its bounds unseen. Main statements:
a text is read exactly, or refused for the right reason, unless it names the least exponent, where
reading breaks off (`readsExactly_iff`); and it is refused as out of range only if it is, unless a
number on the way is out of range and the amount is not (`isToldTruly_iff`).
-/

namespace SharedQuota

namespace Quantity

/-- What a number and a scale say, in nano-units. -/
def exact (number : List Char) (scale : Scale) : ℚ :=
  mantissa number * 1024 ^ scale.binary * 10 ^ (9 + scale.decimal - places number)

/-- A text is read as it is spelled: nothing is no amount, a fault of the number comes before one of
the suffix, and without a fault the exact amount is read, rounded up, or refused as out of range. -/
structure ReadsExactly (text : String) : Prop where
  empty : parse text = .error .empty ↔ text = ""
  number : ∀ negative number suffix, IsCut text negative number suffix → text ≠ "" →
    (parse text = .error (.invalidNumber text) ↔ ¬ IsNumber number)
  suffix : ∀ negative number suffix, IsCut text negative number suffix → IsNumber number →
    (parse text = .error (.invalidSuffix text (String.ofList suffix)) ↔
      ∀ scale, ¬ Scale.IsSpelled suffix scale)
  amount : ∀ negative number suffix scale, IsCut text negative number suffix → IsNumber number →
    Scale.IsSpelled suffix scale → parse text = .error (.outOfRange text) ∨
      ∃ q, parse text = .ok q ∧ q.nanos = (if negative then -1 else 1) * ⌈exact number scale⌉

/-- An amount that fits is read, and what is refused as out of range does not fit. -/
def IsToldTruly (text : String) : Prop :=
  ∀ negative number suffix scale, IsCut text negative number suffix → IsNumber number →
    Scale.IsSpelled suffix scale →
      (parse text = .error (.outOfRange text) → 2 ^ 127 - 1 < ⌈exact number scale⌉) ∧
      (⌈exact number scale⌉ ≤ 2 ^ 127 - 1 → ∃ q, parse text = .ok q)

/-- The largest number on the way to an amount: the digits times the binary multiple, and that times
the power of ten if it is not divided by one. Nothing counts as one, and the exponent of the power
is kept in 32 bits. -/
def reach (number : List Char) (scale : Scale) : Nat :=
  max 1 (mantissa number * 1024 ^ scale.binary) *
    10 ^ (wrapped (9 + scale.decimal - places number)).toNat

variable {text : String} {negative : Bool} {number suffix : List Char} {scale : Scale}

/-! ### What is read -/

def spelled (negative : Bool) (number : List Char) (scale : Scale) : Notation :=
  ⟨negative, (atPoint number).1, (atPoint number).2, scale⟩

theorem shift_spelled (negative : Bool) (number : List Char) (scale : Scale) :
    (spelled negative number scale).shift = wrapped (9 + scale.decimal - places number) := by
  rw [Notation.shift, spelled, length_atPoint]

theorem multiple_spelled (negative : Bool) (h : ∀ c ∈ number, IsNumeral c)
    (hnumber : IsNumber number) :
    (spelled negative number scale).multiple = mantissa number * 1024 ^ scale.binary := by
  rw [Notation.multiple, spelled, value_atPoint h hnumber]

theorem reach_spelled (negative : Bool) (h : ∀ c ∈ number, IsNumeral c)
    (hnumber : IsNumber number) :
    (spelled negative number scale).reach = reach number scale := by
  rw [Notation.reach, multiple_spelled negative h hnumber, shift_spelled, reach]

theorem exact_eq (number : List Char) (scale : Scale) : exact number scale =
    (mantissa number * 1024 ^ scale.binary : Nat) *
      (10 : ℚ) ^ (9 + scale.decimal - places number) := by
  simp [exact]

theorem IsNumber.ne_nil (h : IsNumber number) : number ≠ [] := by
  obtain ⟨c, hc, -⟩ := h.1
  exact List.ne_nil_of_mem hc

theorem IsCut.ne_empty (h : IsCut text negative number suffix) (hnumber : IsNumber number) :
    text ≠ "" := by
  rintro rfl
  have hsplit := signed_iff.1 h.sign
  have hnil : number ++ suffix = [] := (congrArg Prod.snd hsplit).symm
  exact hnumber.ne_nil (List.append_eq_nil_iff.1 hnil).1

theorem parse_empty : parse "" = .error .empty := rfl

theorem parse_of_not_isNumber (h : IsCut text negative number suffix) (hne : text ≠ "")
    (hnumber : ¬ IsNumber number) : parse text = .error (.invalidNumber text) := by
  rw [parse, (notation_parse h hne).1 hnumber]
  rfl

theorem parse_of_isLeastExponent (h : IsCut text negative number suffix)
    (hnumber : IsNumber number) (hleast : IsLeastExponent suffix) :
    parse text = .error .brokenOff := by
  rw [parse, (notation_parse h (h.ne_empty hnumber)).2.1 hnumber hleast]
  rfl

theorem parse_of_ofSuffix?_eq_none (h : IsCut text negative number suffix)
    (hnumber : IsNumber number) (hsuffix : Scale.ofSuffix? suffix = none)
    (hleast : ¬ IsLeastExponent suffix) :
    parse text = .error (.invalidSuffix text (String.ofList suffix)) := by
  rw [parse, (notation_parse h (h.ne_empty hnumber)).2.2.1 hnumber hsuffix hleast]
  rfl

theorem parse_of_ofSuffix?_eq_some (h : IsCut text negative number suffix)
    (hnumber : IsNumber number) (hsuffix : Scale.ofSuffix? suffix = some scale) :
    parse text = (spelled negative number scale).magnitude?.elim
      (.error (ParseError.outOfRange text)) fun n => .ok (n.signed negative) := by
  have hparse := (notation_parse h (h.ne_empty hnumber)).2.2.2 scale hnumber hsuffix
  rw [← spelled] at hparse
  simp only [parse, hparse, bind, Except.bind, Notation.value?]
  cases (spelled negative number scale).magnitude? <;> rfl

theorem parse_of_scale (h : IsCut text negative number suffix) (hnumber : IsNumber number)
    (hsuffix : Scale.ofSuffix? suffix = some scale) :
    parse text = .error (.outOfRange text) ∨ ∃ q, parse text = .ok q := by
  rw [parse_of_ofSuffix?_eq_some h hnumber hsuffix]
  cases (spelled negative number scale).magnitude? <;> simp

/-- A text that is not empty has a fault of the number, or one of the suffix, or none; or the reader
breaks off. -/
theorem parse_cases (h : IsCut text negative number suffix) (hne : text ≠ "") :
    (¬ IsNumber number ∧ parse text = .error (.invalidNumber text)) ∨
    (IsNumber number ∧ IsLeastExponent suffix ∧ parse text = .error .brokenOff) ∨
    (IsNumber number ∧ ¬ IsLeastExponent suffix ∧ (∀ scale, ¬ Scale.IsSpelled suffix scale) ∧
      parse text = .error (.invalidSuffix text (String.ofList suffix))) ∨
    (IsNumber number ∧ (∃ scale, Scale.IsSpelled suffix scale) ∧
      (parse text = .error (.outOfRange text) ∨ ∃ q, parse text = .ok q)) := by
  by_cases hnumber : IsNumber number
  · by_cases hleast : IsLeastExponent suffix
    · exact .inr (.inl ⟨hnumber, hleast, parse_of_isLeastExponent h hnumber hleast⟩)
    · cases hsuffix : Scale.ofSuffix? suffix with
      | none =>
        exact .inr (.inr (.inl ⟨hnumber, hleast, Scale.ofSuffix?_eq_none_iff.1 hsuffix,
          parse_of_ofSuffix?_eq_none h hnumber hsuffix hleast⟩))
      | some scale =>
        exact .inr (.inr (.inr ⟨hnumber, ⟨scale, Scale.ofSuffix?_eq_some_iff.1 hsuffix⟩,
          parse_of_scale h hnumber hsuffix⟩))
  · exact .inl ⟨hnumber, parse_of_not_isNumber h hne hnumber⟩

/-- The reader breaks off at the least exponent, and nowhere else. -/
theorem parse_eq_brokenOff_iff (h : IsCut text negative number suffix) :
    parse text = .error .brokenOff ↔ IsNumber number ∧ IsLeastExponent suffix := by
  refine ⟨fun hbroken => ?_, fun ⟨hnumber, hleast⟩ => parse_of_isLeastExponent h hnumber hleast⟩
  have hne : text ≠ "" := by
    rintro rfl
    simp [parse_empty] at hbroken
  rcases parse_cases h hne with ⟨-, hp⟩ | ⟨hn, hl, -⟩ | ⟨-, -, -, hp⟩ | ⟨-, -, hp | ⟨q, hp⟩⟩
  · simp [hp] at hbroken
  · exact ⟨hn, hl⟩
  · simp [hp] at hbroken
  · simp [hp] at hbroken
  · simp [hp] at hbroken

/-- What is spelled as an amount is out of range if some number on the way is. -/
theorem parse_eq_outOfRange_iff (h : IsCut text negative number suffix) (hnumber : IsNumber number)
    (hsuffix : Scale.IsSpelled suffix scale) :
    parse text = .error (.outOfRange text) ↔ 2 ^ 127 ≤ reach number scale := by
  rw [parse_of_ofSuffix?_eq_some h hnumber hsuffix.ofSuffix?_eq,
    ← reach_spelled negative h.number hnumber,
    ← Notation.magnitude?_eq_none_iff hsuffix.binary_le]
  cases (spelled negative number scale).magnitude? <;> simp

/-- With so few places and so small an exponent nothing wraps around. -/
theorem wrapped_shift (hsuffix : Scale.IsSpelled suffix scale) (hplaces : places number < 2 ^ 30) :
    wrapped (9 + scale.decimal - places number) = 9 + scale.decimal - places number := by
  have hdecimal := hsuffix.decimal_le
  simp only [wrapped, Int.bmod]
  omega

theorem nanos_of_parse (h : IsCut text negative number suffix) (hnumber : IsNumber number)
    (hsuffix : Scale.IsSpelled suffix scale) (hplaces : places number < 2 ^ 30) {q : Quantity}
    (hq : parse text = .ok q) :
    q.nanos = (if negative then -1 else 1) * ⌈exact number scale⌉ := by
  rw [parse_of_ofSuffix?_eq_some h hnumber hsuffix.ofSuffix?_eq] at hq
  cases hn : (spelled negative number scale).magnitude? with
  | none => simp [hn] at hq
  | some n =>
    have hsigned : n.signed negative = q := by simpa [hn] using hq
    rw [← hsigned, Magnitude.nanos_signed, Notation.nanos_of_magnitude? hsuffix.binary_le hn,
      multiple_spelled negative h.number hnumber, shift_spelled, wrapped_shift hsuffix hplaces,
      exact_eq]

/-! ### Main statements -/

theorem readsExactly (h : IsCut text negative number suffix) (hplaces : places number < 2 ^ 30)
    (hbroken : parse text ≠ .error .brokenOff) : ReadsExactly text := by
  constructor
  case empty =>
    refine ⟨fun hempty => ?_, fun hempty => hempty ▸ parse_empty⟩
    by_contra hne
    rcases parse_cases h hne with
      ⟨-, hp⟩ | ⟨-, -, hp⟩ | ⟨-, -, -, hp⟩ | ⟨-, -, hp | ⟨q, hp⟩⟩ <;>
      simp [hp] at hempty
  case number =>
    intro _ _ _ h' hne
    obtain ⟨rfl, rfl, rfl⟩ := h.unique h'
    rcases parse_cases h hne with
      ⟨hn, hp⟩ | ⟨hn, -, hp⟩ | ⟨hn, -, -, hp⟩ | ⟨hn, -, hp | ⟨q, hp⟩⟩ <;>
      simp [hp, hn]
  case suffix =>
    intro _ _ _ h' hnumber
    obtain ⟨rfl, rfl, rfl⟩ := h.unique h'
    rcases parse_cases h (h.ne_empty hnumber) with
      ⟨hn, -⟩ | ⟨-, -, hp⟩ | ⟨-, -, hs, hp⟩ | ⟨-, ⟨scale, hs⟩, hp | ⟨q, hp⟩⟩
    · exact absurd hnumber hn
    · exact absurd hp hbroken
    · exact iff_of_true hp hs
    · exact iff_of_false (by simp [hp]) fun hno => hno scale hs
    · exact iff_of_false (by simp [hp]) fun hno => hno scale hs
  case amount =>
    intro _ _ _ scale h' hnumber hsuffix
    obtain ⟨rfl, rfl, rfl⟩ := h.unique h'
    obtain hp | ⟨q, hp⟩ := parse_of_scale h hnumber hsuffix.ofSuffix?_eq
    · exact .inl hp
    · exact .inr ⟨q, hp, nanos_of_parse h hnumber hsuffix hplaces hp⟩

/-- A text is read exactly, unless it has a number and names the least exponent. -/
theorem readsExactly_iff (h : IsCut text negative number suffix)
    (hplaces : places number < 2 ^ 30) :
    ReadsExactly text ↔ ¬ (IsNumber number ∧ IsLeastExponent suffix) := by
  rw [← parse_eq_brokenOff_iff h]
  refine ⟨fun hread hbroken => ?_, readsExactly h hplaces⟩
  -- what is no suffix is to be refused as such
  obtain ⟨hnumber, hleast⟩ := (parse_eq_brokenOff_iff h).1 hbroken
  have hinvalid := (hread.suffix _ _ _ h hnumber).2 fun _ => hleast.not_isSpelled
  simp [hbroken] at hinvalid

theorem readsExactly_roundedUp : ReadsExactly "-1.0000000001Ki" := by
  have hcut : IsCut "-1.0000000001Ki" true "1.0000000001".toList ['K', 'i'] :=
    isCut_of_splitSign rfl (by decide) (by decide)
  refine (readsExactly_iff hcut (by decide)).2 ?_
  rintro ⟨-, mark, s, hsuffix, hmark, -⟩
  obtain ⟨rfl, -⟩ := List.cons.inj hsuffix
  exact absurd hmark (by decide)

theorem not_readsExactly_leastExponent : ¬ ReadsExactly "1e-2147483648" := by
  intro hread
  have hcut : IsCut "1e-2147483648" false ['1'] "e-2147483648".toList :=
    isCut_of_splitSign rfl (by decide) (by decide)
  have hleast : IsLeastExponent "e-2147483648".toList :=
    ⟨'e', "-2147483648".toList, rfl, .inl rfl, isInteger_iff.2 ⟨2147483648, rfl, rfl⟩⟩
  have hinvalid := (hread.suffix _ _ _ hcut (by decide)).2 fun _ => hleast.not_isSpelled
  exact absurd hinvalid (by decide)

theorem isToldTruly_iff_of_isSpelled (h : IsCut text negative number suffix)
    (hnumber : IsNumber number) (hsuffix : Scale.IsSpelled suffix scale) : IsToldTruly text ↔
      ¬ (⌈exact number scale⌉ ≤ 2 ^ 127 - 1 ∧ parse text = .error (.outOfRange text)) := by
  constructor
  · rintro htold ⟨hfits, hrange⟩
    have hgreat := (htold _ _ _ _ h hnumber hsuffix).1 hrange
    omega
  · intro hnot _ _ _ scale' h' _ hsuffix'
    obtain ⟨rfl, rfl, rfl⟩ := h.unique h'
    obtain rfl := hsuffix.unique hsuffix'
    obtain hp | ⟨q, hp⟩ := parse_of_scale h hnumber hsuffix.ofSuffix?_eq
    · have hgreat : ¬ ⌈exact number scale⌉ ≤ 2 ^ 127 - 1 := fun hfits => hnot ⟨hfits, hp⟩
      exact ⟨fun _ => by omega, fun hfits => absurd hfits hgreat⟩
    · exact ⟨fun hrange => by simp [hp] at hrange, fun _ => ⟨q, hp⟩⟩

/-- A text that spells an amount is told truly, unless the amount fits and a number on the way does
not. -/
theorem isToldTruly_iff (h : IsCut text negative number suffix) (hnumber : IsNumber number)
    (hsuffix : Scale.IsSpelled suffix scale) : IsToldTruly text ↔
      ¬ (⌈exact number scale⌉ ≤ 2 ^ 127 - 1 ∧ 2 ^ 127 ≤ reach number scale) := by
  rw [isToldTruly_iff_of_isSpelled h hnumber hsuffix, parse_eq_outOfRange_iff h hnumber hsuffix]

theorem isToldTruly_greatest : IsToldTruly "170141183460469231731687303715.884105727" := by
  have hcut : IsCut "170141183460469231731687303715.884105727" false
      "170141183460469231731687303715.884105727".toList [] :=
    isCut_of_splitSign rfl (by decide) (by decide)
  have hscale : Scale.IsSpelled [] ⟨0, 0⟩ := .name (by decide)
  refine (isToldTruly_iff hcut (by decide) hscale).2 ?_
  rintro ⟨-, hreach⟩
  exact absurd hreach (by decide)

theorem not_isToldTruly_manyZeros :
    ¬ IsToldTruly "1.000000000000000000000000000000000000000" := by
  intro htold
  have hcut : IsCut "1.000000000000000000000000000000000000000" false
      ('1' :: '.' :: List.replicate 39 '0') [] :=
    isCut_of_splitSign rfl (by decide) (by decide)
  have hscale : Scale.IsSpelled [] ⟨0, 0⟩ := .name (by decide)
  have hmantissa : mantissa ('1' :: '.' :: List.replicate 39 '0') = 10 ^ 39 := by decide
  have hplaces : places ('1' :: '.' :: List.replicate 39 '0') = 39 := by decide
  have hfits : ⌈exact ('1' :: '.' :: List.replicate 39 '0') ⟨0, 0⟩⌉ ≤ 2 ^ 127 - 1 := by
    rw [exact, hmantissa, hplaces, Int.ceil_le]
    norm_num
  obtain ⟨q, hq⟩ := (htold _ _ _ _ hcut (by decide) hscale).2 hfits
  have hrange : parse "1.000000000000000000000000000000000000000" =
      .error (.outOfRange "1.000000000000000000000000000000000000000") := by decide
  simp [hrange] at hq

/-- Where nothing is divided the amount itself is the largest number on the way, if it is not
zero. -/
theorem ceil_exact_eq_reach (hsuffix : Scale.IsSpelled suffix scale)
    (hplaces : (places number : Int) ≤ 9 + scale.decimal) (hpos : 0 < mantissa number) :
    ⌈exact number scale⌉ = reach number scale := by
  have hdecimal := hsuffix.decimal_le
  have hdivisor : (-(9 + scale.decimal - places number)).toNat = 0 := by omega
  have hmultiple : 0 < mantissa number * 1024 ^ scale.binary :=
    Nat.mul_pos hpos (Nat.pow_pos (by decide))
  rw [exact_eq, ceil_mul_ten_zpow, hdivisor, reach, wrapped_shift hsuffix (by omega),
    Nat.max_eq_right hmultiple, Nat.pow_zero, ceilDiv, if_pos (Nat.mod_one _), Nat.div_one]

/-- Only a zero, or a number with places beyond a nano-unit, can be refused though it fits. -/
theorem isToldTruly_of_places_le (h : IsCut text negative number suffix) (hnumber : IsNumber number)
    (hsuffix : Scale.IsSpelled suffix scale)
    (hplaces : (places number : Int) ≤ 9 + scale.decimal) (hpos : 0 < mantissa number) :
    IsToldTruly text := by
  rw [isToldTruly_iff_of_isSpelled h hnumber hsuffix, parse_eq_outOfRange_iff h hnumber hsuffix,
    ceil_exact_eq_reach hsuffix hplaces hpos]
  omega

end Quantity

end SharedQuota
