import SharedQuota.Quantity.Notation
import SharedQuota.Proofs.List
import Mathlib.Data.List.TakeWhile

/-!
How amounts are spelled, told without the reader. A text is cut into a sign, a number and a suffix
(`IsCut`), in one way only; a number has some digit and at most one point (`IsNumber`); a suffix
stands for a scale (`Scale.IsSpelled`). Main statement (`notation_parse`): the reader takes a text
apart in this way and refuses what is not so, but that it breaks off at one exponent
(`IsLeastExponent`).
-/

namespace SharedQuota

namespace Quantity

/-! ### Signs -/

/-- What follows the sign of a text, and whether it is a minus. -/
inductive Signed : List Char → Bool → List Char → Prop
  | minus (s : List Char) : Signed ('-' :: s) true s
  | plus (s : List Char) : Signed ('+' :: s) false s
  | unsigned {s : List Char} (h : ∀ c ∈ s.head?, c ≠ '-' ∧ c ≠ '+') : Signed s false s

theorem signed_iff {s rest : List Char} {negative : Bool} :
    Signed s negative rest ↔ splitSign s = (negative, rest) := by
  constructor
  · rintro (_ | _ | h)
    · rfl
    · rfl
    · unfold splitSign
      split
      next => exact absurd rfl (h '-' rfl).1
      next => exact absurd rfl (h '+' rfl).2
      next => rfl
  · intro h
    unfold splitSign at h
    split at h
    next => cases h; exact .minus _
    next => cases h; exact .plus _
    next hminus hplus =>
      cases h
      refine .unsigned fun c hc => ?_
      obtain ⟨s, rfl⟩ := List.head?_eq_some_iff.1 hc
      exact ⟨fun heq => hminus s (heq ▸ rfl), fun heq => hplus s (heq ▸ rfl)⟩

/-! ### Numbers -/

/-- A character of a number. -/
def IsNumeral (c : Char) : Prop := Decimal.isDigit c = true ∨ c = '.'

/-- A number as it may be written: some digit, and at most one point. -/
def IsNumber (number : List Char) : Prop :=
  (∃ c ∈ number, Decimal.isDigit c = true) ∧ number.count '.' ≤ 1

instance (number : List Char) : Decidable (IsNumber number) :=
  decidable_of_iff (number.any Decimal.isDigit = true ∧ number.count '.' ≤ 1)
    (and_congr_left' List.any_eq_true)

/-- All digits of a number read as one whole number. -/
def mantissa (number : List Char) : Nat := Decimal.value (number.filter Decimal.isDigit)

/-- How many digits of a number stand after the point. -/
def places (number : List Char) : Nat := (number.dropWhile (· != '.')).tail.length

theorem inNumber_iff {c : Char} : inNumber c = true ↔ IsNumeral c := by
  simp [inNumber, IsNumeral]

theorem isDigit_of_isNumeral {s : List Char} (h : ∀ c ∈ s, IsNumeral c) (hpoint : '.' ∉ s) :
    ∀ c ∈ s, Decimal.isDigit c = true := fun c hc =>
  (h c hc).resolve_right fun heq => hpoint (heq ▸ hc)

theorem dropWhile_of_not_mem {number : List Char} (h : '.' ∉ number) :
    number.dropWhile (· != '.') = [] := by
  induction number with
  | nil => rfl
  | cons c rest ih =>
    have hc : c ≠ '.' := fun heq => h (heq ▸ List.mem_cons_self ..)
    rw [List.dropWhile_cons, if_pos (by simpa using hc)]
    exact ih fun hmem => h (List.mem_cons_of_mem _ hmem)

theorem places_of_not_mem {number : List Char} (h : '.' ∉ number) : places number = 0 := by
  simp [places, dropWhile_of_not_mem h]

theorem places_append {whole : List Char} (h : '.' ∉ whole) (fraction : List Char) :
    places (whole ++ '.' :: fraction) = fraction.length := by
  simp [places, List.dropWhile_append, dropWhile_of_not_mem h]

theorem mantissa_append (whole fraction : List Char) :
    mantissa (whole ++ '.' :: fraction) = mantissa (whole ++ fraction) := by
  have hpoint : Decimal.isDigit '.' = false := by decide
  simp [mantissa, hpoint]

theorem mantissa_of_isDigit {number : List Char} (h : ∀ c ∈ number, Decimal.isDigit c = true) :
    mantissa number = Decimal.value number := by
  rw [mantissa, List.filter_eq_self.2 h]

/-- The digits before the point and those after it. -/
def atPoint (number : List Char) : List Char × List Char :=
  (Text.cutFirst? '.' number).getD (number, [])

theorem atPoint_cases (number : List Char) :
    ('.' ∉ number ∧ atPoint number = (number, [])) ∨
      ∃ whole fraction, '.' ∉ whole ∧ number = whole ++ '.' :: fraction ∧
        atPoint number = (whole, fraction) := by
  cases hcut : Text.cutFirst? '.' number with
  | none => exact .inl ⟨Text.cutFirst?_eq_none.1 hcut, by simp [atPoint, hcut]⟩
  | some parts =>
    obtain ⟨hnumber, hwhole⟩ := Text.cutFirst?_eq_some.1 hcut
    exact .inr ⟨parts.1, parts.2, hwhole, hnumber, by simp [atPoint, hcut]⟩

/-- A number has digits on some side of the point, and no other point after it. -/
theorem isNumber_iff {number : List Char} (h : ∀ c ∈ number, IsNumeral c) :
    IsNumber number ↔ ((atPoint number).1 ≠ [] ∨ (atPoint number).2 ≠ []) ∧
      '.' ∉ (atPoint number).2 := by
  obtain ⟨hpoint, heq⟩ | ⟨whole, fraction, hwhole, rfl, heq⟩ := atPoint_cases number
  · have hdigits := isDigit_of_isNumeral h hpoint
    rw [heq, IsNumber, List.count_eq_zero_of_not_mem hpoint]
    cases number with
    | nil => simp
    | cons c rest => simp [hdigits c (List.mem_cons_self ..)]
  · rw [heq, IsNumber, List.count_append, List.count_eq_zero_of_not_mem hwhole,
      List.count_cons_self]
    have hcount : 0 + (fraction.count '.' + 1) ≤ 1 ↔ '.' ∉ fraction := by
      rw [← List.count_eq_zero]
      omega
    rw [hcount]
    refine and_congr_left fun hfraction => ?_
    constructor
    · rintro ⟨c, hc, hdigit⟩
      rcases List.mem_append.1 hc with hc | hc
      · exact .inl (List.ne_nil_of_mem hc)
      · refine .inr (List.ne_nil_of_mem ((List.mem_cons.1 hc).resolve_left ?_))
        rintro rfl
        exact absurd hdigit (by decide)
    · have hdigit {s : List Char} (hs : ∀ c ∈ s, c ∈ whole ++ '.' :: fraction) (hpoint : '.' ∉ s)
          (hne : s ≠ []) : ∃ c ∈ whole ++ '.' :: fraction, Decimal.isDigit c = true := by
        obtain ⟨c, hc⟩ := List.exists_mem_of_ne_nil s hne
        exact ⟨c, hs c hc, isDigit_of_isNumeral (fun c hc => h c (hs c hc)) hpoint c hc⟩
      rintro (hne | hne)
      · exact hdigit (fun c hc => by simp [hc]) hwhole hne
      · exact hdigit (fun c hc => by simp [hc]) hfraction hne

theorem value_atPoint {number : List Char} (h : ∀ c ∈ number, IsNumeral c)
    (hnumber : IsNumber number) :
    Decimal.value ((atPoint number).1 ++ (atPoint number).2) = mantissa number := by
  have hfraction := ((isNumber_iff h).1 hnumber).2
  obtain ⟨hpoint, heq⟩ | ⟨whole, fraction, hwhole, rfl, heq⟩ := atPoint_cases number
  · rw [heq, List.append_nil, mantissa_of_isDigit (isDigit_of_isNumeral h hpoint)]
  · rw [heq] at hfraction ⊢
    rw [mantissa_append, mantissa_of_isDigit]
    refine isDigit_of_isNumeral (fun c hc => h c ?_) (by simp [hwhole, hfraction])
    rcases List.mem_append.1 hc with hc | hc <;> simp [hc]

theorem length_atPoint (number : List Char) : (atPoint number).2.length = places number := by
  obtain ⟨hpoint, heq⟩ | ⟨whole, fraction, hwhole, rfl, heq⟩ := atPoint_cases number
  · rw [heq, places_of_not_mem hpoint, List.length_nil]
  · rw [heq, places_append hwhole]

/-! ### Suffixes -/

/-- An integer as it may be written: digits, with a sign or without. -/
def IsInteger (s : List Char) (e : Int) : Prop :=
  ∃ negative digits, Signed s negative digits ∧ digits ≠ [] ∧
    (∀ c ∈ digits, Decimal.isDigit c = true) ∧
    e = if negative then -(Decimal.value digits : Int) else Decimal.value digits

/-- The scales that have a name. -/
def Scale.names : List (List Char × Scale) :=
  [([], ⟨0, 0⟩), (['n'], ⟨0, -9⟩), (['u'], ⟨0, -6⟩), (['m'], ⟨0, -3⟩), (['k'], ⟨0, 3⟩),
    (['M'], ⟨0, 6⟩), (['G'], ⟨0, 9⟩), (['T'], ⟨0, 12⟩), (['P'], ⟨0, 15⟩), (['E'], ⟨0, 18⟩),
    (['K', 'i'], ⟨1, 0⟩), (['M', 'i'], ⟨2, 0⟩), (['G', 'i'], ⟨3, 0⟩), (['T', 'i'], ⟨4, 0⟩),
    (['P', 'i'], ⟨5, 0⟩), (['E', 'i'], ⟨6, 0⟩)]

/-- A suffix as it may be written: a name, or an exponent of at most 64, of either sign. -/
inductive Scale.IsSpelled : List Char → Scale → Prop
  | name {suffix : List Char} {scale : Scale} (h : (suffix, scale) ∈ Scale.names) :
    IsSpelled suffix scale
  | exponent {mark : Char} {s : List Char} {e : Int} (hmark : mark = 'e' ∨ mark = 'E')
    (he : IsInteger s e) (hsize : e.natAbs ≤ 64) : IsSpelled (mark :: s) ⟨0, e⟩

/-- The least number that 32 bits hold, as an exponent. -/
def IsLeastExponent (suffix : List Char) : Prop :=
  ∃ mark s, suffix = mark :: s ∧ (mark = 'e' ∨ mark = 'E') ∧ IsInteger s (-2147483648)

theorem ofDigits?_eq_some_iff {s : List Char} {n : Nat} : Decimal.ofDigits? s = some n ↔
    s ≠ [] ∧ (∀ c ∈ s, Decimal.isDigit c = true) ∧ Decimal.value s = n := by
  simp only [Decimal.ofDigits?]
  split
  next h => simp_all
  next h => simp_all

theorem isInteger_iff {s : List Char} {e : Int} : IsInteger s e ↔
    ∃ n, Decimal.ofDigits? (splitSign s).2 = some n ∧
      e = if (splitSign s).1 then -(n : Int) else n := by
  simp only [IsInteger, signed_iff, ofDigits?_eq_some_iff]
  constructor
  · rintro ⟨negative, digits, hs, hne, hdigits, rfl⟩
    rw [hs]
    exact ⟨_, ⟨hne, hdigits, rfl⟩, rfl⟩
  · rintro ⟨n, ⟨hne, hdigits, rfl⟩, rfl⟩
    exact ⟨_, _, rfl, hne, hdigits, rfl⟩

theorem integer?_eq_some_iff {s : List Char} {e : Int} : integer? s = some e ↔ IsInteger s e := by
  simp only [integer?, isInteger_iff, Option.map_eq_some_iff]
  exact exists_congr fun n => and_congr_right' eq_comm

theorem exponent?_eq_some_iff {s : List Char} {e : Int} : exponent? s = some e ↔
    IsInteger s e ∧ e.natAbs ≤ 64 := by
  simp only [exponent?, Option.filter_eq_some_iff, integer?_eq_some_iff, decide_eq_true_eq]
  rfl

namespace Scale

variable {suffix s : List Char} {scale : Scale} {e : Int}

theorem ofSuffix?_of_mem_names (h : (suffix, scale) ∈ names) : ofSuffix? suffix = some scale := by
  have hall : ∀ entry ∈ names, ofSuffix? entry.1 = some entry.2 := by decide
  exact hall _ h

theorem ofSuffix?_exponent {mark : Char} (hmark : mark = 'e' ∨ mark = 'E') (h : IsInteger s e) :
    ofSuffix? (mark :: s) = (exponent? s).map (⟨0, ·⟩) := by
  obtain ⟨negative, digits, hs, hne, hdigits, -⟩ := h
  rcases hmark with rfl | rfl
  · rfl
  · -- neither a lone mark nor the mark of a binary multiple goes on with an integer
    have hnil : s ≠ [] := by
      rintro rfl
      cases hs
      exact hne rfl
    have hbinary : s ≠ ['i'] := by
      rintro rfl
      cases hs
      exact absurd (hdigits 'i' (List.mem_singleton_self _)) (by decide)
    unfold ofSuffix?
    split <;> simp_all

theorem ofSuffix?_cases (h : ofSuffix? suffix = some scale) : (suffix, scale) ∈ names ∨
    ∃ mark s, suffix = mark :: s ∧ (mark = 'e' ∨ mark = 'E') ∧
      (exponent? s).map (⟨0, ·⟩) = some scale := by
  unfold ofSuffix? at h
  split at h
  case h_17 s => exact .inr ⟨'e', s, rfl, .inl rfl, h⟩
  case h_18 s _ _ => exact .inr ⟨'E', s, rfl, .inr rfl, h⟩
  case h_19 => cases h
  all_goals
    obtain rfl := Option.some.inj h
    exact .inl (by decide)

/-- The reader takes a suffix for a scale if it is spelled so. -/
theorem ofSuffix?_eq_some_iff : ofSuffix? suffix = some scale ↔ IsSpelled suffix scale := by
  constructor
  · intro h
    obtain hname | ⟨mark, s, rfl, hmark, h⟩ := ofSuffix?_cases h
    · exact .name hname
    · obtain ⟨e, he, rfl⟩ := Option.map_eq_some_iff.1 h
      obtain ⟨hinteger, hsize⟩ := exponent?_eq_some_iff.1 he
      exact .exponent hmark hinteger hsize
  · rintro (hname | ⟨hmark, he, hsize⟩)
    · exact ofSuffix?_of_mem_names hname
    · rw [ofSuffix?_exponent hmark he, exponent?_eq_some_iff.2 ⟨he, hsize⟩]
      rfl

theorem ofSuffix?_eq_none_iff :
    ofSuffix? suffix = none ↔ ∀ scale, ¬ IsSpelled suffix scale := by
  simp only [Option.eq_none_iff_forall_ne_some, ne_eq, ofSuffix?_eq_some_iff]

theorem IsSpelled.ofSuffix?_eq (h : IsSpelled suffix scale) : ofSuffix? suffix = some scale :=
  ofSuffix?_eq_some_iff.2 h

theorem IsSpelled.binary_le (h : IsSpelled suffix scale) : scale.binary ≤ 6 := by
  cases h with
  | name h =>
    have hall : ∀ entry ∈ names, entry.2.binary ≤ 6 := by decide
    exact hall _ h
  | exponent => exact Nat.zero_le 6

theorem IsSpelled.decimal_le (h : IsSpelled suffix scale) : scale.decimal.natAbs ≤ 64 := by
  cases h with
  | name h =>
    have hall : ∀ entry ∈ names, entry.2.decimal.natAbs ≤ 64 := by decide
    exact hall _ h
  | exponent _ _ hsize => exact hsize

theorem IsSpelled.unique {scale' : Scale} (h : IsSpelled suffix scale)
    (h' : IsSpelled suffix scale') : scale = scale' :=
  Option.some.inj (h.ofSuffix?_eq.symm.trans h'.ofSuffix?_eq)

end Scale

theorem breaksOff_iff {suffix : List Char} : breaksOff suffix = true ↔ IsLeastExponent suffix := by
  constructor
  · intro h
    unfold breaksOff at h
    split at h
    case h_1 s => exact ⟨'e', s, rfl, .inl rfl, integer?_eq_some_iff.1 (of_decide_eq_true h)⟩
    case h_2 s => exact ⟨'E', s, rfl, .inr rfl, integer?_eq_some_iff.1 (of_decide_eq_true h)⟩
    case h_3 => cases h
  · rintro ⟨mark, s, rfl, rfl | rfl, hs⟩ <;>
      exact decide_eq_true (integer?_eq_some_iff.2 hs)

/-- The least exponent stands for no scale: its size is too large. -/
theorem IsLeastExponent.not_isSpelled {suffix : List Char} {scale : Scale}
    (h : IsLeastExponent suffix) : ¬ Scale.IsSpelled suffix scale := by
  intro hspelled
  obtain ⟨mark, s, rfl, hmark, hs⟩ := h
  have hscale := hspelled.ofSuffix?_eq
  rw [Scale.ofSuffix?_exponent hmark hs, Option.map_eq_some_iff] at hscale
  obtain ⟨e, he, -⟩ := hscale
  obtain ⟨hinteger, hsize⟩ := exponent?_eq_some_iff.1 he
  obtain rfl := Option.some.inj
    ((integer?_eq_some_iff.2 hinteger).symm.trans (integer?_eq_some_iff.2 hs))
  exact absurd hsize (by decide)

/-! ### Texts -/

/-- A text cut into its sign, if it begins with one, the longest run of digits and points that
follows, and the rest. -/
structure IsCut (text : String) (negative : Bool) (number suffix : List Char) : Prop where
  sign : Signed text.toList negative (number ++ suffix)
  number : ∀ c ∈ number, IsNumeral c
  suffix : ∀ c ∈ suffix.head?, ¬ IsNumeral c

variable {text : String} {negative : Bool} {number suffix : List Char}

theorem exists_isCut (text : String) :
    ∃ negative number suffix, IsCut text negative number suffix := by
  refine ⟨(splitSign text.toList).1, (splitSign text.toList).2.takeWhile inNumber,
    (splitSign text.toList).2.dropWhile inNumber, ?_, fun c hc => ?_, fun c hc => ?_⟩
  · rw [List.takeWhile_append_dropWhile, signed_iff]
  · exact inNumber_iff.1 (List.mem_takeWhile_imp hc)
  · rw [← inNumber_iff]
    have := List.head?_dropWhile_not inNumber (splitSign text.toList).2
    simp_all

theorem isCut_of_splitSign (hsign : splitSign text.toList = (negative, number ++ suffix))
    (hnumber : number.all inNumber = true) (hsuffix : suffix.head?.any inNumber = false) :
    IsCut text negative number suffix where
  sign := signed_iff.2 hsign
  number c hc := inNumber_iff.1 (List.all_eq_true.1 hnumber c hc)
  suffix c hc hnumeral := by
    rw [Option.mem_def.1 hc, Option.any_some, inNumber_iff.2 hnumeral] at hsuffix
    cases hsuffix

theorem takeWhile_of_isCut (h : IsCut text negative number suffix) :
    (number ++ suffix).takeWhile inNumber = number ∧
      (number ++ suffix).dropWhile inNumber = suffix := by
  have hnumber : ∀ c ∈ number, inNumber c = true := fun c hc => inNumber_iff.2 (h.number c hc)
  rw [List.takeWhile_append_of_pos hnumber, List.dropWhile_append_of_pos hnumber]
  cases suffix with
  | nil => simp
  | cons c rest =>
    have hc : ¬ inNumber c = true := fun hc => h.suffix c rfl (inNumber_iff.1 hc)
    rw [List.takeWhile_cons, List.dropWhile_cons, if_neg hc, if_neg hc, List.append_nil]
    exact ⟨rfl, rfl⟩

theorem IsCut.unique {negative' : Bool} {number' suffix' : List Char}
    (h : IsCut text negative number suffix) (h' : IsCut text negative' number' suffix') :
    negative = negative' ∧ number = number' ∧ suffix = suffix' := by
  have hsign := (signed_iff.1 h.sign).symm.trans (signed_iff.1 h'.sign)
  obtain ⟨hnegative, hrest⟩ := Prod.mk.inj hsign
  obtain ⟨htake, hdrop⟩ := takeWhile_of_isCut h
  obtain ⟨htake', hdrop'⟩ := takeWhile_of_isCut h'
  rw [hrest] at htake hdrop
  exact ⟨hnegative, htake.symm.trans htake', hdrop.symm.trans hdrop'⟩

/-- The reader takes a text apart as it is spelled. -/
theorem notation_parse (h : IsCut text negative number suffix) (hne : text ≠ "") :
    (¬ IsNumber number → Notation.parse text = .error (.invalidNumber text)) ∧
    (IsNumber number → IsLeastExponent suffix → Notation.parse text = .error .brokenOff) ∧
    (IsNumber number → Scale.ofSuffix? suffix = none → ¬ IsLeastExponent suffix →
      Notation.parse text = .error (.invalidSuffix text (String.ofList suffix))) ∧
    ∀ scale, IsNumber number → Scale.ofSuffix? suffix = some scale →
      Notation.parse text =
        .ok ⟨negative, (atPoint number).1, (atPoint number).2, scale⟩ := by
  have hempty : text.isEmpty = false := by simpa using hne
  obtain ⟨htake, hdrop⟩ := takeWhile_of_isCut h
  have hnumber := isNumber_iff h.number
  simp only [Notation.parse, hempty, signed_iff.1 h.sign, htake, hdrop, Bool.false_eq_true,
    if_false]
  rw [← atPoint]
  generalize atPoint number = parts at hnumber ⊢
  obtain ⟨whole, fraction⟩ := parts
  have hrefused : (whole.isEmpty && fraction.isEmpty || fraction.contains '.') = true ↔
      ¬ IsNumber number := by
    simp only [hnumber, Bool.or_eq_true, Bool.and_eq_true, List.isEmpty_iff, List.contains_iff_mem]
    tauto
  refine ⟨fun h => ?_, fun h hleast => ?_, fun h hsuffix hleast => ?_, fun scale h hsuffix => ?_⟩
  · exact if_pos (hrefused.2 h)
  · have hsuffix := Scale.ofSuffix?_eq_none_iff.2 fun _ => hleast.not_isSpelled
    rw [if_neg (mt hrefused.1 (not_not_intro h)), hsuffix]
    exact congrArg Except.error (if_pos (breaksOff_iff.2 hleast))
  · rw [if_neg (mt hrefused.1 (not_not_intro h)), hsuffix]
    exact congrArg Except.error (if_neg (mt breaksOff_iff.1 hleast))
  · rw [if_neg (mt hrefused.1 (not_not_intro h)), hsuffix]

end Quantity

end SharedQuota
