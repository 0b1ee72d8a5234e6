import SharedQuota.Text.Cut
import Mathlib.Data.List.Forall2
import Mathlib.Data.List.TakeWhile

/-!
What the cuts of a text are, told without making them. Main statement (`isItems_iff`): the items of
a list written with commas are what stands between the commas, without the blanks around it, where
something is left.
-/

namespace SharedQuota.Text

/-! ### Cutting once -/

/-- What stands before and after the first `sep`: all of the text and `absent` where there is
none. -/
def IsCut (sep : Char) (absent s before after : List Char) : Prop :=
  s = before ++ sep :: after ∧ sep ∉ before ∨ sep ∉ s ∧ before = s ∧ after = absent

theorem isCut_iff {sep : Char} {absent s before after : List Char} :
    IsCut sep absent s before after ↔
      (cutFirst? sep s).getD (s, absent) = (before, after) := by
  cases hcut : cutFirst? sep s with
  | none =>
    have hsep := cutFirst?_eq_none.1 hcut
    rw [Option.getD_none, Prod.mk.injEq]
    constructor
    · rintro (⟨rfl, -⟩ | ⟨-, rfl, rfl⟩)
      · exact absurd (by simp) hsep
      · exact ⟨rfl, rfl⟩
    · rintro ⟨rfl, rfl⟩
      exact .inr ⟨hsep, rfl, rfl⟩
  | some sides =>
    obtain ⟨front, back⟩ := sides
    rw [Option.getD_some]
    constructor
    · rintro (h | ⟨hsep, -⟩)
      · exact Option.some.inj (hcut.symm.trans (cutFirst?_eq_some.2 h))
      · exact absurd (cutFirst?_eq_none.2 hsep) (by simp [hcut])
    · intro h
      exact .inl (cutFirst?_eq_some.1 (h ▸ hcut))

/-! ### Cutting everywhere -/

/-- The pieces of a text between the occurrences of `sep`. -/
structure IsSplit (sep : Char) (s : List Char) (pieces : List (List Char)) : Prop where
  nonempty : pieces ≠ []
  joined : [sep].intercalate pieces = s
  apart : ∀ piece ∈ pieces, sep ∉ piece

theorem parts_eq_splitOn (sep : Char) (s : List Char) : parts sep s = s.splitOn sep := by
  induction s with
  | nil => rfl
  | cons c rest ih =>
    rw [parts, List.splitOn_cons_eq_if_modifyHead, ih]
    obtain ⟨p, ps, hsplit⟩ := List.exists_cons_of_ne_nil (List.splitOn_ne_nil sep rest)
    simp only [hsplit, beq_iff_eq, List.modifyHead_cons]

theorem not_mem_of_mem_parts {sep : Char} {s piece : List Char} (h : piece ∈ parts sep s) :
    sep ∉ piece := by
  induction s generalizing piece with
  | nil => simp_all [parts]
  | cons c rest ih =>
    rw [parts] at h
    split at h
    case isTrue =>
      rcases List.mem_cons.1 h with rfl | h
      · exact List.not_mem_nil
      · exact ih h
    case isFalse hc =>
      split at h
      case h_1 =>
        rw [List.mem_singleton.1 h]
        exact fun hmem => hc (List.mem_singleton.1 hmem).symm
      case h_2 p ps hparts =>
        rw [hparts] at ih
        rcases List.mem_cons.1 h with rfl | h
        · simpa [Ne.symm hc] using ih (List.mem_cons_self ..)
        · exact ih (List.mem_cons_of_mem _ h)

theorem isSplit_iff {sep : Char} {s : List Char} {pieces : List (List Char)} :
    IsSplit sep s pieces ↔ pieces = parts sep s := by
  constructor
  · rintro ⟨hne, rfl, hapart⟩
    rw [parts_eq_splitOn, List.splitOn_intercalate sep hapart hne]
  · rintro rfl
    refine ⟨?_, ?_, fun piece => not_mem_of_mem_parts⟩
    · rw [parts_eq_splitOn]
      exact List.splitOn_ne_nil sep s
    · rw [parts_eq_splitOn, List.intercalate_splitOn]

/-! ### Trimming -/

/-- What is left of `s` without the blanks at its ends. -/
structure IsTrimmed (s core : List Char) : Prop where
  around : ∃ before after, s = before ++ core ++ after ∧
    (∀ c ∈ before, isBlank c = true) ∧ ∀ c ∈ after, isBlank c = true
  first : ∀ c, core.head? = some c → isBlank c = false
  last : ∀ c, core.getLast? = some c → isBlank c = false

theorem dropWhile_append_of_head? {p : Char → Bool} {before rest : List Char}
    (hbefore : ∀ c ∈ before, p c = true) (hrest : ∀ c, rest.head? = some c → p c = false) :
    (before ++ rest).dropWhile p = rest := by
  rw [List.dropWhile_append_of_pos hbefore]
  cases rest with
  | nil => rfl
  | cons c rest => rw [List.dropWhile_cons, hrest c rfl, if_neg Bool.false_ne_true]

theorem trim_of_isTrimmed {s core : List Char} (h : IsTrimmed s core) : trim s = core := by
  obtain ⟨before, after, rfl, hbefore, hafter⟩ := h.around
  have hback (rest : List Char) (hlast : ∀ c, rest.getLast? = some c → isBlank c = false) :
      ((rest ++ after).reverse.dropWhile isBlank).reverse = rest := by
    rw [List.reverse_append, dropWhile_append_of_head?, List.reverse_reverse]
    · exact fun c hc => hafter c (List.mem_reverse.1 hc)
    · rwa [List.head?_reverse]
  rw [trim, List.append_assoc, List.dropWhile_append_of_pos hbefore]
  cases core with
  | nil =>
    -- of blanks alone nothing is left
    rw [List.nil_append, List.dropWhile_eq_nil_iff.2 hafter]
    rfl
  | cons c rest =>
    rw [List.cons_append, List.dropWhile_cons, h.first c rfl, if_neg Bool.false_ne_true,
      ← List.cons_append]
    exact hback _ h.last

theorem isTrimmed_trim (s : List Char) : IsTrimmed s (trim s) := by
  let front := s.dropWhile isBlank
  have hback : front = trim s ++ (front.reverse.takeWhile isBlank).reverse := by
    rw [trim, ← List.reverse_append, List.takeWhile_append_dropWhile, List.reverse_reverse]
  have hlast : ∀ c, (trim s).getLast? = some c → isBlank c = false := fun c hc => by
    rw [trim, List.getLast?_reverse] at hc
    have := List.head?_dropWhile_not isBlank front.reverse
    rw [hc] at this
    simpa using this
  refine ⟨⟨s.takeWhile isBlank, (front.reverse.takeWhile isBlank).reverse, ?_,
    fun c => List.mem_takeWhile_imp, fun c hc => ?_⟩, fun c hc => ?_, hlast⟩
  · rw [List.append_assoc, ← hback, List.takeWhile_append_dropWhile]
  · exact List.mem_takeWhile_imp (List.mem_reverse.1 hc)
  · have := List.head?_dropWhile_not isBlank s
    rw [show s.dropWhile isBlank = front from rfl, hback, List.head?_append, hc] at this
    simpa using this

theorem forall₂_isTrimmed_iff {pieces cores : List (List Char)} :
    List.Forall₂ IsTrimmed pieces cores ↔ cores = pieces.map trim := by
  constructor
  · intro h
    induction h with
    | nil => rfl
    | cons h _ ih => rw [List.map_cons, trim_of_isTrimmed h, ih]
  · rintro rfl
    exact List.forall₂_map_right_iff.2 (List.forall₂_same.2 fun s _ => isTrimmed_trim s)

/-! ### Items -/

/-- The items of a list written with commas: the pieces between them, trimmed, where something is
left. -/
def IsItems (text : String) (items : List String) : Prop :=
  ∃ pieces cores, IsSplit ',' text.toList pieces ∧ List.Forall₂ IsTrimmed pieces cores ∧
    items = (cores.filter fun core => !core.isEmpty).map String.ofList

theorem isItems_iff {text : String} {items : List String} :
    IsItems text items ↔ items = commaItems text := by
  constructor
  · rintro ⟨pieces, cores, hpieces, hcores, rfl⟩
    rw [forall₂_isTrimmed_iff.1 hcores, isSplit_iff.1 hpieces, commaItems]
  · rintro rfl
    exact ⟨_, _, isSplit_iff.2 rfl, forall₂_isTrimmed_iff.2 rfl, rfl⟩

end SharedQuota.Text
