import SharedQuota.Text.Pattern
import Mathlib.Computability.Language

/-!
The language of a pattern: what texts it is one of, told without reading them. Main statement
(`accepts_iff`): exactly the texts of the language are accepted.
-/

namespace SharedQuota.Text.Pattern

open scoped Computability

def language : Pattern → Language Char
  | nothing => 0
  | blank => 1
  | one allowed => {s | ∃ c, s = [c] ∧ allowed c = true}
  | seq p q => p.language * q.language
  | either p q => p.language + q.language
  | many p => p.language∗

variable {p q : Pattern} {s : List Char}

theorem mem_one_iff {allowed : Char → Bool} :
    s ∈ (one allowed).language ↔ ∃ c, s = [c] ∧ allowed c = true := Iff.rfl

theorem mem_seq_iff :
    s ∈ (seq p q).language ↔ ∃ a ∈ p.language, ∃ b ∈ q.language, a ++ b = s := Language.mem_mul

theorem mem_optional_iff : s ∈ (optional p).language ↔ s ∈ p.language ∨ s = [] := by
  rw [optional, language, Language.mem_add, language, Language.mem_one]

theorem mem_many_iff :
    s ∈ (many p).language ↔ ∃ parts : List (List Char), s = parts.flatten ∧
      ∀ part ∈ parts, part ∈ p.language := Language.mem_kstar

/-- Any number of characters of a class. -/
theorem mem_many_one_iff {allowed : Char → Bool} :
    s ∈ (many (one allowed)).language ↔ ∀ c ∈ s, allowed c = true := by
  rw [mem_many_iff]
  constructor
  · rintro ⟨parts, rfl, hparts⟩ c hc
    obtain ⟨part, hpart, hmem⟩ := List.mem_flatten.1 hc
    obtain ⟨d, rfl, hd⟩ := hparts part hpart
    rwa [List.mem_singleton.1 hmem]
  · intro hall
    refine ⟨s.map fun c => [c], ?_, fun part hpart => ?_⟩
    · rw [← List.flatMap_def, List.flatMap_singleton']
    · obtain ⟨c, hc, rfl⟩ := List.mem_map.1 hpart
      exact ⟨c, rfl, hall c hc⟩

theorem acceptsBlank_iff (p : Pattern) : p.acceptsBlank = true ↔ [] ∈ p.language := by
  induction p with
  | nothing => exact iff_of_false nofun (Language.notMem_zero _)
  | blank => exact iff_of_true rfl Language.nil_mem_one
  | one allowed => exact iff_of_false nofun fun ⟨_, h, _⟩ => nomatch h
  | seq p q ihp ihq =>
    rw [acceptsBlank, Bool.and_eq_true, ihp, ihq, mem_seq_iff]
    constructor
    · rintro ⟨hp, hq⟩
      exact ⟨[], hp, [], hq, rfl⟩
    · rintro ⟨a, ha, b, hb, hab⟩
      obtain ⟨rfl, rfl⟩ := List.append_eq_nil_iff.1 hab
      exact ⟨ha, hb⟩
  | either p q ihp ihq => rw [acceptsBlank, Bool.or_eq_true, ihp, ihq, language, Language.mem_add]
  | many p => exact iff_of_true rfl (Language.nil_mem_kstar _)

/-- A text of one pattern after another starts with its first character in the first of them, or in
the second if there the first is blank. -/
theorem cons_mem_seq_iff {c : Char} : c :: s ∈ (seq p q).language ↔
    (∃ a, c :: a ∈ p.language ∧ ∃ b ∈ q.language, a ++ b = s) ∨
      [] ∈ p.language ∧ c :: s ∈ q.language := by
  rw [mem_seq_iff]
  constructor
  · rintro ⟨a, ha, b, hb, hab⟩
    cases a with
    | nil => exact .inr ⟨ha, (show b = c :: s from hab) ▸ hb⟩
    | cons d a =>
      obtain ⟨rfl, rfl⟩ := List.cons.inj hab
      exact .inl ⟨a, ha, b, hb, rfl⟩
  · rintro (⟨a, ha, b, hb, rfl⟩ | ⟨hp, hq⟩)
    · exact ⟨c :: a, ha, b, hb, rfl⟩
    · exact ⟨[], hp, c :: s, hq, rfl⟩

theorem cons_mem_many_iff {c : Char} : c :: s ∈ (many p).language ↔
    ∃ a, c :: a ∈ p.language ∧ ∃ b ∈ (many p).language, a ++ b = s := by
  constructor
  · intro h
    obtain ⟨parts, hs, hparts⟩ := Language.mem_kstar_iff_exists_nonempty.1 h
    cases parts with
    | nil => cases hs
    | cons part rest =>
      obtain ⟨⟨hpart, hne⟩, hrest⟩ := List.forall_mem_cons.1 hparts
      cases part with
      | nil => exact absurd rfl hne
      | cons d a =>
        obtain ⟨rfl, rfl⟩ := List.cons.inj hs
        exact ⟨a, hpart, rest.flatten, mem_many_iff.2 ⟨rest, rfl, fun b hb => (hrest b hb).1⟩, rfl⟩
  · rintro ⟨a, ha, b, hb, rfl⟩
    obtain ⟨parts, rfl, hparts⟩ := mem_many_iff.1 hb
    exact mem_many_iff.2 ⟨(c :: a) :: parts, rfl, List.forall_mem_cons.2 ⟨ha, hparts⟩⟩

theorem mem_after_iff (c : Char) (p : Pattern) {s : List Char} :
    s ∈ (p.after c).language ↔ c :: s ∈ p.language := by
  induction p generalizing s with
  | nothing => exact iff_of_false (Language.notMem_zero _) (Language.notMem_zero _)
  | blank => exact iff_of_false (Language.notMem_zero _) fun h => nomatch (Language.mem_one _).1 h
  | one allowed =>
    rw [after, mem_one_iff]
    by_cases hc : allowed c = true
    · simp [hc, language, Language.mem_one]
    · simp [hc, language]
  | seq p q ihp ihq =>
    rw [cons_mem_seq_iff, after]
    have hhead : s ∈ (seq (p.after c) q).language ↔
        ∃ a, c :: a ∈ p.language ∧ ∃ b ∈ q.language, a ++ b = s := by
      simp only [mem_seq_iff, ihp]
    by_cases hblank : p.acceptsBlank = true
    · rw [if_pos hblank, language, Language.mem_add, hhead, ihq,
        and_iff_right ((acceptsBlank_iff p).1 hblank)]
    · rw [if_neg hblank, hhead]
      exact (or_iff_left fun h => hblank ((acceptsBlank_iff p).2 h.1)).symm
  | either p q ihp ihq =>
    rw [after, language, Language.mem_add, ihp, ihq, language, Language.mem_add]
  | many p ih =>
    rw [cons_mem_many_iff, after, mem_seq_iff]
    simp only [ih]

theorem accepts_iff (p : Pattern) (s : List Char) : p.accepts s = true ↔ s ∈ p.language := by
  induction s generalizing p with
  | nil => exact acceptsBlank_iff p
  | cons c s ih => rw [accepts, ih, mem_after_iff]

end SharedQuota.Text.Pattern
