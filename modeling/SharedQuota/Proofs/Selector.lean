import SharedQuota.Selector
import SharedQuota.Proofs.Table

/-!
Which labels a selector selects, and that the order of its expressions does not matter.

Main statements (`Selector.selects_iff`, `Selector.Rearranged.selects_eq`).
-/

namespace SharedQuota

/-- What an expression says of labels. -/
def Expression.Holds (e : Expression) (labels : Labels) : Prop :=
  match e.operator with
  | .oneOf => ∃ value, labels.get? e.key = some value ∧ e.values.contains value = true
  | .noneOf => ∀ value, labels.get? e.key = some value → ¬ e.values.contains value = true
  | .present => ∃ value, labels.get? e.key = some value
  | .absent => ∀ value, labels.get? e.key ≠ some value

theorem Expression.holds_iff (e : Expression) (labels : Labels) :
    e.holds labels = true ↔ e.Holds labels := by
  obtain ⟨key, operator, values⟩ := e
  cases operator with
  | oneOf => simp [holds, Holds, Option.any_eq_true_iff_get, Option.eq_some_iff_get_eq]
  | noneOf =>
    cases hvalue : labels.get? key <;> simp [holds, Holds, hvalue]
  | present => exact Table.contains_iff labels
  | absent =>
    cases hvalue : labels.get? key <;> simp [holds, Holds, Table.contains, hvalue]

namespace Selector

variable {s s' : Selector} {labels : Labels}

/-- A selector selects the labels that have all of its pairs and of which all of its expressions
hold. -/
def Selects (s : Selector) (labels : Labels) : Prop :=
  (∀ wanted ∈ s.matchLabels, ∀ key value,
    wanted.get? key = some value → labels.get? key = some value) ∧
  ∀ expressions ∈ s.matchExpressions, ∀ e ∈ expressions, e.Holds labels

theorem mem_pairs_iff {key value : String} : (key, value) ∈ s.pairs ↔
    ∃ wanted ∈ s.matchLabels, wanted.get? key = some value := by
  cases h : s.matchLabels <;> simp [pairs, h, Table.mem_entries_iff]

theorem mem_expressions_iff {e : Expression} : e ∈ s.expressions ↔
    ∃ expressions ∈ s.matchExpressions, e ∈ expressions := by
  cases h : s.matchExpressions <;> simp [expressions, h]

theorem selects_iff : s.selects labels = true ↔ s.Selects labels := by
  rw [selects, Bool.and_eq_true, List.all_eq_true, List.all_eq_true, and_comm, Selects]
  refine and_congr ?pairs ?expressions
  case pairs =>
    simp only [Prod.forall, mem_pairs_iff, beq_iff_eq]
    constructor
    · intro h wanted hw key value hget
      exact h key value ⟨wanted, hw, hget⟩
    · rintro h key value ⟨wanted, hw, hget⟩
      exact h wanted hw key value hget
  case expressions =>
    simp only [Expression.holds_iff, mem_expressions_iff]
    constructor
    · intro h expressions hm e he
      exact h e ⟨expressions, hm, he⟩
    · rintro h e ⟨expressions, hm, he⟩
      exact h expressions hm e he

/-- The same selector with its expressions in some order. -/
structure Rearranged (s s' : Selector) : Prop where
  labels : s.matchLabels = s'.matchLabels
  expressions : Option.Rel List.Perm s.matchExpressions s'.matchExpressions

theorem Rearranged.selects_eq (h : s.Rearranged s') (labels : Labels) :
    s.selects labels = s'.selects labels := by
  have hpairs : s.pairs = s'.pairs := by rw [pairs, pairs, h.labels]
  have hperm : s.expressions.Perm s'.expressions := by
    obtain ⟨wanted, expressions⟩ := s
    obtain ⟨wanted', expressions'⟩ := s'
    cases h.expressions with
    | none => exact .nil
    | some hperm => exact hperm
  rw [selects, selects, hpairs, hperm.all_eq]

end Selector

end SharedQuota
