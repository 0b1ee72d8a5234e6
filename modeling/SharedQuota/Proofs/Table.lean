import SharedQuota.Table
import Mathlib.Data.List.Induction
import Mathlib.Data.List.Nodup

/-!
What a table answers after each operation, and what its entries have to do with its answers.
-/

namespace SharedQuota

open Std (TransOrd LawfulEqOrd)

namespace Table

variable {κ α β : Type} [Ord κ]

theorem contains_iff (t : Table κ α) {k : κ} : t.contains k = true ↔ ∃ a, t.get? k = some a := by
  simp [contains, Option.isSome_iff_exists]

theorem get?_of_isEmpty {t : Table κ α} (h : t.isEmpty = true) (k : κ) : t.get? k = none := by
  rw [get?, List.isEmpty_iff.1 h]
  rfl

theorem eq_empty_of_isEmpty {t : Table κ α} (h : t.isEmpty = true) : t = empty :=
  ext_entries (List.isEmpty_iff.1 h)

theorem not_contains_empty (k : κ) : ¬ (empty : Table κ α).contains k = true := by
  simp [contains]

section

variable [LawfulEqOrd κ]

theorem ne_of_compare_lt {k k' : κ} (h : compare k k' = .lt) : k ≠ k' := by
  rintro rfl
  simp at h

theorem find_eq_some_iff {l : List (κ × α)} (h : l.Pairwise fun a b => compare a.1 b.1 = .lt)
    {k : κ} {a : α} : find k l = some a ↔ (k, a) ∈ l := by
  induction l with
  | nil => simp [find]
  | cons head rest ih =>
    obtain ⟨k', a'⟩ := head
    obtain ⟨hlt, hrest⟩ := List.pairwise_cons.1 h
    by_cases hk : k = k'
    · subst hk
      have hnot : (k, a) ∉ rest := fun hm => ne_of_compare_lt (hlt _ hm) rfl
      simp [find, hnot, eq_comm]
    · simp [find, hk, ih hrest]

theorem mem_entries_iff (t : Table κ α) {k : κ} {a : α} :
    (k, a) ∈ t.entries ↔ t.get? k = some a :=
  (find_eq_some_iff t.ascending).symm

theorem exists_get? {t : Table κ α} (h : ¬ t.isEmpty = true) : ∃ k a, t.get? k = some a := by
  obtain ⟨⟨k, a⟩, hmem⟩ :=
    List.exists_mem_of_ne_nil t.entries fun hnil => h (List.isEmpty_iff.2 hnil)
  exact ⟨k, a, (mem_entries_iff t).1 hmem⟩

theorem mem_keys_iff (t : Table κ α) {k : κ} : k ∈ t.keys ↔ t.contains k = true := by
  simp [keys, contains_iff, ← mem_entries_iff]

theorem keys_nodup (t : Table κ α) : t.keys.Nodup :=
  List.pairwise_map.2 (t.ascending.imp ne_of_compare_lt)

theorem mem_values_iff (t : Table κ α) {a : α} : a ∈ t.values ↔ ∃ k, t.get? k = some a := by
  simp [values, ← mem_entries_iff]

/-! ### Changing -/

theorem get?_filter (t : Table κ α) (p : κ → α → Bool) (k : κ) :
    (t.filter p).get? k = (t.get? k).filter (p k) := by
  refine Option.ext fun a => ?_
  simp [← mem_entries_iff, filter, Option.filter_eq_some_iff]

theorem get?_map (t : Table κ α) (f : κ → α → β) (k : κ) :
    (t.map f).get? k = (t.get? k).map (f k) := by
  refine Option.ext fun b => ?_
  simp only [← mem_entries_iff, Option.map_eq_some_iff, map, List.mem_map, Prod.mk.injEq]
  constructor
  · rintro ⟨⟨k', a⟩, hm, rfl, rfl⟩
    exact ⟨a, hm, rfl⟩
  · rintro ⟨a, hm, rfl⟩
    exact ⟨(k, a), hm, rfl, rfl⟩

theorem get?_erase [DecidableEq κ] (t : Table κ α) (k q : κ) :
    (t.erase k).get? q = if q = k then none else t.get? q := by
  rw [erase, get?_filter]
  by_cases h : q = k
  · simp [h]
  · have hne : (compare k q != .eq) = true := by simp [Ne.symm h]
    rw [if_neg h]
    cases t.get? q with
    | none => rfl
    | some a => exact if_pos hne

theorem contains_insert [TransOrd κ] [DecidableEq κ] (t : Table κ α) (k : κ) (a : α) {q : κ} :
    (t.insert k a).contains q = true ↔ q = k ∨ t.contains q = true := by
  simp only [contains, get?_insert]
  by_cases h : q = k <;> simp [h]

/-! ### Entering one after the other -/

theorem contains_foldl_insert [TransOrd κ] [DecidableEq κ] (l : List (κ × α)) (t : Table κ α)
    {k : κ} : (l.foldl (fun t e => t.insert e.1 e.2) t).contains k = true ↔
      t.contains k = true ∨ k ∈ l.map (·.1) := by
  induction l generalizing t with
  | nil => simp
  | cons e rest ih =>
    rw [List.foldl_cons, ih, contains_insert, List.map_cons, List.mem_cons, or_assoc, or_left_comm]

theorem contains_ofList [TransOrd κ] [DecidableEq κ] {l : List (κ × α)} {k : κ} :
    (ofList l).contains k = true ↔ k ∈ l.map (·.1) := by
  rw [ofList, contains_foldl_insert]
  simp [contains]

theorem of_get?_foldl_insert [TransOrd κ] [DecidableEq κ] {l : List (κ × α)} {t : Table κ α} {k : κ}
    {a : α} (h : (l.foldl (fun t e => t.insert e.1 e.2) t).get? k = some a) :
    (k, a) ∈ l ∨ t.get? k = some a := by
  induction l generalizing t with
  | nil => exact .inr h
  | cons e rest ih =>
    rcases ih h with hm | hget
    · exact .inl (List.mem_cons_of_mem _ hm)
    · rw [get?_insert] at hget
      split at hget
      case isTrue hk =>
        subst hk
        cases hget
        exact .inl (List.mem_cons_self ..)
      case isFalse => exact .inr hget

theorem mem_of_get?_ofList [TransOrd κ] [DecidableEq κ] {l : List (κ × α)} {k : κ} {a : α}
    (h : (ofList l).get? k = some a) : (k, a) ∈ l :=
  (of_get?_foldl_insert h).resolve_right (nomatch ·)

theorem get?_ofList_map [TransOrd κ] [DecidableEq κ] {l : List κ} {f : κ → α} {k : κ} {a : α} :
    (ofList (l.map fun k => (k, f k))).get? k = some a ↔ k ∈ l ∧ f k = a := by
  constructor
  · intro h
    obtain ⟨k', hmem, heq⟩ := List.mem_map.1 (mem_of_get?_ofList h)
    obtain ⟨rfl, rfl⟩ := Prod.mk.inj heq
    exact ⟨hmem, rfl⟩
  · rintro ⟨hmem, rfl⟩
    have hkey : k ∈ (l.map fun k => (k, f k)).map (·.1) :=
      List.mem_map_of_mem (f := (·.1)) (List.mem_map_of_mem (f := fun k => (k, f k)) hmem)
    obtain ⟨b, hb⟩ := (contains_iff _).1 (contains_ofList.2 hkey)
    obtain ⟨k', -, heq⟩ := List.mem_map.1 (mem_of_get?_ofList hb)
    obtain ⟨rfl, rfl⟩ := Prod.mk.inj heq
    exact hb

/-- Of the entries for one key the last is found. -/
theorem get?_ofList_eq_some_iff [TransOrd κ] [DecidableEq κ] {l : List (κ × α)} {k : κ} {a : α} :
    (ofList l).get? k = some a ↔
      ∃ before after, l = before ++ (k, a) :: after ∧ ∀ e ∈ after, e.1 ≠ k := by
  induction l using List.reverseRecOn with
  | nil => simp [ofList]
  | append_singleton l e ih =>
    rw [ofList, List.foldl_concat, ← ofList, get?_insert]
    constructor
    · intro h
      split at h
      case isTrue hk => exact ⟨l, [], by rw [hk, ← Option.some.inj h], nofun⟩
      case isFalse hk =>
        obtain ⟨before, after, rfl, hafter⟩ := ih.1 h
        refine ⟨before, after ++ [e], by simp, fun e' he' => ?_⟩
        rcases List.mem_append.1 he' with he' | he'
        · exact hafter e' he'
        · exact List.mem_singleton.1 he' ▸ Ne.symm hk
    · rintro ⟨before, after, hl, hafter⟩
      rcases List.eq_nil_or_concat' after with rfl | ⟨after, e', rfl⟩
      · obtain ⟨-, rfl⟩ := List.append_singleton_inj.1 hl
        exact if_pos rfl
      · rw [← List.cons_append, ← List.append_assoc] at hl
        obtain ⟨rfl, rfl⟩ := List.append_singleton_inj.1 hl
        rw [if_neg (Ne.symm (hafter e (by simp)))]
        exact ih.2 ⟨before, after, rfl, fun e' he' => hafter e' (List.mem_append_left _ he')⟩

/-- Of entries with different keys each is found. -/
theorem get?_ofList_of_mem [TransOrd κ] [DecidableEq κ] {l : List (κ × α)}
    (hnodup : (l.map (·.1)).Nodup) {k : κ} {a : α} (h : (k, a) ∈ l) :
    (ofList l).get? k = some a := by
  obtain ⟨b, hb⟩ := (contains_iff _).1 (contains_ofList.2 (List.mem_map_of_mem h))
  have hpair := List.inj_on_of_nodup_map hnodup (mem_of_get?_ofList hb) h rfl
  rw [hb, (Prod.mk.inj hpair).2]

theorem ofList_entries [TransOrd κ] [DecidableEq κ] (t : Table κ α) : ofList t.entries = t := by
  refine ext_get? fun k => Option.ext fun a => ⟨fun h => ?_, fun h => ?_⟩
  · exact (mem_entries_iff t).1 (mem_of_get?_ofList h)
  · exact get?_ofList_of_mem t.keys_nodup ((mem_entries_iff t).2 h)

end

end Table

namespace KeySet

variable {κ : Type} [Ord κ] [LawfulEqOrd κ]

theorem mem_toList_iff (s : KeySet κ) {k : κ} : k ∈ s.toList ↔ s.contains k = true :=
  Table.mem_keys_iff s

theorem toList_ascending {κ : Type} [Ord κ] (s : KeySet κ) :
    s.toList.Pairwise (compare · · = .lt) := List.pairwise_map.2 s.ascending

theorem toList_nodup (s : KeySet κ) : s.toList.Nodup := Table.keys_nodup s

theorem exists_contains {s : KeySet κ} (h : ¬ s.isEmpty = true) : ∃ k, s.contains k = true := by
  obtain ⟨k, a, hk⟩ := Table.exists_get? h
  exact ⟨k, (Table.contains_iff s).2 ⟨a, hk⟩⟩

theorem ext_contains [TransOrd κ] {s t : KeySet κ}
    (h : ∀ k, s.contains k = true ↔ t.contains k = true) : s = t := by
  refine Table.ext_get? fun k => Option.ext fun _ => ?_
  have hk := h k
  rwa [Table.contains, Table.contains, Option.isSome_iff_exists, Option.isSome_iff_exists,
    Unique.exists_iff, Unique.exists_iff] at hk

theorem contains_ofList [TransOrd κ] [DecidableEq κ] {l : List κ} {k : κ} :
    (ofList l).contains k = true ↔ k ∈ l := by
  rw [ofList, Table.contains_ofList, List.map_map]
  simp

theorem ofList_toList [TransOrd κ] [DecidableEq κ] (s : KeySet κ) : ofList s.toList = s :=
  ext_contains fun _ => contains_ofList.trans (mem_toList_iff s)

theorem mem_toList_ofList [TransOrd κ] [DecidableEq κ] {l : List κ} {k : κ} :
    k ∈ (ofList l).toList ↔ k ∈ l := by
  rw [mem_toList_iff, contains_ofList]

end KeySet

end SharedQuota
