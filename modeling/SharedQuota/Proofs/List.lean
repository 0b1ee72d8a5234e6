import Mathlib.Algebra.Order.Ring.Int
import Mathlib.Data.List.Forall2

/-!
Facts about lists: entries that are replaced, counted, picked out, or matched.
-/

namespace SharedQuota

variable {α β : Type}

theorem sum_map_set {f : α → Nat} {l : List α} {i : Nat} {a b : α} (h : l[i]? = some a) :
    ((l.set i b).map f).sum + f a = (l.map f).sum + f b := by
  induction l generalizing i with
  | nil => simp at h
  | cons head rest ih =>
    cases i with
    | zero =>
      simp only [List.getElem?_cons_zero, Option.some.injEq] at h
      simp [h]
      omega
    | succ i =>
      have := ih (by simpa using h)
      simp only [List.set_cons_succ, List.map_cons, List.sum_cons]
      omega

theorem findSome?_set {f : α → Option β} {l : List α} {i : Nat} {a b : α} (h : l[i]? = some a)
    (hf : f b = f a) : (l.set i b).findSome? f = l.findSome? f := by
  induction l generalizing i with
  | nil => rfl
  | cons head rest ih =>
    cases i with
    | zero =>
      obtain rfl := Option.some.inj h
      rw [List.set_cons_zero, List.findSome?_cons, List.findSome?_cons, hf]
    | succ i => rw [List.set_cons_succ, List.findSome?_cons, List.findSome?_cons, ih h]

theorem countP_eq_length_filter_range (p : α → Bool) (l : List α) :
    l.countP p = ((List.range l.length).filter fun i => l[i]?.any p).length := by
  induction l with
  | nil => rfl
  | cons a l ih =>
    rw [List.length_cons, List.range_succ_eq_map, List.filter_cons, List.filter_map]
    simp only [List.countP_cons, ih, List.getElem?_cons_zero, Option.any_some]
    by_cases ha : p a = true <;> simp [ha, Function.comp_def]

theorem filter_and (p q : α → Bool) (l : List α) :
    (l.filter fun a => p a && q a) = (l.filter p).filter q := by
  rw [List.filter_filter]
  exact List.filter_congr fun a _ => Bool.and_comm ..

theorem filterMap_sublist_map {f : α → Option β} {g : α → β}
    (h : ∀ a b, f a = some b → b = g a) (l : List α) : (l.filterMap f).Sublist (l.map g) := by
  induction l with
  | nil => exact .slnil
  | cons a l ih =>
    rw [List.filterMap_cons, List.map_cons]
    split
    case h_1 => exact ih.cons _
    case h_2 b hb => exact h a b hb ▸ ih.cons_cons _

theorem lt_foldl_min_iff {k a : Nat} {l : List Nat} :
    k < l.foldl min a ↔ k < a ∧ ∀ b ∈ l, k < b := by
  induction l generalizing a with
  | nil => simp
  | cons b l ih =>
    rw [List.foldl_cons, ih]
    simp [and_assoc]

theorem map_eq_of_mapM {f : α → Option β} {as : List α} {bs : List β}
    (h : as.mapM f = some bs) : as.map f = bs.map some := by
  induction as generalizing bs with
  | nil =>
    cases h
    rfl
  | cons a as ih =>
    rw [List.mapM_cons] at h
    obtain ⟨b, hb, h⟩ := Option.bind_eq_some_iff.1 h
    obtain ⟨rest, hrest, h⟩ := Option.bind_eq_some_iff.1 h
    obtain rfl := Option.some.inj h
    rw [List.map_cons, List.map_cons, hb, ih hrest]

/-- What is written entry by entry is read back if each entry is. -/
theorem mapM_map_eq_some {f : α → β} {g : β → Option α} (h : ∀ a, g (f a) = some a)
    (l : List α) : (l.map f).mapM g = some l := by
  induction l with
  | nil => rfl
  | cons a l ih => rw [List.map_cons, List.mapM_cons, h, ih]; rfl

theorem isSome_mapM {f : α → Option β} {l : List α} (h : ∀ a ∈ l, (f a).isSome) :
    (l.mapM f).isSome := by
  induction l with
  | nil => rfl
  | cons a l ih =>
    obtain ⟨ha, hrest⟩ := List.forall_mem_cons.1 h
    obtain ⟨b, hb⟩ := Option.isSome_iff_exists.1 ha
    obtain ⟨bs, hbs⟩ := Option.isSome_iff_exists.1 (ih hrest)
    rw [List.mapM_cons, hb, hbs]
    rfl

/-- In another order the same entries are read, or none is. -/
theorem rel_mapM_of_perm {f : α → Option β} {l l' : List α} (h : l.Perm l') :
    Option.Rel List.Perm (l.mapM f) (l'.mapM f) := by
  induction h with
  | nil => exact .some (.refl _)
  | cons a _ ih =>
    rw [List.mapM_cons, List.mapM_cons]
    cases f a with
    | none => exact .none
    | some b =>
      generalize List.mapM f _ = m at *
      generalize List.mapM f _ = m' at *
      cases ih with
      | none => exact .none
      | some h => exact .some (h.cons b)
  | swap a b l =>
    simp only [List.mapM_cons]
    cases f a <;> cases f b <;> cases l.mapM f <;> first | exact .none | exact .some (.swap ..)
  | trans _ _ ih ih' =>
    generalize List.mapM f _ = m at *
    generalize List.mapM f _ = m' at *
    generalize List.mapM f _ = m'' at *
    cases ih with
    | none => exact ih'
    | some h =>
      cases ih' with
      | some h' => exact .some (h.trans h')

theorem add_sum_le_foldl {f : Nat → α → Nat} {need : α → Nat}
    (h : ∀ n a, n + need a ≤ f n a) (n : Nat) (l : List α) :
    n + (l.map need).sum ≤ l.foldl f n := by
  induction l generalizing n with
  | nil => simp
  | cons a l ih =>
    have := h n a
    have := ih (f n a)
    rw [List.map_cons, List.sum_cons, List.foldl_cons]
    omega

theorem exists_right_of_forall₂ {R : α → β → Prop} {l : List α} {m : List β}
    (h : List.Forall₂ R l m) : ∀ a ∈ l, ∃ b ∈ m, R a b := by
  induction h with
  | nil => simp
  | cons hab _ ih =>
    refine List.forall_mem_cons.2 ⟨⟨_, List.mem_cons_self, hab⟩, fun a ha => ?_⟩
    obtain ⟨b, hb, hR⟩ := ih a ha
    exact ⟨b, List.mem_cons_of_mem _ hb, hR⟩

theorem exists_left_of_forall₂ {R : α → β → Prop} {l : List α} {m : List β}
    (h : List.Forall₂ R l m) : ∀ b ∈ m, ∃ a ∈ l, R a b :=
  exists_right_of_forall₂ (R := flip R) (List.Forall₂.flip h)

/-- Where one of two matched lists is cut at an entry, the other is cut at the entry it matches. -/
theorem exists_cut_of_forall₂ {R : α → β → Prop} {l before after : List α} {a : α} {m : List β}
    (h : List.Forall₂ R l m) (hl : l = before ++ a :: after) : ∃ before' b after',
      m = before' ++ b :: after' ∧ R a b ∧ List.Forall₂ R after after' := by
  induction h generalizing before with
  | nil => simp at hl
  | @cons x y xs ys hxy hrest ih =>
    cases before with
    | nil =>
      obtain ⟨rfl, rfl⟩ := List.cons.inj hl
      exact ⟨[], y, ys, rfl, hxy, hrest⟩
    | cons x' before =>
      obtain ⟨before', b, after', rfl, hab, hafter⟩ := ih (List.cons.inj hl).2
      exact ⟨y :: before', b, after', rfl, hab, hafter⟩

theorem exists_forall₂ {R : α → β → Prop} {l : List α} (h : ∀ a ∈ l, ∃ b, R a b) :
    ∃ m, List.Forall₂ R l m := by
  induction l with
  | nil => exact ⟨[], .nil⟩
  | cons a l ih =>
    obtain ⟨⟨b, hb⟩, hrest⟩ := List.forall_mem_cons.1 h
    obtain ⟨m, hm⟩ := ih hrest
    exact ⟨b :: m, .cons hb hm⟩

theorem rel_find?_of_forall₂ {R : α → β → Prop} {l : List α} {m : List β}
    (h : List.Forall₂ R l m) {p : α → Bool} {q : β → Bool} (hpq : ∀ a b, R a b → q b = p a) :
    Option.Rel R (l.find? p) (m.find? q) := by
  induction h with
  | nil => exact .none
  | @cons a b l m hab _ ih =>
    rw [List.find?_cons, List.find?_cons, hpq a b hab]
    cases p a with
    | true => exact .some hab
    | false => exact ih

/-- Entries that match are as good as each other if they are so where they stand. -/
theorem any_eq_of_forall₂ {R : α → β → Prop} {l : List α} {m : List β}
    (h : List.Forall₂ R l m) {p : α → Bool} {q : β → Bool}
    (hpq : ∀ a ∈ l, ∀ b ∈ m, R a b → q b = p a) : m.any q = l.any p := by
  induction h with
  | nil => rfl
  | @cons a b l m hab _ ih =>
    rw [List.any_cons, List.any_cons, hpq a List.mem_cons_self b List.mem_cons_self hab,
      ih fun a ha b hb => hpq a (List.mem_cons_of_mem _ ha) b (List.mem_cons_of_mem _ hb)]

end SharedQuota
