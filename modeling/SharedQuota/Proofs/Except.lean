import SharedQuota.Proofs.List

/-!
What computations that may fail have done where they do not fail.
-/

namespace SharedQuota

theorem ok_of_bind {ε α β : Type} {x : Except ε α} {f : α → Except ε β} {b : β}
    (h : x >>= f = .ok b) : ∃ a, x = .ok a ∧ f a = .ok b := by
  cases x with
  | error e => cases h
  | ok a => exact ⟨a, rfl, h⟩

theorem ok_of_mapError {ε ε' α : Type} {x : Except ε α} {f : ε → ε'} {a : α}
    (h : x.mapError f = .ok a) : x = .ok a := by
  cases x with
  | error e => cases h
  | ok a' => cases h; rfl

theorem ok_of_map {ε α β : Type} {x : Except ε α} {f : α → β} {b : β}
    (h : x.map f = .ok b) : ∃ a, x = .ok a ∧ f a = b := by
  cases x with
  | error e => cases h
  | ok a => exact ⟨a, rfl, Except.ok.inj h⟩

theorem exists_error_iff {ε α : Type} {x : Except ε α} :
    (∃ e, x = .error e) ↔ ¬ ∃ a, x = .ok a := by
  cases x <;> simp

/-- A fold of steps that fail or not whatever came before succeeds if each of them does. -/
theorem foldlM_eq_ok_iff {ε α β : Type} {f : β → α → Except ε β} {g : β → α → β}
    {good : α → Prop} (hstep : ∀ b x b', f b x = .ok b' ↔ good x ∧ g b x = b') {xs : List α}
    {b b' : β} : xs.foldlM f b = .ok b' ↔ (∀ x ∈ xs, good x) ∧ xs.foldl g b = b' := by
  induction xs generalizing b with
  | nil => simp [pure, Except.pure]
  | cons x rest ih =>
    rw [List.foldlM_cons, List.forall_mem_cons, List.foldl_cons]
    constructor
    · intro h
      obtain ⟨c, hc, hrest⟩ := ok_of_bind h
      obtain ⟨hgood, rfl⟩ := (hstep b x c).1 hc
      obtain ⟨hall, hvalue⟩ := ih.1 hrest
      exact ⟨⟨hgood, hall⟩, hvalue⟩
    · rintro ⟨⟨hgood, hall⟩, hvalue⟩
      rw [(hstep b x _).2 ⟨hgood, rfl⟩]
      exact ih.2 ⟨hall, hvalue⟩

theorem mapM_eq_ok_iff {ε α β : Type} {f : α → Except ε β} {xs : List α} {ys : List β} :
    xs.mapM f = .ok ys ↔ List.Forall₂ (fun x y => f x = .ok y) xs ys := by
  induction xs generalizing ys with
  | nil => cases ys <;> simp [pure, Except.pure]
  | cons x rest ih =>
    rw [List.mapM_cons]
    constructor
    · intro h
      obtain ⟨y, hy, h⟩ := ok_of_bind h
      obtain ⟨ys', hys, h⟩ := ok_of_bind h
      cases h
      exact .cons hy (ih.1 hys)
    · rintro (_ | ⟨hy, hrest⟩)
      rw [hy, ih.2 hrest]
      rfl

/-- The error is that of the first entry that fails. -/
theorem mapM_eq_error_iff {ε α β : Type} {f : α → Except ε β} {xs : List α} {e : ε} :
    xs.mapM f = .error e ↔ ∃ before x after, xs = before ++ x :: after ∧
      (∀ y ∈ before, ∃ b, f y = .ok b) ∧ f x = .error e := by
  induction xs with
  | nil => simp [pure, Except.pure]
  | cons x rest ih =>
    rw [List.mapM_cons]
    constructor
    · intro h
      cases hx : f x with
      | error e' =>
        rw [hx] at h
        cases h
        exact ⟨[], x, rest, rfl, nofun, hx⟩
      | ok b =>
        cases hrest : rest.mapM f with
        | ok bs =>
          rw [hx, hrest] at h
          cases h
        | error e' =>
          rw [hx, hrest] at h
          cases h
          obtain ⟨before, y, after, rfl, hbefore, hy⟩ := ih.1 hrest
          exact ⟨x :: before, y, after, rfl, List.forall_mem_cons.2 ⟨⟨b, hx⟩, hbefore⟩, hy⟩
    · rintro ⟨before, y, after, hsplit, hbefore, hy⟩
      cases before with
      | nil =>
        obtain ⟨rfl, rfl⟩ := List.cons.inj hsplit
        rw [hy]
        rfl
      | cons x' before =>
        obtain ⟨rfl, rfl⟩ := List.cons.inj hsplit
        obtain ⟨⟨b, hx⟩, hbefore⟩ := List.forall_mem_cons.1 hbefore
        rw [hx, ih.2 ⟨before, y, after, rfl, hbefore, hy⟩]
        rfl

theorem of_mapM {ε α β : Type} {f : α → Except ε β} {xs : List α} {ys : List β}
    (h : xs.mapM f = .ok ys) : ∀ y ∈ ys, ∃ x ∈ xs, f x = .ok y :=
  exists_left_of_forall₂ (mapM_eq_ok_iff.1 h)

end SharedQuota
