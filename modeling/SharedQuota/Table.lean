/-!
Finite maps that list their entries in strictly ascending order of the key.

The entries are the whole value, so two tables are equal exactly when they answer every look-up
alike (`Table.ext_get?`), whatever the order in which they were filled. The main statement about
filling is `Table.get?_alter`: a key that is altered answers its new value and every other key
answers as before.
-/

namespace SharedQuota

open Std (TransOrd LawfulEqOrd)

structure Table (κ α : Type) [Ord κ] where
  entries : List (κ × α)
  ascending : entries.Pairwise fun a b => compare a.1 b.1 = .lt

namespace Table

variable {κ α β : Type} [Ord κ]

@[ext] theorem ext_entries {s t : Table κ α} (h : s.entries = t.entries) : s = t := by
  cases s; cases t; cases h; rfl

instance [DecidableEq κ] [DecidableEq α] : DecidableEq (Table κ α) := fun s t =>
  decidable_of_iff (s.entries = t.entries) ⟨ext_entries, fun h => h ▸ rfl⟩

/-! ### Entry lists -/

/-- The value of the first entry whose key is `k`. -/
def find (k : κ) : List (κ × α) → Option α
  | [] => none
  | (k', a) :: rest => if compare k k' = .eq then some a else find k rest

/-- Replaces the value at `k`, or enters one before the first greater key. -/
def place (k : κ) (f : Option α → α) : List (κ × α) → List (κ × α)
  | [] => [(k, f none)]
  | (k', a) :: rest =>
    match compare k k' with
    | .lt => (k, f none) :: (k', a) :: rest
    | .eq => (k', f (some a)) :: rest
    | .gt => (k', a) :: place k f rest

theorem find_eq_none {k : κ} {l : List (κ × α)} (h : ∀ e ∈ l, compare k e.1 = .lt) :
    find k l = none := by
  induction l with
  | nil => rfl
  | cons head rest ih =>
    have hlt := h _ (List.mem_cons_self ..)
    rw [find, if_neg (by simp_all), ih fun e he => h e (List.mem_cons_of_mem _ he)]

theorem mem_place {k : κ} {f : Option α → α} {l : List (κ × α)} {e : κ × α}
    (h : e ∈ place k f l) : e.1 = k ∨ ∃ e' ∈ l, e'.1 = e.1 := by
  induction l with
  | nil => simp_all [place]
  | cons head rest ih =>
    obtain ⟨k', a⟩ := head
    rw [place] at h
    split at h
    · rcases List.mem_cons.1 h with rfl | h
      · exact .inl rfl
      · exact .inr ⟨e, h, rfl⟩
    · rcases List.mem_cons.1 h with rfl | h
      · exact .inr ⟨(k', a), by simp, rfl⟩
      · exact .inr ⟨e, by simp [h], rfl⟩
    · rcases List.mem_cons.1 h with rfl | h
      · exact .inr ⟨(k', a), by simp, rfl⟩
      · rcases ih h with h | ⟨e', he', hk⟩
        · exact .inl h
        · exact .inr ⟨e', by simp [he'], hk⟩

section

variable [TransOrd κ]

theorem lt_of_mem_cons {k k' : κ} {a : α} {rest : List (κ × α)} (hlt : compare k k' = .lt)
    (h : ((k', a) :: rest).Pairwise fun a b => compare a.1 b.1 = .lt) :
    ∀ e ∈ (k', a) :: rest, compare k e.1 = .lt := fun e he => by
  rcases List.mem_cons.1 he with rfl | he
  · exact hlt
  · exact Std.TransCmp.lt_trans hlt ((List.pairwise_cons.1 h).1 e he)

theorem ascending_place (k : κ) (f : Option α → α) {l : List (κ × α)}
    (h : l.Pairwise fun a b => compare a.1 b.1 = .lt) :
    (place k f l).Pairwise fun a b => compare a.1 b.1 = .lt := by
  induction l with
  | nil => simp [place]
  | cons head rest ih =>
    obtain ⟨k', a⟩ := head
    have hr := List.pairwise_cons.1 h
    rw [place]
    split
    next hlt =>
      refine List.pairwise_cons.2 ⟨fun e he => ?_, h⟩
      rcases List.mem_cons.1 he with rfl | he
      · exact hlt
      · exact Std.TransCmp.lt_trans hlt (hr.1 e he)
    next => exact List.pairwise_cons.2 ⟨hr.1, hr.2⟩
    next hgt =>
      refine List.pairwise_cons.2 ⟨fun e he => ?_, ih hr.2⟩
      rcases mem_place he with hk | ⟨e', he', hk⟩
      · rw [hk]; exact Std.OrientedCmp.lt_of_gt hgt
      · rw [← hk]; exact hr.1 e' he'

end

/-! ### Look-up -/

def get? (t : Table κ α) (k : κ) : Option α := find k t.entries

def contains (t : Table κ α) (k : κ) : Bool := (t.get? k).isSome

def keys (t : Table κ α) : List κ := t.entries.map (·.1)

def values (t : Table κ α) : List α := t.entries.map (·.2)

def size (t : Table κ α) : Nat := t.entries.length

def isEmpty (t : Table κ α) : Bool := t.entries.isEmpty

/-! ### Building -/

def empty : Table κ α := ⟨[], .nil⟩

instance : Inhabited (Table κ α) := ⟨empty⟩

instance : EmptyCollection (Table κ α) := ⟨empty⟩

@[simp] theorem get?_empty (k : κ) : (empty : Table κ α).get? k = none := rfl

/-- Keeps the entries that satisfy `p`. -/
def filter (p : κ → α → Bool) (t : Table κ α) : Table κ α :=
  ⟨t.entries.filter fun e => p e.1 e.2, t.ascending.filter _⟩

def map (f : κ → α → β) (t : Table κ α) : Table κ β :=
  ⟨t.entries.map fun e => (e.1, f e.1 e.2), List.pairwise_map.2 t.ascending⟩

def erase (t : Table κ α) (k : κ) : Table κ α := t.filter fun k' _ => compare k k' != .eq

section

variable [TransOrd κ]

/-- Gives `k` the value `f` makes of the one it has, or of none. -/
def alter (t : Table κ α) (k : κ) (f : Option α → α) : Table κ α :=
  ⟨place k f t.entries, ascending_place k f t.ascending⟩

def insert (t : Table κ α) (k : κ) (a : α) : Table κ α := t.alter k fun _ => a

/-- Enters the pairs one after the other; of equal keys the last stands. -/
def ofList (l : List (κ × α)) : Table κ α := l.foldl (fun t e => t.insert e.1 e.2) empty

end

/-! ### Laws -/

section

variable [TransOrd κ] [LawfulEqOrd κ]

theorem find_place [DecidableEq κ] (k : κ) (f : Option α → α) (l : List (κ × α))
    (h : l.Pairwise fun a b => compare a.1 b.1 = .lt) (q : κ) :
    find q (place k f l) = if q = k then some (f (find k l)) else find q l := by
  induction l with
  | nil => by_cases hq : q = k <;> simp [place, find, hq]
  | cons head rest ih =>
    obtain ⟨k', a⟩ := head
    have hr := List.pairwise_cons.1 h
    rw [place]
    split
    next hlt =>
      rw [find_eq_none (lt_of_mem_cons hlt h), find]
      by_cases hq : q = k <;> simp [hq]
    next heq =>
      obtain rfl := Std.compare_eq_iff_eq.1 heq
      by_cases hq : q = k <;> simp [find, hq]
    next hgt =>
      have hne : k ≠ k' := fun h => by simp [Std.compare_eq_iff_eq.2 h] at hgt
      simp only [find, Std.compare_eq_iff_eq, ih hr.2]
      by_cases hq : q = k
      · subst hq; simp [hne]
      · simp [hq]

theorem get?_alter [DecidableEq κ] (t : Table κ α) (k : κ) (f : Option α → α) (q : κ) :
    (t.alter k f).get? q = if q = k then some (f (t.get? k)) else t.get? q :=
  find_place k f t.entries t.ascending q

@[simp] theorem get?_insert [DecidableEq κ] (t : Table κ α) (k : κ) (a : α) (q : κ) :
    (t.insert k a).get? q = if q = k then some a else t.get? q :=
  get?_alter t k _ q

theorem entries_eq_of_find {l m : List (κ × α)}
    (hl : l.Pairwise fun a b => compare a.1 b.1 = .lt)
    (hm : m.Pairwise fun a b => compare a.1 b.1 = .lt) (h : ∀ k, find k l = find k m) :
    l = m := by
  induction l generalizing m with
  | nil =>
    cases m with
    | nil => rfl
    | cons e m => simpa [find, Std.compare_eq_iff_eq] using h e.1
  | cons e l ih =>
    cases m with
    | nil => simpa [find, Std.compare_eq_iff_eq] using h e.1
    | cons e' m =>
      obtain ⟨k, a⟩ := e
      obtain ⟨k', a'⟩ := e'
      match hc : compare k k' with
      | .lt =>
        have := h k
        rw [find_eq_none (lt_of_mem_cons hc hm)] at this
        simp [find] at this
      | .gt =>
        have := h k'
        rw [find_eq_none (lt_of_mem_cons (Std.OrientedCmp.lt_of_gt hc) hl)] at this
        simp [find] at this
      | .eq =>
        obtain rfl := Std.compare_eq_iff_eq.1 hc
        have ha : a = a' := by simpa [find, Std.compare_eq_iff_eq] using h k
        subst ha
        congr 1
        refine ih (List.pairwise_cons.1 hl).2 (List.pairwise_cons.1 hm).2 fun q => ?_
        by_cases hq : q = k
        · subst hq
          rw [find_eq_none (List.pairwise_cons.1 hl).1, find_eq_none (List.pairwise_cons.1 hm).1]
        · simpa [find, Std.compare_eq_iff_eq, hq] using h q

/-- A table is what it answers. -/
theorem ext_get? {s t : Table κ α} (h : ∀ k, s.get? k = t.get? k) : s = t :=
  ext_entries (entries_eq_of_find s.ascending t.ascending h)

end

end Table

/-- A finite set of keys, listed in strictly ascending order. -/
abbrev KeySet (κ : Type) [Ord κ] := Table κ Unit

namespace KeySet

variable {κ : Type} [Ord κ]

def ofList [TransOrd κ] (l : List κ) : KeySet κ := Table.ofList (l.map (·, ()))

def toList (s : KeySet κ) : List κ := s.keys

end KeySet

end SharedQuota
