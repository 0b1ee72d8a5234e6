/-!
Cutting texts at a character and trimming blanks. The cuts work on character lists; each law says
that the parts and the character between them make up the whole.
-/

namespace SharedQuota.Text

def cutFirst? (sep : Char) : List Char → Option (List Char × List Char)
  | [] => none
  | c :: rest =>
    if c = sep then some ([], rest)
    else (cutFirst? sep rest).map fun p => (c :: p.1, p.2)

theorem cutFirst?_eq_some {sep : Char} {s a b : List Char} :
    cutFirst? sep s = some (a, b) ↔ s = a ++ sep :: b ∧ sep ∉ a := by
  induction s generalizing a with
  | nil => simp [cutFirst?]
  | cons c rest ih =>
    rw [cutFirst?]
    by_cases h : c = sep
    · subst h
      cases a with
      | nil => simp
      | cons d a => simp +contextual [eq_comm]
    · cases a with
      | nil => simp [h]
      | cons d a =>
        simp only [if_neg h, Option.map_eq_some_iff, Prod.exists, Prod.mk.injEq, List.cons.injEq,
          List.cons_append, List.mem_cons, not_or]
        constructor
        · rintro ⟨a', b', hcut, ⟨rfl, rfl⟩, rfl⟩
          have := ih.1 hcut
          exact ⟨⟨rfl, this.1⟩, fun h' => h h'.symm, this.2⟩
        · rintro ⟨⟨rfl, hs⟩, -, hm⟩
          exact ⟨a, b, ih.2 ⟨hs, hm⟩, ⟨rfl, rfl⟩, rfl⟩

theorem cutFirst?_eq_none {sep : Char} {s : List Char} : cutFirst? sep s = none ↔ sep ∉ s := by
  induction s with
  | nil => simp [cutFirst?]
  | cons c rest ih =>
    rw [cutFirst?]
    by_cases h : c = sep
    · simp [h]
    · simp [h, ih, Ne.symm h]

def cutLast? (sep : Char) (s : List Char) : Option (List Char × List Char) :=
  (cutFirst? sep s.reverse).map fun p => (p.2.reverse, p.1.reverse)

theorem cutLast?_eq_some {sep : Char} {s a b : List Char} :
    cutLast? sep s = some (a, b) ↔ s = a ++ sep :: b ∧ sep ∉ b := by
  simp only [cutLast?, Option.map_eq_some_iff, Prod.exists, Prod.mk.injEq, cutFirst?_eq_some]
  constructor
  · rintro ⟨x, y, ⟨hs, hx⟩, rfl, rfl⟩
    rw [List.reverse_eq_iff] at hs
    exact ⟨by simp [hs], by simpa using hx⟩
  · rintro ⟨rfl, hb⟩
    exact ⟨b.reverse, a.reverse, ⟨by simp, by simpa using hb⟩, by simp, by simp⟩

theorem cutLast?_eq_none {sep : Char} {s : List Char} : cutLast? sep s = none ↔ sep ∉ s := by
  simp [cutLast?, cutFirst?_eq_none]

/-- The parts between the occurrences of `sep`; there is always at least one. -/
def parts (sep : Char) : List Char → List (List Char)
  | [] => [[]]
  | c :: rest =>
    if c = sep then [] :: parts sep rest
    else match parts sep rest with
      | [] => [[c]]
      | p :: ps => (c :: p) :: ps

/-- White space as Unicode has it. -/
def isBlank (c : Char) : Bool :=
  let n := c.toNat
  (9 ≤ n && n ≤ 13) || n = 0x20 || n = 0x85 || n = 0xa0 || n = 0x1680 ||
    (0x2000 ≤ n && n ≤ 0x200a) || n = 0x2028 || n = 0x2029 || n = 0x202f || n = 0x205f || n = 0x3000

def trim (s : List Char) : List Char :=
  ((s.dropWhile isBlank).reverse.dropWhile isBlank).reverse

/-- The trimmed, non-empty items of a list written with commas. -/
def commaItems (s : String) : List String :=
  (((parts ',' s.toList).map trim).filter (!·.isEmpty)).map String.ofList

end SharedQuota.Text
