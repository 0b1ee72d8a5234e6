import SharedQuota.Json.Parser
import SharedQuota.Json.Printer

/-!
Values that are written and read back. Main statement (`parse?_render`): the text of a value in
which there is no number is read as that value.
-/

namespace SharedQuota.Json

/-! ### Strings -/

theorem unitDigits_of_lt {n : Nat} (h : n < 0x20) :
    unitDigits n = ['0', '0', Nat.digitChar (n / 16), Nat.digitChar (n % 16)] := by
  have : ∀ n : Fin 0x20,
      unitDigits n = ['0', '0', Nat.digitChar (n / 16), Nat.digitChar (n % 16)] := by decide
  exact this ⟨n, h⟩

theorem hexValue?_digitChar {d : Nat} (h : d < 16) : hexValue? (Nat.digitChar d) = some d := by
  have : ∀ d : Fin 16, hexValue? (Nat.digitChar d) = some d.val := by decide
  exact this ⟨d, h⟩

variable {s rest : List Char} {ps : List Piece}

theorem pieces?_unitDigits {n : Nat} (hn : n < 0x20) (h : pieces? s = some (ps, rest)) :
    pieces? ('\\' :: 'u' :: unitDigits n ++ s) = some (.unit n :: ps, rest) := by
  have hzero : hexValue? '0' = some 0 := by decide
  have hhigh : hexValue? (Nat.digitChar (n / 16)) = some (n / 16) := hexValue?_digitChar (by omega)
  have hlow : hexValue? (Nat.digitChar (n % 16)) = some (n % 16) := hexValue?_digitChar (by omega)
  have hn : ((0 * 16 + 0) * 16 + n / 16) * 16 + n % 16 = n := by omega
  rw [unitDigits_of_lt ‹_›]
  simp only [List.cons_append, List.nil_append, pieces?, hzero, hhigh, hlow, h, hn,
    Option.bind_eq_bind, Option.bind_some]

theorem characters?_unit {n : Nat} (hn : n < 0x20) (ps : List Piece) :
    characters? (.unit n :: ps) = (characters? ps).map (Char.ofNat n :: ·) := by
  have hhigh : isHigh n = false := by simp [isHigh]; omega
  have hlow : isLow n = false := by simp [isLow]; omega
  cases ps with
  | nil => simp [characters?, hhigh, hlow]
  | cons p ps => cases p <;> simp [characters?, hhigh, hlow]

/-- What is written for a character is read as one piece of a string, and that piece is read as the
character. -/
theorem exists_piece (c : Char) (h : pieces? s = some (ps, rest)) : ∃ piece,
    pieces? (escapedChar c ++ s) = some (piece :: ps, rest) ∧
      characters? (piece :: ps) = (characters? ps).map (c :: ·) := by
  unfold escapedChar
  split
  case h_8 hquote hslash _ _ _ _ _ =>
    split
    case isTrue hc =>
      refine ⟨.unit c.toNat, pieces?_unitDigits hc h, ?_⟩
      rw [characters?_unit hc, Char.ofNat_toNat]
    case isFalse hc =>
      refine ⟨.char c, ?_, rfl⟩
      rw [List.singleton_append, pieces?]
      · simp [hc, h]
      · exact hquote
      · exact fun _ _ _ _ _ hc => (hslash hc).elim
      · exact fun _ _ hc => (hslash hc).elim
  all_goals exact ⟨.char _, by simp [pieces?, escaped?, h], rfl⟩

theorem exists_pieces (cs rest : List Char) : ∃ ps,
    pieces? (cs.flatMap escapedChar ++ '"' :: rest) = some (ps, rest) ∧
      characters? ps = some cs := by
  induction cs with
  | nil => exact ⟨[], rfl, rfl⟩
  | cons c cs ih =>
    obtain ⟨ps, hps, hcs⟩ := ih
    obtain ⟨piece, hpiece, hc⟩ := exists_piece c hps
    refine ⟨piece :: ps, ?_, ?_⟩
    · rw [List.flatMap_cons, List.append_assoc, hpiece]
    · rw [hc, hcs, Option.map_some]

theorem toList_renderString (t : String) (rest : List Char) :
    (renderString t).toList ++ rest = '"' :: (t.toList.flatMap escapedChar ++ '"' :: rest) := by
  simp [renderString]

theorem readString?_render (t : String) (rest : List Char) :
    readString? (t.toList.flatMap escapedChar ++ '"' :: rest) = some (some t, rest) := by
  obtain ⟨ps, hps, hcs⟩ := exists_pieces t.toList rest
  simp only [readString?, hps, hcs, Option.map_some, String.ofList_toList]

/-! ### Values -/

mutual

/-- A value in which there is no number. -/
def numberless : Json → Bool
  | .number _ => false
  | .unreadable => false
  | .array items => numberlessItems items
  | .object members => numberlessMembers members
  | _ => true

def numberlessItems : List Json → Bool
  | [] => true
  | j :: rest => numberless j && numberlessItems rest

def numberlessMembers : List (String × Json) → Bool
  | [] => true
  | (_, j) :: rest => numberless j && numberlessMembers rest

end

theorem toList_render_string (t : String) (rest : List Char) :
    (render (.string t)).toList ++ rest = '"' :: (t.toList.flatMap escapedChar ++ '"' :: rest) :=
  toList_renderString t rest

theorem toList_render_array (items : List Json) (rest : List Char) :
    (render (.array items)).toList ++ rest =
      '[' :: ((renderItems items).toList ++ ']' :: rest) := by
  simp [render]

theorem toList_render_object (members : List (String × Json)) (rest : List Char) :
    (render (.object members)).toList ++ rest =
      '\x7b' :: ((renderMembers members).toList ++ '\x7d' :: rest) := by
  simp [render]

/-- A value starts with no space and with no closing bracket. -/
theorem exists_cons_render {j : Json} (h : j.numberless = true) (rest : List Char) : ∃ c s,
    j.render.toList ++ rest = c :: s ∧ isSpace c = false ∧ c ≠ ']' := by
  cases j with
  | null => exact ⟨'n', _, rfl, rfl, by decide⟩
  | bool b => cases b <;> exact ⟨_, _, rfl, rfl, by decide⟩
  | number => cases h
  | string t => exact ⟨'"', _, toList_render_string t rest, rfl, by decide⟩
  | array items => exact ⟨'[', _, toList_render_array items rest, rfl, by decide⟩
  | object members => exact ⟨'\x7b', _, toList_render_object members rest, rfl, by decide⟩
  | unreadable => cases h

theorem skipSpace_cons {c : Char} {s : List Char} (h : isSpace c = false) :
    skipSpace (c :: s) = c :: s := by
  rw [skipSpace, List.dropWhile_cons, h, if_neg Bool.false_ne_true]

theorem skipSpace_render {j : Json} (h : j.numberless = true) (rest : List Char) :
    skipSpace (j.render.toList ++ rest) = j.render.toList ++ rest := by
  obtain ⟨c, s, hs, hc, -⟩ := exists_cons_render h rest
  rw [hs, skipSpace_cons hc]

theorem ofMembers_some (members : List (String × Json)) :
    ofMembers (members.map fun m => (some m.1, m.2)) = .object members := by
  have hmap : (members.map fun m => (some m.1, m.2)).mapM
      (fun (m : Option String × Json) => m.1.map (·, m.2)) = some members := by
    induction members with
    | nil => rfl
    | cons m members ih => rw [List.map_cons, List.mapM_cons, ih]; rfl
  simp only [ofMembers, hmap]

theorem toList_renderItems_cons (j j' : Json) (items : List Json) (rest : List Char) :
    (renderItems (j :: j' :: items)).toList ++ rest =
      j.render.toList ++ ',' :: ((renderItems (j' :: items)).toList ++ rest) := by
  simp [renderItems]

/-- So do items, which start with the first of them. -/
theorem exists_cons_renderItems {j : Json} {items : List Json}
    (h : numberlessItems (j :: items) = true) (rest : List Char) : ∃ c s,
      (renderItems (j :: items)).toList ++ rest = c :: s ∧ isSpace c = false ∧ c ≠ ']' := by
  rw [numberlessItems, Bool.and_eq_true] at h
  cases items with
  | nil => exact exists_cons_render h.1 rest
  | cons j' items =>
    rw [toList_renderItems_cons]
    exact exists_cons_render h.1 _

theorem skipSpace_renderItems {j : Json} {items : List Json}
    (h : numberlessItems (j :: items) = true) (rest : List Char) :
    skipSpace ((renderItems (j :: items)).toList ++ rest) =
      (renderItems (j :: items)).toList ++ rest := by
  obtain ⟨c, s, hs, hc, -⟩ := exists_cons_renderItems h rest
  rw [hs, skipSpace_cons hc]

theorem toList_renderMembers_singleton (k : String) (j : Json) (rest : List Char) :
    (renderMembers [(k, j)]).toList ++ rest =
      '"' :: (k.toList.flatMap escapedChar ++ '"' :: ':' :: (j.render.toList ++ rest)) := by
  simp [renderMembers, renderString]

theorem toList_renderMembers_cons (k : String) (j : Json) (m : String × Json)
    (members : List (String × Json)) (rest : List Char) :
    (renderMembers ((k, j) :: m :: members)).toList ++ rest =
      '"' :: (k.toList.flatMap escapedChar ++ '"' :: ':' ::
        (j.render.toList ++ ',' :: ((renderMembers (m :: members)).toList ++ rest))) := by
  simp [renderMembers, renderString]

/-- Members start with the quote of the first key. -/
theorem exists_cons_renderMembers (m : String × Json) (members : List (String × Json))
    (rest : List Char) : ∃ s, (renderMembers (m :: members)).toList ++ rest = '"' :: s := by
  cases members with
  | nil => exact ⟨_, toList_renderMembers_singleton m.1 m.2 rest⟩
  | cons m' members => exact ⟨_, toList_renderMembers_cons m.1 m.2 m' members rest⟩

theorem skipSpace_renderMembers (m : String × Json) (members : List (String × Json))
    (rest : List Char) : skipSpace ((renderMembers (m :: members)).toList ++ rest) =
      (renderMembers (m :: members)).toList ++ rest := by
  obtain ⟨s, hs⟩ := exists_cons_renderMembers m members rest
  rw [hs]
  rfl

theorem one_le_length_render {j : Json} (h : j.numberless = true) : 1 ≤ j.render.toList.length := by
  obtain ⟨c, s, hs, -, -⟩ := exists_cons_render h []
  rw [List.append_nil] at hs
  simp [hs]

/-- So much fuel reads all texts of half its length. A value takes one of it before its items and an
item one before its value, and for each of the two a character is written. -/
structure Suffices (fuel : Nat) : Prop where
  value : ∀ (j : Json) (rest : List Char), j.numberless = true →
    2 * j.render.toList.length ≤ fuel →
      readValue? fuel (j.render.toList ++ rest) = some (j, rest)
  items : ∀ (j : Json) (items : List Json) (rest : List Char),
    numberlessItems (j :: items) = true →
    2 * (renderItems (j :: items)).toList.length + 1 ≤ fuel →
      readItems? fuel ((renderItems (j :: items)).toList ++ ']' :: rest) = some (j :: items, rest)
  members : ∀ (m : String × Json) (members : List (String × Json)) (rest : List Char),
    numberlessMembers (m :: members) = true →
    2 * (renderMembers (m :: members)).toList.length + 1 ≤ fuel →
      readMembers? fuel ((renderMembers (m :: members)).toList ++ '\x7d' :: rest) =
        some ((m :: members).map fun m => (some m.1, m.2), rest)

theorem suffices_zero : Suffices 0 where
  value j rest h hfuel := by
    have := one_le_length_render h
    omega
  items j items rest h hfuel := by omega
  members m members rest h hfuel := by omega

variable {fuel : Nat}

theorem Suffices.readItems? (hfuel : Suffices fuel) (j : Json) (items : List Json)
    (rest : List Char) (h : numberlessItems (j :: items) = true)
    (hlength : 2 * (renderItems (j :: items)).toList.length ≤ fuel) :
    readItems? (fuel + 1) ((renderItems (j :: items)).toList ++ ']' :: rest) =
      some (j :: items, rest) := by
  rw [numberlessItems, Bool.and_eq_true] at h
  cases items with
  | nil =>
    have hvalue := hfuel.value j (']' :: rest) h.1 hlength
    rw [renderItems, Json.readItems?, hvalue]
    rfl
  | cons j' items =>
    simp only [renderItems, String.toList_append, List.length_append] at hlength
    have hitems := hfuel.items j' items rest h.2 (by simp at hlength; omega)
    rw [toList_renderItems_cons, Json.readItems?, hfuel.value j _ h.1 (by omega)]
    show (Json.readItems? fuel (skipSpace _)).map _ = _
    rw [skipSpace_renderItems h.2, hitems]
    rfl

theorem Suffices.readMembers? (hfuel : Suffices fuel) (m : String × Json)
    (members : List (String × Json)) (rest : List Char)
    (h : numberlessMembers (m :: members) = true)
    (hlength : 2 * (renderMembers (m :: members)).toList.length ≤ fuel) :
    readMembers? (fuel + 1) ((renderMembers (m :: members)).toList ++ '\x7d' :: rest) =
      some ((m :: members).map fun m => (some m.1, m.2), rest) := by
  obtain ⟨k, j⟩ := m
  rw [numberlessMembers, Bool.and_eq_true] at h
  cases members with
  | nil =>
    simp only [renderMembers, String.toList_append, List.length_append] at hlength
    have hvalue := hfuel.value j ('\x7d' :: rest) h.1 (by omega)
    rw [toList_renderMembers_singleton, Json.readMembers?]
    simp only [readString?_render]
    show (Json.readValue? fuel (skipSpace _) >>= _) = _
    rw [skipSpace_render h.1, hvalue]
    rfl
  | cons m members =>
    simp only [renderMembers, String.toList_append, List.length_append] at hlength
    have hvalue := hfuel.value j
      (',' :: ((renderMembers (m :: members)).toList ++ '\x7d' :: rest)) h.1 (by omega)
    have hmembers := hfuel.members m members rest h.2 (by simp at hlength; omega)
    rw [toList_renderMembers_cons, Json.readMembers?]
    simp only [readString?_render]
    show (Json.readValue? fuel (skipSpace _) >>= _) = _
    rw [skipSpace_render h.1, hvalue]
    show (Json.readMembers? fuel (skipSpace _)).map _ = _
    rw [skipSpace_renderMembers, hmembers]
    rfl

theorem Suffices.readValue? (hfuel : Suffices fuel) (j : Json) (rest : List Char)
    (h : j.numberless = true) (hlength : 2 * j.render.toList.length ≤ fuel + 1) :
    readValue? (fuel + 1) (j.render.toList ++ rest) = some (j, rest) := by
  cases j with
  | null => rfl
  | bool b => cases b <;> rfl
  | number => cases h
  | string t =>
    rw [toList_render_string]
    simp only [Json.readValue?, readString?_render, Option.map_some, Option.getD_some]
  | array items =>
    cases items with
    | nil => rfl
    | cons j items =>
      simp only [render, String.toList_append, List.length_append] at hlength
      have hitems := hfuel.items j items rest h (by simp at hlength; omega)
      obtain ⟨c, s, hs, -, hc⟩ := exists_cons_renderItems h (']' :: rest)
      rw [toList_render_array, Json.readValue?, skipSpace_renderItems h]
      rw [hs] at hitems ⊢
      split
      case h_1 rest' hclosed => exact absurd (List.cons.inj hclosed).1 hc
      case h_2 => rw [hitems, Option.map_some]
  | object members =>
    cases members with
    | nil => rfl
    | cons m members =>
      simp only [render, String.toList_append, List.length_append] at hlength
      have hmembers := hfuel.members m members rest h (by simp at hlength; omega)
      obtain ⟨s, hs⟩ := exists_cons_renderMembers m members ('\x7d' :: rest)
      rw [toList_render_object, Json.readValue?, skipSpace_renderMembers]
      rw [hs] at hmembers ⊢
      split
      case h_1 rest' hclosed => exact absurd (List.cons.inj hclosed).1 (by decide)
      case h_2 => simp only [hmembers, Option.map_some, ofMembers_some]
  | unreadable => cases h

theorem Suffices.succ (h : Suffices fuel) : Suffices (fuel + 1) where
  value := h.readValue?
  items j items rest hitems hlength := h.readItems? j items rest hitems (by omega)
  members m members rest hmembers hlength := h.readMembers? m members rest hmembers (by omega)

theorem suffices_all (fuel : Nat) : Suffices fuel := by
  induction fuel with
  | zero => exact suffices_zero
  | succ fuel ih => exact ih.succ

/-- The text of a value in which there is no number is read as that value. -/
theorem parse?_render (j : Json) (h : j.numberless = true) : parse? j.render = some j := by
  have hread := (suffices_all (2 * j.render.toList.length + 2)).value j [] h (by omega)
  have hskip := skipSpace_render h []
  rw [List.append_nil] at hread hskip
  rw [parse?, hskip]
  simp only [hread, Option.bind_eq_bind, Option.bind_some]
  rfl

end SharedQuota.Json
