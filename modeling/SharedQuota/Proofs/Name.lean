import SharedQuota.Name
import SharedQuota.Proofs.Text.Letter
import SharedQuota.Proofs.Text.Pattern

/-!
The grammar of names, told character by character and without a pattern. Main statement
(`accepts_isExact`): a name is qualified exactly if it has one slash at most, a part after it and a
domain before it, and a label value is nothing or a qualified name without a slash.
-/

namespace SharedQuota.Name

open Text (Pattern IsLetterOrDigit IsLowerOrDigit isAlphanumeric_iff isLowerOrDigit_iff)

/-! ### The grammar -/

/-- The first and the last character are allowed at an edge, and all are allowed inside. -/
structure IsFramed (edge inside : Char → Prop) (s : List Char) : Prop where
  first : ∃ c, s.head? = some c ∧ edge c
  last : ∃ c, s.getLast? = some c ∧ edge c
  all : ∀ c ∈ s, inside c

structure IsPart (s : List Char) : Prop where
  nonempty : 1 ≤ bytes s
  short : bytes s ≤ 63
  framed : IsFramed IsLetterOrDigit (fun c => IsLetterOrDigit c ∨ c = '.' ∨ c = '_' ∨ c = '-') s

def IsLabel (s : List Char) : Prop :=
  IsFramed IsLowerOrDigit (fun c => IsLowerOrDigit c ∨ c = '-') s

structure IsDomain (s : List Char) : Prop where
  nonempty : 1 ≤ bytes s
  short : bytes s ≤ 253
  labels : ∃ labels, labels ≠ [] ∧ s = ['.'].intercalate labels ∧ ∀ l ∈ labels, IsLabel l

/-- A text with one slash at most: a part, or a domain and a part on the sides of the slash. -/
structure IsQualifiedName (s : List Char) : Prop where
  slashes : s.count '/' ≤ 1
  bare : '/' ∉ s → IsPart s
  split : ∀ front back, s = front ++ '/' :: back → IsDomain front ∧ IsPart back

/-! ### Characters -/

theorem inPart_iff {c : Char} :
    inPart c = true ↔ IsLetterOrDigit c ∨ c = '.' ∨ c = '_' ∨ c = '-' := by
  simp only [inPart, Bool.or_eq_true, beq_iff_eq, isAlphanumeric_iff]
  tauto

theorem inLabel_iff {c : Char} : inLabel c = true ↔ IsLowerOrDigit c ∨ c = '-' := by
  simp only [inLabel, Bool.or_eq_true, beq_iff_eq, isLowerOrDigit_iff]
  tauto

/-! ### Patterns of framed texts -/

variable {s : List Char} {edge inside : Char → Prop}

/-- A framed text is one character, or two with others between them. -/
theorem isFramed_iff (hinside : ∀ c, edge c → inside c) : IsFramed edge inside s ↔
    (∃ c, s = [c] ∧ edge c) ∨
      ∃ a middle b, s = a :: middle ++ [b] ∧ edge a ∧ edge b ∧ ∀ c ∈ middle, inside c := by
  constructor
  · rintro ⟨⟨a, hfirst, ha⟩, ⟨b, hlast, hb⟩, hall⟩
    obtain ⟨rest, rfl⟩ := List.head?_eq_some_iff.1 hfirst
    rcases List.eq_nil_or_concat' rest with rfl | ⟨middle, d, rfl⟩
    · exact .inl ⟨a, rfl, ha⟩
    · rw [← List.cons_append, List.getLast?_concat, Option.some.injEq] at hlast
      subst hlast
      exact .inr ⟨a, middle, d, rfl, ha, hb, fun c hc => hall c (by simp [hc])⟩
  · rintro (⟨c, rfl, hc⟩ | ⟨a, middle, b, rfl, ha, hb, hmiddle⟩)
    · exact ⟨⟨c, rfl, hc⟩, ⟨c, rfl, hc⟩, fun d hd => List.mem_singleton.1 hd ▸ hinside c hc⟩
    · refine ⟨⟨a, rfl, ha⟩, ⟨b, List.getLast?_concat .., hb⟩, fun c hc => ?_⟩
      rcases List.mem_append.1 hc with hc | hc
      · rcases List.mem_cons.1 hc with rfl | hc
        · exact hinside c ha
        · exact hmiddle c hc
      · exact List.mem_singleton.1 hc ▸ hinside b hb

theorem mem_part_iff : s ∈ part.language ↔
    IsFramed IsLetterOrDigit (fun c => IsLetterOrDigit c ∨ c = '.' ∨ c = '_' ∨ c = '-') s := by
  rw [isFramed_iff fun c => Or.inl]
  simp only [part, Pattern.mem_seq_iff, Pattern.mem_optional_iff, Pattern.mem_one_iff,
    Pattern.mem_many_one_iff, isAlphanumeric_iff, inPart_iff]
  constructor
  · rintro ⟨_, ⟨_, ⟨a, rfl, ha⟩, middle, hmiddle, rfl⟩ | rfl, _, ⟨b, rfl, hb⟩, rfl⟩
    · exact .inr ⟨a, middle, b, rfl, ha, hb, hmiddle⟩
    · exact .inl ⟨b, rfl, hb⟩
  · rintro (⟨b, rfl, hb⟩ | ⟨a, middle, b, rfl, ha, hb, hmiddle⟩)
    · exact ⟨[], .inr rfl, [b], ⟨b, rfl, hb⟩, rfl⟩
    · exact ⟨a :: middle, .inl ⟨[a], ⟨a, rfl, ha⟩, middle, hmiddle, rfl⟩, [b], ⟨b, rfl, hb⟩, rfl⟩

theorem mem_label_iff : s ∈ label.language ↔ IsLabel s := by
  rw [IsLabel, isFramed_iff fun c => Or.inl]
  simp only [label, Pattern.mem_seq_iff, Pattern.mem_optional_iff, Pattern.mem_one_iff,
    Pattern.mem_many_one_iff, isLowerOrDigit_iff, inLabel_iff]
  constructor
  · rintro ⟨_, ⟨a, rfl, ha⟩, _, ⟨middle, hmiddle, _, ⟨b, rfl, hb⟩, rfl⟩ | rfl, rfl⟩
    · exact .inr ⟨a, middle, b, rfl, ha, hb, hmiddle⟩
    · exact .inl ⟨a, rfl, ha⟩
  · rintro (⟨a, rfl, ha⟩ | ⟨a, middle, b, rfl, ha, hb, hmiddle⟩)
    · exact ⟨[a], ⟨a, rfl, ha⟩, [], .inr rfl, rfl⟩
    · exact ⟨[a], ⟨a, rfl, ha⟩, middle ++ [b],
        .inl ⟨middle, hmiddle, [b], ⟨b, rfl, hb⟩, rfl⟩, rfl⟩

/-! ### Patterns of labels in a row -/

theorem append_flatten_pointed (l : List Char) (ls : List (List Char)) :
    l ++ (ls.map ('.' :: ·)).flatten = ['.'].intercalate (l :: ls) := by
  induction ls generalizing l with
  | nil => simp
  | cons l' ls ih => rw [List.intercalate_cons_cons, ← ih]; simp

theorem mem_pointed_iff : s ∈ (Pattern.many (.seq (.one (· == '.')) label)).language ↔
    ∃ ls : List (List Char), s = (ls.map ('.' :: ·)).flatten ∧ ∀ l ∈ ls, IsLabel l := by
  rw [Pattern.mem_many_iff]
  constructor
  · rintro ⟨parts, rfl, hparts⟩
    have hlabel : ∀ part ∈ parts, ∃ l, part = '.' :: l ∧ IsLabel l := fun part hpart => by
      obtain ⟨_, ⟨c, rfl, hc⟩, l, hl, rfl⟩ := Pattern.mem_seq_iff.1 (hparts part hpart)
      exact ⟨l, by rw [beq_iff_eq.1 hc]; rfl, mem_label_iff.1 hl⟩
    refine ⟨parts.map List.tail, ?_, fun l hl => ?_⟩
    · rw [List.map_map, List.map_congr_left fun part hpart => ?_, List.map_id']
      obtain ⟨l, rfl, -⟩ := hlabel part hpart
      rfl
    · obtain ⟨part, hpart, rfl⟩ := List.mem_map.1 hl
      obtain ⟨l, rfl, hlabel⟩ := hlabel part hpart
      exact hlabel
  · rintro ⟨ls, rfl, hls⟩
    refine ⟨ls.map ('.' :: ·), rfl, fun part hpart => ?_⟩
    obtain ⟨l, hl, rfl⟩ := List.mem_map.1 hpart
    exact Pattern.mem_seq_iff.2 ⟨['.'], ⟨'.', rfl, rfl⟩, l, mem_label_iff.2 (hls l hl), rfl⟩

theorem mem_domain_iff : s ∈ domain.language ↔
    ∃ labels, labels ≠ [] ∧ s = ['.'].intercalate labels ∧ ∀ l ∈ labels, IsLabel l := by
  simp only [domain, Pattern.mem_seq_iff, mem_pointed_iff, mem_label_iff]
  constructor
  · rintro ⟨l, hl, _, ⟨ls, rfl, hls⟩, rfl⟩
    exact ⟨l :: ls, List.cons_ne_nil l ls, append_flatten_pointed l ls,
      List.forall_mem_cons.2 ⟨hl, hls⟩⟩
  · rintro ⟨labels, hne, rfl, hlabels⟩
    obtain ⟨l, ls, rfl⟩ := List.exists_cons_of_ne_nil hne
    obtain ⟨hl, hls⟩ := List.forall_mem_cons.1 hlabels
    exact ⟨l, hl, _, ⟨ls, rfl, hls⟩, append_flatten_pointed l ls⟩

/-! ### What is accepted -/

theorem one_le_bytes_iff : 1 ≤ bytes s ↔ s ≠ [] := by
  rw [Nat.one_le_iff_ne_zero, bytes, Ne, String.utf8ByteSize_eq_zero_iff]
  simp

theorem IsFramed.ne_nil (h : IsFramed edge inside s) : s ≠ [] := by
  rintro rfl
  obtain ⟨c, hc, -⟩ := h.first
  cases hc

theorem isPart_iff : isPart s = true ↔ IsPart s := by
  rw [isPart, Bool.and_eq_true, decide_eq_true_eq, Pattern.accepts_iff, mem_part_iff]
  exact ⟨fun h => ⟨one_le_bytes_iff.2 h.2.ne_nil, h.1, h.2⟩, fun h => ⟨h.short, h.framed⟩⟩

theorem isDomain_iff : isDomain s = true ↔ IsDomain s := by
  rw [isDomain, Bool.and_eq_true, Bool.and_eq_true, decide_eq_true_eq, Pattern.accepts_iff,
    mem_domain_iff, Bool.not_eq_true', List.isEmpty_eq_false_iff, ← one_le_bytes_iff]
  exact ⟨fun h => ⟨h.1.1, h.1.2, h.2⟩, fun h => ⟨⟨h.nonempty, h.short⟩, h.labels⟩⟩

theorem IsPart.slash_not_mem (h : IsPart s) : '/' ∉ s := fun hmem => by
  have hslash := inPart_iff.2 (h.framed.all '/' hmem)
  exact absurd hslash (by decide)

theorem IsDomain.slash_not_mem (h : IsDomain s) : '/' ∉ s := fun hmem => by
  obtain ⟨labels, hne, rfl, hlabels⟩ := h.labels
  obtain ⟨l, ls, rfl⟩ := List.exists_cons_of_ne_nil hne
  have hlabel : ∀ l' ∈ l :: ls, '/' ∉ l' := fun l' hl' hmem =>
    absurd (inLabel_iff.2 ((hlabels l' hl').all '/' hmem)) (by decide)
  obtain ⟨hl, hls⟩ := List.forall_mem_cons.1 hlabel
  rw [← append_flatten_pointed, List.mem_append] at hmem
  refine hmem.elim hl fun hmem => ?_
  obtain ⟨_, hpart, hmem⟩ := List.mem_flatten.1 hmem
  obtain ⟨l', hl', rfl⟩ := List.mem_map.1 hpart
  exact (List.mem_cons.1 hmem).elim (by decide) (hls l' hl')

/-- Where there is one slash there is one way to cut a text at it. -/
theorem sides_unique {front back front' back' : List Char}
    (hcount : (front ++ '/' :: back).count '/' ≤ 1)
    (heq : front ++ '/' :: back = front' ++ '/' :: back') : front = front' ∧ back = back' := by
  have hcut {a b : List Char} (h : (a ++ '/' :: b).count '/' ≤ 1) :
      Text.cutFirst? '/' (a ++ '/' :: b) = some (a, b) := by
    rw [List.count_append, List.count_cons_self] at h
    exact Text.cutFirst?_eq_some.2 ⟨rfl, List.count_eq_zero.1 (by omega)⟩
  have hsides := (hcut hcount).symm.trans (heq ▸ hcut (heq ▸ hcount))
  exact Prod.mk.inj (Option.some.inj hsides)

theorem isQualified_of_not_mem {text : String} (h : '/' ∉ text.toList) :
    isQualified text = isPart text.toList := by
  rw [isQualified, Text.cutLast?_eq_none.2 h]

theorem isQualified_iff (text : String) :
    isQualified text = true ↔ IsQualifiedName text.toList := by
  cases hcut : Text.cutLast? '/' text.toList with
  | none =>
    have hslash := Text.cutLast?_eq_none.1 hcut
    rw [isQualified_of_not_mem hslash, isPart_iff]
    refine ⟨fun h => ⟨?_, fun _ => h, fun front back hsplit => ?_⟩, fun h => h.bare hslash⟩
    · rw [List.count_eq_zero_of_not_mem hslash]
      exact Nat.zero_le 1
    · exact absurd (hsplit ▸ List.mem_append_right front (List.mem_cons_self ..)) hslash
  | some sides =>
    obtain ⟨front, back⟩ := sides
    obtain ⟨hsplit, hback⟩ := Text.cutLast?_eq_some.1 hcut
    rw [isQualified, hcut, hsplit, Bool.and_eq_true, isDomain_iff, isPart_iff]
    refine ⟨fun ⟨hdomain, hpart⟩ => ?_, fun h => h.split front back rfl⟩
    have hcount : (front ++ '/' :: back).count '/' ≤ 1 := by
      rw [List.count_append, List.count_cons_self,
        List.count_eq_zero_of_not_mem hdomain.slash_not_mem, List.count_eq_zero_of_not_mem hback]
    refine ⟨hcount, fun hslash => ?_, fun front' back' heq => ?_⟩
    · exact absurd (List.mem_append_right front (List.mem_cons_self ..)) hslash
    · obtain ⟨rfl, rfl⟩ := sides_unique hcount heq
      exact ⟨hdomain, hpart⟩

theorem isLabelValue_iff (text : String) :
    isLabelValue text = true ↔ text = "" ∨ isPart text.toList = true := by
  have hbytes : bytes text.toList = text.utf8ByteSize := by rw [bytes, String.ofList_toList]
  rw [isLabelValue, Bool.and_eq_true, decide_eq_true_eq, Pattern.accepts_iff, value,
    Pattern.mem_optional_iff, isPart, Bool.and_eq_true, decide_eq_true_eq, Pattern.accepts_iff,
    hbytes, String.toList_eq_nil_iff]
  constructor
  · rintro ⟨hshort, hpart | hempty⟩
    · exact .inr ⟨hshort, hpart⟩
    · exact .inl hempty
  · rintro (rfl | ⟨hshort, hpart⟩)
    · exact ⟨by decide, .inr rfl⟩
    · exact ⟨hshort, .inl hpart⟩

/-- Names and label values are accepted exactly by their grammar. -/
theorem accepts_isExact (text : String) :
    (isQualified text = true ↔ IsQualifiedName text.toList) ∧
    (isLabelValue text = true ↔ text = "" ∨ '/' ∉ text.toList ∧ isQualified text = true) := by
  refine ⟨isQualified_iff text, (isLabelValue_iff text).trans (or_congr_right ?_)⟩
  constructor
  · intro hpart
    have hslash := (isPart_iff.1 hpart).slash_not_mem
    exact ⟨hslash, (isQualified_of_not_mem hslash).trans hpart⟩
  · rintro ⟨hslash, hqualified⟩
    exact (isQualified_of_not_mem hslash).symm.trans hqualified

end SharedQuota.Name
