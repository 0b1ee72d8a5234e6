import SharedQuota.Proofs.ObjectCount
import SharedQuota.Proofs.Text.Cut
import SharedQuota.Proofs.Text.Letter
import Mathlib.Data.String.Basic

/-!
How kinds that are counted are written, told without reading them. Main statement
(`parse_isExact`): a list of kinds is refused exactly if one of its items is malformed, and of one
that is not the table finds the last item for each group and resource.
-/

namespace SharedQuota

open Text (IsCut IsItems IsLetterOrDigit IsLowerOrDigit)

namespace ObjectCountKind

/-- The parts of an item, be they well formed or not: the version follows the first slash and is
`v1` where there is none, the group follows the first point before it and is empty where there is
none. -/
def HasParts (item : String) (k : ObjectCountKind) : Prop :=
  ∃ front, IsCut '/' ['v', '1'] item.toList front k.version.toList ∧
    IsCut '.' [] front k.resource.toList k.group.toList

structure IsWellFormed (k : ObjectCountKind) : Prop where
  resource_ne : k.resource ≠ ""
  resource_chars : ∀ c ∈ k.resource.toList, IsLowerOrDigit c ∨ c = '-'
  group_chars : ∀ c ∈ k.group.toList, IsLowerOrDigit c ∨ c = '-' ∨ c = '.'
  version_ne : k.version ≠ ""
  version_chars : ∀ c ∈ k.version.toList, IsLetterOrDigit c

/-- The item is well formed and stands for `k`. -/
def Means (item : String) (k : ObjectCountKind) : Prop := HasParts item k ∧ k.IsWellFormed

def IsMalformed (item : String) : Prop := ∃ k, HasParts item k ∧ ¬ k.IsWellFormed

variable {item : String} {k k' : ObjectCountKind}

/-! ### Reading one item -/

theorem inResource_iff {c : Char} :
    inResource c = true ↔ IsLowerOrDigit c ∨ c = '-' ∨ c = '.' := by
  simp only [inResource, Bool.or_eq_true, beq_iff_eq, Text.isLowerOrDigit_iff, or_assoc]

theorem HasParts.point_not_mem (h : HasParts item k) : '.' ∉ k.resource.toList := by
  obtain ⟨front, -, ⟨-, hpoint⟩ | ⟨hpoint, heq, -⟩⟩ := h
  · exact hpoint
  · exact heq ▸ hpoint

/-- An item has its parts in one way. -/
theorem HasParts.unique (h : HasParts item k) (h' : HasParts item k') : k = k' := by
  obtain ⟨front, hversion, hnames⟩ := h
  obtain ⟨front', hversion', hnames'⟩ := h'
  simp only [Text.isCut_iff] at *
  obtain ⟨rfl, hv⟩ := Prod.mk.inj (hversion.symm.trans hversion')
  obtain ⟨hr, hg⟩ := Prod.mk.inj (hnames.symm.trans hnames')
  rw [String.toList_inj] at hv hr hg
  cases k
  cases k'
  simp_all

theorem isWellFormed_iff (h : '.' ∉ k.resource.toList) : k.IsWellFormed ↔
    k.resource.toList ≠ [] ∧ k.version.toList ≠ [] ∧ k.resource.toList.all inResource = true ∧
      k.group.toList.all inResource = true ∧
        k.version.toList.all Text.isAlphanumeric = true := by
  simp only [List.all_eq_true, inResource_iff, Text.isAlphanumeric_iff, ne_eq,
    String.toList_eq_nil_iff]
  constructor
  · intro hk
    exact ⟨hk.resource_ne, hk.version_ne, fun c hc => (hk.resource_chars c hc).imp_right .inl,
      hk.group_chars, hk.version_chars⟩
  · rintro ⟨hresource, hversion, hchars, hgroup, hversions⟩
    refine ⟨hresource, fun c hc => ?_, hgroup, hversion, hversions⟩
    exact (hchars c hc).imp_right fun hother => hother.resolve_right fun hpoint => h (hpoint ▸ hc)

theorem parse_cases (item : String) : ∃ k, HasParts item k ∧
    (k.IsWellFormed ∧ parse item = .ok k ∨ ¬ k.IsWellFormed ∧ parse item = .error ⟨item⟩) := by
  obtain ⟨⟨front, version⟩, hsides⟩ :
      ∃ sides, (Text.cutFirst? '/' item.toList).getD (item.toList, ['v', '1']) = sides := ⟨_, rfl⟩
  obtain ⟨⟨resource, group⟩, hnames⟩ :
      ∃ names, (Text.cutFirst? '.' front).getD (front, []) = names := ⟨_, rfl⟩
  have hparts : HasParts item
      ⟨String.ofList group, String.ofList version, String.ofList resource⟩ :=
    ⟨front, Text.isCut_iff.2 (by simpa using hsides), Text.isCut_iff.2 (by simpa using hnames)⟩
  refine ⟨_, hparts, ?_⟩
  rw [isWellFormed_iff hparts.point_not_mem]
  simp only [parse, hsides, hnames, String.toList_ofList]
  split
  case isTrue hvalid => exact .inl ⟨hvalid, rfl⟩
  case isFalse hinvalid => exact .inr ⟨hinvalid, rfl⟩

theorem parse_eq_ok_iff : parse item = .ok k ↔ Means item k := by
  obtain ⟨k', hparts, ⟨hwell, hparse⟩ | ⟨hill, hparse⟩⟩ := parse_cases item
  · rw [hparse, Except.ok.injEq]
    constructor
    · rintro rfl
      exact ⟨hparts, hwell⟩
    · exact fun h => hparts.unique h.1
  · rw [hparse]
    exact iff_of_false nofun fun h => hill (hparts.unique h.1 ▸ h.2)

theorem parse_eq_error_iff {e : Malformed} :
    parse item = .error e ↔ e = ⟨item⟩ ∧ IsMalformed item := by
  obtain ⟨k, hparts, ⟨hwell, hparse⟩ | ⟨hill, hparse⟩⟩ := parse_cases item
  · rw [hparse]
    refine iff_of_false nofun ?_
    rintro ⟨-, k', hparts', hill⟩
    exact hill (hparts.unique hparts' ▸ hwell)
  · rw [hparse, Except.error.injEq]
    exact ⟨fun h => ⟨h.symm, k, hparts, hill⟩, fun h => h.1.symm⟩

theorem exists_parse_eq_ok_iff : (∃ k, parse item = .ok k) ↔ ¬ IsMalformed item := by
  obtain ⟨k, hparts, ⟨hwell, hparse⟩ | ⟨hill, hparse⟩⟩ := parse_cases item
  · refine iff_of_true ⟨k, hparse⟩ ?_
    rintro ⟨k', hparts', hill⟩
    exact hill (hparts.unique hparts' ▸ hwell)
  · rw [hparse]
    exact iff_of_false nofun fun h => h ⟨k, hparts, hill⟩

/-! ### Writing a kind -/

theorem toList_text (k : ObjectCountKind) : k.text.toList =
    (k.resource.toList ++ if k.group.isEmpty then [] else '.' :: k.group.toList) ++
      '/' :: k.version.toList := by
  simp only [text, String.toList_append]
  split <;> simp

/-- What is well formed is read back from its written form. -/
theorem IsWellFormed.means_text (h : k.IsWellFormed) : Means k.text k := by
  have hpoint : '.' ∉ k.resource.toList := fun hc => absurd (h.resource_chars _ hc) (by decide)
  have hresource : '/' ∉ k.resource.toList := fun hc => absurd (h.resource_chars _ hc) (by decide)
  have hgroup : '/' ∉ k.group.toList := fun hc => absurd (h.group_chars _ hc) (by decide)
  refine ⟨⟨_, .inl ⟨toList_text k, fun hc => ?_⟩, ?_⟩, h⟩
  · rcases List.mem_append.1 hc with hc | hc
    · exact hresource hc
    · split at hc
      · cases hc
      · exact (List.mem_cons.1 hc).elim (by decide) hgroup
  · split
    case isTrue hempty =>
      rw [List.append_nil]
      exact .inr ⟨hpoint, rfl, by rw [String.isEmpty_iff.1 hempty]; rfl⟩
    case isFalse => exact .inl ⟨rfl, hpoint⟩

end ObjectCountKind

namespace GroupResource

theorem compare_eq_lt_iff {a b : GroupResource} :
    compare a b = .lt ↔ a.group < b.group ∨ a.group = b.group ∧ a.resource < b.resource := by
  rw [show compare a b = compareLex (compareOn group) (compareOn resource) a b from rfl,
    compareLex, Ordering.then_eq_lt]
  simp only [compareOn, compare_lt_iff_lt, compare_eq_iff_eq]

end GroupResource

namespace ObjectCountKinds

open ObjectCountKind (Means IsMalformed)

variable {text : String} {kinds : ObjectCountKinds} {g : GroupResource} {k : ObjectCountKind}

/-- The last of the items for a resource of a group stands for `k`. -/
def IsLast (items : List String) (g : GroupResource) (k : ObjectCountKind) : Prop :=
  ∃ before item after, items = before ++ item :: after ∧ Means item k ∧ k.groupResource = g ∧
    ∀ item' ∈ after, ∀ k', Means item' k' → k'.groupResource ≠ g

theorem parse_eq_ok_iff : parse text = .ok kinds ↔
    ∃ ks, List.Forall₂ Means (Text.commaItems text) ks ∧ ofList ks = kinds := by
  have hmeans (ks : List ObjectCountKind) : List.Forall₂ Means (Text.commaItems text) ks ↔
      (Text.commaItems text).mapM ObjectCountKind.parse = .ok ks := by
    rw [mapM_eq_ok_iff]
    simp only [ObjectCountKind.parse_eq_ok_iff]
  simp only [parse, hmeans]
  cases (Text.commaItems text).mapM ObjectCountKind.parse <;> simp [Except.map]

/-- The error names the first item that is malformed. -/
theorem parse_eq_error_iff {e : ObjectCountKind.Malformed} : parse text = .error e ↔
    ∃ before item after, Text.commaItems text = before ++ item :: after ∧
      (∀ item' ∈ before, ¬ IsMalformed item') ∧ IsMalformed item ∧ e = ⟨item⟩ := by
  have hparse : parse text = .error e ↔
      (Text.commaItems text).mapM ObjectCountKind.parse = .error e := by
    rw [parse]
    cases (Text.commaItems text).mapM ObjectCountKind.parse <;> simp [Except.map]
  rw [hparse, mapM_eq_error_iff]
  simp only [ObjectCountKind.exists_parse_eq_ok_iff, ObjectCountKind.parse_eq_error_iff,
    and_comm (a := e = _)]

theorem exists_parse_eq_error_iff : (∃ e, parse text = .error e) ↔
    ∃ item ∈ Text.commaItems text, IsMalformed item := by
  rw [exists_error_iff, parse]
  constructor
  · intro h
    by_contra hnone
    have hok : ∀ item ∈ Text.commaItems text, ∃ k, ObjectCountKind.parse item = .ok k :=
      fun item hitem =>
        ObjectCountKind.exists_parse_eq_ok_iff.2 fun hbad => hnone ⟨item, hitem, hbad⟩
    obtain ⟨ks, hks⟩ := exists_forall₂ hok
    exact h ⟨ofList ks, by rw [mapM_eq_ok_iff.2 hks]; rfl⟩
  · rintro ⟨item, hitem, hbad⟩ ⟨kinds, hkinds⟩
    obtain ⟨ks, hks, -⟩ := ok_of_map hkinds
    obtain ⟨k, -, hk⟩ := exists_right_of_forall₂ (mapM_eq_ok_iff.1 hks) item hitem
    exact ObjectCountKind.exists_parse_eq_ok_iff.1 ⟨k, hk⟩ hbad

/-- Of the kinds for one resource of a group the last is found. -/
theorem get?_ofList_eq_some_iff {ks : List ObjectCountKind} : (ofList ks).get? g = some k ↔
    k.groupResource = g ∧ ∃ before after, ks = before ++ k :: after ∧
      ∀ k' ∈ after, k'.groupResource ≠ g := by
  rw [ofList, Table.get?_ofList_eq_some_iff]
  constructor
  · rintro ⟨before, after, hks, hafter⟩
    obtain ⟨kb, rest, rfl, -, hrest⟩ := List.map_eq_append_iff.1 hks
    obtain ⟨k', ka, rfl, hk, rfl⟩ := List.map_eq_cons_iff.1 hrest
    obtain ⟨rfl, rfl⟩ := Prod.mk.inj hk
    exact ⟨rfl, kb, ka, rfl, fun k' hk' => hafter _ (List.mem_map_of_mem hk')⟩
  · rintro ⟨rfl, kb, ka, rfl, hafter⟩
    refine ⟨_, _, List.map_append .., fun e he => ?_⟩
    obtain ⟨k', hk', rfl⟩ := List.mem_map.1 he
    exact hafter k' hk'

theorem isLast_iff {items : List String} {ks : List ObjectCountKind}
    (h : List.Forall₂ Means items ks) : IsLast items g k ↔ (ofList ks).get? g = some k := by
  rw [get?_ofList_eq_some_iff]
  constructor
  · rintro ⟨before, item, after, hitems, hitem, hg, hafter⟩
    obtain ⟨before', k', after', rfl, hk', hrest⟩ := exists_cut_of_forall₂ h hitems
    obtain rfl := hitem.1.unique hk'.1
    refine ⟨hg, before', after', rfl, fun k' hk' => ?_⟩
    obtain ⟨item', hitem', hmeans⟩ := exists_left_of_forall₂ hrest k' hk'
    exact hafter item' hitem' k' hmeans
  · rintro ⟨hg, before, after, hks, hafter⟩
    obtain ⟨before', item, after', hitems, hitem, hrest⟩ := exists_cut_of_forall₂ h.flip hks
    refine ⟨before', item, after', hitems, hitem, hg, fun item' hitem' k' hk' => ?_⟩
    obtain ⟨k'', hk'', hmeans⟩ := exists_left_of_forall₂ hrest item' hitem'
    exact hmeans.1.unique hk'.1 ▸ hafter k'' hk''

/-! ### The table -/

/-- What is listed is found under its own group and name, and all that is found is listed. -/
theorem IsKeyed.mem_values_iff (h : kinds.IsKeyed) :
    k ∈ kinds.values ↔ kinds.find? k.group k.resource = some k :=
  ⟨h.get?, fun hk => (Table.mem_values_iff kinds).2 ⟨_, hk⟩⟩

theorem IsKeyed.ascending (h : kinds.IsKeyed) : kinds.values.Pairwise fun a b =>
    a.group < b.group ∨ a.group = b.group ∧ a.resource < b.resource := by
  rw [Table.values, List.pairwise_map]
  refine kinds.ascending.imp_of_mem fun {a b} ha hb hab => ?_
  have hkey {e : GroupResource × ObjectCountKind} (he : e ∈ kinds.entries) :
      e.2.groupResource = e.1 := h _ _ ((Table.mem_entries_iff kinds).1 he)
  rw [← hkey ha, ← hkey hb] at hab
  exact GroupResource.compare_eq_lt_iff.1 hab

/-- A list of kinds is refused exactly if one of its items is malformed. Otherwise the table has the
last item for each resource of a group and nothing else, in ascending order, its entries count for
different resources, and each is read back from its written form. -/
theorem parse_isExact (text : String) : ∃ items, (∀ l, IsItems text l ↔ l = items) ∧
    ((∃ e, parse text = .error e) ↔ ∃ item ∈ items, IsMalformed item) ∧
    ∀ kinds, parse text = .ok kinds →
      (∀ group resource k,
        kinds.find? group resource = some k ↔ IsLast items ⟨group, resource⟩ k) ∧
      (∀ k, k ∈ kinds.values ↔ kinds.find? k.group k.resource = some k) ∧
      (kinds.values.Pairwise fun a b =>
        a.group < b.group ∨ a.group = b.group ∧ a.resource < b.resource) ∧
      (∀ k ∈ kinds.values, ∀ k' ∈ kinds.values,
        k.countResource = k'.countResource → k = k') ∧
      ∀ k ∈ kinds.values, ObjectCountKind.parse k.text = .ok k := by
  refine ⟨Text.commaItems text, fun l => Text.isItems_iff, exists_parse_eq_error_iff,
    fun kinds hkinds => ?_⟩
  obtain ⟨hkeyed, hwritten⟩ := isWritten_of_parse hkinds
  obtain ⟨ks, hks, rfl⟩ := parse_eq_ok_iff.1 hkinds
  refine ⟨fun group resource k => (isLast_iff hks).symm, fun k => hkeyed.mem_values_iff,
    hkeyed.ascending, fun k hk k' hk' heq => ?_, fun k hk => ?_⟩
  · have hgroup := ObjectCountKind.groupResource_inj (hwritten k hk).chars.1
      (hwritten k' hk').chars.1 heq
    have hfound := hkeyed.get? hk
    rw [hgroup, hkeyed.get? hk'] at hfound
    exact (Option.some.inj hfound).symm
  · obtain ⟨item, hitem⟩ := hwritten k hk
    exact ObjectCountKind.parse_eq_ok_iff.2 (ObjectCountKind.parse_eq_ok_iff.1 hitem).2.means_text

/-- Three items, of which the last stands in for the first. -/
theorem parse_isExact_lastStands : ∃ kinds,
    parse "configmaps, deployments.apps/v1,configmaps/v2" = .ok kinds ∧
      kinds.values.map ObjectCountKind.text = ["configmaps/v2", "deployments.apps/v1"] ∧
      ∀ k ∈ kinds.values, ObjectCountKind.parse k.text = .ok k := by
  obtain ⟨_, -, -, htable⟩ := parse_isExact "configmaps, deployments.apps/v1,configmaps/v2"
  have hparse : parse "configmaps, deployments.apps/v1,configmaps/v2" =
      .ok (ofList [⟨"", "v1", "configmaps"⟩, ⟨"apps", "v1", "deployments"⟩,
        ⟨"", "v2", "configmaps"⟩]) := by rfl
  obtain ⟨-, -, -, -, hwritten⟩ := htable _ hparse
  exact ⟨_, hparse, by decide +kernel, hwritten⟩

end ObjectCountKinds

end SharedQuota
