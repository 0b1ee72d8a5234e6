import SharedQuota.ObjectCount
import SharedQuota.Proofs.Except
import SharedQuota.Proofs.Table
import Mathlib.Data.List.Nodup

/-!
Kinds that are counted, and their table. Written kinds of different groups or names count for
different resources (`groupResource_inj`), and a table has one kind at most for each.
-/

namespace SharedQuota

namespace ObjectCountKind

def groupResource (k : ObjectCountKind) : GroupResource := ⟨k.group, k.resource⟩

/-- A kind as an operator may write it. -/
def IsWritten (k : ObjectCountKind) : Prop := ∃ item, parse item = .ok k

variable {k k' : ObjectCountKind}

theorem not_mem_of_all {p : Char → Bool} {s : List Char} {c : Char} (h : s.all p = true)
    (hc : p c = false) : c ∉ s := fun hm => by
  rw [List.all_eq_true.1 h c hm] at hc
  cases hc

theorem IsWritten.chars (h : k.IsWritten) :
    '.' ∉ k.resource.toList ∧ '/' ∉ k.resource.toList ∧ '/' ∉ k.group.toList := by
  obtain ⟨item, h⟩ := h
  simp only [parse] at h
  split at h
  case isFalse => cases h
  case isTrue hvalid =>
    rw [← Except.ok.inj h]
    obtain ⟨-, -, hresource, hgroup, -⟩ := hvalid
    simp only [String.toList_ofList]
    refine ⟨?_, not_mem_of_all hresource (by decide), not_mem_of_all hgroup (by decide)⟩
    generalize ((Text.cutFirst? '/' item.toList).getD (item.toList, ['v', '1'])).1 = front
    cases hcut : Text.cutFirst? '.' front with
    | none => exact Text.cutFirst?_eq_none.1 hcut
    | some parts => exact (Text.cutFirst?_eq_some.1 hcut).2

theorem text_countResource (k : ObjectCountKind) : k.countResource.text.toList =
    "count/".toList ++
      (k.resource.toList ++ if k.group.isEmpty then [] else '.' :: k.group.toList) := by
  simp only [countResource, ResourceName.objectCount, String.toList_append]
  split <;> simp

theorem cutFirst?_counted (h : '.' ∉ k.resource.toList) :
    Text.cutFirst? '.'
      (k.resource.toList ++ if k.group.isEmpty then [] else '.' :: k.group.toList) =
        if k.group.isEmpty then none else some (k.resource.toList, k.group.toList) := by
  split
  · rw [List.append_nil]
    exact Text.cutFirst?_eq_none.2 h
  · exact Text.cutFirst?_eq_some.2 ⟨rfl, h⟩

/-- Kinds whose names have no points are told apart by the resources that count them. -/
theorem groupResource_inj (hk : '.' ∉ k.resource.toList) (hk' : '.' ∉ k'.resource.toList)
    (h : k.countResource = k'.countResource) : k.groupResource = k'.groupResource := by
  have htext := congrArg (·.text.toList) h
  simp only [text_countResource, List.append_cancel_left_eq] at htext
  have hcut := congrArg (Text.cutFirst? '.') htext
  rw [cutFirst?_counted hk, cutFirst?_counted hk'] at hcut
  rw [groupResource, groupResource, GroupResource.mk.injEq]
  split at hcut
  case isTrue hgroup =>
    split at hcut
    case isFalse => cases hcut
    case isTrue hgroup' =>
      rw [if_pos hgroup, if_pos hgroup', List.append_nil, List.append_nil] at htext
      rw [String.isEmpty_iff] at hgroup hgroup'
      exact ⟨hgroup.trans hgroup'.symm, String.toList_inj.1 htext⟩
  case isFalse =>
    split at hcut
    case isTrue => cases hcut
    case isFalse =>
      obtain ⟨hresource, hgroup⟩ := Prod.mk.inj (Option.some.inj hcut)
      exact ⟨String.toList_inj.1 hgroup, String.toList_inj.1 hresource⟩

end ObjectCountKind

namespace ObjectCountKinds

/-- Every kind is entered under its own group and name. -/
def IsKeyed (kinds : ObjectCountKinds) : Prop :=
  ∀ g k, kinds.get? g = some k → k.groupResource = g

variable {kinds : ObjectCountKinds} {ks : List ObjectCountKind} {k : ObjectCountKind}
  {g : GroupResource}

theorem of_get?_ofList (h : (ofList ks).get? g = some k) : k ∈ ks ∧ k.groupResource = g := by
  obtain ⟨k', hk', heq⟩ := List.mem_map.1 (Table.mem_of_get?_ofList h)
  cases heq
  exact ⟨hk', rfl⟩

theorem isKeyed_ofList (ks : List ObjectCountKind) : (ofList ks).IsKeyed :=
  fun _ _ h => (of_get?_ofList h).2

theorem IsKeyed.get? (h : kinds.IsKeyed) (hk : k ∈ kinds.values) :
    kinds.get? k.groupResource = some k := by
  obtain ⟨g, hg⟩ := (Table.mem_values_iff kinds).1 hk
  rwa [h g k hg]

/-- Of a kind there is one entry at most. -/
theorem IsKeyed.nodup (h : kinds.IsKeyed) :
    (kinds.values.map ObjectCountKind.groupResource).Nodup := by
  have hkeys : kinds.values.map ObjectCountKind.groupResource = kinds.keys := by
    rw [Table.values, Table.keys, List.map_map]
    exact List.map_congr_left fun e he => h _ _ ((Table.mem_entries_iff kinds).1 he)
  rw [hkeys]
  exact kinds.keys_nodup

theorem IsKeyed.exists_values (h : kinds.IsKeyed) (hk : kinds.get? k.groupResource = some k) :
    ∃ before after, kinds.values = before ++ k :: after ∧
      ∀ k' ∈ before ++ after, k'.groupResource ≠ k.groupResource := by
  obtain ⟨before, after, hvalues⟩ := List.append_of_mem ((Table.mem_values_iff kinds).2 ⟨_, hk⟩)
  refine ⟨before, after, hvalues, fun k' hk' heq => ?_⟩
  have hnodup := h.nodup
  rw [hvalues, List.map_append, List.map_cons, List.nodup_middle, ← List.map_append,
    List.nodup_cons] at hnodup
  exact hnodup.1 (List.mem_map.2 ⟨k', hk', heq⟩)

theorem isWritten_of_parse {text : String} (h : parse text = .ok kinds) :
    kinds.IsKeyed ∧ ∀ k ∈ kinds.values, k.IsWritten := by
  obtain ⟨ks, hks, rfl⟩ := ok_of_map h
  refine ⟨isKeyed_ofList ks, fun k hk => ?_⟩
  obtain ⟨g, hg⟩ := (Table.mem_values_iff _).1 hk
  obtain ⟨item, -, hitem⟩ := of_mapM hks k (of_get?_ofList hg).1
  exact ⟨item, hitem⟩

end ObjectCountKinds

end SharedQuota
