import SharedQuota.Json.Record
import SharedQuota.Proofs.Json.Text
import SharedQuota.Proofs.List
import SharedQuota.Proofs.Table

/-!
Fields, lists and tables that are written and read back. A field that is left out is read as absent,
or as its default, and nothing else is read so.
-/

namespace SharedQuota.Json

variable {α : Type} {encode : α → Json} {decode : Json → Option α}

/-! ### Fields -/

/-- An object that has no member of this name. -/
def Lacks (key : String) (j : Json) : Prop :=
  ∃ members, j = .object members ∧ key ∉ members.map (·.1)

theorem map_fst_filterMap_sublist (fields : List (String × Option Json)) :
    ((fields.filterMap fun (k, j) => j.map (k, ·)).map (·.1)).Sublist (fields.map (·.1)) := by
  rw [List.map_filterMap]
  refine filterMap_sublist_map (fun field k hk => ?_) fields
  obtain ⟨k', o⟩ := field
  cases o with
  | none => cases hk
  | some j => exact (Option.some.inj hk).symm

theorem under_eq_nil_iff {key : String} {members : List (String × Json)} :
    under key members = [] ↔ key ∉ members.map (·.1) := by
  rw [under, List.map_eq_nil_iff, List.filter_eq_nil_iff, List.mem_map, not_exists]
  simp only [beq_iff_eq, not_and]

theorem under_ofFields {fields : List (String × Option Json)} (h : (fields.map (·.1)).Nodup)
    {key : String} {o : Option Json} (hmem : (key, o) ∈ fields) :
    under key (fields.filterMap fun (k, j) => j.map (k, ·)) = o.toList := by
  induction fields with
  | nil => cases hmem
  | cons field fields ih =>
    obtain ⟨k, o'⟩ := field
    obtain ⟨hk, hrest⟩ := List.nodup_cons.1 h
    rcases List.mem_cons.1 hmem with heq | hin
    · obtain ⟨rfl, rfl⟩ := Prod.mk.inj heq
      have hnil := under_eq_nil_iff.2 fun hm => hk ((map_fst_filterMap_sublist fields).subset hm)
      cases o with
      | none => exact hnil
      | some j =>
        rw [under] at hnil ⊢
        simpa using hnil
    · have hne : k ≠ key := fun heq => hk (heq ▸ List.mem_map_of_mem (f := (·.1)) hin)
      have htail := ih hrest hin
      cases o' with
      | none => exact htail
      | some j =>
        rw [under] at htail ⊢
        simpa [hne] using htail

theorem get?_ofFields {fields : List (String × Option Json)} (h : (fields.map (·.1)).Nodup)
    {key : String} {o : Option Json} (hmem : (key, o) ∈ fields) :
    get? key (fields.filterMap fun (k, j) => j.map (k, ·)) = o := by
  rw [get?, under_ofFields h hmem]
  cases o <;> rfl

/-- The fields of a record are found as they were written. -/
theorem record?_ofFields {fields : List (String × Option Json)} {keys : List String}
    (hkeys : fields.map (·.1) = keys) (h : keys.Nodup) (required : Nat) :
    (ofFields fields).record? required keys = some (fields.map (·.2)) := by
  subst hkeys
  rw [ofFields, record?, List.map_map]
  exact congrArg some (List.map_congr_left fun field hfield => get?_ofFields h hfield)

theorem lacks_ofFields_iff {fields : List (String × Option Json)} {key : String} :
    Lacks key (ofFields fields) ↔ ∀ o, (key, o) ∈ fields → o = none := by
  constructor
  · rintro ⟨members, heq, hkey⟩ (_ | j) hmem
    · rfl
    · rw [← Json.object.inj heq] at hkey
      exact absurd (List.mem_map.2 ⟨(key, j), List.mem_filterMap.2 ⟨_, hmem, rfl⟩, rfl⟩) hkey
  · intro h
    refine ⟨_, rfl, fun hkey => ?_⟩
    obtain ⟨m, hm, rfl⟩ := List.mem_map.1 hkey
    obtain ⟨⟨k, o⟩, hfield, hmap⟩ := List.mem_filterMap.1 hm
    obtain ⟨j, rfl, rfl⟩ := Option.map_eq_some_iff.1 hmap
    exact nomatch h _ hfield

/-! ### Values of fields -/

theorem string?_string (t : String) : string? (.string t) = some t := rfl

theorem optional?_map (h : ∀ a, decode (encode a) = some a) (hnull : decode .null = none)
    (o : Option α) : optional? decode (o.map encode) = some o := by
  cases o with
  | none => rfl
  | some a =>
    have hne : encode a ≠ .null := fun heq => by
      have hdecode := h a
      rw [heq, hnull] at hdecode
      cases hdecode
    rw [Option.map_some, optional?, h, Option.map_some]
    exact hne

/-- A field that is left out where its value is the default. -/
theorem defaulted?_ite {default a : α} {j : Json} {omitted : Bool}
    (hdefault : omitted = true → a = default) (h : decode j = some a) :
    defaulted? default decode (if omitted then none else some j) = some a := by
  cases omitted with
  | true => rw [hdefault rfl]; rfl
  | false => exact h

theorem list?_array (h : ∀ a, decode (encode a) = some a) (l : List α) :
    list? decode (.array (l.map encode)) = some l :=
  mapM_map_eq_some h l

theorem table?_ofTable (h : ∀ a, decode (encode a) = some a) (t : Table String α) :
    table? decode (ofTable encode t) = some t := by
  rw [ofTable, table?, mapM_map_eq_some fun e => ?_, Option.map_some, Table.ofList_entries]
  rw [h, Option.map_some]

theorem set?_ofStrings (s : KeySet String) : set? (ofStrings s.toList) = some s := by
  have hitems : (s.toList.map string).mapM string? = some s.toList :=
    mapM_map_eq_some (f := string) (g := string?) (fun _ => rfl) _
  rw [ofStrings, set?, hitems, Option.map_some, KeySet.ofList_toList]

/-! ### Numbers -/

theorem numberlessItems_iff {items : List Json} :
    numberlessItems items = true ↔ ∀ j ∈ items, j.numberless = true := by
  induction items with
  | nil => simp [numberlessItems]
  | cons j items ih => rw [numberlessItems, Bool.and_eq_true, ih, List.forall_mem_cons]

theorem numberlessMembers_iff {members : List (String × Json)} :
    numberlessMembers members = true ↔ ∀ m ∈ members, m.2.numberless = true := by
  induction members with
  | nil => simp [numberlessMembers]
  | cons m members ih =>
    obtain ⟨k, j⟩ := m
    rw [numberlessMembers, Bool.and_eq_true, ih, List.forall_mem_cons]

theorem numberless_string (t : String) : (Json.string t).numberless = true := rfl

theorem numberless_array (h : ∀ a, (encode a).numberless = true) (l : List α) :
    (Json.array (l.map encode)).numberless = true :=
  numberlessItems_iff.2 (List.forall_mem_map.2 fun a _ => h a)

theorem numberless_ofTable (h : ∀ a, (encode a).numberless = true) (t : Table String α) :
    (ofTable encode t).numberless = true :=
  numberlessMembers_iff.2 (List.forall_mem_map.2 fun e _ => h e.2)

theorem numberless_ofFields {fields : List (String × Option Json)}
    (h : ∀ field ∈ fields, field.2.all numberless = true) :
    (ofFields fields).numberless = true := by
  refine numberlessMembers_iff.2 fun m hm => ?_
  obtain ⟨field, hfield, hmap⟩ := List.mem_filterMap.1 hm
  obtain ⟨j, hj, rfl⟩ := Option.map_eq_some_iff.1 hmap
  have hall := h field hfield
  rwa [hj] at hall

theorem all_numberless_map (h : ∀ a, (encode a).numberless = true) (o : Option α) :
    (o.map encode).all numberless = true := by
  cases o with
  | none => rfl
  | some a => exact h a

theorem numberless_ofStrings (l : List String) : (ofStrings l).numberless = true :=
  numberless_array numberless_string l

/-! ### Round trips -/

/-- What is written of a value is read back, from JSON as from the text of it. -/
structure IsKept (encode : α → Json) (decode : Json → Option α) (a : α) : Prop where
  value : decode (encode a) = some a
  text : (parse? (encode a).render).bind decode = some a

theorem isKept_of_numberless {a : α} (h : decode (encode a) = some a)
    (hnumbers : (encode a).numberless = true) : IsKept encode decode a :=
  ⟨h, by rw [parse?_render _ hnumbers, Option.bind_some, h]⟩

end SharedQuota.Json
