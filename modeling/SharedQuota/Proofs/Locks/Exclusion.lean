import SharedQuota.Locks
import SharedQuota.Proofs.Table
import Mathlib.Data.List.Nodup

/-!
Locks exclude. As long as locks are only asked for, waited for and given back, a name has one lock
while any handle on it lives, and one handle at most holds it (`Sound.holds_unique`), although the
map forgets the locks that are idle.
-/

namespace SharedQuota

namespace Locks

def ids (l : Locks) : List Nat := l.handles.map (·.id)

/-- The handle lives and is on the lock of the name. -/
def Has (l : Locks) (id : Nat) (name : String) : Prop :=
  ∃ h ∈ l.handles, h.id = id ∧ h.name = name

/-- The lock of the name is taken through the handle. -/
def Holds (l : Locks) (id : Nat) (name : String) : Prop :=
  ∃ h ∈ l.handles, h.id = id ∧ h.name = name ∧ h.use = .holding

structure Sound (l : Locks) : Prop where
  ids_nodup : l.ids.Nodup
  id_lt : ∀ h ∈ l.handles, h.id < l.nextHandle
  /-- What lives is in the map, and so is on the lock that its name has now. -/
  mapped : ∀ h ∈ l.handles, l.map.get? h.name = some h.lock
  map_injective : ∀ {name name' lock}, l.map.get? name = some lock →
    l.map.get? name' = some lock → name = name'
  map_lt : ∀ {name lock}, l.map.get? name = some lock → lock < l.nextLock
  holder_unique : ∀ h ∈ l.handles, ∀ h' ∈ l.handles, h.use = .holding → h'.use = .holding →
    h.lock = h'.lock → h = h'

/-- A step that leaves a handle alone, or hands it the lock. -/
def Keeps (l l' : Locks) (id : Nat) : Prop :=
  ∀ h ∈ l.handles, h.id = id →
    ∃ h' ∈ l'.handles, h'.id = id ∧ h'.name = h.name ∧ (h.use = .holding → h'.use = .holding)

variable {l l' : Locks} {id : Nat} {name : String}

theorem Keeps.has (hk : Keeps l l' id) (h : l.Has id name) : l'.Has id name := by
  obtain ⟨x, hx, hid, hname⟩ := h
  obtain ⟨x', hx', hid', hname', -⟩ := hk x hx hid
  exact ⟨x', hx', hid', hname'.trans hname⟩

theorem Keeps.holds (hk : Keeps l l' id) (h : l.Holds id name) : l'.Holds id name := by
  obtain ⟨x, hx, hid, hname, huse⟩ := h
  obtain ⟨x', hx', hid', hname', huse'⟩ := hk x hx hid
  exact ⟨x', hx', hid', hname'.trans hname, huse' huse⟩

theorem Keeps.trans {l'' : Locks} (h : Keeps l l' id) (h' : Keeps l' l'' id) : Keeps l l'' id := by
  intro x hx hid
  obtain ⟨y, hy, hid, hname, huse⟩ := h x hx hid
  obtain ⟨z, hz, hid, hname', huse'⟩ := h' y hy hid
  exact ⟨z, hz, hid, hname'.trans hname, fun hh => huse' (huse hh)⟩

theorem sound_empty : empty.Sound where
  ids_nodup := List.nodup_nil
  id_lt _ h := nomatch h
  mapped _ h := nomatch h
  map_injective h := nomatch h
  map_lt h := nomatch h
  holder_unique _ h := nomatch h

/-! ### Handles by number -/

theorem mem_of_find? {h : Handle} (hf : l.find? id = some h) : h ∈ l.handles ∧ h.id = id :=
  ⟨List.mem_of_find?_eq_some hf, by simpa using List.find?_some hf⟩

theorem not_mem_of_find? (hf : l.find? id = none) : ∀ h ∈ l.handles, h.id ≠ id := fun h hm =>
  by simpa using List.find?_eq_none.1 hf h hm

namespace Sound

theorem eq_of_id (hl : l.Sound) {h h' : Handle} (hm : h ∈ l.handles) (hm' : h' ∈ l.handles)
    (hid : h.id = h'.id) : h = h' :=
  List.inj_on_of_nodup_map hl.ids_nodup hm hm' hid

theorem find?_eq_some (hl : l.Sound) {h : Handle} (hm : h ∈ l.handles) :
    l.find? h.id = some h := by
  cases hf : l.find? h.id with
  | none => exact absurd rfl (not_mem_of_find? hf h hm)
  | some h' =>
    obtain ⟨hm', hid⟩ := mem_of_find? hf
    rw [hl.eq_of_id hm' hm hid]

theorem holds_of_has (hl : l.Sound) (h : l.Has id name) (hh : l.holds id = true) :
    l.Holds id name := by
  obtain ⟨x, hx, rfl, hname⟩ := h
  rw [Locks.holds, hl.find?_eq_some hx] at hh
  exact ⟨x, hx, rfl, hname, by simpa using hh⟩

/-- One handle at most holds the lock of a name. -/
theorem holds_unique (hl : l.Sound) {id' : Nat} (h : l.Holds id name) (h' : l.Holds id' name) :
    id = id' := by
  obtain ⟨x, hx, rfl, hname, huse⟩ := h
  obtain ⟨x', hx', rfl, hname', huse'⟩ := h'
  have hlock : x.lock = x'.lock := by
    have hmap := hl.mapped x hx
    rw [hname, ← hname', hl.mapped x' hx'] at hmap
    exact (Option.some.inj hmap).symm
  rw [hl.holder_unique x hx x' hx' huse huse' hlock]

end Sound

/-! ### Asking for a lock -/

def kept (l : Locks) (name : String) : Table String Nat :=
  l.map.filter fun n lock => n == name || l.inUse lock

theorem get?_kept_of_mem {h : Handle} (hm : h ∈ l.handles)
    (hmap : l.map.get? h.name = some h.lock) (name : String) :
    (l.kept name).get? h.name = some h.lock := by
  have huse : l.inUse h.lock = true := List.any_eq_true.2 ⟨h, hm, by simp⟩
  rw [kept, Table.get?_filter, hmap]
  exact if_pos (by simp [huse])

theorem get?_of_get?_kept {n : String} {lock : Nat} (h : (l.kept name).get? n = some lock) :
    l.map.get? n = some lock := by
  rw [kept, Table.get?_filter, Option.filter_eq_some_iff] at h
  exact h.1

theorem get_eq (l : Locks) (name : String) : l.get name =
    match (l.kept name).get? name with
    | some lock => (l.nextHandle, { l with
        map := l.kept name
        handles := l.handles ++ [⟨l.nextHandle, name, lock, .idle⟩]
        nextHandle := l.nextHandle + 1 })
    | none => (l.nextHandle, {
        map := (l.kept name).insert name l.nextLock
        handles := l.handles ++ [⟨l.nextHandle, name, l.nextLock, .idle⟩]
        nextLock := l.nextLock + 1
        nextHandle := l.nextHandle + 1 }) := rfl

theorem handles_get (l : Locks) (name : String) : ∃ lock,
    (l.get name).2.handles = l.handles ++ [⟨(l.get name).1, name, lock, .idle⟩] := by
  rw [get_eq]
  cases (l.kept name).get? name with
  | some lock => exact ⟨lock, rfl⟩
  | none => exact ⟨l.nextLock, rfl⟩

theorem ids_get (l : Locks) (name : String) :
    (l.get name).2.ids = l.ids ++ [(l.get name).1] := by
  obtain ⟨lock, h⟩ := handles_get l name
  simp [ids, h]

theorem has_get (l : Locks) (name : String) : (l.get name).2.Has (l.get name).1 name := by
  obtain ⟨lock, h⟩ := handles_get l name
  exact ⟨⟨(l.get name).1, name, lock, .idle⟩, by simp [h], rfl, rfl⟩

theorem keeps_get (l : Locks) (name : String) (id : Nat) : Keeps l (l.get name).2 id := by
  obtain ⟨lock, h⟩ := handles_get l name
  exact fun x hx hid => ⟨x, by simp [h, hx], hid, rfl, fun h => h⟩

/-- A new handle is idle, and on the lock that its name has. -/
theorem Sound.append_idle (hl : l.Sound) {map : Table String Nat} {nextLock lock : Nat}
    (hkept : ∀ h ∈ l.handles, map.get? h.name = some h.lock)
    (hname : map.get? name = some lock)
    (hinjective : ∀ {name name' lock}, map.get? name = some lock →
      map.get? name' = some lock → name = name')
    (hlt : ∀ {name lock}, map.get? name = some lock → lock < nextLock) :
    Sound ⟨map, l.handles ++ [⟨l.nextHandle, name, lock, .idle⟩], nextLock, l.nextHandle + 1⟩ where
  ids_nodup := by
    have hids : (l.ids ++ [l.nextHandle]).Nodup := by
      refine List.nodup_append.2 ⟨hl.ids_nodup, List.nodup_singleton _, fun i hi j hj => ?_⟩
      obtain ⟨h, hm, rfl⟩ := List.mem_map.1 hi
      rw [List.mem_singleton.1 hj]
      exact Nat.ne_of_lt (hl.id_lt h hm)
    simpa [ids] using hids
  id_lt h hm := by
    rcases List.mem_append.1 hm with hm | hm
    · exact Nat.lt_succ_of_lt (hl.id_lt h hm)
    · rw [List.mem_singleton.1 hm]
      exact Nat.lt_succ_self _
  mapped h hm := by
    rcases List.mem_append.1 hm with hm | hm
    · exact hkept h hm
    · rw [List.mem_singleton.1 hm]
      exact hname
  map_injective := hinjective
  map_lt := hlt
  holder_unique h hm h' hm' huse huse' := by
    rcases List.mem_append.1 hm with hm | hm
    · rcases List.mem_append.1 hm' with hm' | hm'
      · exact hl.holder_unique h hm h' hm' huse huse'
      · rw [List.mem_singleton.1 hm'] at huse'
        cases huse'
    · rw [List.mem_singleton.1 hm] at huse
      cases huse

theorem Sound.get (hl : l.Sound) (name : String) : (l.get name).2.Sound := by
  have hkept (h : Handle) (hm : h ∈ l.handles) : (l.kept name).get? h.name = some h.lock :=
    get?_kept_of_mem hm (hl.mapped h hm) name
  have hlt {n : String} {lock : Nat} (hn : (l.kept name).get? n = some lock) :
      lock < l.nextLock := hl.map_lt (get?_of_get?_kept hn)
  rw [get_eq]
  cases hg : (l.kept name).get? name with
  | some lock =>
    refine hl.append_idle hkept hg (fun hn hn' => ?_) hlt
    exact hl.map_injective (get?_of_get?_kept hn) (get?_of_get?_kept hn')
  | none =>
    -- the name was not in the map, and no other has the new lock
    refine hl.append_idle (fun h hm => ?_) ?_ (fun {n n' lock} hn hn' => ?_) fun {n lock} hn => ?_
    · have hne : h.name ≠ name := by
        intro heq
        have hsome := hkept h hm
        rw [heq, hg] at hsome
        cases hsome
      rw [Table.get?_insert, if_neg hne]
      exact hkept h hm
    · rw [Table.get?_insert, if_pos rfl]
    · rw [Table.get?_insert] at hn hn'
      split at hn <;> split at hn'
      case isTrue.isTrue h h' => rw [h, h']
      case isTrue.isFalse =>
        cases hn
        exact absurd (hlt hn') (Nat.lt_irrefl _)
      case isFalse.isTrue =>
        cases hn'
        exact absurd (hlt hn) (Nat.lt_irrefl _)
      case isFalse.isFalse =>
        exact hl.map_injective (get?_of_get?_kept hn) (get?_of_get?_kept hn')
    · rw [Table.get?_insert] at hn
      split at hn
      case isTrue =>
        cases hn
        exact Nat.lt_succ_self _
      case isFalse => exact Nat.lt_succ_of_lt (hlt hn)

/-! ### Changing handles -/

/-- A change of handles in which each stays on its lock. -/
theorem Sound.change (hl : l.Sound) {handles : List Handle} (hnodup : (handles.map (·.id)).Nodup)
    (hfrom : ∀ h ∈ handles, ∃ x ∈ l.handles, x.id = h.id ∧ x.name = h.name ∧ x.lock = h.lock)
    (hunique : ∀ h ∈ handles, ∀ h' ∈ handles, h.use = .holding → h'.use = .holding →
      h.lock = h'.lock → h = h') : { l with handles }.Sound where
  ids_nodup := hnodup
  id_lt h hm := by
    obtain ⟨x, hx, hid, -, -⟩ := hfrom h hm
    exact hid ▸ hl.id_lt x hx
  mapped h hm := by
    obtain ⟨x, hx, -, hname, hlock⟩ := hfrom h hm
    exact hname ▸ hlock ▸ hl.mapped x hx
  map_injective := hl.map_injective
  map_lt := hl.map_lt
  holder_unique := hunique

def others (l : Locks) (id : Nat) : List Handle := l.handles.filter (·.id != id)

theorem mem_others {h : Handle} : h ∈ l.others id ↔ h ∈ l.handles ∧ h.id ≠ id := by
  simp [others]

theorem ids_others (hl : l.Sound) (id : Nat) : (l.others id).map (·.id) = l.ids.erase id := by
  rw [hl.ids_nodup.erase_eq_filter, ids, List.filter_map]
  rfl

theorem isHeld_iff {lock : Nat} : l.isHeld lock = true ↔
    ∃ h ∈ l.handles, h.lock = lock ∧ h.use = .holding := by
  simp [isHeld]

/-! ### Waiting for a lock -/

theorem wait_of_find? {h : Handle} (hf : l.find? id = some h) :
    l.wait id = { l with handles := l.others id ++
      [{ h with use := if l.isHeld h.lock then .waiting else .holding }] } := by
  simp only [wait, setUse, hf, others]

theorem wait_of_none (hf : l.find? id = none) : l.wait id = l := by
  simp only [wait, hf]

theorem ids_wait (hl : l.Sound) (id : Nat) : (l.wait id).ids.Perm l.ids := by
  cases hf : l.find? id with
  | none => rw [wait_of_none hf]
  | some h =>
    obtain ⟨hm, rfl⟩ := mem_of_find? hf
    have hmem : h.id ∈ l.ids := List.mem_map.2 ⟨h, hm, rfl⟩
    rw [wait_of_find? hf, ids, List.map_append, ids_others hl]
    exact (List.perm_append_singleton _ _).trans (List.perm_cons_erase hmem).symm

theorem has_wait (hl : l.Sound) (h : l.Has id name) : (l.wait id).Has id name := by
  obtain ⟨x, hx, rfl, hname⟩ := h
  rw [wait_of_find? (hl.find?_eq_some hx)]
  exact ⟨_, List.mem_append_right _ (List.mem_singleton_self _), rfl, hname⟩

theorem keeps_wait {id' : Nat} (hne : id' ≠ id) : Keeps l (l.wait id) id' := by
  cases hf : l.find? id with
  | none =>
    rw [wait_of_none hf]
    exact fun x hx hid => ⟨x, hx, hid, rfl, fun h => h⟩
  | some h =>
    rw [wait_of_find? hf]
    intro x hx hid
    exact ⟨x, List.mem_append_left _ (mem_others.2 ⟨hx, hid ▸ hne⟩), hid, rfl, fun h => h⟩

theorem keeps_get_wait (hl : l.Sound) (name : String) {id : Nat} (hid : id ∈ l.ids) :
    Keeps l ((l.get name).2.wait (l.get name).1) id := by
  have hne : id ≠ (l.get name).1 := by
    have hnodup := (hl.get name).ids_nodup
    rw [ids_get, List.nodup_append] at hnodup
    exact hnodup.2.2 id hid _ (List.mem_singleton_self _)
  exact (keeps_get l name id).trans (keeps_wait hne)

theorem Sound.wait (hl : l.Sound) (id : Nat) : (l.wait id).Sound := by
  cases hf : l.find? id with
  | none => rwa [wait_of_none hf]
  | some h =>
    obtain ⟨hm, hid⟩ := mem_of_find? hf
    have hids : (l.wait id).ids.Nodup := (ids_wait hl id).nodup_iff.2 hl.ids_nodup
    rw [wait_of_find? hf] at hids ⊢
    -- the lock is only taken if nobody holds it
    have hfree (x : Handle) (hx : x ∈ l.others id) (huse : x.use = .holding)
        (huse' : (if l.isHeld h.lock then Use.waiting else .holding) = .holding) :
        x.lock ≠ h.lock := by
      intro hlock
      rw [if_pos (isHeld_iff.2 ⟨x, (mem_others.1 hx).1, hlock, huse⟩)] at huse'
      cases huse'
    refine hl.change hids (fun x hx => ?_) fun x hx x' hx' huse huse' hlock => ?_
    · rcases List.mem_append.1 hx with hx | hx
      · exact ⟨x, (mem_others.1 hx).1, rfl, rfl, rfl⟩
      · rw [List.mem_singleton.1 hx]
        exact ⟨h, hm, rfl, rfl, rfl⟩
    · rcases List.mem_append.1 hx with hx | hx <;> rcases List.mem_append.1 hx' with hx' | hx'
      · exact hl.holder_unique x (mem_others.1 hx).1 x' (mem_others.1 hx').1 huse huse' hlock
      · rw [List.mem_singleton.1 hx'] at huse' hlock
        exact absurd hlock (hfree x hx huse huse')
      · rw [List.mem_singleton.1 hx] at huse hlock
        exact absurd hlock.symm (hfree x' hx' huse' huse)
      · rw [List.mem_singleton.1 hx, List.mem_singleton.1 hx']

/-! ### Giving a lock back -/

/-- A lock goes to one handle that waited for it, or to none. -/
theorem handOver_cases (lock : Nat) (hs : List Handle) :
    handOver lock hs = hs ∨
      ∃ before h after, hs = before ++ h :: after ∧ h.lock = lock ∧ h.use = .waiting ∧
        handOver lock hs = before ++ { h with use := .holding } :: after := by
  induction hs with
  | nil => exact .inl rfl
  | cons h rest ih =>
    rw [handOver]
    split
    case isTrue hw => exact .inr ⟨[], h, rest, rfl, hw.1, hw.2, rfl⟩
    case isFalse =>
      rcases ih with heq | ⟨before, x, after, hrest, hlock, huse, heq⟩
      · exact .inl (by rw [heq])
      · exact .inr ⟨h :: before, x, after, by rw [hrest]; rfl, hlock, huse, by rw [heq]; rfl⟩

theorem drop_of_find? {h : Handle} (hf : l.find? id = some h) :
    l.drop id = { l with
      handles := if h.use = .holding then handOver h.lock (l.others id) else l.others id } := by
  simp only [drop, hf, others]

theorem drop_of_none (hf : l.find? id = none) : l.drop id = l := by
  simp only [drop, hf]

/-- What giving a handle back does to the others: nothing, or one that waited now holds. -/
theorem drop_cases {h : Handle} (hf : l.find? id = some h) :
    l.drop id = { l with handles := l.others id } ∨
      ∃ before x after, l.others id = before ++ x :: after ∧ x.lock = h.lock ∧ x.use = .waiting ∧
        h.use = .holding ∧
        l.drop id = { l with handles := before ++ { x with use := .holding } :: after } := by
  rw [drop_of_find? hf]
  by_cases huse : h.use = .holding
  · rw [if_pos huse]
    rcases handOver_cases h.lock (l.others id) with heq | ⟨before, x, after, hsplit, hlock, hw, heq⟩
    · exact .inl (by rw [heq])
    · exact .inr ⟨before, x, after, hsplit, hlock, hw, huse, by rw [heq]⟩
  · exact .inl (by rw [if_neg huse])

theorem ids_drop (hl : l.Sound) (id : Nat) : (l.drop id).ids = l.ids.erase id := by
  cases hf : l.find? id with
  | none =>
    have hnot : id ∉ l.ids := fun hm => by
      obtain ⟨h, hh, hid⟩ := List.mem_map.1 hm
      exact not_mem_of_find? hf h hh hid
    rw [drop_of_none hf, List.erase_of_not_mem hnot]
  | some h =>
    rw [← ids_others hl]
    rcases drop_cases hf with heq | ⟨before, x, after, hsplit, -, -, -, heq⟩
    · rw [heq, ids]
    · rw [heq, hsplit, ids]
      simp

theorem keeps_drop {id' : Nat} (hne : id' ≠ id) : Keeps l (l.drop id) id' := by
  cases hf : l.find? id with
  | none =>
    rw [drop_of_none hf]
    exact fun x hx hid => ⟨x, hx, hid, rfl, fun h => h⟩
  | some h =>
    intro y hy hid
    have hmem : y ∈ l.others id := mem_others.2 ⟨hy, hid ▸ hne⟩
    rcases drop_cases hf with heq | ⟨before, x, after, hsplit, -, -, -, heq⟩
    · rw [heq]
      exact ⟨y, hmem, hid, rfl, fun h => h⟩
    · rw [heq]
      rw [hsplit, List.mem_append, List.mem_cons] at hmem
      rcases hmem with hy | rfl | hy
      · exact ⟨y, by simp [hy], hid, rfl, fun h => h⟩
      · exact ⟨{ y with use := .holding }, by simp, hid, rfl, fun _ => rfl⟩
      · exact ⟨y, by simp [hy], hid, rfl, fun h => h⟩

theorem Sound.drop (hl : l.Sound) (id : Nat) : (l.drop id).Sound := by
  cases hf : l.find? id with
  | none => rwa [drop_of_none hf]
  | some h =>
    obtain ⟨hm, hid⟩ := mem_of_find? hf
    have hids : (l.drop id).ids.Nodup := by
      rw [ids_drop hl]
      exact hl.ids_nodup.erase id
    have hsub (y : Handle) (hy : y ∈ l.others id) : y ∈ l.handles := (mem_others.1 hy).1
    rcases drop_cases hf with heq | ⟨before, x, after, hsplit, hlock, hwait, huse, heq⟩
    · rw [heq] at hids ⊢
      exact hl.change hids (fun y hy => ⟨y, hsub y hy, rfl, rfl, rfl⟩) fun y hy y' hy' =>
        hl.holder_unique y (hsub y hy) y' (hsub y' hy')
    · rw [heq] at hids ⊢
      have hx : x ∈ l.others id := by simp [hsplit]
      -- the handle that held the lock is gone, and so nobody else holds it
      have hfree (y : Handle) (hy : y ∈ l.others id) (hy' : y.use = .holding) :
          y.lock ≠ x.lock := by
        intro hsame
        have := hl.holder_unique y (hsub y hy) h hm hy' huse (hsame.trans hlock)
        exact (mem_others.1 hy).2 (this ▸ hid)
      have hmem (y : Handle) (hy : y ∈ before ++ { x with use := Use.holding } :: after) :
          y ∈ l.others id ∨ y = { x with use := Use.holding } := by
        rw [List.mem_append, List.mem_cons] at hy
        rw [hsplit, List.mem_append, List.mem_cons]
        rcases hy with hy | rfl | hy
        · exact .inl (.inl hy)
        · exact .inr rfl
        · exact .inl (.inr (.inr hy))
      refine hl.change hids (fun y hy => ?_) fun y hy y' hy' huse huse' hsame => ?_
      · rcases hmem y hy with hy | rfl
        · exact ⟨y, hsub y hy, rfl, rfl, rfl⟩
        · exact ⟨x, hsub x hx, rfl, rfl, rfl⟩
      · rcases hmem y hy with hy | rfl <;> rcases hmem y' hy' with hy' | rfl
        · exact hl.holder_unique y (hsub y hy) y' (hsub y' hy') huse huse' hsame
        · exact absurd hsame (hfree y hy huse)
        · exact absurd hsame.symm (hfree y' hy' huse')
        · rfl

end Locks

end SharedQuota
