import SharedQuota.Proofs.Locks.Exclusion

/-!
Nobody waits for a lock that is free. Whoever waits finds a handle that holds the lock
(`IsAttended`): a lock that is given back goes to the first that waits for it, at once.
-/

namespace SharedQuota.Locks

/-- Whatever is waited for is held. -/
def IsAttended (l : Locks) : Prop :=
  ∀ h ∈ l.handles, h.use = .waiting → l.isHeld h.lock = true

variable {l : Locks} {id : Nat} {name : String}

theorem isAttended_empty : empty.IsAttended := fun _ h => nomatch h

/-- Live handles are on one lock exactly if they are on one name. -/
theorem Sound.lock_eq_iff (hl : l.Sound) {h h' : Handle} (hm : h ∈ l.handles)
    (hm' : h' ∈ l.handles) : h.lock = h'.lock ↔ h.name = h'.name := by
  have hmap := hl.mapped h hm
  have hmap' := hl.mapped h' hm'
  constructor
  · intro hlock
    rw [hlock] at hmap
    exact hl.map_injective hmap hmap'
  · intro hname
    rw [hname, hmap'] at hmap
    exact (Option.some.inj hmap).symm

/-! ### Handing over -/

theorem mem_handOver {lock : Nat} {hs : List Handle} {h : Handle} (hm : h ∈ handOver lock hs) :
    h ∈ hs ∨ h.use = .holding := by
  rcases handOver_cases lock hs with heq | ⟨before, x, after, rfl, -, -, heq⟩
  · exact .inl (heq ▸ hm)
  · rw [heq, List.mem_append, List.mem_cons] at hm
    rcases hm with hm | rfl | hm
    · exact .inl (by simp [hm])
    · exact .inr rfl
    · exact .inl (by simp [hm])

/-- A lock that somebody waits for is held once it is handed over. -/
theorem exists_holding_handOver {lock : Nat} {hs : List Handle} {h : Handle} (hm : h ∈ hs)
    (hlock : h.lock = lock) (huse : h.use = .waiting) :
    ∃ g ∈ handOver lock hs, g.lock = lock ∧ g.use = .holding := by
  induction hs with
  | nil => cases hm
  | cons x rest ih =>
    rw [handOver]
    split
    case isTrue hw => exact ⟨_, List.mem_cons_self .., hw.1, rfl⟩
    case isFalse hw =>
      rcases List.mem_cons.1 hm with rfl | hm
      · exact absurd ⟨hlock, huse⟩ hw
      · obtain ⟨g, hg, hheld⟩ := ih hm
        exact ⟨g, List.mem_cons_of_mem _ hg, hheld⟩

theorem mem_handOver_of_holding {lock : Nat} {hs : List Handle} {h : Handle} (hm : h ∈ hs)
    (huse : h.use = .holding) : h ∈ handOver lock hs := by
  rcases handOver_cases lock hs with heq | ⟨before, x, after, rfl, -, hwaiting, heq⟩
  · rwa [heq]
  · rw [List.mem_append, List.mem_cons] at hm
    rw [heq, List.mem_append, List.mem_cons]
    rcases hm with hm | rfl | hm
    · exact .inl hm
    · rw [huse] at hwaiting
      cases hwaiting
    · exact .inr (.inr hm)

/-! ### What keeps locks attended -/

namespace IsAttended

theorem get (ha : l.IsAttended) (name : String) : (l.get name).2.IsAttended := by
  obtain ⟨lock, hhandles⟩ := handles_get l name
  intro h hm huse
  rw [hhandles, List.mem_append, List.mem_singleton] at hm
  rcases hm with hm | rfl
  · obtain ⟨g, hg, hlock, hholding⟩ := isHeld_iff.1 (ha h hm huse)
    exact isHeld_iff.2 ⟨g, by simp [hhandles, hg], hlock, hholding⟩
  · cases huse

/-- What holds a lock stays, as long as it is not what waits now. -/
theorem wait (ha : l.IsAttended)
    (hidle : ∀ h ∈ l.handles, h.id = id → h.use ≠ .holding) : (l.wait id).IsAttended := by
  cases hf : l.find? id with
  | none => rwa [wait_of_none hf]
  | some x =>
    obtain ⟨hx, hid⟩ := mem_of_find? hf
    have hstays (lock : Nat) (hheld : l.isHeld lock = true) : ∃ g ∈ l.others id,
        g.lock = lock ∧ g.use = .holding := by
      obtain ⟨g, hg, hlock, huse⟩ := isHeld_iff.1 hheld
      exact ⟨g, mem_others.2 ⟨hg, fun hsame => hidle g hg hsame huse⟩, hlock, huse⟩
    rw [wait_of_find? hf]
    intro h hm huse
    have hheld : l.isHeld h.lock = true := by
      rcases List.mem_append.1 hm with hm | hm
      · exact ha h (mem_others.1 hm).1 huse
      · obtain rfl := List.mem_singleton.1 hm
        dsimp only at huse ⊢
        split at huse
        case isTrue hheld => exact hheld
        case isFalse => cases huse
    obtain ⟨g, hg, hlock, hholding⟩ := hstays h.lock hheld
    exact isHeld_iff.2 ⟨g, List.mem_append_left _ hg, hlock, hholding⟩

theorem drop (ha : l.IsAttended) (hl : l.Sound) (id : Nat) : (l.drop id).IsAttended := by
  cases hf : l.find? id with
  | none => rwa [drop_of_none hf]
  | some x =>
    obtain ⟨hx, hid⟩ := mem_of_find? hf
    -- another handle than the one that goes holds every lock but the one that it held
    have hstays (h : Handle) (hm : h ∈ l.others id) (huse : h.use = .waiting)
        (hother : x.use = .holding → h.lock ≠ x.lock) :
        ∃ g ∈ l.others id, g.lock = h.lock ∧ g.use = .holding := by
      obtain ⟨g, hg, hlock, hholding⟩ := isHeld_iff.1 (ha h (mem_others.1 hm).1 huse)
      refine ⟨g, mem_others.2 ⟨hg, fun hsame => ?_⟩, hlock, hholding⟩
      obtain rfl : g = x := hl.eq_of_id hg hx (hsame.trans hid.symm)
      exact hother hholding hlock.symm
    rw [drop_of_find? hf]
    intro h hm huse
    refine isHeld_iff.2 ?_
    dsimp only at hm ⊢
    split at hm
    case isTrue hholding =>
      rw [if_pos hholding]
      have hmem : h ∈ l.others id := (mem_handOver hm).resolve_right fun hholds => by
        rw [huse] at hholds
        cases hholds
      by_cases hlock : h.lock = x.lock
      · rw [hlock]
        exact exists_holding_handOver hmem hlock huse
      · obtain ⟨g, hg, hsame, hholds⟩ := hstays h hmem huse fun _ => hlock
        exact ⟨g, mem_handOver_of_holding hg hholds, hsame, hholds⟩
    case isFalse hnot =>
      rw [if_neg hnot]
      exact hstays h hm huse fun hholding => absurd hholding hnot

/-- A handle that has just been given out holds nothing. -/
theorem get_wait (ha : l.IsAttended) (hl : l.Sound) (name : String) :
    ((l.get name).2.wait (l.get name).1).IsAttended := by
  obtain ⟨lock, hhandles⟩ := handles_get l name
  have hnew : ⟨(l.get name).1, name, lock, .idle⟩ ∈ (l.get name).2.handles := by simp [hhandles]
  refine (ha.get name).wait fun h hm hid => ?_
  obtain rfl := (hl.get name).eq_of_id hm hnew hid
  exact fun huse => nomatch huse

end IsAttended

end SharedQuota.Locks
