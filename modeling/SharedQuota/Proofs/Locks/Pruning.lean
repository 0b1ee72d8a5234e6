import SharedQuota.Proofs.Locks.Waiting

/-!
Locks while names are asked for, taken, waited for and given up in any order. Main statement
(`isExclusive_run`): although the map forgets what is idle, all that is in use of one name is one
lock, with one holder at most, and of two names two locks.
-/

namespace SharedQuota.Locks

/-- What is done with locks and with the handles that were given out. Giving up a handle ends it,
whether it is idle, waits or holds. -/
inductive Operation
  | get (name : String)
  | tryLock (id : Nat)
  | wait (id : Nat)
  | drop (id : Nat)

def isIdle (l : Locks) (id : Nat) : Bool := (l.find? id).any (·.use == .idle)

/-- Taking and waiting use a handle up: they are for those that are idle. -/
def apply (l : Locks) : Operation → Locks
  | .get name => (l.get name).2
  | .tryLock id => if l.isIdle id then l.tryLock id else l
  | .wait id => if l.isIdle id then l.wait id else l
  | .drop id => l.drop id

def run (l : Locks) (ops : List Operation) : Locks := ops.foldl apply l

variable {l : Locks} {id : Nat} {name : String}

/-! ### What operations keep -/

theorem tryLock_of_find? {h : Handle} (hf : l.find? id = some h) :
    l.tryLock id = if l.isHeld h.lock then l else l.wait id := by
  by_cases hheld : l.isHeld h.lock = true <;> simp [tryLock, wait, hf, hheld]

theorem tryLock_cases (l : Locks) (id : Nat) : l.tryLock id = l ∨ l.tryLock id = l.wait id := by
  cases hf : l.find? id with
  | none => exact .inl (by simp only [tryLock, hf])
  | some h =>
    rw [tryLock_of_find? hf]
    split
    case isTrue => exact .inl rfl
    case isFalse => exact .inr rfl

theorem Sound.not_holding_of_isIdle (hl : l.Sound) (hidle : l.isIdle id = true) :
    ∀ h ∈ l.handles, h.id = id → h.use ≠ .holding := by
  rintro h hm rfl huse
  rw [isIdle, hl.find?_eq_some hm, Option.any_some, huse] at hidle
  cases hidle

theorem Sound.apply (hl : l.Sound) (op : Operation) : (l.apply op).Sound := by
  cases op with
  | get name => exact hl.get name
  | tryLock id =>
    simp only [Locks.apply]
    split
    case isTrue =>
      rcases tryLock_cases l id with heq | heq <;> rw [heq]
      exacts [hl, hl.wait id]
    case isFalse => exact hl
  | wait id =>
    simp only [Locks.apply]
    split
    case isTrue => exact hl.wait id
    case isFalse => exact hl
  | drop id => exact hl.drop id

theorem IsAttended.apply (ha : l.IsAttended) (hl : l.Sound) (op : Operation) :
    (l.apply op).IsAttended := by
  cases op with
  | get name => exact ha.get name
  | tryLock id =>
    simp only [Locks.apply]
    split
    case isTrue hidle =>
      have hwait := ha.wait (hl.not_holding_of_isIdle hidle)
      rcases tryLock_cases l id with heq | heq <;> rw [heq]
      exacts [ha, hwait]
    case isFalse => exact ha
  | wait id =>
    simp only [Locks.apply]
    split
    case isTrue hidle => exact ha.wait (hl.not_holding_of_isIdle hidle)
    case isFalse => exact ha
  | drop id => exact ha.drop hl id

theorem sound_and_isAttended_run (hl : l.Sound) (ha : l.IsAttended) (ops : List Operation) :
    (l.run ops).Sound ∧ (l.run ops).IsAttended := by
  induction ops generalizing l with
  | nil => exact ⟨hl, ha⟩
  | cons op ops ih => exact ih (hl.apply op) (ha.apply hl op)

/-! ### What follows for names -/

/-- Somebody holds the lock of a name. -/
def IsTaken (l : Locks) (name : String) : Prop :=
  ∃ h ∈ l.handles, h.name = name ∧ h.use = .holding

namespace Sound

theorem isHeld_iff_isTaken (hl : l.Sound) {h : Handle} (hm : h ∈ l.handles) :
    l.isHeld h.lock = true ↔ l.IsTaken h.name := by
  rw [isHeld_iff]
  constructor
  · rintro ⟨g, hg, hlock, huse⟩
    exact ⟨g, hg, (hl.lock_eq_iff hg hm).1 hlock, huse⟩
  · rintro ⟨g, hg, hname, huse⟩
    exact ⟨g, hg, (hl.lock_eq_iff hg hm).2 hname, huse⟩

/-- An idle handle takes its lock unless a handle on the same name holds it. -/
theorem holds_wait_iff (hl : l.Sound) {h : Handle} (hm : h ∈ l.handles) :
    (l.wait h.id).holds h.id = true ↔ ¬ l.IsTaken h.name := by
  have hf := hl.find?_eq_some hm
  have hnew : { h with use := if l.isHeld h.lock then Use.waiting else .holding } ∈
      (l.wait h.id).handles := by
    rw [wait_of_find? hf]
    simp
  have hnow := (hl.wait h.id).find?_eq_some hnew
  rw [holds, show (l.wait h.id).find? h.id = _ from hnow, ← hl.isHeld_iff_isTaken hm]
  by_cases hheld : l.isHeld h.lock = true <;> simp [hheld]

theorem holds_tryLock_iff (hl : l.Sound) {h : Handle} (hm : h ∈ l.handles)
    (hidle : h.use = .idle) : (l.tryLock h.id).holds h.id = true ↔ ¬ l.IsTaken h.name := by
  have hf := hl.find?_eq_some hm
  rw [tryLock_of_find? hf]
  split
  case isTrue hheld => simp [holds, hf, hidle, (hl.isHeld_iff_isTaken hm).1 hheld]
  case isFalse => exact hl.holds_wait_iff hm

theorem contains_get_iff (hl : l.Sound) (name n : String) :
    (l.get name).2.map.contains n = true ↔
      n = name ∨ l.map.contains n = true ∧ ∃ h ∈ l.handles, h.name = n := by
  have hinUse {lock : Nat} (hmap : l.map.get? n = some lock) :
      l.inUse lock = true ↔ ∃ h ∈ l.handles, h.name = n := by
    rw [inUse, List.any_eq_true]
    constructor
    · rintro ⟨h, hm, hlock⟩
      have hh := hl.mapped h hm
      rw [beq_iff_eq.1 hlock] at hh
      exact ⟨h, hm, hl.map_injective hh hmap⟩
    · rintro ⟨h, hm, rfl⟩
      have hh := hl.mapped h hm
      rw [hmap] at hh
      exact ⟨h, hm, beq_iff_eq.2 (Option.some.inj hh).symm⟩
  have hkept : (l.kept name).contains n = true ↔
      l.map.contains n = true ∧ (n = name ∨ ∃ h ∈ l.handles, h.name = n) := by
    rw [Table.contains, kept, Table.get?_filter, Table.contains]
    cases hmap : l.map.get? n with
    | none => simp
    | some lock => simp [Option.filter, ← hinUse hmap]
  have hget : (l.get name).2.map.contains n = true ↔
      n = name ∨ (l.kept name).contains n = true := by
    rw [get_eq]
    cases hg : (l.kept name).get? name with
    | some lock =>
      refine ⟨.inr, fun h => h.elim (fun heq => ?_) id⟩
      rw [heq]
      exact (Table.contains_iff _).2 ⟨lock, hg⟩
    | none => exact Table.contains_insert (l.kept name) name l.nextLock
  rw [hget, hkept]
  tauto

end Sound

/-- How locks exclude each other. -/
structure IsExclusive (l : Locks) : Prop where
  /-- All that is in use of a name is one lock, and not that of another name. -/
  lock_eq_iff : ∀ h ∈ l.handles, ∀ h' ∈ l.handles, h.lock = h'.lock ↔ h.name = h'.name
  holder_unique : ∀ h ∈ l.handles, ∀ h' ∈ l.handles, h.use = .holding → h'.use = .holding →
    h.name = h'.name → h = h'
  /-- Only who holds a lock of the same name is in the way of an idle handle. -/
  taken : ∀ h ∈ l.handles, h.use = .idle →
    ((l.tryLock h.id).holds h.id = true ↔ ¬ l.IsTaken h.name) ∧
      ((l.wait h.id).holds h.id = true ↔ ¬ l.IsTaken h.name)
  /-- Whoever waits, waits for a holder of the same name. -/
  waiting : ∀ h ∈ l.handles, h.use = .waiting → l.IsTaken h.name
  /-- Asking for a name leaves that name in the map, and of the others those in use. -/
  kept : ∀ name n, (l.get name).2.map.contains n = true ↔
    n = name ∨ l.map.contains n = true ∧ ∃ h ∈ l.handles, h.name = n

theorem isExclusive_run (ops : List Operation) : (empty.run ops).IsExclusive := by
  obtain ⟨hl, ha⟩ := sound_and_isAttended_run sound_empty isAttended_empty ops
  exact {
    lock_eq_iff := fun h hm h' hm' => hl.lock_eq_iff hm hm'
    holder_unique := fun h hm h' hm' huse huse' hname =>
      hl.holder_unique h hm h' hm' huse huse' ((hl.lock_eq_iff hm hm').2 hname)
    taken := fun h hm hidle => ⟨hl.holds_tryLock_iff hm hidle, hl.holds_wait_iff hm⟩
    waiting := fun h hm huse => (hl.isHeld_iff_isTaken hm).1 (ha h hm huse)
    kept := hl.contains_get_iff }

/-- A name in use keeps its lock while another, which is idle, is forgotten. -/
example : let l := empty.run [.get "a", .tryLock 0, .get "b", .drop 1, .get "a", .wait 2]
    l.names = ["a"] ∧ l.handles.map (fun h => (h.id, h.lock, h.use)) =
      [(0, 0, .holding), (2, 0, .waiting)] := by
  decide +kernel

end SharedQuota.Locks
