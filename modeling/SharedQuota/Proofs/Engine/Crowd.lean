import SharedQuota.Proofs.Engine.Advance

/-!
Many calls on one engine. A move is one step of one of them, at a time and with an answer of its
own, so the runs of moves are all the ways in which the calls can interleave; a call that has not
begun is one that nobody has answered yet.
-/

namespace SharedQuota

structure Caller where
  work : Work
  dryRun : Bool
  stage : Stage

structure Crowd where
  shared : Shared
  callers : List Caller

structure Move where
  place : Nat
  now : Now
  answer : Answer

namespace Crowd

open Engine (operation? Advance)

/-- Every call is in its first stage, no lock is taken and nothing is reserved. -/
def start (works : List (Work × Bool)) : Crowd :=
  ⟨⟨Table.empty, .empty⟩, works.map fun w => ⟨w.1, w.2, w.1.start⟩⟩

def step? (rules : Rules) (s : Crowd) (m : Move) : Option Crowd := do
  let c ← s.callers[m.place]?
  let (shared, call, _) ← Engine.step rules m.now s.shared ⟨c.dryRun, c.stage⟩ m.answer
  some ⟨shared, s.callers.set m.place { c with stage := call.stage }⟩

def run? (rules : Rules) (s : Crowd) : List Move → Option Crowd
  | [] => some s
  | m :: ms => (s.step? rules m).bind (run? rules · ms)

def operations (rules : Rules) (s : Crowd) : List Move → List Ledger.Operation
  | [] => []
  | m :: ms =>
    (s.callers[m.place]?.bind fun c => operation? rules m.now c.stage m.answer).toList ++
      ((s.step? rules m).map (operations rules · ms)).getD []

variable {rules : Rules} {s t : Crowd} {m : Move}

/-- A move is a step of one call beside the others. -/
theorem of_step? (h : s.step? rules m = some t) : ∃ before c after shared stage,
    s.callers = before ++ c :: after ∧ before.length = m.place ∧
      t = ⟨shared, before ++ { c with stage } :: after⟩ ∧
      Advance rules m.now c.dryRun s.shared c.stage m.answer shared stage := by
  simp only [step?, Option.bind_eq_bind, Option.bind_eq_some_iff, Option.some.injEq] at h
  obtain ⟨c, hc, ⟨shared, call, reports⟩, hstep, rfl⟩ := h
  obtain ⟨hlt, rfl⟩ := List.getElem?_eq_some_iff.1 hc
  refine ⟨s.callers.take m.place, _, s.callers.drop (m.place + 1), shared, call.stage, ?_, ?_, ?_,
    (Advance.of_step hstep).1⟩
  · rw [List.getElem_cons_drop, List.take_append_drop]
  · exact List.length_take_of_le (Nat.le_of_lt hlt)
  · rw [List.set_eq_take_append_cons_drop, if_pos hlt]

section

variable {before after : List Caller} {c c' : Caller}

theorem mem_callers_of_split (h : s.callers = before ++ c :: after)
    (hc' : c' ∈ before ++ after) : c' ∈ s.callers := by
  rw [h, List.perm_middle.mem_iff]
  exact List.mem_cons_of_mem _ hc'

/-- What holds of the call that moved and of the others holds of all. -/
theorem forall_mem_split {P : Caller → Prop} (hothers : ∀ c' ∈ before ++ after, P c')
    (hown : P c) : ∀ c' ∈ before ++ c :: after, P c' := by
  intro c' hc'
  rw [List.perm_middle.mem_iff] at hc'
  rcases List.mem_cons.1 hc' with rfl | hc'
  · exact hown
  · exact hothers c' hc'

end

/-- A move is a step of the call at its place, and leaves the calls at other places as they are. -/
theorem caller_of_step? {place : Nat} {c : Caller} (h : s.step? rules m = some t)
    (hc : s.callers[place]? = some c) :
    (m.place = place ∧ ∃ stage, t.callers[place]? = some { c with stage } ∧
        Advance rules m.now c.dryRun s.shared c.stage m.answer t.shared stage) ∨
      m.place ≠ place ∧ t.callers[place]? = some c := by
  obtain ⟨before, c', after, shared, stage, hcallers, hlength, rfl, hadvance⟩ := of_step? h
  have hset : before ++ { c' with stage } :: after = s.callers.set m.place { c' with stage } := by
    simp [hcallers, ← hlength]
  by_cases hplace : m.place = place
  · subst hplace
    have hsame : s.callers[m.place]? = some c' := by simp [hcallers, ← hlength]
    obtain rfl : c' = c := Option.some.inj (hsame.symm.trans hc)
    exact .inl ⟨rfl, stage, by simp [← hlength], hadvance⟩
  · refine .inr ⟨hplace, ?_⟩
    dsimp only
    rw [hset, List.getElem?_set_ne hplace, hc]

theorem ledger_of_step? (h : s.step? rules m = some t) (ms : List Move) :
    s.shared.ledger.run (operations rules s (m :: ms)) =
      t.shared.ledger.run (operations rules t ms) := by
  obtain ⟨before, c, after, shared, stage, hs, hlength, rfl, hadvance⟩ := of_step? h
  have hc : s.callers[m.place]? = some c := by simp [hs, ← hlength]
  simp only [operations, h, hc, Option.bind_some, Option.map_some, Option.getD_some,
    Ledger.run_append, hadvance.ledger_eq]
  cases operation? rules m.now c.stage m.answer <;> rfl

theorem ledger_of_run? {ms : List Move} (h : s.run? rules ms = some t) :
    t.shared.ledger = s.shared.ledger.run (operations rules s ms) := by
  induction ms generalizing s with
  | nil =>
    cases h
    rfl
  | cons m ms ih =>
    obtain ⟨u, hu, ht⟩ := Option.bind_eq_some_iff.1 h
    rw [ledger_of_step? hu, ih ht]

/-- What every move of a run preserves holds after the run. -/
theorem of_run? {P : Crowd → Prop} {ms : List Move}
    (hstep : ∀ m ∈ ms, ∀ s t : Crowd, P s → s.step? rules m = some t → P t)
    (h : s.run? rules ms = some t) (hs : P s) : P t := by
  induction ms generalizing s with
  | nil =>
    cases h
    exact hs
  | cons m ms ih =>
    obtain ⟨u, hu, ht⟩ := Option.bind_eq_some_iff.1 h
    obtain ⟨hm, hrest⟩ := List.forall_mem_cons.1 hstep
    exact ih hrest ht (hm s u hs hu)

theorem exists_move_of_mem_operations {ms : List Move} {op : Ledger.Operation}
    (h : op ∈ operations rules s ms) : ∃ m ∈ ms, op.time = m.now.millis := by
  induction ms generalizing s with
  | nil => cases h
  | cons m ms ih =>
    rcases List.mem_append.1 h with h | h
    · obtain ⟨c, -, hop⟩ := Option.bind_eq_some_iff.1 (Option.mem_toList.1 h)
      exact ⟨m, List.mem_cons_self .., Engine.time_of_operation? hop⟩
    · cases hstep : s.step? rules m with
      | none => simp [hstep] at h
      | some u =>
        obtain ⟨m', hm', htime⟩ := ih (by simpa [hstep] using h)
        exact ⟨m', List.mem_cons_of_mem _ hm', htime⟩

end Crowd

end SharedQuota
