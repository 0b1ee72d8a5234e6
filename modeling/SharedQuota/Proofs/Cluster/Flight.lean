import SharedQuota.Cluster.Flight

/-!
Reads on their way, turn by turn. `Round.Spends` says that the units taken of a round are made up
for by what is needed less, and a turn in which the round stays calm, taking none of the units there
are, has found that there is nothing to do. Main statement (`Flight.turned`): what a turn of a read
can come to.
-/

namespace SharedQuota

namespace Round

/-- From a round to a later point of it. The units taken are made up for by what is needed less. -/
structure Spends (r r' : Round) (need need' : Nat) : Prop where
  millis : r'.millis = r.millis
  units_le : r'.units ≤ r.units
  covered : r.units + need' ≤ r'.units + need

/-- There are units, and none is taken. -/
def IsCalm (r r' : Round) : Prop := 0 < r.units ∧ r'.units = r.units

variable {r r' r'' spent : Round} {need need' need'' : Nat}

namespace Spends

theorem refl (r : Round) (need : Nat) : r.Spends r need need := ⟨rfl, Nat.le_refl _, Nat.le_refl _⟩

theorem trans (h : r.Spends r' need need') (h' : r'.Spends r'' need' need'') :
    r.Spends r'' need need'' where
  millis := h'.millis.trans h.millis
  units_le := Nat.le_trans h'.units_le h.units_le
  covered := by
    have := h.covered
    have := h'.covered
    omega

theorem add (h : r.Spends r' need need') (more : Nat) :
    r.Spends r' (need + more) (need' + more) :=
  ⟨h.millis, h.units_le, by have := h.covered; omega⟩

theorem add_left (h : r.Spends r' need need') (more : Nat) :
    r.Spends r' (more + need) (more + need') :=
  ⟨h.millis, h.units_le, by have := h.covered; omega⟩

theorem mono_left (h : r.Spends r' need need') {more : Nat} (hle : need ≤ more) :
    r.Spends r' more need' :=
  ⟨h.millis, h.units_le, by have := h.covered; omega⟩

theorem mono (h : r.Spends r' need need') {less : Nat} (hle : less ≤ need') :
    r.Spends r' need less :=
  ⟨h.millis, h.units_le, by have := h.covered; omega⟩

theorem retry (h : r.Spends r' need need') : r.Spends r'.retry need need' :=
  ⟨h.millis, h.units_le, h.covered⟩

end Spends

theorem IsCalm.left (h : r.IsCalm r'') (hr : r'.units ≤ r.units) (hr' : r''.units ≤ r'.units) :
    r.IsCalm r' := ⟨h.1, Nat.le_antisymm hr (h.2 ▸ hr')⟩

theorem IsCalm.right (h : r.IsCalm r'') (hr : r'.units ≤ r.units) (hr' : r''.units ≤ r'.units) :
    r'.IsCalm r'' := by
  have := h.left hr hr'
  exact ⟨this.2 ▸ this.1, h.2.trans this.2.symm⟩

/-! ### Single looks -/

@[simp] theorem units_retry (r : Round) : r.retry.units = r.units := rfl

theorem spend?_eq_some (h : r.spend? = some spent) :
    0 < r.units ∧ spent.millis = r.millis ∧ spent.units + 1 = r.units ∧
      spent.again = r.again := by
  simp only [spend?] at h
  split at h <;> cases h
  exact ⟨by omega, rfl, by dsimp only; omega, rfl⟩

theorem spends_of_spend? (h : r.spend? = some spent) (hlt : need' < need) :
    r.Spends spent need need' := by
  obtain ⟨-, hmillis, hunits, -⟩ := spend?_eq_some h
  exact ⟨hmillis, by omega, by omega⟩

/-- What a look at a delay comes to. -/
theorem isOver_cases (r : Round) (due : Option Nat) :
    (due = none ∧ r.isOver due = (r, true)) ∨
      (∃ d spent, due = some d ∧ d ≤ r.millis ∧ r.spend? = some spent ∧
        r.isOver due = (spent, true)) ∨
      (∃ d, due = some d ∧ r.millis < d ∧ r.isOver due = (r, false)) ∨
      (∃ d, due = some d ∧ r.units = 0 ∧ r.isOver due = (r.retry, false)) := by
  cases due with
  | none => exact .inl ⟨rfl, rfl⟩
  | some d =>
    simp only [isOver]
    cases hs : r.spend? with
    | none => exact .inr (.inr (.inr ⟨d, rfl, spend?_eq_none.1 hs, rfl⟩))
    | some spent =>
      dsimp only
      split
      case isTrue hle => exact .inr (.inl ⟨d, spent, rfl, hle, rfl, rfl⟩)
      case isFalse hle => exact .inr (.inr (.inl ⟨d, rfl, by omega, rfl⟩))

/-- What a look at a deadline comes to. -/
theorem isLate_cases (r : Round) (before deadline : Nat) :
    (∃ spent, deadline ≤ r.millis ∧ r.spend? = some spent ∧
        r.isLate before deadline = (spent, true)) ∨
      (deadline ≤ r.millis ∧ r.units = 0 ∧ 0 < before ∧ r.isLate before deadline = (r, true)) ∨
      (r.millis < deadline ∧ r.isLate before deadline = (r, false)) ∨
      (before = 0 ∧ r.isLate before deadline = (r.retry, false)) := by
  simp only [isLate]
  cases hs : r.spend? with
  | some spent =>
    dsimp only
    split
    case isTrue hle => exact .inl ⟨spent, hle, rfl, rfl⟩
    case isFalse hle => exact .inr (.inr (.inl ⟨by omega, rfl⟩))
  | none =>
    dsimp only
    split
    case isTrue hbefore => exact .inr (.inr (.inr ⟨hbefore, rfl⟩))
    case isFalse hbefore =>
      by_cases hle : deadline ≤ r.millis
      · exact .inr (.inl ⟨hle, spend?_eq_none.1 hs, by omega, by simp [hle]⟩)
      · exact .inr (.inr (.inl ⟨by omega, by simp [hle]⟩))

/-- A round that finds a deadline past. -/
theorem of_isLate_eq_true {before deadline : Nat} (h : r.isLate before deadline = (r', true)) :
    deadline ≤ r.millis ∧ r'.millis = r.millis := by
  rcases r.isLate_cases before deadline with ⟨spent, hle, hspent, heq⟩ | ⟨hle, -, -, heq⟩ |
    ⟨-, heq⟩ | ⟨-, heq⟩ <;> rw [heq] at h <;> cases h
  · exact ⟨hle, (spend?_eq_some hspent).2.1⟩
  · exact ⟨hle, rfl⟩

/-- A round that does not find a deadline past, or has no units left to look at it. -/
theorem of_isLate_eq_false {before deadline : Nat} (h : r.isLate before deadline = (r', false)) :
    (r.millis < deadline ∧ r' = r) ∨ (before = 0 ∧ r' = r.retry) := by
  rcases r.isLate_cases before deadline with ⟨spent, -, -, heq⟩ | ⟨-, -, -, heq⟩ | ⟨hlt, heq⟩ |
    ⟨hzero, heq⟩ <;> rw [heq] at h <;> cases h
  · exact .inl ⟨hlt, rfl⟩
  · exact .inr ⟨hzero, rfl⟩

end Round

namespace Flight

open Round (Spends IsCalm)

variable {α : Type}

/-- The same read, with no more to be asked than before. -/
structure Keeps (f f' : Flight α) : Prop where
  answer : f'.answer = f.answer
  dueAt : f'.dueAt = f.dueAt
  requests : f'.requests = [] ↔ f.requests = []

theorem Keeps.refl (f : Flight α) : f.Keeps f := ⟨rfl, rfl, .rfl⟩

/-- The units that the read still takes at most, one for its deadline included. -/
def need (f : Flight α) : Nat := 2 * f.requests.length + if f.sent then 1 else 2

theorem need_pos (f : Flight α) : 0 < f.need := by
  simp only [need]
  split <;> omega

theorem need_le_unitsLeft (f : Flight α) : f.need ≤ f.unitsLeft := by
  simp only [need, unitsLeft]
  split <;> omega

/-- The read waits for a time that is to come, and for nothing else. -/
def Sleeps (f : Flight α) : Prop := f.requests = [] ∧ f.dueAt.isSome

theorem sleeps_of_lt_wakeAt {f : Flight α} {now : Nat} (h : now < f.wakeAt now) : f.Sleeps := by
  simp only [wakeAt] at h
  split at h
  case isFalse => omega
  case isTrue hrequests =>
    refine ⟨List.isEmpty_iff.1 hrequests, ?_⟩
    cases hdue : f.dueAt with
    | some d => rfl
    | none => simp [hdue] at h

theorem Sleeps.wakeAt_eq {f : Flight α} (h : f.Sleeps) (now later : Nat) :
    f.wakeAt later = f.wakeAt now := by
  obtain ⟨hrequests, hdue⟩ := h
  obtain ⟨d, hd⟩ := Option.isSome_iff_exists.1 hdue
  simp [wakeAt, hrequests, hd]

/-- What a turn of a read can come to. -/
inductive Turned (r : Round) (f : Flight α) (deadline : Nat) : Round → Turn α → Prop
  /-- A round stays calm only if the time of the read is to come. -/
  | waits {r' f'} (keeps : f.Keeps f') (spends : r.Spends r' f.need f'.need)
      (sleeps : f'.requests = [] → f'.dueAt.isSome)
      (calm : r.IsCalm r' → r' = r ∧ f' = f ∧ r.millis < f.wakeAt r.millis ∧
        r.millis < deadline)
      (sent : f'.sent = true → f.sent = true ∨ r.millis < deadline) :
    Turned r f deadline r' (.waits f')
  | ready {r'} (due : f.requests = [] → ∀ d, f.dueAt = some d → d ≤ r.millis)
      (spends : r.Spends r' f.need 0) (calm : r.IsCalm r' → r' = r ∧ ¬ f.Sleeps)
      (sent : f.requests ≠ [] → f.sent = true) :
    Turned r f deadline r' (.ready f.answer)
  | late {r'} (late : deadline ≤ r.millis) (spends : r.Spends r' f.need 0)
      (taken : r'.units < r.units)
      (ahead : f.requests = [] → ∃ d, f.dueAt = some d ∧ r.millis < d) :
    Turned r f deadline r' .late

theorem Turned.millis_eq {r r' : Round} {f : Flight α} {deadline : Nat} {turn : Turn α}
    (h : f.Turned r deadline r' turn) : r'.millis = r.millis := by
  cases h with
  | waits keeps spends => exact spends.millis
  | ready due spends => exact spends.millis
  | late late spends => exact spends.millis

theorem keeps_send (r : Round) (f : Flight α) : f.Keeps (send r f).2 := by
  simp only [send]
  cases r.spend? <;> exact ⟨rfl, rfl, .rfl⟩

theorem spends_send (r : Round) (f : Flight α) :
    r.Spends (send r f).1 (2 * f.requests.length + 2) (send r f).2.need := by
  simp only [send]
  cases hs : r.spend? with
  | none => exact (Spends.refl r _).retry
  | some spent =>
    have hspends : r.Spends spent (2 * f.requests.length + 2) (2 * f.requests.length + 1) :=
      Round.spends_of_spend? hs (by omega)
    dsimp only
    split
    · exact hspends.retry
    · exact hspends

theorem not_isCalm_send (r : Round) (f : Flight α) : ¬ r.IsCalm (send r f).1 := by
  intro hcalm
  have hunits := hcalm.2
  simp only [send] at hunits
  cases hs : r.spend? with
  | none => exact absurd (Round.spend?_eq_none.1 hs) (by have := hcalm.1; omega)
  | some spent =>
    obtain ⟨-, -, htaken, -⟩ := Round.spend?_eq_some hs
    rw [hs] at hunits
    dsimp only at hunits
    split at hunits
    · rw [Round.units_retry] at hunits
      omega
    · omega

theorem pos_units_of_sent_send (r : Round) (f : Flight α) (h : (send r f).2.sent = true) :
    0 < r.units := by
  simp only [send] at h
  cases hs : r.spend? with
  | none => simp [hs] at h
  | some spent => exact (Round.spend?_eq_some hs).1

/-- What a turn comes to when there is no deadline. -/
theorem turn_cases (r : Round) (f : Flight α) :
    (∃ r' requests f', turn r f = (r', requests, .waits f') ∧ f.Keeps f' ∧
        r.Spends r' f.need f'.need ∧ (f'.requests = [] → f'.dueAt.isSome) ∧
        (r.IsCalm r' → r' = r ∧ f' = f ∧ r.millis < f.wakeAt r.millis) ∧
        (f'.sent = true → f.sent = true ∨ 0 < r.units) ∧
        (f.requests = [] → (∃ d, f.dueAt = some d ∧ r.millis < d) ∨ r.units = 0)) ∨
      ∃ r' requests, turn r f = (r', requests, .ready f.answer) ∧
        (f.requests = [] → ∀ d, f.dueAt = some d → d ≤ r.millis) ∧ r.Spends r' f.need 0 ∧
        (r.IsCalm r' → r' = r ∧ ¬ f.Sleeps) ∧ (f.requests ≠ [] → f.sent = true) := by
  have hneed := f.need_pos
  simp only [turn]
  cases hrequests : f.requests with
  | nil =>
    dsimp only
    rcases r.isOver_cases f.dueAt with ⟨hdue, heq⟩ | ⟨d, spent, hdue, hle, hs, heq⟩ |
      ⟨d, hdue, hlt, heq⟩ | ⟨d, hdue, hzero, heq⟩ <;> rw [heq]
    · refine .inr ⟨_, _, rfl, by simp [hdue], (Spends.refl r f.need).mono (by omega), ?_, by simp⟩
      exact fun _ => ⟨rfl, by simp [Sleeps, hdue]⟩
    · obtain ⟨-, -, hunits, -⟩ := Round.spend?_eq_some hs
      refine .inr ⟨_, _, rfl, by simpa [hdue] using hle, Round.spends_of_spend? hs hneed, ?_,
        by simp⟩
      exact fun hcalm => absurd hcalm.2 (by omega)
    · refine .inl ⟨_, _, _, rfl, .refl f, .refl .., by simp [hdue], fun _ => ⟨rfl, rfl, ?_⟩, .inl,
        fun _ => .inl ⟨d, hdue, hlt⟩⟩
      simpa [wakeAt, hrequests, hdue] using hlt
    · refine .inl ⟨_, _, _, rfl, .refl f, (Spends.refl r _).retry, by simp [hdue], ?_, .inl,
        fun _ => .inr hzero⟩
      exact fun hcalm => absurd hcalm.1 (by omega)
  | cons request rest =>
    dsimp only
    cases hsent : f.sent with
    | false =>
      simp only [Bool.not_false, if_true]
      refine .inl ⟨_, _, _, rfl, keeps_send r f, (f.spends_send r).mono_left ?_, ?_, ?_,
        fun h => .inr (pos_units_of_sent_send r f h), by simp⟩
      · simp [need, hsent]
      · simp [(keeps_send r f).requests, hrequests]
      · exact fun hcalm => absurd hcalm (not_isCalm_send r f)
    | true =>
      simp only [Bool.not_true, Bool.false_eq_true, if_false]
      cases hs : r.spend? with
      | none =>
        have hzero := Round.spend?_eq_none.1 hs
        refine .inl ⟨_, _, _, rfl, .refl f, (Spends.refl r _).retry, by simp [hrequests], ?_,
          fun _ => .inl trivial, by simp⟩
        exact fun hcalm => absurd hcalm.1 (by omega)
      | some spent =>
        obtain ⟨-, -, hunits, -⟩ := Round.spend?_eq_some hs
        dsimp only
        cases rest with
        | nil =>
          refine .inr ⟨_, _, rfl, by simp, Round.spends_of_spend? hs hneed, ?_, fun _ => trivial⟩
          exact fun hcalm => absurd hcalm.2 (by omega)
        | cons next rest =>
          have hkeeps := keeps_send spent { f with requests := next :: rest, sent := true }
          have hspends := spends_send spent { f with requests := next :: rest, sent := true }
          have htaken : r.Spends spent f.need (2 * (next :: rest).length + 2) :=
            Round.spends_of_spend? hs (by simp [need, hsent, hrequests]; omega)
          simp only [List.isEmpty_cons, Bool.false_eq_true, if_false]
          refine .inl ⟨_, _, _, rfl, ⟨hkeeps.answer, hkeeps.dueAt, ?_⟩, htaken.trans hspends, ?_,
            fun hcalm => ?_, fun _ => .inl trivial, by simp⟩
          · simp [hkeeps.requests, hrequests]
          · simp [hkeeps.requests]
          · have := hcalm.2
            have := hspends.units_le
            omega

/-- Every turn of a read is one of those. -/
theorem turned (r : Round) (deadline : Nat) (f : Flight α) :
    f.Turned r deadline (f.turnBy r deadline).1 (f.turnBy r deadline).2.2 := by
  simp only [turnBy]
  rcases f.turn_cases r with ⟨r', requests, f', heq, hkeeps, hspends, hsleeps, hcalm, hsent,
    hwaits⟩ | ⟨r', requests, heq, hdue, hspends, hcalm, hsent⟩ <;> rw [heq] <;> dsimp only
  · have hneed := f'.need_pos
    rcases r'.isLate_cases r.units deadline with ⟨spent, hle, hs, heq⟩ |
      ⟨hle, hzero, hbefore, heq⟩ | ⟨hlt, heq⟩ | ⟨hbefore, heq⟩ <;> rw [heq] <;> dsimp only
    · obtain ⟨-, -, hunits, -⟩ := Round.spend?_eq_some hs
      have := hspends.units_le
      exact .late (hspends.millis ▸ hle) (hspends.trans (Round.spends_of_spend? hs hneed))
        (by omega) fun h => (hwaits h).resolve_right (by omega)
    · exact .late (hspends.millis ▸ hle) (hspends.mono (by omega)) (by omega)
        fun h => (hwaits h).resolve_right (by omega)
    · refine .waits hkeeps hspends hsleeps (fun h => ?_) fun _ => .inr (hspends.millis ▸ hlt)
      obtain ⟨hr, hf, hwake⟩ := hcalm h
      exact ⟨hr, hf, hwake, hspends.millis ▸ hlt⟩
    · exact .waits hkeeps hspends.retry hsleeps (fun h => absurd h.1 (by omega))
        fun h => (hsent h).imp_right fun hunits => absurd hunits (by omega)
  · exact .ready hdue hspends hcalm hsent

end Flight

/-! ### What was asked for -/

namespace Fetch

variable {α : Type}

/-- The milliseconds until the answer. What makes requests does not wait besides. -/
def wait (f : Fetch α) : Nat := if f.requests.isEmpty then f.delay else 0

/-- The read answers, and has done so by now when it was sent out at an instant. -/
def Gives (f : Fetch α) (since now : Nat) (a : α) : Prop :=
  f.answer = .ok a ∧ since + f.wait ≤ now

/-- The read goes wrong, and has done so by now. -/
def Fails (f : Fetch α) (since now : Nat) : Prop :=
  (∃ fault, f.answer = .error fault) ∧ since + f.wait ≤ now

/-- The read answers in time. -/
def Succeeds (f : Fetch α) (since deadline : Nat) : Prop := ∃ a, f.Gives since deadline a

variable {f : Fetch α} {since now later : Nat}

theorem Gives.mono {a : α} (h : f.Gives since now a) (hle : now ≤ later) :
    f.Gives since later a := ⟨h.1, Nat.le_trans h.2 hle⟩

theorem Fails.mono (h : f.Fails since now) (hle : now ≤ later) : f.Fails since later :=
  ⟨h.1, Nat.le_trans h.2 hle⟩

end Fetch

namespace Flight

variable {α : Type} {fetch : Fetch α} {since now : Nat} {f f' : Flight α}

/-- A read on its way that was sent out at an instant. -/
def IsFor (fetch : Fetch α) (since : Nat) (f : Flight α) : Prop := (start since fetch).Keeps f

theorem isFor_start (fetch : Fetch α) (since : Nat) : (start since fetch).IsFor fetch since :=
  .refl _

theorem IsFor.keeps (h : f.IsFor fetch since) (hkeeps : f.Keeps f') : f'.IsFor fetch since where
  answer := hkeeps.answer.trans h.answer
  dueAt := hkeeps.dueAt.trans h.dueAt
  requests := hkeeps.requests.trans h.requests

theorem IsFor.wait_le (h : f.IsFor fetch since) (hsince : since ≤ now)
    (hdue : f.requests = [] → ∀ d, f.dueAt = some d → d ≤ now) : since + fetch.wait ≤ now := by
  simp only [Fetch.wait]
  split
  case isFalse => exact hsince
  case isTrue hrequests =>
    have hdueAt := h.dueAt
    simp only [start] at hdueAt
    split at hdueAt
    case isTrue hzero => omega
    case isFalse => exact hdue (h.requests.2 (List.isEmpty_iff.1 hrequests)) _ hdueAt

end Flight

end SharedQuota
