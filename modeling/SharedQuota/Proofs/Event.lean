import SharedQuota.Event
import SharedQuota.Proofs.Time.Latest
import SharedQuota.Proofs.Time.Written

/-!
Which events are old, told from the texts of their times. Main statement (`isExpired_iff`): an event
has expired exactly if one of its texts is a time, and the latest such time is farther back than the
retention.
-/

namespace SharedQuota.Event

/-! ### Times of events -/

/-- The texts of the times of an event as it is written again: to the second, and that of the event
itself to the microsecond. -/
def timeTexts (e : Event) : List String :=
  (e.lastTime.map Time.secondText).toList ++ (e.eventTime.map Time.microsecondText).toList ++
    (e.firstTime.map Time.secondText).toList ++ (e.metadata.created.map Time.secondText).toList

def Carries (e : Event) (t : Time) : Prop := ∃ text ∈ e.timeTexts, Time.ofRfc3339? text = some t

/-- The event carries this time and none that is later. -/
structure IsLastSeen (e : Event) (t : Time) : Prop where
  carried : e.Carries t
  latest : ∀ t', e.Carries t' → ¬ t.before t' = true

/-- The event carries a time, and the latest is more than `retention` milliseconds ago. -/
def IsOld (now : Time) (retention : Nat) (e : Event) : Prop :=
  ∃ t, e.IsLastSeen t ∧ (retention * 1_000_000 : Int) < now.since t

/-- The times of the event are such as have been read. -/
structure IsProper (e : Event) : Prop where
  last : ∀ t, e.lastTime = some t → t.IsProper
  event : ∀ t, e.eventTime = some t → t.IsProper
  first : ∀ t, e.firstTime = some t → t.IsProper
  created : ∀ t, e.metadata.created = some t → t.IsProper

theorem isProper_of_timeAt {key : String} {members : List (String × Json)} {t : Time}
    (h : timeAt key members = some t) : t.IsProper := by
  obtain ⟨text, -, ht⟩ := Option.bind_eq_some_iff.1 h
  exact Time.isProper_of_ofStamp? ht

theorem isProper_of_metadataAt {members : List (String × Json)} {t : Time}
    (h : (Json.metadataAt members).created = some t) : t.IsProper := by
  rw [Json.metadataAt] at h
  cases hmembers : Json.membersAt "metadata" members with
  | none =>
    rw [hmembers] at h
    cases h
  | some own =>
    rw [hmembers, Option.map_some, Option.getD_some] at h
    obtain ⟨j, -, h⟩ := Option.bind_eq_some_iff.1 h
    obtain ⟨text, -, ht⟩ := Option.bind_eq_some_iff.1 h
    exact Time.isProper_of_ofStamp? ht

theorem isProper_of_ofJson? {j : Json} {e : Event} (h : ofJson? j = some e) : e.IsProper := by
  obtain ⟨members, -, h⟩ := Option.bind_eq_some_iff.1 h
  rw [← Option.some.inj h]
  exact ⟨fun _ => isProper_of_timeAt, fun _ => isProper_of_timeAt, fun _ => isProper_of_timeAt,
    fun _ => isProper_of_metadataAt⟩

variable {e : Event} {t now : Time} {retention : Nat}

/-- What is read from the text of a time, if there is one. -/
theorem exists_read_iff {o : Option Time} {write : Time → String} (cut : Time → Time)
    (hread : ∀ t, o = some t →
      Time.ofRfc3339? (write t) = if t.hasPlainYear then some (cut t) else none)
    (hyear : ∀ t, (cut t).hasPlainYear = t.hasPlainYear) :
    (∃ text ∈ (o.map write).toList, Time.ofRfc3339? text = some t) ↔
      o.map cut = some t ∧ t.hasPlainYear = true := by
  cases o with
  | none => simp
  | some a =>
    simp only [Option.map_some, Option.toList_some, List.mem_singleton, exists_eq_left,
      hread a rfl, Option.ite_none_right_eq_some]
    constructor
    · rintro ⟨hplain, hcut⟩
      rw [← Option.some.inj hcut, hyear]
      exact ⟨rfl, hplain⟩
    · rintro ⟨hcut, hplain⟩
      rw [← Option.some.inj hcut, hyear] at hplain
      exact ⟨hplain, hcut⟩

theorem mem_times_iff : t ∈ e.times ↔ (e.lastTime.map Time.toSecond = some t ∨
    e.eventTime.map Time.toMicrosecond = some t ∨ e.firstTime.map Time.toSecond = some t ∨
      e.metadata.created.map Time.toSecond = some t) ∧ t.hasPlainYear = true := by
  simp only [times, List.mem_filter, List.mem_filterMap, List.mem_cons, List.not_mem_nil, or_false,
    id_eq, or_and_right, exists_or, exists_eq_left]

theorem IsProper.carries_iff (h : e.IsProper) : e.Carries t ↔ t ∈ e.times := by
  have hlast := exists_read_iff (t := t) Time.toSecond
    (fun a ha => Time.ofRfc3339?_secondText (h.last a ha)) fun _ => rfl
  have hevent := exists_read_iff (t := t) Time.toMicrosecond
    (fun a ha => Time.ofRfc3339?_microsecondText (h.event a ha)) fun _ => rfl
  have hfirst := exists_read_iff (t := t) Time.toSecond
    (fun a ha => Time.ofRfc3339?_secondText (h.first a ha)) fun _ => rfl
  have hcreated := exists_read_iff (t := t) Time.toSecond
    (fun a ha => Time.ofRfc3339?_secondText (h.created a ha)) fun _ => rfl
  simp only [Carries, timeTexts, List.mem_append, or_and_right, exists_or, hlast, hevent, hfirst,
    hcreated, mem_times_iff, or_assoc]

theorem IsProper.isLastSeen_iff (h : e.IsProper) : e.IsLastSeen t ↔ e.lastSeen? = some t := by
  rw [lastSeen?, Time.latest?_eq_some_iff]
  constructor
  · rintro ⟨hcarried, hlatest⟩
    exact ⟨h.carries_iff.1 hcarried, fun t' ht' => hlatest t' (h.carries_iff.2 ht')⟩
  · rintro ⟨hmem, hlatest⟩
    exact ⟨h.carries_iff.2 hmem, fun t' ht' => hlatest t' (h.carries_iff.1 ht')⟩

theorem IsProper.isExpired_iff (h : e.IsProper) :
    isExpired now retention e = true ↔ IsOld now retention e := by
  simp only [isExpired, Option.any_eq_true, IsOld, h.isLastSeen_iff, Bool.and_eq_true,
    decide_eq_true_eq]
  refine exists_congr fun t => and_congr_right fun _ => ?_
  omega

/-! ### Times that are not old -/

theorem IsProper.nano_lt_of_carries (h : e.IsProper) (ht : e.Carries t) :
    t.nano < 2_000_000_000 := by
  have hcut {o : Option Time} (hproper : ∀ a, o = some a → a.IsProper) {cut : Time → Time}
      (hle : ∀ a, (cut a).nano ≤ a.nano) (hmap : o.map cut = some t) : t.nano < 2_000_000_000 := by
    obtain ⟨a, ha, rfl⟩ := Option.map_eq_some_iff.1 hmap
    exact Nat.lt_of_le_of_lt (hle a) (hproper a ha).nano_lt
  have hsecond (a : Time) : a.toSecond.nano ≤ a.nano := Nat.div_mul_le_self ..
  have hmicrosecond (a : Time) : a.toMicrosecond.nano ≤ a.nano := Nat.div_mul_le_self ..
  obtain ⟨hlast | hevent | hfirst | hcreated, -⟩ := mem_times_iff.1 (h.carries_iff.1 ht)
  · exact hcut h.last hsecond hlast
  · exact hcut h.event hmicrosecond hevent
  · exact hcut h.first hsecond hfirst
  · exact hcut h.created hsecond hcreated

/-- An old event carries no time of the future. -/
theorem IsOld.not_before (h : IsOld now retention e) (hnow : now.isLeap = false)
    (ht : e.Carries t) : ¬ now.before t = true := by
  obtain ⟨last, hlast, hage⟩ := h
  have hpast := Time.not_before_of_since_pos hnow (a := last) (by omega)
  have hlatest := hlast.latest t ht
  rw [Time.before_iff] at hpast hlatest ⊢
  omega

/-- Without leap seconds all times of an old event are old. -/
theorem IsOld.lt_since (h : IsOld now retention e) (hnow : now.isLeap = false)
    (hleap : ∀ t, e.Carries t → t.isLeap = false) (ht : e.Carries t) :
    (retention * 1_000_000 : Int) < now.since t := by
  obtain ⟨last, hlast, hage⟩ := h
  have hle := Time.since_le_of_not_before hnow (hleap last hlast.carried) (hleap t ht)
    (hlast.latest t ht)
  omega

/-- With them an earlier time may seem nearer than the latest, but by no more than the second that
is left out. -/
theorem IsOld.lt_since_add (h : IsOld now retention e) (hproper : e.IsProper)
    (hnow : now.isLeap = false) (ht : e.Carries t) :
    (retention * 1_000_000 : Int) < now.since t + Time.nanosPerSecond := by
  obtain ⟨last, hlast, hage⟩ := h
  have hle := Time.since_le_add_of_not_before hnow (hproper.nano_lt_of_carries hlast.carried)
    (hproper.nano_lt_of_carries ht) (hlast.latest t ht)
  omega

/-- No time of the event is of the future or within the retention: each is no later than an instant
that is more than the retention ago. Leap seconds are left out of account, so one that is earlier
than a leap second may seem nearer, by less than a second. -/
structure IsPast (now : Time) (retention : Nat) (e : Event) : Prop where
  not_future : ∀ t, e.Carries t → ¬ now.before t = true
  past : ∀ t, e.Carries t → ∃ instant : Time, ¬ instant.before t = true ∧
    (retention * 1_000_000 : Int) < now.since instant
  old : (∀ t, e.Carries t → t.isLeap = false) →
    ∀ t, e.Carries t → (retention * 1_000_000 : Int) < now.since t
  nearly_old : ∀ t, e.Carries t → (retention * 1_000_000 : Int) < now.since t + Time.nanosPerSecond

theorem IsOld.isPast (h : IsOld now retention e) (hproper : e.IsProper)
    (hnow : now.isLeap = false) : IsPast now retention e where
  not_future _ := h.not_before hnow
  past t ht := by
    obtain ⟨last, hlast, hage⟩ := h
    exact ⟨last, hlast.latest t ht, hage⟩
  old hleap _ := h.lt_since hnow hleap
  nearly_old _ := h.lt_since_add hproper hnow

end SharedQuota.Event
