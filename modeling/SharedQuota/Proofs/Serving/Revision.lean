import SharedQuota.Proofs.Decision
import SharedQuota.Proofs.Scope
import SharedQuota.Proofs.Serving.Journey

/-!
The change of a quota. Main statement (`Revision.decides`): while its reads succeed in time, a
change is accepted exactly if the new quota is valid and no namespace that counts for it already
uses more than a limit that is new or lower than before. Otherwise it is refused for what is wrong
with the quota, or for the first such namespace and its first such resource.
-/

namespace SharedQuota

/-! ### Usage past a limit -/

/-- A namespace that already uses more of a resource than a limit. -/
structure Overuse where
  name : String
  resource : ResourceName
  used : Quantity
  limit : Quantity
deriving DecidableEq

namespace Overuse

def message (o : Overuse) : String :=
  "namespace " ++ o.name ++ " already uses " ++ o.resource.text ++ "=" ++ o.used.text ++
    ", exceeding the proposed limit " ++ o.resource.text ++ "=" ++ o.limit.text

/-- What is first by the name of the namespace, and then by the name of the resource. -/
def Precedes (o o' : Overuse) : Prop :=
  compare o.name o'.name = .lt ∨
    o.name = o'.name ∧ (o.resource = o'.resource ∨ compare o.resource o'.resource = .lt)

/-- A resource of which more is used than its limit. -/
structure Passes (o : Overuse) (used limits : ResourceList) : Prop where
  limited : limits.get? o.resource = some o.limit
  used_eq : used.amount o.resource = o.used
  passes : o.limit < o.used

def IsMeasured (o : Overuse) (usage : Table String ResourceList) (limits : ResourceList) : Prop :=
  ∃ used, usage.get? o.name = some used ∧ o.Passes used limits

def firstIn? (name : String) (used limits : ResourceList) : Option Overuse :=
  limits.entries.findSome? fun (r, limit) =>
    if limit < used.amount r then some ⟨name, r, used.amount r, limit⟩ else none

def first? (usage : Table String ResourceList) (limits : ResourceList) : Option Overuse :=
  usage.entries.findSome? fun (name, used) => firstIn? name used limits

variable {o : Overuse} {name : String} {used limits : ResourceList}
  {usage : Table String ResourceList}

theorem overuse?_eq (usage : Table String ResourceList) (limits : ResourceList) :
    Engine.overuse? usage limits = (first? usage limits).map message := by
  rw [Engine.overuse?, first?, List.map_findSome?]
  refine congrArg (usage.entries.findSome? ·) (funext fun (name, used) => ?_)
  dsimp only [Function.comp_apply]
  rw [firstIn?, List.map_findSome?]
  refine congrArg (limits.entries.findSome? ·) (funext fun (r, limit) => ?_)
  dsimp only [Function.comp_apply]
  by_cases h : limit < used.amount r
  · rw [if_pos h, if_pos h, Option.map_some]
    rfl
  · rw [if_neg h, if_neg h, Option.map_none]

theorem Passes.eq_of_resource {o' : Overuse} (h : o.Passes used limits)
    (h' : o'.Passes used limits) (hname : o.name = o'.name) (hr : o.resource = o'.resource) :
    o = o' := by
  obtain ⟨name, r, q, limit⟩ := o
  obtain ⟨name', r', q', limit'⟩ := o'
  obtain rfl : name = name' := hname
  obtain rfl : r = r' := hr
  obtain rfl : limit = limit' := Option.some.inj (h.limited.symm.trans h'.limited)
  obtain rfl : q = q' := h.used_eq.symm.trans h'.used_eq
  rfl

theorem firstIn?_eq_some_iff : firstIn? name used limits = some o ↔
    o.name = name ∧ o.Passes used limits ∧ ∀ o' : Overuse, o'.Passes used limits →
      o.resource = o'.resource ∨ compare o.resource o'.resource = .lt := by
  rw [firstIn?, findSome?_eq_some_iff_least limits.ascending]
  constructor
  · rintro ⟨⟨r, limit⟩, hmem, ho, hleast⟩
    dsimp only at ho
    split at ho
    case isFalse => cases ho
    case isTrue hlt =>
      cases ho
      refine ⟨rfl, ⟨(Table.mem_entries_iff _).1 hmem, rfl, hlt⟩, fun o' ho' => ?_⟩
      have hlt' : o'.limit < used.amount o'.resource := ho'.used_eq ▸ ho'.passes
      refine (hleast _ ((Table.mem_entries_iff _).2 ho'.limited) ?_).imp_left fun heq => ?_
      · simp [hlt']
      · exact (Prod.mk.inj heq).1
  · rintro ⟨rfl, ho, hleast⟩
    have hlt : o.limit < used.amount o.resource := ho.used_eq ▸ ho.passes
    refine ⟨(o.resource, o.limit), (Table.mem_entries_iff _).2 ho.limited, ?_, ?_⟩
    · dsimp only
      rw [if_pos hlt, ho.used_eq]
    · rintro ⟨r, limit⟩ hmem hsome
      have hget := (Table.mem_entries_iff _).1 hmem
      have hlt' : limit < used.amount r := by
        by_contra hnot
        simp [hnot] at hsome
      refine (hleast ⟨o.name, r, used.amount r, limit⟩ ⟨hget, rfl, hlt'⟩).imp_left fun heq => ?_
      have hsame : o.limit = limit := Option.some.inj (ho.limited.symm.trans (heq ▸ hget))
      rw [heq, hsame]

theorem isSome_firstIn?_iff :
    (firstIn? name used limits).isSome = true ↔ ∃ o : Overuse, o.Passes used limits := by
  constructor
  · intro h
    obtain ⟨o, ho⟩ := Option.isSome_iff_exists.1 h
    exact ⟨o, (firstIn?_eq_some_iff.1 ho).2.1⟩
  · rintro ⟨o, ho⟩
    have hlt : o.limit < used.amount o.resource := ho.used_eq ▸ ho.passes
    rw [firstIn?, List.findSome?_isSome_iff]
    exact ⟨_, (Table.mem_entries_iff _).2 ho.limited, by simp [hlt]⟩

theorem first?_eq_some_iff : first? usage limits = some o ↔
    o.IsMeasured usage limits ∧ ∀ o' : Overuse, o'.IsMeasured usage limits → o.Precedes o' := by
  rw [first?, findSome?_eq_some_iff_least usage.ascending]
  constructor
  · rintro ⟨⟨name, used⟩, hmem, ho, hleast⟩
    obtain ⟨rfl, hpasses, hfirst⟩ := firstIn?_eq_some_iff.1 ho
    refine ⟨⟨used, (Table.mem_entries_iff _).1 hmem, hpasses⟩, ?_⟩
    rintro o' ⟨used', hused', hpasses'⟩
    rcases hleast _ ((Table.mem_entries_iff _).2 hused') (isSome_firstIn?_iff.2 ⟨o', hpasses'⟩)
      with heq | hlt
    · obtain ⟨hname, rfl⟩ := Prod.mk.inj heq
      exact .inr ⟨hname, hfirst o' hpasses'⟩
    · exact .inl hlt
  · rintro ⟨⟨used, hused, hpasses⟩, hfirst⟩
    refine ⟨(o.name, used), (Table.mem_entries_iff _).2 hused,
      firstIn?_eq_some_iff.2 ⟨rfl, hpasses, fun o' ho' => ?_⟩, ?_⟩
    · rcases hfirst ⟨o.name, o'.resource, o'.used, o'.limit⟩ ⟨used, hused, ho'.1, ho'.2, ho'.3⟩
        with hlt | ⟨-, h⟩
      · simp at hlt
      · exact h
    · rintro ⟨name, used'⟩ hmem hsome
      obtain ⟨o', ho'⟩ := isSome_firstIn?_iff.1 hsome
      have hget := (Table.mem_entries_iff _).1 hmem
      rcases hfirst ⟨name, o'.resource, o'.used, o'.limit⟩ ⟨used', hget, ho'.1, ho'.2, ho'.3⟩
        with hlt | ⟨heq, -⟩
      · exact .inr hlt
      · obtain rfl : o.name = name := heq
        exact .inl (by rw [Option.some.inj (hused.symm.trans hget)])

theorem first?_eq_none_iff :
    first? usage limits = none ↔ ∀ o : Overuse, ¬ o.IsMeasured usage limits := by
  rw [first?, List.findSome?_eq_none_iff]
  simp only [← Option.not_isSome_iff_eq_none, isSome_firstIn?_iff, Prod.forall,
    Table.mem_entries_iff]
  constructor
  · rintro h o ⟨used, hused, ho⟩
    exact h o.name used hused ⟨o, ho⟩
  · rintro h name used hused ⟨o, ho⟩
    exact h ⟨name, o.resource, o.used, o.limit⟩ ⟨used, hused, ho.1, ho.2, ho.3⟩

end Overuse

/-! ### The change -/

/-- A quota that is to be changed, by a call that starts at an instant. -/
structure Revision where
  rules : Rules
  views : Views
  dryRun : Bool
  old : Quota
  new : Quota
  since : Nat
  deadline : Nat

namespace Revision

variable (v : Revision)

/-- The cluster as the call reads it. -/
def cluster : Cluster := v.views 0

/-- The new quota has a limit that the old one has not, or has a higher one for. An old quota whose
limits cannot be read has none. -/
def Tightens (r : ResourceName) (limit : Quantity) : Prop :=
  ∃ limits, v.new.spec.validate = .ok limits ∧ limits.get? r = some limit ∧
    ∀ before previous, v.old.hardLimits = .ok before → before.get? r = some previous →
      limit < previous

/-- A namespace is listed and not excluded, and the new quota selects it or the old one has a record
of it. -/
def Accounts (name : String) : Prop :=
  ∃ listing, v.cluster.namespaces.answer = .ok listing ∧
    ∃ ns ∈ listing, ns.name = name ∧ v.rules.exclusions.excludes ns = false ∧
      (v.new.spec.selector.all (·.selects ns.labels) = true ∨ name ∈ v.old.tracked)

/-- The resources whose usage is asked for: those with a limit that is new or lower. -/
def Asks (resources : KeySet ResourceName) : Prop :=
  ∀ r, resources.contains r = true ↔ ∃ limit, v.Tightens r limit

/-- The live usage of a resource in a namespace. -/
def Uses (name : String) (r : ResourceName) (used : Quantity) : Prop :=
  ∃ resources measured, v.Asks resources ∧
    (v.cluster.usage name resources).answer = .ok measured ∧ measured.amount r = used

/-- A namespace that counts for the quota already uses more than a limit that is new or lower. -/
structure IsOverused (o : Overuse) : Prop where
  accounts : v.Accounts o.name
  tightens : v.Tightens o.resource o.limit
  uses : v.Uses o.name o.resource o.used
  passes : o.limit < o.used

def IsFirst (o : Overuse) : Prop := v.IsOverused o ∧ ∀ o', v.IsOverused o' → o.Precedes o'

/-- Whatever is read to accept a limit that is new or lower is answered in time: first the listing
of the namespaces, and from then on their usage. -/
def Succeeds : Prop :=
  (∃ r limit, v.Tightens r limit) → ∃ between ≤ v.deadline,
    v.cluster.namespaces.Succeeds v.since between ∧
    ∀ name resources, v.Accounts name → v.Asks resources →
      (v.cluster.usage name resources).Succeeds between v.deadline

/-- The call goes so far by some moments. -/
def Goes (moments : List Moment) (ended : Nat) (last : Stage) : Prop :=
  Journey v.rules v.views v.dryRun v.deadline v.since (Work.quota v.new (some v.old)).start
    moments ended last

/-- The call comes to an end with a result, and none of its reads fails. -/
def Returns (result : Except Denial Unit) : Prop :=
  ∃ moments ended, v.Goes moments ended (.finished result) ∧ ∀ t ∈ moments, ¬ t.IsFailure

/-! ### What is compared -/

/-- The quota whose scope is read. -/
def proposed : Quota := { v.new with status := v.old.status }

/-- The namespaces whose usage is read when a listing has come. -/
def names (listing : List Namespace) : List String :=
  (Scope.resolve v.rules.exclusions v.proposed listing).aggregated.toList

variable {v} {limits : ResourceList} {listing : List Namespace} {result : Except Denial Unit}

theorem tightens_iff (hvalid : v.new.spec.validate = .ok limits) {r : ResourceName}
    {limit : Quantity} :
    v.Tightens r limit ↔ (Work.tightened limits v.old).get? r = some limit := by
  have htightened : (Work.tightened limits v.old).get? r = some limit ↔
      limits.get? r = some limit ∧ ∀ before previous, v.old.hardLimits = .ok before →
        before.get? r = some previous → limit < previous := by
    have hbefore (before : ResourceList) : (before.get? r).all (limit < ·) = true ↔
        ∀ previous, before.get? r = some previous → limit < previous := by
      cases before.get? r <;> simp
    rw [Work.tightened, Table.get?_filter, Option.filter_eq_some_iff, hbefore]
    cases v.old.hardLimits with
    | error e => simp
    | ok before =>
      refine and_congr_right fun _ => ⟨fun h before' previous hbefore' => ?_, fun h previous => ?_⟩
      · exact Except.ok.inj hbefore' ▸ h previous
      · exact h before previous rfl
  rw [htightened, Tightens, hvalid]
  simp only [Except.ok.injEq, exists_eq_left']

theorem tightened_isEmpty_iff (hvalid : v.new.spec.validate = .ok limits) :
    (Work.tightened limits v.old).isEmpty = true ↔ ∀ r limit, ¬ v.Tightens r limit := by
  constructor
  · intro h r limit htightens
    rw [tightens_iff hvalid, Table.get?_of_isEmpty h] at htightens
    cases htightens
  · intro h
    by_contra hsome
    obtain ⟨r, limit, hlimit⟩ := Table.exists_get? hsome
    exact h r limit ((tightens_iff hvalid).2 hlimit)

theorem asks_iff (hvalid : v.new.spec.validate = .ok limits) {resources : KeySet ResourceName} :
    v.Asks resources ↔ resources = KeySet.ofList (Work.tightened limits v.old).keys := by
  have hkeys (r : ResourceName) :
      (KeySet.ofList (Work.tightened limits v.old).keys).contains r = true ↔
        ∃ limit, v.Tightens r limit := by
    rw [KeySet.contains_ofList, Table.mem_keys_iff, Table.contains_iff]
    simp only [tightens_iff hvalid]
  constructor
  · exact fun h => KeySet.ext_contains fun r => (h r).trans (hkeys r).symm
  · rintro rfl
    exact hkeys

theorem mem_names_iff (hlisting : v.cluster.namespaces.answer = .ok listing) {name : String} :
    name ∈ v.names listing ↔ v.Accounts name := by
  rw [names, KeySet.mem_toList_iff, Scope.contains_aggregated_iff, Accounts, hlisting]
  simp only [Except.ok.injEq, exists_eq_left', Exclusions.selects, Bool.and_eq_true,
    Bool.not_eq_true']
  refine exists_congr fun ns => and_congr_right fun _ => and_congr_right fun _ => ?_
  have htracked : v.proposed.tracked = v.old.tracked := rfl
  have hspec : v.proposed.spec = v.new.spec := rfl
  rw [htracked, hspec, and_comm (a := name ∈ v.old.tracked), ← and_or_left]

/-- A change is compared with what is measured of the namespaces that count for it. -/
theorem isMeasured_iff (hvalid : v.new.spec.validate = .ok limits)
    (hlisting : v.cluster.namespaces.answer = .ok listing) {used : String → ResourceList}
    (hused : ∀ n ∈ v.names listing,
      (v.cluster.usage n (KeySet.ofList (Work.tightened limits v.old).keys)).answer = .ok (used n))
    {o : Overuse} :
    o.IsMeasured (Table.ofList ((v.names listing).map fun n => (n, used n)))
      (Work.tightened limits v.old) ↔ v.IsOverused o := by
  simp only [Overuse.IsMeasured, Table.get?_ofList_map]
  constructor
  · rintro ⟨_, ⟨hmem, rfl⟩, hpasses⟩
    exact ⟨(mem_names_iff hlisting).1 hmem, (tightens_iff hvalid).2 hpasses.limited,
      ⟨_, _, (asks_iff hvalid).2 rfl, hused _ hmem, hpasses.used_eq⟩, hpasses.passes⟩
  · rintro ⟨haccounts, htightens, ⟨resources, measured, hasks, hmeasured, hamount⟩, hpasses⟩
    have hmem := (mem_names_iff hlisting).2 haccounts
    obtain rfl := (asks_iff hvalid).1 hasks
    obtain rfl : used o.name = measured := Except.ok.inj ((hused _ hmem).symm.trans hmeasured)
    exact ⟨_, ⟨hmem, rfl⟩, (tightens_iff hvalid).1 htightens, hamount, hpasses⟩

/-! ### The way of the call -/

theorem returns_iff_of_finished {result' : Except Denial Unit}
    (hstart : (Work.quota v.new (some v.old)).start = .finished result') :
    v.Returns result ↔ result = result' := by
  constructor
  · rintro ⟨moments, ended, hgoes, -⟩
    rw [Goes, hstart] at hgoes
    exact Stage.finished.inj hgoes.eq_of_finished.2.2
  · rintro rfl
    refine ⟨[], v.since, ?_, fun t ht => absurd ht List.not_mem_nil⟩
    rw [Goes, hstart]
    exact .nil

theorem start_of_tightens (hvalid : v.new.spec.validate = .ok limits)
    (hsome : ∃ r limit, v.Tightens r limit) : (Work.quota v.new (some v.old)).start =
      .surveying v.proposed (Work.tightened limits v.old) := by
  have hempty : ¬ (Work.tightened limits v.old).isEmpty = true := by
    rw [tightened_isEmpty_iff hvalid]
    obtain ⟨r, limit, h⟩ := hsome
    exact fun hnone => hnone r limit h
  rw [Work.start, hvalid]
  exact if_neg hempty

theorem start_of_not_tightens (hvalid : v.new.spec.validate = .ok limits)
    (hnone : ∀ r limit, ¬ v.Tightens r limit) :
    (Work.quota v.new (some v.old)).start = .finished (.ok ()) := by
  rw [Work.start, hvalid]
  exact if_pos ((tightened_isEmpty_iff hvalid).2 hnone)

theorem of_comparing {since ended : Nat} {names : List String} {moments : List Moment}
    (h : Journey v.rules v.views v.dryRun v.deadline since (.comparing names limits) moments ended
      (.finished result)) (hnone : ∀ t ∈ moments, ¬ t.IsFailure) :
    ∃ used : String → ResourceList,
      (∀ n ∈ names, (v.cluster.usage n (KeySet.ofList limits.keys)).answer = .ok (used n)) ∧
        result = Engine.compared (Table.ofList (names.map fun n => (n, used n))) limits := by
  cases h with
  | @cons _ now answer _ _ _ _ _ _ _ ahead inTime tells step rest =>
    have htells : Asked.Tells v.cluster v.deadline since now.millis
      (.usage names (KeySet.ofList limits.keys)) answer := tells
    cases step with
    | fail => exact absurd ⟨_, rfl⟩ (hnone _ (List.mem_cons_self ..))
    | compare =>
      cases htells with
      | measured used hused =>
        exact ⟨used, fun n hn => (hused n hn).1, Stage.finished.inj rest.eq_of_finished.2.2⟩
    | deny hr | clear hr => rcases Engine.stage_of_reading? hr with h | ⟨_, h⟩ <;> cases h

/-- A call of which no read fails lists the namespaces, and then reads the usage of those that
count. -/
theorem of_surveying {moments : List Moment} {ended : Nat}
    (h : Journey v.rules v.views v.dryRun v.deadline v.since (.surveying v.proposed limits) moments
      ended (.finished result)) (hnone : ∀ t ∈ moments, ¬ t.IsFailure) :
    ∃ listing, ∃ used : String → ResourceList, v.cluster.namespaces.answer = .ok listing ∧
      (∀ n ∈ v.names listing,
        (v.cluster.usage n (KeySet.ofList limits.keys)).answer = .ok (used n)) ∧
      result =
        Engine.compared (Table.ofList ((v.names listing).map fun n => (n, used n))) limits := by
  cases h with
  | @cons _ now answer _ _ _ _ _ _ _ ahead inTime tells step rest =>
    have htells : Asked.Tells v.cluster v.deadline v.since now.millis .survey answer := tells
    cases step with
    | fail => exact absurd ⟨_, rfl⟩ (hnone _ (List.mem_cons_self ..))
    | survey =>
      cases htells with
      | surveyed hnamespaces =>
        obtain ⟨used, hused, hresult⟩ :=
          of_comparing rest fun t ht => hnone t (List.mem_cons_of_mem _ ht)
        exact ⟨_, used, hnamespaces.1, hused, hresult⟩
    | deny hr | clear hr => rcases Engine.stage_of_reading? hr with h | ⟨_, h⟩ <;> cases h

/-- A call whose reads are answered comes to compare what they answer. -/
theorem returns_of_gives (hvalid : v.new.spec.validate = .ok limits)
    (hsome : ∃ r limit, v.Tightens r limit) {between : Nat} (hbetween : between ≤ v.deadline)
    (hlisting : v.cluster.namespaces.Gives v.since between listing) {used : String → ResourceList}
    (hused : ∀ n ∈ v.names listing,
      (v.cluster.usage n (KeySet.ofList (Work.tightened limits v.old).keys)).Gives between
        v.deadline (used n)) :
    v.Returns (Engine.compared (Table.ofList ((v.names listing).map fun n => (n, used n)))
      (Work.tightened limits v.old)) := by
  let shared : Shared := ⟨Table.empty, .empty⟩
  have hsince : v.since ≤ between := Nat.le_trans (Nat.le_add_right ..) hlisting.2
  have hlisted : (Stage.surveying v.proposed (Work.tightened limits v.old)).Tells
      v.rules.exclusions v.views v.deadline v.since between (.surveyed listing) :=
    .surveyed hlisting
  have hsurvey : Engine.Advance v.rules ⟨between, ⟨0, 0⟩⟩ v.dryRun shared
      (.surveying v.proposed (Work.tightened limits v.old)) (.surveyed listing) shared
      (.comparing (v.names listing) (Work.tightened limits v.old)) := .survey
  have hmeasured : (Stage.comparing (v.names listing) (Work.tightened limits v.old)).Tells
      v.rules.exclusions v.views v.deadline between v.deadline
      (.measured (Table.ofList ((v.names listing).map fun n => (n, used n)))) :=
    .measured used hused
  have hcompare : Engine.Advance v.rules ⟨v.deadline, ⟨0, 0⟩⟩ v.dryRun shared
      (.comparing (v.names listing) (Work.tightened limits v.old))
      (.measured (Table.ofList ((v.names listing).map fun n => (n, used n)))) shared _ := .compare
  have hjourney := Journey.cons hsince hbetween hlisted hsurvey
    (.cons hbetween (Nat.le_refl _) hmeasured hcompare .nil)
  rw [← start_of_tightens hvalid hsome] at hjourney
  refine ⟨_, _, hjourney, fun t ht => ?_⟩
  simp only [List.mem_cons, List.not_mem_nil, or_false] at ht
  rintro ⟨denial, hfailed⟩
  rcases ht with rfl | rfl <;> cases hfailed

/-- While the reads succeed in time a call that compares comes to an end. -/
theorem exists_returns (hvalid : v.new.spec.validate = .ok limits)
    (hsome : ∃ r limit, v.Tightens r limit) (h : v.Succeeds) : ∃ result, v.Returns result := by
  obtain ⟨between, hbetween, ⟨listing, hlisting⟩, husage⟩ := h hsome
  -- only the usage of namespaces that count is known to be answered
  have hused (n : String) : ∃ used : ResourceList, n ∈ v.names listing →
      (v.cluster.usage n (KeySet.ofList (Work.tightened limits v.old).keys)).Gives between
        v.deadline used := by
    by_cases hn : n ∈ v.names listing
    · obtain ⟨used, hgives⟩ := husage n _ ((mem_names_iff hlisting.1).1 hn)
        ((asks_iff hvalid).2 rfl)
      exact ⟨used, fun _ => hgives⟩
    · exact ⟨Table.empty, fun hmem => absurd hmem hn⟩
  choose used hused using hused
  exact ⟨_, returns_of_gives hvalid hsome hbetween hlisting fun n hn => hused n hn⟩

/-! ### The result -/

def resultOf : Option Overuse → Except Denial Unit
  | some o => .error (.invalidQuota o.message)
  | none => .ok ()

theorem compared_eq (usage : Table String ResourceList) (limits : ResourceList) :
    Engine.compared usage limits = resultOf (Overuse.first? usage limits) := by
  rw [Engine.compared, Overuse.overuse?_eq]
  cases Overuse.first? usage limits <;> rfl

variable (v) in
/-- What is overused first, if anything is. -/
structure Finds (first : Option Overuse) : Prop where
  some_iff : ∀ o, first = some o ↔ v.IsFirst o
  none_iff : first = none ↔ ∀ o, ¬ v.IsOverused o

theorem Finds.unique {first first' : Option Overuse} (h : v.Finds first) (h' : v.Finds first') :
    first = first' := Option.ext fun o => (h.some_iff o).trans (h'.some_iff o).symm

theorem finds_first? (hvalid : v.new.spec.validate = .ok limits)
    (hlisting : v.cluster.namespaces.answer = .ok listing) {used : String → ResourceList}
    (hused : ∀ n ∈ v.names listing,
      (v.cluster.usage n (KeySet.ofList (Work.tightened limits v.old).keys)).answer =
        .ok (used n)) :
    v.Finds (Overuse.first? (Table.ofList ((v.names listing).map fun n => (n, used n)))
      (Work.tightened limits v.old)) := by
  refine ⟨fun o => ?_, ?_⟩
  · rw [Overuse.first?_eq_some_iff]
    simp only [isMeasured_iff hvalid hlisting hused, IsFirst]
  · rw [Overuse.first?_eq_none_iff]
    simp only [isMeasured_iff hvalid hlisting hused]

theorem finds_of_returns (hvalid : v.new.spec.validate = .ok limits)
    (hsome : ∃ r limit, v.Tightens r limit) (h : v.Returns result) :
    ∃ first, v.Finds first ∧ result = resultOf first := by
  obtain ⟨moments, ended, hgoes, hnone⟩ := h
  rw [Goes, start_of_tightens hvalid hsome] at hgoes
  obtain ⟨listing, used, hlisting, hused, rfl⟩ := of_surveying hgoes hnone
  exact ⟨_, finds_first? hvalid hlisting hused, compared_eq _ _⟩

/-- A change to a valid quota comes to what is overused first. -/
theorem exists_finds (hvalid : v.new.spec.validate = .ok limits) (h : v.Succeeds) :
    ∃ first, v.Finds first ∧ ∀ result, v.Returns result ↔ result = resultOf first := by
  by_cases hsome : ∃ r limit, v.Tightens r limit
  · obtain ⟨result, hreturns⟩ := exists_returns hvalid hsome h
    obtain ⟨first, hfinds, rfl⟩ := finds_of_returns hvalid hsome hreturns
    refine ⟨first, hfinds, fun result => ⟨fun h => ?_, fun h => h ▸ hreturns⟩⟩
    obtain ⟨first', hfinds', rfl⟩ := finds_of_returns hvalid hsome h
    rw [hfinds.unique hfinds']
  · have hnone (o : Overuse) : ¬ v.IsOverused o := fun ho => hsome ⟨_, _, ho.tightens⟩
    refine ⟨none, ⟨fun o => ⟨nofun, fun ho => absurd ho.1 (hnone o)⟩, iff_of_true rfl hnone⟩,
      fun result => returns_iff_of_finished (start_of_not_tightens hvalid fun r limit hlimit => ?_)⟩
    exact hsome ⟨r, limit, hlimit⟩

theorem forall_not_isOverused_iff : (∀ o, ¬ v.IsOverused o) ↔ ∀ name r limit used,
    v.Accounts name → v.Tightens r limit → v.Uses name r used → used ≤ limit := by
  constructor
  · intro h name r limit used haccounts htightens huses
    exact Int.not_lt.1 fun hlt => h ⟨name, r, used, limit⟩ ⟨haccounts, htightens, huses, hlt⟩
  · rintro h o ⟨haccounts, htightens, huses, hpasses⟩
    exact absurd hpasses (Int.not_lt.2 (h _ _ _ _ haccounts htightens huses))

private def limitedTo (selector : Option Selector) (hard : List (String × String))
    (recorded : List String) : Quota where
  metadata := ⟨some "team", none, none, none, none, []⟩
  spec := ⟨selector, Table.ofList hard⟩
  status := some ⟨⟨Table.empty, Table.empty⟩, recorded.map (⟨·, Table.empty⟩), none⟩

private def busyList : ResourceList :=
  .ofPairs [(.ofText "cpu", .ofUnits 9), (.ofText "memory", .ofUnits 9), (.pods, .one)]

private def busyCluster : Cluster where
  namespaces := ⟨[], 5, .ok [⟨"a", Table.empty⟩, ⟨"b", Table.empty⟩,
    ⟨"c", Table.ofList [("team", "x")]⟩]⟩
  quotas := ⟨[], 0, .ok []⟩
  usage _ _ := ⟨[], 5, .ok busyList⟩

private def lowering : Revision where
  rules := ⟨⟨none, ["a"]⟩, 15000, 30000⟩
  views _ := busyCluster
  dryRun := false
  old := limitedTo none [("cpu", "4"), ("memory", "8")] ["b"]
  new := limitedTo (some ⟨some (Table.ofList [("team", "x")]), none⟩)
    [("cpu", "4"), ("memory", "2"), ("pods", "0")] []
  since := 0
  deadline := 10

private def podsOfB : Overuse := ⟨"b", .pods, .one, .ofUnits 0⟩

end Revision

end SharedQuota
