import SharedQuota.Proofs.Gathering.Turn
import SharedQuota.Serving.Reads

/-!
What a call asks of the cluster in each of its stages, and what it may be told (`Asked.Tells`). Main
statement (`Reads.IsFor.turned`): a turn of the reads that a stage asks for tells the call what the
cluster answers, or of a failure with its cause, or leaves reads of the same.
-/

namespace SharedQuota

open Round (Spends IsCalm)

inductive Asked
  | nothing
  | listings
  | survey
  | usage (names : List String) (resources : KeySet ResourceName)

/-- What a call waits for in a stage. -/
def Stage.asked (x : Exclusions) : Stage → Asked
  | .listing _ _ | .relabelling _ _ => .listings
  | .surveying _ _ => .survey
  | .comparing names limits => .usage names (KeySet.ofList limits.keys)
  | .joining name _ _ resources => .usage [name] resources
  | .reading charge _ _ a _ _ =>
    .usage (Scope.resolve x a.quota charge.listing).aggregated.toList a.resources
  | _ => .nothing

namespace Asked

variable (c : Cluster)

/-- All that is asked for answers in time. -/
def Succeeds (since deadline : Nat) : Asked → Prop
  | nothing => True
  | listings => c.namespaces.Succeeds since deadline ∧ c.quotas.Succeeds since deadline
  | survey => c.namespaces.Succeeds since deadline
  | usage names resources => ∀ n ∈ names, (c.usage n resources).Succeeds since deadline

/-- Some of what is asked for has gone wrong. -/
def Fails (since now : Nat) : Asked → Prop
  | nothing => False
  | listings => c.namespaces.Fails since now ∨ c.quotas.Fails since now
  | survey => c.namespaces.Fails since now
  | usage names resources => ∃ n ∈ names, (c.usage n resources).Fails since now

/-- What a call may be told that asks since an instant: that it goes on, what all that it asks for
answers, or that something has gone wrong or the time is up. -/
inductive Tells (deadline since now : Nat) : Asked → Answer → Prop
  | proceed : Tells deadline since now .nothing .proceed
  | listed {namespaces quotas} (hnamespaces : c.namespaces.Gives since now namespaces)
      (hquotas : c.quotas.Gives since now quotas) :
    Tells deadline since now .listings (.listed namespaces quotas)
  | surveyed {namespaces} (hnamespaces : c.namespaces.Gives since now namespaces) :
    Tells deadline since now .survey (.surveyed namespaces)
  | measured {names resources} (used : String → ResourceList)
      (hused : ∀ n ∈ names, (c.usage n resources).Gives since now (used n)) :
    Tells deadline since now (.usage names resources)
      (.measured (Table.ofList (names.map fun n => (n, used n))))
  | failed {asked denial} (reason : denial.reason = .serviceUnavailable)
      (cause : deadline ≤ now ∨ asked.Fails c since now) :
    Tells deadline since now asked (.failed denial)

variable {c} {deadline since now : Nat} {asked : Asked} {answer : Answer}

theorem Tells.reason {denial : Denial} (h : asked.Tells c deadline since now (.failed denial)) :
    denial.reason = .serviceUnavailable := by
  cases h with
  | failed reason => exact reason

/-- Who is told of no failure by the deadline has been answered in time. -/
theorem Tells.succeeds (h : asked.Tells c deadline since now answer) (hle : now ≤ deadline)
    (hnot : ∀ denial, answer ≠ .failed denial) : asked.Succeeds c since deadline := by
  cases h with
  | proceed => trivial
  | listed hnamespaces hquotas => exact ⟨⟨_, hnamespaces.mono hle⟩, ⟨_, hquotas.mono hle⟩⟩
  | surveyed hnamespaces => exact ⟨_, hnamespaces.mono hle⟩
  | measured used hused => exact fun n hn => ⟨used n, (hused n hn).mono hle⟩
  | failed => exact absurd rfl (hnot _)

end Asked

/-- What a call may be told in a stage that it has been in since an instant. -/
def Stage.Tells (x : Exclusions) (views : Views) (deadline since now : Nat) (stage : Stage)
    (answer : Answer) : Prop :=
  (stage.asked x).Tells (views stage.view) deadline since now answer

/-! ### Listings -/

namespace Listing

variable {α : Type}

/-- The listing was sent out at an instant, or it is what has come of it. -/
inductive IsFor (fetch : Fetch α) (since now : Nat) : Listing α → Prop
  | running {flight} (isFor : flight.IsFor fetch since) : IsFor fetch since now (.running flight)
  | come {a} (gives : fetch.Gives since now a) : IsFor fetch since now (.come a)

def need : Listing α → Nat
  | .running flight => flight.need
  | .come _ => 0

/-- If the listing is on its way, it waits for a time, and for nothing else. -/
def Sleeps : Listing α → Prop
  | .running flight => flight.Sleeps
  | .come _ => True

/-- After a turn in which the round stays calm. -/
structure Settles (r r' : Round) (l l' : Listing α) : Prop where
  round : r' = r
  rests : ∀ flight, l' = .running flight → r.millis < flight.wakeAt r.millis
  same : l.Sleeps → l' = l

/-- What a turn of a listing can come to. -/
inductive Turned (fetch : Fetch α) (deadline since : Nat) (r : Round) (l : Listing α) :
    Round → Except Denial (Listing α) → Prop
  | goesOn {r' l'} (isFor : l'.IsFor fetch since r.millis) (spends : r.Spends r' l.need l'.need)
      (calm : r.IsCalm r' → l.Settles r r' l') :
    Turned fetch deadline since r l r' (.ok l')
  | fails {r' denial} (reason : denial.reason = .serviceUnavailable)
      (cause : deadline ≤ r.millis ∨ fetch.Fails since r.millis) (millis : r'.millis = r.millis) :
    Turned fetch deadline since r l r' (.error denial)

variable {fetch : Fetch α} {deadline since now : Nat} {r : Round} {l : Listing α}

theorem IsFor.mono (h : l.IsFor fetch since now) {later : Nat} (hle : now ≤ later) :
    l.IsFor fetch since later := by
  cases h with
  | running isFor => exact .running isFor
  | come gives => exact .come (gives.mono hle)

theorem IsFor.turned (h : l.IsFor fetch since r.millis) (hsince : since ≤ r.millis)
    (deadline : Nat) (what : String) : l.Turned fetch deadline since r (l.turn r deadline what).1
      (l.turn r deadline what).2.2 := by
  cases h with
  | come gives =>
    exact .goesOn (.come gives) (.refl ..) fun _ => ⟨rfl, nofun, fun _ => rfl⟩
  | @running flight isFor =>
    have hturned := flight.turned r deadline
    simp only [turn]
    generalize flight.turnBy r deadline = out at hturned ⊢
    obtain ⟨r', requests, turn⟩ := out
    dsimp only at hturned ⊢
    cases hturned with
    | waits keeps spends sleeps calm =>
      refine .goesOn (.running (isFor.keeps keeps)) spends fun hcalm => ?_
      obtain ⟨hround, rfl, hlt, -⟩ := calm hcalm
      exact ⟨hround, fun _ h => Listing.running.inj h ▸ hlt, fun _ => rfl⟩
    | ready due spends calm =>
      have hwait := isFor.wait_le hsince due
      have hanswer := isFor.answer
      generalize flight.answer = answer at hanswer
      cases answer with
      | ok a =>
        refine .goesOn (.come ⟨hanswer.symm, hwait⟩) spends fun hcalm => ?_
        obtain ⟨hround, hawake⟩ := calm hcalm
        exact ⟨hround, nofun, fun hsleeps => absurd hsleeps hawake⟩
      | error fault =>
        have hfails : fetch.Fails since r.millis := ⟨⟨fault, hanswer.symm⟩, hwait⟩
        cases fault <;> exact .fails rfl (.inr hfails) spends.millis
    | late late spends => exact .fails rfl (.inl late) spends.millis

theorem Settles.sleeps {r' : Round} {l' : Listing α} (h : l.Settles r r' l') : l'.Sleeps := by
  cases l' with
  | running flight => exact Flight.sleeps_of_lt_wakeAt (h.rests flight rfl)
  | come => trivial

theorem Settles.lt_wakeAt {r' : Round} {l' : Listing α} (h : l.Settles r r' l')
    (hlt : r.millis < deadline) : r.millis < l'.wakeAt r.millis deadline := by
  cases l' with
  | running flight => exact h.rests flight rfl
  | come => exact hlt

theorem Turned.millis_eq {r' : Round} {result : Except Denial (Listing α)}
    (h : l.Turned fetch deadline since r r' result) : r'.millis = r.millis := by
  cases h with
  | goesOn isFor spends => exact spends.millis
  | fails reason cause millis => exact millis

/-- Two listings have their turns one after the other. -/
theorem Turned.both {β : Type} {fetch' : Fetch β} {m m' : Listing β} {l' : Listing α}
    {r' r'' : Round} (h : l.Turned fetch deadline since r r' (.ok l'))
    (h' : m.Turned fetch' deadline since r' r'' (.ok m')) :
    l'.IsFor fetch since r.millis ∧ m'.IsFor fetch' since r.millis ∧
      r.Spends r'' (l.need + m.need) (l'.need + m'.need) ∧
      (r.IsCalm r'' → l.Settles r r'' l' ∧ m.Settles r r'' m') := by
  cases h with
  | goesOn isFor spends calm =>
    cases h' with
    | goesOn isFor' spends' calm' =>
      refine ⟨isFor, spends.millis ▸ isFor', (spends.add _).trans (spends'.add_left _),
        fun hcalm => ?_⟩
      have hsettles := calm (hcalm.left spends.units_le spends'.units_le)
      have hsettles' := calm' (hcalm.right spends.units_le spends'.units_le)
      obtain rfl := hsettles.round
      obtain rfl := hsettles'.round
      exact ⟨hsettles, hsettles'⟩

end Listing

/-! ### Reads -/

namespace Reads

/-- The reads are those that are asked for, sent out at an instant. -/
inductive IsFor (c : Cluster) (deadline since now : Nat) : Asked → Reads → Prop
  | nothing : IsFor c deadline since now .nothing .none
  | listings {ns qs turns} (namespaces : ns.IsFor c.namespaces since now)
      (quotas : qs.IsFor c.quotas since now) :
    IsFor c deadline since now .listings (.listings ns qs turns)
  | survey {ns} (namespaces : ns.IsFor c.namespaces since now) :
    IsFor c deadline since now .survey (.survey ns)
  | usage {names resources g} (gathering : g.IsFor c names resources deadline since now) :
    IsFor c deadline since now (.usage names resources) (.gathering g)

def need : Reads → Nat
  | .none => 0
  | .listings ns qs _ => ns.need + qs.need
  | .survey ns => ns.need
  | .gathering g => g.need

/-- The reads wait for times, and for nothing else. -/
def Sleeps : Reads → Prop
  | .none => False
  | .listings ns qs _ => ns.Sleeps ∧ qs.Sleeps
  | .survey ns => ns.Sleeps
  | .gathering g => g.Sleeps

/-- After a turn in which the round stays calm. -/
structure Settles (r r' : Round) (deadline : Nat) (reads reads' : Reads) : Prop where
  sleeps : reads'.Sleeps
  rests : r.millis < reads'.wakeAt r.millis deadline
  wakeAt_eq : reads.Sleeps → reads'.wakeAt r.millis deadline = reads.wakeAt r.millis deadline
  round_eq : reads.Sleeps → r.millis < reads.wakeAt r.millis deadline → r' = r

/-- What a turn of reads can come to. -/
inductive Turned (c : Cluster) (asked : Asked) (deadline since : Nat) (r : Round) (reads : Reads) :
    Round → Except Reads Answer → Prop
  | told {r' answer} (millis : r'.millis = r.millis)
      (tells : asked.Tells c deadline since r.millis answer) :
    Turned c asked deadline since r reads r' (.ok answer)
  | waits {r' reads'} (isFor : IsFor c deadline since r.millis asked reads')
      (spends : r.Spends r' reads.need reads'.need)
      (calm : r.IsCalm r' → r.millis < deadline → reads.Settles r r' deadline reads') :
    Turned c asked deadline since r reads r' (.error reads')

variable {c : Cluster} {asked : Asked} {deadline since now : Nat} {r r' r'' : Round} {reads : Reads}
  {ns ns' : Listing (List Namespace)} {qs qs' : Listing (List Quota)} {turns : Nat}

theorem IsFor.mono (h : IsFor c deadline since now asked reads) {later : Nat} (hle : now ≤ later) :
    IsFor c deadline since later asked reads := by
  cases h with
  | nothing => exact .nothing
  | listings namespaces quotas => exact .listings (namespaces.mono hle) (quotas.mono hle)
  | survey namespaces => exact .survey (namespaces.mono hle)
  | usage gathering => exact .usage (gathering.mono hle)

theorem IsFor.eq_none (h : IsFor c deadline since now .nothing reads) : reads = .none := by
  cases h
  rfl

theorem isFor_ofStage (views : Views) (x : Exclusions) (now deadline : Nat) (stage : Stage) :
    IsFor (views stage.view) deadline now now (stage.asked x)
      (ofStage views x now deadline stage) := by
  cases stage with
  | listing | relabelling =>
    exact .listings (.running (Flight.isFor_start ..)) (.running (Flight.isFor_start ..))
  | surveying => exact .survey (.running (Flight.isFor_start ..))
  | comparing | joining | reading => exact .usage (Gathering.isFor_start ..)
  | _ => exact .nothing

/-! ### Turns -/

theorem turned_ofListings {requests : List ApiRequest}
    (hns : ns'.IsFor c.namespaces since r.millis) (hqs : qs'.IsFor c.quotas since r.millis)
    (hspends : r.Spends r' (ns.need + qs.need) (ns'.need + qs'.need))
    (hcalm : r.IsCalm r' → ns.Settles r r' ns' ∧ qs.Settles r r' qs') :
    Turned c .listings deadline since r (.listings ns qs turns)
      (ofListings r' requests turns ns' qs').round
      (ofListings r' requests turns ns' qs').result := by
  have hwaits (turns' : Nat) : Turned c .listings deadline since r (.listings ns qs turns) r'
      (.error (.listings ns' qs' turns')) := by
    refine .waits (.listings hns hqs) hspends fun h hlt => ?_
    obtain ⟨hsettles, hsettles'⟩ := hcalm h
    refine ⟨⟨hsettles.sleeps, hsettles'.sleeps⟩, ?_, fun ⟨hsleeps, hsleeps'⟩ => ?_,
      fun _ _ => hsettles.round⟩
    · exact Nat.lt_min.2 ⟨hsettles.lt_wakeAt hlt, hsettles'.lt_wakeAt hlt⟩
    · rw [hsettles.same hsleeps, hsettles'.same hsleeps']
      rfl
  cases hns with
  | running => exact hwaits _
  | come hnamespaces =>
    cases hqs with
    | running => exact hwaits _
    | come hquotas => exact .told hspends.millis (.listed hnamespaces hquotas)

/-- Turns of two listings, the second if the first goes on, and what is made of both. -/
def inTurn {α β : Type} (round : Round) (deadline : Nat) (l : Listing α) (m : Listing β)
    (what what' : String) (finish : Round → List ApiRequest → Listing α → Listing β → Outcome) :
    Outcome :=
  match l.turn round deadline what with
  | (round, requests, .error denial) => ⟨round, requests, [], .ok (.failed denial)⟩
  | (round, requests, .ok l) =>
    match m.turn round deadline what' with
    | (round, more, .error denial) => ⟨round, requests ++ more, [], .ok (.failed denial)⟩
    | (round, more, .ok m) => finish round (requests ++ more) l m

theorem turned_inTurn {α β : Type} {fetch : Fetch α} {fetch' : Fetch β} {l : Listing α}
    {m : Listing β} {finish : Round → List ApiRequest → Listing α → Listing β → Outcome}
    (hl : l.IsFor fetch since r.millis) (hm : m.IsFor fetch' since r.millis)
    (hsince : since ≤ r.millis) (what what' : String)
    (hfails : fetch.Fails since r.millis ∨ fetch'.Fails since r.millis →
      asked.Fails c since r.millis)
    (hfinish : ∀ r' requests l' m', l'.IsFor fetch since r.millis → m'.IsFor fetch' since r.millis →
      r.Spends r' (l.need + m.need) (l'.need + m'.need) →
      (r.IsCalm r' → l.Settles r r' l' ∧ m.Settles r r' m') →
      Turned c asked deadline since r reads (finish r' requests l' m').round
        (finish r' requests l' m').result) :
    Turned c asked deadline since r reads (inTurn r deadline l m what what' finish).round
      (inTurn r deadline l m what what' finish).result := by
  simp only [inTurn]
  have hfirst := hl.turned hsince deadline what
  generalize l.turn r deadline what = out at hfirst ⊢
  obtain ⟨r', requests, result⟩ := out
  have hmillis := hfirst.millis_eq
  cases result with
  | error denial =>
    cases hfirst with
    | fails reason cause millis =>
      exact .told millis (.failed reason (cause.imp_right fun h => hfails (.inl h)))
  | ok l' =>
    have hsecond := (hmillis ▸ hm).turned (hmillis ▸ hsince) deadline what'
    dsimp only
    generalize m.turn r' deadline what' = out at hsecond ⊢
    obtain ⟨r'', requests', result⟩ := out
    cases result with
    | error denial =>
      cases hsecond with
      | fails reason cause millis =>
        refine .told (millis.trans hmillis) (.failed reason ?_)
        rw [hmillis] at cause
        exact cause.imp_right fun h => hfails (.inr h)
    | ok m' =>
      obtain ⟨hl', hm', hspends, hcalm⟩ := hfirst.both hsecond
      exact hfinish _ _ _ _ hl' hm' hspends hcalm

theorem listingsTurn_eq (r : Round) (deadline : Nat) (ns : Listing (List Namespace))
    (qs : Listing (List Quota)) (turns : Nat) : listingsTurn r deadline ns qs turns =
      if turns % 2 = 0 then
        inTurn r deadline ns qs "namespaces" "quotas" fun r requests ns qs =>
          ofListings r requests turns ns qs
      else
        inTurn r deadline qs ns "quotas" "namespaces" fun r requests qs ns =>
          ofListings r requests turns ns qs := by
  simp only [listingsTurn, inTurn]
  congr 1
  · rcases ns.turn r deadline "namespaces" with ⟨r', requests, denial | ns'⟩
    · rfl
    · dsimp only
      rcases qs.turn r' deadline "quotas" with ⟨r'', more, denial | qs'⟩ <;> rfl
  · rcases qs.turn r deadline "quotas" with ⟨r', requests, denial | qs'⟩
    · rfl
    · dsimp only
      rcases ns.turn r' deadline "namespaces" with ⟨r'', more, denial | ns'⟩ <;> rfl

theorem turned_listings (hns : ns.IsFor c.namespaces since r.millis)
    (hqs : qs.IsFor c.quotas since r.millis) (hsince : since ≤ r.millis) :
    Turned c .listings deadline since r (.listings ns qs turns)
      (listingsTurn r deadline ns qs turns).round
      (listingsTurn r deadline ns qs turns).result := by
  rw [listingsTurn_eq]
  split
  case isTrue =>
    refine turned_inTurn hns hqs hsince _ _ id fun r' requests ns' qs' hns' hqs' hspends hcalm => ?_
    exact turned_ofListings hns' hqs' hspends hcalm
  case isFalse =>
    refine turned_inTurn hqs hns hsince _ _ Or.symm
      fun r' requests qs' ns' hqs' hns' hspends hcalm => ?_
    rw [Nat.add_comm, Nat.add_comm qs'.need] at hspends
    exact turned_ofListings hns' hqs' hspends fun h => (hcalm h).symm

theorem turned_survey (hns : ns.IsFor c.namespaces since r.millis) (hsince : since ≤ r.millis) :
    Turned c .survey deadline since r (.survey ns) (turn r deadline (.survey ns)).round
      (turn r deadline (.survey ns)).result := by
  have hturned := hns.turned hsince deadline "namespaces"
  simp only [turn]
  generalize ns.turn r deadline "namespaces" = out at hturned ⊢
  obtain ⟨r', requests, result⟩ := out
  cases hturned with
  | fails reason cause millis => exact .told millis (.failed reason cause)
  | @goesOn ns' isFor spends calm =>
    cases isFor with
    | come gives => exact .told spends.millis (.surveyed gives)
    | running isFor =>
      refine .waits (.survey (.running isFor)) spends fun hcalm hlt => ?_
      have hsettles := calm hcalm
      refine ⟨hsettles.sleeps, hsettles.lt_wakeAt hlt, fun hsleeps => ?_,
        fun _ _ => hsettles.round⟩
      rw [hsettles.same hsleeps]

theorem turned_gathering {g : Gathering} {names : List String} {resources : KeySet ResourceName}
    (hg : g.IsFor c names resources deadline since r.millis) (hsince : since ≤ r.millis) :
    Turned c (.usage names resources) deadline since r (.gathering g) (gatheringTurn r g).round
      (gatheringTurn r g).result := by
  simp only [gatheringTurn]
  cases hfault : (g.turn r).fault with
  | some fault =>
    obtain ⟨hmillis, hcause⟩ := hg.fault hsince (by rw [hfault]; rfl)
    cases fault <;> exact .told hmillis (.failed rfl hcause)
  | none =>
    have hspends := Gathering.spends_turn hfault
    have hg' := hg.turn hsince hfault
    cases hanswer : (g.turn r).gathering.answer? with
    | some usage =>
      obtain ⟨used, hused, rfl⟩ := hg'.answer hanswer
      exact .told hspends.millis (.measured used hused)
    | none =>
      refine .waits (.usage hg') hspends fun hcalm hlt => ?_
      obtain ⟨hrests, hsame⟩ := Gathering.turn_calm hfault hcalm
      refine ⟨fun m hm flight wake timedAt hrunning => ?_, ?_, fun hsleeps => (hsame hsleeps).1,
        fun hsleeps => (hsame hsleeps).2⟩
      · obtain ⟨hwake, hlt', -⟩ := hrests m hm flight wake timedAt hrunning
        exact ⟨hwake, Flight.sleeps_of_lt_wakeAt hlt'⟩
      · refine Gathering.lt_wakeAt_iff.2 ⟨hg'.deadline_eq ▸ hlt, fun m hm flight hflight => ?_⟩
        obtain ⟨name, m⟩ := m
        cases m with
        | running flight' wake timedAt =>
          exact Option.some.inj hflight ▸ (hrests _ hm flight' wake timedAt rfl).2.1
        | _ => cases hflight

/-- A turn of reads tells what is asked for, or leaves reads of the same. -/
theorem IsFor.turned (h : IsFor c deadline since r.millis asked reads) (hsince : since ≤ r.millis) :
    Turned c asked deadline since r reads (turn r deadline reads).round
      (turn r deadline reads).result := by
  cases h with
  | nothing => exact .told rfl .proceed
  | listings namespaces quotas => exact turned_listings namespaces quotas hsince
  | survey namespaces => exact turned_survey namespaces hsince
  | usage gathering => exact turned_gathering gathering hsince

theorem need_le_unitsLeft (reads : Reads) : reads.need ≤ reads.unitsLeft := by
  have hlisting {α : Type} (l : Listing α) : l.need ≤ l.unitsLeft := by
    cases l with
    | running flight => exact flight.need_le_unitsLeft
    | come => exact Nat.le_refl _
  cases reads with
  | none => exact Nat.le_refl _
  | listings ns qs => exact Nat.add_le_add (hlisting ns) (hlisting qs)
  | survey ns => exact hlisting ns
  | gathering g => exact g.need_le_unitsLeft

end Reads

end SharedQuota
