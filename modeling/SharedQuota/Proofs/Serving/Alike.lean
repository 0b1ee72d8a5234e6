import SharedQuota.Proofs.Engine.Alike
import SharedQuota.Proofs.Serving.Mirror

/-!
One review served in two clusters that list the same namespaces and quotas, be it in another order,
and that differ in the usage of hidden namespaces at most. Main statement
(`Server.serveAll_eq_of_alike`): there is no difference in the answer, in what is reserved and in
what is read.
-/

namespace SharedQuota

/-! ### Reads -/

section

variable {α : Type} (R : α → α → Prop)

/-- The answers of two reads, as far as they may differ. -/
inductive ReadAlike : Except ReadFault α → Except ReadFault α → Prop
  | ok {a a'} (h : R a a') : ReadAlike (.ok a) (.ok a')
  | error {fault} : ReadAlike (.error fault) (.error fault)

structure Fetch.Alike (f f' : Fetch α) : Prop where
  requests : f'.requests = f.requests
  delay : f'.delay = f.delay
  answer : ReadAlike R f.answer f'.answer

structure Flight.Alike (f f' : Flight α) : Prop where
  requests : f'.requests = f.requests
  dueAt : f'.dueAt = f.dueAt
  sent : f'.sent = f.sent
  answer : ReadAlike R f.answer f'.answer

inductive Turn.Alike : Turn α → Turn α → Prop
  | waits {f f'} (h : Flight.Alike R f f') : Alike (.waits f) (.waits f')
  | ready {answer answer'} (h : ReadAlike R answer answer') : Alike (.ready answer) (.ready answer')
  | late : Alike .late .late

inductive Listing.Alike : Listing α → Listing α → Prop
  | running {f f'} (h : Flight.Alike R f f') : Alike (.running f) (.running f')
  | come {a a'} (h : R a a') : Alike (.come a) (.come a')

inductive Listing.TurnAlike : Except Denial (Listing α) → Except Denial (Listing α) → Prop
  | ok {l l'} (h : Listing.Alike R l l') : TurnAlike (.ok l) (.ok l')
  | error {denial} : TurnAlike (.error denial) (.error denial)

/-- Two turns that leave the round at the same point and make the same requests. -/
inductive TurnedAlike {β : Type} (P : β → β → Prop) :
    Round × List ApiRequest × β → Round × List ApiRequest × β → Prop
  | intro {round requests b b'} (h : P b b') :
    TurnedAlike P (round, requests, b) (round, requests, b')

variable {R}

theorem Fetch.Alike.refl (h : ∀ a, R a a) (f : Fetch α) : f.Alike R f :=
  ⟨rfl, rfl, by
    cases f.answer with
    | ok a => exact .ok (h a)
    | error fault => exact .error⟩

theorem Fetch.Alike.imp {S : α → α → Prop} {f f' : Fetch α} (h : f.Alike R f')
    (himp : ∀ a a', f.answer = .ok a → R a a' → S a a') : f.Alike S f' := by
  refine ⟨h.requests, h.delay, ?_⟩
  have hanswer := h.answer
  generalize f.answer = answer at *
  generalize f'.answer = answer' at *
  cases hanswer with
  | ok h => exact .ok (himp _ _ rfl h)
  | error => exact .error

namespace Flight

theorem start_alike {f f' : Fetch α} (h : f.Alike R f') (now : Nat) :
    (start now f).Alike R (start now f') :=
  ⟨h.requests, by rw [start, start, h.delay], rfl, h.answer⟩

variable {f f' : Flight α}

theorem send_alike {more : List ApiRequest} {dueAt : Option Nat}
    {answer answer' : Except ReadFault α} {sent : Bool} (h : ReadAlike R answer answer')
    (r : Round) (requests : List ApiRequest) :
    let o := send r ⟨more, dueAt, answer, sent⟩
    let o' := send r ⟨more, dueAt, answer', sent⟩
    TurnedAlike (Turn.Alike R) (o.1, requests, .waits o.2) (o'.1, requests, .waits o'.2) := by
  simp only [send]
  cases r.spend? <;> exact .intro (.waits ⟨rfl, rfl, rfl, h⟩)

theorem turn_alike (h : f.Alike R f') (r : Round) :
    TurnedAlike (Turn.Alike R) (turn r f) (turn r f') := by
  obtain ⟨requests, dueAt, answer, sent⟩ := f
  obtain ⟨requests', dueAt', answer', sent'⟩ := f'
  obtain ⟨rfl, rfl, rfl, hanswer⟩ := h
  cases requests' with
  | nil =>
    simp only [turn]
    split
    case h_1 => exact .intro (.ready hanswer)
    case h_2 => exact .intro (.waits ⟨rfl, rfl, rfl, hanswer⟩)
  | cons request rest =>
    simp only [turn]
    split
    case isTrue => exact send_alike hanswer r []
    case isFalse =>
      cases r.spend? with
      | none => exact .intro (.waits ⟨rfl, rfl, rfl, hanswer⟩)
      | some spent =>
        dsimp only
        split
        case isTrue => exact .intro (.ready hanswer)
        case isFalse => exact send_alike hanswer spent [request]

theorem turnBy_alike (h : f.Alike R f') (r : Round) (deadline : Nat) :
    TurnedAlike (Turn.Alike R) (turnBy r deadline f) (turnBy r deadline f') := by
  have hturned := turn_alike h r
  simp only [turnBy]
  generalize turn r f = o at *
  generalize turn r f' = o' at *
  obtain ⟨hturn⟩ := hturned
  cases hturn with
  | waits h =>
    dsimp only
    split
    case h_1 => exact .intro .late
    case h_2 => exact .intro (.waits h)
  | ready h => exact .intro (.ready h)
  | late => exact .intro .late

end Flight

namespace Listing

variable {l l' : Listing α}

theorem turn_alike (h : l.Alike R l') (r : Round) (deadline : Nat) (what : String) :
    TurnedAlike (TurnAlike R) (l.turn r deadline what) (l'.turn r deadline what) := by
  cases h with
  | come h => exact .intro (.ok (.come h))
  | @running f f' h =>
    have hturned := Flight.turnBy_alike h r deadline
    simp only [turn]
    generalize f.turnBy r deadline = o at *
    generalize f'.turnBy r deadline = o' at *
    obtain ⟨hturn⟩ := hturned
    refine .intro ?_
    cases hturn with
    | waits h => exact .ok (.running h)
    | late => exact .error
    | ready h =>
      cases h with
      | ok h => exact .ok (.come h)
      | @error fault => cases fault <;> exact .error

theorem wakeAt_alike (h : l.Alike R l') (now deadline : Nat) :
    l'.wakeAt now deadline = l.wakeAt now deadline := by
  cases h with
  | come => rfl
  | running h => simp only [wakeAt, Flight.wakeAt, h.requests, h.dueAt]

theorem unitsLeft_alike (h : l.Alike R l') : l'.unitsLeft = l.unitsLeft := by
  cases h with
  | come => rfl
  | running h => simp only [unitsLeft, Flight.unitsLeft, h.requests]

end Listing

end

section

variable (x : Exclusions) (hidden : String → Prop)

/-- Two views of a cluster, in which the listings answer the same, in any order, and the usage of
what is not hidden. -/
structure Views.Alike (views views' : Views) : Prop where
  namespaces : (views 0).namespaces.Alike (Sees x hidden) (views' 0).namespaces
  quotas : (views 0).quotas.Alike (Relisted Quota.name) (views' 0).quotas
  usage : ∀ i name resources, ¬ hidden name →
    (views' i).usage name resources = (views i).usage name resources

namespace Reads

inductive Alike : Reads → Reads → Prop
  | none : Alike .none .none
  | listings {ns ns' qs qs' turns} (namespaces : Listing.Alike (Sees x hidden) ns ns')
      (quotas : Listing.Alike (Relisted Quota.name) qs qs') :
    Alike (.listings ns qs turns) (.listings ns' qs' turns)
  | survey {ns ns'} (namespaces : Listing.Alike (Sees x hidden) ns ns') :
    Alike (.survey ns) (.survey ns')
  | gathering {g} : Alike (.gathering g) (.gathering g)

/-- What two calls are told at their turn: nothing yet, or answers that are alike. -/
inductive Outcome.Alike : Outcome → Outcome → Prop
  | waits {round requests texts reads reads'} (h : Reads.Alike x hidden reads reads') :
    Alike ⟨round, requests, texts, .error reads⟩ ⟨round, requests, texts, .error reads'⟩
  | answers {round requests texts answer answer'} (h : Answer.Alike x hidden answer answer') :
    Alike ⟨round, requests, texts, .ok answer⟩ ⟨round, requests, texts, .ok answer'⟩

end Reads

end

namespace Reads

variable {x : Exclusions} {hidden : String → Prop} {reads reads' : Reads}
  {ns ns' : Listing (List Namespace)} {qs qs' : Listing (List Quota)}

theorem ofListings_alike (round : Round) (requests : List ApiRequest) (turns : Nat)
    (hns : Listing.Alike (Sees x hidden) ns ns')
    (hqs : Listing.Alike (Relisted Quota.name) qs qs') :
    Outcome.Alike x hidden (ofListings round requests turns ns qs)
      (ofListings round requests turns ns' qs') := by
  cases hns with
  | running h => exact .waits (.listings (.running h) hqs)
  | come h =>
    cases hqs with
    | running h' => exact .waits (.listings (.come h) (.running h'))
    | come h' => exact .answers (.listed h h')

/-- Two listings, each with its turn, the second behind the first. -/
theorem inTurn_alike {α β : Type} {R : α → α → Prop} {S : β → β → Prop} {l l' : Listing α}
    {m m' : Listing β} (hl : l.Alike R l') (hm : m.Alike S m') (round : Round) (deadline : Nat)
    (what what' : String)
    {finish finish' : Round → List ApiRequest → Listing α → Listing β → Outcome}
    (hfinish : ∀ r requests l l' m m', Listing.Alike R l l' → Listing.Alike S m m' →
      Outcome.Alike x hidden (finish r requests l m) (finish' r requests l' m')) :
    Outcome.Alike x hidden (inTurn round deadline l m what what' finish)
      (inTurn round deadline l' m' what what' finish') := by
  simp only [inTurn]
  have hturned := Listing.turn_alike hl round deadline what
  generalize l.turn round deadline what = o at *
  generalize l'.turn round deadline what = o' at *
  obtain @⟨after, requests, _, _, hturn⟩ := hturned
  cases hturn with
  | error => exact .answers .failed
  | ok hfirst =>
    dsimp only
    have hturned := Listing.turn_alike hm after deadline what'
    generalize m.turn after deadline what' = o at *
    generalize m'.turn after deadline what' = o' at *
    obtain ⟨hturn⟩ := hturned
    cases hturn with
    | error => exact .answers .failed
    | ok hsecond => exact hfinish _ _ _ _ _ _ hfirst hsecond

theorem gatheringTurn_alike (round : Round) (g : Gathering) :
    Outcome.Alike x hidden (gatheringTurn round g) (gatheringTurn round g) := by
  simp only [gatheringTurn]
  split
  case h_1 | h_2 => exact .answers .failed
  case h_3 => exact .answers .measured
  case h_4 => exact .waits .gathering

theorem turn_alike (h : reads.Alike x hidden reads') (round : Round) (deadline : Nat) :
    Outcome.Alike x hidden (reads.turn round deadline) (reads'.turn round deadline) := by
  cases h with
  | none => exact .answers .proceed
  | gathering => exact gatheringTurn_alike ..
  | listings hns hqs =>
    rw [turn, turn, listingsTurn_eq, listingsTurn_eq]
    split
    case isTrue =>
      exact inTurn_alike hns hqs _ _ _ _ fun _ _ _ _ _ _ h h' => ofListings_alike _ _ _ h h'
    case isFalse =>
      exact inTurn_alike hqs hns _ _ _ _ fun _ _ _ _ _ _ h h' => ofListings_alike _ _ _ h' h
  | @survey ns ns' hns =>
    have hturned := Listing.turn_alike hns round deadline "namespaces"
    simp only [turn]
    generalize ns.turn round deadline "namespaces" = o at *
    generalize ns'.turn round deadline "namespaces" = o' at *
    obtain ⟨hturn⟩ := hturned
    cases hturn with
    | error => exact .answers .failed
    | ok h =>
      cases h with
      | running h => exact .waits (.survey (.running h))
      | come h => exact .answers (.surveyed h)

theorem wakeAt_alike (h : reads.Alike x hidden reads') (now deadline : Nat) :
    reads'.wakeAt now deadline = reads.wakeAt now deadline := by
  cases h with
  | listings hns hqs => simp only [wakeAt, Listing.wakeAt_alike hns, Listing.wakeAt_alike hqs]
  | survey hns => exact Listing.wakeAt_alike hns now deadline
  | _ => rfl

theorem unitsLeft_alike (h : reads.Alike x hidden reads') : reads'.unitsLeft = reads.unitsLeft := by
  cases h with
  | listings hns hqs =>
    simp only [unitsLeft, Listing.unitsLeft_alike hns, Listing.unitsLeft_alike hqs]
  | survey hns => exact Listing.unitsLeft_alike hns
  | _ => rfl

/-- A gathering that asks for nothing hidden starts alike. -/
theorem gathering_start_eq {views views' : Views} (h : views.Alike x hidden views') (i now : Nat)
    (deadline : Nat) {names : List String} (hnames : ∀ n ∈ names, ¬ hidden n)
    (resources : KeySet ResourceName) :
    Gathering.start now deadline (views' i) names resources =
      Gathering.start now deadline (views i) names resources := by
  rw [Gathering.start, Gathering.start]
  congr 1
  exact List.map_congr_left fun n hn => by rw [h.usage i n resources (hnames n hn)]

theorem ofStage_alike {views views' : Views} (h : views.Alike x hidden views')
    {stage stage' : Stage} (hstage : stage.Alike x hidden stage') (now deadline : Nat) :
    Alike x hidden (ofStage views x now deadline stage) (ofStage views' x now deadline stage') := by
  have hgathering {names : List String} (i : Nat) (hnames : ∀ n ∈ names, ¬ hidden n)
      (resources : KeySet ResourceName) :
      Alike x hidden (.gathering (.start now deadline (views i) names resources))
        (.gathering (.start now deadline (views' i) names resources)) := by
    rw [gathering_start_eq h i now deadline hnames]
    exact .gathering
  cases hstage with
  | listing | relabelling =>
    exact .listings (.running (Flight.start_alike h.namespaces now))
      (.running (Flight.start_alike h.quotas now))
  | surveying => exact .survey (.running (Flight.start_alike h.namespaces now))
  | comparing hnames => exact hgathering 0 hnames _
  | joining hname =>
    exact hgathering 0 (fun n hn => (List.mem_singleton.1 hn).symm ▸ hname) _
  | @reading c c' held checked a since next hcharge =>
    simp only [ofStage, Scope.resolve_eq_of_perm hcharge.listing.relisted.perm]
    exact hgathering _ (hcharge.listing.not_hidden a.quota) _
  | _ => exact .none

end Reads

/-! ### Serving -/

namespace Serving

variable {x : Exclusions} {hidden : String → Prop} {r r' : Running}

/-- Two ways to serve one review whose calls, reads and views are alike. -/
structure RunningAlike (x : Exclusions) (hidden : String → Prop) (r r' : Running) : Prop where
  review : r'.review = r.review
  kindText : r'.kindText = r.kindText
  started : r'.started = r.started
  deadline : r'.deadline = r.deadline
  views : Views.Alike x hidden r.views r'.views
  dryRun : r'.call.dryRun = r.call.dryRun
  stage : r.call.stage.Alike x hidden r'.call.stage
  reads : r.reads.Alike x hidden r'.reads

theorem stepBound_alike {views views' : Views} (h : views.Alike x hidden views') :
    stepBound views' = stepBound views := by
  have hlisted : listedQuotas views' = listedQuotas views := by
    have hanswer := h.quotas.answer
    simp only [listedQuotas]
    generalize (views 0).quotas.answer = answer at *
    generalize (views' 0).quotas.answer = answer' at *
    cases hanswer with
    | ok h => exact h.perm.length_eq.symm
    | error => rfl
  rw [stepBound, stepBound, hlisted]

theorem nextAnswer_alike (h : RunningAlike x hidden r r') (scene : Scene) :
    Reads.Outcome.Alike x hidden (nextAnswer scene r) (nextAnswer scene r') := by
  have hreads := Reads.turn_alike h.reads scene.round r.deadline
  have hstage := h.stage
  simp only [nextAnswer, h.deadline]
  generalize r.call.stage = stage at *
  generalize r'.call.stage = stage' at *
  cases hstage with
  | @locking c c' held next =>
    cases next with
    | nil => exact hreads
    | cons a next =>
      dsimp only
      split
      case isTrue => exact .waits .none
      case isFalse => exact .answers .proceed
  | waiting =>
    dsimp only
    split
    case h_1 => exact .waits .none
    case h_2 =>
      split
      case isTrue => exact .answers .proceed
      case isFalse =>
        split
        case h_1 => exact .answers .failed
        case h_2 => exact .waits .none
  | _ => exact hreads

theorem RunningAlike.goOn {s : Settings} (h : RunningAlike s.rules.exclusions hidden r r')
    (now : Now) {dryRun : Bool} {stage stage' : Stage}
    (hstage : stage.Alike s.rules.exclusions hidden stage') :
    RunningAlike s.rules.exclusions hidden (r.goOn s now ⟨dryRun, stage⟩)
      (r'.goOn s now ⟨dryRun, stage'⟩) where
  review := h.review
  kindText := h.kindText
  started := h.started
  deadline := h.deadline
  views := h.views
  dryRun := rfl
  stage := hstage
  reads := by
    simp only [Running.goOn, h.deadline]
    exact Reads.ofStage_alike h.views hstage now.millis r.deadline

/-- The two ways are alike as long as both have the same locks and reservations. -/
def Alike (s : Settings) (hidden : String → Prop) (shared : Shared) (r : Running)
    (shared' : Shared) (r' : Running) : Prop :=
  shared' = shared ∧ RunningAlike s.rules.exclusions hidden r r'

theorem stepsAlike_of_alike {s : Settings} (h : RunningAlike s.rules.exclusions hidden r r')
    (now : Now) (shared : Shared) {answer answer' : Answer}
    (hanswer : Answer.Alike s.rules.exclusions hidden answer answer') :
    StepsAlike s (Alike s hidden) (fun _ _ => True) now shared r shared r' answer answer' := by
  have hsteps : Engine.StepAlike s.rules.exclusions hidden r.call.dryRun
      (Engine.step s.rules now shared ⟨r.call.dryRun, r.call.stage⟩ answer)
      (Engine.step s.rules now shared ⟨r.call.dryRun, r'.call.stage⟩ answer') :=
    Engine.step_alike h.stage hanswer
  have hcall' : r'.call = ⟨r.call.dryRun, r'.call.stage⟩ := by rw [← h.dryRun]
  generalize hstep : Engine.step s.rules now shared ⟨r.call.dryRun, r.call.stage⟩ answer = o
    at hsteps
  generalize hstep' : Engine.step s.rules now shared ⟨r.call.dryRun, r'.call.stage⟩ answer' = o'
    at hsteps
  rw [← hcall'] at hstep'
  cases hsteps with
  | stops => exact .stops hstep hstep'
  | goesOn hstage =>
    refine .goesOn hstep hstep' ?_ fun _ => ⟨rfl, h.goOn now hstage⟩
    have hstage := h.stage
    generalize r.call.stage = stage at *
    generalize r'.call.stage = stage' at *
    cases hstage <;> rfl

/-- Nothing tells the two ways apart. -/
def mirror (s : Settings) (hidden : String → Prop) : Mirror s where
  Like := Alike s hidden
  Leads _ _ := True
  leads _ _ := trivial
  looks {_ r _ r'} like := by
    obtain ⟨rfl, h⟩ := like
    refine ⟨h.review, h.kindText, h.started, h.deadline, stepBound_alike h.views,
      Reads.unitsLeft_alike h.reads, fun result => ?_⟩
    have hstage := h.stage
    generalize r.call.stage = stage at *
    generalize r'.call.stage = stage' at *
    cases hstage <;> simp
  wakeAt {_ r _ r'} like millis := by
    obtain ⟨rfl, h⟩ := like
    have hreads := Reads.wakeAt_alike h.reads millis r.deadline
    have hstage := h.stage
    simp only [wakeAt, h.deadline, hreads]
    generalize r.call.stage = stage at *
    generalize r'.call.stage = stage' at *
    cases hstage <;> rfl
  told {_ r shared r'} like now round log := by
    obtain ⟨rfl, h⟩ := like
    have hanswer := nextAnswer_alike h ⟨round, shared, log⟩
    generalize nextAnswer ⟨round, shared, log⟩ r = outcome at *
    generalize nextAnswer ⟨round, shared, log⟩ r' = outcome' at *
    cases hanswer with
    | waits hreads => exact .waits ⟨rfl, { h with reads := hreads }⟩
    | answers hanswer => exact .answers (stepsAlike_of_alike h now shared hanswer)
  cut {_ _ shared _} like now := by
    obtain ⟨rfl, h⟩ := like
    exact stepsAlike_of_alike h now shared .failed

end Serving

theorem Review.entry_alike {s : Settings} {review : Review} {hidden : String → Prop}
    (h : ∀ old new, (review.entry s).2 = .relabelling old new → ¬ hidden new.name)
    (x : Exclusions) : (review.entry s).2.Alike x hidden (review.entry s).2 := by
  rcases review.entry_cases s with ⟨result, heq⟩ | ⟨work, heq⟩
  · rw [heq]
    exact .finished
  · rw [heq] at h ⊢
    rcases work.start_cases with ⟨_, hstart⟩ | ⟨_, _, hstart⟩ | ⟨old, new, hstart⟩ |
      ⟨_, _, hstart⟩ <;> rw [hstart] at h ⊢
    · exact .finished
    · exact .listing
    · exact .relabelling (h old new rfl)
    · exact .surveying

/-- A review is answered the same in clusters that are alike, with the same reservations, reads and
requests, unless it relabels a namespace that is hidden. -/
theorem Server.serveAll_eq_of_alike (p : Server) (delay : Nat) (body : Option Json)
    {views views' : Views} {hidden : String → Prop}
    (h : views.Alike p.settings.rules.exclusions hidden views')
    (hreview : ∀ review old new, body.bind Review.ofJson? = some review →
      (review.entry p.settings).2 = .relabelling old new → ¬ hidden new.name) :
    p.serveAll [⟨delay, body, views'⟩] = p.serveAll [⟨delay, body, views⟩] := by
  have hstart : ∀ review, body.bind Review.ofJson? = some review → ∀ millis,
      Serving.Alike p.settings hidden p.shared
        (Serving.entering p.settings views millis review) p.shared
        (Serving.entering p.settings views' millis review) := fun review hbody millis => by
    have hentry := Review.entry_alike (fun old new => hreview review old new hbody)
      p.settings.rules.exclusions
    exact ⟨rfl, rfl, rfl, rfl, rfl, h, rfl, hentry, Reads.ofStage_alike h hentry ..⟩
  obtain ⟨shared', hserve, hended⟩ := (Serving.mirror p.settings hidden).serveAll p p.shared delay
    body views views' (Serving.stepBound_alike h) hstart fun _ _ _ => trivial
  have hshared : shared' = (p.serveAll [⟨delay, body, views⟩]).1.shared := by
    rcases hended with ⟨hleft, hright⟩ | ⟨r, r', result, -, hlike⟩
    · exact hright.trans hleft.symm
    · exact hlike.1
  rw [hshared] at hserve
  exact hserve

end SharedQuota
