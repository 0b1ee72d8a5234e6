import SharedQuota.Engine
import SharedQuota.Gathering

/-!
The reads that a call waits for: both listings side by side, the namespaces alone, or a gathering of
usage. Each has the deadline of its review.
-/

namespace SharedQuota

/-- A listing that is on its way or has come. -/
inductive Listing (α : Type)
  | running (flight : Flight α)
  | come (answer : α)

inductive Reads
  | none
  /-- Both listings; they get their turns in alternating order. -/
  | listings (namespaces : Listing (List Namespace)) (quotas : Listing (List Quota)) (turns : Nat)
  | survey (namespaces : Listing (List Namespace))
  | gathering (g : Gathering)

/-- The cluster as a review finds it: at first, and then for each quota that it is checked against.
What is read again may answer otherwise, or behave in another way. -/
abbrev Views := Nat → Cluster

/-- Which view of the cluster a call reads in a stage. -/
def Stage.view : Stage → Nat
  | .reading _ _ checked _ _ _ => checked.length + 1
  | _ => 0

namespace Listing

variable {α : Type}

/-- Gives a listing a turn. -/
def turn (round : Round) (deadline : Nat) (what : String) :
    Listing α → Round × List ApiRequest × Except Denial (Listing α)
  | .come a => (round, [], .ok (.come a))
  | .running flight =>
    let (round, requests, outcome) := flight.turnBy round deadline
    (round, requests, match outcome with
      | .waits flight => .ok (.running flight)
      | .ready (.ok a) => .ok (.come a)
      | .ready (.error (.failed why)) =>
        .error (.unavailable ("failed to list " ++ what ++ ": " ++ why))
      | .ready (.error .panicked) => .error panicked
      | .late => .error (.unavailable ("timed out waiting to list " ++ what)))

def wakeAt (now deadline : Nat) : Listing α → Nat
  | .running flight => flight.wakeAt now
  | .come _ => deadline

def unitsLeft : Listing α → Nat
  | .running flight => flight.unitsLeft
  | .come _ => 0

end Listing

namespace Reads

/-- What a turn of the reads comes to: an answer for the call, or more waiting. -/
structure Outcome where
  round : Round
  requests : List ApiRequest
  reads : List String
  result : Except Reads Answer

def ofListings (round : Round) (requests : List ApiRequest) (turns : Nat) :
    Listing (List Namespace) → Listing (List Quota) → Outcome
  | .come ns, .come qs => ⟨round, requests, [], .ok (.listed ns qs)⟩
  | ns, qs => ⟨round, requests, [], .error (.listings ns qs (turns + 1))⟩

/-- The first listing that goes wrong ends both. -/
def listingsTurn (round : Round) (deadline : Nat) (namespaces : Listing (List Namespace))
    (quotas : Listing (List Quota)) (turns : Nat) : Outcome :=
  if turns % 2 = 0 then
    match namespaces.turn round deadline "namespaces" with
    | (round, requests, .error denial) => ⟨round, requests, [], .ok (.failed denial)⟩
    | (round, requests, .ok ns) =>
      match quotas.turn round deadline "quotas" with
      | (round, more, .error denial) => ⟨round, requests ++ more, [], .ok (.failed denial)⟩
      | (round, more, .ok qs) => ofListings round (requests ++ more) turns ns qs
  else
    match quotas.turn round deadline "quotas" with
    | (round, requests, .error denial) => ⟨round, requests, [], .ok (.failed denial)⟩
    | (round, requests, .ok qs) =>
      match namespaces.turn round deadline "namespaces" with
      | (round, more, .error denial) => ⟨round, requests ++ more, [], .ok (.failed denial)⟩
      | (round, more, .ok ns) => ofListings round (requests ++ more) turns ns qs

def gatheringTurn (round : Round) (g : Gathering) : Outcome :=
  let p := g.turn round
  ⟨p.round, p.requests, p.reads,
    match p.fault, p.gathering.answer? with
    | some .panicked, _ => .ok (.failed panicked)
    | some fault, _ => .ok (.failed (.unavailable fault.message))
    | .none, .some usage => .ok (.measured usage)
    | .none, .none => .error (.gathering p.gathering)⟩

def turn (round : Round) (deadline : Nat) : Reads → Outcome
  | .none => ⟨round, [], [], .ok .proceed⟩
  | .listings ns qs turns => listingsTurn round deadline ns qs turns
  | .survey ns =>
    match ns.turn round deadline "namespaces" with
    | (round, requests, .error denial) => ⟨round, requests, [], .ok (.failed denial)⟩
    | (round, requests, .ok (.come ns)) => ⟨round, requests, [], .ok (.surveyed ns)⟩
    | (round, requests, .ok ns) => ⟨round, requests, [], .error (.survey ns)⟩
  | .gathering g => gatheringTurn round g

def ofStage (views : Views) (x : Exclusions) (now deadline : Nat) (stage : Stage) : Reads :=
  let c := views stage.view
  match stage with
  | .listing _ _ | .relabelling _ _ =>
    .listings (.running (.start now c.namespaces)) (.running (.start now c.quotas)) 0
  | .surveying _ _ => .survey (.running (.start now c.namespaces))
  | .comparing names limits =>
    .gathering (.start now deadline c names (KeySet.ofList limits.keys))
  | .joining name _ _ resources => .gathering (.start now deadline c [name] resources)
  | .reading charge _ _ a _ _ =>
    let scope := Scope.resolve x a.quota charge.listing
    .gathering (.start now deadline c scope.aggregated.toList a.resources)
  | _ => .none

def wakeAt (now deadline : Nat) : Reads → Nat
  | .none => now
  | .listings ns qs _ => min (ns.wakeAt now deadline) (qs.wakeAt now deadline)
  | .survey ns => ns.wakeAt now deadline
  | .gathering g => g.wakeAt now

/-- A bound on the units that the reads still take. -/
def unitsLeft : Reads → Nat
  | .none => 0
  | .listings ns qs _ => ns.unitsLeft + qs.unitsLeft
  | .survey ns => ns.unitsLeft
  | .gathering g => g.unitsLeft

end Reads

end SharedQuota
