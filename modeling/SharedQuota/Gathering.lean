import SharedQuota.Cluster.Flight

/-!
Reading the usage of several namespaces side by side, until one read goes wrong or the time is up.
Few reads get a turn each in every round, in order. Of many only those that have been woken get one,
in the order in which they were, and their answers are taken in the order of the reads.
-/

namespace SharedQuota

inductive GatherFault
  | failed (name why : String)
  | late (name : String)
  | panicked
deriving DecidableEq

def GatherFault.message : GatherFault → String
  | .failed name why => "failed to read usage in namespace " ++ name ++ ": " ++ why
  | .late name => "timed out reading usage in namespace " ++ name
  | .panicked => "the read panicked"

/-- What a read waits for that had its turn as number `turn` of the gathering. -/
inductive Wake
  /-- Its first turn. -/
  | first
  | answer (turn : Nat)
  | retry (turn : Nat)
  | time

/-- One read of a gathering. `timedAt` is the number of the turn in which its timers were set. -/
inductive Member
  | running (flight : Flight ResourceList) (wake : Wake) (timedAt : Option Nat)
  | done (usage : ResourceList)
  | broken (fault : GatherFault)

namespace Member

def isRunning : Member → Bool
  | .running _ _ _ => true
  | _ => false

/-- Where in the order of waking a read comes, if it is woken. Answers come as the requests were
sent, those that try again come last first, and timers as they were set. -/
def rank? (now deadline : Nat) : Member → Option (Nat × Int)
  | .running _ .first _ => some (0, 0)
  | .running _ (.answer n) _ => some (1, n)
  | .running _ (.retry n) _ => some (2, -n)
  | .running flight .time timedAt =>
    if flight.wakeAt now ≤ now || deadline ≤ now then some (3, (timedAt.getD 0 : Nat)) else none
  | _ => none

def waiting (turn : Nat) (before after : Round) (flight : Flight ResourceList)
    (timedAt : Option Nat) : Member :=
  let wake : Wake :=
    if after.units = 0 then .retry turn
    else if flight.requests.isEmpty then .time
    else .answer turn
  .running flight wake (timedAt <|> if before.units = 0 then none else some turn)

end Member

/-- The reads by namespace, in the order in which they were started, and how many turns they have
had together. -/
structure Gathering where
  resources : KeySet ResourceName
  deadline : Nat
  members : List (String × Member)
  turns : Nat

namespace Gathering

def maxFew : Nat := 30

def isMany (g : Gathering) : Bool := maxFew < g.members.length

def start (now deadline : Nat) (c : Cluster) (names : List String)
    (resources : KeySet ResourceName) : Gathering :=
  ⟨resources, deadline,
    names.map fun n => (n, .running (.start now (c.usage n resources)) .first none), 0⟩

/-! ### Order -/

def isBefore (a b : (Nat × Int) × Nat) : Bool :=
  a.1.1 < b.1.1 || (a.1.1 = b.1.1 && a.1.2 ≤ b.1.2)

/-- The numbers of the reads that get a turn, in its order. -/
def order (now : Nat) (g : Gathering) : List Nat :=
  if g.isMany then
    let ranked := g.members.zipIdx.filterMap fun ((_, m), i) =>
      (m.rank? now g.deadline).map (·, i)
    (ranked.mergeSort isBefore).map (·.2)
  else List.range g.members.length

/-! ### Turns -/

def readText (name : String) (resources : KeySet ResourceName) : String :=
  name ++ ": " ++ String.intercalate "," (resources.toList.map (·.text))

def running (g : Gathering) : Nat := g.members.countP (·.2.isRunning)

/-- The fault that shows: of few reads any, of many the first that no running read precedes. -/
def fault? (g : Gathering) : Option GatherFault :=
  let faultOf (m : String × Member) : Option GatherFault := match m.2 with
    | .broken fault => some fault
    | _ => none
  if g.isMany then
    (g.members.find? fun m => match m.2 with
      | .done _ => false
      | _ => true).bind faultOf
  else g.members.findSome? faultOf

/-- What turns of a gathering leave behind: the requests made, the reads that answered, in order,
and a fault that ends it. -/
structure Progress where
  round : Round
  gathering : Gathering
  requests : List ApiRequest
  reads : List String
  fault : Option GatherFault

/-- Enters what a turn of read `i` came to. -/
def Progress.put (p : Progress) (i : Nat) (name : String) (m : Member) : Progress :=
  { p with gathering := { p.gathering with members := p.gathering.members.set i (name, m) } }

/-- Gives turns to the reads of the given numbers, up to a fault that shows. `waiting` counts the
reads that were found waiting one after the other. When those are all that run, many reads ask for
another round before they go on. -/
def giveTurns : List Nat → Nat → Progress → Progress
  | [], _, p => p
  | i :: rest, waiting, p =>
    match p.gathering.members[i]? with
    | some (name, .running flight _ timedAt) =>
      let turn := p.gathering.turns + 1
      let (round, requests, outcome) := flight.turnBy p.round p.gathering.deadline
      let before := p.round
      let p := { p with
        round
        gathering := { p.gathering with turns := turn }
        requests := p.requests ++ requests }
      let settle (p : Progress) : Progress :=
        match p.gathering.fault? with
        | some fault => { p with fault := some fault }
        | none => giveTurns rest 0 p
      match outcome with
      | .waits flight =>
        let p := p.put i name (.waiting turn before round flight timedAt)
        if p.gathering.isMany && waiting + 1 = p.gathering.running then
          { p with round := p.round.retry }
        else giveTurns rest (waiting + 1) p
      | .ready (.ok usage) =>
        settle { p.put i name (.done usage) with
          reads := p.reads ++ [readText name p.gathering.resources] }
      | .ready (.error .panicked) => { p with fault := some .panicked }
      | .ready (.error (.failed why)) => settle (p.put i name (.broken (.failed name why)))
      | .late => settle (p.put i name (.broken (.late name)))
    | _ => giveTurns rest waiting p

def turn (round : Round) (g : Gathering) : Progress :=
  giveTurns (g.order round.millis) 0 ⟨round, g, [], [], none⟩

def answer? (g : Gathering) : Option (Table String ResourceList) :=
  (g.members.mapM fun (m : String × Member) => match m.2 with
    | .done usage => some (m.1, usage)
    | _ => none).map Table.ofList

def wakeAt (now : Nat) (g : Gathering) : Nat :=
  (g.members.filterMap fun (m : String × Member) => match m.2 with
    | .running flight _ _ => some (flight.wakeAt now)
    | _ => none).foldl min g.deadline

/-- A bound on the units that the reads still take. -/
def unitsLeft (g : Gathering) : Nat :=
  g.members.foldl (fun units m => match m.2 with
    | .running flight _ _ => units + flight.unitsLeft
    | _ => units) 0

/-! ### Alone -/

/-- The end of a gathering that nothing else runs beside: its answer, when it came, and the reads
that answered. -/
structure Finished where
  answer : Except GatherFault (Table String ResourceList)
  time : Nat
  requests : List ApiRequest
  reads : List String

/-- Gives rounds until the gathering ends, at each time at which a read wants one. -/
def run : Nat → Nat → Gathering → Finished
  | 0, now, _ => ⟨.error .panicked, now, [], []⟩
  | fuel + 1, now, g =>
    let p := g.turn (.start now)
    match p.fault with
    | some fault => ⟨.error fault, now, p.requests, p.reads⟩
    | none =>
      match p.gathering.answer? with
      | some usage => ⟨.ok usage, now, p.requests, p.reads⟩
      | none =>
        let next := if p.round.again then now else max now (p.gathering.wakeAt now)
        let f := run fuel next p.gathering
        { f with requests := p.requests ++ f.requests, reads := p.reads ++ f.reads }

/-- In each round a unit is taken, or time passes and then one is. -/
def finish (now : Nat) (g : Gathering) : Finished := run (4 * g.unitsLeft + 4) now g

end Gathering

end SharedQuota
