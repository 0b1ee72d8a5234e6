import SharedQuota.Cluster
import SharedQuota.Round

/-!
Reads of the cluster on their way. A request is sent in one turn and its answer taken in a later
one, together with the sending of the next request; a read that only waits is ready when its time
has come.
-/

namespace SharedQuota

/-- A read on its way. `sent` tells whether the first of the requests left has been sent. -/
structure Flight (α : Type) where
  requests : List ApiRequest
  dueAt : Option Nat
  answer : Except ReadFault α
  sent : Bool

inductive Turn (α : Type)
  | waits (flight : Flight α)
  | ready (answer : Except ReadFault α)
  | late

namespace Flight

variable {α : Type}

def start (now : Nat) (f : Fetch α) : Flight α :=
  ⟨f.requests, if f.delay = 0 then none else some (now + f.delay), f.answer, false⟩

/-- Sends the first of the requests left. If that takes the last unit, the answer is looked for in
the next round, whether it has come or not. -/
def send (r : Round) (f : Flight α) : Round × Flight α :=
  match r.spend? with
  | none => (r.retry, { f with sent := false })
  | some spent => (if spent.units = 0 then spent.retry else spent, { f with sent := true })

/-- Gives the read a turn. A request counts as made when its answer is taken. -/
def turn (r : Round) (f : Flight α) : Round × List ApiRequest × Turn α :=
  match f.requests with
  | [] =>
    match r.isOver f.dueAt with
    | (r, true) => (r, [], .ready f.answer)
    | (r, false) => (r, [], .waits f)
  | request :: rest =>
    if !f.sent then
      let (r, f) := send r f
      (r, [], .waits f)
    else match r.spend? with
    | none => (r.retry, [], .waits f)
    | some r =>
      if rest.isEmpty then (r, [request], .ready f.answer)
      else
        let (r, f) := send r { f with requests := rest }
        (r, [request], .waits f)

/-- Gives the read a turn under a deadline: what is ready in time is not late. -/
def turnBy (r : Round) (deadline : Nat) (f : Flight α) : Round × List ApiRequest × Turn α :=
  match turn r f with
  | (after, requests, .waits f) =>
    match after.isLate r.units deadline with
    | (after, true) => (after, requests, .late)
    | (after, false) => (after, requests, .waits f)
  | done => done

/-- A bound on the units that the read still takes, one for its deadline included. -/
def unitsLeft (f : Flight α) : Nat := 2 * f.requests.length + 2

/-- When the read wants its next turn: one with a request at once. -/
def wakeAt (now : Nat) (f : Flight α) : Nat :=
  if f.requests.isEmpty then f.dueAt.getD now else now

end Flight

end SharedQuota
