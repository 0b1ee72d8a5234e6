import SharedQuota.Schema.Event
import SharedQuota.Workload

/-!
Events that report denials: which of them are old, and what a new one says.
-/

namespace SharedQuota

/-- An event with the times it carries, each as precise as it is kept. -/
structure Event where
  metadata : Metadata
  lastTime : Option Time
  eventTime : Option Time
  firstTime : Option Time

namespace Event

def timeAt (key : String) (members : List (String × Json)) : Option Time :=
  (Json.textAt key members).bind Time.ofStamp?

def ofJson? (j : Json) : Option Event := do
  let members ← Schema.object? "Event" Schema.eventFields j
  some {
    metadata := Json.metadataAt members
    lastTime := timeAt "lastTimestamp" members
    eventTime := timeAt "eventTime" members
    firstTime := timeAt "firstTimestamp" members }

/-- The times that count, with what they do not keep dropped. A time whose year has not four digits
does not count. -/
def times (e : Event) : List Time :=
  ([e.lastTime.map Time.toSecond, e.eventTime.map Time.toMicrosecond,
    e.firstTime.map Time.toSecond, e.metadata.created.map Time.toSecond].filterMap id).filter
      Time.hasPlainYear

def lastSeen? (e : Event) : Option Time := Time.latest? e.times

/-- Whether the event was last seen more than `retention` milliseconds ago. -/
def isExpired (now : Time) (retention : Nat) (e : Event) : Bool :=
  e.lastSeen?.any fun t =>
    let age := now.since t
    0 ≤ age && (retention * 1_000_000 : Int) < age

def expired (now : Time) (retention : Nat) (es : List Event) : List Event :=
  es.filter (isExpired now retention)

/-! ### Sources -/

inductive Source
  | controller
  | webhook
deriving DecidableEq

/-- The sources in the order in which they are swept. -/
def Source.all : List Source := [.controller, .webhook]

def Source.text : Source → String
  | .controller => "controller"
  | .webhook => "webhook"

def sourceLabel : String := "clusterquota.io/event-source"

def Source.selector (s : Source) : String := sourceLabel ++ "=" ++ s.text

/-! ### Denials -/

structure Denied where
  apiVersion : String
  kind : String
  namespaceName : String
  name : String
  message : String
deriving DecidableEq

def reportingComponent : String := "cluster-quota-webhook"

def Denied.toJson (d : Denied) (instanceName : String) (now : Time) : Json :=
  let time := Json.string now.secondText
  .object [
    ("apiVersion", .string "v1"),
    ("kind", .string "Event"),
    ("count", .int 1),
    ("firstTimestamp", time),
    ("involvedObject", .object [
      ("apiVersion", .string d.apiVersion),
      ("kind", .string d.kind),
      ("name", .string d.name),
      ("namespace", .string d.namespaceName)]),
    ("lastTimestamp", time),
    ("message", .string d.message),
    ("metadata", .object [
      ("generateName", .string (d.name ++ ".")),
      ("labels", .object [(sourceLabel, .string Source.webhook.text)]),
      ("namespace", .string d.namespaceName)]),
    ("reason", .string "QuotaExceeded"),
    ("reportingComponent", .string reportingComponent),
    ("reportingInstance", .string instanceName),
    ("source", .object [("component", .string reportingComponent)]),
    ("type", .string "Warning")]

end Event

end SharedQuota
