import SharedQuota.Cluster.Api
import SharedQuota.Json.Printer
import SharedQuota.Options.Settings
import SharedQuota.Serving

/-!
The program. It reads the state of a cluster from the first line of its input, an object with the
time under `now` and under `lists` the objects that each path of the API server lists, and then
answers the admission reviews of the lines that follow, one response to a line.
-/

namespace SharedQuota.Program

def defaultHost : String := "cluster-quota"

def clusterOfLine? (line : String) : Option (Time × ApiServer) := do
  let members ← (← Json.parse? line).members?
  let now ← (Json.get? "now" members).bind fun j => j.string?.bind Time.ofRfc3339?
  let lists ← (Json.get? "lists" members).bind (Json.table? Json.items?)
  some (now, ⟨lists, Table.empty⟩)

/-- Answers reviews until the input ends. The clock of the server runs from `startedAt`. -/
partial def answerReviews (input output : IO.FS.Stream) (cluster : Cluster) (startedAt : Nat)
    (server : Server) : IO Unit := do
  let line ← input.getLine
  if line.isEmpty then return
  let millis := (← IO.monoMsNow) - startedAt
  let (server, responses, _) := { server with millis }.serve cluster [(0, Json.parse? line)]
  for r in responses do
    output.putStrLn r.toJson.render
  output.flush
  answerReviews input output cluster startedAt server

def run (options : Options) : IO UInt32 := do
  let input ← IO.getStdin
  match clusterOfLine? (← input.getLine) with
  | none =>
    IO.eprintln "error: the first line does not describe a cluster"
    return 1
  | some (now, api) =>
    let settings := options.settings ((← IO.getEnv "HOSTNAME").getD defaultHost)
    let cluster := api.cluster settings.extractor settings.objectCounts
    answerReviews input (← IO.getStdout) cluster (← IO.monoMsNow) (.start settings now)
    return 0

end SharedQuota.Program

open SharedQuota in
def main (args : List String) : IO UInt32 := do
  match Options.parse args with
  | .error fault =>
    IO.eprintln ("error: " ++ fault.message)
    return 2
  | .ok options =>
    match options.conflict? with
    | some conflict =>
      IO.eprintln ("Error: " ++ conflict.message)
      return 1
    | none => Program.run options
