import SessionGrid.Simulation.Run

/-!
# The report of a simulation as text and as JSON
-/

namespace SessionGrid.Simulation

/-- `s` with blanks behind it, `width` characters at least. -/
def padRight (width : Nat) (s : String) : String :=
  s ++ String.ofList (List.replicate (width - s.length) ' ')

/-- `s` with blanks before it, `width` characters at least. -/
def padLeft (width : Nat) (s : String) : String :=
  String.ofList (List.replicate (width - s.length) ' ') ++ s

def NodeReport.line (n : NodeReport) : String :=
  "  - " ++ padRight 32 n.id.text ++ " " ++ padLeft 6 (toString n.granted) ++ " sessions (max " ++
    toString n.maxSessions.toNat ++ ")" ++ (if n.isShutDown then "" else "  [still running]") ++ "\n"

/-- The report in lines: what was simulated, the totals, the nodes. -/
def Report.text (r : Report) : String :=
  "Simulation (" ++ r.policy ++ " policy, " ++ (if r.strict then "strict" else "advisory") ++
    " mode) for " ++ r.requested.text ++ "\n  granted: " ++ toString r.tally.granted ++
    "  misses: " ++ toString r.tally.misses ++ "  rejected: " ++ toString r.tally.rejected ++ "\n" ++
    String.join (r.nodes.map NodeReport.line)

/-- Counts are words of 64 bits. -/
def countJson (n : Nat) : Json :=
  .ofNat n.toUInt64.toNat n.toUInt64.toNat_lt

def NodeReport.toJson (n : NodeReport) : Json :=
  .object [
    ("id", .string n.id.text),
    ("max_sessions", countJson n.maxSessions.toNat),
    ("granted", countJson n.granted),
    ("shut_down", .bool n.isShutDown)]

def Report.toJson (r : Report) : Json :=
  .object [
    ("policy", .string r.policy),
    ("strict", .bool r.strict),
    ("requested", r.requested.toJson),
    ("granted", countJson r.tally.granted),
    ("misses", countJson r.tally.misses),
    ("rejected", countJson r.tally.rejected),
    ("nodes", .array (r.nodes.map NodeReport.toJson))]

end SessionGrid.Simulation
