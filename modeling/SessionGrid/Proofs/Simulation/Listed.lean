import SessionGrid.Simulation.Run

/-!
# Runs in any order

A run is a list of moves, of any clients one after the other, each with an order of its own in which the
hub lists its members (`movesIn`). What every move keeps holds after all of them (`movesIn_induction`). A
run is at its end when all clients have made all requests (`EndsIn`).

Here a move is one step: a client verifies, searches for a session or gives one back while no other client
moves. So it is on one thread. On several threads the searches of clients overlap; such runs are the subject
of `Simulation.Overlap`.
-/

namespace SessionGrid.Simulation

open Hub

/-- Moves one after the other, each with an order of its own. -/
def movesIn (o : Options) (order : List (Listing × Nat)) (s : Simulation) : Simulation :=
  order.foldl (fun s m => s.stepIn o m) s

theorem movesIn_snoc (o : Options) (order : List (Listing × Nat)) (m : Listing × Nat)
    (s : Simulation) : s.movesIn o (order ++ [m]) = (s.movesIn o order).stepIn o m := by
  rw [movesIn, movesIn, List.foldl_append, List.foldl_cons, List.foldl_nil]

/-- What holds of a state and is kept by every move, whatever the order, holds after all moves. -/
theorem movesIn_induction {o : Options} {I : Simulation → Prop}
    (step : ∀ (s : Simulation) (m : Listing × Nat), I s → I (s.stepIn o m)) {s : Simulation}
    (start : I s) (order : List (Listing × Nat)) : I (s.movesIn o order) := by
  induction order generalizing s with
  | nil => exact start
  | cons m order ih => exact ih (step s m start)

/-- Moves in some order, with the members listed in any orders, lead from the start to `s`, where all
clients have made all requests. -/
def EndsIn (c : Config) (o : Options) (s : Simulation) : Prop :=
  (∃ order, s = (start c o).movesIn o order) ∧ ∀ cl ∈ s.clients, cl.isDone o = true

/-- Every move of the order is one of a client that is not done. -/
def BusyIn (o : Options) : List (Listing × Nat) → Simulation → Prop
  | [], _ => True
  | m :: order, s =>
    (∃ c ∈ s.clients[m.2]?, c.isDone o = false) ∧ BusyIn o order (s.stepIn o m)

instance BusyIn.decidable (o : Options) :
    ∀ order s, Decidable (BusyIn o order s)
  | [], _ => inferInstanceAs (Decidable True)
  | m :: order, s =>
    have := BusyIn.decidable o order (s.stepIn o m)
    inferInstanceAs (Decidable ((∃ c ∈ s.clients[m.2]?, c.isDone o = false) ∧ _))

end SessionGrid.Simulation
