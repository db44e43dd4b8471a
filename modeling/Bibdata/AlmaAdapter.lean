import Bibdata.Library.Overrides

/-!
# Calls to Alma with options of their own

`AlmaAdapter::Execute` sets options of the Alma gem for a call, and puts back what was there, also
where the call raises. The options are those of the process, and its threads share them.
-/

namespace Bibdata

namespace AlmaAdapter

inductive Value
  | seconds (n : ℕ)
  | flag (b : Bool)
  deriving DecidableEq

/-- The methods that use `Execute`. -/
inductive Request
  | getAvailabilityMany | getAvailabilityHolding | getItemsForBib | findUser | itemData

def options : Request → List (String × Value)
  | .getAvailabilityMany => [("timeout", .seconds 20)]
  | .getAvailabilityHolding => [("enable_loggable", .flag true), ("timeout", .seconds 10)]
  | .getItemsForBib => [("timeout", .seconds 10)]
  | .findUser => [("enable_loggable", .flag true)]
  | .itemData => [("timeout", .seconds 10)]

inductive Act
  | call (request : Request)
  | next
  | raise

abbrev Threads (n : ℕ) := Overrides.State n String Value

variable {n : ℕ}

/-- One step of a thread's `Execute.call`. -/
def step (s : Threads n) (e : Fin n × Act) : Option (Threads n) :=
  Overrides.step s (e.1, match e.2 with
    | .call request => .start (options request)
    | .next => .next
    | .raise => .raise)

/-- No thread is in a call that sets an option of the call that starts. -/
def Apart (s : Threads n) (e : Fin n × Act) : Prop :=
  match e.2 with
  | .call request => ∀ k ∈ (options request).map Prod.fst, ∀ j, k ∉ Overrides.claimed (s.calls j)
  | _ => True

instance (s : Threads n) (e : Fin n × Act) : Decidable (Apart s e) :=
  match e with
  | (_, .call request) => inferInstanceAs (Decidable
      (∀ k ∈ (options request).map Prod.fst, ∀ j, k ∉ Overrides.claimed (s.calls j)))
  | (_, .next) => instDecidableTrue
  | (_, .raise) => instDecidableTrue

end AlmaAdapter

end Bibdata
