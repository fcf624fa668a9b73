import Enrolment.Simulation.Calls

/-!
Scenarios: flows that are started together and waited for together.
-/

namespace Enrolment.Simulation

variable [Suite]

/-- The keys of a scenario's identity: one that spends its credit and one that signs. -/
def seededKeys (seed : String) : SecretKey × SecretKey :=
  (⟨Suite.hash (Bytes.ofText ("burn " ++ seed))⟩, ⟨Suite.hash (Bytes.ofText ("sign " ++ seed))⟩)

/-- A transaction that locks credit for a seed, with some change. -/
def funded (seed : String) (credit : UInt64) : Transaction :=
  (((⟨⟨Suite.hash (Bytes.ofText seed)⟩, []⟩ : Transaction).pay (Suite.hash (Bytes.ofText "change"))
    1000).burn (seededKeys seed).1.publicKey credit)

/-- A world with one coordinator. -/
structure Scenario where
  world : World

namespace Scenario

/-- A scenario on a platform, with settings for its flows. -/
def create (behaviour : Behaviour) (settings : Settings) : Except RegistrationError Scenario := do
  let c ← Coordinator.create settings .empty
  return ⟨(World.empty behaviour .platform).addCoordinator c⟩

/-- The usual platform, with fast settings. -/
def standard (attempts : UInt32) : Except RegistrationError Scenario :=
  create .default (.fast attempts)

/-- Starts one flow for each seed with its names; handles are named by position. -/
def startAll (s : Scenario) (flows : List (String × List String)) :
    Except RegistrationError Scenario :=
  flows.zipIdx.foldlM (fun s ((seed, labels), position) =>
    let (burn, sign) := seededKeys seed
    let (started, world) := s.world.startFlow (toString position) (funded seed 100000) burn sign
      labels none
    match started with
    | some (.error e) => .error e
    | _ => .ok ⟨world⟩) s

/-- Waits until a given instant for the outcomes of some flows, and gives up where one is missing. -/
def awaitAll (deadline : Nat) (s : Scenario) : List Nat → Option (List FlowOutcome) × Scenario
  | [] => (some [], s)
  | position :: rest =>
    match s.world.outcome (toString position) (deadline - s.world.now) ([] : World.Actions Unit) with
    | none => (none, s)
    | some (ending, world) =>
      match ending.result with
      | some (some outcome) =>
        let (outcomes, s) := awaitAll deadline ⟨world⟩ rest
        (outcomes.map (outcome :: ·), s)
      | _ => (none, ⟨world⟩)

/-- Runs flows to their outcomes, for an hour at most. -/
def runAll (s : Scenario) (flows : List (String × List String)) :
    Except RegistrationError (Option (List FlowOutcome) × Scenario) := do
  let s ← s.startAll flows
  return awaitAll World.defaultPatience s (List.range flows.length)

end Scenario

end Enrolment.Simulation
