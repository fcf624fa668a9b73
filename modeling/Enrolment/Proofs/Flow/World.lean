import Enrolment.Proofs.Flow.Run
import Enrolment.Simulation.World

/-!
Flows of a simulated world are runs: the surroundings answer as may be answered, and nothing happens to
a flow that goes on but steps.
-/

namespace Enrolment.Simulation

namespace Surroundings

variable {s s' : Surroundings} {flag flag' : Bool} {made : Nat}

theorem le_of_deepEnough? {tx : TxId} {required depth : UInt64}
    (h : s.deepEnough? tx required = some (.ok depth)) : required ≤ depth := by
  unfold deepEnough? at h
  split at h
  · cases h
  · split at h
    next hle =>
      obtain rfl := Except.ok.inj (Option.some.inj h)
      exact hle
    next =>
      split at h
      · cases Option.some.inj h
      · cases h

variable [Suite]

/-- Simulated answers may be given. -/
theorem answer?_eq_some {q : Request} {answer : q.Answer}
    (h : s.answer? flag made q = some (answer, flag', s')) :
    q.Admits flag answer ∧ flag' = q.flagAfter flag := by
  -- what the platform is asked for is answered under the same flag
  have hact {due : Prop} [Decidable due] (acted : q.Answer × Surroundings)
      (h : (if due then some (acted.1, flag, acted.2) else none) = some (answer, flag', s')) :
      flag' = flag := by
    split at h
    · obtain ⟨-, rfl, -⟩ : acted.1 = answer ∧ flag = flag' ∧ acted.2 = s' := by simpa using h
      rfl
    · cases h
  cases q with
  | isCancelled =>
    obtain ⟨rfl, rfl, -⟩ : flag = answer ∧ flag = flag' ∧ s = s' := by simpa [answer?] using h
    exact ⟨rfl, rfl⟩
  | clearFlag =>
    obtain ⟨rfl, -⟩ : false = flag' ∧ s = s' := by simpa [answer?] using h
    exact ⟨trivial, rfl⟩
  | pause millis =>
    dsimp only [answer?] at h
    split at h
    next hset =>
      obtain ⟨rfl, rfl, -⟩ : true = answer ∧ flag = flag' ∧ s = s' := by simpa using h
      exact ⟨fun _ => hset, rfl⟩
    next =>
      split at h
      · obtain ⟨rfl, rfl, -⟩ : false = answer ∧ flag = flag' ∧ s = s' := by simpa using h
        exact ⟨nofun, rfl⟩
      · cases h
  | awaitDepth tx required =>
    dsimp only [answer?] at h
    split at h
    next hset =>
      obtain ⟨rfl, rfl, -⟩ : none = answer ∧ flag = flag' ∧ s = s' := by simpa using h
      exact ⟨hset, rfl⟩
    next =>
      obtain ⟨known, hknown, heq⟩ := Option.map_eq_some_iff.mp h
      obtain ⟨rfl, rfl, -⟩ : some known = answer ∧ flag = flag' ∧ s = s' := by simpa using heq
      refine ⟨?_, rfl⟩
      cases known with
      | ok depth => exact le_of_deepEnough? hknown
      | error e => trivial
  | drawSalt label =>
    obtain ⟨-, rfl, -⟩ : saltOf s.draws = answer ∧ flag = flag' ∧ _ = s' := by
      simpa [answer?] using h
    exact ⟨trivial, rfl⟩
  | time =>
    obtain ⟨-, rfl, -⟩ : date = answer ∧ flag = flag' ∧ s = s' := by simpa [answer?] using h
    exact ⟨trivial, rfl⟩
  | submit t => exact ⟨trivial, hact (s.act (·.submit t date)) h⟩
  | findIdentity id => exact ⟨trivial, hact (s.act (·.findIdentity id)) h⟩
  | findDocuments kind filter =>
    exact ⟨trivial, hact (s.act (·.findDocuments kind filter)) h⟩

/-- Simulated work goes on as the answers lead it. -/
theorem run_reaches {σ α : Type} (s : Surroundings) (flag : Bool) (made : Nat) (task : Task σ α) :
    ∃ es, Task.Reaches task es (s.run flag made task).1.task ∧ Log.Admissible flag es ∧
      (s.run flag made task).1.flag = Log.flagAfter flag es := by
  induction task generalizing s flag made with
  | done state result => exact ⟨[], .here _, .nil, rfl⟩
  | ask state q next ih =>
    unfold run
    cases hanswer : s.answer? flag made q with
    | none => exact ⟨[], .here _, .nil, rfl⟩
    | some answered =>
      obtain ⟨answer, flag', s'⟩ := answered
      obtain ⟨hadmits, rfl⟩ := answer?_eq_some hanswer
      obtain ⟨es, hreaches, hes, hflag⟩ := ih answer s' (q.flagAfter flag) s'.now
      exact ⟨⟨q, answer⟩ :: es, .answered answer hreaches, .cons hadmits hes, hflag⟩

end Surroundings

namespace World

variable [Suite]

/-- A flow that goes on in a simulated world is a run of it. -/
theorem proceed_reaches (s : Surroundings) (made : Option Nat) (run : FlowRun) (commands : Nat) :
    ∃ history, run.Reaches history (proceed s made run commands).1 := by
  induction commands generalizing s made run with
  | zero => exact ⟨[], .here⟩
  | succ commands ih =>
    have hbegun : run.Reaches [] run := .here
    have hsettled := hbegun.step .settled
    unfold proceed
    dsimp only
    cases hactivity : run.settle.activity with
    | busy ticket task =>
      obtain ⟨es, hwork, hes, hflag⟩ :=
        s.run_reaches run.settle.isCancelled (made.getD s.now) task
      have hworks := hsettled.works hactivity hwork hes
      rw [← hflag] at hworks
      dsimp only
      split
      · exact ⟨_, hworks⟩
      · obtain ⟨history, hrest⟩ := ih (s.run run.settle.isCancelled (made.getD s.now) task).2 none
          { run.settle with
            activity := .busy ticket (s.run run.settle.isCancelled (made.getD s.now) task).1.task
            isCancelled := (s.run run.settle.isCancelled (made.getD s.now) task).1.flag }
        exact ⟨_, hworks.trans hrest⟩
    | idle f => exact ⟨_, hsettled⟩
    | ended => exact ⟨_, hsettled⟩

end World

end Enrolment.Simulation
