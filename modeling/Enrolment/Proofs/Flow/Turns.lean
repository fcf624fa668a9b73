import Enrolment.Proofs.Flow.Bookkeeping
import Enrolment.Proofs.Flow.World
import Enrolment.Simulation.Scenario

/-!
The coordinators of a simulated world. What a flow does on its own its coordinator can let it do, one
step after the other, so that the turns of a simulation are among all that can become of a coordinator:
what is proved of every coordinator that can be reached holds of those that are simulated, and so of
those of every scenario.
-/

namespace Enrolment

attribute [ext] Coordinator

namespace FlowRun

variable [Suite] {run run' : FlowRun} {history events : History}

theorem Step.movesTo (h : run.Step events run') : run.MovesTo run' := by
  cases h with
  | answered answer hasked hadmits =>
    refine ⟨rfl, fun _ => ?_, .inl rfl⟩
    rw [isLive, hasked]
  | settled => exact run.movesTo_settle
  | sent ticket command hsent =>
    unfold send? at hsent
    split at hsent
    · obtain rfl := Option.some.inj hsent
      exact ⟨rfl, fun hlive => hlive, .inl rfl⟩
    · cases hsent
  | paused => exact ⟨rfl, fun hlive => hlive, .inl rfl⟩
  | released => exact ⟨rfl, fun hlive => hlive, .inl rfl⟩

theorem Reaches.movesTo (h : run.Reaches history run') : run.MovesTo run' := by
  induction h with
  | here => exact .refl run
  | step _ hstep ih => exact ih.trans hstep.movesTo

end FlowRun

namespace Coordinator

variable {c first : Coordinator} {accounts : List Account} {position : Nat}
  {before run later : FlowRun}

/-- Putting a flow where it stands changes nothing. -/
theorem replace_self (hrun : c.run? position = some run) : c.replace position run = c := by
  have hstays : ¬(run.isLive && !run.isLive) = true := by simp
  obtain ⟨hposition, hget⟩ := List.getElem?_eq_some_iff.mp hrun
  apply Coordinator.ext
  · exact settings_replace
  · exact ledger_replace
  · rw [runs_replace hrun, ← hget]
    exact List.set_getElem_self hposition
  · rw [registry_replace hrun, if_neg hstays]
  · rw [tally_replace hrun, Tally.after_self]

/-- Of two changes to a flow, of which the second goes on from the first, the second is what counts. -/
theorem replace_replace (hrun : c.run? position = some before) (hmoves : before.MovesTo run)
    (hlater : run.MovesTo later) :
    (c.replace position run).replace position later = c.replace position later := by
  have hmoved : (c.replace position run).run? position = some run := by
    rw [run?_replace hrun, if_pos rfl]
  apply Coordinator.ext
  · rw [settings_replace, settings_replace, settings_replace]
  · rw [ledger_replace, ledger_replace, ledger_replace]
  · rw [runs_replace hmoved, runs_replace hrun, runs_replace hrun, List.set_set]
  · rw [registry_replace hmoved, registry_replace hrun, registry_replace hrun, hlater.id_eq]
    cases hrunLive : run.isLive with
    | true => simp [hmoves.isLive hrunLive]
    | false =>
      have hended : later.isLive = false := by
        cases hlaterLive : later.isLive with
        | false => rfl
        | true => exact absurd (hlater.isLive hlaterLive) (by simp [hrunLive])
      simp [hended]
  · rw [tally_replace hmoved, tally_replace hrun, tally_replace hrun]
    rcases hmoves.outcome with hsame | ⟨outcome, hnone, hsome⟩
    · rw [hsame, Tally.after_self]
    · rcases hlater.outcome with hkept | ⟨_, hempty, -⟩
      · rw [hkept, Tally.after_self]
      · rw [hsome] at hempty
        cases hempty

variable [Suite] {history : History}

/-- Whatever a flow does on its own, its coordinator can let it do. -/
theorem Reaches.of_flow (h : first.Reaches c accounts) (hrun : c.run? position = some before)
    (hreaches : before.Reaches history run) :
    ∃ accounts', first.Reaches (c.replace position run) accounts' := by
  induction hreaches with
  | here =>
    rw [replace_self hrun]
    exact ⟨accounts, h⟩
  | @step history events run run' hbefore hstep ih =>
    obtain ⟨accounts', hreached⟩ := ih
    have hmoved : (c.replace position run).run? position = some run := by
      rw [run?_replace hrun, if_pos rfl]
    rw [← replace_replace hrun hbefore.movesTo hstep.movesTo]
    cases hstep with
    | answered answer hasked hadmits =>
      exact ⟨_, hreached.step (.answered answer hmoved hasked hadmits)⟩
    | settled => exact ⟨_, hreached.step (.settled hmoved)⟩
    | sent ticket command hsent => exact ⟨_, hreached.step (.sent ticket command hmoved hsent)⟩
    | paused =>
      have hpaused := hreached.step (.paused position)
      rw [pauseAt, adjust, hmoved] at hpaused
      exact ⟨_, hpaused⟩
    | released =>
      have hreleased := hreached.step (.released position)
      rw [release, adjust, hmoved] at hreleased
      exact ⟨_, hreleased⟩

end Coordinator

namespace Simulation

variable [Suite]

/-- Every coordinator of a simulated world can be reached from a new one. -/
def World.IsReached (w : World) : Prop :=
  ∀ c ∈ w.coordinators, ∃ settings ledger first accounts,
    Coordinator.create settings ledger = .ok first ∧ first.Reaches c accounts

namespace World

variable {w : World} {σ α ρ : Type}

theorem isReached_empty (behaviour : Behaviour) (depthSource : DepthSource) :
    (World.empty behaviour depthSource).IsReached := by
  intro c hc
  cases hc

/-- What a simulated coordinator registers, delivers and counts agrees with some accounts. -/
theorem IsReached.agrees (h : w.IsReached) {c : Coordinator} (hc : c ∈ w.coordinators) :
    ∃ accounts, c.Agrees accounts := by
  obtain ⟨settings, ledger, first, accounts, hcreate, hreached⟩ := h c hc
  exact ⟨accounts, hreached.agrees (Coordinator.agrees_create hcreate)⟩

theorem IsReached.addCoordinator (h : w.IsReached) {settings : Settings} {ledger : Ledger}
    {c : Coordinator} (hcreate : Coordinator.create settings ledger = .ok c) :
    (w.addCoordinator c).IsReached := by
  intro c' hc'
  rcases List.mem_append.mp hc' with hold | hnew
  · exact h c' hold
  · obtain rfl := List.mem_singleton.mp hnew
    exact ⟨settings, ledger, c', [], hcreate, .here⟩

/-- A coordinator that is taken to where it can be taken may take its own place. -/
theorem IsReached.onCoordinatorOf (h : w.IsReached) {key : FlowKey}
    {f : Coordinator → Nat → Coordinator}
    (hf : ∀ (c first : Coordinator) (accounts : List Account),
      w.coordinators[key.coordinator]? = some c → first.Reaches c accounts →
        ∃ accounts', first.Reaches (f c key.position) accounts') :
    (w.onCoordinatorOf key f).IsReached := by
  intro c hc
  obtain ⟨number, hnumber⟩ := List.getElem?_of_mem hc
  rw [World.onCoordinatorOf, List.getElem?_modify] at hnumber
  obtain ⟨c', hc', heq⟩ := Option.map_eq_some_iff.mp hnumber
  obtain ⟨settings, ledger, first, accounts, hcreate, hreached⟩ := h c' (List.mem_of_getElem? hc')
  split at heq
  next hsame =>
    obtain ⟨accounts', hmoved⟩ := hf c' first accounts (hsame ▸ hc') hreached
    exact ⟨settings, ledger, first, accounts', hcreate, heq ▸ hmoved⟩
  next => exact ⟨settings, ledger, first, accounts, hcreate, heq ▸ hreached⟩

theorem IsReached.setFlow (h : w.IsReached) {key : FlowKey} {run run' : FlowRun} {history : History}
    (hflow : w.flow? key = some run) (hreaches : run.Reaches history run') :
    (w.setFlow key run').IsReached := by
  apply h.onCoordinatorOf
  intro c first accounts hc hreached
  obtain ⟨c', hc', hrun⟩ := Option.bind_eq_some_iff.mp hflow
  obtain rfl : c = c' := Option.some.inj (hc.symm.trans hc')
  exact hreached.of_flow hrun hreaches

theorem IsReached.dropHandle (h : w.IsReached) (name : String) : (w.dropHandle name).2.IsReached := by
  unfold World.dropHandle
  split
  · exact h
  next handle _ =>
    exact h.onCoordinatorOf fun c first accounts _ hreached =>
      ⟨_, hreached.step (.released handle.flow.position)⟩

theorem IsReached.pauseHandle (h : w.IsReached) (name : String) :
    (w.pauseHandle name).2.IsReached := by
  unfold World.pauseHandle
  split
  · exact h
  next handle _ =>
    exact h.onCoordinatorOf fun c first accounts _ hreached =>
      ⟨_, hreached.step (.paused handle.flow.position)⟩

/-- What the current coordinator can become may take its place. -/
theorem IsReached.setCoordinator (h : w.IsReached) {c c' : Coordinator}
    (hc : w.coordinator? = some c)
    (hstep : ∀ accounts, ∃ accounts', c.Step accounts c' accounts') :
    (w.setCoordinator c').IsReached := by
  intro other hother
  rcases List.mem_append.mp hother with hold | hnew
  · exact h other (List.dropLast_subset _ hold)
  · obtain rfl := List.mem_singleton.mp hnew
    obtain ⟨settings, ledger, first, accounts, hcreate, hreached⟩ := h c (List.mem_of_getLast? hc)
    obtain ⟨accounts', hnext⟩ := hstep accounts
    exact ⟨settings, ledger, first, accounts', hcreate, hreached.step hnext⟩

theorem IsReached.startFlow (h : w.IsReached) (name : String) (transaction : Transaction)
    (burnKey signingKey : SecretKey) (labels : List String) (schedule : Option Schedule) :
    (w.startFlow name transaction burnKey signingKey labels schedule).2.IsReached := by
  unfold World.startFlow
  split
  · exact h
  next c hc =>
    have hset : (w.setCoordinator
        (c.start transaction burnKey signingKey labels schedule).2).IsReached := by
      apply h.setCoordinator hc
      intro accounts
      cases hstart : c.start transaction burnKey signingKey labels schedule with
      | mk started c' =>
        cases started with
        | ok position => exact ⟨_, .started hstart⟩
        | error e => exact ⟨_, .refused hstart⟩
    dsimp only
    split
    · exact hset.dropHandle name
    · exact hset
    · exact hset

theorem IsReached.turnOf (h : w.IsReached) (key : FlowKey) : (w.turnOf key).IsReached := by
  unfold World.turnOf
  split
  · exact h
  next run hflow =>
    obtain ⟨history, hreaches⟩ :=
      proceed_reaches w.surroundings (w.made.find? key) run (run.queue.length + 2)
    exact IsReached.setFlow (w := { w with surroundings := _, made := _ }) h hflow hreaches

theorem IsReached.turn (h : w.IsReached) : w.turn.IsReached := by
  have hall (keys : List FlowKey) (w : World) (h : w.IsReached) :
      (keys.foldl World.turnOf w).IsReached := by
    induction keys generalizing w with
    | nil => exact h
    | cons key rest ih => exact ih _ (h.turnOf key)
  exact hall w.flowKeys w h

theorem IsReached.poll (h : w.IsReached) (call : Call σ α) : (w.poll call).2.IsReached := by
  cases call with
  | work flag made task =>
    unfold World.poll
    dsimp only
    cases flag with
    | none => split <;> exact h
    | some flag => split <;> exact h
  | send flow command state read =>
    unfold World.poll
    dsimp only
    split
    · exact h
    next run hsent =>
      obtain ⟨before, hflow, hsend⟩ := Option.bind_eq_some_iff.mp hsent
      exact h.setFlow hflow (FlowRun.Reaches.here.step (.sent w.tickets command hsend))
  | awaitReply flow ticket state read =>
    unfold World.poll
    dsimp only
    split <;> exact h
  | awaitOutcome flow state read =>
    unfold World.poll
    dsimp only
    split <;> exact h
  | returned state result => exact h
  | dropped state => exact h

theorem IsReached.alternate (h : w.IsReached) (call : Call σ α) :
    (w.alternate call).2.IsReached :=
  ((h.turn.poll call).turn).poll _

theorem IsReached.take (h : w.IsReached) {actions : List (Nat × StateM World ρ)}
    (hactions : ∀ action ∈ actions, ∀ w : World, w.IsReached → (action.2 w).2.IsReached) :
    (w.take actions).2.IsReached := by
  induction actions generalizing w with
  | nil => exact h
  | cons action rest ih =>
    obtain ⟨hfirst, hrest⟩ := List.forall_mem_cons.mp hactions
    exact ih (hfirst w h) hrest

/-- At every instant the call, the actions and the flows each leave the world reached. -/
theorem IsReached.pass (h : w.IsReached) (deadline instants : Nat) (call : Call σ α)
    {actions : List (Nat × StateM World ρ)} (taken : List ρ)
    (hactions : ∀ action ∈ actions, ∀ w : World, w.IsReached → (action.2 w).2.IsReached) :
    (World.pass deadline instants call actions taken w).2.IsReached := by
  induction instants using Nat.strongRecOn generalizing w call actions taken with
  | ind instants ih =>
    have hpolled : (w.pollUntil deadline call).2.IsReached := h.poll call
    unfold World.pass
    dsimp only
    generalize w.pollUntil deadline call = polled at hpolled ⊢
    have htaken :
        (polled.2.take (actions.takeWhile fun action => action.1 ≤ polled.2.now)).2.IsReached :=
      hpolled.take fun action haction => hactions action (List.takeWhile_subset _ haction)
    generalize polled.2.take (actions.takeWhile fun action => action.1 ≤ polled.2.now) = done
      at htaken ⊢
    have halternated := htaken.alternate polled.1
    split
    · exact htaken
    split
    · exact halternated
    split
    next rest instant _ =>
      apply ih rest (Nat.lt_succ_self rest)
      · exact halternated
      · exact fun action haction => hactions action ((List.dropWhile_suffix _).subset haction)
    next => exact halternated

/-- Whatever is waited for, and whatever is done meanwhile that takes coordinators only to where they
can be taken, a simulation does so too. -/
theorem IsReached.await (h : w.IsReached) (call : Call σ α) (patience : Nat)
    {actions : List (Nat × StateM World ρ)}
    (hactions : ∀ action ∈ actions, ∀ w : World, w.IsReached → (action.2 w).2.IsReached) :
    (w.await call patience actions).2.IsReached := by
  apply h.pass
  intro action haction
  obtain ⟨due, hdue, rfl⟩ := List.mem_map.mp haction
  exact hactions due hdue

/-- Waiting for an outcome leaves the world reached, and so do actions meanwhile that do. -/
theorem IsReached.outcome (h : w.IsReached) {name : String} {patience : Nat} {actions : Actions ρ}
    (hactions : ∀ action ∈ actions, ∀ w : World, w.IsReached → (action.2 w).2.IsReached)
    {ending : Ending Unit (Option FlowOutcome) ρ} {w' : World}
    (houtcome : w.outcome name patience actions = some (ending, w')) : w'.IsReached := by
  obtain ⟨handle, -, hended⟩ := Option.map_eq_some_iff.mp houtcome
  split at hended
  · have hreached := h.await (.returned () (none : Option FlowOutcome)) patience hactions
    rwa [hended] at hreached
  · have hspent : World.IsReached
        { w with handles := w.handles.insert name { handle with isSpent := true } } := h
    have hreached := hspent.await (.awaitOutcome handle.flow () some) patience hactions
    rwa [hended] at hreached

/-- Flows may be paused and let go of while an outcome is waited for. -/
theorem IsReached.outcome_of_handles (h : w.IsReached) {name : String} {patience : Nat}
    {actions : Actions Bool}
    (hactions : ∀ action ∈ actions, ∃ other, (action.2 = fun w => w.pauseHandle other) ∨
      action.2 = fun w => w.dropHandle other)
    {ending : Ending Unit (Option FlowOutcome) Bool} {w' : World}
    (houtcome : w.outcome name patience actions = some (ending, w')) : w'.IsReached := by
  apply h.outcome _ houtcome
  intro action haction w hw
  obtain ⟨other, hpause | hdrop⟩ := hactions action haction
  · rw [hpause]
    exact hw.pauseHandle other
  · rw [hdrop]
    exact hw.dropHandle other

end World

namespace Scenario

variable {s s' : Scenario} {behaviour : Behaviour} {settings : Settings}
  {flows : List (String × List String)}

theorem isReached_create (hcreate : create behaviour settings = .ok s) : s.world.IsReached := by
  unfold create at hcreate
  cases hc : Coordinator.create settings .empty with
  | error e =>
    rw [hc] at hcreate
    cases hcreate
  | ok c =>
    rw [hc] at hcreate
    obtain rfl := Except.ok.inj hcreate
    exact (World.isReached_empty behaviour .platform).addCoordinator hc

/-- Each flow that is started leaves the world reached. -/
theorem isReached_startAll (h : s.world.IsReached) (hstart : s.startAll flows = .ok s') :
    s'.world.IsReached := by
  unfold startAll at hstart
  generalize flows.zipIdx = numbered at hstart
  induction numbered generalizing s with
  | nil =>
    obtain rfl := Except.ok.inj hstart
    exact h
  | cons flow rest ih =>
    obtain ⟨⟨seed, labels⟩, position⟩ := flow
    rw [List.foldlM_cons] at hstart
    have hstarted := h.startFlow (toString position) (funded seed 100000) (seededKeys seed).1
      (seededKeys seed).2 labels none
    dsimp only at hstart
    generalize s.world.startFlow (toString position) (funded seed 100000) (seededKeys seed).1
      (seededKeys seed).2 labels none = started at hstart hstarted
    obtain ⟨answer, world⟩ := started
    match answer with
    | some (.error e) => cases hstart
    | some (.ok run) => exact ih hstarted hstart
    | none => exact ih hstarted hstart

/-- Outcomes may be waited for, however long. -/
theorem isReached_awaitAll (h : s.world.IsReached) (deadline : Nat) (positions : List Nat) :
    (awaitAll deadline s positions).2.world.IsReached := by
  induction positions generalizing s with
  | nil => exact h
  | cons position rest ih =>
    unfold awaitAll
    split
    · exact h
    next ending world hended =>
      have hworld : world.IsReached := h.outcome (fun _ hnone => by cases hnone) hended
      split
      · exact ih (s := ⟨world⟩) hworld
      · exact hworld

/-- A scenario is one of the courses that a coordinator can take: whatever flows are run on whatever
platform, what was started, delivered and counted agrees. -/
theorem agrees_runAll (hcreate : create behaviour settings = .ok s)
    {outcomes : Option (List FlowOutcome)} (hrun : s.runAll flows = .ok (outcomes, s')) :
    s'.world.IsReached ∧ ∀ c ∈ s'.world.coordinators, ∃ accounts, c.Agrees accounts := by
  unfold runAll at hrun
  cases hstart : s.startAll flows with
  | error e =>
    rw [hstart] at hrun
    cases hrun
  | ok started =>
    rw [hstart] at hrun
    have hstarted : started.world.IsReached := isReached_startAll (isReached_create hcreate) hstart
    have hawaited := isReached_awaitAll hstarted World.defaultPatience (List.range flows.length)
    obtain rfl := congrArg Prod.snd (Except.ok.inj hrun)
    exact ⟨hawaited, fun c hc => hawaited.agrees hc⟩

end Scenario

end Simulation

end Enrolment
