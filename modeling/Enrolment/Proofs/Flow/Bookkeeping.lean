import Enrolment.Proofs.Flow.Registry
import Enrolment.Proofs.Pausing.Continuing

/-!
The bookkeeping of a coordinator over everything that is done with it and with its flows. Each step keeps
the registry, the runs and the counters in agreement, so that they agree in every coordinator that can be
reached.
-/

namespace Enrolment

namespace Coordinator

variable [Suite] {c c' first : Coordinator} {accounts accounts' : List Account} {position : Nat}
  {transaction : Transaction} {burnKey signingKey : SecretKey} {labels : List String}
  {schedule : Option Schedule}

/-- What can happen to a coordinator next, and to the accounts of its flows. -/
inductive Step (c : Coordinator) (accounts : List Account) : Coordinator → List Account → Prop where
  | started {transaction : Transaction} {burnKey signingKey : SecretKey} {labels : List String}
      {schedule : Option Schedule} {position : Nat} {c' : Coordinator}
      (hstart : c.start transaction burnKey signingKey labels schedule = (.ok position, c')) :
      Step c accounts c' (accounts ++ [.opened labels])
  | refused {transaction : Transaction} {burnKey signingKey : SecretKey} {labels : List String}
      {schedule : Option Schedule} {e : RegistrationError} {c' : Coordinator}
      (hstart : c.start transaction burnKey signingKey labels schedule = (.error e, c')) :
      Step c accounts c' accounts
  /-- The request of a flow is answered. -/
  | answered {position : Nat} {run : FlowRun} {ticket : Option Nat} {f : Flow} {q : Request}
      {next : q.Answer → Task Flow Reply} (answer : q.Answer) (hrun : c.run? position = some run)
      (hasked : run.activity = .busy ticket (.ask f q next))
      (hadmits : q.Admits run.isCancelled answer) :
      Step c accounts
        (c.replace position { run with
          activity := .busy ticket (next answer)
          isCancelled := q.flagAfter run.isCancelled }) accounts
  /-- A command of a flow is finished, or the next one begun, or the flow ends. -/
  | settled {position : Nat} {run : FlowRun} (hrun : c.run? position = some run) :
      Step c accounts (c.replace position run.settle)
        (accounts.modify position fun account => account.settled run)
  | sent {position : Nat} {run run' : FlowRun} (ticket : Nat) (command : Command)
      (hrun : c.run? position = some run) (hsent : run.send? ticket command = some run') :
      Step c accounts (c.replace position run') accounts
  | cancelled {id : IdentityId} {c' : Coordinator} (hcancel : c.cancel id = .ok c') :
      Step c accounts c' accounts
  /-- A flow is paused by its handle. -/
  | paused (position : Nat) : Step c accounts (c.pauseAt position) accounts
  | released (position : Nat) : Step c accounts (c.release position) accounts

/-- What can become of a coordinator, and the accounts of its flows until then. -/
inductive Reaches (first : Coordinator) : Coordinator → List Account → Prop where
  | here : Reaches first first []
  | step {c c' : Coordinator} {accounts accounts' : List Account} (h : Reaches first c accounts)
      (hstep : c.Step accounts c' accounts') : Reaches first c' accounts'

theorem Agrees.started (h : c.Agrees accounts)
    (hstart : c.start transaction burnKey signingKey labels schedule = (.ok position, c')) :
    c'.Agrees (accounts ++ [.opened labels]) ∧ c.Delivers c' := by
  obtain ⟨lock, ledger, flow, -, hflow, hnew, -, rfl⟩ := start_eq_entered hstart
  obtain rfl := labels_of_makeFlow hflow
  exact ⟨h.entered hnew, .nothing outcomeAt_entered rfl rfl rfl⟩

/-- Every step of a coordinator keeps agreement with the accounts, and delivers at most one outcome. -/
theorem Agrees.step (h : c.Agrees accounts) (hstep : c.Step accounts c' accounts') :
    c'.Agrees accounts' ∧ c.Delivers c' := by
  cases hstep with
  | started hstart => exact h.started hstart
  | refused hstart =>
    obtain ⟨ledger, rfl⟩ := start_eq_error hstart
    have htallies := h.tallies
    exact ⟨⟨h.length_eq, h.fits, h.registered_iff, h.active_eq, htallies.started_eq,
      htallies.completed_eq, htallies.timedOut_eq, htallies.failed_eq⟩,
      .nothing (fun _ => rfl) rfl rfl rfl⟩
  | answered answer hrun hasked =>
    refine h.kept hrun rfl ?_ rfl rfl ?_
    · intro _
      rw [FlowRun.isLive, hasked]
    · rw [hasked]
      rintro account ⟨command, hcurrent, hensures⟩
      exact ⟨command, hcurrent, hensures answer⟩
  | @settled position run hrun =>
    refine h.moved hrun run.movesTo_settle (List.length_modify ..) ?_ ?_
    · intro other hother
      rw [List.getElem?_modify]
      simp [Ne.symm hother]
    · intro account haccount
      rw [List.getElem?_modify] at haccount
      obtain ⟨old, hold, rfl⟩ := Option.map_eq_some_iff.mp haccount
      rw [if_pos rfl]
      exact (h.fits hrun hold).settled
  | sent ticket command hrun hsent =>
    unfold FlowRun.send? at hsent
    split at hsent
    · obtain rfl := Option.some.inj hsent
      exact h.kept hrun rfl (fun hlive => hlive) rfl rfl fun _ hat => hat
    · cases hsent
  | cancelled hcancel =>
    unfold cancel at hcancel
    split at hcancel
    · cases hcancel
    next position _ =>
      obtain rfl := Except.ok.inj hcancel
      exact h.adjusted position (fun _ => rfl) (fun _ => rfl) (fun _ => rfl) fun _ => rfl
  | paused position => exact h.adjusted position (fun _ => rfl) (fun _ => rfl) (fun _ => rfl) fun _ => rfl
  | released position => exact h.adjusted position (fun _ => rfl) (fun _ => rfl) (fun _ => rfl) fun _ => rfl

theorem Reaches.agrees (h : first.Reaches c accounts) (hfirst : first.Agrees []) :
    c.Agrees accounts := by
  induction h with
  | here => exact hfirst
  | step _ hstep ih => exact (ih.step hstep).1

/-- The flows, the registry and the counters of a coordinator agree, whatever was done with it. At most
one flow is live for an identity, and the active flows are those that have not ended. A flow delivered the
first outcome that its first command, a restart or a resumption came to, and nothing that came of
registering further names. Each of its outcomes says something about usernames exactly if the identity
completed and the flow was started with names. A flow that delivered is counted in one way, by what its
outcome is. Whatever is done next delivers at most one outcome, of a flow that had none, and raises one
counter by one then. -/
theorem flows_are_accounted_for {settings : Settings} {ledger : Ledger}
    (hcreate : create settings ledger = .ok first) (h : first.Reaches c accounts) :
    (∀ (i j : Nat) (run other : FlowRun), c.run? i = some run → c.run? j = some other →
      run.isLive = true → other.isLive = true → run.id = other.id → i = j) ∧
    c.active = c.runs.countP FlowRun.isLive ∧
    (∀ (i : Nat) (run : FlowRun), c.run? i = some run →
      ∃ account, accounts[i]? = some account ∧ run.outcome = account.delivered? ∧
        (∀ entry ∈ account.results, entry.2.Suits account.labels entry.1) ∧
        (∀ entry ∈ run.replies, ∃ command, (command, entry.2) ∈ account.results) ∧
        ∀ outcome, run.outcome = some outcome → outcome.IsOrderly account.labels) ∧
    c.Tallies ∧
    c.tally.completed + c.tally.timedOut + c.tally.failed =
      c.runs.countP (fun run => run.outcome.isSome) ∧
    c.tally.completed + c.tally.timedOut + c.tally.failed ≤ c.tally.started ∧
    ∀ c' accounts', c.Step accounts c' accounts' → c.Delivers c' := by
  have hagrees := h.agrees (agrees_create hcreate)
  have hcounts := hagrees.counts
  refine ⟨?_, hagrees.active_eq, ?_, hagrees.tallies, hcounts, ?_, ?_⟩
  · intro i j run other hi hj hrun hother hid
    have hfound : c.registry.find? other.id = some i := (hagrees.registered_at hi).mpr ⟨hid, hrun⟩
    have hfound' : c.registry.find? other.id = some j :=
      (hagrees.registered_at hj).mpr ⟨rfl, hother⟩
    exact Option.some.inj (hfound.symm.trans hfound')
  · intro i run hrun
    obtain ⟨account, haccount, hfits⟩ := hagrees.account_at hrun
    exact ⟨account, haccount, hfits.outcome_eq, hfits.suits, hfits.replied, fun outcome => hfits.isOrderly⟩
  · rw [hcounts, hagrees.tallies.started_eq]
    exact List.countP_le_length
  · intro c' accounts' hstep
    exact (hagrees.step hstep).2

end Coordinator

namespace Sample

/-- A coordinator and the accounts of its flows, `n` steps after its first flow was started. -/
def stepped : Nat → Coordinator × List Account
  | 0 => (started, [.opened ["alice"]])
  | n + 1 =>
    let (c, accounts) := stepped n
    match c.run? 0 with
    | none => (c, accounts)
    | some run =>
      match run.activity with
      | .busy ticket (.ask _ q next) =>
        (c.replace 0 { run with
          activity := .busy ticket (next (hosting run.isCancelled q))
          isCancelled := q.flagAfter run.isCancelled }, accounts)
      | _ => (c.replace 0 run.settle, accounts.modify 0 fun account => account.settled run)

theorem reaches_stepped (n : Nat) : coordinator.Reaches (stepped n).1 (stepped n).2 := by
  induction n with
  | zero => exact Coordinator.Reaches.here.step (.started start_coordinator)
  | succ n ih =>
    unfold stepped
    dsimp only
    split
    · exact ih
    next run hrun =>
      split
      next hasked => exact ih.step (.answered _ hrun hasked (admits_answerUnder _ _ _ _ _))
      next => exact ih.step (.settled hrun)

end Sample

open Sample in
/-- A flow whose name is never shown is counted as timed out, and is active still. -/
theorem Coordinator.flows_are_accounted_for_alice : ∃ c accounts account,
    coordinator.Reaches c accounts ∧ accounts = [account] ∧
      account.delivered? = some ⟨.completed lock.identity, some (.timedOut ["alice"])⟩ ∧
      c.tally = ⟨1, 0, 1, 0⟩ ∧ c.runs.countP (fun run => run.outcome.isSome) = 1 ∧
      c.active = 1 ∧ c.runs.countP FlowRun.isLive = 1 := by
  have hcreate : create .default .empty = .ok coordinator := rfl
  obtain ⟨-, hactive, -, -, hcounts, -⟩ :=
    Coordinator.flows_are_accounted_for hcreate (reaches_stepped 40)
  have htally : (stepped 40).1.tally = ⟨1, 0, 1, 0⟩ := by decide +kernel
  have hlive : (stepped 40).1.active = 1 := by decide +kernel
  have hdelivered : (stepped 40).2.map Account.delivered? =
      [some ⟨.completed lock.identity, some (.timedOut ["alice"])⟩] := by decide +kernel
  obtain ⟨account, haccounts, hdelivers⟩ := List.map_eq_singleton_iff.mp hdelivered
  rw [htally] at hcounts
  exact ⟨_, _, account, reaches_stepped 40, haccounts, hdelivers, htally, hcounts.symm, hlive,
    hactive.symm.trans hlive⟩

end Enrolment
