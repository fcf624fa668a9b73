import Enrolment.Proofs.Usernames.Batches

/-!
What holds at every request while a batch is carried out. All that is done for a batch is to move the
claims on its names, to time them out, and to note which name is the primary one. A law that none of
this breaks holds wherever the batch can be given up, and no salt is drawn for it.
-/

namespace Enrolment

namespace UsernameRegistration

variable {inv : UsernameRegistration → Prop} {α : Type} {r : UsernameRegistration} {log : Log}
  {batch names : List String}

/-- Laws that nothing breaks that is done for a batch. -/
structure IsUpheldFor (batch : List String) (inv : UsernameRegistration → Prop) : Prop where
  advanced : ∀ {r : UsernameRegistration} {names : List String} (target : ClaimState)
    (now : Timestamp), names ⊆ batch → inv r → inv (r.advance names target now)
  expired : ∀ {r : UsernameRegistration} (now : Timestamp), inv r → inv (r.expire batch now)
  noted : ∀ {r : UsernameRegistration} (names : List String), inv r → inv (r.notePrimary names)
  settled : ∀ {r : UsernameRegistration}, inv r → inv r.settlePrimary

/-- Work that draws no salt and asks under a law, which it leaves in force. -/
abbrev Upholds (inv : UsernameRegistration → Prop) (log : Log) (t : Task UsernameRegistration α) :
    Prop :=
  t.Meets (fun _ r q => inv r ∧ ∀ label, q ≠ .drawSalt label) (fun _ r _ => inv r) log

theorem inState_subset (r : UsernameRegistration) (batch : List String) (state : ClaimState) :
    r.inState batch state ⊆ batch := List.filter_sublist.subset

theorem upholds_proceedUnlessPaused (h : inv r) : Upholds inv log (proceedUnlessPaused r) := by
  refine Routine.meets_isCancelled ⟨h, nofun⟩ fun set => ?_
  split
  · exact h
  · exact h

theorem upholds_andThen {first second : Work Step} (hfirst : Upholds inv log (first r))
    (hsecond : ∀ log r, inv r → Upholds inv log (second r)) :
    Upholds inv log (Step.andThen first second r) :=
  meets_andThen hfirst (fun _ _ _ h => h) (fun _ _ h => h) hsecond

theorem upholds_watchDocuments {schedule : Schedule} {kind : DocumentKind} {filter : Filter}
    {isComplete : List Document → Bool} (h : inv r) :
    Upholds inv log (watchDocuments schedule kind filter isComplete r) := by
  have hwatch : (watchDocuments schedule kind filter isComplete r).Meets
      (fun _ r q => inv r ∧ ∀ label, q ≠ .drawSalt label)
      (fun later r' ended => r' = r ∧ Log.Lulls log later ∧
        ∀ v : Unit, ended = some (.completed v) → True) log := by
    refine meets_watch (fun _ => ⟨h, nofun⟩) (fun _ _ => ⟨h, nofun⟩) (fun _ _ _ _ => trivial) ?_
    intro number later hlog
    refine Routine.meets_ask ⟨h, nofun⟩ fun answer => ?_
    have hlooked : Log.Lulls log (later ++ [⟨.findDocuments kind filter, answer⟩]) :=
      hlog.snoc ⟨rfl, rfl⟩
    cases answer with
    | ok documents => exact ⟨rfl, hlooked, fun _ _ => trivial⟩
    | error e => exact ⟨rfl, hlooked, fun _ _ => trivial⟩
  refine hwatch.mono ?_
  rintro later r' ended ⟨rfl, -⟩
  exact h

section Moving

variable (hinv : IsUpheldFor batch inv)
include hinv

theorem upholds_timeOut (h : inv r) : Upholds inv log (timeOut batch r) :=
  Routine.meets_ask ⟨h, nofun⟩ fun now => hinv.expired now h

theorem upholds_moveOn (hnames : names ⊆ batch) (target : ClaimState) (h : inv r) :
    Upholds inv log (moveOn names target r) := by
  rw [moveOn_eq]
  refine Routine.meets_ask ⟨h, nofun⟩ fun now => ?_
  obtain ⟨moved, hfirst, hmoved⟩ := exists_advanceInTurn_eq r target now names
  rw [hmoved]
  exact hinv.advanced target now (List.Subset.trans hfirst.subset hnames) h

theorem upholds_awaitPreorders (schedule : Schedule) (h : inv r) :
    Upholds inv log (awaitPreorders schedule batch r) := by
  refine Routine.meets_get (Routine.meets_ite (fun _ => h) fun _ => ?_)
  refine Routine.meets_bind (upholds_watchDocuments h) fun log s ended h => ?_
  match ended with
  | none => exact h
  | some (.completed _) => exact upholds_moveOn hinv (inState_subset ..) _ h
  | some (.timedOut _) => exact upholds_timeOut hinv h

theorem upholds_awaitDomains (schedule : Schedule) (h : inv r) :
    Upholds inv log (awaitDomains schedule batch r) := by
  refine Routine.meets_get (Routine.meets_ite (fun _ => h) fun _ => ?_)
  refine Routine.meets_bind (upholds_watchDocuments h) fun log s ended h => ?_
  match ended with
  | none => exact h
  | some (.completed _) =>
    exact upholds_andThen (upholds_moveOn hinv (inState_subset ..) _ h) fun _ _ h => hinv.settled h
  | some (.timedOut _) => exact upholds_timeOut hinv h

variable [Suite]

theorem upholds_broadcast (operation : Operation) (h : inv r) :
    Upholds inv log (broadcast batch operation r) := by
  refine Routine.meets_ask ⟨h, nofun⟩ fun signed => Routine.meets_get ?_
  refine Routine.meets_bind (meets_submitUntilDecided (fun _ => ⟨h, nofun⟩)
    (fun _ _ => ⟨h, nofun⟩) fun _ _ => ⟨h, nofun⟩) ?_
  rintro later r' ended ⟨rfl, -⟩
  match ended with
  | .accepted receipt => exact h
  | .rejected reason => exact h
  | .exhausted .. => exact upholds_timeOut hinv h
  | .cancelled => exact h

theorem upholds_submitPreorder (h : inv r) : Upholds inv log (submitPreorder batch r) := by
  refine Routine.meets_get (Routine.meets_ite (fun _ => h) fun _ => ?_)
  refine upholds_andThen (upholds_broadcast hinv _ h) fun log s h => ?_
  exact upholds_andThen (upholds_moveOn hinv (inState_subset ..) _ h)
    fun _ _ h => upholds_proceedUnlessPaused h

theorem upholds_submitDomains (h : inv r) : Upholds inv log (submitDomains batch r) := by
  refine Routine.meets_get (Routine.meets_ite (fun _ => h) fun _ => ?_)
  refine upholds_andThen (upholds_broadcast hinv _ h) fun log s h => ?_
  refine upholds_andThen (upholds_moveOn hinv (inState_subset ..) _ h) fun _ _ h => ?_
  exact Routine.meets_modify (upholds_proceedUnlessPaused (hinv.noted _ h))

/-- A batch is carried out under every law that nothing breaks that is done for it. -/
theorem upholds_carryOut (preorder domain : Schedule) (h : inv r) :
    Upholds inv log (carryOut preorder domain batch r) := by
  refine upholds_andThen (upholds_submitPreorder hinv h) fun _ _ h => ?_
  refine upholds_andThen (upholds_awaitPreorders hinv preorder h) fun _ _ h => ?_
  refine upholds_andThen (upholds_submitDomains hinv h) fun _ _ h => ?_
  exact upholds_awaitDomains hinv domain h

end Moving

end UsernameRegistration

end Enrolment
