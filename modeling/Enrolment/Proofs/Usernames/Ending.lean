import Enrolment.Proofs.Usernames.Service

/-!
How calls to register the names of a scene end.

A call goes on from wherever an earlier one was paused, and what it has to wait for decides how it
ends. Nothing but a wait that is too long keeps it from registering all names.
-/

namespace Enrolment

open Simulation

namespace Scene

variable [Suite]

/-- What the platform has accepted of an identity, oldest first. -/
def Accepted (scene : Scene) (operations : List Operation) (p : Platform) : Prop :=
  ∃ ts, p.accepted = scene.before.accepted ++ ts ∧ ts.map Transition.operation = operations

/-- How the names end, with some looks for the preorders and some for the names. -/
def NamesEnd (scene : Scene) (looks looks' : Nat) (preorder domain : Option Nat) (p : Platform)
    (outcome : UsernameOutcome) : Prop :=
  ∃ salt,
    if endsWithin looks preorder then
      ∃ entries, scene.Reveals salt entries ∧
        scene.Accepted [scene.creation, .preorder scene.id (scene.commitments salt),
          .registerDomains scene.id entries] p ∧
        outcome = if endsWithin looks' domain then .completed (scene.names.map scene.report)
          else .timedOut (scene.names.map scene.report)
    else
      scene.Accepted [scene.creation, .preorder scene.id (scene.commitments salt)] p ∧
        outcome = .timedOut (scene.names.map scene.report)

/-- How a batch ends. -/
def BatchEnds (scene : Scene) (looks looks' : Nat) (preorder domain : Option Nat) (flag : Bool)
    (p : Platform) (r : UsernameRegistration) : UsernameRegistration.Step → Prop
  | .proceed => endsWithin looks preorder = true ∧ endsWithin looks' domain = true ∧
    scene.At .registered (some 0) (some 0) r p
  | .paused => flag = true ∧ ∃ passed passed' state,
    scene.At state (waitAfter passed preorder) (waitAfter passed' domain) r p
  | .stop outcome => scene.NamesEnd looks looks' preorder domain p outcome ∧
    outcome.isCompleted = false

/-- A registration that has no claims on the names yet. -/
structure Untouched (scene : Scene) (r : UsernameRegistration) : Prop where
  setup : r.setup = (scene.id, scene.signingKey, scene.settings)
  kept : r.IsKept
  unclaimed : ∀ l ∈ scene.names, r.find? l.fullName = none

/-- A registration that has no claims on the names, and a platform with nothing but the identity. -/
def Unnamed (scene : Scene) (preorder domain : Option Nat) (r : UsernameRegistration) (p : Platform) :
    Prop :=
  scene.Untouched r ∧ preorder = scene.before.behaviour.preorderHidden ∧
    domain = scene.before.behaviour.domainHidden ∧
    ∃ hidden, scene.Shows ⟨some hidden, [], [scene.creation]⟩ p

/-- The names of an identity that is registered, before or after their registration began. -/
def Named (scene : Scene) (preorder domain : Option Nat) (r : UsernameRegistration) (p : Platform) :
    Prop :=
  scene.Unnamed preorder domain r p ∨ ∃ state, scene.At state preorder domain r p

/-- How a call to register the names ends. -/
def CallEnds (scene : Scene) (looks looks' : Nat) (preorder domain : Option Nat) (flag : Bool)
    (p : Platform) (r : UsernameRegistration) : Option UsernameOutcome → Prop
  | none => flag = true ∧ ∃ passed passed' state,
    scene.At state (waitAfter passed preorder) (waitAfter passed' domain) r p
  | some outcome => scene.NamesEnd looks looks' preorder domain p outcome ∧
    (outcome.isCompleted = true → scene.At .registered (some 0) (some 0) r p)

variable {scene : Scene} {r : UsernameRegistration} {p : Platform} {flag : Bool}
  {state : ClaimState} {salt : Label → Salt} {wp wd : Option Nat} {preorder domain : Schedule}

theorem Accepted.map_name {operations : List Operation} (h : scene.Accepted operations p) :
    (p.accepted.map fun t => t.operation.name) =
      (scene.before.accepted.map fun t => t.operation.name) ++ operations.map Operation.name := by
  obtain ⟨ts, haccepted, rfl⟩ := h
  rw [haccepted, List.map_append, List.map_map]
  rfl

/-- When all names are registered, everything was accepted that a batch submits. -/
theorem At.accepted (h : scene.At .registered wp wd r p) : ∃ salt entries,
    scene.Reveals salt entries ∧ scene.Accepted [scene.creation,
      .preorder scene.id (scene.commitments salt), .registerDomains scene.id entries] p := by
  obtain ⟨salt, share, hclaims, hshares, hshows⟩ := h
  cases hshares with
  | @registered hidden made now entries hreveals => exact ⟨salt, entries, hreveals, hshows.accepted⟩

theorem At.namesEnd (h : scene.At .registered (some 0) (some 0) r p) {looks looks' : Nat}
    (hpreorder : endsWithin looks wp = true) (hdomain : endsWithin looks' wd = true) :
    scene.NamesEnd looks looks' wp wd p (.completed (scene.names.map scene.report)) := by
  obtain ⟨salt, entries, hreveals, haccepted⟩ := h.accepted
  refine ⟨salt, ?_⟩
  rw [if_pos hpreorder, if_pos hdomain]
  exact ⟨entries, hreveals, haccepted, rfl⟩

/-- Names complete only if there were looks enough for all that is waited for. -/
theorem NamesEnd.seen {looks looks' : Nat} {outcome : UsernameOutcome}
    (h : scene.NamesEnd looks looks' wp wd p outcome) (hcompleted : outcome.isCompleted = true) :
    endsWithin looks wp = true ∧ endsWithin looks' wd = true := by
  obtain ⟨salt, h⟩ := h
  split at h
  next hseen =>
    obtain ⟨entries, -, -, rfl⟩ := h
    refine ⟨hseen, ?_⟩
    cases hseen' : endsWithin looks' wd with
    | true => rfl
    | false =>
      rw [hseen'] at hcompleted
      cases hcompleted
  next =>
    rw [h.2] at hcompleted
    cases hcompleted

open UsernameRegistration

/-- A batch ends by what is left of the waits for its preorders and for its names. -/
theorem concludes_carryOut (hsome : scene.names ≠ []) (hpreorder : 0 < preorder.attempts.toNat)
    (hdomain : 0 < domain.attempts.toNat) (h : scene.At state wp wd r p) :
    (carryOut preorder domain scene.batch r).Concludes
      (scene.BatchEnds preorder.attempts.toNat domain.attempts.toNat wp wd) flag p := by
  refine concludes_andThen (fun p r => ∃ state, 1 ≤ state.rank ∧ scene.At state wp wd r p)
    ((concludes_submitPreorder hsome h).mono ?_) ?_
  · intro flag p r step hstep
    match step with
    | .proceed => exact hstep
    | .paused =>
      obtain ⟨hset, state, hat⟩ := hstep
      exact ⟨hset, 0, 0, state, by rwa [waitAfter_zero, waitAfter_zero]⟩
    | .stop outcome => exact hstep.elim
  rintro flag p r ⟨state, hrank, hat⟩
  refine concludes_andThen (fun p r => endsWithin preorder.attempts.toNat wp = true ∧
    ∃ state, 2 ≤ state.rank ∧ scene.At state (some 0) wd r p)
    ((concludes_awaitPreorders hsome hpreorder hat hrank).mono ?_) ?_
  · intro flag p r step hstep
    match step with
    | .proceed => exact hstep
    | .paused =>
      obtain ⟨hset, passed, state, hat⟩ := hstep
      exact ⟨hset, passed, 0, state, by rwa [waitAfter_zero]⟩
    | .stop outcome =>
      obtain ⟨hvain, rfl, salt, share, hshows, hoperations⟩ := hstep
      refine ⟨⟨salt, ?_⟩, rfl⟩
      rw [if_neg (by simp [hvain])]
      exact ⟨hoperations ▸ hshows.accepted, rfl⟩
  rintro flag p r ⟨hseen, state, hrank, hat⟩
  obtain ⟨passed, hover⟩ := exists_waitAfter hseen
  refine concludes_andThen (fun p r => ∃ state, 3 ≤ state.rank ∧ scene.At state (some 0) wd r p)
    ((concludes_submitDomains hsome hat hrank).mono ?_) ?_
  · intro flag p r step hstep
    match step with
    | .proceed => exact hstep
    | .paused =>
      obtain ⟨hset, state, hat⟩ := hstep
      exact ⟨hset, passed, 0, state, by rwa [hover, waitAfter_zero]⟩
    | .stop outcome => exact hstep.elim
  rintro flag p r ⟨state, hrank, hat⟩
  refine (concludes_awaitDomains hsome hdomain hat hrank).mono ?_
  intro flag p r step hstep
  match step with
  | .proceed => exact ⟨hseen, hstep⟩
  | .paused =>
    obtain ⟨hset, passed', state, hat⟩ := hstep
    exact ⟨hset, passed, passed', state, by rwa [hover]⟩
  | .stop outcome =>
    obtain ⟨hvain, rfl, salt, entries, share, hreveals, hshows, hoperations⟩ := hstep
    refine ⟨⟨salt, ?_⟩, rfl⟩
    rw [if_pos hseen, if_neg (by simp [hvain])]
    exact ⟨entries, hreveals, hoperations ▸ hshows.accepted, rfl⟩

section Enlisting

/-- Names without claims are all enlisted, each under a salt of its own. -/
theorem concludes_enlist {labels : List Label} (hkept : r.IsKept)
    (hlabels : ∀ l ∈ labels, l.IsReadable) (hnodup : (labels.map Label.fullName).Nodup)
    (hnone : ∀ l ∈ labels, r.find? l.fullName = none) :
    (enlist labels r).Concludes (fun _ p' r' batch => p' = p ∧ batch = labels.map Label.fullName ∧
      r'.setup = r.setup ∧ r'.IsKept ∧
      (∀ name, name ∉ labels.map Label.fullName → r'.find? name = r.find? name) ∧
      ∃ salt : Label → Salt, ∀ l ∈ labels, ∃ c, r'.find? l.fullName = some c ∧
        c.state = .unregistered ∧ c.salt = salt l) flag p := by
  induction labels generalizing r flag with
  | nil => exact ⟨rfl, rfl, rfl, hkept, fun _ _ => rfl, fun _ => ⟨.zero⟩, by simp⟩
  | cons label rest ih =>
    obtain ⟨hfresh, hnodup⟩ := List.nodup_cons.mp hnodup
    have hstate : r.stateOf? label.fullName = none := by
      simp [stateOf?, hnone label List.mem_cons_self]
    apply Routine.concludes_get
    rw [hstate]
    refine Routine.concludes_drawSalt fun flag₁ salt _ => ?_
    refine Routine.concludes_time fun flag₂ now _ => Routine.concludes_modify ?_
    refine Routine.concludes_bind (ih ?_ ?_ hnodup ?_) ?_
    · exact hkept.put (Claim.isOf_fresh (hlabels label List.mem_cons_self) salt)
    · intro l hl
      exact hlabels l (List.mem_cons_of_mem _ hl)
    · intro l hl
      have hne : l.fullName ≠ label.fullName := by
        intro heq
        exact hfresh (heq ▸ List.mem_map_of_mem hl)
      rw [find?_put, if_neg (by simpa [Claim.fresh, Claim.start] using hne)]
      exact hnone l (List.mem_cons_of_mem _ hl)
    rintro flag p' r' batch ⟨rfl, rfl, hsame, hkept', hothers, salts, hsalts⟩
    refine ⟨rfl, rfl, hsame, hkept', ?_, fun l => if l = label then salt else salts l, ?_⟩
    · intro name hname
      simp only [List.map_cons, List.mem_cons, not_or] at hname
      rw [hothers name hname.2, find?_put, if_neg]
      exact hname.1
    · intro l hl
      rcases List.mem_cons.mp hl with rfl | hold
      · rw [hothers _ hfresh, find?_put]
        exact ⟨_, if_pos rfl, rfl, (if_pos rfl).symm⟩
      · have hne : l ≠ label := by
          rintro rfl
          exact hfresh (List.mem_map_of_mem hold)
        obtain ⟨c, hc, hstate, hsalt⟩ := hsalts l hold
        exact ⟨c, hc, hstate, hsalt.trans (if_neg hne).symm⟩

/-- The names of a scene are a batch, under way or about to be, or they are registered. -/
theorem Named.concludes_enlist (h : scene.Named wp wd r p) :
    (enlist scene.names r).Concludes (fun _ p' r' batch =>
      (batch = scene.batch ∧ ∃ state, scene.At state wp wd r' p') ∨
        batch = [] ∧ wp = some 0 ∧ wd = some 0 ∧ scene.At .registered wp wd r' p') flag p := by
  rcases h with ⟨⟨hsetup, hkept, hnone⟩, rfl, rfl, hidden, hshows⟩ | ⟨state, hat⟩
  · refine (Scene.concludes_enlist hkept scene.isReadable scene.nodup hnone).mono ?_
    rintro flag p' r' batch ⟨rfl, rfl, hsame, hkept', -, salt, hsalts⟩
    have hclaims : scene.Claims .unregistered salt r' := ⟨hsame.trans hsetup, hkept', hsalts⟩
    exact .inl ⟨rfl, .unregistered, salt, _, hclaims, .enlisted hidden, hshows⟩
  · obtain ⟨salt, share, hclaims, hshares, hshows⟩ := hat
    have hopen : state ≠ .timedOut := by
      cases hshares <;> decide
    have hstate : ∀ l ∈ scene.names, r.stateOf? l.fullName = some state := by
      intro l hl
      obtain ⟨c, hc, hstate, -⟩ := hclaims.held l hl
      exact stateOf?_eq_some.mpr ⟨c, hc, hstate⟩
    rw [enlist_eq hopen hstate]
    by_cases hregistered : state = .registered
    · subst hregistered
      cases hshares with
      | registered hidden made now hreveals =>
        exact .inr ⟨rfl, rfl, rfl, salt, _, hclaims, .registered hidden made now hreveals, hshows⟩
    · rw [if_neg hregistered]
      exact .inl ⟨rfl, state, salt, share, hclaims, hshares, hshows⟩

end Enlisting

theorem Named.setup (h : scene.Named wp wd r p) :
    r.setup = (scene.id, scene.signingKey, scene.settings) := by
  rcases h with ⟨huntouched, -⟩ | ⟨state, salt, share, hclaims, -⟩
  · exact huntouched.setup
  · exact hclaims.setup

theorem Named.settings (h : scene.Named wp wd r p) : r.settings = scene.settings :=
  congrArg (fun setup => setup.2.2) h.setup

/-- No name of a scene has timed out, so that the platform is not asked for any. -/
theorem Named.any_timedOut (h : scene.Named wp wd r p) :
    (scene.names.any fun l => r.stateOf? l.fullName = some .timedOut) = false := by
  apply List.any_eq_false.mpr
  intro l hl htimedOut
  rcases h with ⟨huntouched, -⟩ | ⟨state, salt, share, hclaims, hshares, -⟩
  · simp [stateOf?, huntouched.unclaimed l hl] at htimedOut
  · obtain ⟨c, hc, hstate, -⟩ := hclaims.held l hl
    have heq : state = .timedOut := by
      simpa [stateOf?, hc, hstate] using htimedOut
    subst heq
    cases hshares

/-- A call that registers the names ends by what is left of the waits for them. -/
theorem Named.concludes_registerLabels (hsome : scene.names ≠ [])
    (hpreorder : 0 < preorder.attempts.toNat) (hdomain : 0 < domain.attempts.toNat)
    (h : scene.Named wp wd r p) :
    (UsernameRegistration.registerLabels preorder domain scene.names r).Concludes
      (scene.CallEnds preorder.attempts.toNat domain.attempts.toNat wp wd) flag p := by
  apply Routine.concludes_get
  rw [reportName_eq h.settings, h.any_timedOut]
  refine Routine.concludes_bind h.concludes_enlist ?_
  rintro flag p r batch (⟨rfl, state, hat⟩ | ⟨rfl, rfl, rfl, hat⟩)
  · refine Routine.concludes_ite (fun hempty => ?_) fun _ => ?_
    · exact absurd (List.map_eq_nil_iff.mp (List.isEmpty_iff.mp hempty)) hsome
    refine Routine.concludes_bind (concludes_carryOut hsome hpreorder hdomain hat) ?_
    intro flag p r step hstep
    match step with
    | .proceed =>
      obtain ⟨hseen, hseen', hregistered⟩ := hstep
      exact ⟨hregistered.namesEnd hseen hseen', fun _ => hregistered⟩
    | .paused => exact hstep
    | .stop outcome =>
      refine ⟨hstep.1, ?_⟩
      intro hcompleted
      rw [hstep.2] at hcompleted
      cases hcompleted
  · have hseen : endsWithin preorder.attempts.toNat (some 0) = true := by
      simpa [endsWithin] using hpreorder
    have hseen' : endsWithin domain.attempts.toNat (some 0) = true := by
      simpa [endsWithin] using hdomain
    exact ⟨hat.namesEnd hseen hseen', fun _ => hat⟩

theorem Named.readBatch_eq (h : scene.Named wp wd r p) (hpreorder : preorder.validate = .ok ())
    (hdomain : domain.validate = .ok ()) :
    r.readBatch preorder domain scene.requests = .ok scene.names := by
  unfold readBatch readRequests
  rw [hpreorder, hdomain, h.settings, scene.read]
  rfl

/-- A call for the names that are asked for is a call for the names of the scene. -/
theorem Named.concludes_register (hsome : scene.names ≠ []) {schedule? : Option Schedule}
    (hvalid : ∀ schedule ∈ schedule?, schedule.validate = .ok ()) (h : scene.Named wp wd r p) :
    (UsernameRegistration.register schedule? scene.requests r).Concludes (fun flag p r result =>
      ∃ outcome, result = .ok outcome ∧
        scene.CallEnds (schedule?.getD scene.settings.preorder).attempts.toNat
          (schedule?.getD scene.settings.domain).attempts.toNat wp wd flag p r outcome) flag p := by
  obtain ⟨-, -, hpreorder, hdomain⟩ := Settings.validate_schedules scene.valid
  have hpreorder := Schedule.validate_getD hpreorder hvalid
  have hdomain := Schedule.validate_getD hdomain hvalid
  unfold UsernameRegistration.register
  apply Routine.concludes_get
  rw [h.settings]
  unfold registerOn
  apply Routine.concludes_get
  rw [h.readBatch_eq hpreorder hdomain]
  refine Routine.concludes_bind
    (h.concludes_registerLabels hsome (Schedule.attempts_pos hpreorder)
      (Schedule.attempts_pos hdomain)) ?_
  intro flag p r outcome hends
  exact ⟨outcome, rfl, hends⟩

end Scene

end Enrolment
