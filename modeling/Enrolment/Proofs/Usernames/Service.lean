import Enrolment.Proofs.Identity.Service

/-!
How the registration of names ends on a platform that has nothing of them.

The names of a scene go through their stages together, and the platform's share goes with them. At each
stage only one thing is waited for: that the preorders, or that the names, can be seen. The wait decides
how a call ends, unless it is paused, and then the next call goes on with what is left of the wait.
-/

namespace Enrolment

open Simulation

namespace Scene

variable [Suite]

def batch (scene : Scene) : List String := scene.names.map Label.fullName

/-- What the names are committed to with. -/
def commitments (scene : Scene) (salt : Label → Salt) : List Digest :=
  scene.names.map fun l => commitment (salt l) l scene.id

/-- Entries that reveal the names and what they were committed to with. -/
def Reveals (scene : Scene) (salt : Label → Salt) (entries : List DomainEntry) : Prop :=
  entries.map (fun e => (e.normalized, e.parent, e.salt)) =
    scene.names.map fun l => (l.normalized, l.parent, salt l)

/-- How a name is reported. -/
def report (scene : Scene) (l : Label) : String :=
  if Label.lower l.parent.toList = Label.lower scene.settings.parent.toList then l.normalized
  else l.fullName

/-- A registration with claims on all names, in one state and under certain salts. -/
structure Claims (scene : Scene) (state : ClaimState) (salt : Label → Salt)
    (r : UsernameRegistration) : Prop where
  setup : r.setup = (scene.id, scene.signingKey, scene.settings)
  kept : r.IsKept
  held : ∀ l ∈ scene.names, ∃ c, r.find? l.fullName = some c ∧ c.state = state ∧ c.salt = salt l

/-- What the platform has of an identity whose names are in a state, and what is left to wait for until
the preorders and the names can be seen. -/
inductive Shares (scene : Scene) (salt : Label → Salt) :
    ClaimState → Option Nat → Option Nat → Share → Prop where
  | enlisted (hidden : Option Nat) :
      Shares scene salt .unregistered scene.before.behaviour.preorderHidden
        scene.before.behaviour.domainHidden ⟨some hidden, [], [scene.creation]⟩
  | preordered (hidden : Option Nat) (made : Timestamp) (wait : Option Nat) :
      Shares scene salt .preorderSubmitted wait scene.before.behaviour.domainHidden
        ⟨some hidden, scene.preorders made (scene.commitments salt) wait,
          [scene.creation, .preorder scene.id (scene.commitments salt)]⟩
  | confirmed (hidden : Option Nat) (made : Timestamp) :
      Shares scene salt .preorderConfirmed (some 0) scene.before.behaviour.domainHidden
        ⟨some hidden, scene.preorders made (scene.commitments salt) (some 0),
          [scene.creation, .preorder scene.id (scene.commitments salt)]⟩
  | revealed (hidden : Option Nat) (made now : Timestamp) {entries : List DomainEntry}
      (wait : Option Nat) (hreveals : scene.Reveals salt entries) :
      Shares scene salt .domainSubmitted (some 0) wait
        ⟨some hidden, scene.preorders made (scene.commitments salt) (some 0) ++
            scene.domains now entries wait,
          [scene.creation, .preorder scene.id (scene.commitments salt),
            .registerDomains scene.id entries]⟩
  | registered (hidden : Option Nat) (made now : Timestamp) {entries : List DomainEntry}
      (hreveals : scene.Reveals salt entries) :
      Shares scene salt .registered (some 0) (some 0)
        ⟨some hidden, scene.preorders made (scene.commitments salt) (some 0) ++
            scene.domains now entries (some 0),
          [scene.creation, .preorder scene.id (scene.commitments salt),
            .registerDomains scene.id entries]⟩

/-- The names are in a state, and the platform has its share of them. -/
def At (scene : Scene) (state : ClaimState) (preorder domain : Option Nat)
    (r : UsernameRegistration) (p : Platform) : Prop :=
  ∃ salt share, scene.Claims state salt r ∧ scene.Shares salt state preorder domain share ∧
    scene.Shows share p

/-- How a step ends that submits something for names which are not at a certain rank yet. -/
def Submitted (scene : Scene) (least : Nat) (preorder domain : Option Nat) (flag : Bool)
    (p : Platform) (r : UsernameRegistration) : UsernameRegistration.Step → Prop
  | .proceed => ∃ state, least ≤ state.rank ∧ scene.At state preorder domain r p
  | .paused => flag = true ∧ ∃ state, scene.At state preorder domain r p
  | .stop _ => False

/-- How the step ends that has some looks for the preorders. -/
def PreordersAwaited (scene : Scene) (looks : Nat) (preorder domain : Option Nat) (flag : Bool)
    (p : Platform) (r : UsernameRegistration) : UsernameRegistration.Step → Prop
  | .proceed => endsWithin looks preorder = true ∧
    ∃ state, 2 ≤ state.rank ∧ scene.At state (some 0) domain r p
  | .paused => flag = true ∧ ∃ passed state, scene.At state (waitAfter passed preorder) domain r p
  | .stop outcome => endsWithin looks preorder = false ∧
    outcome = .timedOut (scene.names.map scene.report) ∧ ∃ salt share, scene.Shows share p ∧
      share.operations = [scene.creation, .preorder scene.id (scene.commitments salt)]

/-- How the step ends that has some looks for the names. -/
def NamesAwaited (scene : Scene) (looks : Nat) (domain : Option Nat) (flag : Bool) (p : Platform)
    (r : UsernameRegistration) : UsernameRegistration.Step → Prop
  | .proceed => endsWithin looks domain = true ∧ scene.At .registered (some 0) (some 0) r p
  | .paused => flag = true ∧ ∃ passed state, scene.At state (some 0) (waitAfter passed domain) r p
  | .stop outcome => endsWithin looks domain = false ∧
    outcome = .timedOut (scene.names.map scene.report) ∧
    ∃ salt entries share, scene.Reveals salt entries ∧ scene.Shows share p ∧
      share.operations = [scene.creation, .preorder scene.id (scene.commitments salt),
        .registerDomains scene.id entries]

variable {scene : Scene} {r r' : UsernameRegistration} {p : Platform} {flag : Bool}
  {state target : ClaimState} {salt : Label → Salt} {wp wd : Option Nat} {schedule : Schedule}

theorem nodup_batch (scene : Scene) : scene.batch.Nodup := scene.nodup

theorem Claims.owner (h : scene.Claims state salt r) : r.owner = scene.id :=
  congrArg Prod.fst h.setup

theorem Claims.key (h : scene.Claims state salt r) : r.key = scene.signingKey :=
  congrArg (fun setup => setup.2.1) h.setup

theorem Claims.settings (h : scene.Claims state salt r) : r.settings = scene.settings :=
  congrArg (fun setup => setup.2.2) h.setup

theorem reportName_eq (h : r.settings = scene.settings) : r.reportName = scene.report := by
  funext l
  unfold UsernameRegistration.reportName report
  rw [h]

theorem Claims.stateOf?_eq (h : scene.Claims state salt r) :
    ∀ name ∈ scene.batch, r.stateOf? name = some state := by
  intro name hname
  obtain ⟨l, hl, rfl⟩ := List.mem_map.mp hname
  obtain ⟨c, hc, hstate, -⟩ := h.held l hl
  exact UsernameRegistration.stateOf?_eq_some.mpr ⟨c, hc, hstate⟩

/-- All names are in the state of the claims, or none is. -/
theorem Claims.inState (h : scene.Claims state salt r) (other : ClaimState) :
    r.inState scene.batch other = if state = other then scene.batch else [] := by
  have hstate := h.stateOf?_eq
  unfold UsernameRegistration.inState
  split
  next heq =>
    apply List.filter_eq_self.mpr
    intro name hname
    simp [hstate name hname, heq]
  next hne =>
    apply List.filter_eq_nil_iff.mpr
    intro name hname
    simp [hstate name hname, hne]

/-- What the claims have in common with the names is read off them one by one. -/
theorem Claims.map_claimsOn {α : Type} {f : Claim → α} {g : Label → α}
    (h : scene.Claims state salt r)
    (hread : ∀ l c, c.label.normalized = l.normalized → c.label.parent = l.parent →
      c.label.fullName = l.fullName → c.salt = salt l → c.state = state →
      c.commitment = commitment (salt l) l scene.id → f c = g l) :
    (r.claimsOn scene.batch).map f = scene.names.map g := by
  have hfrom (labels : List Label) (hlabels : labels ⊆ scene.names) :
      (r.claimsOn (labels.map Label.fullName)).map f = labels.map g := by
    induction labels with
    | nil => rfl
    | cons l rest ih =>
      obtain ⟨hl, hrest⟩ := List.cons_subset.mp hlabels
      obtain ⟨c, hc, hstate, hsalt⟩ := h.held l hl
      have hof := h.kept _ _ hc
      obtain ⟨hnormalized, hparent⟩ :=
        Label.fullName_inj hof.readable (scene.isReadable l hl) hof.named
      have hcommitted : c.commitment = commitment (salt l) l scene.id := by
        rw [hof.committed, hsalt, h.owner, commitment_congr hof.named]
      have hhead := hread l c hnormalized hparent hof.named hsalt hstate hcommitted
      have htail := ih hrest
      simp only [UsernameRegistration.claimsOn] at htail ⊢
      simp only [List.map_cons, List.filterMap_cons_some hc, hhead, htail]
  exact hfrom scene.names (List.Subset.refl _)

theorem Claims.commitments_eq (h : scene.Claims state salt r) :
    (r.claimsOn scene.batch).map Claim.commitment = scene.commitments salt :=
  h.map_claimsOn fun _ _ _ _ _ _ _ hcommitted => hcommitted

theorem Claims.reveals (h : scene.Claims state salt r) :
    scene.Reveals salt (r.entries (r.claimsOn scene.batch)) := by
  unfold Reveals
  rw [r.map_entries (r.claimsOn scene.batch)
    (g := fun c => (c.label.normalized, c.label.parent, c.salt)) fun _ _ => rfl]
  exact h.map_claimsOn fun l c hnormalized hparent _ hsalt _ _ => by
    rw [hnormalized, hparent, hsalt]

theorem Claims.of_find? (h : scene.Claims state salt r) (hfind : ∀ name, r'.find? name = r.find? name)
    (hsetup : r'.setup = r.setup) : scene.Claims state salt r' := by
  refine ⟨hsetup.trans h.setup, h.kept.of_find? hfind hsetup, ?_⟩
  intro l hl
  rw [hfind]
  exact h.held l hl

theorem Claims.advance (h : scene.Claims state salt r) (hnext : state.next? = some target)
    (now : Timestamp) : scene.Claims target salt (r.advance scene.batch target now) := by
  refine ⟨h.setup, h.kept.advance scene.nodup_batch target now, ?_⟩
  intro l hl
  obtain ⟨c, hc, hstate, hsalt⟩ := h.held l hl
  have hmember : l.fullName ∈ scene.batch := List.mem_map_of_mem hl
  refine ⟨c.enter target now, ?_, rfl, hsalt⟩
  rw [UsernameRegistration.find?_advance scene.nodup_batch, if_pos hmember, hc,
    ← Claim.moved_of_next? (hstate ▸ hnext)]
  rfl

theorem Reveals.exists_label {entries : List DomainEntry} (h : scene.Reveals salt entries)
    {e : DomainEntry} (he : e ∈ entries) :
    ∃ l ∈ scene.names, e.normalized = l.normalized ∧ e.parent = l.parent ∧ e.salt = salt l := by
  have hmember : (e.normalized, e.parent, e.salt) ∈
      scene.names.map fun l => (l.normalized, l.parent, salt l) := by
    rw [← h]
    exact List.mem_map_of_mem he
  obtain ⟨l, hl, heq⟩ := List.mem_map.mp hmember
  simp only [Prod.mk.injEq] at heq
  exact ⟨l, hl, heq.1.symm, heq.2.1.symm, heq.2.2.symm⟩

theorem Reveals.named {entries : List DomainEntry} (h : scene.Reveals salt entries) :
    ∀ e ∈ entries, ∃ l ∈ scene.names, e.normalized = l.normalized ∧ e.parent = l.parent := by
  intro e he
  obtain ⟨l, hl, hnormalized, hparent, -⟩ := h.exists_label he
  exact ⟨l, hl, hnormalized, hparent⟩

/-- What is revealed was committed to. -/
theorem Reveals.committed {entries : List DomainEntry} (h : scene.Reveals salt entries) :
    ∀ e ∈ entries, commitment e.salt e.toLabel scene.id ∈ scene.commitments salt := by
  intro e he
  obtain ⟨l, hl, hnormalized, hparent, hsalt⟩ := h.exists_label he
  refine List.mem_map.mpr ⟨l, hl, ?_⟩
  rw [hsalt]
  apply commitment_congr
  simp [DomainEntry.toLabel, Label.fullName, hnormalized, hparent]

theorem Reveals.ne_nil {entries : List DomainEntry} (h : scene.Reveals salt entries)
    (hsome : scene.names ≠ []) : entries ≠ [] := by
  rintro rfl
  exact hsome (List.map_eq_nil_iff.mp h.symm)

section Steps

open UsernameRegistration

theorem concludes_moveOn (h : scene.Claims state salt r) (hnext : state.next? = some target) :
    (moveOn scene.batch target r).Concludes
      (fun _ p' r' step => step = .proceed ∧ p' = p ∧ scene.Claims target salt r') flag p := by
  rw [moveOn_eq]
  refine Routine.concludes_time fun _ now _ => ?_
  rw [advanceInTurn_eq scene.nodup_batch h.stateOf?_eq hnext]
  exact ⟨rfl, rfl, h.advance hnext now⟩

theorem concludes_proceedUnlessPaused :
    (proceedUnlessPaused r).Concludes (fun flag p' r' step => p' = p ∧ r' = r ∧
      match step with
      | .proceed => True
      | .paused => flag = true
      | .stop _ => False) flag p := by
  refine Routine.concludes_isCancelled fun read _ => ?_
  split
  next hset => exact ⟨rfl, rfl, hset⟩
  · exact ⟨rfl, rfl, trivial⟩

/-- A timeout reports all names, unless they are registered. -/
theorem concludes_timeOut (h : scene.Claims state salt r) (hopen : state ≠ .registered) :
    (timeOut scene.batch r).Concludes
      (fun _ p' _ step => p' = p ∧ step = .stop (.timedOut (scene.names.map scene.report)))
      flag p := by
  refine Routine.concludes_time fun _ now _ => ?_
  refine ⟨rfl, ?_⟩
  have hall : r.unfinished scene.batch = r.claimsOn scene.batch := by
    apply List.filter_eq_self.mpr
    intro c member
    obtain ⟨name, hname, hfound⟩ := mem_claimsOn.mp member
    obtain ⟨l, hl, rfl⟩ := List.mem_map.mp hname
    obtain ⟨c', hc', hstate, -⟩ := h.held l hl
    obtain rfl : c' = c := Option.some.inj (hc'.symm.trans hfound)
    simpa [hstate] using hopen
  rw [hall, reportName_eq h.settings]
  congr 2
  refine h.map_claimsOn fun l c hnormalized hparent hname _ _ _ => ?_
  unfold report
  rw [hnormalized, hparent, hname]

/-- What is submitted for the names is accepted in the end, unless the flag is set. -/
theorem concludes_broadcast {operation : Operation} {share : Share} {added : Timestamp → Share}
    (h : scene.Claims state salt r) (hshows : scene.Shows share p)
    (hcheck : ∀ now, p.check (.sign operation now scene.signingKey) = .ok ())
    (hadds : ∀ signed p now, scene.Shows share p →
      scene.Shows (added signed) (p.apply (.sign operation signed scene.signingKey) now)) :
    (broadcast scene.batch operation r).Concludes (fun flag p' r' step => r' = r ∧
      match step with
      | .proceed => ∃ signed, scene.Shows (added signed) p'
      | .paused => flag = true ∧ scene.Shows share p'
      | .stop _ => False) flag p := by
  refine Routine.concludes_time fun flag' signed _ => Routine.concludes_get ?_
  rw [h.settings, h.key]
  refine Routine.concludes_bind (hshows.concludes_submit (hcheck signed) (hadds signed)) ?_
  rintro flag p' r' ended ⟨rfl, hended⟩
  match ended with
  | .accepted receipt => exact ⟨rfl, signed, hended⟩
  | .cancelled => exact ⟨rfl, hended⟩
  | .rejected reason => exact hended.elim
  | .exhausted .. => exact hended.elim

theorem concludes_andThen {first second : Work Step} (mid : Platform → UsernameRegistration → Prop)
    {post : Bool → Platform → UsernameRegistration → Step → Prop}
    (hfirst : (first r).Concludes (fun flag p r step =>
      match step with
      | .proceed => mid p r
      | step => post flag p r step) flag p)
    (hsecond : ∀ flag p r, mid p r → (second r).Concludes post flag p) :
    (Step.andThen first second r).Concludes post flag p := by
  refine Routine.concludes_bind hfirst ?_
  intro flag p r step hstep
  match step with
  | .proceed => exact hsecond flag p r hstep
  | .stop outcome => exact hstep
  | .paused => exact hstep

/-- What is offered to be preordered is accepted in the end, unless the flag is set. -/
theorem concludes_submitPreorder (hsome : scene.names ≠ []) (h : scene.At state wp wd r p) :
    (submitPreorder scene.batch r).Concludes (scene.Submitted 1 wp wd) flag p := by
  obtain ⟨salt, share, hclaims, hshares, hshows⟩ := h
  have hpasses (hstate : state ≠ .unregistered) (hrank : 1 ≤ state.rank) :
      (submitPreorder scene.batch r).Concludes (scene.Submitted 1 wp wd) flag p := by
    apply Routine.concludes_get
    rw [hclaims.inState, if_neg hstate]
    exact ⟨state, hrank, salt, share, hclaims, hshares, hshows⟩
  cases hshares with
  | enlisted hidden =>
    apply Routine.concludes_get
    rw [hclaims.inState, if_pos rfl, hclaims.commitments_eq, hclaims.owner]
    refine Routine.concludes_ite (fun hnone => ?_) fun _ => ?_
    · exact absurd (List.map_eq_nil_iff.mp (List.isEmpty_iff.mp hnone)) hsome
    refine concludes_andThen (fun p r' => r' = r ∧ ∃ made, scene.Shows ⟨some hidden,
      scene.preorders made (scene.commitments salt) scene.before.behaviour.preorderHidden,
      [scene.creation, .preorder scene.id (scene.commitments salt)]⟩ p) ?_ ?_
    · have hcommitments : scene.commitments salt ≠ [] := by simpa [commitments] using hsome
      refine (concludes_broadcast hclaims hshows (check_preorder hcommitments)
        fun signed p now hshows => hshows.apply_preorder _ _ signed now).mono ?_
      rintro flag p' r' step ⟨rfl, hstep⟩
      match step with
      | .proceed => exact ⟨rfl, hstep⟩
      | .paused =>
        exact ⟨hstep.1, .unregistered, salt, _, hclaims, .enlisted hidden, hstep.2⟩
      | .stop outcome => exact hstep
    · rintro flag p r' ⟨rfl, made, hshows⟩
      refine Routine.concludes_bind (concludes_moveOn hclaims rfl) ?_
      rintro flag p' r' step ⟨rfl, rfl, hmoved⟩
      apply concludes_proceedUnlessPaused.mono
      rintro flag p' r'' step ⟨rfl, rfl, hstep⟩
      have hat : scene.At .preorderSubmitted scene.before.behaviour.preorderHidden
          scene.before.behaviour.domainHidden r'' p' :=
        ⟨salt, _, hmoved, .preordered hidden made _, hshows⟩
      match step with
      | .proceed => exact ⟨_, by decide, hat⟩
      | .paused => exact ⟨hstep, _, hat⟩
      | .stop outcome => exact hstep
  | preordered => exact hpasses (by decide) (by decide)
  | confirmed => exact hpasses (by decide) (by decide)
  | revealed => exact hpasses (by decide) (by decide)
  | registered => exact hpasses (by decide) (by decide)

/-- A watch for documents ends by the number of looks that they are hidden from. -/
theorem concludes_watchDocuments {kind : DocumentKind} {filter : Filter}
    {isComplete : List Document → Bool} (awaits : Option Nat → Platform → Prop) {wait : Option Nat}
    (hlook : ∀ wait p, awaits wait p → ∃ seen p', p.findDocuments kind filter = (.ok seen, p') ∧
      awaits (waitAfter 1 wait) p' ∧ (isComplete seen = true ↔ wait = some 0))
    (h : awaits wait p) :
    (watchDocuments schedule kind filter isComplete r).Concludes
      (fun flag p' r' ended => r' = r ∧ ∃ passed, awaits (waitAfter passed wait) p' ∧
        WatchEnds schedule.attempts.toNat passed wait flag ended) flag p := by
  unfold watchDocuments
  refine concludes_watch awaits ?_ h
  intro number wait flag p hawaits
  obtain ⟨seen, p', hfound, hlater, hseen⟩ := hlook wait p hawaits
  refine Routine.concludes_findDocuments fun flag' _ => ?_
  rw [hfound]
  refine ⟨rfl, hlater, ?_⟩
  cases hcomplete : isComplete seen with
  | true => simpa [hcomplete] using hseen
  | false => simpa [hcomplete] using hseen

/-- The watch for the preorders ends by what is left of their wait. -/
theorem concludes_awaitPreorders (hsome : scene.names ≠ []) (hattempts : 0 < schedule.attempts.toNat)
    (h : scene.At state wp wd r p) (hrank : 1 ≤ state.rank) :
    (awaitPreorders schedule scene.batch r).Concludes
      (scene.PreordersAwaited schedule.attempts.toNat wp wd) flag p := by
  obtain ⟨salt, share, hclaims, hshares, hshows⟩ := h
  have hover : endsWithin schedule.attempts.toNat (some 0) = true := by
    simpa [endsWithin] using hattempts
  have hpasses (hstate : state ≠ .preorderSubmitted) (hwait : wp = some 0) (hrank : 2 ≤ state.rank) :
      (awaitPreorders schedule scene.batch r).Concludes
        (scene.PreordersAwaited schedule.attempts.toNat wp wd) flag p := by
    subst hwait
    apply Routine.concludes_get
    rw [hclaims.inState, if_neg hstate]
    exact ⟨hover, state, hrank, salt, share, hclaims, hshares, hshows⟩
  cases hshares with
  | enlisted => exact absurd hrank (by decide)
  | preordered hidden made wait =>
    apply Routine.concludes_get
    rw [hclaims.inState, if_pos rfl, hclaims.commitments_eq, hclaims.owner]
    refine Routine.concludes_ite (fun hnone => ?_) fun _ => ?_
    · exact absurd (List.map_eq_nil_iff.mp (List.isEmpty_iff.mp hnone)) hsome
    have hcommitments : scene.commitments salt ≠ [] := by simpa [commitments] using hsome
    refine Routine.concludes_bind (concludes_watchDocuments
      (fun wait p => scene.Shows ⟨some hidden,
        scene.preorders made (scene.commitments salt) wait,
        [scene.creation, .preorder scene.id (scene.commitments salt)]⟩ p)
      (fun wait p hshows => hshows.findPreorders hcommitments) hshows) ?_
    rintro flag p' r' ended ⟨rfl, passed, hlater, hended⟩
    rcases ended with _ | ⟨_ | _⟩
    · exact ⟨hended, passed, _, salt, _, hclaims, .preordered hidden made _, hlater⟩
    · refine (concludes_moveOn hclaims rfl).mono ?_
      rintro flag p'' r'' step ⟨rfl, rfl, hmoved⟩
      rw [hended.2] at hlater
      exact ⟨hended.1, _, by decide, salt, _, hmoved, .confirmed hidden made, hlater⟩
    · refine (concludes_timeOut hclaims (by decide)).mono ?_
      rintro flag p'' r'' step ⟨rfl, rfl⟩
      exact ⟨hended, rfl, salt, _, hlater, rfl⟩
  | confirmed => exact hpasses (by decide) rfl (by decide)
  | revealed => exact hpasses (by decide) rfl (by decide)
  | registered => exact hpasses (by decide) rfl (by decide)

/-- What reveals the names is accepted in the end, unless the flag is set. -/
theorem concludes_submitDomains (hsome : scene.names ≠ []) (h : scene.At state (some 0) wd r p)
    (hrank : 2 ≤ state.rank) :
    (submitDomains scene.batch r).Concludes (scene.Submitted 3 (some 0) wd) flag p := by
  obtain ⟨salt, share, hclaims, hshares, hshows⟩ := h
  have hpasses (hstate : state ≠ .preorderConfirmed) (hrank : 3 ≤ state.rank) :
      (submitDomains scene.batch r).Concludes (scene.Submitted 3 (some 0) wd) flag p := by
    apply Routine.concludes_get
    rw [hclaims.inState, if_neg hstate]
    exact ⟨state, hrank, salt, share, hclaims, hshares, hshows⟩
  generalize hwait : some 0 = wait at hshares
  cases hshares with
  | enlisted => exact absurd hrank (by decide)
  | preordered => exact absurd hrank (by decide)
  | confirmed hidden made =>
    apply Routine.concludes_get
    rw [hclaims.inState, if_pos rfl, hclaims.owner]
    refine Routine.concludes_ite (fun hnone => ?_) fun _ => ?_
    · exact absurd (List.map_eq_nil_iff.mp (List.isEmpty_iff.mp hnone)) hsome
    have hreveals := hclaims.reveals
    generalize r.entries (r.claimsOn scene.batch) = entries at hreveals
    refine concludes_andThen (fun p r' => r' = r ∧ ∃ now, scene.Shows ⟨some hidden,
      scene.preorders made (scene.commitments salt) (some 0) ++
        scene.domains now entries scene.before.behaviour.domainHidden,
      [scene.creation, .preorder scene.id (scene.commitments salt),
        .registerDomains scene.id entries]⟩ p) ?_ ?_
    · refine (concludes_broadcast hclaims hshows
        (hshows.check_domains hreveals.named hreveals.committed)
        fun signed p now hshows => hshows.apply_domains entries _ signed now).mono ?_
      rintro flag p' r' step ⟨rfl, hstep⟩
      match step with
      | .proceed => exact ⟨rfl, hstep⟩
      | .paused => exact ⟨hstep.1, _, salt, _, hclaims, .confirmed hidden made, hstep.2⟩
      | .stop outcome => exact hstep
    · rintro flag p r' ⟨rfl, now, hshows⟩
      refine Routine.concludes_bind (concludes_moveOn hclaims rfl) ?_
      rintro flag p' r' step ⟨rfl, rfl, hmoved⟩
      refine Routine.concludes_modify (concludes_proceedUnlessPaused.mono ?_)
      rintro flag p' r'' step ⟨rfl, rfl, hstep⟩
      have hnoted := hmoved.of_find? (fun _ => find?_notePrimary _) (setup_notePrimary scene.batch)
      have hat : scene.At .domainSubmitted (some 0) scene.before.behaviour.domainHidden _ p' :=
        ⟨salt, _, hnoted, .revealed hidden made now _ hreveals, hshows⟩
      match step with
      | .proceed => exact ⟨_, by decide, hat⟩
      | .paused => exact ⟨hstep, _, hat⟩
      | .stop outcome => exact hstep
  | revealed => exact hpasses (by decide) (by decide)
  | registered => exact hpasses (by decide) (by decide)

/-- The watch for the names ends by what is left of their wait. -/
theorem concludes_awaitDomains (hsome : scene.names ≠ []) (hattempts : 0 < schedule.attempts.toNat)
    (h : scene.At state (some 0) wd r p) (hrank : 3 ≤ state.rank) :
    (awaitDomains schedule scene.batch r).Concludes
      (scene.NamesAwaited schedule.attempts.toNat wd) flag p := by
  obtain ⟨salt, share, hclaims, hshares, hshows⟩ := h
  have hover : endsWithin schedule.attempts.toNat (some 0) = true := by
    simpa [endsWithin] using hattempts
  generalize hwait : some 0 = wait at hshares
  cases hshares with
  | enlisted => exact absurd hrank (by decide)
  | preordered => exact absurd hrank (by decide)
  | confirmed => exact absurd hrank (by decide)
  | @revealed hidden made now entries wait hreveals =>
    apply Routine.concludes_get
    rw [hclaims.inState, if_pos rfl, hclaims.owner]
    refine Routine.concludes_ite (fun hnone => ?_) fun _ => ?_
    · exact absurd (List.map_eq_nil_iff.mp (List.isEmpty_iff.mp hnone)) hsome
    -- what is watched for are the names that were revealed
    have hwanted : (r.claimsOn scene.batch).map (fun c => (c.label.normalized, c.label.parent)) =
        entries.map fun e => (e.normalized, e.parent) := by
      have hrevealed := congrArg (List.map fun x => (x.1, x.2.1)) hreveals
      simp only [List.map_map] at hrevealed
      refine (hclaims.map_claimsOn (g := fun l => (l.normalized, l.parent)) ?_).trans hrevealed.symm
      intro l c hnormalized hparent _ _ _ _
      rw [hnormalized, hparent]
    rw [hwanted]
    refine Routine.concludes_bind (concludes_watchDocuments
      (fun wait p => scene.Shows ⟨some hidden, scene.preorders made (scene.commitments salt) (some 0) ++
        scene.domains now entries wait, [scene.creation, .preorder scene.id (scene.commitments salt),
          .registerDomains scene.id entries]⟩ p)
      (fun wait p hshows => hshows.findDomains (hreveals.ne_nil hsome)) hshows) ?_
    rintro flag p' r' ended ⟨rfl, passed, hlater, hended⟩
    rcases ended with _ | ⟨_ | _⟩
    · exact ⟨hended, passed, _, salt, _, hclaims, .revealed hidden made now _ hreveals, hlater⟩
    · refine Routine.concludes_bind (concludes_moveOn hclaims rfl) ?_
      rintro flag p'' r'' step ⟨rfl, rfl, hmoved⟩
      rw [hended.2] at hlater
      have hsettled := hmoved.of_find? (fun _ => find?_settlePrimary) setup_settlePrimary
      exact ⟨hended.1, salt, _, hsettled, .registered hidden made now hreveals, hlater⟩
    · refine (concludes_timeOut hclaims (by decide)).mono ?_
      rintro flag p'' r'' step ⟨rfl, rfl⟩
      exact ⟨hended, rfl, salt, entries, _, hreveals, hlater, rfl⟩
  | @registered hidden made now entries hreveals =>
    have hopen : ClaimState.registered ≠ .domainSubmitted := by decide
    apply Routine.concludes_get
    rw [hclaims.inState, if_neg hopen]
    exact ⟨hover, salt, _, hclaims, .registered hidden made now hreveals, hshows⟩

end Steps

end Scene

end Enrolment
