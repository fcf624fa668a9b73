import Enrolment.Proofs.Usernames.Primary
import Enrolment.Proofs.Usernames.Requests

/-!
What is scheduled while registrations are paused. Nothing is submitted and nothing watched for from the
moment that the flag is set, and what was being submitted then is on record when the call returns, if it
was accepted.
-/

namespace Enrolment

namespace Task

variable {σ α : Type} {flag last made : Bool} {t t' : Task σ α} {es : Log} {s : σ} {q : Request}

/-- Some work comes to make a request, after some exchanges. The flag is taken as it is when a request is
made; others may change it before a request that is waited for is answered. -/
inductive Makes : Bool → Task σ α → Log → Bool → σ → Request → Prop where
  | now {flag : Bool} {s : σ} {q : Request} {next : q.Answer → Task σ α} :
      Makes flag (.ask s q next) [] flag s q
  | later {flag made : Bool} {s s' : σ} {q q' : Request} {next : q.Answer → Task σ α} {es : Log}
      (current : Bool) (answer : q.Answer) (hchanged : current ≠ flag → q.isWaitedFor)
      (hadmits : q.Admits current answer)
      (rest : Makes (q.flagAfter current) (next answer) es made s' q') :
      Makes flag (.ask s q next) (⟨q, answer⟩ :: es) made s' q'

theorem Passes.reaches (h : Passes flag t es last t') : Reaches t es t' := by
  induction h with
  | here => exact .here _
  | changed _ _ _ ih => exact ih
  | answered answer _ _ ih => exact .answered answer ih

/-- Work that heeds the flag makes every request under its guard. -/
theorem Heeds.makes {guard : Bool → Log → σ → Request → Prop} {post : Bool → Log → σ → α → Prop}
    {log : Log} (h : t.Heeds (fun q => q.isWaitedFor) guard post flag log)
    (hmakes : Makes flag t es made s q) : guard made (log ++ es) s q := by
  induction hmakes generalizing log with
  | now =>
    rw [List.append_nil]
    exact h.1
  | later current answer hchanged hadmits _ ih =>
    have hrest := ih (h.2 current answer hchanged hadmits)
    rwa [List.append_assoc, List.singleton_append] at hrest

/-- Work makes the requests that it reaches under answers that a flag admits. -/
theorem Reaches.makes {next : q.Answer → Task σ α} (h : Reaches t es (.ask s q next))
    (hadmissible : Log.Admissible flag es) : Makes flag t es (es.flagAfter flag) s q := by
  generalize hlast : ask s q next = last at h
  induction h generalizing flag with
  | here =>
    subst hlast
    exact .now
  | answered answer rest ih =>
    obtain _ | ⟨hadmits, hes⟩ := hadmissible
    exact .later flag answer (fun hne => absurd rfl hne) hadmits (ih hes hlast)

end Task

namespace IdentityRegistration

/-- The platform is asked while the flag is not set, except for whether the identity exists already. -/
def Asks (flag : Bool) (_ : Log) (r : IdentityRegistration) (q : Request) : Prop :=
  q.isScheduled → flag = false ∨ r.phase = .fundingConfirmed ∧ q = .findIdentity r.id

/-- A call from which nothing comes leaves the registration in a phase to go on from. -/
def StaysOpen (_ : Bool) (_ : Log) (r : IdentityRegistration) (outcome : Option IdentityOutcome) :
    Prop :=
  outcome = none → r.phase.isFinal = false

variable {alters : Request → Prop} {r : IdentityRegistration} {flag : Bool} {log : Log}

theorem asks_awaitNetwork {schedule : Schedule} (hattempts : schedule.attempts ≠ 0)
    (hphase : r.phase = .awaitingNetwork) :
    (awaitNetwork schedule r).Heeds alters Asks StaysOpen flag log := by
  refine Routine.heeds_get (Routine.heeds_bind (heeds_watch hattempts (fun _ _ => nofun)
    (fun _ _ _ => nofun) ?_) ?_)
  · intro number log
    refine Routine.heeds_ask (fun _ => .inl rfl) fun new answer _ _ => ?_
    match answer with
    | .ok (some identity) => rfl
    | .ok none => rfl
    | .error e => rfl
  rintro flag later r' ended ⟨rfl, -⟩
  match ended with
  | none =>
    intro _
    rw [hphase]
    rfl
  | some (.completed identity) => exact Routine.heeds_ask nofun fun new now _ _ => nofun
  | some (.timedOut looks) => exact nofun

variable [Suite]

theorem asks_submitCreate {schedule : Schedule} (hattempts : schedule.attempts ≠ 0)
    (hphase : r.phase = .submitting) :
    (submitCreate schedule r).Heeds alters Asks StaysOpen flag log := by
  refine Routine.heeds_get (Routine.heeds_ite (fun _ => nofun) fun _ => ?_)
  refine Routine.heeds_ask nofun fun new signed _ _ => ?_
  refine Routine.heeds_bind (heeds_submitUntilDecided (fun _ _ => nofun) (fun _ _ _ => nofun)
    fun _ _ => .inl rfl) ?_
  rintro flag later r' ended ⟨rfl, -⟩
  match ended with
  | .accepted receipt =>
    refine Routine.heeds_modify (Routine.heeds_isCancelled nofun fun read => ?_)
    exact Routine.heeds_ite (fun _ _ => rfl) fun _ => asks_awaitNetwork hattempts rfl
  | .rejected reason => exact nofun
  | .exhausted .. => exact nofun
  | .cancelled =>
    intro _
    rw [hphase]
    rfl

theorem asks_checkExisting {schedule : Schedule} (hattempts : schedule.attempts ≠ 0)
    (hphase : r.phase = .fundingConfirmed) :
    (checkExisting schedule r).Heeds alters Asks StaysOpen flag log := by
  refine Routine.heeds_get (Routine.heeds_ask (fun _ => .inr ⟨hphase, rfl⟩) fun new answer _ _ => ?_)
  match answer with
  | .ok (some identity) => exact Routine.heeds_ask nofun fun new now _ _ => nofun
  | .ok none => exact asks_submitCreate hattempts rfl
  | .error e => exact asks_submitCreate hattempts rfl

theorem asks_awaitFunding {schedule : Schedule} (hattempts : schedule.attempts ≠ 0)
    (hphase : r.phase = .awaitingFunding) :
    (awaitFunding schedule r).Heeds alters Asks StaysOpen flag log := by
  refine Routine.heeds_get (Routine.heeds_ask nofun fun new answer _ _ => ?_)
  match answer with
  | none =>
    intro _
    rw [hphase]
    rfl
  | some (.error e) => exact nofun
  | some (.ok depth) => exact asks_checkExisting hattempts rfl

/-- A call asks the platform for nothing while the flag is set but whether the identity exists. -/
theorem asks_register (schedule : Schedule) :
    (register schedule r).Heeds alters Asks StaysOpen flag log := by
  unfold register
  cases hvalid : schedule.validate with
  | error e => exact nofun
  | ok u =>
    have hattempts := Schedule.attempts_ne_zero hvalid
    apply Routine.heeds_get
    cases hphase : r.phase with
    | awaitingFunding => exact asks_awaitFunding hattempts hphase
    | fundingConfirmed => exact asks_checkExisting hattempts hphase
    | submitting => exact asks_submitCreate hattempts hphase
    | awaitingNetwork => exact asks_awaitNetwork hattempts hphase
    | registered => simp [finalOutcome, hphase, StaysOpen, pure, Task.Heeds]
    | timedOut => simp [finalOutcome, hphase, StaysOpen, pure, Task.Heeds]
    | failed => simp [finalOutcome, hphase, StaysOpen, pure, Task.Heeds]

/-- The phases that an accepted transition leads to. -/
def IsCreated (r : IdentityRegistration) : Prop :=
  r.phase = .awaitingNetwork ∨ r.phase = .registered ∨ r.phase = .timedOut

theorem Course.isCreated {start : IdentityRegistration} (h : Course start log r) {t : Transition}
    (ht : t ∈ log.accepted) (hcreation : t.operation.isCreation) : r.IsCreated := by
  -- from the phases that an acceptance leads to there is no way but to the final ones among them
  induction h with
  | begun => cases ht
  | @idle log r e _ he ih =>
    rw [Log.accepted_append] at ht
    rcases List.mem_append.mp ht with hold | hnew
    · exact ih hold
    · obtain ⟨e', hmem, haccepted⟩ := List.mem_filterMap.mp hnew
      obtain rfl := List.mem_singleton.mp hmem
      rw [he t haccepted] at hcreation
      cases hcreation
  | funded _ _ hphase _ ih => simpa [IsCreated, hphase] using ih ht
  | unseen _ hphase _ _ ih => simpa [IsCreated, hphase] using ih ht
  | seen => exact .inr (.inl rfl)
  | accepted => exact .inl rfl
  | refused _ _ hphase ih => simpa [IsCreated, hphase] using ih ht
  | expired => exact .inr (.inr rfl)

/-- What a call has accepted is on record if nothing comes of the call. -/
theorem accepted_on_record {schedule : Schedule} {last : Bool} {es : Log}
    {r' : IdentityRegistration} (hrun : Task.Passes flag (register schedule r) es last (.done r' none))
    {t : Transition} (ht : t ∈ Log.accepted es) : r'.phase = .awaitingNetwork := by
  have hbegun : Course r [] r := .begun
  have hmeets := meets_register schedule hbegun
  have hcreation : t.operation.isCreation := by
    obtain ⟨e, he, haccepted⟩ := List.mem_filterMap.mp ht
    obtain ⟨before, after, rfl⟩ := List.append_of_mem he
    obtain ⟨s, hpermits⟩ := hmeets.at_request hrun.reaches
    rw [Exchange.request_of_accepted? haccepted] at hpermits
    obtain ⟨-, -, -, signed, rfl⟩ := hpermits
    rfl
  obtain ⟨hcourse, -⟩ := hmeets.reaches hrun.reaches
  have hstays : (Task.done r' none).Stands Asks StaysOpen last ([] ++ es) :=
    (asks_register schedule).stands hrun
  have hopen : r'.phase.isFinal = false := hstays rfl
  rcases hcourse.isCreated ht hcreation with hphase | hphase | hphase
  · exact hphase
  · simp [hphase, IdentityPhase.isFinal] at hopen
  · simp [hphase, IdentityPhase.isFinal] at hopen

end IdentityRegistration

namespace UsernameRegistration

/-- What an accepted operation was about is on record, in claims that are on their way. -/
def Records (r : UsernameRegistration) : Operation → Prop
  | .createIdentity .. => False
  | .preorder _ commitments => ∀ d ∈ commitments, ∃ name c, r.find? name = some c ∧
      c.commitment = d ∧ .preorderSubmitted ∈ c.history ∧ c.state.isFinal = false
  | .registerDomains _ domains => ∀ e ∈ domains, ∃ name c, r.find? name = some c ∧
      c.label = e.toLabel ∧ c.salt = e.salt ∧ c.state = .domainSubmitted

variable {r r' : UsernameRegistration} {log later : Log} {batch : List String} {stage : Stage}
  {step : Step}

theorem Stage.find?_shift (stage : Stage) (hbatch : batch.Nodup) (now : Timestamp) {name : String}
    {c : Claim} (hc : r.find? name = some c) :
    (stage.shift batch now r).find? name =
      some (if name ∈ r.inState batch stage.source then c.enter stage.target now else c) := by
  unfold shift
  rw [stage.find?_finish, find?_advance (nodup_inState hbatch stage.source), hc]
  split
  next hname =>
    obtain ⟨c', hc', hsource⟩ := stateOf?_eq_some.mp (mem_inState.mp hname).2
    obtain rfl : c' = c := Option.some.inj (hc'.symm.trans hc)
    rw [Option.map_some, Claim.moved_of_next? (hsource ▸ stage.next)]
  next => rfl

/-- What is on record stays so while claims move on. -/
theorem Records.shift {o : Operation} (h : r.Records o) (hbatch : batch.Nodup) (now : Timestamp)
    (hopen : stage.target.isFinal = false) : (stage.shift batch now r).Records o := by
  cases o with
  | createIdentity => exact h
  | preorder owner commitments =>
    intro d hd
    obtain ⟨name, c, hc, hcommitment, hhistory, hstate⟩ := h d hd
    refine ⟨name, _, stage.find?_shift hbatch now hc, ?_⟩
    split
    · refine ⟨hcommitment, ?_, hopen⟩
      rw [Claim.history_enter]
      exact List.mem_append_left _ hhistory
    · exact ⟨hcommitment, hhistory, hstate⟩
  | registerDomains owner domains =>
    intro e he
    obtain ⟨name, c, hc, hlabel, hsalt, hstate⟩ := h e he
    have hout : name ∉ r.inState batch stage.source := by
      intro hmem
      have hsource := (mem_inState.mp hmem).2
      rw [stateOf?, hc, Option.map_some, hstate] at hsource
      have hnext := stage.next
      rw [← Option.some.inj hsource] at hnext
      rw [← Option.some.inj hnext] at hopen
      cases hopen
    refine ⟨name, c, ?_, hlabel, hsalt, hstate⟩
    rw [stage.find?_shift hbatch now hc, if_neg hout]

theorem records_preorder [Suite] (hbatch : batch.Nodup) (now : Timestamp) :
    (Stage.preordering.shift batch now r).Records
      (r.preorderOf (r.inState batch Stage.preordering.source)) := by
  intro d hd
  obtain ⟨c, hclaim, rfl⟩ := List.mem_map.mp hd
  obtain ⟨name, hname, hc⟩ := mem_claimsOn.mp hclaim
  refine ⟨name, _, Stage.preordering.find?_shift hbatch now hc, ?_⟩
  rw [if_pos hname]
  exact ⟨rfl, by simp [Stage.preordering], rfl⟩

theorem records_reveal [Suite] (hbatch : batch.Nodup) (now : Timestamp) :
    (Stage.revealing.shift batch now r).Records
      (r.revealOf (r.inState batch Stage.revealing.source)) := by
  intro e he
  obtain ⟨c, hclaim, hlabel, hsalt⟩ := mem_entries he
  obtain ⟨name, hname, hc⟩ := mem_claimsOn.mp hclaim
  refine ⟨name, _, Stage.revealing.find?_shift hbatch now hc, ?_⟩
  rw [if_pos hname]
  exact ⟨hlabel.symm, hsalt.symm, rfl⟩

/-- Everything that was accepted is on record. -/
def HasRecorded (r : UsernameRegistration) (log : Log) : Prop := ∀ o ∈ log.operations, r.Records o

theorem HasRecorded.ends (h : r.HasRecorded log) (hbatch : batch.Nodup)
    (hend : stage.Ends batch log r later r' step)
    (hnew : ∀ now, ∀ o ∈ stage.operation? r (r.inState batch stage.source),
      (stage.shift batch now r).Records o)
    (hgoes : step = .paused ∨ step = .proceed ∧ stage.target.isFinal = false) :
    r'.HasRecorded later := by
  intro o ho
  rcases hend.moved_or_kept_or_expired with
    ⟨now, rfl, -, hstep, hlog⟩ | ⟨hlog, ⟨rfl, -⟩ | ⟨now, late, -, rfl⟩⟩
  · have hopen : stage.target.isFinal = false := by
      rcases hgoes with rfl | ⟨-, hopen⟩
      · rcases hstep with hproceed | ⟨-, hopen⟩
        · cases hproceed
        · exact hopen
      · exact hopen
    rw [hlog] at ho
    rcases List.mem_append.mp ho with hold | hadded
    · exact (h o hold).shift hbatch now hopen
    · exact hnew now o (Option.mem_toList.mp hadded)
  · exact h o (hlog ▸ ho)
  · simp at hgoes

/-- A batch that is paused has on record what was accepted. -/
theorem Carried.hasRecorded [Suite] (h : Carried batch stages log r later r' .paused)
    (hbatch : batch.Nodup) (hbefore : r.HasRecorded log) : r'.HasRecorded later := by
  have hpreorders (r : UsernameRegistration) (now : Timestamp) : ∀ o ∈ Stage.preordering.operation? r
      (r.inState batch Stage.preordering.source), (Stage.preordering.shift batch now r).Records o := by
    rintro o ⟨⟩
    exact records_preorder hbatch now
  have hreveals (r : UsernameRegistration) (now : Timestamp) : ∀ o ∈ Stage.revealing.operation? r
      (r.inState batch Stage.revealing.source), (Stage.revealing.shift batch now r).Records o := by
    rintro o ⟨⟩
    exact records_reveal hbatch now
  cases h with
  | stopped h₁ => exact hbefore.ends hbatch h₁ (hpreorders _) (.inl rfl)
  | passed h₁ h =>
  have hrecorded₁ := hbefore.ends hbatch h₁ (hpreorders _) (.inr ⟨rfl, rfl⟩)
  cases h with
  | stopped h₂ => exact hrecorded₁.ends hbatch h₂ (by rintro now o ⟨⟩) (.inl rfl)
  | passed h₂ h =>
  have hrecorded₂ := hrecorded₁.ends hbatch h₂ (by rintro now o ⟨⟩) (.inr ⟨rfl, rfl⟩)
  cases h with
  | stopped h₃ => exact hrecorded₂.ends hbatch h₃ (hreveals _) (.inl rfl)
  | passed h₃ h =>
  have hrecorded₃ := hrecorded₂.ends hbatch h₃ (hreveals _) (.inr ⟨rfl, rfl⟩)
  exact hrecorded₃.ends hbatch h.ends (by rintro now o ⟨⟩) (.inl rfl)

/-- What a call has accepted is on record if nothing comes of the call. -/
theorem accepted_on_record [Suite] {schedule? : Option Schedule} {requests : List String} {es : Log}
    (hrun : Task.Reaches (register schedule? requests r) es (.done r' (.ok none))) :
    r'.HasRecorded es := by
  have hbegun : Course r [] r := .begun
  obtain ⟨-, hanswers⟩ := (meets_register schedule? requests hbegun).reaches hrun
  unfold Answers at hanswers
  split at hanswers
  · obtain ⟨⟨⟩, -⟩ := hanswers
  next labels hread =>
    obtain ⟨outcome, hnone, hregisters⟩ := hanswers
    obtain rfl : none = outcome := Except.ok.inj hnone
    obtain ⟨-, hnodup⟩ := readBatch_eq_ok hread
    generalize hstep : (none : Option UsernameOutcome) = ended at hregisters
    cases hregisters with
    | @intro found formedLog _ looked formed _ batch step hlooked _ _ henlisted _ _ hcarried =>
      have hpaused : step = .paused := by
        cases step with
        | paused => rfl
        | _ => cases hstep
      subst hpaused
      have hbatch : batch.Nodup := henlisted.nodup hnodup
      have hspares : Log.Spares [] formedLog := hlooked.spares.trans henlisted.spares
      have hnothing : formed.HasRecorded formedLog := by
        intro o ho
        rw [hspares.operations] at ho
        cases ho
      exact hcarried.hasRecorded hbatch hnothing

end UsernameRegistration

/-- Nothing begins while the flag is set. What is submitted or watched for is asked for under a flag that
is not set; the only other questions are whether the identity exists already, and which names are
listed, with which a call begins. What was accepted in a call from which nothing comes is on record by
then. -/
theorem nothing_begins_while_paused [Suite] {flag : Bool} {es : Log} :
    (∀ (r s : IdentityRegistration) (schedule : Schedule) (made : Bool) (q : Request),
      Task.Makes flag (r.register schedule) es made s q → q.isScheduled →
        made = false ∨ s.phase = .fundingConfirmed ∧ q = .findIdentity s.id) ∧
    (∀ (r s : UsernameRegistration) (schedule? : Option Schedule) (requests : List String)
      (made : Bool) (q : Request),
      Task.Makes flag (r.register schedule? requests) es made s q → q.isScheduled →
        made = false ∨ es = [] ∧ q = .findDocuments .domain (.ownedBy s.owner)) ∧
    (∀ (r s : UsernameRegistration) (made : Bool) (q : Request),
      Task.Makes flag r.recover es made s q → q.isScheduled →
        made = false ∨ es = [] ∧ q = .findDocuments .domain (.ownedBy s.owner)) ∧
    (∀ (r r' : IdentityRegistration) (schedule : Schedule) (last : Bool),
      Task.Passes flag (r.register schedule) es last (.done r' none) →
        Log.accepted es ≠ [] → r'.phase = .awaitingNetwork) ∧
    ∀ (r r' : UsernameRegistration) (schedule? : Option Schedule) (requests : List String)
      (last : Bool), Task.Passes flag (r.register schedule? requests) es last (.done r' (.ok none)) →
        r'.HasRecorded es := by
  have hlaw (r : UsernameRegistration) :
      UsernameRegistration.IsKeptFrom (fun _ _ => True) [] r :=
    ⟨fun _ => ⟨fun _ _ _ _ _ => trivial, fun _ _ _ _ => trivial, fun _ _ => trivial,
      fun _ _ _ => trivial⟩, fun _ _ => trivial, trivial, fun _ _ => trivial⟩
  refine ⟨?_, ?_, ?_, ?_, ?_⟩
  · intro r s schedule made q hmakes
    have hasks : IdentityRegistration.Asks made ([] ++ es) s q :=
      (IdentityRegistration.asks_register schedule).makes hmakes
    exact hasks
  · intro r s schedule? requests made q hmakes
    obtain ⟨-, hasks⟩ := (UsernameRegistration.asks_register schedule? requests (hlaw r)).makes hmakes
    exact hasks
  · intro r s made q hmakes
    obtain ⟨-, hasks⟩ := (UsernameRegistration.asks_recover (hlaw r)).makes hmakes
    exact hasks
  · intro r r' schedule last hrun haccepted
    obtain ⟨t, rest, heq⟩ := List.exists_cons_of_ne_nil haccepted
    exact IdentityRegistration.accepted_on_record hrun (heq ▸ List.mem_cons_self)
  · intro r r' schedule? requests last hrun
    exact UsernameRegistration.accepted_on_record hrun.reaches

namespace Sample

/-- What work comes to under a flag that is set while some requests are waited for. -/
def playUnder {σ α : Type} (answers : Bool → (q : Request) → q.Answer) (sets : Request → Bool) :
    Bool → Task σ α → Log × Bool × σ × α
  | flag, .done s a => ([], flag, s, a)
  | flag, .ask _ q next =>
    let flag := flag || sets q
    let (es, ended) := playUnder answers sets (q.flagAfter flag) (next (answers flag q))
    (⟨q, answers flag q⟩ :: es, ended)

theorem passes_playUnder {σ α : Type} {answers : Bool → (q : Request) → q.Answer}
    {sets : Request → Bool} (hadmits : ∀ (flag : Bool) (q : Request), q.Admits flag (answers flag q))
    (hsets : ∀ q, sets q → q.isWaitedFor) (flag : Bool) (t : Task σ α) :
    Task.Passes flag t (playUnder answers sets flag t).1 (playUnder answers sets flag t).2.1
      (.done (playUnder answers sets flag t).2.2.1 (playUnder answers sets flag t).2.2.2) := by
  induction t generalizing flag with
  | done s a => exact .here _ _
  | ask s q next ih =>
    have hanswered := Task.Passes.answered (s := s) _ (hadmits (flag || sets q) q) (ih _ _)
    cases hset : sets q with
    | true => exact .changed _ (hsets q hset) hanswered
    | false =>
      rw [hset, Bool.or_false] at hanswered
      simpa only [playUnder, hset, Bool.or_false] using hanswered

/-- What is answered if every submission is accepted and every preorder shown, and no name. -/
def granting (flag : Bool) (q : Request) : q.Answer :=
  answerUnder flag q (oracle (.ok ⟨.zero⟩) none (unnamed identity) [] q)

theorem admits_granting (flag : Bool) (q : Request) : q.Admits flag (granting flag q) :=
  admits_answerUnder _ _ _ flag q

def isReveal : Request → Bool
  | .submit t => t.operation.name = "domain_register"
  | _ => false

/-- A call for a name, paused while the name is being revealed. -/
def revealed (r : UsernameRegistration) (request : String) :
    Log × Bool × UsernameRegistration × Except RegistrationError (Option UsernameOutcome) :=
  playUnder granting isReveal false (UsernameRegistration.register none [request] r)

theorem passes_revealed (r : UsernameRegistration) (request : String) :
    Task.Passes false (UsernameRegistration.register none [request] r) (revealed r request).1
      (revealed r request).2.1
      (.done (revealed r request).2.2.1 (revealed r request).2.2.2) := by
  refine passes_playUnder admits_granting ?_ _ _
  intro q hreveals
  cases q with
  | submit t => rfl
  | _ => cases hreveals

end Sample

open Sample in
/-- A call that nothing disturbs submits under a flag that is not set. A call that is paused while it
reveals a name has its preorder and the name on record. -/
theorem nothing_begins_while_paused_bob :
    (∃ es s t made, Task.Makes false (UsernameRegistration.register none ["alice"] registration) es
      made s (.submit t) ∧ made = false) ∧
    ∃ es r, Task.Passes false (UsernameRegistration.register none ["Bob"] registration) es true
        (.done r (.ok none)) ∧
      (Log.operations es).map Operation.name = ["preorder", "domain_register"] ∧
      ∀ o ∈ Log.operations es, r.Records o := by
  constructor
  · have hnames : (Log.submitted registered.1).map (fun t => t.operation.name) =
        ["preorder", "domain_register"] := by decide +kernel
    obtain ⟨t, ht, -⟩ : ∃ t ∈ Log.submitted registered.1, t.operation.name = "preorder" := by
      apply List.mem_map.mp
      rw [hnames]
      simp
    obtain ⟨before, answer, after, hlog⟩ := Log.split_of_submitted ht
    have hrun := reaches_registered
    have hadmissible : Log.Admissible false registered.1 := by
      unfold registered
      exact admissible_play (admits_oracle _ _ _) _ _
    rw [hlog] at hrun hadmissible
    obtain ⟨s, next, hbefore, -⟩ := hrun.split
    have hmakes := hbefore.makes hadmissible.of_append
    refine ⟨before, s, t, _, hmakes, ?_⟩
    rcases nothing_begins_while_paused.2.1 _ _ _ _ _ _ hmakes rfl with hclear | ⟨-, hquery⟩
    · exact hclear
    · cases hquery
  · have hset : (revealed registration "Bob").2.1 = true := by decide +kernel
    have hnone : (revealed registration "Bob").2.2.2 = .ok none := by decide +kernel
    have hrun := passes_revealed registration "Bob"
    rw [hset, hnone] at hrun
    refine ⟨_, _, hrun, ?_, nothing_begins_while_paused.2.2.2.2 _ _ _ _ _ hrun⟩
    decide +kernel

end Enrolment
