import Enrolment.Proofs.Identity.Calls
import Enrolment.Proofs.Platform.Acts

/-!
Retrying the registration of an identity on a platform that refuses nothing by script.

The platform takes one creation of an identity and refuses every other. A registration that starts over
looks for its identity first, but a look that fails or comes too early shows nothing, and then the
creation is submitted once more. This is the only way in which a call can fail.
-/

namespace Enrolment

open Simulation

namespace Simulation

/-- An act that neither creates an identity nor scripts a refusal. -/
def Act.Spares (id : IdentityId) : Act → Prop
  | .refuseNext _ => False
  | .insertIdentity identity => identity.id ≠ id
  | .submit t _ => ∀ lock keys, t.operation ≠ .createIdentity id lock keys
  | _ => True

namespace Platform

variable {p p' : Platform} {id : IdentityId}

theorem contains_seeIdentity (p : Platform) (id id' : IdentityId) :
    (p.seeIdentity id').2.identities.contains id = p.identities.contains id ∧
      (p.seeIdentity id').2.refusals = p.refusals := by
  unfold seeIdentity
  cases hfound : p.identities.find? id' with
  | none => exact ⟨rfl, rfl⟩
  | some h =>
    refine ⟨?_, rfl⟩
    by_cases hsame : id = id'
    · simp [Table.contains, hsame, hfound]
    · simp [hsame]

theorem contains_findIdentity (p : Platform) (id id' : IdentityId) :
    (p.findIdentity id').2.identities.contains id = p.identities.contains id ∧
      (p.findIdentity id').2.refusals = p.refusals := by
  unfold findIdentity query
  dsimp only
  split
  · exact ⟨rfl, rfl⟩
  · exact contains_seeIdentity _ id id'

theorem contains_findDocuments (p : Platform) (id : IdentityId) (kind : DocumentKind)
    (filter : Filter) :
    (p.findDocuments kind filter).2.identities.contains id = p.identities.contains id ∧
      (p.findDocuments kind filter).2.refusals = p.refusals := by
  unfold findDocuments query
  cases p.failing with
  | succ n => exact ⟨rfl, rfl⟩
  | zero => exact ⟨rfl, rfl⟩

variable [Suite]

theorem contains_apply (p : Platform) (t : Transition) (now : Timestamp)
    (hother : ∀ lock keys, t.operation ≠ .createIdentity id lock keys) :
    (p.apply t now).identities.contains id = p.identities.contains id := by
  unfold apply
  cases hoperation : t.operation with
  | createIdentity id' lock keys =>
    have hne : id ≠ id' := by
      rintro rfl
      exact hother lock keys hoperation
    simp [hne]
  | preorder owner commitments => rfl
  | registerDomains owner domains => rfl

/-- What spares an identity leaves it as it is, and scripts no refusals. -/
theorem spared_after {act : Act} (hact : act.Spares id) (hclear : p.refusals = []) :
    (p.after act).identities.contains id = p.identities.contains id ∧
      (p.after act).refusals = [] := by
  cases act with
  | refuseNext refusals => exact hact.elim
  | releaseIdentities => exact ⟨Table.contains_map .., hclear⟩
  | insertIdentity identity =>
    have hne : id ≠ identity.id := fun heq => hact heq.symm
    refine ⟨?_, hclear⟩
    simp [after, insertIdentity, hne]
  | submit t now =>
    rw [after, submit_of_clear hclear]
    split
    · exact ⟨rfl, hclear⟩
    · exact ⟨contains_apply _ t now hact, hclear⟩
  | findIdentity id' =>
    obtain ⟨hsame, hrefusals⟩ := p.contains_findIdentity id id'
    exact ⟨hsame, hrefusals.trans hclear⟩
  | findDocuments kind filter =>
    obtain ⟨hsame, hrefusals⟩ := p.contains_findDocuments id kind filter
    exact ⟨hsame, hrefusals.trans hclear⟩
  | _ => exact ⟨rfl, hclear⟩

/-- The creation of an identity is taken once. -/
theorem submit_creation (hclear : p.refusals = []) {key : SecretKey} (hkey : key.IsSound)
    {lock : CreditLock} (hburns : key.publicKey = lock.burnKey) (keys : List PublicKey)
    (signed now : Timestamp) :
    let answered := p.submit (.sign (.createIdentity lock.identity lock keys) signed key) now
    answered.2.identities.contains lock.identity = true ∧ answered.2.refusals = [] ∧
      if p.identities.contains lock.identity then
        answered.1 =
          .error (.invalid ("identity " ++ lock.identity.toBase58 ++ " already exists"))
      else ∃ receipt, answered.1 = .ok receipt := by
  have hcheck : p.check (.sign (.createIdentity lock.identity lock keys) signed key) =
      if p.identities.contains lock.identity then
        .error ("identity " ++ lock.identity.toBase58 ++ " already exists")
      else .ok () := by
    rw [p.check_sign hkey]
    simp only [checkOperation, hburns]
    rw [if_neg (by simp), if_neg (by simp)]
  dsimp only
  rw [submit_of_clear hclear, hcheck]
  cases hknown : p.identities.contains lock.identity with
  | true => exact ⟨hknown, hclear, rfl⟩
  | false =>
    refine ⟨?_, hclear, _, rfl⟩
    simp [apply, Transition.sign]

end Platform

end Simulation

namespace IdentityRegistration

/-- In these phases no creation was accepted since the registration started. -/
def isUncreated : IdentityPhase → Bool
  | .awaitingFunding | .fundingConfirmed | .submitting | .failed => true
  | _ => false

/-- A look for the identity of a registration did not show it. -/
def LookedInVain (id : IdentityId) (log : Log) : Prop :=
  ∃ answer, ⟨.findIdentity id, answer⟩ ∈ log ∧ ∀ identity, answer ≠ .ok (some identity)

theorem LookedInVain.extend {id : IdentityId} {log later : Log} (h : LookedInVain id log)
    (hlog : log <+: later) : LookedInVain id later := by
  obtain ⟨answer, hmem, hanswer⟩ := h
  exact ⟨answer, hlog.subset hmem, hanswer⟩

/-- What the exchanges of a registration and its platform have in common when nothing else is done for
the identity: the creation is taken once, and that it was is said to every other one. -/
structure Knows (id : IdentityId) (log : Log) (p : Platform) : Prop where
  clear : p.refusals = []
  once : log.accepted.length = if p.identities.contains id then 1 else 0
  creations : ∀ t ∈ log.accepted, t.operation.isCreation = true
  refused : ∀ t reason, ⟨.submit t, .error (.invalid reason)⟩ ∈ log →
    reason = "identity " ++ id.toBase58 ++ " already exists" ∧ log.accepted ≠ []
  learnt : ∀ transaction depth e, ⟨.awaitDepth transaction depth, some (.error e)⟩ ∉ log

/-- An exchange adds what it says itself. -/
theorem Knows.snoc {id : IdentityId} {log : Log} {p p' : Platform} (h : Knows id log p)
    {e : Exchange} (hclear : p'.refusals = [])
    (honce : (Log.accepted (log ++ [e])).length = if p'.identities.contains id then 1 else 0)
    (hcreation : ∀ t, e.accepted? = some t → t.operation.isCreation = true)
    (hrefused : ∀ t reason, e = ⟨.submit t, .error (.invalid reason)⟩ →
      reason = "identity " ++ id.toBase58 ++ " already exists" ∧ log.accepted ≠ [])
    (hlearnt : ∀ transaction depth error,
      e ≠ ⟨.awaitDepth transaction depth, some (.error error)⟩) : Knows id (log ++ [e]) p' := by
  refine ⟨hclear, honce, ?_, ?_, ?_⟩
  · intro t hmem
    rw [Log.accepted_append] at hmem
    rcases List.mem_append.mp hmem with hold | hnew
    · exact h.creations t hold
    · obtain ⟨e', he', haccepted⟩ := List.mem_filterMap.mp hnew
      obtain rfl := List.mem_singleton.mp he'
      exact hcreation t haccepted
  · intro t reason hmem
    have hreason : reason = "identity " ++ id.toBase58 ++ " already exists" ∧ log.accepted ≠ [] := by
      rcases List.mem_append.mp hmem with hold | hnew
      · exact h.refused t reason hold
      · exact hrefused t reason (List.mem_singleton.mp hnew).symm
    refine ⟨hreason.1, ?_⟩
    rw [Log.accepted_append]
    exact List.append_ne_nil_of_left_ne_nil hreason.2 _
  · intro transaction depth error hmem
    rcases List.mem_append.mp hmem with hold | hnew
    · exact h.learnt transaction depth error hold
    · exact hlearnt transaction depth error (List.mem_singleton.mp hnew).symm

variable [Suite] {start opening first r r' : IdentityRegistration} {log es : Log}
  {p p' p₀ : Platform} {others : Act → Prop} {schedule? : Option Schedule}

/-- What a registration created has left the phases before. -/
theorem Course.uncreated (h : Course start log r) (hphase : isUncreated r.phase = true) :
    ∀ t ∈ log.accepted, t.operation.isCreation = false := by
  induction h with
  | begun => exact fun _ hmem => absurd hmem List.not_mem_nil
  | @idle log r e _ he ih =>
    intro t hmem
    rw [Log.accepted_append] at hmem
    rcases List.mem_append.mp hmem with hold | hnew
    · exact ih hphase t hold
    · obtain ⟨e', he', haccepted⟩ := List.mem_filterMap.mp hnew
      obtain rfl := List.mem_singleton.mp he'
      exact he t haccepted
  | funded _ _ hold _ ih => exact ih (by rw [hold]; rfl)
  | unseen _ hold _ _ ih => exact ih (by rw [hold]; rfl)
  | seen => cases hphase
  | accepted => cases hphase
  | refused _ _ hold ih => exact ih (by rw [hold]; rfl)
  | expired => cases hphase

/-- A creation is submitted, and may be refused, only after a look that did not show the identity. -/
theorem Course.lookedInVain (h : Course start log r) (hstart : start.IsOpening)
    (hphase : r.phase = .submitting ∨ r.phase = .failed) : LookedInVain r.id log := by
  induction h with
  | begun =>
    rw [hstart.phase] at hphase
    exact hphase.elim nofun nofun
  | idle _ _ ih => exact (ih hphase).extend (List.prefix_append _ _)
  | funded => exact hphase.elim nofun nofun
  | unseen _ _ hanswered hanswer => exact ⟨_, hanswered, hanswer⟩
  | seen => exact hphase.elim nofun nofun
  | accepted => exact hphase.elim nofun nofun
  | refused _ _ hold ih => exact ih (.inl hold)
  | expired => exact hphase.elim nofun nofun

/-- What a registration and the platform that answers it have become after some calls, between and
during which others act on the platform. -/
inductive Attended (others : Act → Prop) (first : IdentityRegistration) (p₀ : Platform) :
    Log → IdentityRegistration → Platform → Prop where
  | begun : Attended others first p₀ [] first p₀
  | disturbed {log : Log} {r : IdentityRegistration} {p : Platform}
      (h : Attended others first p₀ log r p) (act : Act) (hact : others act) :
      Attended others first p₀ log r (p.after act)
  | called {log es : Log} {r r' : IdentityRegistration} {p p' : Platform}
      {schedule? : Option Schedule} {outcome : Option IdentityOutcome}
      (h : Attended others first p₀ log r p)
      (hplays : Task.Plays others p (call schedule? r) es p' (.done r' outcome)) :
      Attended others first p₀ (log ++ es) r' p'
  | restarted {log : Log} {r r' : IdentityRegistration} {p : Platform}
      (h : Attended others first p₀ log r p) (hrestart : r.restart = some r') :
      Attended others first p₀ log r' p

theorem Attended.calls (h : Attended others first p₀ log r p) : Calls first log r := by
  induction h with
  | begun => exact .begun
  | disturbed _ _ _ ih => exact ih
  | called _ hplays ih => exact ih.called hplays.reaches
  | restarted _ hrestart ih => exact ih.restarted hrestart

/-- The part of a log since the registration last started over is the log of a course. -/
theorem Attended.course (h : Attended others first p₀ log r p) (hfirst : first.IsOpening) :
    ∃ earlier opening recent, log = earlier ++ recent ∧ opening.IsOpening ∧
      Course opening recent r ∧
      (earlier = [] ∨ ∃ r₀, Calls first earlier r₀ ∧ r₀.restart = some opening) := by
  induction h with
  | begun => exact ⟨[], first, [], rfl, hfirst, .begun, .inl rfl⟩
  | disturbed _ _ _ ih => exact ih
  | called _ hplays ih =>
    obtain ⟨earlier, opening, recent, rfl, hopening, hcourse, hbefore⟩ := ih
    have hends := (meets_register _ hcourse).reaches hplays.reaches
    exact ⟨earlier, opening, recent ++ _, List.append_assoc .., hopening, hends.1, hbefore⟩
  | @restarted _ r _ _ h hrestart ih =>
    obtain ⟨earlier, opening, recent, rfl, hopening, hcourse, -⟩ := ih
    have hagain := hcourse.restart hopening hrestart
    exact ⟨earlier ++ recent, _, [], (List.append_nil _).symm, hagain.1, .begun,
      .inr ⟨r, h.calls, hrestart⟩⟩

theorem Knows.spared {id : IdentityId} (h : Knows id log p) {act : Act} (hact : act.Spares id) :
    Knows id log (p.after act) := by
  obtain ⟨hsame, hclear⟩ := Platform.spared_after hact h.clear
  exact ⟨hclear, by rw [hsame]; exact h.once, h.creations, h.refused, h.learnt⟩

/-- A creation that is submitted is accepted if it is the first one, and else refused for that. -/
theorem Knows.creation {lock : CreditLock} (h : Knows lock.identity log p) {key : SecretKey}
    (hkey : key.IsSound) (hburns : key.publicKey = lock.burnKey) {keys : List PublicKey}
    {signed : Timestamp} {answer : Except Refusal Receipt} {flag : Bool}
    (hanswer : p.Answers flag
      (.submit (.sign (.createIdentity lock.identity lock keys) signed key)) answer p') :
    Knows lock.identity
      (log ++ [⟨.submit (.sign (.createIdentity lock.identity lock keys) signed key), answer⟩]) p' := by
  obtain ⟨now, hnow⟩ := hanswer
  obtain ⟨hcontains, hclear, hjudged⟩ := Platform.submit_creation h.clear hkey hburns keys signed now
  rw [hnow] at hcontains hclear hjudged
  dsimp only at hcontains hclear hjudged
  have honce := h.once
  cases hknown : p.identities.contains lock.identity with
  | true =>
    rw [hknown] at hjudged honce
    obtain rfl := hjudged
    have hsome : log.accepted ≠ [] := by
      intro hnil
      rw [hnil] at honce
      cases honce
    refine h.snoc hclear ?_ (by rintro t ⟨⟩) ?_ (by rintro transaction depth e ⟨⟩)
    · rw [hcontains, Log.accepted_append, List.length_append, honce]
      rfl
    · rintro t reason ⟨⟩
      exact ⟨rfl, hsome⟩
  | false =>
    rw [hknown] at hjudged honce
    obtain ⟨receipt, rfl⟩ := hjudged
    refine h.snoc hclear ?_ ?_ ?_ (by rintro transaction depth e ⟨⟩)
    · rw [hcontains, Log.accepted_append, List.length_append, honce]
      rfl
    · rintro t ⟨⟩
      rfl
    · rintro t reason ⟨⟩

/-- What a registration asks for keeps what is known of its identity. -/
theorem Knows.answered {lock : CreditLock} (h : Knows lock.identity log p) {s : IdentityRegistration}
    {es : Log} {q : Request} {answer : q.Answer} {flag : Bool} (hpermits : Permits start es s q)
    (hlock : start.lock = lock) (hkey : start.burnKey.IsSound) (hanswer : p.Answers flag q answer p') :
    Knows lock.identity (log ++ [⟨q, answer⟩]) p' := by
  -- nothing but a submission changes whether there is the identity
  have hother (hq : ∀ t, q ≠ .submit t) (hsame : p'.identities.contains lock.identity =
      p.identities.contains lock.identity) (hclear : p'.refusals = []) :
      Knows lock.identity (log ++ [⟨q, answer⟩]) p' := by
    have hnone : Exchange.accepted? ⟨q, answer⟩ = none := by
      cases q with
      | submit t => exact absurd rfl (hq t)
      | _ => rfl
    refine h.snoc hclear ?_ (by simp [hnone]) ?_ ?_
    · rw [hsame, Log.accepted_append, ← h.once]
      simp [Log.accepted, hnone]
    · intro t reason heq
      exact absurd (congrArg Exchange.request heq) (hq t)
    · rintro transaction depth error ⟨⟩
      exact hanswer.2
  cases q with
  | submit t =>
    obtain ⟨hcourse, -, hburns, signed, rfl⟩ := hpermits
    obtain ⟨hsame, hspends, -, -⟩ := setup_inj.mp hcourse.setup_eq
    obtain rfl : s.lock = lock := hsame.trans hlock
    rw [← hspends] at hkey
    exact h.creation hkey hburns hanswer
  | findIdentity id =>
    obtain ⟨hsame, hrefusals⟩ := p.contains_findIdentity lock.identity id
    rw [show p.findIdentity id = (answer, p') from hanswer] at hsame hrefusals
    exact hother (by rintro t ⟨⟩) hsame (hrefusals.trans h.clear)
  | findDocuments kind filter =>
    obtain ⟨hsame, hrefusals⟩ := p.contains_findDocuments lock.identity kind filter
    rw [show p.findDocuments kind filter = (answer, p') from hanswer] at hsame hrefusals
    exact hother (by rintro t ⟨⟩) hsame (hrefusals.trans h.clear)
  | drawSalt label => exact hpermits.elim
  | _ =>
    obtain rfl : p' = p := hanswer.answered
    exact hother (by rintro t ⟨⟩) rfl h.clear

theorem Attended.knows {lock : CreditLock}
    (h : Attended (Act.Spares lock.identity) first p₀ log r p) (hlock : first.lock = lock)
    (hkey : first.burnKey.IsSound) (hclear : p₀.refusals = [])
    (habsent : p₀.identities.contains lock.identity = false) : Knows lock.identity log p := by
  induction h with
  | begun =>
    refine ⟨hclear, ?_, fun _ hmem => absurd hmem List.not_mem_nil,
      fun _ _ hmem => absurd hmem List.not_mem_nil, fun _ _ _ => List.not_mem_nil⟩
    rw [habsent]
    rfl
  | disturbed _ act hact ih => exact ih.spared hact
  | @called log es r r' p p' schedule? outcome h hplays ih =>
    obtain ⟨hsame, hspends, -, -⟩ := setup_inj.mp h.calls.setup_eq
    have hmeets := meets_register (schedule?.getD r.settings.identity) (.begun : Course r [] r)
    refine hplays.keeps_guarded (J := fun es p => Knows lock.identity (log ++ es) p) hmeets
      (by simpa using ih) (fun _ _ act hact hknows => hknows.spared hact) ?_
    intro es p s flag q answer p' hpermits hanswer hknows
    rw [← List.append_assoc]
    exact hknows.answered hpermits (hsame.trans hlock) (hspends ▸ hkey) hanswer
  | restarted _ _ ih => exact ih

/-- With the right burn key only a creation that the platform has already can be to blame. -/
theorem Knows.blames {id : IdentityId} {e : RegistrationError} (h : Knows id log p)
    (hmatch : r.burnKey.publicKey = r.lock.burnKey) (hblames : r.Blames log e) :
    e = .rejected ("identity " ++ id.toBase58 ++ " already exists") ∧ r.phase = .failed ∧
      log.accepted ≠ [] := by
  cases hblames with
  | mismatch hkey => exact absurd hmatch hkey
  | refused hphase hrefused =>
    obtain ⟨rfl, haccepted⟩ := h.refused _ _ hrefused
    exact ⟨rfl, hphase, haccepted⟩
  | unknown hunknown => exact absurd hunknown (h.learnt _ _ _)

theorem Blames.extend {e : RegistrationError} {later : Log} (h : r.Blames log e)
    (hlog : log ⊆ later) : r.Blames later e := by
  cases h with
  | mismatch hkey => exact .mismatch hkey
  | refused hphase hrefused => exact .refused hphase (hlog hrefused)
  | unknown hunknown => exact .unknown (hlog hunknown)

/-- What a failure is to be blamed for has happened, in the call that returns it or in the one that it
repeats. -/
theorem Calls.blames {e : RegistrationError} (h : Calls first log r) (hfirst : first.phase ≠ .failed)
    (hvalid : (schedule?.getD r.settings.identity).validate = .ok ())
    (hrun : Task.Reaches (call schedule? r) es (.done r' (some (.failed e)))) :
    r'.Blames (log ++ es) e := by
  rcases call_cases schedule? r with ⟨e', hinvalid, -⟩ | ⟨-, hcall⟩ | ⟨-, hevolves⟩
  · rw [hvalid] at hinvalid
    cases hinvalid
  · rw [hcall] at hrun
    obtain ⟨rfl, hdone⟩ := hrun.of_done
    obtain ⟨rfl, houtcome⟩ := Task.done.inj hdone
    have hphase : r'.phase = .failed := by
      cases hcase : r'.phase with
      | failed => rfl
      | _ => simp [finalOutcome, hcase] at houtcome
    obtain ⟨before, es, -, -, e', rfl, -, -, -, herror, hblames⟩ := h.failing_call hfirst hphase
    obtain rfl : e' = e := by simpa [finalOutcome, hphase, herror] using houtcome.symm
    rw [List.append_nil]
    exact hblames.extend (List.subset_append_right before es)
  · exact ((hevolves.meets.reaches hrun).blames e rfl).extend (List.subset_append_right log es)

/-- A registration started over when its creation had been accepted. No other one was accepted since,
and a look for the identity did not show it. -/
def RetriesBlindly (first : IdentityRegistration) (log : Log) : Prop :=
  ∃ earlier recent r r', log = earlier ++ recent ∧ Calls first earlier r ∧ r.restart = some r' ∧
    earlier.accepted ≠ [] ∧ recent.accepted = [] ∧ LookedInVain first.id recent

/-- A registration that failed, although nothing is to blame but that its creation was accepted already,
had started over. -/
theorem Attended.retriesBlindly {id : IdentityId} (h : Attended others first p₀ log r p)
    (hfirst : first.IsOpening) (hknows : Knows id log p) (hphase : r.phase = .failed)
    (haccepted : log.accepted ≠ []) : RetriesBlindly first log := by
  obtain ⟨hlock, -, -, -⟩ := setup_inj.mp h.calls.setup_eq
  obtain ⟨earlier, opening, recent, rfl, hopening, hcourse, hbefore⟩ := h.course hfirst
  rw [Log.accepted_append] at haccepted
  -- whatever was accepted was a creation, and there was none since the start
  have hnone : Log.accepted recent = [] := by
    apply List.eq_nil_iff_forall_not_mem.mpr
    intro t hmem
    have hcreation := hknows.creations t (by simp [hmem])
    rw [hcourse.uncreated (by rw [hphase]; rfl) t hmem] at hcreation
    cases hcreation
  rw [hnone, List.append_nil] at haccepted
  have hvain := hcourse.lookedInVain hopening (.inr hphase)
  rw [IdentityRegistration.id, hlock] at hvain
  rcases hbefore with rfl | ⟨r₀, hcalls, hrestart⟩
  · exact absurd rfl haccepted
  · exact ⟨earlier, recent, r₀, opening, rfl, hcalls, hrestart, haccepted, hnone, hvain⟩

variable {lock : CreditLock} {burnKey signingKey : SecretKey} {settings : Settings}
  {outcome : Option IdentityOutcome}

/-- On a platform without scripted refusals, and if nobody else creates the identity, its creation is
accepted at most once. A call fails only after a restart that did not find what had been accepted
before, and then for the reason that the identity exists. -/
theorem fails_only_on_blind_retry (hcreate : create lock burnKey signingKey settings = .ok first)
    (hmatch : burnKey.publicKey = lock.burnKey) (hkey : burnKey.IsSound) (hclear : p₀.refusals = [])
    (habsent : p₀.identities.contains lock.identity = false)
    (h : Attended (Act.Spares lock.identity) first p₀ log r p)
    (hschedule : ∀ schedule ∈ schedule?, schedule.validate = .ok ())
    (hplays : Task.Plays (Act.Spares lock.identity) p (call schedule? r) es p' (.done r' outcome)) :
    (log ++ es).accepted.length ≤ 1 ∧
      ∀ e, outcome = some (.failed e) →
        e = .rejected ("identity " ++ lock.identity.toBase58 ++ " already exists") ∧
          RetriesBlindly first (log ++ es) := by
  obtain ⟨hsettings, rfl⟩ := create_eq_ok hcreate
  have hlater := h.called hplays
  have hknows := hlater.knows rfl hkey hclear habsent
  constructor
  · rw [hknows.once]
    split <;> decide
  · rintro e rfl
    obtain ⟨-, -, -, hsame⟩ := setup_inj.mp h.calls.setup_eq
    obtain ⟨hlock, hburns, -, -⟩ := setup_inj.mp hlater.calls.setup_eq
    have hvalid : (schedule?.getD r.settings.identity).validate = .ok () :=
      validate_schedule (by rw [hsame]; exact hsettings) hschedule
    have hblames := h.calls.blames nofun hvalid hplays.reaches
    obtain ⟨hreason, hphase, haccepted⟩ :=
      hknows.blames (by rw [hlock, hburns]; exact hmatch) hblames
    exact ⟨hreason, hlater.retriesBlindly ⟨rfl, rfl⟩ hknows hphase haccepted⟩

/-- A call that a platform answers by itself. -/
def callOn (p : Platform) (r : IdentityRegistration) :
    Log × Platform × Task IdentityRegistration (Option IdentityOutcome) :=
  (call none r).playOn (fun _ => false) p

theorem plays_callOn (others : Act → Prop) (h : (callOn p r).2.2.result? = some outcome) :
    Task.Plays others p (call none r) (callOn p r).1 (callOn p r).2.1
      (.done (callOn p r).2.2.state outcome) := by
  rw [← Task.eq_done_of_result? h]
  exact Task.plays_playOn ..

/-- How many transitions a first call had accepted, and the outcome of a second one after the
registration started over. -/
def retried (p : Platform) (first : IdentityRegistration) : Option (Nat × Option IdentityOutcome) := do
  let (log, p', ended) := callOn p first
  let _ ← ended.result?
  let r ← ended.state.restart
  let outcome ← (callOn p' r).2.2.result?
  return (log.accepted.length, outcome)

theorem attended_of_retried (others : Act → Prop) {count : Nat}
    (h : retried p first = some (count, outcome)) :
    ∃ log r p' es r' p'', log.accepted.length = count ∧ Attended others first p log r p' ∧
      Task.Plays others p' (call none r) es p'' (.done r' outcome) := by
  obtain ⟨o, hfirst, r, hrestart, o', hsecond, hended⟩ :
      ∃ o, (callOn p first).2.2.result? = some o ∧
        ∃ r, (callOn p first).2.2.state.restart = some r ∧
        ∃ o', (callOn (callOn p first).2.1 r).2.2.result? = some o' ∧
          ((callOn p first).1.accepted.length, o') = (count, outcome) := by
    simpa [retried, Option.bind_eq_some_iff] using h
  obtain ⟨rfl, rfl⟩ := Prod.mk.inj hended
  exact ⟨(callOn p first).1, r, _, _, _, _, rfl,
    (Attended.begun.called (plays_callOn others hfirst)).restarted hrestart,
    plays_callOn others hsecond⟩

end IdentityRegistration

/-- A platform that accepts the creations of identities and never shows them. -/
def Simulation.Platform.secretive : Platform := .empty { Behaviour.instant with identityHidden := none }

section

open Rehearsal

/-- A registration with the right burn key. -/
def Rehearsal.starter : IdentityRegistration :=
  ⟨lock, key, key, .default, .pending lock [key.publicKey], .awaitingFunding, none⟩

/-- A registration that starts over before it is shown its identity fails, and had retried blindly. -/
theorem IdentityRegistration.fails_only_on_blind_retry_secretive :
    ∃ log r p es r' p' e,
      Attended (Act.Spares Rehearsal.lock.identity) starter Platform.secretive log r p ∧
      Task.Plays (Act.Spares Rehearsal.lock.identity) p (call none r) es p'
        (.done r' (some (.failed e))) ∧
      (log ++ es).accepted.length ≤ 1 ∧ RetriesBlindly starter (log ++ es) := by
  have hretried : retried Platform.secretive starter = some (1, some (.failed
      (.rejected ("identity " ++ Rehearsal.lock.identity.toBase58 ++ " already exists")))) := by
    decide +kernel
  obtain ⟨log, r, p, es, r', p', -, hattended, hplays⟩ :=
    attended_of_retried (Act.Spares Rehearsal.lock.identity) hretried
  have hcreate : create Rehearsal.lock Rehearsal.key Rehearsal.key .default = .ok starter := rfl
  obtain ⟨honce, hfails⟩ :=
    fails_only_on_blind_retry hcreate rfl isSound_key rfl rfl hattended (by simp) hplays
  exact ⟨log, r, p, es, r', p', _, hattended, hplays, honce, (hfails _ rfl).2⟩

end

open Sample in
/-- With the right burn key, and nobody else on a platform that refuses nothing by script, the retry of
a creation that was accepted fails. -/
theorem IdentityRegistration.accepted_creation_fails_when_retried :
    ∃ log r p es r' p' e,
      create ownLock Sample.signingKey Sample.signingKey .default = .ok newcomer ∧
      Sample.signingKey.publicKey = ownLock.burnKey ∧ log.accepted.length = 1 ∧
      Attended (fun _ => False) newcomer Platform.secretive log r p ∧
      Task.Plays (fun _ => False) p (call none r) es p' (.done r' (some (.failed e))) := by
  have hretried : retried Platform.secretive newcomer = some (1, some (.failed
      (.rejected ("identity " ++ ownLock.identity.toBase58 ++ " already exists")))) := by
    decide +kernel
  obtain ⟨log, r, p, es, r', p', haccepted, hattended, hplays⟩ :=
    attended_of_retried (fun _ => False) hretried
  exact ⟨log, r, p, es, r', p', _, rfl, rfl, haccepted, hattended, hplays⟩

end Enrolment
