import Enrolment.Proofs.Flow.Gates
import Enrolment.Proofs.Platform.Acts

/-!
A registration of usernames and the platform that it is driven against agree on commitments.

What the platform once showed can be seen from then on, so that every name that a registration reveals
has a preorder that the platform finds. It then refuses a name for one reason only, which is that
another owner holds it.
-/

namespace Enrolment

open Simulation

namespace Simulation.Platform

/-- What platforms have shown in a log can be seen on a platform. -/
def Recalls (p : Platform) (log : Log) : Prop :=
  ∀ kind filter documents, ⟨.findDocuments kind filter, .ok documents⟩ ∈ log →
    ∀ d ∈ documents, ∃ h ∈ p.documents, h.item = d ∧ h.isVisible = true

variable {p p' : Platform} {log : Log} {owner : IdentityId}

theorem Recalls.showsCommitment (h : p.Recalls log) {d : Digest}
    (hshown : UsernameRegistration.ShowsPreorder owner log d) : p.ShowsCommitment owner d := by
  obtain ⟨filter, documents, hshown, document, hmem, howner, hcommitment⟩ := hshown
  obtain ⟨hidden, hhidden, rfl, hvisible⟩ := h _ filter documents hshown document hmem
  exact ⟨hidden, hhidden, hvisible, howner, hcommitment⟩

variable [Suite]

theorem Recalls.after (h : p.Recalls log) (act : Act) : (p.after act).Recalls log := by
  intro kind filter documents hshown d hd
  obtain ⟨hidden, hmem, hitem, hvisible⟩ := h kind filter documents hshown d hd
  exact ⟨hidden, mem_documents_after act hmem hvisible, hitem, hvisible⟩

/-- A platform recalls what it answers as well. -/
theorem Recalls.answered (h : p.Recalls log) {flag : Bool} {q : Request} {answer : q.Answer}
    (hanswer : p.Answers flag q answer p') : p'.Recalls (log ++ [⟨q, answer⟩]) := by
  have hbefore : p'.Recalls log :=
    hanswer.answered.keeps (P := fun p => p.Recalls log) (fun act => h.after act) h
  intro kind filter documents hshown d hd
  rcases List.mem_append.mp hshown with hold | hnew
  · exact hbefore kind filter documents hold d hd
  · obtain ⟨rfl, hsame⟩ := Exchange.mk.inj (List.mem_singleton.mp hnew)
    obtain rfl := eq_of_heq hsame
    have hfound : p.findDocuments kind filter = (.ok documents, p') := hanswer
    obtain ⟨-, hvisible⟩ := visible_of_findDocuments (congrArg Prod.fst hfound) hd
    rwa [hfound] at hvisible

end Simulation.Platform

namespace UsernameRegistration

variable {r : UsernameRegistration} {names : List String}

theorem commitmentsOn_ne_nil {state : ClaimState}
    (hstate : ∀ name ∈ names, r.stateOf? name = some state) (hsome : names ≠ []) :
    r.commitmentsOn names ≠ [] := by
  obtain ⟨name, rest, rfl⟩ := List.exists_cons_of_ne_nil hsome
  obtain ⟨c, hc, -⟩ := stateOf?_eq_some.mp (hstate name List.mem_cons_self)
  have hclaim : c ∈ r.claimsOn (name :: rest) := mem_claimsOn.mpr ⟨name, List.mem_cons_self, hc⟩
  intro hnil
  have hmem : c.commitment ∈ r.commitmentsOn (name :: rest) := List.mem_map_of_mem hclaim
  rw [hnil] at hmem
  cases hmem

variable [Suite]

/-- Everything may be done to a platform by others. -/
abbrev anything (_ : Act) : Prop := True

/-- What a registration and the platform that it is driven against have become after some calls, between
and during which anything may be done to the platform. -/
inductive Attended (first : UsernameRegistration) (p₀ : Platform) :
    Log → UsernameRegistration → Platform → Prop where
  | begun : Attended first p₀ [] first p₀
  | disturbed {log : Log} {r : UsernameRegistration} {p : Platform} (h : Attended first p₀ log r p)
      (act : Act) : Attended first p₀ log r (p.after act)
  | registered {log es : Log} {r r' : UsernameRegistration} {p p' : Platform}
      {schedule? : Option Schedule} {requests : List String}
      {result : Except RegistrationError (Option UsernameOutcome)} (h : Attended first p₀ log r p)
      (hplays : Task.Plays anything p (register schedule? requests r) es p' (.done r' result)) :
      Attended first p₀ (log ++ es) r' p'
  | recovered {log es : Log} {r r' : UsernameRegistration} {p p' : Platform}
      {result : Except RegistrationError (List String)} (h : Attended first p₀ log r p)
      (hplays : Task.Plays anything p (recover r) es p' (.done r' result)) :
      Attended first p₀ (log ++ es) r' p'

variable {first s : UsernameRegistration} {p₀ p p' : Platform} {log es : Log}

theorem Attended.calls (h : Attended first p₀ log r p) : Calls first log r := by
  induction h with
  | begun => exact .begun
  | disturbed _ _ ih => exact ih
  | registered _ hplays ih => exact ih.registered hplays.reaches
  | recovered _ hplays ih => exact ih.recovered hplays.reaches

/-- The platform recalls all that it has shown. -/
theorem recalls_of_plays {α : Type} {t t' : Task UsernameRegistration α} (h : p.Recalls log)
    (hplays : Task.Plays anything p t es p' t') : p'.Recalls (log ++ es) :=
  hplays.keeps (J := fun log p => p.Recalls log) h (fun _ _ act _ h => h.after act)
    fun _ _ _ _ _ _ hanswer h => h.answered hanswer

theorem Attended.recalls (h : Attended first p₀ log r p) : p.Recalls log := by
  induction h with
  | begun => intro kind filter documents hshown; cases hshown
  | disturbed _ act ih => exact ih.after act
  | registered _ hplays ih => exact recalls_of_plays ih hplays
  | recovered _ hplays ih => exact recalls_of_plays ih hplays

/-- The names that claims are revealed under read as themselves. -/
theorem IsKept.parse_entry (h : r.IsKept) {e : DomainEntry} (he : e ∈ r.entries (r.claimsOn names)) :
    Label.parse e.normalized e.parent = .ok ⟨e.normalized, e.normalized, e.parent⟩ := by
  obtain ⟨c, hclaim, hlabel, -⟩ := mem_entries he
  obtain ⟨name, -, hfound⟩ := mem_claimsOn.mp hclaim
  have hparse := (h name c hfound).readable.parse_normalized
  rw [← hlabel] at hparse
  exact hparse

variable {owner : IdentityId} {key : SecretKey} {settings : Settings} {t : Transition}
  {schedule? : Option Schedule} {requests : List String}
  {next : (Request.submit t).Answer → Task UsernameRegistration
    (Except RegistrationError (Option UsernameOutcome))}

/-- Every preorder that a registration submits is accepted unless a refusal is scripted, and so is every
registration of names unless one of them is held by another owner: whatever was answered before, what is
submitted is well-formed and preordered for the platform as well. -/
theorem submissions_agree (hcreate : create owner key settings = .ok first) (hkey : key.IsSound)
    (h : Attended first p₀ log r p)
    (hplays : Task.Plays anything p (register schedule? requests r) es p'
      (.ask s (.submit t) next)) (hclear : p'.refusals = []) (now : Timestamp) :
    (∃ commitments, t.operation = .preorder owner commitments ∧
      (p'.submit t now).1 = .ok ⟨t.id⟩) ∨
    ∃ entries, t.operation = .registerDomains owner entries ∧
      ((p'.submit t now).1 = .ok ⟨t.id⟩ ∨
        ∃ e ∈ entries, p'.IsHeldByOther owner e ∧
          (p'.submit t now).1 = .error (.invalid (e.toLabel.fullName ++ " is taken"))) := by
  have hfirst := create_eq_ok hcreate
  have hempty : ∀ name, first.find? name = none := by
    rw [hfirst]
    exact fun _ => rfl
  -- the state at the submission is on a course and offers what it submits
  obtain ⟨hcourse, names, hoffers⟩ : Course first (log ++ es) s ∧ ∃ names, s.Offers names t :=
    ((meets_register schedule? requests h.calls.course).reaches hplays.reaches).1
  have hsetup := hcourse.setup_eq
  obtain ⟨howner, hown⟩ : s.owner = owner ∧ s.key = key := by
    simp only [setup, hfirst, Prod.mk.injEq] at hsetup
    exact ⟨hsetup.1, hsetup.2.1⟩
  have hkept : s.IsKept := hcourse.isKept (isKept_of_empty hempty)
  have hrecalls : p'.Recalls (log ++ es) := recalls_of_plays h.recalls hplays
  rw [Platform.submit_of_clear hclear]
  cases hoffers with
  | preorder signed hstate hsome =>
    have hcheck : p'.check (.sign (s.preorderOf names) signed s.key) = .ok () := by
      rw [hown, p'.check_sign hkey]
      simp [preorderOf, Platform.checkOperation, commitmentsOn_ne_nil hstate hsome]
    rw [hcheck]
    exact .inl ⟨s.commitmentsOn names, by rw [← howner]; rfl, rfl⟩
  | reveal signed hstate hsome =>
    have hoffers : s.Offers names (.sign (s.revealOf names) signed s.key) :=
      .reveal signed hstate hsome
    obtain ⟨-, hshown⟩ := hoffers.shows_preorders hcourse hempty rfl
    refine .inr ⟨s.entries (s.claimsOn names), by rw [← howner]; rfl, ?_⟩
    have hcheck : p'.check (.sign (s.revealOf names) signed s.key) =
        (s.entries (s.claimsOn names)).forM (p'.checkEntry owner) := by
      rw [hown, p'.check_sign hkey, ← howner]
      rfl
    rw [hcheck]
    rcases forM_cases (p'.checkEntry owner) (s.entries (s.claimsOn names)) with
      ⟨-, hok⟩ | ⟨e, he, reason, hrefused, hall⟩
    · rw [hok]
      exact .inl rfl
    · -- the platform reads the name in its normalised form, which is displayed differently
      have hsame : e.toLabel.fullName = Label.fullName ⟨e.normalized, e.normalized, e.parent⟩ := rfl
      have hvisible := hrecalls.showsCommitment (hshown e he)
      rw [howner, commitment_congr hsame] at hvisible
      obtain ⟨hheld, rfl⟩ :=
        Platform.isHeldByOther_of_refused (hkept.parse_entry he) hvisible hrefused
      rw [hall]
      exact .inr ⟨e, he, hheld, rfl⟩

end UsernameRegistration

namespace Rehearsal

/-- Somebody else holds the name. -/
def rival : Document :=
  ⟨.zero, ⟨.ofPadded [1]⟩, .domain "alice" "alice" "dash" ⟨.zero⟩ (.unique ⟨.ofPadded [1]⟩), .epoch⟩

def registrant : UsernameRegistration := ⟨lock.identity, key, .default, .empty, none, none⟩

/-- Registering a name on a platform that lists it for somebody else already, up to the moment at which
the name is to be revealed. -/
def revealing : Log × Platform × Task UsernameRegistration
    (Except RegistrationError (Option UsernameOutcome)) :=
  (UsernameRegistration.register none ["Alice"] registrant).playOn
    (fun | .submit t => t.operation.name = "domain_register" | _ => false)
    ((Platform.empty .default).after (.insertDocuments [rival]))

end Rehearsal

open Rehearsal in
/-- A name that another owner holds is preordered, and refused for that reason when it is revealed. -/
theorem UsernameRegistration.submissions_agree_rival : ∃ es p' s t next entries e,
    Task.Plays anything ((Platform.empty .default).after (.insertDocuments [rival]))
        (register none ["Alice"] registrant) es p' (.ask s (.submit t) next) ∧
      t.operation = .registerDomains lock.identity entries ∧ e ∈ entries ∧
      p'.IsHeldByOther lock.identity e ∧
      (p'.submit t .epoch).1 = .error (.invalid (e.toLabel.fullName ++ " is taken")) := by
  have hplays := (register none ["Alice"] registrant).plays_playOn anything
    (fun | .submit t => t.operation.name = "domain_register" | _ => false)
    ((Platform.empty .default).after (.insertDocuments [rival]))
  change Task.Plays _ _ _ revealing.1 revealing.2.1 revealing.2.2 at hplays
  obtain ⟨t, hsubmits, hverdict⟩ : ∃ t, revealing.2.2.submitting? = some t ∧
      (t.operation.name, (revealing.2.1.submit t .epoch).1.toOption) = ("domain_register", none) :=
    Option.map_eq_some_iff.mp (show revealing.2.2.submitting?.map (fun t =>
      (t.operation.name, (revealing.2.1.submit t .epoch).1.toOption)) =
        some ("domain_register", none) by decide +kernel)
  obtain ⟨hname, hrefused⟩ := Prod.mk.inj hverdict
  obtain ⟨s, next, hwork⟩ := Task.eq_of_submitting? hsubmits
  rw [hwork] at hplays
  have hclear : revealing.2.1.refusals = [] := by decide +kernel
  have hcreate : create lock.identity Rehearsal.key .default = .ok registrant := rfl
  rcases submissions_agree hcreate isSound_key .begun hplays hclear .epoch with
    ⟨commitments, hpreorder, -⟩ | ⟨entries, hreveals, haccepted | ⟨e, he, hheld, htaken⟩⟩
  · simp [hpreorder, Operation.name] at hname
  · rw [haccepted] at hrefused
    cases hrefused
  · exact ⟨_, _, s, t, next, entries, e, hplays, hreveals, he, hheld, htaken⟩

end Enrolment
