import Enrolment.Proofs.Usernames.Agreement
import Enrolment.Proofs.Usernames.Listing
import Enrolment.Proofs.Usernames.Settling

/-!
What a platform keeps of a registration whose calls were all completed.

The domains of the owner that can be seen are the names that the registration revealed, and every name
that it holds is one of them.
-/

namespace Enrolment

open Simulation

/-- A domain that an accepted transition leaves is one of the names that it reveals. -/
theorem Document.of_mem_ofTransition [Suite] {t : Transition} {d : Document}
    (hd : d ∈ ofTransition t) (hdomain : d.kind = .domain) :
    ∃ entries, t.operation = .registerDomains d.owner entries ∧
      ∃ e ∈ entries, d = ofEntry d.owner t.createdAt e := by
  unfold ofTransition at hd
  split at hd
  · cases hd
  · obtain ⟨c, -, rfl⟩ := List.mem_map.mp hd
    cases hdomain
  next owner entries hoperation =>
    obtain ⟨e, he, rfl⟩ := List.mem_map.mp hd
    exact ⟨entries, hoperation, e, he, rfl⟩

theorem Log.entries_singleton {e : Exchange} {t : Transition} (h : e.accepted? = some t) :
    Log.entries [e] = t.operation.entries := by
  simp [Log.entries, Log.operations, Log.accepted, h]

/-- An act that leaves no domain of an owner. -/
def Simulation.Act.SparesDomains (owner : IdentityId) : Act → Prop
  | .submit t _ => ∀ entries, t.operation ≠ .registerDomains owner entries
  | .insertDocuments documents => ∀ d ∈ documents, d.owner = owner → d.kind ≠ .domain
  | _ => True

namespace Simulation.Platform

variable {p p' : Platform} {owner : IdentityId} {log : Log}

/-- The domains of an owner that can be seen. -/
def domainsOf (p : Platform) (owner : IdentityId) : List Document :=
  (p.documents.filter fun h => concerns .domain (.ownedBy owner) h.item).filterMap
    fun h => h.observe.1

theorem mem_domainsOf {d : Document} :
    d ∈ p.domainsOf owner ↔ concerns .domain (.ownedBy owner) d ∧
      ∃ h ∈ p.documents, h.item = d ∧ h.isVisible = true := mem_seen

variable [Suite]

/-- A platform keeps what a log says of it: what it showed was asked for and can be seen, and the
domains of an owner are names that it accepted. -/
structure Mirrors (p : Platform) (owner : IdentityId) (log : Log) : Prop where
  recalls : p.Recalls log
  concerned : ∀ kind filter documents, ⟨.findDocuments kind filter, .ok documents⟩ ∈ log →
    ∀ d ∈ documents, concerns kind filter d
  domains : ∀ h ∈ p.documents, h.item.owner = owner → h.item.kind = .domain →
    ∃ e ∈ log.entries, ∃ made, h.item = .ofEntry owner made e

theorem Mirrors.after {act : Act} (h : p.Mirrors owner log) (hact : act.SparesDomains owner) :
    (p.after act).Mirrors owner log := by
  refine ⟨h.recalls.after act, h.concerned, ?_⟩
  intro kept hkept howner hdomain
  rcases of_mem_documents_after act hkept with ⟨old, hold, hsame⟩ | ⟨documents, rfl, hd⟩ |
    ⟨t, now, rfl, -, hd⟩
  · rw [← hsame] at howner hdomain ⊢
    exact h.domains old hold howner hdomain
  · exact absurd hdomain (hact _ hd howner)
  · obtain ⟨entries, hoperation, -⟩ := Document.of_mem_ofTransition hd hdomain
    rw [howner] at hoperation
    exact absurd hoperation (hact entries)

theorem Mirrors.answered {flag : Bool} {q : Request} {answer : q.Answer} (h : p.Mirrors owner log)
    (hanswer : p.Answers flag q answer p') : p'.Mirrors owner (log ++ [⟨q, answer⟩]) := by
  refine ⟨h.recalls.answered hanswer, ?_, ?_⟩
  · intro kind filter documents hshown d hd
    rcases List.mem_append.mp hshown with hold | hnew
    · exact h.concerned kind filter documents hold d hd
    · obtain ⟨rfl, hsame⟩ := Exchange.mk.inj (List.mem_singleton.mp hnew)
      obtain rfl := eq_of_heq hsame
      have hfound : p.findDocuments kind filter = (.ok documents, p') := hanswer
      exact (visible_of_findDocuments (congrArg Prod.fst hfound) hd).1
  · intro kept hkept howner hdomain
    rcases of_mem_documents_answered hanswer hkept with ⟨old, hold, hsame⟩ | ⟨t, haccepted, hd⟩
    · rw [← hsame] at howner hdomain ⊢
      obtain ⟨e, he, hdocument⟩ := h.domains old hold howner hdomain
      exact ⟨e, by simp [he], hdocument⟩
    · obtain ⟨entries, hoperation, e, he, hdocument⟩ := Document.of_mem_ofTransition hd hdomain
      refine ⟨e, ?_, t.createdAt, howner ▸ hdocument⟩
      rw [Log.entries_append, Log.entries_singleton haccepted, hoperation]
      exact List.mem_append_right _ he

/-- What was shown of the domains of an owner can be seen. -/
theorem Mirrors.mem_domainsOf (h : p.Mirrors owner log) {documents : List Document} {d : Document}
    (hshown : ⟨.findDocuments .domain (.ownedBy owner), .ok documents⟩ ∈ log)
    (hd : d ∈ documents) : d ∈ p.domainsOf owner :=
  Platform.mem_domainsOf.mpr ⟨h.concerned _ _ _ hshown d hd, h.recalls _ _ _ hshown d hd⟩

theorem Mirrors.of_mem_domainsOf (h : p.Mirrors owner log) {d : Document}
    (hd : d ∈ p.domainsOf owner) : ∃ e ∈ log.entries, ∃ made, d = .ofEntry owner made e := by
  obtain ⟨hconcerned, kept, hkept, rfl, -⟩ := Platform.mem_domainsOf.mp hd
  obtain ⟨hdomain, howner⟩ : kept.item.kind = .domain ∧ kept.item.owner = owner := by
    simpa [concerns, Filter.accepts] using hconcerned
  exact h.domains kept hkept howner hdomain

end Simulation.Platform

namespace UsernameRegistration

variable [Suite] {first second r r' : UsernameRegistration} {p₀ p p' : Platform} {log es : Log}
  {owner : IdentityId} {name : String}

/-- What a registration and the platform that it is driven against have become after some calls to
register names, all of which were completed. Others may do what they like to the platform as long as
they leave no domain of the owner. -/
inductive Fulfilled (first : UsernameRegistration) (p₀ : Platform) :
    Log → UsernameRegistration → Platform → Prop where
  | begun : Fulfilled first p₀ [] first p₀
  | disturbed {log : Log} {r : UsernameRegistration} {p : Platform} (h : Fulfilled first p₀ log r p)
      (act : Act) (hact : act.SparesDomains first.owner) : Fulfilled first p₀ log r (p.after act)
  | completed {log es : Log} {r r' : UsernameRegistration} {p p' : Platform}
      {schedule? : Option Schedule} {requests reported : List String}
      (h : Fulfilled first p₀ log r p)
      (hplays : Task.Plays (Act.SparesDomains first.owner) p (register schedule? requests r) es p'
        (.done r' (.ok (some (.completed reported))))) : Fulfilled first p₀ (log ++ es) r' p'

theorem Fulfilled.calls (h : Fulfilled first p₀ log r p) : Calls first log r := by
  induction h with
  | begun => exact .begun
  | disturbed _ _ _ ih => exact ih
  | completed _ hplays ih => exact ih.registered hplays.reaches

theorem Fulfilled.settled (h : Fulfilled first p₀ log r p) (hfirst : IsSettled [] first) :
    IsSettled log r := by
  induction h with
  | begun => exact hfirst
  | disturbed _ _ _ ih => exact ih
  | completed _ hplays ih => exact ih.completed hplays.reaches

theorem Fulfilled.mirrors (h : Fulfilled first p₀ log r p)
    (hfree : ∀ kept ∈ p₀.documents, kept.item.owner = first.owner → kept.item.kind ≠ .domain) :
    p.Mirrors first.owner log := by
  induction h with
  | begun =>
    constructor
    · exact fun _ _ _ hshown => absurd hshown List.not_mem_nil
    · exact fun _ _ _ hshown => absurd hshown List.not_mem_nil
    · exact fun kept hkept howner hdomain => absurd hdomain (hfree kept hkept howner)
  | disturbed _ act hact ih => exact ih.after hact
  | completed _ hplays ih =>
    exact hplays.keeps (J := fun log p => p.Mirrors first.owner log) ih
      (fun _ _ act hact hmirrors => hmirrors.after hact)
      fun _ _ _ _ _ _ hanswer hmirrors => hmirrors.answered hanswer

/-- Every name that was revealed is a registered claim under the salt that it was revealed with. -/
theorem IsSettled.claim_of_entry (h : IsSettled log r) {e : DomainEntry} (he : e ∈ log.entries) :
    ∃ c, r.find? e.toLabel.fullName = some c ∧ c.state = .registered ∧ c.label = e.toLabel ∧
      c.salt = e.salt := by
  obtain ⟨c, hc, hsecret⟩ := Option.map_eq_some_iff.mp (h.backed e he)
  obtain ⟨hlabel, hsalt⟩ := Prod.mk.inj hsecret
  exact ⟨c, hc, h.registered _ _ (stateOf?_eq_some.mpr ⟨c, hc, rfl⟩), hlabel, hsalt⟩

/-- A registration whose calls were completed, and the platform that it was driven against. -/
structure Corresponds (log : Log) (r : UsernameRegistration) (p : Platform) : Prop where
  settled : IsSettled log r
  attested : IsAttested r.owner log r
  mirrors : p.Mirrors r.owner log
  primary : ∀ name, r.primary = some name → name ∈ log.uniqueNames ∨ ListsUnique r.owner log name

theorem Fulfilled.corresponds {key : SecretKey} {settings : Settings}
    (h : Fulfilled first p₀ log r p) (hcreate : create owner key settings = .ok first)
    (hfree : ∀ kept ∈ p₀.documents, kept.item.owner = owner → kept.item.kind ≠ .domain) :
    Corresponds log r p := by
  have hfirst := create_eq_ok hcreate
  have howner : first.owner = owner := by rw [hfirst]
  have hempty : ∀ name, first.find? name = none := by
    rw [hfirst]
    exact fun _ => rfl
  have hprimaries : first.primaries = (none, none) := by
    rw [hfirst]
    rfl
  have hcourse := h.calls.course
  have hsame : r.owner = first.owner := owner_eq_of_setup hcourse.setup_eq
  constructor
  · exact h.settled (isSettled_of_create hcreate)
  · rw [hsame]
    exact h.calls.attested hempty
  · rw [hsame]
    exact h.mirrors (howner ▸ hfree)
  · intro name hprimary
    exact (hcourse.primary_carried (isKept_of_create hcreate) hprimaries hprimary).2

/-- A domain that can be seen lists a name that was revealed, as it was revealed. -/
theorem Corresponds.listed_of_mem (h : Corresponds log r p) {d : Document}
    (hd : d ∈ p.domainsOf r.owner) :
    ∃ e ∈ log.entries, ∃ label, d.listed? = some (label, e.salt, e.record) ∧
      label.fullName = e.toLabel.fullName := by
  obtain ⟨e, he, made, rfl⟩ := h.mirrors.of_mem_domainsOf hd
  obtain ⟨c, hc, -, hlabel, -⟩ := h.settled.claim_of_entry he
  have hparse := (h.settled.kept _ c hc).readable.parse_normalized
  rw [hlabel] at hparse
  have hread : Label.parse e.normalized e.parent = .ok ⟨e.normalized, e.normalized, e.parent⟩ :=
    hparse
  refine ⟨e, he, ⟨e.normalized, e.normalized, e.parent⟩, ?_, rfl⟩
  simp [Document.listed?, Document.ofEntry, hread, Except.toOption]

/-- Every registered name is listed by a domain that can be seen. -/
theorem Corresponds.listed (h : Corresponds log r p) (hname : r.stateOf? name = some .registered) :
    ∃ d ∈ p.domainsOf r.owner, ∃ l, d.listed? = some l ∧ l.1.fullName = name := by
  obtain ⟨documents, hshown, hsome⟩ := h.attested name hname
  obtain ⟨l, hl⟩ := Option.isSome_iff_exists.mp hsome
  obtain ⟨hfull, d, hd, hlisted⟩ := Document.of_firstListing? hl
  exact ⟨d, h.mirrors.mem_domainsOf hshown hd, l, hlisted, hfull⟩

/-- The domains that can be seen carry one name as the unique one, which is the primary one, or none if
there is none. -/
theorem Corresponds.mem_uniqueNames_iff (h : Corresponds log r p) (name : String) :
    name ∈ (p.domainsOf r.owner).filterMap Document.uniqueName? ↔ r.primary = some name := by
  rw [List.mem_filterMap]
  constructor
  · rintro ⟨d, hd, hunique⟩
    obtain ⟨label, salt, record, hlisted, hrecord, rfl⟩ := Document.uniqueName?_eq_some.mp hunique
    obtain ⟨e, he, label', hl, hfull⟩ := h.listed_of_mem hd
    obtain ⟨rfl, rfl, rfl⟩ : label = label' ∧ salt = e.salt ∧ record = e.record := by
      simpa using hlisted.symm.trans hl
    exact h.settled.unique _ (Log.mem_uniqueNames.mpr ⟨e, he, hrecord, hfull.symm⟩)
  · intro hprimary
    rcases h.primary name hprimary with
      hrevealed | ⟨documents, hshown, d, hd, label, salt, record, hlisted⟩
    · obtain ⟨e, he, hunique, rfl⟩ := Log.mem_uniqueNames.mp hrevealed
      obtain ⟨c, hc, hstate, -⟩ := h.settled.claim_of_entry he
      obtain ⟨d, hd, l, hlisted, hfull⟩ := h.listed (stateOf?_eq_some.mpr ⟨c, hc, hstate⟩)
      -- no other record was revealed for the name
      obtain ⟨e', he', label, hl, hfull'⟩ := h.listed_of_mem hd
      obtain rfl := Option.some.inj (hlisted.symm.trans hl)
      obtain rfl : e' = e :=
        List.inj_on_of_nodup_map h.settled.nodup he' he (hfull'.symm.trans hfull)
      exact ⟨d, hd, Document.uniqueName?_eq_some.mpr ⟨_, _, _, hl, hunique, hfull⟩⟩
    · exact ⟨d, h.mirrors.mem_domainsOf hshown hd,
        Document.uniqueName?_eq_some.mpr ⟨label, salt, record, hlisted⟩⟩

end UsernameRegistration

end Enrolment
