import Enrolment.Proofs.Flow.Starting
import Enrolment.Proofs.Name.Grammar

/-!
What valid settings promise about names. Settings are valid whatever their parent is, if only it is not
empty, but a name that brings no domain of its own is read just if this parent is spelt as a domain. Under
such a parent bare names are always read. Under any other one each of them is refused, for the parent and
not for itself, and with it every call that begins with it.
-/

namespace Enrolment

/-- The errors that say that a name cannot be read. -/
def RegistrationError.IsUnreadable : RegistrationError → Prop
  | value (.invalidLabel ..) => True
  | _ => False

namespace Label

variable {text cs : List Char} {request given : String}

/-- A request that spells a label and nothing else. -/
def IsBare (request : String) : Prop := ∃ text, Text.IsCore text request.toList ∧ IsLabel text

/-- What is wrong with a request whose label is all right, but not the given parent. -/
def refusal (request given : String) : Error :=
  .invalidLabel request (LabelFault.badParent (String.ofList (lower given.toList))).message

theorem IsLabel.dot_not_mem (h : IsLabel text) : '.' ∉ text := by
  intro hdot
  have hspelt := h.chars '.' hdot
  revert hspelt
  decide

theorem parentFault?_eq_badParent (hsome : cs ≠ []) (h : ¬ IsDomain cs) :
    parentFault? (lower cs) = some (.badParent (String.ofList (lower cs))) := by
  rw [isDomain_iff] at h
  unfold parentFault? at h ⊢
  have hlower : ¬ (lower cs).isEmpty = true := by simpa [lower] using hsome
  rw [if_neg hlower] at h ⊢
  split at h
  · exact absurd rfl h
  next hparts => rw [if_neg hparts]

theorem IsBare.exists_parse (h : IsBare request) (hdomain : IsDomain given.toList) :
    ∃ l, parse request given = .ok l := by
  obtain ⟨text, hcore, hlabel⟩ := h
  have hspells : Spells request given text given.toList :=
    ⟨text, hcore, .bare hlabel.dot_not_mem, hlabel, hdomain⟩
  exact ⟨_, parse_eq_ok_iff.mpr ⟨_, _, hspells, rfl⟩⟩

theorem IsBare.parse_eq_refusal (h : IsBare request) (hsome : given ≠ "")
    (hdomain : ¬ IsDomain given.toList) : parse request given = .error (refusal request given) := by
  obtain ⟨text, hcore, hlabel⟩ := h
  have hgiven : given.toList ≠ [] := by simpa using hsome
  unfold parse read
  rw [hcore.trim_eq, (Divides.bare hlabel.dot_not_mem).split_eq]
  dsimp only
  rw [isLabel_iff.mp hlabel, parentFault?_eq_badParent hgiven hdomain]
  rfl

end Label

open Label

theorem Schedule.not_isUnreadable_of_validate {s : Schedule} {e : RegistrationError}
    (h : s.validate = .error e) : ¬ e.IsUnreadable := by
  obtain ⟨reason, rfl⟩ := exists_settings_of_validate h
  exact id

/-- Of the parent, valid settings only ask that it is not empty. -/
theorem Settings.validate_parent_iff {settings : Settings} (h : settings.validate = .ok ())
    (parent : String) : { settings with parent }.validate = .ok () ↔ parent ≠ "" := by
  obtain ⟨hsubmission, hidentity, hpreorder, hdomain⟩ := validate_schedules h
  have hdepth : settings.confirmations ≠ 0 := by
    intro hzero
    unfold validate at h
    rw [if_pos hzero] at h
    cases h
  unfold validate
  rw [if_neg hdepth]
  by_cases hempty : parent = ""
  · subst hempty
    exact iff_of_false (fun h => by cases h) fun h => h rfl
  · have hsome : ¬ parent.isEmpty = true := by simpa using hempty
    rw [if_neg hsome, hsubmission, hidentity, hpreorder, hdomain]
    exact iff_of_true rfl hempty

namespace Settings

variable {settings : Settings} {request : String} {requests : List String} {refused : Error}

theorem exists_mapM_resolve (hdomain : IsDomain settings.parent.toList)
    (h : ∀ request ∈ requests, IsBare request) :
    ∃ labels, requests.mapM settings.naming.resolve = .ok labels :=
  exists_mapM_ok_iff.mpr fun request hmem => (h request hmem).exists_parse hdomain

theorem mapM_resolve_of_refused (h : settings.naming.resolve request = .error refused)
    (rest : List String) : (request :: rest).mapM settings.naming.resolve = .error refused := by
  rw [List.mapM_cons, h]
  rfl

end Settings

namespace UsernameRegistration

variable {r r' : UsernameRegistration} {schedule? : Option Schedule} {requests rest : List String}
  {request : String} {e : RegistrationError} {refused : Error} {labels : List Label}

/-- What is wrong with a call whose names are read is its schedule. -/
theorem not_isUnreadable_of_readCall (hread : requests.mapM r.settings.naming.resolve = .ok labels)
    (h : r.readCall schedule? requests = .error e) : ¬ e.IsUnreadable := by
  unfold readCall readBatch readRequests at h
  rw [hread] at h
  cases hpreorder : (schedule?.getD r.settings.preorder).validate with
  | error e' =>
    rw [hpreorder] at h
    obtain rfl := Except.error.inj h
    exact Schedule.not_isUnreadable_of_validate hpreorder
  | ok u =>
    cases hdomain : (schedule?.getD r.settings.domain).validate with
    | error e' =>
      rw [hpreorder, hdomain] at h
      obtain rfl := Except.error.inj h
      exact Schedule.not_isUnreadable_of_validate hdomain
    | ok u =>
      rw [hpreorder, hdomain] at h
      cases h

theorem readCall_of_refused (hvalid : r.settings.validate = .ok ())
    (hschedule : ∀ schedule ∈ schedule?, ¬ schedule.IsFaulty)
    (h : requests.mapM r.settings.naming.resolve = .error refused) :
    r.readCall schedule? requests = .error (.value refused) := by
  obtain ⟨-, -, hpreorder, hdomain⟩ := Settings.validate_schedules hvalid
  have hallowed : ∀ schedule ∈ schedule?, schedule.validate = .ok () :=
    fun schedule hmem => Schedule.validate_eq_ok_iff.mpr (hschedule schedule hmem)
  unfold readCall readBatch readRequests
  rw [Schedule.validate_getD hpreorder hallowed, Schedule.validate_getD hdomain hallowed, h]
  rfl

variable [Suite]

/-- A call for names that are read never fails for a name that is not. -/
theorem not_isUnreadable_of_register {es : Log}
    {result : Except RegistrationError (Option UsernameOutcome)} (hkept : r.IsKept)
    (hread : requests.mapM r.settings.naming.resolve = .ok labels)
    (hrun : Task.Reaches (register schedule? requests r) es (.done r' result))
    (he : result = .error e ∨ result = .ok (some (.failed e))) : ¬ e.IsUnreadable := by
  cases hcall : r.readCall schedule? requests with
  | error e' =>
    rw [register_of_readCall_error hcall] at hrun
    cases hrun
    rcases he with he | he
    · obtain rfl := Except.error.inj he
      exact not_isUnreadable_of_readCall hread hcall
    · cases he
  | ok batch =>
    obtain ⟨-, hanswers⟩ :=
      (meets_register schedule? requests (.begun : Course r [] r)).reaches hrun
    obtain ⟨outcome, rfl, hfailed⟩ := hanswers.of_readCall hkept hcall
    rcases he with he | he
    · cases he
    · obtain ⟨before, t, reason, -, rfl⟩ := hfailed e (Except.ok.inj he)
      exact id

end UsernameRegistration

namespace Coordinator

variable [Suite] {c c' : Coordinator} {transaction : Transaction} {burnKey signingKey : SecretKey}
  {labels : List String} {schedule? : Option Schedule} {e : RegistrationError} {all : List Label}

omit [Suite] in
theorem not_isUnreadable_of_checkStart (hread : labels.mapM c.settings.naming.resolve = .ok all)
    (h : c.checkStart labels schedule? = .error e) : ¬ e.IsUnreadable := by
  unfold checkStart at h
  rw [hread] at h
  cases schedule? with
  | none => cases h
  | some schedule => exact Schedule.not_isUnreadable_of_validate h

/-- What is wrong with a transaction that is not observed is that it does not fund an identity. -/
theorem not_isUnreadable_of_observe {l : Ledger} {refused : Error}
    (h : l.observe transaction = .error refused) :
    ¬ (RegistrationError.value refused).IsUnreadable := by
  cases hheld : l.find? transaction.txid with
  | some lock =>
    rw [Ledger.observe_of_held hheld] at h
    cases h
  | none =>
    rw [Ledger.observe_of_new hheld] at h
    unfold CreditLock.ofTransaction at h
    split at h
    · obtain rfl := Except.error.inj h
      exact id
    · split at h
      · obtain rfl := Except.error.inj h
        exact id
      · cases h

/-- A start with names that are read never fails for a name that is not. -/
theorem not_isUnreadable_of_start (hvalid : c.settings.validate = .ok ())
    (hread : labels.mapM c.settings.naming.resolve = .ok all)
    (h : c.start transaction burnKey signingKey labels schedule? = (.error e, c')) :
    ¬ e.IsUnreadable := by
  cases hcheck : c.checkStart labels schedule? with
  | error e' =>
    rw [start_of_error hcheck] at h
    obtain ⟨rfl, -⟩ : e' = e ∧ c = c' := by simpa using h
    exact not_isUnreadable_of_checkStart hread hcheck
  | ok u =>
    cases hobserved : c.ledger.observe transaction with
    | error refused =>
      rw [start_of_unfunded hcheck hobserved] at h
      obtain ⟨rfl, -⟩ : RegistrationError.value refused = e ∧ c = c' := by simpa using h
      exact not_isUnreadable_of_observe hobserved
    | ok observed =>
      obtain ⟨lock, ledger⟩ := observed
      rw [start_of_funded hvalid hcheck hobserved] at h
      split at h
      · obtain ⟨rfl, -⟩ : RegistrationError.flowExists lock.identity = e ∧
          { c with ledger } = c' := by simpa using h
        exact id
      · cases h

omit [Suite] in
theorem checkStart_of_refused {refused : Error}
    (h : labels.mapM c.settings.naming.resolve = .error refused) :
    c.checkStart labels schedule? = .error (.value refused) := by
  unfold checkStart
  rw [h]

end Coordinator

section

variable [Suite]

open UsernameRegistration in
/-- Settings that are valid stay so under every parent that is not empty, but what they promise hangs on
its spelling. If it is a domain, every bare name is read, and neither a call to register bare names, in
any state that a registration can reach, nor a start with bare names, of any coordinator that can be, ever
fails for a name that cannot be read. If it is none, every bare name is refused for the parent. Then a
start that begins with such a name, and a call to register that does on a schedule that is allowed, fail
with this refusal and leave everything as it is. -/
theorem Settings.bare_names_hang_on_parent {settings : Settings} (hvalid : settings.validate = .ok ()) :
    (∀ parent, { settings with parent }.validate = .ok () ↔ parent ≠ "") ∧
    (IsDomain settings.parent.toList →
      (∀ request, IsBare request → ∃ l, settings.naming.resolve request = .ok l) ∧
      (∀ owner key first r schedule? requests es r' result e,
        create owner key settings = .ok first → Attempts first r →
        (∀ request ∈ requests, IsBare request) →
        Task.Reaches (register schedule? requests r) es (.done r' result) →
        (result = .error e ∨ result = .ok (some (.failed e))) → ¬ e.IsUnreadable) ∧
      ∀ c accounts transaction burnKey signingKey labels schedule? e c',
        Coordinator.Arises settings c accounts → (∀ label ∈ labels, IsBare label) →
        c.start transaction burnKey signingKey labels schedule? = (.error e, c') →
        ¬ e.IsUnreadable) ∧
    (¬ IsDomain settings.parent.toList → ∀ request, IsBare request →
      settings.naming.resolve request = .error (refusal request settings.parent) ∧
      (∀ owner key first r schedule? rest, create owner key settings = .ok first → Attempts first r →
        (∀ schedule ∈ schedule?, ¬ schedule.IsFaulty) →
        register schedule? (request :: rest) r =
          .done r (.error (.value (refusal request settings.parent)))) ∧
      ∀ c accounts transaction burnKey signingKey rest schedule?,
        Coordinator.Arises settings c accounts →
        c.start transaction burnKey signingKey (request :: rest) schedule? =
          (.error (.value (refusal request settings.parent)), c)) := by
  have hparent := validate_parent_iff hvalid
  have hsettings {owner : IdentityId} {key : SecretKey} {first r : UsernameRegistration}
      (hcreate : create owner key settings = .ok first) (h : Attempts first r) :
      r.settings = settings := by
    have hsetup := h.setup_eq
    rw [create_eq_ok hcreate] at hsetup
    exact congrArg (fun setup => setup.2.2) hsetup
  refine ⟨hparent, ?_, ?_⟩
  · intro hdomain
    refine ⟨fun request hbare => hbare.exists_parse hdomain, ?_, ?_⟩
    · intro owner key first r schedule? requests es r' result e hcreate hattempts hbare hrun he
      obtain ⟨labels, hread⟩ := Settings.exists_mapM_resolve hdomain hbare
      rw [← hsettings hcreate hattempts] at hread
      have hkept : r.IsKept := hattempts.isKept (isKept_of_create hcreate)
      exact not_isUnreadable_of_register hkept hread hrun he
    · intro c accounts transaction burnKey signingKey labels schedule? e c' harises hbare hstart
      obtain ⟨-, rfl, -⟩ := harises.sound
      obtain ⟨all, hread⟩ := Settings.exists_mapM_resolve hdomain hbare
      exact Coordinator.not_isUnreadable_of_start hvalid hread hstart
  · intro hdomain request hbare
    -- of the two faults of a parent, valid settings rule out that it is empty
    have hsome : settings.parent ≠ "" := (hparent settings.parent).mp hvalid
    have hrefused : settings.naming.resolve request = .error (refusal request settings.parent) :=
      hbare.parse_eq_refusal hsome hdomain
    refine ⟨hrefused, ?_, ?_⟩
    · intro owner key first r schedule? rest hcreate hattempts hschedule
      have hsame := hsettings hcreate hattempts
      have hread := Settings.mapM_resolve_of_refused hrefused rest
      rw [← hsame] at hread hvalid
      rw [← hsame]
      exact register_of_readCall_error (readCall_of_refused hvalid hschedule hread)
    · intro c accounts transaction burnKey signingKey rest schedule? harises
      obtain ⟨-, rfl, -⟩ := harises.sound
      exact Coordinator.start_of_error
        (Coordinator.checkStart_of_refused (Settings.mapM_resolve_of_refused hrefused rest))

end

namespace Sample

/-- Settings whose parent has a blank in it. -/
def spaced : Settings := { Settings.default with parent := "da sh" }

theorem isBare_alice : IsBare "alice" :=
  ⟨"alice".toList, Text.isCore_iff.mpr rfl, isLabel_iff.mpr rfl⟩

end Sample

open Sample UsernameRegistration in
/-- A registration and a coordinator cannot read a name under a parent with a blank in it, and under the
usual one they fail for other reasons. -/
theorem Settings.bare_names_hang_on_parent_alice :
    ∃ r c es, spaced.validate = .ok () ∧ create Sample.identity signingKey spaced = .ok r ∧
      register none ["alice"] r = .done r (.error (.value (refusal "alice" "da sh"))) ∧
      Coordinator.create spaced .empty = .ok c ∧
      c.start funding signingKey signingKey ["alice"] none =
        (.error (.value (refusal "alice" "da sh")), c) ∧
      (∃ l, Settings.default.naming.resolve "alice" = .ok l) ∧
      Task.Reaches (register none ["alice"] registration) es
        (.done (holding [alice]) (.ok (some (.failed (.rejected "unfunded"))))) ∧
      ¬ (RegistrationError.rejected "unfunded").IsUnreadable ∧
      coordinator.start funding signingKey signingKey ["alice"] (some (.linear 0 0)) =
        (.error (.settings "max_attempts must be at least 1"), coordinator) ∧
      ¬ (RegistrationError.settings "max_attempts must be at least 1").IsUnreadable := by
  have hspaced : spaced.validate = .ok () := rfl
  have hnone : ¬ IsDomain spaced.parent.toList := by
    rw [isDomain_iff]
    decide
  have hcreate : create Sample.identity signingKey spaced =
      .ok ⟨Sample.identity, signingKey, spaced, .empty, none, none⟩ := rfl
  have hentered : Coordinator.create spaced .empty =
      .ok ⟨spaced, .empty, [], .empty, ⟨0, 0, 0, 0⟩⟩ := rfl
  obtain ⟨-, -, hrefused⟩ := Settings.bare_names_hang_on_parent hspaced
  obtain ⟨-, hregister, hstart⟩ := hrefused hnone "alice" isBare_alice
  have husual : Settings.default.validate = .ok () := rfl
  have hdash : IsDomain Settings.default.parent.toList := isDomain_iff.mpr rfl
  obtain ⟨-, hread, -⟩ := Settings.bare_names_hang_on_parent husual
  obtain ⟨hresolve, hcalls, hstarts⟩ := hread hdash
  have hbare : ∀ request ∈ ["alice"], IsBare request := by
    intro request hmem
    obtain rfl := List.mem_singleton.mp hmem
    exact isBare_alice
  have hplayed : ((register none ["alice"] registration).play
      (oracle (.error (.invalid "unfunded")) none fun _ _ => []) []).2 =
        (holding [alice], .ok (some (.failed (.rejected "unfunded")))) := by rfl
  obtain ⟨es, hrun⟩ := Task.exists_reaches_of_play _ hplayed
  have hfaulty : coordinator.start funding signingKey signingKey ["alice"] (some (.linear 0 0)) =
      (.error (.settings "max_attempts must be at least 1"), coordinator) := by rfl
  exact ⟨_, _, es, hspaced, hcreate, hregister _ _ _ _ none [] hcreate .begun nofun, hentered,
    hstart _ _ funding signingKey signingKey [] none (.created hentered), hresolve "alice" isBare_alice,
    hrun, hcalls _ _ _ _ _ _ _ _ _ _ rfl .begun hbare hrun (.inr rfl), hfaulty,
    hstarts _ _ _ _ _ _ _ _ _ (.created rfl) hbare hfaulty⟩

open Sample UsernameRegistration in
/-- A parent with a blank in it is allowed, and then keeps a bare name from being read. -/
theorem Settings.valid_parent_refuses_alice :
    spaced.validate = .ok () ∧ IsBare "alice" ∧
      spaced.naming.resolve "alice" =
        .error (.invalidLabel "alice" "invalid parent domain \"da sh\"") ∧
      (∃ r, create Sample.identity signingKey spaced = .ok r ∧ register none ["alice"] r =
        .done r (.error (.value (.invalidLabel "alice" "invalid parent domain \"da sh\"")))) ∧
      ∃ c, Coordinator.create spaced .empty = .ok c ∧
        c.start funding signingKey signingKey ["alice"] none =
          (.error (.value (.invalidLabel "alice" "invalid parent domain \"da sh\"")), c) := by
  have hvalid : spaced.validate = .ok () := rfl
  have hrefused : spaced.naming.resolve "alice" =
      .error (.invalidLabel "alice" "invalid parent domain \"da sh\"") := by
    decide +kernel
  have hread := Settings.mapM_resolve_of_refused hrefused []
  refine ⟨hvalid, isBare_alice, hrefused, ⟨_, rfl, ?_⟩, _, rfl, ?_⟩
  · exact register_of_readCall_error (readCall_of_refused hvalid nofun hread)
  · exact Coordinator.start_of_error (Coordinator.checkStart_of_refused hread)

end Enrolment
