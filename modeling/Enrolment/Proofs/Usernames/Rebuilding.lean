import Enrolment.Proofs.Usernames.Mirroring

/-!
What a registration knows can be had back from the platform. A registration that starts without claims
and recovers the names of its owner comes to hold what one holds whose calls were all completed, and has
nothing left to do for these names.
-/

namespace Enrolment

open Simulation

/-- The last of some things is the one that they all are. -/
theorem getLast?_eq_of_mem_iff {α : Type} {xs : List α} {x? : Option α}
    (h : ∀ x, x ∈ xs ↔ x? = some x) : xs.getLast? = x? := by
  cases hlast : xs.getLast? with
  | none =>
    obtain rfl := List.getLast?_eq_none_iff.mp hlast
    cases x? with
    | none => rfl
    | some x => exact absurd ((h x).mpr rfl) List.not_mem_nil
  | some x => exact ((h x).mp (List.mem_of_getLast? hlast)).symm

namespace UsernameRegistration

variable {r second : UsernameRegistration} {p p₀ : Platform} {log : Log} {name : String}
  {schedule? : Option Schedule} {requests : List String}

/-- The salt and the commitment that a registered name is held under. -/
def held? (r : UsernameRegistration) (name : String) : Option (Salt × Digest) :=
  ((r.find? name).filter fun c => c.state = .registered).map fun c => (c.salt, c.commitment)

theorem held?_of_find? {c : Claim} (hc : r.find? name = some c) (hstate : c.state = .registered) :
    r.held? name = some (c.salt, c.commitment) := by
  simp [held?, hc, hstate]

theorem isSome_held? : (r.held? name).isSome ↔ r.stateOf? name = some .registered := by
  cases hc : r.find? name with
  | none => simp [held?, stateOf?, hc]
  | some c => by_cases hstate : c.state = .registered <;> simp [held?, stateOf?, hc, hstate]

/-- Requests that can all be read are read on schedules that are allowed. -/
theorem readCall_of_resolve (hvalid : r.settings.validate = .ok ())
    (hschedule : ∀ schedule ∈ schedule?, schedule.validate = .ok ())
    (hresolve : ∀ request ∈ requests, ∃ label, r.settings.naming.resolve request = .ok label) :
    ∃ labels, r.readCall schedule? requests = .ok labels ∧
      ∀ l ∈ labels, ∃ request ∈ requests, r.settings.naming.resolve request = .ok l := by
  obtain ⟨-, -, hpreorder, hdomain⟩ := Settings.validate_schedules hvalid
  obtain ⟨all, hall⟩ := exists_mapM_ok_iff.mpr hresolve
  refine ⟨distinct all, ?_, ?_⟩
  · unfold readCall readBatch readRequests
    rw [Schedule.validate_getD hpreorder hschedule, Schedule.validate_getD hdomain hschedule, hall]
    rfl
  · exact fun l hl => exists_of_mapM_ok hall ((distinct_sublist all).subset hl)

variable [Suite]

section Adopting

variable {now : Timestamp}

/-- Recovering takes up the domains of the owner that can be seen, unless the query fails. -/
theorem concludes_recover (hrunning : p.failing = 0) {flag : Bool} :
    (recover r).Concludes (fun _ _ r' result => ∃ now,
      r' = (r.adoptAll (p.domainsOf r.owner) now).2 ∧
      result = .ok (r.adoptAll (p.domainsOf r.owner) now).1) flag p := by
  apply Routine.concludes_get
  refine Routine.concludes_findDocuments fun flag' _ => ?_
  rw [Platform.findDocuments_of_running hrunning]
  refine Routine.concludes_time fun flag'' now _ => Routine.concludes_get ?_
  exact ⟨now, rfl, rfl⟩

/-- A registration without claims comes to hold the names that can be seen as they are held. -/
theorem Corresponds.held?_adoptAll (h : Corresponds log r p)
    (hempty : ∀ name, second.find? name = none) (howner : second.owner = r.owner) (now : Timestamp)
    (name : String) :
    (second.adoptAll (p.domainsOf r.owner) now).2.held? name = r.held? name := by
  have hnone : second.stateOf? name ≠ some .registered := by simp [stateOf?, hempty]
  have hfound := second.find?_adoptAll (p.domainsOf r.owner) now name
  rw [if_neg hnone] at hfound
  cases hlisting : Document.firstListing? (p.domainsOf r.owner) name with
  | none =>
    have hout : r.held? name = none := by
      rw [← Option.not_isSome_iff_eq_none, isSome_held?]
      intro hname
      obtain ⟨d, hd, l, hl, hfull⟩ := h.listed hname
      have hsome := Document.isSome_firstListing? hd hl hfull
      rw [hlisting] at hsome
      cases hsome
    rw [hlisting, hempty] at hfound
    rw [hout]
    simp [held?, hfound]
  | some listed =>
    obtain ⟨rfl, d, hd, hlisted⟩ := Document.of_firstListing? hlisting
    obtain ⟨e, he, label, hl, hfull⟩ := h.listed_of_mem hd
    obtain rfl := Option.some.inj (hlisted.symm.trans hl)
    obtain ⟨c, hc, hstate, -, hsalt⟩ := h.settled.claim_of_entry he
    have hclaim := h.settled.kept _ c hc
    -- the label that was read from the document is displayed differently
    have hcommitment : commitment e.salt label r.owner = c.commitment := by
      rw [hclaim.committed, hsalt]
      exact commitment_congr (hfull.trans hclaim.named.symm) e.salt r.owner
    rw [hlisting, howner] at hfound
    rw [held?_of_find? hfound rfl]
    dsimp only
    rw [hfull, held?_of_find? hc hstate, hsalt]
    exact congrArg (fun d => some (e.salt, d)) hcommitment

theorem Corresponds.primary_adoptAll (h : Corresponds log r p) (hnone : second.primary = none) :
    (second.adoptAll (p.domainsOf r.owner) now).2.primary = r.primary := by
  rw [UsernameRegistration.primary_adoptAll, hnone, Option.or_none]
  exact getLast?_eq_of_mem_iff h.mem_uniqueNames_iff

theorem Corresponds.mem_adoptAll_iff (h : Corresponds log r p)
    (hempty : ∀ name, second.find? name = none) (howner : second.owner = r.owner) (now : Timestamp)
    (name : String) :
    name ∈ (second.adoptAll (p.domainsOf r.owner) now).1 ↔ r.stateOf? name = some .registered := by
  have hnone : second.stateOf? name ≠ some .registered := by simp [stateOf?, hempty]
  rw [mem_adoptAll_iff_registered, ← isSome_held?, h.held?_adoptAll hempty howner, isSome_held?]
  exact and_iff_right hnone

end Adopting

section Repeating

variable {labels : List Label} {preorder domain : Schedule}

/-- Names that are registered already are registered at once. -/
theorem registerLabels_registered (hall : ∀ l ∈ labels, r.stateOf? l.fullName = some .registered) :
    registerLabels preorder domain labels r =
      .done r (some (.completed (labels.map r.reportName))) := by
  have hnone : (labels.any fun l => r.stateOf? l.fullName = some .timedOut) = false := by
    apply List.any_eq_false.mpr
    intro l hl
    simp [hall l hl]
  rw [registerLabels_eq, Routine.get_bind, hnone]
  change (enlist labels r).bind _ = _
  rw [enlist_eq (by decide) hall]
  rfl

/-- A call for names that are registered already, however they are spelt, asks for nothing and changes
nothing. -/
theorem register_registered (hvalid : r.settings.validate = .ok ())
    (hschedule : ∀ schedule ∈ schedule?, schedule.validate = .ok ())
    (hresolve : ∀ request ∈ requests, ∃ label, r.settings.naming.resolve request = .ok label ∧
      r.stateOf? label.fullName = some .registered) :
    ∃ reported, register schedule? requests r = .done r (.ok (some (.completed reported))) := by
  obtain ⟨labels, hread, hlabels⟩ := readCall_of_resolve hvalid hschedule
    fun request hrequest => (hresolve request hrequest).imp fun _ h => h.1
  have hall : ∀ l ∈ labels, r.stateOf? l.fullName = some .registered := by
    intro l hl
    obtain ⟨request, hrequest, hl⟩ := hlabels l hl
    obtain ⟨label, hlabel, hstate⟩ := hresolve request hrequest
    obtain rfl := Except.ok.inj (hl.symm.trans hlabel)
    exact hstate
  refine ⟨labels.map r.reportName, ?_⟩
  unfold register
  rw [Routine.get_bind]
  unfold registerOn
  rw [Routine.get_bind, show r.readBatch _ _ requests = .ok labels from hread]
  change (registerLabels _ _ labels r).bind _ = _
  rw [registerLabels_registered hall]
  rfl

end Repeating

/-- What was registered by calls that were all completed can be recovered by a further registration of
the owner. It adopts the registered names, each once, and holds them under the same salts and
commitments, with the same one of them as the primary name. From then on it registers them at once,
however they are spelt, without asking for anything. -/
theorem recover_rebuilds {owner : IdentityId} {key key' : SecretKey} {settings settings' : Settings}
    {first : UsernameRegistration} (hcreate : create owner key settings = .ok first)
    (hcreate' : create owner key' settings' = .ok second)
    (hfree : ∀ kept ∈ p₀.documents, kept.item.owner = owner → kept.item.kind ≠ .domain)
    (h : Fulfilled first p₀ log r p) (hrunning : p.failing = 0) (flag : Bool) :
    (recover second).Concludes (fun _ _ rebuilt result => ∃ adopted, result = .ok adopted ∧
      adopted.Nodup ∧ (∀ name, name ∈ adopted ↔ r.stateOf? name = some .registered) ∧
      (∀ name, rebuilt.held? name = r.held? name) ∧ rebuilt.primary = r.primary ∧
      ∀ schedule? requests, (∀ schedule ∈ schedule?, schedule.validate = .ok ()) →
        (∀ request ∈ requests, ∃ label, settings'.naming.resolve request = .ok label ∧
          label.fullName ∈ adopted) →
        ∃ reported, register schedule? requests rebuilt =
          .done rebuilt (.ok (some (.completed reported)))) flag p := by
  have hcorresponds := h.corresponds hcreate hfree
  have hsecond := create_eq_ok hcreate'
  have hempty : ∀ name, second.find? name = none := by
    rw [hsecond]
    exact fun _ => rfl
  have hnone : second.primary = none := by rw [hsecond]
  have howner : second.owner = r.owner := by
    rw [owner_eq_of_setup h.calls.course.setup_eq, create_eq_ok hcreate, hsecond]
  apply (concludes_recover hrunning).mono
  rintro flag' p' rebuilt result ⟨now, rfl, rfl⟩
  rw [howner]
  have hadopted := hcorresponds.mem_adoptAll_iff hempty howner now
  have hheld := hcorresponds.held?_adoptAll hempty howner now
  have hsettings : (second.adoptAll (p.domainsOf r.owner) now).2.settings = settings' := by
    have hsetup := setup_adoptAll (r := second) (p.domainsOf r.owner) now
    rw [hsecond] at hsetup ⊢
    exact congrArg (fun setup => setup.2.2) hsetup
  refine ⟨_, rfl, second.nodup_adoptAll _ now, hadopted, hheld,
    hcorresponds.primary_adoptAll hnone, ?_⟩
  intro schedule? requests hschedule hresolve
  apply register_registered (hsettings.symm ▸ validate_of_create hcreate') hschedule
  intro request hrequest
  obtain ⟨label, hlabel, hmem⟩ := hresolve request hrequest
  rw [hsettings]
  refine ⟨label, hlabel, ?_⟩
  rw [← isSome_held?, hheld, isSome_held?]
  exact (hadopted _).mp hmem

end UsernameRegistration

namespace Rehearsal

/-- A call to register names that a platform answers by itself. -/
def registeringOn (p : Platform) (requests : List String) (r : UsernameRegistration) :
    Log × Platform × Task UsernameRegistration
      (Except RegistrationError (Option UsernameOutcome)) :=
  (UsernameRegistration.register none requests r).playOn (fun _ => false) p

/-- A name is registered, and then a further one together with it. -/
def early : Log × Platform × Task UsernameRegistration
    (Except RegistrationError (Option UsernameOutcome)) :=
  registeringOn (.empty .default) ["Alice"] registrant

def late : Log × Platform × Task UsernameRegistration
    (Except RegistrationError (Option UsernameOutcome)) :=
  registeringOn early.2.1 ["bob", "ALICE"] early.2.2.state

/-- Another registration of the same owner, for names under another parent. -/
def successor : UsernameRegistration :=
  ⟨lock.identity, key, { Settings.default with parent := "org" }, .empty, none, none⟩

theorem fulfilled_registeringOn {log : Log} {r : UsernameRegistration} {p : Platform}
    {requests reported : List String} {call : Log × Platform × Task UsernameRegistration
      (Except RegistrationError (Option UsernameOutcome))}
    (h : UsernameRegistration.Fulfilled registrant (.empty .default) log r p)
    (hcall : call = registeringOn p requests r)
    (hcompleted : call.2.2.result? = some (.ok (some (.completed reported)))) :
    UsernameRegistration.Fulfilled registrant (.empty .default) (log ++ call.1) call.2.2.state
      call.2.1 := by
  apply h.completed
  rw [← Task.eq_done_of_result? hcompleted, hcall]
  exact Task.plays_playOn ..

theorem fulfilled_late : UsernameRegistration.Fulfilled registrant (.empty .default)
    ([] ++ early.1 ++ late.1) late.2.2.state late.2.1 := by
  have hearly : early.2.2.result? = some (.ok (some (.completed ["alice"]))) := by decide +kernel
  have hlate : late.2.2.result? = some (.ok (some (.completed ["bob", "alice"]))) := by
    decide +kernel
  have hfirst := fulfilled_registeringOn .begun (show early = _ from rfl) hearly
  exact fulfilled_registeringOn hfirst (show late = _ from rfl) hlate

end Rehearsal

open Rehearsal in
/-- Two names are registered under one parent and recovered for another one. Asked for again in other
spellings, they are registered at once. -/
theorem UsernameRegistration.recover_rebuilds_alice :
    (Fulfilled registrant (.empty .default) ([] ++ early.1 ++ late.1) late.2.2.state late.2.1) ∧
    late.2.1.failing = 0 ∧
    (recover successor).Concludes (fun _ _ rebuilt result => ∃ adopted, result = .ok adopted ∧
      "alice.dash" ∈ adopted ∧ "bob.dash" ∈ adopted ∧ rebuilt.primary = some "alice.dash" ∧
      ∃ reported, register none ["ALICE.dash", " bob.DASH"] rebuilt =
        .done rebuilt (.ok (some (.completed reported)))) false late.2.1 := by
  have hcreate : create lock.identity Rehearsal.key .default = .ok registrant := rfl
  have hcreate' : create lock.identity Rehearsal.key { Settings.default with parent := "org" } =
      .ok successor := rfl
  have hfree : ∀ kept ∈ (Platform.empty .default).documents,
      kept.item.owner = lock.identity → kept.item.kind ≠ .domain :=
    fun _ hmem => absurd hmem List.not_mem_nil
  have hrunning : late.2.1.failing = 0 := by decide +kernel
  have halice : late.2.2.state.stateOf? "alice.dash" = some .registered := by decide +kernel
  have hbob : late.2.2.state.stateOf? "bob.dash" = some .registered := by decide +kernel
  have hprimary : late.2.2.state.primary = some "alice.dash" := by decide +kernel
  refine ⟨fulfilled_late, hrunning, ?_⟩
  apply (recover_rebuilds hcreate hcreate' hfree fulfilled_late hrunning false).mono
  rintro flag p rebuilt result ⟨adopted, rfl, -, hadopted, -, hsame, hrepeated⟩
  have hmem := (hadopted "alice.dash").mpr halice
  have hmem' := (hadopted "bob.dash").mpr hbob
  refine ⟨adopted, rfl, hmem, hmem', hsame.trans hprimary, ?_⟩
  apply hrepeated none _ (fun schedule hschedule => nomatch hschedule)
  intro request hrequest
  rcases List.mem_pair.mp hrequest with rfl | rfl
  · exact ⟨⟨"ALICE", "alice", "dash"⟩, by decide +kernel, hmem⟩
  · exact ⟨⟨"bob", "bob", "dash"⟩, by decide +kernel, hmem'⟩

end Enrolment
