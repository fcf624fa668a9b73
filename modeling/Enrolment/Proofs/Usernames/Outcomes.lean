import Enrolment.Proofs.Usernames.Standstill
import Mathlib.Data.List.Nodup

/-!
The outcomes of calls to register names. A call reports what has become of the names that it worked
on, and these share one end: a caller never finds one of them registered and another one timed out.
-/

namespace Enrolment

namespace UsernameRegistration

/-- What a call reports, and what has become of the names that it worked on since its batch was
formed. Completed, it reports everything that was requested. -/
def IsTruthful (r formed r' : UsernameRegistration) (labels batch : List Label) (es : Log) :
    Option UsernameOutcome → Prop
  | some (.completed names) =>
    names = labels.map r.reportName ∧ ∀ l ∈ labels, r'.stateOf? l.fullName = some .registered
  | some (.timedOut names) =>
    names = batch.map r.reportName ∧ names ≠ [] ∧
      ∀ l ∈ batch, r'.stateOf? l.fullName = some .timedOut
  | some (.failed e) =>
    (∃ before t reason, es = before ++ [⟨.submit t, .error (.invalid reason)⟩] ∧
      e = .rejected reason) ∧ Standing formed r' (batch.map Label.fullName) 0
  | none => Standing formed r' (batch.map Label.fullName) 0

variable {first r r' formed looked : UsernameRegistration} {log found later : Log}
  {labels : List Label} {batch : List String}

/-- Every claim of a batch that was just formed is on its way. -/
theorem Enlisted.standing (h : Enlisted labels log r later r' batch) :
    Standing r' r' batch 0 := by
  intro name hname
  have hstate := h.stateOf?_eq name
  rw [if_pos hname] at hstate
  refine ⟨_, _, hstate, hstate, ?_, Nat.le_refl _, Nat.zero_le _⟩
  rw [h.batch_eq] at hname
  obtain ⟨-, hne⟩ := mem_map_openLabels.mp hname
  generalize r.stateOf? name = state at hne
  cases state with
  | none => rfl
  | some state =>
    cases state <;> first | rfl | exact absurd rfl hne

/-- A call tells the truth about each name that it worked on. -/
theorem BatchEnds.isTruthful {step : Step} {labels batch : List Label} {es : Log}
    (hend : BatchEnds formed (batch.map Label.fullName) (batch.map r.reportName) es r' step)
    (hstop : batch = [] → step = .proceed)
    (hrest : ∀ l ∈ labels, l ∉ batch → r'.stateOf? l.fullName = some .registered) :
    IsTruthful r formed r' labels batch es (step.outcome (labels.map r.reportName)) := by
  cases hend with
  | completed h =>
    refine ⟨rfl, ?_⟩
    intro l hl
    by_cases hmem : l ∈ batch
    · exact h _ (List.mem_map_of_mem hmem)
    · exact hrest l hl hmem
  | timedOut h =>
    refine ⟨rfl, ?_, fun l hl => h _ (List.mem_map_of_mem hl)⟩
    intro hnone
    have hnil : batch = [] := by simpa using hnone
    cases hstop hnil
  | failed t reason h => exact ⟨⟨_, t, reason, rfl, rfl⟩, h⟩
  | paused h => exact h

section

variable [Suite]

/-- Working on a batch that was just formed ends as one. -/
theorem Enlisted.batchEnds {step : Step} {es : Log} (h : Enlisted labels log r later formed batch)
    (hkept : formed.IsKept) (hlabels : ∀ l ∈ labels, l.IsReadable)
    (hnodup : (labels.map Label.fullName).Nodup)
    (hcarried : Carried batch stages later formed es r' step) :
    BatchEnds formed batch ((r.openLabels labels).map formed.reportName) es r' step := by
  have hbatch := h.nodup hnodup
  have hstanding := h.standing
  obtain rfl := h.batch_eq
  exact hcarried.batchEnds hkept (fun l hl => hlabels l (List.mem_filter.mp hl).1) hbatch hstanding

/-- How a call ends that exchanged a log and took a registration to another one. The batch of the call
consists of the requested names that are not registered once the platform was asked for those it
lists; it is formed before anything is submitted. -/
def EndsAsOne (r r' : UsernameRegistration) (labels : List Label) (es : Log)
    (outcome : Option UsernameOutcome) : Prop :=
  ∃ found looked formed, found <+: es ∧ Looked labels [] r found looked ∧
    (∀ name, formed.stateOf? name =
      if name ∈ (looked.openLabels labels).map Label.fullName then
        some (enlistedState (looked.stateOf? name))
      else looked.stateOf? name) ∧
    IsTruthful r formed r' labels (looked.openLabels labels) es outcome ∧
    (looked.openLabels labels = [] → Log.submitted es = [] ∧
      outcome = some (.completed (labels.map r.reportName)))

theorem Registers.endsAsOne {outcome : Option UsernameOutcome}
    (h : Registers r labels [] r later r' outcome) (hkept : r.IsKept)
    (hlabels : ∀ l ∈ labels, l.IsReadable) (hnodup : (labels.map Label.fullName).Nodup) :
    EndsAsOne r r' labels later outcome := by
  cases h with
  | @intro found formedLog later looked formed r' batch step hlooked hfound hformed henlisted
      hextends hempty hcarried =>
    have hbatch : batch.Nodup := henlisted.nodup hnodup
    have hends := henlisted.batchEnds (hformed.isKept hkept) hlabels hnodup hcarried
    obtain rfl := henlisted.batch_eq
    have hreport : formed.reportName = r.reportName := reportName_eq_of_setup hformed.setup_eq
    rw [hreport] at hends
    have hrest : ∀ l ∈ labels, l ∉ looked.openLabels labels →
        r'.stateOf? l.fullName = some .registered := by
      intro l hl hout
      have hregistered : looked.stateOf? l.fullName = some .registered := by
        simpa [openLabels, hl] using hout
      have hname : l.fullName ∉ (looked.openLabels labels).map Label.fullName :=
        fun hmem => (mem_map_openLabels.mp hmem).2 hregistered
      rw [hcarried.stateOf?_eq hbatch hname, henlisted.stateOf?_eq, if_neg hname]
      exact hregistered
    obtain ⟨es, rfl, -⟩ := henlisted.spares
    refine ⟨found, looked, formed, (List.prefix_append found es).trans hextends, hlooked,
      henlisted.stateOf?_eq, ?_, fun hnone => ?_⟩
    · exact hends.isTruthful (fun hnone => (hempty (by simp [hnone])).2.2) hrest
    · obtain ⟨rfl, -, rfl⟩ := hempty (by simp [hnone])
      have hspares : Log.Spares [] _ := hlooked.spares.trans henlisted.spares
      exact ⟨hspares.submitted, rfl⟩

end

end UsernameRegistration

namespace Sample

end Sample

end Enrolment
