import Enrolment.Proofs.Usernames.Holdings

/-!
Claims are never lost. Whatever happens to a registration, every name that has a claim keeps one, and a
registered claim stays registered.
-/

namespace Enrolment

/-- What holds of the value of a key, and of every value that one of some keys changes to, holds once
these are changed one by one. -/
theorem Table.foldl_adjust_keeps {κ ν : Type} [DecidableEq κ] {f : ν → ν} {P : Option ν → Prop}
    {keys : List κ} {t : Table κ ν} {k : κ} (h : P (t.find? k))
    (hf : k ∈ keys → ∀ v, P (some v) → P (some (f v))) :
    P ((keys.foldl (fun t k => t.adjust k f) t).find? k) := by
  induction keys generalizing t with
  | nil => exact h
  | cons first rest ih =>
    refine ih ?_ fun hmem => hf (List.mem_cons_of_mem first hmem)
    rw [find?_adjust]
    split
    next heq =>
      subst heq
      cases hv : t.find? k with
      | none => rwa [hv] at h
      | some v => exact hf List.mem_cons_self v (hv ▸ h)
    next => exact h

/-- What values keep as they are changed, those of some keys keep as these are changed one by one. -/
theorem Table.exists_find?_foldl_adjust {κ ν : Type} [DecidableEq κ] {f : ν → ν} (P : ν → Prop)
    (hf : ∀ v, P v → P (f v)) (keys : List κ) {t : Table κ ν} {k : κ} {v : ν}
    (h : t.find? k = some v) :
    ∃ v', (keys.foldl (fun t k => t.adjust k f) t).find? k = some v' ∧ (P v → P v') := by
  refine foldl_adjust_keeps (P := fun v? => ∃ v', v? = some v' ∧ (P v → P v')) ⟨v, h, id⟩ ?_
  rintro - v' ⟨_, ⟨rfl⟩, hkeeps⟩
  exact ⟨f v', rfl, hf v' ∘ hkeeps⟩

namespace UsernameRegistration

variable {r r' r'' : UsernameRegistration} {name : String}

/-- Every claim is still there, and still registered if it was. -/
def Outlives (r r' : UsernameRegistration) : Prop :=
  ∀ name c, r.find? name = some c →
    ∃ c', r'.find? name = some c' ∧ (c.state = .registered → c'.state = .registered)

theorem Outlives.refl (r : UsernameRegistration) : r.Outlives r := fun _ c hc => ⟨c, hc, id⟩

theorem Outlives.trans (h : r.Outlives r') (h' : r'.Outlives r'') : r.Outlives r'' := by
  intro name c hc
  obtain ⟨c', hc', hkeeps⟩ := h name c hc
  obtain ⟨c'', hc'', hkeeps'⟩ := h' name c' hc'
  exact ⟨c'', hc'', hkeeps' ∘ hkeeps⟩

theorem Outlives.of_find? (hsame : ∀ name, r'.find? name = r.find? name) : r.Outlives r' :=
  fun name c hc => ⟨c, (hsame name).trans hc, id⟩

theorem Outlives.stateOf?_registered (h : r.Outlives r')
    (hregistered : r.stateOf? name = some .registered) : r'.stateOf? name = some .registered := by
  obtain ⟨c, hc, hstate⟩ := stateOf?_eq_some.mp hregistered
  obtain ⟨c', hc', hkeeps⟩ := h name c hc
  exact stateOf?_eq_some.mpr ⟨c', hc', hkeeps hstate⟩

theorem Outlives.isSome (h : r.Outlives r') (hsome : (r.find? name).isSome) :
    (r'.find? name).isSome := by
  obtain ⟨c, hc⟩ := Option.isSome_iff_exists.mp hsome
  obtain ⟨c', hc', -⟩ := h name c hc
  exact Option.isSome_iff_exists.mpr ⟨c', hc'⟩

theorem outlives_advance (names : List String) (target : ClaimState) (now : Timestamp) :
    r.Outlives (r.advance names target now) := by
  have hkeeps (c : Claim) (hregistered : c.state = .registered) :
      (c.moved target now).state = .registered := by
    rwa [Claim.moved_of_isFinal (by rw [hregistered]; rfl)]
  intro name c hc
  exact Table.exists_find?_foldl_adjust (fun c => c.state = .registered) hkeeps names hc

theorem outlives_expire (batch : List String) (now : Timestamp) :
    r.Outlives (r.expire batch now) := by
  have hkeeps (c : Claim) (hregistered : c.state = .registered) :
      (c.expire now).state = .registered := by
    rwa [Claim.expire_of_isFinal (by rw [hregistered]; rfl)]
  intro name c hc
  exact Table.exists_find?_foldl_adjust (fun c => c.state = .registered) hkeeps batch hc

variable [Suite]

theorem outlives_renewed {label : Label} {salt : Salt} {now : Timestamp}
    (hstate : r.stateOf? label.fullName = none ∨ r.stateOf? label.fullName = some .timedOut) :
    r.Outlives (r.put (.fresh label r.owner salt now)) := by
  intro name c hc
  by_cases hname : name = label.fullName
  · refine ⟨.fresh label r.owner salt now, ?_, ?_⟩
    · rw [find?_put]
      exact if_pos hname
    · intro hregistered
      rw [← hname, stateOf?, hc] at hstate
      simp [hregistered] at hstate
  · refine ⟨c, ?_, id⟩
    rw [find?_put]
    exact (if_neg hname).trans hc

theorem outlives_adopt (d : Document) (now : Timestamp) : r.Outlives (r.adopt d now).2 := by
  intro name c hc
  rcases r.find?_adopt_cases d now name with hsame | ⟨-, label, salt, -, -, hadopted⟩
  · exact ⟨c, hsame.trans hc, id⟩
  · exact ⟨_, hadopted, fun _ => rfl⟩

end UsernameRegistration

end Enrolment
