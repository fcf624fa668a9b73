import Enrolment.Name.Commitment

/-!
Full names determine names. A label that was read has no dot in it, so that the first dot of its full
name is where the parent starts; labels with one full name are committed to, reported and looked for
alike.
-/

namespace Enrolment

namespace Label

/-- A label that some request reads as. -/
def IsReadable (l : Label) : Prop := ∃ request parent, Label.parse request parent = .ok l

theorem all_isNameChar_of_labelFault? {cs : List Char} (h : labelFault? cs = none) :
    ∀ c ∈ cs, isNameChar c := by
  unfold labelFault? at h
  split at h
  · cases h
  · split at h
    · cases h
    next hfind => simpa using hfind

theorem read_eq_ok {request parent : List Char} {l : Label} (h : read request parent = .ok l) :
    ∃ label domain, labelFault? (lower label) = none ∧ parentFault? (lower domain) = none ∧
      l = ⟨String.ofList label, String.ofList (lower label), String.ofList (lower domain)⟩ := by
  unfold read at h
  generalize split (Text.trim request) parent = parts at h
  obtain ⟨label, domain⟩ := parts
  dsimp only at h
  split at h
  · cases h
  next hlabel =>
    split at h
    · cases h
    next hparent =>
      simp only [Except.ok.injEq] at h
      exact ⟨label, domain, hlabel, hparent, h.symm⟩

theorem IsReadable.eq_lower {l : Label} (h : l.IsReadable) :
    ∃ label domain, labelFault? (lower label) = none ∧ parentFault? (lower domain) = none ∧
      l = ⟨String.ofList label, String.ofList (lower label), String.ofList (lower domain)⟩ := by
  obtain ⟨request, parent, hparse⟩ := h
  unfold parse at hparse
  cases hread : read request.toList parent.toList with
  | error fault =>
    rw [hread] at hparse
    cases hparse
  | ok l' =>
    rw [hread] at hparse
    cases hparse
    exact read_eq_ok hread

theorem IsReadable.dot_not_mem {l : Label} (h : l.IsReadable) : '.' ∉ l.normalized.toList := by
  obtain ⟨label, domain, hlabel, -, rfl⟩ := h.eq_lower
  intro hdot
  have hname := all_isNameChar_of_labelFault? hlabel '.' (by simpa using hdot)
  exact absurd hname (by decide)

/-- Two texts without a dot that are followed by one are alike if what they start is. -/
theorem append_dot_inj {a b : List Char} {p q : List Char} (ha : '.' ∉ a) (hb : '.' ∉ b)
    (h : a ++ '.' :: p = b ++ '.' :: q) : a = b ∧ p = q := by
  induction a generalizing b with
  | nil =>
    cases b with
    | nil => simpa using h
    | cons c cs =>
      obtain ⟨rfl, -⟩ : '.' = c ∧ p = cs ++ '.' :: q := by simpa using h
      simp at hb
  | cons c cs ih =>
    cases b with
    | nil =>
      obtain ⟨rfl, -⟩ : c = '.' ∧ cs ++ '.' :: p = q := by simpa using h
      simp at ha
    | cons d ds =>
      obtain ⟨rfl, htail⟩ : c = d ∧ cs ++ '.' :: p = ds ++ '.' :: q := by simpa using h
      obtain ⟨rfl, rfl⟩ := ih (by simp_all) (by simp_all) htail
      exact ⟨rfl, rfl⟩

/-- Labels that were read and share a full name share the label proper and the parent. -/
theorem fullName_inj {a b : Label} (ha : a.IsReadable) (hb : b.IsReadable)
    (h : a.fullName = b.fullName) : a.normalized = b.normalized ∧ a.parent = b.parent := by
  have hchars : a.normalized.toList ++ '.' :: a.parent.toList =
      b.normalized.toList ++ '.' :: b.parent.toList := by
    simpa [fullName] using congrArg String.toList h
  obtain ⟨hlabel, hparent⟩ := append_dot_inj ha.dot_not_mem hb.dot_not_mem hchars
  exact ⟨String.toList_inj.mp hlabel, String.toList_inj.mp hparent⟩

theorem lower_lower (cs : List Char) : lower (lower cs) = lower cs := by
  unfold lower
  rw [List.map_map]
  apply List.map_congr_left
  intro c _
  unfold Function.comp Char.toLower
  grind

theorem isBlank_of_isNameChar {c : Char} (h : isNameChar c = true) : Text.isBlank c = false := by
  have hlower : c.isLower = (decide (c.val ≥ 'a'.val) && decide (c.val ≤ 'z'.val)) := rfl
  simp only [isNameChar, hlower, Char.isDigit, Bool.or_eq_true, Bool.and_eq_true,
    decide_eq_true_eq, ge_iff_le, UInt32.le_iff_toNat_le] at h
  have hrange : 0x2d ≤ c.toNat ∧ c.toNat ≤ 0x7a := by
    rcases h with (⟨hleast, hlast⟩ | ⟨hleast, hlast⟩) | rfl
    · exact ⟨Nat.le_trans (by decide) hleast, hlast⟩
    · exact ⟨Nat.le_trans (by decide) hleast, Nat.le_trans hlast (by decide)⟩
    · decide
  unfold Text.isBlank
  grind

/-- Nothing is trimmed of a text without blanks. -/
theorem trim_eq_self {cs : List Char} (h : ∀ c ∈ cs, Text.isBlank c = false) :
    Text.trim cs = cs := by
  have hkeeps {cs : List Char} (h : ∀ c ∈ cs, Text.isBlank c = false) :
      cs.dropWhile Text.isBlank = cs := by
    cases cs with
    | nil => rfl
    | cons c rest => simp [h c]
  unfold Text.trim Text.trimLeft Text.trimRight
  rw [hkeeps h, hkeeps (by simpa using h), List.reverse_reverse]

/-- The lower-case form of a label that was read reads as itself under the parent of the label. -/
theorem IsReadable.parse_normalized {l : Label} (h : l.IsReadable) :
    parse l.normalized l.parent = .ok ⟨l.normalized, l.normalized, l.parent⟩ := by
  have hdot := h.dot_not_mem
  obtain ⟨label, domain, hlabel, hdomain, rfl⟩ := h.eq_lower
  have hblank : ∀ c ∈ lower label, Text.isBlank c = false := by
    intro c member
    exact isBlank_of_isNameChar (all_isNameChar_of_labelFault? hlabel c member)
  have hsplit : split (lower label) (lower domain) = (lower label, lower domain) := by
    have hnone (cs : List Char) (h : '.' ∉ cs) : cs.dropWhile (· ≠ '.') = [] := by
      induction cs with
      | nil => rfl
      | cons c rest ih =>
        obtain ⟨hc, hrest⟩ : '.' ≠ c ∧ '.' ∉ rest := by simpa using h
        simpa [List.dropWhile_cons, Ne.symm hc] using ih hrest
    have hlower : '.' ∉ lower label := by simpa using hdot
    unfold split
    rw [hnone _ hlower]
  unfold parse read
  simp only [String.toList_ofList, trim_eq_self hblank, hsplit, lower_lower, hlabel, hdomain]
  rfl

end Label

/-- A commitment speaks of a label only by its full name. -/
theorem commitment_congr [Suite] {a b : Label} (h : a.fullName = b.fullName) (salt : Salt)
    (owner : IdentityId) : commitment salt a owner = commitment salt b owner := by
  simp only [commitment, Commitment.preimage, h]

end Enrolment
