import Mathlib.Data.List.DropRight
import Enrolment.Proofs.Name.FullName

/-!
How names are spelt in requests.

A request is a label, or a label, a dot and a domain, with blanks around it. It is read exactly if it
is spelt so, whatever the case of its letters, and what is read of it is spelt so again.
-/

namespace Enrolment

namespace Text

/-- The text is what blanks surround. -/
structure IsCore (text request : List Char) : Prop where
  surrounded : ∃ front back, request = front ++ text ++ back ∧
    (∀ c ∈ front, isBlank c = true) ∧ ∀ c ∈ back, isBlank c = true
  starts : ∀ c ∈ text.head?, isBlank c = false
  ends : ∀ c ∈ text.getLast?, isBlank c = false

variable {text request : List Char}

theorem dropWhile_eq_self_of_head? {cs : List Char} (h : ∀ c ∈ cs.head?, isBlank c = false) :
    cs.dropWhile isBlank = cs := by
  cases cs with
  | nil => rfl
  | cons c rest => simp [h c rfl]

theorem IsCore.trim_eq (h : IsCore text request) : trim request = text := by
  obtain ⟨⟨front, back, rfl, hfront, hback⟩, hstarts, hends⟩ := h
  have hlast : text.reverse.dropWhile isBlank = text.reverse :=
    dropWhile_eq_self_of_head? (by simpa using hends)
  have hleft : trimLeft (front ++ text ++ back) = (text ++ back).dropWhile isBlank := by
    rw [trimLeft, List.append_assoc, List.dropWhile_append_of_pos hfront]
  have hright : trimRight (text ++ back) = text := by
    rw [trimRight, List.reverse_append, List.dropWhile_append_of_pos (by simpa using hback), hlast,
      List.reverse_reverse]
  rw [trim, hleft]
  cases text with
  | nil =>
    -- all is blank, so that nothing is left of it
    rw [List.nil_append, List.dropWhile_eq_nil_iff.mpr hback]
    rfl
  | cons c rest =>
    rw [dropWhile_eq_self_of_head? (by simpa using hstarts), hright]

theorem isCore_trim (request : List Char) : IsCore (trim request) request := by
  have hstarts : ∀ c ∈ (trimLeft request).head?, isBlank c = false := by
    have hhead := List.head?_dropWhile_not isBlank request
    intro c hc
    rw [trimLeft] at hc
    rw [Option.mem_def.mp hc] at hhead
    exact hhead
  have hends : ∀ c ∈ (trim request).getLast?, isBlank c = false := by
    have hhead := List.head?_dropWhile_not isBlank (trimLeft request).reverse
    intro c hc
    rw [trim, trimRight, List.getLast?_reverse] at hc
    rw [Option.mem_def.mp hc] at hhead
    exact hhead
  have hback : trimLeft request =
      trim request ++ ((trimLeft request).reverse.takeWhile isBlank).reverse := by
    rw [trim, trimRight, ← List.reverse_append, List.takeWhile_append_dropWhile, List.reverse_reverse]
  refine ⟨⟨request.takeWhile isBlank, ((trimLeft request).reverse.takeWhile isBlank).reverse,
    ?_, ?_, ?_⟩, ?_, hends⟩
  · rw [List.append_assoc, ← hback]
    exact List.takeWhile_append_dropWhile.symm
  · exact fun c hc => List.mem_takeWhile_imp hc
  · exact fun c hc => List.mem_takeWhile_imp (List.mem_reverse.mp hc)
  · intro c hc
    apply hstarts
    rw [hback]
    cases hcore : trim request with
    | nil => simp [hcore] at hc
    | cons d rest => simpa [hcore] using hc

theorem isCore_iff : IsCore text request ↔ trim request = text :=
  ⟨IsCore.trim_eq, fun h => h ▸ isCore_trim request⟩

end Text

namespace Label

/-- A letter of either case, a digit or a hyphen. -/
def isSpeltWith (c : Char) : Bool := c.isAlphanum || c = '-'

/-- A text that a label can be spelt with. -/
structure IsLabel (cs : List Char) : Prop where
  least : 3 ≤ cs.length
  most : cs.length ≤ 63
  chars : ∀ c ∈ cs, isSpeltWith c = true
  starts : cs.head? ≠ some '-'
  ends : cs.getLast? ≠ some '-'

/-- A text that a parent domain can be spelt with: segments with dots between them. -/
def IsDomain (cs : List Char) : Prop :=
  ∃ parts : List (List Char), parts ≠ [] ∧
    (∀ part ∈ parts, part ≠ [] ∧ ∀ c ∈ part, isSpeltWith c = true) ∧ cs = ['.'].intercalate parts

/-- How a text without surrounding blanks divides into a label and a domain, where a text without a
dot takes the domain that is given. -/
inductive Divides (given : List Char) : (text label domain : List Char) → Prop where
  | bare {label : List Char} (hdot : '.' ∉ label) : Divides given label label given
  | dotted {label domain : List Char} (hdot : '.' ∉ label) :
      Divides given (label ++ '.' :: domain) label domain

/-- A request that spells a label and a domain, where the given domain stands in for a missing one. -/
def Spells (request given : String) (label domain : List Char) : Prop :=
  ∃ text, Text.IsCore text request.toList ∧ Divides given.toList text label domain ∧
    IsLabel label ∧ IsDomain domain

section Letters

theorem isUpper_iff (c : Char) : c.isUpper = true ↔ 0x41 ≤ c.toNat ∧ c.toNat ≤ 0x5a := by
  change decide ('A'.val ≤ c.val ∧ c.val ≤ 'Z'.val) = true ↔ _
  rw [decide_eq_true_iff]
  rfl

theorem toNat_toLower (c : Char) :
    c.toLower.toNat = if c.isUpper = true then c.toNat + 0x20 else c.toNat := by
  unfold Char.toLower
  split
  next h =>
    have hupper : c.isUpper = true := decide_eq_true h
    have hlast : c.val.toNat ≤ 0x5a := ((isUpper_iff c).mp hupper).2
    rw [if_pos hupper]
    change (c.val + 0x20).toNat = c.val.toNat + 0x20
    rw [UInt32.toNat_add, Nat.mod_eq_of_lt]
    · rfl
    · change c.val.toNat + 0x20 < 2 ^ 32
      omega
  next h =>
    have hupper : ¬c.isUpper = true := mt of_decide_eq_true h
    rw [if_neg hupper]

theorem isBlank_toLower (c : Char) : Text.isBlank c.toLower = Text.isBlank c := by
  unfold Text.isBlank
  rw [toNat_toLower]
  split
  next h =>
    have hrange := (isUpper_iff c).mp h
    grind
  next => rfl

theorem toLower_eq_iff {c d : Char} (h : d.toNat < 0x41) : c.toLower = d ↔ c = d := by
  rw [← Char.toNat_inj, ← Char.toNat_inj, toNat_toLower]
  split
  next hupper =>
    have hrange := (isUpper_iff c).mp hupper
    omega
  next => rfl

theorem isNameChar_toLower (c : Char) : isNameChar c.toLower = isSpeltWith c := by
  have hlower (d : Char) : d.isLower = true ↔ 0x61 ≤ d.toNat ∧ d.toNat ≤ 0x7a := by
    change (decide ('a'.val ≤ d.val) && decide (d.val ≤ 'z'.val)) = true ↔ _
    rw [Bool.and_eq_true, decide_eq_true_iff, decide_eq_true_iff]
    rfl
  have hdigit (d : Char) : d.isDigit = true ↔ 0x30 ≤ d.toNat ∧ d.toNat ≤ 0x39 := by
    change (decide ('0'.val ≤ d.val) && decide (d.val ≤ '9'.val)) = true ↔ _
    rw [Bool.and_eq_true, decide_eq_true_iff, decide_eq_true_iff]
    rfl
  have hspelt : isSpeltWith c = (c.isUpper || c.isLower || c.isDigit || decide (c = '-')) := rfl
  have hhyphen : c.toLower = '-' ↔ c = '-' := toLower_eq_iff (by decide)
  have hcode : c = '-' ↔ c.toNat = 0x2d := Char.toNat_inj.symm
  rw [Bool.eq_iff_iff, hspelt]
  simp only [isNameChar, Bool.or_eq_true, decide_eq_true_eq, hlower, hdigit, isUpper_iff,
    toNat_toLower, hhyphen, hcode]
  split <;> omega

end Letters

section Labels

variable {cs : List Char}

theorem mem_lower_iff {d : Char} (h : d.toNat < 0x41) : d ∈ lower cs ↔ d ∈ cs := by
  simp only [lower, List.mem_map, toLower_eq_iff h, exists_eq_right]

theorem isLabel_iff : IsLabel cs ↔ labelFault? (lower cs) = none := by
  have hlength : (lower cs).length = cs.length := List.length_map _
  have hchars : (lower cs).find? (fun c => !isNameChar c) = none ↔
      ∀ c ∈ cs, isSpeltWith c = true := by
    simp [lower, isNameChar_toLower]
  have hedge (end? : Option Char) : end?.map Char.toLower = some '-' ↔ end? = some '-' := by
    cases end? with
    | none => simp
    | some c => simp [toLower_eq_iff (c := c) (d := '-') (by decide)]
  have hstarts : (lower cs).head? = some '-' ↔ cs.head? = some '-' := by
    rw [lower, List.head?_map, hedge]
  have hends : (lower cs).getLast? = some '-' ↔ cs.getLast? = some '-' := by
    rw [lower, List.getLast?_map, hedge]
  unfold labelFault?
  rw [hlength]
  constructor
  · intro h
    have hmeasure : ¬(cs.length < 3 || 63 < cs.length) = true := by
      have hleast := h.least
      have hmost := h.most
      simp only [Bool.or_eq_true, decide_eq_true_eq]
      omega
    rw [if_neg hmeasure, hchars.mpr h.chars]
    simp [hstarts, hends, h.starts, h.ends]
  · intro h
    split at h
    · cases h
    next hmeasure =>
      split at h
      · cases h
      next hfound =>
        split at h
        · cases h
        next hedges =>
          simp only [Bool.or_eq_true, decide_eq_true_eq] at hmeasure hedges
          rw [hstarts, hends] at hedges
          exact ⟨by omega, by omega, hchars.mp hfound, fun h => hedges (.inl h),
            fun h => hedges (.inr h)⟩

end Labels

section Domains

variable {cs : List Char}

theorem segments_ne_nil (cs : List Char) : segments cs ≠ [] := by
  cases cs with
  | nil => simp [segments]
  | cons c cs =>
    unfold segments
    split
    · simp
    · split <;> simp

theorem segments_of_not_mem (hdot : '.' ∉ cs) : segments cs = [cs] := by
  induction cs with
  | nil => rfl
  | cons c cs ih =>
    obtain ⟨hc, hcs⟩ : '.' ≠ c ∧ '.' ∉ cs := by simpa using hdot
    rw [segments, if_neg (Ne.symm hc), ih hcs]

theorem segments_append (hdot : '.' ∉ cs) (rest : List Char) :
    segments (cs ++ '.' :: rest) = cs :: segments rest := by
  induction cs with
  | nil => simp [segments]
  | cons c cs ih =>
    obtain ⟨hc, hcs⟩ : '.' ≠ c ∧ '.' ∉ cs := by simpa using hdot
    rw [List.cons_append, segments, if_neg (Ne.symm hc), ih hcs]

/-- Parts without a dot are found again between the dots. -/
theorem segments_intercalate {parts : List (List Char)} (hne : parts ≠ [])
    (hdot : ∀ part ∈ parts, '.' ∉ part) : segments (['.'].intercalate parts) = parts := by
  induction parts with
  | nil => exact absurd rfl hne
  | cons part parts ih =>
    have hpart : '.' ∉ part := hdot part List.mem_cons_self
    cases parts with
    | nil => rw [List.intercalate_singleton, segments_of_not_mem hpart]
    | cons next rest =>
      rw [List.intercalate_cons_cons, List.append_assoc, List.singleton_append, segments_append hpart,
        ih (by simp) fun part hmem => hdot part (List.mem_cons_of_mem _ hmem)]

theorem intercalate_segments (cs : List Char) : ['.'].intercalate (segments cs) = cs := by
  induction cs with
  | nil => rfl
  | cons c cs ih =>
    obtain ⟨first, rest, hsegments⟩ := List.exists_cons_of_ne_nil (segments_ne_nil cs)
    rw [hsegments] at ih
    unfold segments
    split
    next hc =>
      rw [hsegments, List.intercalate_cons_cons, ih, hc]
      rfl
    next =>
      rw [hsegments]
      cases rest with
      | nil => simpa using ih
      | cons next rest =>
        rw [List.intercalate_cons_cons] at ih ⊢
        simpa using ih

theorem segments_lower (cs : List Char) : segments (lower cs) = (segments cs).map lower := by
  induction cs with
  | nil => rfl
  | cons c cs ih =>
    have hdot : c.toLower = '.' ↔ c = '.' := toLower_eq_iff (by decide)
    obtain ⟨first, rest, hsegments⟩ := List.exists_cons_of_ne_nil (segments_ne_nil cs)
    change segments (c.toLower :: lower cs) = _
    unfold segments
    by_cases hc : c = '.'
    · rw [if_pos (hdot.mpr hc), if_pos hc, ih]
      rfl
    · rw [if_neg (mt hdot.mp hc), if_neg hc, ih, hsegments]
      rfl

/-- A domain is spelt with the segments that it is divided into. -/
theorem isDomain_iff_segments :
    IsDomain cs ↔ ∀ part ∈ segments cs, part ≠ [] ∧ ∀ c ∈ part, isSpeltWith c = true := by
  constructor
  · rintro ⟨parts, hne, hparts, rfl⟩
    rw [segments_intercalate hne]
    · exact hparts
    · intro part hmem hdot
      exact absurd ((hparts part hmem).2 '.' hdot) (by decide)
  · intro h
    exact ⟨segments cs, segments_ne_nil cs, h, (intercalate_segments cs).symm⟩

theorem isDomain_iff : IsDomain cs ↔ parentFault? (lower cs) = none := by
  rw [isDomain_iff_segments, parentFault?]
  split
  next hempty =>
    have hnil : cs = [] := by simpa [lower] using hempty
    simp [hnil, segments]
  next =>
    have hparts : (segments (lower cs)).all (fun s => !s.isEmpty && s.all isNameChar) = true ↔
        ∀ part ∈ segments cs, part ≠ [] ∧ ∀ c ∈ part, isSpeltWith c = true := by
      rw [segments_lower]
      simp [lower, isNameChar_toLower]
    rw [← hparts]
    split
    next hall => exact iff_of_true hall rfl
    next hnot => exact iff_of_false hnot (by simp)

theorem isBlank_of_isSpeltWith {c : Char} (h : isSpeltWith c = true) : Text.isBlank c = false := by
  rw [← isBlank_toLower]
  exact isBlank_of_isNameChar (by rwa [isNameChar_toLower])

theorem mem_intercalate {parts : List (List Char)} {c : Char} (h : c ∈ ['.'].intercalate parts) :
    c = '.' ∨ ∃ part ∈ parts, c ∈ part := by
  induction parts with
  | nil => cases h
  | cons part parts ih =>
    cases parts with
    | nil =>
      rw [List.intercalate_singleton] at h
      exact .inr ⟨part, List.mem_cons_self, h⟩
    | cons next rest =>
      rw [List.intercalate_cons_cons, List.append_assoc, List.singleton_append] at h
      rcases List.mem_append.mp h with hpart | htail
      · exact .inr ⟨part, List.mem_cons_self, hpart⟩
      · rcases List.mem_cons.mp htail with rfl | hrest
        · exact .inl rfl
        · rcases ih hrest with rfl | ⟨other, hother, hc⟩
          · exact .inl rfl
          · exact .inr ⟨other, List.mem_cons_of_mem _ hother, hc⟩

theorem IsDomain.isBlank_eq_false (h : IsDomain cs) : ∀ c ∈ cs, Text.isBlank c = false := by
  obtain ⟨parts, -, hparts, rfl⟩ := h
  intro c hmem
  rcases mem_intercalate hmem with rfl | ⟨part, hpart, hc⟩
  · decide
  · exact isBlank_of_isSpeltWith ((hparts part hpart).2 c hc)

end Domains

section Requests

variable {request given : String} {text parent label domain : List Char} {l : Label}

theorem Divides.split_eq (h : Divides parent text label domain) :
    split text parent = (label, domain) := by
  have hbefore (hdot : '.' ∉ label) : ∀ c ∈ label, decide (c ≠ '.') = true := by
    intro c hmem
    exact decide_eq_true fun heq => hdot (heq ▸ hmem)
  cases h with
  | bare hdot =>
    rw [split, List.dropWhile_eq_nil_iff.mpr (hbefore hdot)]
  | dotted hdot =>
    rw [split, List.dropWhile_append_of_pos (hbefore hdot),
      List.takeWhile_append_of_pos (hbefore hdot)]
    simp

theorem divides_split (text parent : List Char) :
    Divides parent text (split text parent).1 (split text parent).2 := by
  by_cases hdot : '.' ∈ text
  · obtain ⟨label, domain, rfl, hlabel⟩ := List.eq_append_cons_of_mem hdot
    rw [(Divides.dotted hlabel).split_eq]
    exact .dotted hlabel
  · rw [(Divides.bare hdot).split_eq]
    exact .bare hdot

theorem divides_iff : Divides parent text label domain ↔ split text parent = (label, domain) := by
  constructor
  · exact Divides.split_eq
  · intro h
    have hdivides := divides_split text parent
    rwa [h] at hdivides

theorem spells_iff {label domain : List Char} : Spells request given label domain ↔
    split (Text.trim request.toList) given.toList = (label, domain) ∧
      labelFault? (lower label) = none ∧ parentFault? (lower domain) = none := by
  simp only [Spells, Text.isCore_iff, divides_iff, isLabel_iff, isDomain_iff, exists_eq_left']

/-- Requests are read exactly if they spell a label and a domain, and are read as these. -/
theorem parse_eq_ok_iff : parse request given = .ok l ↔
    ∃ label domain, Spells request given label domain ∧
      l = ⟨String.ofList label, String.ofList (lower label), String.ofList (lower domain)⟩ := by
  obtain ⟨label, domain, hsplit⟩ : ∃ label domain,
      split (Text.trim request.toList) given.toList = (label, domain) := ⟨_, _, rfl⟩
  simp only [spells_iff, hsplit, Prod.mk.injEq, parse, read]
  constructor
  · intro h
    cases hlabel : labelFault? (lower label) with
    | some fault => simp [hlabel, Except.mapError] at h
    | none =>
      cases hdomain : parentFault? (lower domain) with
      | some fault => simp [hlabel, hdomain, Except.mapError] at h
      | none =>
        simp only [hlabel, hdomain, Except.mapError, Except.ok.injEq] at h
        exact ⟨label, domain, ⟨⟨rfl, rfl⟩, hlabel, hdomain⟩, h.symm⟩
  · rintro ⟨_, _, ⟨⟨rfl, rfl⟩, hlabel, hdomain⟩, rfl⟩
    simp only [hlabel, hdomain, Except.mapError]

theorem trim_lower (cs : List Char) : Text.trim (lower cs) = lower (Text.trim cs) := by
  have hblank : Text.isBlank ∘ Char.toLower = Text.isBlank := funext isBlank_toLower
  simp [Text.trim, Text.trimLeft, Text.trimRight, lower, ← List.map_reverse, List.dropWhile_map,
    hblank]

theorem Divides.lowered (h : Divides parent text label domain) :
    Divides (lower parent) (lower text) (lower label) (lower domain) := by
  have hdot : '.' ∉ label → '.' ∉ lower label := mt (mem_lower_iff (by decide)).mp
  cases h with
  | bare hlabel => exact .bare (hdot hlabel)
  | dotted hlabel =>
    have hlower : lower (label ++ '.' :: domain) = lower label ++ '.' :: lower domain := by
      rw [lower, List.map_append]
      rfl
    rw [hlower]
    exact .dotted (hdot hlabel)

/-- What a request is divided into follows, but for the case of letters, from the request but for the
case of its letters. -/
theorem split_congr {cs cs' : List Char} (h : lower cs = lower cs') (parent : List Char) :
    lower (split (Text.trim cs) parent).1 = lower (split (Text.trim cs') parent).1 ∧
      lower (split (Text.trim cs) parent).2 = lower (split (Text.trim cs') parent).2 := by
  have hcore : lower (Text.trim cs) = lower (Text.trim cs') := by
    rw [← trim_lower, ← trim_lower, h]
  have hsplit := (divides_split (Text.trim cs) parent).lowered.split_eq
  have hsplit' := (divides_split (Text.trim cs') parent).lowered.split_eq
  rw [hcore, hsplit'] at hsplit
  exact ⟨(Prod.mk.inj hsplit).1.symm, (Prod.mk.inj hsplit).2.symm⟩

theorem parse_congr {request' : String} (hcase : lower request.toList = lower request'.toList)
    (h : parse request given = .ok l) : ∃ display, parse request' given = .ok { l with display } := by
  obtain ⟨label, domain, hspells, rfl⟩ := parse_eq_ok_iff.mp h
  obtain ⟨hsplit, hlabel, hdomain⟩ := spells_iff.mp hspells
  obtain ⟨hlabels, hdomains⟩ := split_congr hcase given.toList
  rw [hsplit] at hlabels hdomains
  obtain ⟨label', domain', hsplit'⟩ : ∃ label' domain',
      split (Text.trim request'.toList) given.toList = (label', domain') := ⟨_, _, rfl⟩
  rw [hsplit'] at hlabels hdomains
  dsimp only at hlabels hdomains
  refine ⟨String.ofList label', parse_eq_ok_iff.mpr
    ⟨label', domain', spells_iff.mpr ⟨hsplit', ?_, ?_⟩, ?_⟩⟩
  · rwa [← hlabels]
  · rwa [← hdomains]
  · rw [← hlabels, ← hdomains]

/-- The full name of a label that was read reads as itself, whatever domain is given. -/
theorem IsReadable.parse_fullName (h : l.IsReadable) (given : String) :
    parse l.fullName given = .ok { l with display := l.normalized } := by
  have hdot := h.dot_not_mem
  obtain ⟨label, domain, hlabel, hdomain, rfl⟩ := h.eq_lower
  have hchars : (⟨String.ofList label, String.ofList (lower label), String.ofList (lower domain)⟩ :
      Label).fullName.toList = lower label ++ '.' :: lower domain := by simp [fullName]
  refine parse_eq_ok_iff.mpr ⟨lower label, lower domain, spells_iff.mpr ⟨?_, ?_, ?_⟩, ?_⟩
  · rw [hchars, trim_eq_self]
    · exact Divides.split_eq (.dotted (by simpa using hdot))
    · intro c hmem
      rcases List.mem_append.mp hmem with hleft | hright
      · exact isBlank_of_isNameChar (all_isNameChar_of_labelFault? hlabel c hleft)
      · rcases List.mem_cons.mp hright with rfl | hright
        · decide
        · have hlowered : IsDomain (lower domain) := isDomain_iff.mpr (by rwa [lower_lower])
          exact hlowered.isBlank_eq_false c hright
  · rwa [lower_lower]
  · rwa [lower_lower]
  · rw [lower_lower, lower_lower]

end Requests

/-- A request is read exactly if it is spelt as a label with a domain, and then as this label and
domain in lower case, with the label as it is spelt. What is read reads as itself, with or without its
domain; the case of letters changes nothing but the spelling that is kept; and full names are equal
just if the labels and the domains are. -/
theorem labels_read_as_spelt :
    (∀ request given l, parse request given = .ok l ↔ ∃ label domain,
      Spells request given label domain ∧
      l = ⟨String.ofList label, String.ofList (lower label), String.ofList (lower domain)⟩) ∧
    (∀ l : Label, l.IsReadable →
      (∀ given, parse l.fullName given = .ok { l with display := l.normalized }) ∧
        parse l.normalized l.parent = .ok { l with display := l.normalized }) ∧
    (∀ (request request' given : String) (l : Label), lower request.toList = lower request'.toList →
      parse request given = .ok l → ∃ display, parse request' given = .ok { l with display }) ∧
    ∀ a b : Label, a.IsReadable → b.IsReadable →
      (a.fullName = b.fullName ↔ a.normalized = b.normalized ∧ a.parent = b.parent) := by
  refine ⟨fun _ _ _ => parse_eq_ok_iff, ?_, fun _ _ _ _ => parse_congr, ?_⟩
  · intro l hl
    exact ⟨hl.parse_fullName, hl.parse_normalized⟩
  · intro a b ha hb
    constructor
    · exact fullName_inj ha hb
    · rintro ⟨hnormalized, hparent⟩
      rw [fullName, fullName, hnormalized, hparent]

/-- A name with blanks around it, in letters of both cases and under a domain of two segments. -/
theorem labels_read_as_spelt_bob :
    parse " Bob-1.Sub.Example	" "dash" = .ok ⟨"Bob-1", "bob-1", "sub.example"⟩ ∧
      parse "bob-1.sub.example" "dash" = .ok ⟨"bob-1", "bob-1", "sub.example"⟩ ∧
      ∃ display, parse " BOB-1.sUB.EXAMPLE	" "dash" = .ok ⟨display, "bob-1", "sub.example"⟩ := by
  obtain ⟨hspelt, hagain, hcase, -⟩ := labels_read_as_spelt
  have hspells : Spells " Bob-1.Sub.Example	" "dash" "Bob-1".toList "Sub.Example".toList :=
    spells_iff.mpr ⟨by decide, by decide, by decide⟩
  have hread : parse " Bob-1.Sub.Example	" "dash" = .ok ⟨"Bob-1", "bob-1", "sub.example"⟩ :=
    (hspelt _ _ _).mpr ⟨_, _, hspells, by decide⟩
  refine ⟨hread, ?_, hcase _ _ _ _ (by decide) hread⟩
  exact (hagain _ ⟨_, _, hread⟩).1 "dash"

end Label

end Enrolment
