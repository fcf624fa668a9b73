import Enrolment.Timestamp
import Mathlib.Tactic.SplitIfs

/-!
The text of an instant reads back as that instant, whatever its year and however many decimals of a
second it shows. Every number in the text is followed by a mark that is no digit, which is where the
reading of the number stops.
-/

namespace Enrolment.Timestamp

section Numbers

theorem padded_ne_nil (width n : Nat) : padded width n ≠ [] := by
  simp [padded, Nat.toDigits_ne_nil]

theorem isDigit_of_mem_padded {width n : Nat} {c : Char} (h : c ∈ padded width n) :
    c.isDigit = true := by
  rcases List.mem_append.mp h with h | h
  · simp [List.eq_of_mem_replicate h]
  · exact Nat.isDigit_of_mem_toDigits (by decide) (by decide) h

theorem isDigit_of_padded_append_eq {width n : Nat} {c : Char} {rest more : List Char}
    (h : padded width n ++ rest = c :: more) : c.isDigit = true := by
  cases hpadded : padded width n with
  | nil => exact absurd hpadded (padded_ne_nil width n)
  | cons d ds =>
    rw [hpadded] at h
    cases h
    have hmem : c ∈ padded width n := by simp [hpadded]
    exact isDigit_of_mem_padded hmem

theorem length_padded {width n : Nat} (hpos : 0 < width) (h : n < Nat.pow 10 width) :
    (padded width n).length = width := by
  have hlength := (Nat.length_toDigits_le_iff (by decide : 1 < 10) hpos).mpr h
  simp [padded]
  omega

theorem ofDigitChars_padded (width n : Nat) : Nat.ofDigitChars 10 (padded width n) 0 = n := by
  simp [padded, Nat.ofDigitChars_append]

theorem takeWhile_take_eq_nil (k : Nat) {rest : List Char}
    (hrest : ∀ c ∈ rest.head?, c.isDigit = false) : (rest.take k).takeWhile Char.isDigit = [] := by
  cases rest with
  | nil => simp
  | cons c rest =>
    cases k with
    | zero => rfl
    | succ k => simp [hrest c rfl]

/-- Digits are read up to the first character that is none. -/
theorem scanNumber?_padded {most width n : Nat} {rest : List Char}
    (hmost : (padded width n).length ≤ most) (hrest : ∀ c ∈ rest.head?, c.isDigit = false) :
    scanNumber? most (padded width n ++ rest) = some (n, rest) := by
  have htake : ((padded width n ++ rest).take most).takeWhile Char.isDigit = padded width n := by
    rw [List.take_append, List.take_of_length_le hmost,
      List.takeWhile_append_of_pos fun c hc => isDigit_of_mem_padded hc]
    rw [takeWhile_take_eq_nil _ hrest, List.append_nil]
  have hvalue := ofDigitChars_padded width n
  rw [Nat.ofDigitChars_eq_foldl] at hvalue
  unfold scanNumber?
  simp only [htake, List.isEmpty_iff, padded_ne_nil, ↓reduceIte, List.drop_left]
  exact congrArg (fun k => some (k, rest)) hvalue

end Numbers

section Marks

/-- Nothing is trimmed before a character that is not blank. -/
theorem trimLeft_cons {c : Char} (h : Text.isBlank c = false) (rest : List Char) :
    Text.trimLeft (c :: rest) = c :: rest := by
  simp [Text.trimLeft, h]

theorem isBlank_of_isDigit {c : Char} (h : c.isDigit = true) : Text.isBlank c = false := by
  simp only [Char.isDigit, Bool.and_eq_true, decide_eq_true_eq] at h
  have hlow : 48 ≤ c.toNat := h.1
  have hhigh : c.toNat ≤ 57 := h.2
  simp [Text.isBlank]
  omega

theorem trimLeft_padded (width n : Nat) (rest : List Char) :
    Text.trimLeft (padded width n ++ rest) = padded width n ++ rest := by
  cases h : padded width n ++ rest with
  | nil => simp [padded_ne_nil] at h
  | cons c more =>
    apply trimLeft_cons
    exact isBlank_of_isDigit (isDigit_of_padded_append_eq h)

theorem scanMark?_cons {mark : Char} (h : Text.isBlank mark = false) (rest : List Char) :
    scanMark? mark (mark :: rest) = some rest := by
  simp [scanMark?, trimLeft_cons h]

theorem scanField?_padded {n : Nat} {rest : List Char} (h : n < 100)
    (hrest : ∀ c ∈ rest.head?, c.isDigit = false) :
    scanField? (padded 2 n ++ rest) = some (n, rest) := by
  have hlength : (padded 2 n).length = 2 := length_padded (by decide) h
  rw [scanField?, trimLeft_padded]
  apply scanNumber?_padded _ hrest
  omega

theorem scanField?_padded_cons {n : Nat} {c : Char} (h : n < 100) (hc : c.isDigit = false)
    (rest : List Char) : scanField? (padded 2 n ++ c :: rest) = some (n, c :: rest) := by
  apply scanField?_padded h
  simpa using hc

end Marks

section Parts

/-- A year without a sign is led by a digit, so that neither sign is taken for one. -/
theorem scanYear?_padded {n : Nat} {rest : List Char} (h : n < 10000)
    (hrest : ∀ c ∈ rest.head?, c.isDigit = false) :
    scanYear? (padded 4 n ++ rest) = some ((n : Int), rest) := by
  have hlength : (padded 4 n).length = 4 := length_padded (by decide) h
  have hnumber : scanNumber? 4 (padded 4 n ++ rest) = some (n, rest) := by
    apply scanNumber?_padded _ hrest
    omega
  unfold scanYear?
  rw [trimLeft_padded]
  split
  next heq => exact absurd (isDigit_of_padded_append_eq heq) (by decide)
  next heq => exact absurd (isDigit_of_padded_append_eq heq) (by decide)
  next => simp [hnumber]

theorem scanYear?_renderYear (year : Int) (rest : List Char) :
    scanYear? (renderYear year ++ '-' :: rest) = some (year, '-' :: rest) := by
  have hstop : ∀ c ∈ ('-' :: rest).head?, c.isDigit = false := by simp
  have hnumber : ∀ n, scanNumber? (padded 4 n ++ '-' :: rest).length (padded 4 n ++ '-' :: rest) =
      some (n, '-' :: rest) := by
    intro n
    apply scanNumber?_padded _ hstop
    simp
  unfold renderYear
  split
  next h =>
    simp only [Bool.and_eq_true, decide_eq_true_eq] at h
    have hvalue : (year.toNat : Int) = year := by omega
    rw [scanYear?_padded (by omega) hstop, hvalue]
  next =>
    unfold scanYear?
    by_cases hneg : year < 0
    · have hvalue : -(year.natAbs : Int) = year := by omega
      simp only [hneg, ↓reduceIte, List.cons_append, trimLeft_cons (c := '-') rfl, hnumber]
      exact congrArg (fun y => some (y, '-' :: rest)) hvalue
    · have hvalue : (year.natAbs : Int) = year := by omega
      simp only [hneg, ↓reduceIte, List.cons_append, trimLeft_cons (c := '+') rfl, hnumber]
      exact congrArg (fun y => some (y, '-' :: rest)) hvalue

theorem scanNanos?_padded {places n : Nat} (hpos : 0 < places) (hplaces : places ≤ 9)
    (h : n < Nat.pow 10 places) (rest : List Char) :
    scanNanos? ('.' :: padded places n ++ 'Z' :: rest) =
      some (n * Nat.pow 10 (9 - places), 'Z' :: rest) := by
  have hlength : (padded places n).length = places := length_padded hpos h
  have hnumber : scanNumber? 9 (padded places n ++ 'Z' :: rest) = some (n, 'Z' :: rest) := by
    apply scanNumber?_padded
    · omega
    · simp
  have hplaces' : (padded places n ++ 'Z' :: rest).length - ('Z' :: rest).length = places := by
    simp [hlength]
  have hmore : ('Z' :: rest).dropWhile Char.isDigit = 'Z' :: rest := rfl
  simp only [List.cons_append, scanNanos?, hnumber, Option.bind_eq_bind, Option.bind_some, hplaces',
    hmore]
  rfl

/-- The decimals that are left out are zeros. -/
theorem scanNanos?_renderNanos {nano : Nat} (h : nano < 1000000000) (rest : List Char) :
    scanNanos? (renderNanos nano ++ 'Z' :: rest) = some (nano, 'Z' :: rest) := by
  unfold renderNanos
  split
  next hzero => simp [scanNanos?, hzero]
  split
  next hmillis =>
    have hfits : nano / 1000000 < 1000 := by omega
    rw [scanNanos?_padded (by decide) (by decide) hfits]
    simp
    omega
  split
  next hmicros =>
    have hfits : nano / 1000 < 1000000 := by omega
    rw [scanNanos?_padded (by decide) (by decide) hfits]
    simp
    omega
  next =>
    rw [scanNanos?_padded (by decide) (by decide) h]
    simp

end Parts

section Calendar

theorem daysInMonth_le (year : Int) (month : Nat) : CivilTime.daysInMonth year month ≤ 31 := by
  unfold CivilTime.daysInMonth
  split_ifs <;> omega

theorem month_le_of_daysInMonth_pos {year : Int} {month : Nat}
    (h : 0 < CivilTime.daysInMonth year month) : month ≤ 12 := by
  unfold CivilTime.daysInMonth at h
  simp only [Bool.or_eq_true, Bool.and_eq_true, decide_eq_true_eq] at h
  split_ifs at h <;> omega

theorem fields_lt (t : Timestamp) :
    t.civil.month < 100 ∧ t.civil.day < 100 ∧ t.civil.hour < 24 ∧ t.civil.minute < 60 ∧
      t.civil.second < 100 ∧ t.civil.nano < 1000000000 := by
  have hvalid := t.isValid_civil
  simp only [CivilTime.isValid, Bool.and_eq_true, decide_eq_true_eq] at hvalid
  have hdays := daysInMonth_le t.civil.year t.civil.month
  have hsome : 0 < CivilTime.daysInMonth t.civil.year t.civil.month := by omega
  have hmonth := month_le_of_daysInMonth_pos hsome
  omega

/-- Nothing is added to a time that is in UTC already. -/
theorem addMinutes_zero (t : Timestamp) : t.civil.addMinutes 0 = t.civil := by
  have hfields := fields_lt t
  have hlow : ¬ (t.civil.hour * 60 + t.civil.minute + 0 : Int) < 0 := by omega
  have hhigh : ¬ 1440 ≤ (t.civil.hour * 60 + t.civil.minute + 0 : Int) := by omega
  have hhour : (t.civil.hour * 60 + t.civil.minute + 0 : Int).toNat / 60 = t.civil.hour := by omega
  have hminute : (t.civil.hour * 60 + t.civil.minute + 0 : Int).toNat % 60 = t.civil.minute := by
    omega
  simp only [CivilTime.addMinutes, hlow, hhigh, ↓reduceIte, hhour, hminute]

end Calendar

theorem ofCivil?_civil (t : Timestamp) : ofCivil? t.civil = some t := by
  simp [ofCivil?, t.isValid_civil]

/-- The rendered text, as it is read: every number with what follows it. -/
theorem renderChars_eq (t : Timestamp) :
    t.renderChars = renderYear t.civil.year ++ '-' :: (padded 2 t.civil.month ++ '-' ::
      (padded 2 t.civil.day ++ 'T' :: (padded 2 t.civil.hour ++ ':' :: (padded 2 t.civil.minute ++
        ':' :: (padded 2 t.civil.second ++ (renderNanos t.civil.nano ++ ['Z'])))))) := by
  simp only [renderChars, List.append_assoc, List.cons_append]

theorem bind_of_eq_some {α β : Type} {x : Option α} {a : α} {f : α → Option β} (h : x = some a) :
    x >>= f = f a := by
  rw [h]
  rfl

theorem parseChars?_renderChars (t : Timestamp) : parseChars? t.renderChars = some t := by
  obtain ⟨hmonth, hday, hhour, hminute, hsecond, hnano⟩ := fields_lt t
  have hstop : ∀ c ∈ (renderNanos t.civil.nano ++ ['Z']).head?, c.isDigit = false := by
    unfold renderNanos
    split_ifs <;> simp
  rw [renderChars_eq, parseChars?]
  -- One step for each thing that is read, in the order of the text.
  apply (bind_of_eq_some (scanYear?_renderYear _ _)).trans
  apply (bind_of_eq_some (scanMark?_cons rfl _)).trans
  apply (bind_of_eq_some (scanField?_padded_cons hmonth rfl _)).trans
  apply (bind_of_eq_some (scanMark?_cons rfl _)).trans
  apply (bind_of_eq_some (scanField?_padded_cons hday rfl _)).trans
  apply (bind_of_eq_some rfl).trans
  apply (bind_of_eq_some (scanField?_padded_cons (by omega) rfl _)).trans
  apply (bind_of_eq_some (scanMark?_cons rfl _)).trans
  apply (bind_of_eq_some (scanField?_padded_cons (by omega) rfl _)).trans
  apply (bind_of_eq_some (scanMark?_cons rfl _)).trans
  apply (bind_of_eq_some (scanField?_padded hsecond hstop)).trans
  apply (bind_of_eq_some (scanNanos?_renderNanos hnano [])).trans
  apply (bind_of_eq_some rfl).trans
  apply (if_pos rfl).trans
  apply (bind_of_eq_some (ofCivil?_civil t)).trans
  show ofCivil? (t.civil.addMinutes 0) = some t
  rw [addMinutes_zero, ofCivil?_civil]

/-- The text of an instant reads back as the instant. -/
theorem parse?_render (t : Timestamp) : parse? t.render = some t := by
  rw [parse?, render, String.toList_ofList]
  exact parseChars?_renderChars t

end Enrolment.Timestamp
