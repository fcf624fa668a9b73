import Mathlib.Data.List.GetD
import Mathlib.Data.Nat.Digits.Lemmas
import Enrolment.Identity.Id

/-!
Identifiers as base-58 texts. A text denotes a byte string if both are one number, with as many ones
before the text as zero bytes before the string. Every text of the alphabet denotes one byte string and
every byte string is denoted by one text, and reading and writing go by this relation: an identifier has
a single text, and a text that is refused has a character outside the alphabet or denotes a string of
another length.
-/

namespace Enrolment

namespace Bytes

section Digits

variable {base base' n zeros : Nat} {ds ds' : List Nat}

/-- How many zeros stand before the first digit that is none. -/
def leadingZeros (ds : List Nat) : Nat := (ds.takeWhile (· = 0)).length

theorem digits_eq_reverse (h : 2 ≤ base) (n : Nat) :
    digits base n = (Nat.digits base n).reverse := by
  induction n using Nat.strong_induction_on with
  | _ n ih =>
    unfold digits
    by_cases hn : 0 < n
    · have hless : n / base < n := Nat.div_lt_self hn h
      rw [if_pos ⟨h, hn⟩, ih _ hless, Nat.digits_def' h hn, List.reverse_cons]
    · have hzero : n = 0 := by omega
      rw [if_neg (by omega), hzero, Nat.digits_zero, List.reverse_nil]

theorem ofDigits_eq_reverse (base : Nat) (ds : List Nat) :
    ofDigits base ds = Nat.ofDigits base ds.reverse := by
  rw [Nat.ofDigits_eq_foldr, List.foldr_reverse, ofDigits]
  simp only [Nat.cast_id, Nat.add_comm]

theorem mem_digits_lt (h : 2 ≤ base) : ∀ d ∈ digits base n, d < base := by
  intro d hd
  rw [digits_eq_reverse h, List.mem_reverse] at hd
  exact Nat.digits_lt_base h hd

theorem ofDigits_digits (h : 2 ≤ base) (n : Nat) : ofDigits base (digits base n) = n := by
  rw [ofDigits_eq_reverse, digits_eq_reverse h, List.reverse_reverse, Nat.ofDigits_digits]

theorem ofDigits_replicate_append (base zeros : Nat) (ds : List Nat) :
    ofDigits base (List.replicate zeros 0 ++ ds) = ofDigits base ds := by
  rw [ofDigits_eq_reverse, ofDigits_eq_reverse, List.reverse_append, List.reverse_replicate,
    Nat.ofDigits_append_replicate_zero]

/-- The digits of a number start with no zero. -/
theorem leadingZeros_digits (h : 2 ≤ base) (n : Nat) : leadingZeros (digits base n) = 0 := by
  by_cases hn : n = 0
  · simp [hn, leadingZeros, digits]
  · have hne : Nat.digits base n ≠ [] := Nat.digits_ne_nil_iff_ne_zero.mpr hn
    have hlast : (Nat.digits base n).getLast hne ≠ 0 := Nat.getLast_digit_ne_zero base hn
    rw [digits_eq_reverse h, ← List.dropLast_append_getLast hne]
    simp [leadingZeros, hlast]

theorem leadingZeros_replicate_append (h : leadingZeros ds = 0) :
    leadingZeros (List.replicate zeros 0 ++ ds) = zeros := by
  have hnone : ds.takeWhile (· = 0) = [] := List.length_eq_zero_iff.mp h
  have hall : ∀ d ∈ List.replicate zeros 0, decide (d = 0) = true := by simp
  rw [leadingZeros, List.takeWhile_append_of_pos hall, hnone]
  simp

/-- Digits are those of their number, with their zeros before them. -/
theorem replicate_append_digits (h : 2 ≤ base) (hds : ∀ d ∈ ds, d < base) :
    List.replicate (leadingZeros ds) 0 ++ digits base (ofDigits base ds) = ds := by
  induction ds with
  | nil => simp [leadingZeros, ofDigits, digits]
  | cons d rest ih =>
    obtain ⟨hd, hrest⟩ := List.forall_mem_cons.mp hds
    by_cases hzero : d = 0
    · -- a zero adds nothing to the number, and is counted
      have hzeros : leadingZeros (d :: rest) = leadingZeros rest + 1 := by
        simp [leadingZeros, hzero]
      have hnumber : ofDigits base (d :: rest) = ofDigits base rest := by
        simp [ofDigits, hzero]
      rw [hzeros, hnumber, List.replicate_succ, List.cons_append, ih hrest, hzero]
    · -- the digits are canonical from here on, so that nothing is asked of the rest
      have hzeros : leadingZeros (d :: rest) = 0 := by simp [leadingZeros, hzero]
      have hlast : ∀ hne : (d :: rest).reverse ≠ [], (d :: rest).reverse.getLast hne ≠ 0 := by
        simpa using hzero
      have hless : ∀ e ∈ (d :: rest).reverse, e < base := by
        intro e he
        exact hds e (List.mem_reverse.mp he)
      rw [hzeros, ofDigits_eq_reverse, digits_eq_reverse h, Nat.digits_ofDigits base h _ hless hlast]
      simp

/-- The digits in two bases that make the same number, with equally many zeros before it, are
determined by each other. -/
theorem replicate_append_digits_eq_iff (h : 2 ≤ base') (hds' : ∀ d ∈ ds', d < base') :
    List.replicate (leadingZeros ds) 0 ++ digits base' (ofDigits base ds) = ds' ↔
      leadingZeros ds = leadingZeros ds' ∧ ofDigits base ds = ofDigits base' ds' := by
  constructor
  · rintro rfl
    rw [leadingZeros_replicate_append (leadingZeros_digits h _), ofDigits_replicate_append,
      ofDigits_digits h]
    exact ⟨rfl, rfl⟩
  · rintro ⟨hzeros, hnumber⟩
    rw [hzeros, hnumber]
    exact replicate_append_digits h hds'

end Digits

theorem lt_byte_iff {n : Nat} (h : n < 256) : (127 : UInt8) < UInt8.ofNat n ↔ 127 < n := by
  rw [UInt8.lt_iff_toNat_lt, UInt8.toNat_ofNat_of_lt' h]
  rfl

section Alphabet

variable {c : Char} {n : Nat}

theorem nodup_base58Alphabet : base58Alphabet.Nodup := by decide

theorem lt_of_mem_base58Alphabet (h : c ∈ base58Alphabet) : c.toNat < 128 := by
  have hall : base58Alphabet.all (fun c => c.toNat < 128) = true := by decide
  exact of_decide_eq_true (List.all_eq_true.mp hall c h)

theorem idxOf_lt (h : c ∈ base58Alphabet) : base58Alphabet.idxOf c < 58 :=
  List.idxOf_lt_length_iff.mpr h

theorem base58Digit_eq (h : n < base58Alphabet.length) : base58Digit n = base58Alphabet[n] := by
  rw [base58Digit, List.getD_eq_getElem _ _ h]

theorem base58Digit_mem (h : n < 58) : base58Digit n ∈ base58Alphabet := by
  rw [base58Digit_eq h]
  exact List.getElem_mem _

theorem idxOf_base58Digit (h : n < 58) : base58Alphabet.idxOf (base58Digit n) = n := by
  rw [base58Digit_eq h]
  exact nodup_base58Alphabet.idxOf_getElem n h

theorem base58Digit_idxOf (h : c ∈ base58Alphabet) : base58Digit (base58Alphabet.idxOf c) = c := by
  rw [base58Digit_eq (idxOf_lt h)]
  exact List.getElem_idxOf _

theorem idxOf_eq_zero_iff : base58Alphabet.idxOf c = 0 ↔ c = '1' := by
  have halphabet : base58Alphabet = '1' :: base58Alphabet.tail := rfl
  rw [halphabet, List.idxOf_cons]
  by_cases h : c = '1'
  · simp [h]
  · have hne : ('1' == c) = false := by simpa using Ne.symm h
    simp [h, hne]

/-- The value of a byte is the place of its character in the alphabet. -/
theorem base58Value?_of_mem (h : c ∈ base58Alphabet) :
    base58Value? (UInt8.ofNat c.toNat) = some (base58Alphabet.idxOf c) := by
  have hascii := lt_of_mem_base58Alphabet h
  have hcode (d : Char) : decide (d.toNat = c.toNat) = (d == c) := by
    rw [Bool.eq_iff_iff, decide_eq_true_iff, Char.toNat_inj, beq_iff_eq]
  unfold base58Value?
  simp only [UInt8.toNat_ofNat_of_lt' (Nat.lt_trans hascii (by decide)), hcode]
  exact List.findIdx?_eq_some_of_exists ⟨c, h, beq_self_eq_true c⟩

theorem base58Value?_of_not_mem (hascii : c.toNat < 128) (h : c ∉ base58Alphabet) :
    base58Value? (UInt8.ofNat c.toNat) = none := by
  unfold base58Value?
  rw [UInt8.toNat_ofNat_of_lt' (Nat.lt_trans hascii (by decide)), List.findIdx?_eq_none_iff]
  intro d hd
  rw [decide_eq_false_iff_not, Char.toNat_inj]
  intro heq
  exact h (heq ▸ hd)

end Alphabet

section Texts

variable {c : Char} {cs before after : List Char} {s : String} {bytes : Bytes}

theorem ofText_eq_flatMap (s : String) : ofText s = s.toList.flatMap String.utf8EncodeChar := by
  have hbytes : s.toByteArray = s.toList.utf8Encode := by
    rw [← String.toByteArray_ofList, String.ofList_toList]
  rw [ofText, hbytes, List.utf8Encode]
  simp

theorem utf8EncodeChar_of_ascii (h : c.toNat < 128) :
    String.utf8EncodeChar c = [UInt8.ofNat c.toNat] := by
  have hsmall : c.val.toNat ≤ 0x7f := Nat.le_of_lt_succ h
  unfold String.utf8EncodeChar
  rw [if_pos hsmall]
  rfl

/-- The first byte of a character that is not ASCII is none either. -/
theorem exists_utf8EncodeChar_of_not_ascii (h : ¬ c.toNat < 128) :
    ∃ first rest, String.utf8EncodeChar c = first :: rest ∧ 127 < first := by
  have hlarge : ¬ c.val.toNat ≤ 0x7f := by
    intro hle
    exact h (Nat.lt_succ_of_le hle)
  unfold String.utf8EncodeChar
  rw [if_neg hlarge]
  split
  · exact ⟨_, _, rfl, (lt_byte_iff (by omega)).mpr (by omega)⟩
  · split
    · exact ⟨_, _, rfl, (lt_byte_iff (by omega)).mpr (by omega)⟩
    · exact ⟨_, _, rfl, (lt_byte_iff (by omega)).mpr (by omega)⟩

/-- What is wrong with a character outside the alphabet. -/
def base58Refusal (c : Char) (position : Nat) : Base58Fault :=
  if c.toNat < 128 then .badDigit (UInt8.ofNat c.toNat) position else .notAscii position

theorem base58Values_of_mem (h : ∀ c ∈ cs, c ∈ base58Alphabet) (position : Nat) (rest : Bytes) :
    base58Values position (cs.flatMap String.utf8EncodeChar ++ rest) =
      (base58Values (position + cs.length) rest).map (cs.map base58Alphabet.idxOf ++ ·) := by
  induction cs generalizing position with
  | nil =>
    simp only [List.flatMap_nil, List.nil_append, List.length_nil, List.map_nil, Nat.add_zero]
    cases base58Values position rest <;> rfl
  | cons c cs ih =>
    obtain ⟨hc, hcs⟩ := List.forall_mem_cons.mp h
    have hascii := lt_of_mem_base58Alphabet hc
    have hbyte : ¬ (127 : UInt8) < UInt8.ofNat c.toNat := by
      rw [lt_byte_iff (by omega)]
      omega
    have hlength : position + 1 + cs.length = position + (c :: cs).length := by
      rw [List.length_cons]
      omega
    rw [List.flatMap_cons, utf8EncodeChar_of_ascii hascii, List.append_assoc, List.singleton_append,
      base58Values, if_neg hbyte, base58Value?_of_mem hc]
    dsimp only
    rw [ih hcs, hlength]
    cases base58Values (position + (c :: cs).length) rest <;> rfl

theorem base58Values_of_not_mem (h : c ∉ base58Alphabet) (position : Nat) (rest : Bytes) :
    base58Values position (String.utf8EncodeChar c ++ rest) =
      .error (base58Refusal c position) := by
  unfold base58Refusal
  by_cases hascii : c.toNat < 128
  · have hbyte : ¬ (127 : UInt8) < UInt8.ofNat c.toNat := by
      rw [lt_byte_iff (by omega)]
      omega
    rw [utf8EncodeChar_of_ascii hascii, List.singleton_append, base58Values, if_neg hbyte,
      base58Value?_of_not_mem hascii h, if_pos hascii]
  · obtain ⟨first, tail, hbytes, hfirst⟩ := exists_utf8EncodeChar_of_not_ascii hascii
    rw [hbytes, List.cons_append, base58Values, if_pos hfirst, if_neg hascii]

end Texts

section Denoting

variable {text before after : List Char} {c : Char} {s : String} {bytes bytes' : Bytes}

/-- A text of the alphabet denotes a byte string if both are the same number, with as many ones before
the text as there are zero bytes before the string. -/
structure Denotes (text : List Char) (bytes : Bytes) : Prop where
  chars : ∀ c ∈ text, c ∈ base58Alphabet
  zeros : (text.takeWhile (· = '1')).length = (bytes.takeWhile (· = 0)).length
  number : ofDigits 58 (text.map base58Alphabet.idxOf) = bytes.toNatBE

theorem leadingZeros_idxOf (text : List Char) :
    leadingZeros (text.map base58Alphabet.idxOf) = (text.takeWhile (· = '1')).length := by
  have hone : ((fun n : Nat => decide (n = 0)) ∘ fun c => base58Alphabet.idxOf c) =
      fun c => decide (c = '1') := by
    funext c
    exact decide_eq_decide.mpr idxOf_eq_zero_iff
  rw [leadingZeros, List.takeWhile_map, List.length_map, hone]

theorem leadingZeros_toNat (bytes : Bytes) :
    leadingZeros (bytes.map UInt8.toNat) = (bytes.takeWhile (· = 0)).length := by
  have hzero : ((fun n : Nat => decide (n = 0)) ∘ UInt8.toNat) = fun b => decide (b = 0) := by
    funext b
    have hiff : b.toNat = (0 : UInt8).toNat ↔ b = 0 := UInt8.toNat_inj
    exact decide_eq_decide.mpr hiff
  rw [leadingZeros, List.takeWhile_map, List.length_map, hzero]

theorem ofDigits_toNat (bytes : Bytes) : ofDigits 256 (bytes.map UInt8.toNat) = bytes.toNatBE := by
  rw [ofDigits, List.foldl_map, toNatBE]

theorem denotes_iff : Denotes text bytes ↔ (∀ c ∈ text, c ∈ base58Alphabet) ∧
    leadingZeros (text.map base58Alphabet.idxOf) = leadingZeros (bytes.map UInt8.toNat) ∧
      ofDigits 58 (text.map base58Alphabet.idxOf) = ofDigits 256 (bytes.map UInt8.toNat) := by
  rw [leadingZeros_idxOf, leadingZeros_toNat, ofDigits_toNat]
  constructor
  · rintro ⟨hchars, hzeros, hnumber⟩
    exact ⟨hchars, hzeros, hnumber⟩
  · rintro ⟨hchars, hzeros, hnumber⟩
    exact ⟨hchars, hzeros, hnumber⟩

theorem map_base58Digit_eq_iff {ds : List Nat} (hds : ∀ d ∈ ds, d < 58) :
    ds.map base58Digit = text ↔
      (∀ c ∈ text, c ∈ base58Alphabet) ∧ ds = text.map base58Alphabet.idxOf := by
  constructor
  · rintro rfl
    constructor
    · intro c hc
      obtain ⟨d, hd, rfl⟩ := List.mem_map.mp hc
      exact base58Digit_mem (hds d hd)
    · have hback : ∀ d ∈ ds, (base58Alphabet.idxOf ∘ base58Digit) d = id d := by
        intro d hd
        exact idxOf_base58Digit (hds d hd)
      rw [List.map_map, List.map_congr_left hback, List.map_id]
  · rintro ⟨hchars, rfl⟩
    have hback : ∀ c ∈ text, (base58Digit ∘ base58Alphabet.idxOf) c = id c := by
      intro c hc
      exact base58Digit_idxOf (hchars c hc)
    rw [List.map_map, List.map_congr_left hback, List.map_id]

theorem map_ofNat_eq_iff {ds : List Nat} (hds : ∀ d ∈ ds, d < 256) :
    ds.map UInt8.ofNat = bytes ↔ ds = bytes.map UInt8.toNat := by
  constructor
  · rintro rfl
    have hback : ∀ d ∈ ds, (UInt8.toNat ∘ UInt8.ofNat) d = id d := by
      intro d hd
      exact UInt8.toNat_ofNat_of_lt' (hds d hd)
    rw [List.map_map, List.map_congr_left hback, List.map_id]
  · rintro rfl
    have hback : ∀ b ∈ bytes, (UInt8.ofNat ∘ UInt8.toNat) b = id b := by
      intro b _
      exact UInt8.ofNat_toNat
    rw [List.map_map, List.map_congr_left hback, List.map_id]

theorem mem_replicate_append_digits_lt {base n zeros : Nat} (h : 2 ≤ base) :
    ∀ d ∈ List.replicate zeros 0 ++ digits base n, d < base := by
  intro d hd
  rcases List.mem_append.mp hd with hzero | hdigit
  · have hd : d = 0 := List.eq_of_mem_replicate hzero
    omega
  · exact mem_digits_lt h d hdigit

/-- The text that is written for a byte string is the one that denotes it. -/
theorem toBase58_eq_iff : toBase58 bytes = s ↔ Denotes s.toList bytes := by
  have hlt : ∀ d ∈ List.replicate (leadingZeros (bytes.map UInt8.toNat)) 0 ++
      digits 58 (ofDigits 256 (bytes.map UInt8.toNat)), d < 58 :=
    mem_replicate_append_digits_lt (by decide)
  rw [denotes_iff, ← String.toList_inj, toBase58, String.toList_ofList, ← leadingZeros_toNat,
    ← ofDigits_toNat, map_base58Digit_eq_iff hlt]
  apply and_congr_right
  intro hchars
  have hvalues : ∀ d ∈ s.toList.map base58Alphabet.idxOf, d < 58 := by
    intro d hd
    obtain ⟨c, hc, rfl⟩ := List.mem_map.mp hd
    exact idxOf_lt (hchars c hc)
  rw [replicate_append_digits_eq_iff (by decide) hvalues, eq_comm, @eq_comm _ (ofDigits 58 _)]

/-- A text of the alphabet is read as its digits in the base of bytes. -/
theorem ofBase58_of_mem (h : ∀ c ∈ s.toList, c ∈ base58Alphabet) :
    ofBase58 s = .ok ((List.replicate (leadingZeros (s.toList.map base58Alphabet.idxOf)) 0 ++
      digits 256 (ofDigits 58 (s.toList.map base58Alphabet.idxOf))).map UInt8.ofNat) := by
  have hvalues := base58Values_of_mem h 0 []
  rw [List.append_nil, ← ofText_eq_flatMap] at hvalues
  rw [ofBase58, hvalues, List.map_append, List.map_replicate]
  simp [base58Values, Except.map, bind, Except.bind, pure, Except.pure, leadingZeros]

/-- The first character outside of the alphabet is what a text is refused for. -/
theorem ofBase58_of_not_mem (hs : s.toList = before ++ c :: after)
    (hbefore : ∀ b ∈ before, b ∈ base58Alphabet) (hc : c ∉ base58Alphabet) :
    ofBase58 s = .error (base58Refusal c before.length) := by
  rw [ofBase58, ofText_eq_flatMap, hs, List.flatMap_append, List.flatMap_cons,
    base58Values_of_mem hbefore, base58Values_of_not_mem hc, Nat.zero_add]
  rfl

theorem exists_not_mem_of_not_forall (h : ¬ ∀ c ∈ text, c ∈ base58Alphabet) :
    ∃ before c after, text = before ++ c :: after ∧ (∀ b ∈ before, b ∈ base58Alphabet) ∧
      c ∉ base58Alphabet := by
  cases hfind : text.find? fun c => c ∉ base58Alphabet with
  | none =>
    have hall : ∀ c ∈ text, c ∈ base58Alphabet := by simpa using hfind
    exact absurd hall h
  | some c =>
    obtain ⟨hc, before, after, htext, hbefore⟩ := List.find?_eq_some_iff_append.mp hfind
    exact ⟨before, c, after, htext, by simpa using hbefore, by simpa using hc⟩

/-- A text is read exactly as the byte string that it denotes. -/
theorem ofBase58_eq_ok_iff : ofBase58 s = .ok bytes ↔ Denotes s.toList bytes := by
  rw [denotes_iff]
  by_cases hchars : ∀ c ∈ s.toList, c ∈ base58Alphabet
  · have hlt : ∀ b ∈ bytes.map UInt8.toNat, b < 256 := by
      intro b hb
      obtain ⟨byte, -, rfl⟩ := List.mem_map.mp hb
      exact byte.toNat_lt
    rw [ofBase58_of_mem hchars, Except.ok.injEq,
      map_ofNat_eq_iff (mem_replicate_append_digits_lt (by decide)),
      replicate_append_digits_eq_iff (by decide) hlt]
    exact (and_iff_right hchars).symm
  · obtain ⟨before, c, after, hs, hbefore, hc⟩ := exists_not_mem_of_not_forall hchars
    rw [ofBase58_of_not_mem hs hbefore hc]
    simp [hchars]

end Denoting

end Bytes

namespace IdentityId

open Bytes

variable {s : String} {id : IdentityId} {bytes : Bytes}

/-- A text that denotes no 32 bytes is refused for their number. -/
theorem ofBase58_of_length_ne (h : Denotes s.toList bytes) (hlength : bytes.length ≠ 32) :
    ofBase58 s =
      .error (.invalidFormat ("identity id must be 32 bytes, got " ++ toString bytes.length)) := by
  have hnone : Bytes32.ofList? bytes = none := by simp [Bytes32.ofList?, hlength]
  unfold ofBase58
  rw [Bytes.ofBase58_eq_ok_iff.mpr h]
  dsimp only
  rw [hnone]

theorem ofBase58_of_denotes (h : Denotes s.toList id.bytes.toList) : ofBase58 s = .ok id := by
  unfold ofBase58
  rw [Bytes.ofBase58_eq_ok_iff.mpr h]
  dsimp only
  rw [Bytes32.ofList?_toList]

theorem denotes_of_ofBase58 (h : ofBase58 s = .ok id) : Denotes s.toList id.bytes.toList := by
  unfold ofBase58 at h
  split at h
  · cases h
  next bytes hbytes =>
    split at h
    next v hv =>
      obtain rfl := Except.ok.inj h
      obtain rfl := Bytes32.ofList?_eq_some_iff.mp hv
      exact Bytes.ofBase58_eq_ok_iff.mp hbytes
    next => cases h

/-- The only text that reads as an identifier is the one that is written for it. -/
theorem ofBase58_eq_ok_iff : ofBase58 s = .ok id ↔ id.toBase58 = s := by
  rw [toBase58, toBase58_eq_iff]
  exact ⟨denotes_of_ofBase58, ofBase58_of_denotes⟩

theorem ofBase58_of_not_mem {before after : List Char} {c : Char} (hs : s.toList = before ++ c :: after)
    (hbefore : ∀ b ∈ before, b ∈ base58Alphabet) (hc : c ∉ base58Alphabet) :
    ofBase58 s = .error (.ofBase58Fault (base58Refusal c before.length)) := by
  unfold ofBase58
  rw [Bytes.ofBase58_of_not_mem hs hbefore hc]

/-- An identifier is read from the text that is written for it, and from no other one. A text is refused
for its first character outside of the alphabet. A text of the alphabet denotes a byte string, and is
refused for its length exactly if that is not 32. -/
theorem texts_are_canonical :
    (∀ id, ofBase58 id.toBase58 = .ok id) ∧
    (∀ s id, ofBase58 s = .ok id → id.toBase58 = s) ∧
    (∀ id, ∃! s, ofBase58 s = .ok id) ∧
    (∀ s : String, (∃ c ∈ s.toList, c ∉ base58Alphabet) →
      ∃ before c after, s.toList = before ++ c :: after ∧ (∀ b ∈ before, b ∈ base58Alphabet) ∧
        c ∉ base58Alphabet ∧ ofBase58 s = .error (.ofBase58Fault (base58Refusal c before.length))) ∧
    ∀ s : String, (∀ c ∈ s.toList, c ∈ base58Alphabet) → ∃ bytes, Denotes s.toList bytes ∧
      (bytes.length = 32 → ∃ id, ofBase58 s = .ok id ∧ id.bytes.toList = bytes) ∧
      (bytes.length ≠ 32 → ofBase58 s =
        .error (.invalidFormat ("identity id must be 32 bytes, got " ++ toString bytes.length))) := by
  refine ⟨fun id => ofBase58_eq_ok_iff.mpr rfl, fun s id => ofBase58_eq_ok_iff.mp, ?_, ?_, ?_⟩
  · intro id
    exact ⟨id.toBase58, ofBase58_eq_ok_iff.mpr rfl, fun s h => (ofBase58_eq_ok_iff.mp h).symm⟩
  · rintro s ⟨c, hc, hout⟩
    have hnot : ¬ ∀ c ∈ s.toList, c ∈ base58Alphabet := fun hall => hout (hall c hc)
    obtain ⟨before, c, after, hs, hbefore, hfirst⟩ := exists_not_mem_of_not_forall hnot
    exact ⟨before, c, after, hs, hbefore, hfirst, ofBase58_of_not_mem hs hbefore hfirst⟩
  · intro s hall
    have hdenotes := Bytes.ofBase58_eq_ok_iff.mp (Bytes.ofBase58_of_mem hall)
    refine ⟨_, hdenotes, ?_, ofBase58_of_length_ne hdenotes⟩
    intro hlength
    exact ⟨⟨⟨_, hlength⟩⟩, ofBase58_of_denotes hdenotes, rfl⟩

/-- Thirty-one zero bytes and a one are written as thirty-one ones and a two. With another one before it
the text denotes a byte too many, and a zero is no digit. -/
theorem texts_are_canonical_unit :
    let unit : IdentityId := ⟨⟨List.replicate 31 0 ++ [1], rfl⟩⟩
    let ones := String.ofList (List.replicate 31 '1')
    ofBase58 (ones ++ "2") = .ok unit ∧ unit.toBase58 = ones ++ "2" ∧
      ofBase58 (ones ++ "12") = .error (.invalidFormat "identity id must be 32 bytes, got 33") ∧
      ∃ before c after, "10".toList = before ++ c :: after ∧ (∀ b ∈ before, b ∈ base58Alphabet) ∧
        c ∉ base58Alphabet ∧ ofBase58 "10" = .error (.ofBase58Fault (base58Refusal c before.length)) := by
  intro unit ones
  obtain ⟨-, hwritten, -, hrefused, hdenoted⟩ := texts_are_canonical
  have hchars (text : List Char) (h : text.all (· ∈ base58Alphabet) = true) :
      ∀ c ∈ text, c ∈ base58Alphabet := by
    simpa only [List.all_eq_true, decide_eq_true_eq] using h
  have hunit : Denotes (ones ++ "2").toList unit.bytes.toList :=
    ⟨hchars _ (by decide), by decide, by decide⟩
  have hread : ofBase58 (ones ++ "2") = .ok unit := ofBase58_of_denotes hunit
  have hlong : Denotes (ones ++ "12").toList (List.replicate 32 0 ++ [1]) :=
    ⟨hchars _ (by decide), by decide, by decide⟩
  obtain ⟨bytes, hbytes, -, hlength⟩ := hdenoted (ones ++ "12") hlong.chars
  have hsame : Except.ok bytes = Except.ok (List.replicate 32 0 ++ [1]) :=
    (Bytes.ofBase58_eq_ok_iff.mpr hbytes).symm.trans (Bytes.ofBase58_eq_ok_iff.mpr hlong)
  obtain rfl := Except.ok.inj hsame
  exact ⟨hread, hwritten _ _ hread, hlength (by decide), hrefused "10" ⟨'0', by decide, by decide⟩⟩

end IdentityId

end Enrolment
