/-!
Finite tables: at most one value for each key, in the order in which the keys came.
-/

namespace Enrolment

structure Table (κ ν : Type) where
  entries : List (κ × ν)
  nodup_keys : (entries.map Prod.fst).Nodup

namespace Table

variable {κ ν : Type}

def empty : Table κ ν := ⟨[], .nil⟩

instance : Inhabited (Table κ ν) := ⟨empty⟩

def keys (t : Table κ ν) : List κ := t.entries.map Prod.fst

def values (t : Table κ ν) : List ν := t.entries.map Prod.snd

def size (t : Table κ ν) : Nat := t.entries.length

def map (f : ν → ν) (t : Table κ ν) : Table κ ν :=
  ⟨t.entries.map fun e => (e.1, f e.2), by simpa [Function.comp_def] using t.nodup_keys⟩

variable [DecidableEq κ]

def find? (t : Table κ ν) (k : κ) : Option ν := t.entries.lookup k

def contains (t : Table κ ν) (k : κ) : Bool := (t.find? k).isSome

/-- Gives a key a value in a list of entries, in its place if it is there and at the end if not. -/
def put (k : κ) (v : ν) : List (κ × ν) → List (κ × ν)
  | [] => [(k, v)]
  | (x, y) :: rest => if x = k then (k, v) :: rest else (x, y) :: put k v rest

theorem map_fst_put (k : κ) (v : ν) (es : List (κ × ν)) :
    (put k v es).map Prod.fst =
      if k ∈ es.map Prod.fst then es.map Prod.fst else es.map Prod.fst ++ [k] := by
  induction es with
  | nil => simp [put]
  | cons e rest ih =>
    obtain ⟨x, y⟩ := e
    unfold put
    by_cases hx : x = k
    · simp [hx]
    · have hk : k ≠ x := fun h => hx h.symm
      simp only [hx, if_false, List.map_cons, ih, List.mem_cons, hk, false_or]
      split <;> simp

def insert (t : Table κ ν) (k : κ) (v : ν) : Table κ ν :=
  ⟨put k v t.entries, by
    rw [map_fst_put]
    split
    · exact t.nodup_keys
    · rename_i h
      refine List.nodup_append.mpr ⟨t.nodup_keys, by simp, ?_⟩
      rintro a ha b hb rfl
      simp only [List.mem_singleton] at hb
      exact h (hb ▸ ha)⟩

def erase (t : Table κ ν) (k : κ) : Table κ ν :=
  ⟨t.entries.filter fun e => e.1 ≠ k,
    t.nodup_keys.sublist ((List.filter_sublist).map Prod.fst)⟩

def adjust (t : Table κ ν) (k : κ) (f : ν → ν) : Table κ ν :=
  match t.find? k with
  | some v => t.insert k (f v)
  | none => t

@[simp] theorem find?_empty (k : κ) : (empty : Table κ ν).find? k = none := rfl

theorem lookup_put (k k' : κ) (v : ν) (es : List (κ × ν)) :
    (put k v es).lookup k' = if k' = k then some v else es.lookup k' := by
  induction es with
  | nil =>
    by_cases h : k' = k
    · simp [put, h]
    · simp [put, List.lookup_cons, h, beq_eq_false_iff_ne.mpr h]
  | cons e rest ih =>
    obtain ⟨x, y⟩ := e
    unfold put
    by_cases hx : x = k
    · subst hx
      by_cases h : k' = x
      · simp [h]
      · simp [List.lookup_cons, h, beq_eq_false_iff_ne.mpr h]
    · by_cases h : k' = x
      · subst h
        simp [hx]
      · simp [List.lookup_cons, hx, beq_eq_false_iff_ne.mpr h, ih]

@[simp] theorem find?_insert (t : Table κ ν) (k k' : κ) (v : ν) :
    (t.insert k v).find? k' = if k' = k then some v else t.find? k' :=
  lookup_put k k' v t.entries

@[simp] theorem find?_map (t : Table κ ν) (f : ν → ν) (k : κ) :
    (t.map f).find? k = (t.find? k).map f := by
  have hlookup (es : List (κ × ν)) :
      (es.map fun e => (e.1, f e.2)).lookup k = (es.lookup k).map f := by
    induction es with
    | nil => rfl
    | cons e rest ih =>
      obtain ⟨x, y⟩ := e
      by_cases h : k = x
      · simp [h]
      · simp [List.lookup_cons, beq_eq_false_iff_ne.mpr h, ih]
  exact hlookup t.entries

@[simp] theorem contains_map (t : Table κ ν) (f : ν → ν) (k : κ) :
    (t.map f).contains k = t.contains k := by
  simp [contains]

@[simp] theorem contains_insert (t : Table κ ν) (k k' : κ) (v : ν) :
    (t.insert k v).contains k' = (decide (k' = k) || t.contains k') := by
  unfold contains
  rw [find?_insert]
  by_cases h : k' = k <;> simp [h]

@[simp] theorem find?_adjust (t : Table κ ν) (k k' : κ) (f : ν → ν) :
    (t.adjust k f).find? k' = if k' = k then (t.find? k).map f else t.find? k' := by
  unfold adjust
  split
  next v hv => simp [hv]
  next hv =>
    by_cases h : k' = k
    · simp [h, hv]
    · simp [h]

theorem contains_iff (t : Table κ ν) (k : κ) :
    t.contains k = true ↔ k ∈ t.entries.map Prod.fst := by
  unfold contains find?
  rw [List.lookup_isSome_iff, List.mem_map]
  constructor
  · rintro ⟨entry, hentry, heq⟩
    exact ⟨entry, hentry, (eq_of_beq heq).symm⟩
  · rintro ⟨entry, hentry, rfl⟩
    exact ⟨entry, hentry, BEq.rfl⟩

@[simp] theorem find?_erase (t : Table κ ν) (k k' : κ) :
    (t.erase k).find? k' = if k' = k then none else t.find? k' := by
  have hlookup (es : List (κ × ν)) : (es.filter fun e => e.1 ≠ k).lookup k' =
      if k' = k then none else es.lookup k' := by
    induction es with
    | nil => simp
    | cons e rest ih =>
      obtain ⟨x, y⟩ := e
      by_cases hx : x = k
      · subst hx
        by_cases h : k' = x
        · simpa [h] using ih
        · simpa [List.lookup_cons, h, beq_eq_false_iff_ne.mpr h] using ih
      · by_cases h : k' = x
        · subst h
          simp [hx]
        · simp [List.lookup_cons, hx, beq_eq_false_iff_ne.mpr h, ← ih]
  exact hlookup t.entries

theorem size_insert (t : Table κ ν) {k : κ} (v : ν) (h : t.contains k = false) :
    (t.insert k v).size = t.size + 1 := by
  have hkeys : k ∉ t.entries.map Prod.fst := by
    intro hmem
    rw [(t.contains_iff k).mpr hmem] at h
    cases h
  have hput := congrArg List.length (map_fst_put k v t.entries)
  rw [if_neg hkeys] at hput
  simpa [size, insert] using hput

theorem size_erase (t : Table κ ν) {k : κ} (h : t.contains k = true) :
    (t.erase k).size + 1 = t.size := by
  have hcount : t.entries.countP (fun e => e.1 == k) = 1 := by
    have hnodup := t.nodup_keys.count (a := k)
    rw [if_pos ((t.contains_iff k).mp h), List.count, List.countP_map] at hnodup
    simpa [Function.comp_def] using hnodup
  have hsplit := List.length_eq_countP_add_countP (fun e => e.1 == k) (l := t.entries)
  unfold size erase
  rw [hsplit, hcount, ← List.countP_eq_length_filter]
  simp [Nat.add_comm]

/-- Changing the values of distinct keys one after the other changes each of them once. -/
theorem find?_foldl_adjust (keys : List κ) (hkeys : keys.Nodup) (t : Table κ ν) (f : ν → ν)
    (k : κ) :
    (keys.foldl (fun t k => t.adjust k f) t).find? k =
      if k ∈ keys then (t.find? k).map f else t.find? k := by
  induction keys generalizing t with
  | nil => simp
  | cons first rest ih =>
    obtain ⟨hfirst, hrest⟩ := List.nodup_cons.mp hkeys
    rw [List.foldl_cons, ih hrest]
    by_cases h : k = first
    · subst h
      simp [hfirst]
    · simp [h]

end Table

end Enrolment
