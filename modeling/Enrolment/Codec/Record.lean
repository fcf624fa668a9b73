import Enrolment.Codec.Format

/-!
Formats of records and of types with several cases.

A record is written field after field. In JSON it is an object with a member for each field, members
of other names being ignored, or else the list of the fields in order. A value of a type with cases is
led by the number of its case; in JSON it is an object whose one member is named after the case, or
the bare name where the case holds nothing.
-/

namespace Enrolment

/-- The fields of a record, as they are written one after the other. -/
structure Fields (α : Type) where
  encode : α → Bytes
  decode : Reader α
  toMembers : α → List (String × Json)
  ofMembers? : List (String × Json) → Option α
  ofItems? : List Json → Option (α × List Json)

namespace Fields

variable {α β : Type}

/-- The value of a named member, which may be missing where the format allows it. -/
def member? (f : Format α) (name : String) (members : List (String × Json)) : Option α :=
  match members.lookup name with
  | some j => f.ofJson? j
  | none => f.absent

def last (name : String) (f : Format α) : Fields α where
  encode := f.encode
  decode := f.decode
  toMembers a := [(name, f.toJson a)]
  ofMembers? := member? f name
  ofItems?
    | [] => none
    | j :: items => (f.ofJson? j).map (·, items)

def cons (name : String) (f : Format α) (rest : Fields β) : Fields (α × β) where
  encode a := f.encode a.1 ++ rest.encode a.2
  decode := do
    let a ← f.decode
    let b ← rest.decode
    return (a, b)
  toMembers a := (name, f.toJson a.1) :: rest.toMembers a.2
  ofMembers? members := do
    let a ← member? f name members
    let b ← rest.ofMembers? members
    return (a, b)
  ofItems?
    | [] => none
    | j :: items => do
      let a ← f.ofJson? j
      let (b, items) ← rest.ofItems? items
      return ((a, b), items)

end Fields

namespace Format

variable {α β : Type}

/-- The format of a record, given how its values correspond to the tuples of its fields. -/
def record (fields : Fields β) (write : α → β) (read : β → α) : Format α where
  encode a := fields.encode (write a)
  decode := read <$> fields.decode
  toJson a := .object (fields.toMembers (write a))
  ofJson? j :=
    match j with
    | .object members => (fields.ofMembers? members).map read
    | .list items =>
      match fields.ofItems? items with
      | some (b, []) => some (read b)
      | _ => none
    | _ => none

end Format

/-- One case of a type. Writing answers only for the values of the case. -/
structure Case (α : Type) where
  name : String
  encode? : α → Option Bytes
  decode : Reader α
  /-- The JSON form of what a value of the case holds; the inner option is empty for a bare name. -/
  toJson? : α → Option (Option Json)
  ofJson? : Option Json → Option α

namespace Case

variable {α β : Type}

def single [DecidableEq α] (name : String) (value : α) : Case α where
  name
  encode? a := if a = value then some [] else none
  decode := pure value
  toJson? a := if a = value then some none else none
  ofJson?
    | none | some .null => some value
    | some _ => none

def wrapped (name : String) (f : Format β) (write? : α → Option β) (read : β → α) : Case α where
  name
  encode? a := (write? a).map f.encode
  decode := read <$> f.decode
  toJson? a := (write? a).map fun b => some (f.toJson b)
  ofJson?
    | some j => (f.ofJson? j).map read
    | none => none

/-- A case that holds the fields of a record, always named in JSON. -/
def record (name : String) (fields : Fields β) (write? : α → Option β) (read : β → α) : Case α where
  name
  encode? a := (write? a).map fields.encode
  decode := read <$> fields.decode
  toJson? a := (write? a).map fun b => some (.object (fields.toMembers b))
  ofJson?
    | some (.object members) => (fields.ofMembers? members).map read
    | _ => none

/-- The number of the first case that a value belongs to, `index` being that of the first case, with
what the value holds. -/
def encodeAmong (index : Nat) (a : α) : List (Case α) → Bytes
  | [] => []
  | c :: rest =>
    match c.encode? a with
    | some payload => Bytes.ofNatLE 4 index ++ payload
    | none => encodeAmong (index + 1) a rest

/-- The JSON form of a value under the first case that it belongs to. -/
def toJsonAmong (a : α) : List (Case α) → Json
  | [] => .null
  | c :: rest =>
    match c.toJson? a with
    | some (some payload) => .object [(c.name, payload)]
    | some none => .text c.name
    | none => toJsonAmong a rest

end Case

namespace Format

variable {α : Type}

/-- The format of a type with cases, numbered in the order given. -/
def cases (cs : List (Case α)) : Format α where
  encode a := Case.encodeAmong 0 a cs
  decode := do
    let index ← Reader.number 4
    match cs[index]? with
    | some c => c.decode
    | none => throw (.badCase index cs.length)
  toJson a := Case.toJsonAmong a cs
  ofJson? j :=
    match j with
    | .text name => (cs.find? (·.name = name)).bind fun c => c.ofJson? none
    | .object [(name, payload)] => (cs.find? (·.name = name)).bind fun c => c.ofJson? (some payload)
    | _ => none

end Format

end Enrolment
