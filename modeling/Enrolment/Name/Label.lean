import Enrolment.Error
import Enrolment.Text.Blank

/-!
Username labels.

A requested name is a label, or a label and its parent domain with a dot between them. Names are
compared, committed to and stored in lower case; only the display form keeps the spelling of the
request.
-/

namespace Enrolment

structure Label where
  /-- The label as it was requested. -/
  display : String
  normalized : String
  parent : String
deriving DecidableEq, Repr

inductive LabelFault where
  | badLength (length : Nat)
  | badCharacter (c : Char)
  | edgeHyphen
  | emptyParent
  | badParent (parent : String)
deriving DecidableEq, Repr

def LabelFault.message : LabelFault → String
  | badLength length => "length " ++ toString length ++ " outside 3..=63"
  | badCharacter c => "invalid character " ++ Text.quotedChar c
  | edgeHyphen => "leading or trailing '-'"
  | emptyParent => "empty parent domain"
  | badParent parent => "invalid parent domain " ++ Text.quoted parent

namespace Label

/-- The parent domain of a request that names none, where no other is configured. -/
def defaultParent : String := "dash"

def isNameChar (c : Char) : Bool := c.isLower || c.isDigit || c = '-'

def segments : List Char → List (List Char)
  | [] => [[]]
  | c :: cs =>
    if c = '.' then [] :: segments cs
    else match segments cs with
      | [] => [[c]]
      | s :: rest => (c :: s) :: rest

def labelFault? (cs : List Char) : Option LabelFault :=
  if cs.length < 3 || 63 < cs.length then some (.badLength cs.length)
  else match cs.find? (fun c => !isNameChar c) with
    | some c => some (.badCharacter c)
    | none => if cs.head? = some '-' || cs.getLast? = some '-' then some .edgeHyphen else none

def parentFault? (cs : List Char) : Option LabelFault :=
  if cs.isEmpty then some .emptyParent
  else if (segments cs).all (fun s => !s.isEmpty && s.all isNameChar) then none
  else some (.badParent (String.ofList cs))

/-- The label and the parent domain of a request: what stands before and after the first dot, the
given parent standing in where there is no dot. -/
def split (request parent : List Char) : List Char × List Char :=
  match request.dropWhile (· ≠ '.') with
  | _ :: rest => (request.takeWhile (· ≠ '.'), rest)
  | [] => (request, parent)

def lower (cs : List Char) : List Char := cs.map Char.toLower

/-- Reads a requested name, or says what is wrong with it; the label is judged before its parent. -/
def read (request parent : List Char) : Except LabelFault Label :=
  let (label, parent) := split (Text.trim request) parent
  match labelFault? (lower label) with
  | some fault => .error fault
  | none =>
    match parentFault? (lower parent) with
    | some fault => .error fault
    | none =>
      .ok ⟨String.ofList label, String.ofList (lower label), String.ofList (lower parent)⟩

/-- Reads a requested name under a parent domain for names that have none of their own. -/
def parse (request parent : String) : Except Error Label :=
  (read request.toList parent.toList).mapError fun fault => .invalidLabel request fault.message

/-- The label and its parent, with a dot between them: what commitments and records speak of. -/
def fullName (l : Label) : String := l.normalized ++ "." ++ l.parent

/-- The order of labels: by display form, then normalised form, then parent. -/
def order (a b : Label) : Ordering :=
  (compare a.display b.display).then
    ((compare a.normalized b.normalized).then (compare a.parent b.parent))

def sort (labels : List Label) : List Label := labels.mergeSort fun a b => (order a b).isLE

end Label

end Enrolment
