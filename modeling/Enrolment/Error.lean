import Enrolment.Bytes.Base58
import Enrolment.Bytes.Utf8

/-!
What can be wrong with a value, and how it is reported.

Each error has a number that callers branch on, a wording, and possibly the text of the fault that
caused it. Numbers below 5000 are the caller's fault.
-/

namespace Enrolment

inductive Error where
  | invalidHash (detail : String) (cause : Option String)
  | invalidKey (detail : String)
  | invalidSignature
  | invalidLabel (label reason : String)
  | notFunding (detail : String)
  | invalidFormat (detail : String)
  | illegalMove (source target : String)
  | serialization (detail : String) (cause : Option String)
  | internal (detail : String)
deriving DecidableEq, Repr

namespace Error

def code : Error → Nat
  | invalidHash .. => 1001
  | invalidKey _ => 1002
  | invalidSignature => 1003
  | invalidLabel .. => 1004
  | notFunding _ => 1005
  | invalidFormat _ => 1006
  | illegalMove .. => 3001
  | serialization .. => 6001
  | internal _ => 6003

/-- The number of an error as it is shown: a capital E and four digits. -/
def codeText (e : Error) : String := "E" ++ toString e.code

def description : Error → String
  | invalidHash detail _ => "invalid hash: " ++ detail
  | invalidKey detail => "invalid key: " ++ detail
  | invalidSignature => "signature verification failed"
  | invalidLabel label reason => "invalid label " ++ Text.quoted label ++ ": " ++ reason
  | notFunding detail => "not a funding transaction: " ++ detail
  | invalidFormat detail => "invalid format: " ++ detail
  | illegalMove source target => "illegal transition from " ++ source ++ " to " ++ target
  | serialization detail _ => "serialization error: " ++ detail
  | internal detail => "internal error: " ++ detail

def message (e : Error) : String := "[" ++ e.codeText ++ "] " ++ e.description

/-- The caller supplied something wrong. -/
def isClientFault (e : Error) : Bool := 1000 ≤ e.code && e.code < 5000

/-- Something went wrong inside. -/
def isServerFault (e : Error) : Bool := 5000 ≤ e.code

/-- No error about a value goes away by trying again. -/
def isRetryable (_ : Error) : Bool := false

/-- The text of the fault that caused an error, where one is kept. -/
def cause? : Error → Option String
  | invalidHash _ cause | serialization _ cause => cause
  | _ => none

/-- The error without its cause, which is how errors are copied. -/
def withoutCause : Error → Error
  | invalidHash detail _ => invalidHash detail none
  | serialization detail _ => serialization detail none
  | e => e

def ofHexFault (fault : Bytes.HexFault) : Error := invalidHash fault.message (some fault.message)

def ofBase58Fault (fault : Bytes.Base58Fault) : Error := invalidFormat fault.message

end Error

def Bytes32.ofHex (s : String) : Except Error Bytes32 :=
  match Bytes.ofHex s with
  | .error fault => .error (.ofHexFault fault)
  | .ok bytes =>
    match Bytes32.ofList? bytes with
    | some v => .ok v
    | none => .error (.invalidHash ("expected 32 bytes, got " ++ toString bytes.length) none)

end Enrolment
