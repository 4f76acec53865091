import GraphDoc.Text.Token
import GraphDoc.Wire.Chunk
/-! # Errors

Every way an operation on documents can fail, as causes, and `Error.message`, the one place
that words them. -/
namespace GraphDoc

/-- A fault found while linking UID references to the structures that declare them. -/
inductive LinkFault where
  /-- two different structures declare the same UID -/
  | duplicateUid (uid firstTag secondTag : String)
  /-- no structure declares a referenced UID -/
  | unresolvedUid (uid : String) (line : Nat)
deriving DecidableEq, Repr

/-- The description of a link fault. -/
def LinkFault.message : LinkFault → String
  | .duplicateUid uid a b => "duplicate UID " ++ uid ++ " (declared by " ++ a ++ " and " ++ b ++ ")"
  | .unresolvedUid uid line => "line " ++ toString line ++ ": unresolved UID " ++ uid

/-- An error of an operation on documents. -/
inductive Error where
  | lex (e : LexError)
  /-- a token where the grammar allows none of its kind -/
  | parse (line : Nat) (token : String)
  | headerNotFound (line : Nat)
  | unsupportedVersion (line : Nat) (version : Int64)
  | unsupportedEncoding (line : Nat) (encoding : String)
  | link (faults : List LinkFault)
  | decode (fault : Wire.Fault)
  | importFailed (message : String)
  | exportFailed (message : String)
  | io (message : String)
deriving DecidableEq, Repr

/-- The faults joined by semicolons. -/
def LinkFault.joined (faults : List LinkFault) : String :=
  "; ".intercalate (faults.map LinkFault.message)

/-- The description of an error. -/
def Error.message : Error → String
  | .lex e => "Line " ++ toString e.line ++ ": " ++ e.fault.message
  | .parse line token => "Line " ++ toString line ++ ": parse error at '" ++ token ++ "'."
  | .headerNotFound line => "Line " ++ toString line ++ ": VLX header not found."
  | .unsupportedVersion line v =>
    "Line " ++ toString line ++ ": VLX version " ++ toString v.toInt ++ " not supported."
  | .unsupportedEncoding line e =>
    "Line " ++ toString line ++ ": VLX encoding '" ++ e ++ "' not supported."
  | .link faults =>
    "Link failed with " ++ toString faults.length ++ " error(s): " ++ LinkFault.joined faults
  | .decode f => "Binary decode error: " ++ f.message
  | .importFailed m => "Import error: " ++ m
  | .exportFailed m => "Export error: " ++ m
  | .io m => "I/O error: " ++ m

end GraphDoc
