import DocMark.Text.Case
import DocMark.Value.Basic

/-!
Answer envelopes.

Every command answers with an envelope: whether it succeeded, its data, the error message if there is one,
and metadata. The data of a failure hold a code and a type for machines and a hint for people.
-/

namespace DocMark

/-- The answer of a command. -/
structure Envelope where
  success : Bool
  data : Fields := []
  error : Option Text := none
  metadata : Fields := [("version".toList, .ofString "response-v2")]

/-- What went wrong, for machines. -/
inductive ErrorCode where
  | validation
  | notFound
  | noMatches
  | internal
deriving DecidableEq, Repr

/-- The kind of a failure: a wrong input, something missing, or a fault of the program. -/
inductive ErrorType where
  | validation
  | notFound
  | internal
deriving DecidableEq, Repr

def ErrorCode.name : ErrorCode → Text
  | .validation => "VALIDATION_ERROR".toList
  | .notFound => "NOT_FOUND".toList
  | .noMatches => "NO_MATCHES_FOUND".toList
  | .internal => "INTERNAL_ERROR".toList

def ErrorType.name : ErrorType → Text
  | .validation => "validation".toList
  | .notFound => "not_found".toList
  | .internal => "internal".toList

namespace Envelope

def version : Text := "response-v2".toList

def textOrNull : Option Text → Value
  | some s => .str s
  | none => .null

def toValue (e : Envelope) : Value :=
  .ofFields [("success", .bool e.success), ("data", .obj e.data), ("error", textOrNull e.error),
    ("meta", .obj e.metadata)]

structure Details where
  /-- The identity of the run. Without one the current run's is taken, and an empty one is left out. -/
  requestId : Option Text := none
  warnings : List Value := []
  telemetry : Fields := []
  /-- Fields that may override all others. -/
  extra : Fields := []

/-- The metadata of an answer given in the run with the identity `current`. -/
def metadataOf (current : Text) (d : Details) : Fields :=
  let id := d.requestId.getD current
  let fields : Fields := [("version".toList, .str version)]
  let fields := if id.isEmpty then fields else fields ++ [("request_id".toList, .str id)]
  let fields := if d.warnings.isEmpty then fields
    else fields ++ [("warnings".toList, .arr d.warnings)]
  let fields := if d.telemetry.isEmpty then fields
    else fields ++ [("telemetry".toList, .obj d.telemetry)]
  fields.update d.extra

def ofSuccess (current : Text) (data fields : Fields) (d : Details) : Envelope :=
  { success := true, data := (Fields.update [] data).update fields, metadata := metadataOf current d }

structure Failure where
  message : Text
  data : Fields := []
  code : Option Text := none
  type : Option Text := none
  remediation : Option Text := none
  details : Fields := []

/-- The envelope of a failure. Fields that the data already hold are kept. -/
def ofFailure (current : Text) (f : Failure) (d : Details) : Envelope :=
  let data := Fields.update [] f.data
  let data := data.setDefault "error_code".toList (.str (f.code.getD ErrorCode.internal.name))
  let data := data.setDefault "error_type".toList (.str (f.type.getD ErrorType.internal.name))
  let data := match f.remediation with
    | some r => data.setDefault "remediation".toList (.str r)
    | none => data
  let data := if f.details.isEmpty then data else data.setDefault "details".toList (.obj f.details)
  { success := false, data, error := some f.message, metadata := metadataOf current d }

/-- A hint that was given and is not empty, or else the usual one. -/
def hint (given : Option Text) (usual : Text) : Text :=
  match given with
  | some (c :: r) => c :: r
  | _ => usual

def validation (current message : Text) (field remediation : Option Text) : Envelope :=
  ofFailure current
    { message
      code := some ErrorCode.validation.name
      type := some ErrorType.validation.name
      details := match field with
        | some (c :: r) => [("field".toList, .str (c :: r))]
        | _ => []
      remediation } {}

def notFound (current resourceType resourceId : Text) (remediation : Option Text) : Envelope :=
  ofFailure current
    { message := resourceType ++ " '".toList ++ resourceId ++ "' not found".toList
      code := some ErrorCode.notFound.name
      type := some ErrorType.notFound.name
      data := [("resource_type".toList, .str resourceType), ("resource_id".toList, .str resourceId)]
      remediation := some (hint remediation
        ("Verify the ".toList ++ Text.lower resourceType ++ " path exists.".toList)) } {}

def noMatches (current pattern scope : Text) (remediation : Option Text) : Envelope :=
  ofFailure current
    { message := "No matches found for pattern '".toList ++ pattern ++ "' in ".toList ++ scope
      code := some ErrorCode.noMatches.name
      type := some ErrorType.notFound.name
      data := [("pattern".toList, .str pattern), ("scope".toList, .str scope)]
      remediation := some (hint remediation
        "Check the source directory and the file extension.".toList) } {}

/-- The program could not do its work. The hint names the run. -/
def internal (current : Text) (message : Text) (requestId : Option Text) : Envelope :=
  let reference := hint requestId current
  ofFailure current
    { message
      code := some ErrorCode.internal.name
      type := some ErrorType.internal.name
      remediation := some ("Re-run with --log-level DEBUG for details.".toList ++
        if reference.isEmpty then [] else " Reference: ".toList ++ reference) }
    { requestId }

/-- The message of a failure that has none of its own. -/
def internalMessage : Text := "An internal error occurred".toList

/-- The envelope with the given identity, unless it has one already. -/
def withRequestId (e : Envelope) (id : Text) : Envelope :=
  { e with metadata := e.metadata.setDefault "request_id".toList (.str id) }

end Envelope

end DocMark
