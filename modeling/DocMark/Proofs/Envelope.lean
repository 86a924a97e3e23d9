import DocMark.Envelope
import DocMark.Value.Json

/-!
What the answers of commands hold.

An answer tells of a success or of a failure (`Envelope.IsSuccess`, `Envelope.IsFailure`), and both name the
run that they belong to. Whatever a command has to report, the envelope that it makes for it is one of these.
-/

namespace DocMark

namespace Fields

theorem get?_append (fs more : Fields) (key : Text) :
    get? (fs ++ more) key = (fs.get? key).or (more.get? key) := by
  unfold get?
  rw [List.find?_append, Option.map_or]

theorem has_eq_isSome (fs : Fields) (key : Text) : fs.has key = (fs.get? key).isSome := by
  unfold has get?
  rw [Option.isSome_map, Bool.eq_iff_iff, List.any_eq_true, List.find?_isSome]

/-- A default is seen only where there is no value yet. -/
theorem get?_setDefault (fs : Fields) (key : Text) (v : Value) (key' : Text) :
    (fs.setDefault key v).get? key' = if key' = key then some ((fs.get? key).getD v) else fs.get? key' := by
  unfold setDefault
  rw [has_eq_isSome]
  by_cases hkey : key' = key
  · subst hkey
    rw [if_pos rfl]
    cases hget : fs.get? key' with
    | some w => exact hget
    | none =>
      rw [if_neg (by simp), get?_append, hget]
      simp [get?]
  · rw [if_neg hkey]
    split
    · rfl
    · rw [get?_append, show get? [(key, v)] key' = none by simp [get?, Ne.symm hkey], Option.or_none]

/-- A default for one key is not seen at another one. -/
theorem get?_setDefault_ne {key key' : Text} (h : key' ≠ key) (fs : Fields) (v : Value) :
    (fs.setDefault key v).get? key' = fs.get? key' := by
  rw [get?_setDefault, if_neg h]

/-- Fields that may be put behind others change nothing at a key that has a value. -/
theorem get?_ite_append {fs : Fields} {key : Text} {v : Value} (h : fs.get? key = some v) (b : Bool)
    (more : Fields) : get? (if b then fs else fs ++ more) key = some v := by
  split
  · exact h
  · rw [get?_append, h, Option.some_or]

end Fields

namespace Envelope

def line (e : Envelope) : Text := e.toValue.json .compact

/-- The envelope belongs to the run `id`. -/
def Names (id : Text) (e : Envelope) : Prop := e.metadata.get? "request_id".toList = some (.str id)

structure IsSuccess (id : Text) (e : Envelope) : Prop where
  success : e.success = true
  error : e.error = none
  names : e.Names id

structure IsFailure (id : Text) (e : Envelope) : Prop where
  success : e.success = false
  error : ∃ message, e.error = some message
  code : ∃ code : ErrorCode, e.data.get? "error_code".toList = some (.str code.name)
  names : e.Names id

/-- The metadata name the run. -/
theorem get?_metadataOf {current id : Text} {d : Details} (hid : d.requestId.getD current = id)
    (hne : id ≠ []) (hextra : d.extra = []) :
    (metadataOf current d).get? "request_id".toList = some (.str id) := by
  have hnonempty : id.isEmpty = false := List.isEmpty_eq_false_iff.mpr hne
  unfold metadataOf
  simp only [hid, hextra, hnonempty, Bool.false_eq_true, if_false, Fields.update, List.foldl_nil]
  exact Fields.get?_ite_append (Fields.get?_ite_append rfl _ _) _ _

theorem isSuccess_ofSuccess {id : Text} (hne : id ≠ []) (current : Text) (data fields : Fields) {d : Details}
    (hextra : d.extra = []) : (ofSuccess current data fields { d with requestId := some id }).IsSuccess id :=
  ⟨rfl, rfl, get?_metadataOf rfl hne hextra⟩

section FailureData

variable (current : Text) (f : Failure) (d : Details)

/-- The hint and the details are seen at their own keys only. -/
theorem get?_data_ofFailure {key : Text} (hhint : key ≠ "remediation".toList) (hdetails : key ≠ "details".toList) :
    (ofFailure current f d).data.get? key =
      (((Fields.update [] f.data).setDefault "error_code".toList
        (.str (f.code.getD ErrorCode.internal.name))).setDefault "error_type".toList
        (.str (f.type.getD ErrorType.internal.name))).get? key := by
  have hkeep : ∀ fs details : Fields,
      (if details.isEmpty then fs else fs.setDefault "details".toList (.obj details)).get? key = fs.get? key := by
    intro fs details
    split
    · rfl
    · exact Fields.get?_setDefault_ne hdetails _ _
  unfold ofFailure
  cases f.remediation with
  | none => exact hkeep _ _
  | some r => exact (hkeep _ _).trans (Fields.get?_setDefault_ne hhint _ _)

/-- The data name a code: the one that they hold already, or else the one of the failure. -/
theorem get?_code_ofFailure : (ofFailure current f d).data.get? "error_code".toList =
    some (((Fields.update [] f.data).get? "error_code".toList).getD
      (.str (f.code.getD ErrorCode.internal.name))) := by
  rw [get?_data_ofFailure current f d (by simp) (by simp), Fields.get?_setDefault_ne (by simp),
    Fields.get?_setDefault, if_pos rfl]

/-- And they name a type in the same way. -/
theorem get?_type_ofFailure : (ofFailure current f d).data.get? "error_type".toList =
    some (((Fields.update [] f.data).get? "error_type".toList).getD
      (.str (f.type.getD ErrorType.internal.name))) := by
  rw [get?_data_ofFailure current f d (by simp) (by simp), Fields.get?_setDefault, if_pos rfl,
    Fields.get?_setDefault_ne (by simp)]

end FailureData

/-- A failure with a code that its data leave alone is one of its run. -/
theorem isFailure_ofFailure (code : ErrorCode) {current id : Text} {f : Failure} {d : Details}
    (hcode : f.code = some code.name) (hfree : (Fields.update [] f.data).get? "error_code".toList = none)
    (hid : d.requestId.getD current = id) (hne : id ≠ []) (hextra : d.extra = []) :
    (ofFailure current f d).IsFailure id := by
  refine ⟨rfl, ⟨_, rfl⟩, ⟨code, ?_⟩, get?_metadataOf hid hne hextra⟩
  rw [get?_code_ofFailure, hfree, hcode]
  rfl

section Failures

variable {id : Text} (hne : id ≠ [])

include hne

theorem isFailure_validation (message : Text) (field remediation : Option Text) :
    (validation id message field remediation).IsFailure id :=
  isFailure_ofFailure .validation rfl rfl rfl hne rfl

theorem isFailure_notFound (resourceType resourceId : Text) (remediation : Option Text) :
    (notFound id resourceType resourceId remediation).IsFailure id :=
  isFailure_ofFailure .notFound rfl rfl rfl hne rfl

theorem isFailure_noMatches (pattern scope : Text) (remediation : Option Text) :
    (noMatches id pattern scope remediation).IsFailure id :=
  isFailure_ofFailure .noMatches rfl rfl rfl hne rfl

theorem isFailure_internal (message : Text) : (internal id message none).IsFailure id :=
  isFailure_ofFailure .internal rfl rfl rfl hne rfl

end Failures

/-- An identity that is there already is kept. -/
theorem IsFailure.withRequestId {id : Text} {e : Envelope} (h : e.IsFailure id) (other : Text) :
    (e.withRequestId other).IsFailure id where
  success := h.success
  error := h.error
  code := h.code
  names := by
    have hget : e.metadata.get? "request_id".toList = some (.str id) := h.names
    unfold Names Envelope.withRequestId
    rw [Fields.get?_setDefault, if_pos rfl, hget]
    rfl

end Envelope

end DocMark
