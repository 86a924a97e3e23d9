import DocMark.Proofs.Envelope

/-!
The schema of envelopes.

The data and the metadata of an envelope are put together from fields of its own and fields that the caller gives.
A default gives way to what is there (`Fields.get?_setDefault`), and an update replaces it (`Fields.get?_update`).
So it is the order of these steps that says which fields a caller can change. In the data of a failure the code and
the type are defaults: they are there whatever the caller gives. In the metadata of a success the extra fields come
last, as an update, and may replace the version and the identity of the run. Main statement: `schema_iff`.
-/

namespace DocMark

namespace Fields

theorem get?_cons (k : Text) (v : Value) (fs : Fields) (key : Text) :
    get? ((k, v) :: fs) key = if k = key then some v else fs.get? key := by
  unfold get?
  rw [List.find?_cons]
  by_cases hkey : k = key
  · simp [hkey]
  · simp [hkey]

/-- Setting a key is seen at that key only. -/
theorem get?_set (fs : Fields) (key : Text) (v : Value) (key' : Text) :
    (set key v fs).get? key' = if key' = key then some v else fs.get? key' := by
  induction fs with
  | nil =>
    rw [set, get?_cons]
    simp only [eq_comm]
  | cons field fs ih =>
    obtain ⟨k, w⟩ := field
    rw [set]
    by_cases hk : k = key
    · subst hk
      rw [if_pos rfl, get?_cons, get?_cons]
      by_cases hkey : k = key'
      · rw [if_pos hkey, if_pos hkey.symm]
      · rw [if_neg hkey, if_neg hkey, if_neg (Ne.symm hkey)]
    · rw [if_neg hk, get?_cons, get?_cons, ih]
      by_cases hkey : key' = key
      · rw [if_pos hkey, if_neg (hkey ▸ hk), if_pos hkey]
      · rw [if_neg hkey, if_neg hkey]

/-- **After an update** a key has the value that the new fields leave for it, or else its old one. -/
theorem get?_update (fs more : Fields) (key : Text) :
    (fs.update more).get? key = ((update [] more).get? key).or (fs.get? key) := by
  induction more generalizing fs with
  | nil => rfl
  | cons field more ih =>
    obtain ⟨k, v⟩ := field
    have hcons : ∀ gs : Fields, gs.update ((k, v) :: more) = (set k v gs).update more := fun _ => rfl
    rw [hcons, hcons, ih (set k v fs), ih (set k v []), get?_set, get?_set]
    split
    · simp
    · rw [show get? [] key = none from rfl, Option.or_none]

/-- Set one after another, the fields `more` leave the key no other value than `v`. -/
def Leaves (more : Fields) (key : Text) (v : Value) : Prop := ∀ w ∈ (update [] more).get? key, w = v

/-- An update keeps the value of a key exactly when the new fields leave it. -/
theorem get?_update_iff {fs : Fields} {key : Text} {v : Value} (h : fs.get? key = some v) (more : Fields) :
    (fs.update more).get? key = some v ↔ more.Leaves key v := by
  rw [get?_update, h, Leaves]
  cases (update [] more).get? key with
  | none => simp
  | some w => simp

end Fields

namespace Envelope

def Versioned (e : Envelope) : Prop := e.metadata.get? "version".toList = some (.str version)

/-- The extra fields update the other metadata. -/
theorem metadataOf_eq_update (current : Text) (d : Details) :
    metadataOf current d = (metadataOf current { d with extra := [] }).update d.extra := rfl

/-- The version comes first, so the other metadata do not touch it. -/
theorem get?_version_metadataOf {current : Text} {d : Details} (hextra : d.extra = []) :
    (metadataOf current d).get? "version".toList = some (.str version) := by
  unfold metadataOf
  simp only [hextra, Fields.update, List.foldl_nil]
  exact Fields.get?_ite_append (Fields.get?_ite_append (Fields.get?_ite_append rfl _ _) _ _) _ _

section Success

variable (current : Text) (data fields : Fields) (d : Details)

/-- A success has the version unless the extras set another one. -/
theorem versioned_ofSuccess_iff :
    (ofSuccess current data fields d).Versioned ↔ d.extra.Leaves "version".toList (.str version) := by
  rw [Versioned, ofSuccess, metadataOf_eq_update]
  exact Fields.get?_update_iff (get?_version_metadataOf rfl) d.extra

/-- A success names its run unless the extras set another one. -/
theorem names_ofSuccess_iff {id : Text} (hid : d.requestId = some id) (hne : id ≠ []) :
    (ofSuccess current data fields d).Names id ↔ d.extra.Leaves "request_id".toList (.str id) := by
  have hgiven : ({ d with extra := [] } : Details).requestId.getD current = id := by
    rw [hid, Option.getD_some]
  rw [Names, ofSuccess, metadataOf_eq_update]
  exact Fields.get?_update_iff (get?_metadataOf hgiven hne rfl) d.extra

end Success

/-- **Envelopes keep their schema**, except where the extra metadata of a success replace the version or the identity
of the run. A success and a failure say so, and only a failure has an error, which is its message. The data of a
failure always have a code and a type: those that the caller put there, or else those of the failure, which are
internal if it has none. Both envelopes name the version and an identity that was asked for. Of a success this
holds exactly when the extra fields leave the two keys, and a failure has no extra fields. -/
theorem schema_iff (current : Text) (data fields : Fields) (d : Details) (f : Failure) :
    let done := ofSuccess current data fields d
    let failed := ofFailure current f { requestId := d.requestId, telemetry := d.telemetry }
    (done.success = true ∧ done.error = none ∧
        (done.Versioned ↔ d.extra.Leaves "version".toList (.str version))) ∧
      (failed.success = false ∧ failed.error = some f.message ∧ failed.Versioned ∧
        failed.data.get? "error_code".toList = some (((Fields.update [] f.data).get? "error_code".toList).getD
          (.str (f.code.getD ErrorCode.internal.name))) ∧
        failed.data.get? "error_type".toList = some (((Fields.update [] f.data).get? "error_type".toList).getD
          (.str (f.type.getD ErrorType.internal.name)))) ∧
      ∀ id, d.requestId = some id → id ≠ [] →
        (done.Names id ↔ d.extra.Leaves "request_id".toList (.str id)) ∧ failed.Names id := by
  intro done failed
  refine ⟨⟨rfl, rfl, versioned_ofSuccess_iff current data fields d⟩, ⟨rfl, rfl, get?_version_metadataOf rfl,
    get?_code_ofFailure current f _, get?_type_ofFailure current f _⟩, fun id hid hne => ⟨?_, ?_⟩⟩
  · exact names_ofSuccess_iff current data fields d hid hne
  · exact get?_metadataOf (d := { requestId := d.requestId, telemetry := d.telemetry })
      (by rw [hid, Option.getD_some]) hne rfl

/-- Extra metadata that give another version, and leave the identity: the success is no longer of this version, the
failure still is. -/
theorem schema_iff_otherVersion :
    let d : Details :=
      { requestId := some "run_1".toList
        extra := [("version".toList, .ofString "v1"), ("team".toList, .ofString "docs")] }
    ¬ (ofSuccess [] [] [] d).Versioned ∧ (ofSuccess [] [] [] d).Names "run_1".toList ∧
      (ofFailure [] { message := "boom".toList } { requestId := d.requestId }).Versioned := by
  intro d
  obtain ⟨⟨-, -, hversion⟩, ⟨-, -, hfailed, -, -⟩, hnames⟩ := schema_iff [] [] [] d { message := "boom".toList }
  have hgives : (Fields.update [] d.extra).get? "version".toList = some (.ofString "v1") := rfl
  have hleaves : (Fields.update [] d.extra).get? "request_id".toList = none := rfl
  refine ⟨fun hkept => ?_, (hnames _ rfl (by simp)).1.mpr ?_, hfailed⟩
  · have hsame := Value.str.inj (hversion.mp hkept _ hgives)
    exact absurd hsame (by decide)
  · intro w hw
    rw [hleaves] at hw
    cases hw

end Envelope

end DocMark
