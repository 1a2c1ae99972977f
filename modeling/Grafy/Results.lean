import Grafy.Instances

/-!
The append-only result store: fingerprint to successful outputs, plus one
mutable pointer per instance to its last result and last failure. The
operations are those of the in-memory store; timestamps are left out, since
nothing reads them.
-/
namespace Grafy.Results

open GraphDocuments Instances OrderedDict

abbrev Fingerprint := String
abbrev Outputs := Dict String ArtifactOutputValue

structure FailureRecord where
  fingerprint : Fingerprint
  message : String
  deriving DecidableEq

structure InstancePointer where
  lastResultFingerprint : Option Fingerprint
  lastFailure : Option FailureRecord
  deriving DecidableEq

structure ResultStore where
  results : Dict Fingerprint Outputs
  pointers : Dict InstanceKey InstancePointer

namespace ResultStore

def empty : ResultStore := ⟨[], []⟩

def getResult (store : ResultStore) (fingerprint : Fingerprint) : Option Outputs :=
  store.results.get? fingerprint

/-- Append once. A fingerprint that already has a result keeps it. -/
def putResult (store : ResultStore) (fingerprint : Fingerprint) (outputs : Outputs) : ResultStore :=
  match store.results.get? fingerprint with
  | some _ => store
  | none => { store with results := store.results.set fingerprint outputs }

/-- `none` is the KeyError for a fingerprint without a stored result. -/
def recordSuccess (store : ResultStore) (key : InstanceKey) (fingerprint : Fingerprint) :
    Option ResultStore :=
  match store.results.get? fingerprint with
  | none => none
  | some _ => some { store with pointers := store.pointers.set key ⟨some fingerprint, none⟩ }

def recordFailure (store : ResultStore) (key : InstanceKey) (failure : FailureRecord) :
    ResultStore :=
  let lastResult := (store.pointers.get? key).bind InstancePointer.lastResultFingerprint
  { store with pointers := store.pointers.set key ⟨lastResult, some failure⟩ }

def Stored (store : ResultStore) (fingerprint : Fingerprint) : Prop :=
  (store.getResult fingerprint).isSome

instance (store : ResultStore) (fingerprint : Fingerprint) :
    Decidable (store.Stored fingerprint) :=
  inferInstanceAs (Decidable ((store.getResult fingerprint).isSome = true))

/-- One store extends another when every stored result is still there. -/
def Extends (old new : ResultStore) : Prop :=
  ∀ fingerprint outputs, old.getResult fingerprint = some outputs →
    new.getResult fingerprint = some outputs

theorem Extends.refl (store : ResultStore) : store.Extends store := fun _ _ h => h

theorem Extends.stored {old new : ResultStore} (h : old.Extends new)
    {fingerprint : Fingerprint} (hs : old.Stored fingerprint) : new.Stored fingerprint := by
  obtain ⟨outputs, ho⟩ := Option.isSome_iff_exists.mp hs
  exact Option.isSome_iff_exists.mpr ⟨outputs, h fingerprint outputs ho⟩

theorem extends_putResult (store : ResultStore) (fingerprint : Fingerprint)
    (outputs : Outputs) : store.Extends (store.putResult fingerprint outputs) := by
  intro f o hf
  unfold putResult
  split
  · exact hf
  · rename_i hnone
    have hne : f ≠ fingerprint := by
      rintro rfl
      rw [getResult, hnone] at hf
      simp at hf
    simpa [getResult, Dict.get?_set_ne _ _ hne] using hf

theorem stored_putResult (store : ResultStore) (fingerprint : Fingerprint)
    (outputs : Outputs) : (store.putResult fingerprint outputs).Stored fingerprint := by
  unfold putResult Stored getResult
  split
  · rename_i _ h
    simp [h]
  · simp

theorem extends_recordFailure (store : ResultStore) (key : InstanceKey)
    (failure : FailureRecord) : store.Extends (store.recordFailure key failure) :=
  fun _ _ h => h

theorem extends_recordSuccess {store store' : ResultStore} {key : InstanceKey}
    {fingerprint : Fingerprint} (h : store.recordSuccess key fingerprint = some store') :
    store.Extends store' := by
  unfold recordSuccess at h
  split at h
  · simp at h
  · cases h
    exact fun _ _ hf => hf

end ResultStore

end Grafy.Results
