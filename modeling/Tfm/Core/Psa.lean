import Mathlib.Init

/-!
# PSA status codes

The `psa_status_t` values of interface/include/psa/error.h and
interface/include/psa/storage_common.h that the modelled functions return.
`PSA_SUCCESS` is the `ok` side of `Except PsaStatus`.
-/
namespace Tfm

/-- The error codes.
mirrors interface/include/psa/error.h:34-53
mirrors interface/include/psa/storage_common.h:43 -/
inductive PsaStatus
  | programmerError
  | connectionRefused
  | connectionBusy
  | genericError
  | notPermitted
  | notSupported
  | invalidArgument
  | invalidHandle
  | badState
  | bufferTooSmall
  | alreadyExists
  | doesNotExist
  | insufficientMemory
  | insufficientStorage
  | insufficientData
  | serviceFailure
  | communicationFailure
  | storageFailure
  | hardwareFailure
  | invalidSignature
  | dataCorrupt
  deriving DecidableEq, Repr

end Tfm
