import Tfm.L4Service.ItsChunked
import Tfm.L4Service.Ps
import Tfm.L4Service.SpmServe

/-!
# Requests of the storage partitions

The request managers of ITS and of Protected Storage, on the SPM of `SpmReply`: the
partition takes a message with `psa_get`, reads its vectors with `psa_read`, writes the
answer with `psa_write` and ends with `psa_reply`. A handler is a program over the SPM and
what is behind the partition: for ITS both filesystems, for Protected Storage its objects,
where every call out can fail. Before each call of the SPM the other threads take steps.

The handlers of ITS read and write the asset in chunks, between the calls of the
filesystem. `body i k` is byte `k` of input vector `i` when it is read, and behind the end
of a vector what the buffer held. The buffers are the partition's own, so that the memory
checks of the SPM pass. `psa_panic` is written as a panic of the SPM, and so is a loop that
does not end.

Results:
* `uses_itsReq`, `uses_psReq`: no handler writes more than the first output vector takes.
* `reqTurn_asserted`: the turn of a request manager is that of a signal that is asserted.
* `storage_requests`: a request is served exactly if its type is `PSA_IPC_CALL`.
* `storage_requests_panic`: a type no handler knows.
-/
namespace Tfm.L4.StorageReq
open Tfm.L4.Spm Tfm.Bytes

variable {nS nP n : Nat}

/-! ## Handlers -/

/-- The SPM, and the steps to come of the others: some before each call of the partition. -/
structure Run (nS nP n : Nat) where
  sys : RSt nS nP n
  steps : List (List (RLbl nP n))

def Run.wait (db : Db nS nP) (p : Fin nP) (x : Run nS nP n) : Run nS nP n :=
  ⟨byOthers db p x.sys (x.steps.headD []), x.steps.tail⟩

/-- A program over the SPM and the state behind the partition; it ends with a status. -/
def Handler (nS nP n : Nat) (σ α : Type) : Type :=
  Run nS nP n × σ → Except PsaStatus α × (Run nS nP n × σ)

section Constructs

variable {σ α β : Type}

instance : Monad (Handler nS nP n σ) where
  pure a := fun x => (.ok a, x)
  bind m f := fun x =>
    match m x with
    | (.ok a, y) => f a y
    | (.error e, y) => (.error e, y)

def throw (e : PsaStatus) : Handler nS nP n σ α := fun x => (.error e, x)

/-- A loop that does not end. -/
def hang : Handler nS nP n σ α := fun x =>
  (.error .genericError, ({ x.1 with sys := panic x.1.sys }, x.2))

/-- A call of what is behind the partition. -/
def store (f : σ → Except PsaStatus α × σ) : Handler nS nP n σ α := fun x =>
  ((f x.2).1, (x.1, (f x.2).2))

end Constructs

/-- The codes of `psa_status_t`.
mirrors interface/include/psa/error.h:34-53 and interface/include/psa/storage_common.h:42-43 -/
def statusCode : PsaStatus → Int
  | .programmerError => -129
  | .connectionRefused => -130
  | .connectionBusy => -131
  | .genericError => -132
  | .notPermitted => -133
  | .notSupported => -134
  | .invalidArgument => -135
  | .invalidHandle => -136
  | .badState => -137
  | .bufferTooSmall => -138
  | .alreadyExists => -139
  | .doesNotExist => -140
  | .insufficientMemory => -141
  | .insufficientStorage => -142
  | .insufficientData => -143
  | .serviceFailure => -144
  | .communicationFailure => -145
  | .storageFailure => -146
  | .hardwareFailure => -147
  | .invalidSignature => -149
  | .dataCorrupt => -152

/-- What the handler returns. -/
def replyStatus : Except PsaStatus Unit → Int
  | .ok () => psaSuccess
  | .error e => statusCode e

/-- `psa_reply` to the message. -/
def reply (db : Db nS nP) (p : Fin nP) (m : Msg nS) (status : Int) (x : Run nS nP n) :
    Run nS nP n :=
  let x := x.wait db p
  { x with sys := serviceReply db x.sys p m.handle status }

/-- `psa_get` of the signal, and what the message asks for; `none` is a `psa_get` that does
not return. -/
def signalHandle {σ : Type} (db : Db nS nP) (p : Fin nP) (signal : Nat)
    (pfn : Msg nS → Handler nS nP n σ Unit) (x : Run nS nP n × σ) :
    Option (Run nS nP n × σ) :=
  match psaGet db x.1.sys.spm p signal true with
  | none => none
  | some (t, none) => some ({ x.1 with sys := { x.1.sys with spm := t } }, x.2)
  | some (t, some m) =>
    let s : Run nS nP n := { x.1 with sys := { x.1.sys with spm := t } }
    if m.type = ipcConnect then some (reply db p m psaSuccess s, x.2)
    else if m.type = ipcCall then
      let r := pfn m (s, x.2)
      some (reply db p m (replyStatus r.1) r.2.1, r.2.2)
    else if m.type = ipcDisconnect then some (reply db p m psaSuccess s, x.2)
    else some ({ s with sys := panic s.sys }, x.2)

section Calls

variable {σ : Type} (db : Db nS nP) (p : Fin nP) (m : Msg nS) (body : Nat → Nat → UInt8)

/-- `psa_read` on the message. -/
def read (idx num : Nat) : Handler nS nP n σ Nat := fun x =>
  let y := x.1.wait db p
  let r := psaRead db y.sys p m.handle idx num true
  (.ok r.2, ({ y with sys := r.1 }, x.2))

/-- `psa_write` on the message. -/
def write (idx num : Nat) : Handler nS nP n σ Unit := fun x =>
  let y := x.1.wait db p
  (.ok (), ({ y with sys := psaWrite db y.sys p m.handle idx num true }, x.2))

/-- Read an argument of a fixed size. -/
def readArg (idx size : Nat) : Handler nS nP n σ Nat := do
  let num ← read db p m idx size
  if num ≠ size then throw .programmerError
  else pure (ofLe ((List.range size).map (body idx)))

/-! ## ITS -/

section Its

open Tfm.L4.Its

variable (P : Setup)

/-- `sizeof(psa_storage_uid_t)`, `sizeof(psa_storage_create_flags_t)`, `sizeof(size_t)` and
`sizeof(struct psa_storage_info_t)` -/
def uidSize : Nat := 8
def flagsSize : Nat := 4
def sizeSize : Nat := 4
def infoSize : Nat := 12

/-- `msg.client_id` as the four bytes of a file id. -/
def itsClient : UInt32 := UInt32.ofNat (m.clientId % 2 ^ 32).toNat

/-- The filesystems, and the faults to come: with what a call fails, and what it leaves. -/
structure Flashes where
  stores : Stores
  faults : List (Option (PsaStatus × Stores))

/-- A call of the client's filesystem. -/
def fs {α : Type} (prog : Its.M α) : Handler nS nP n Flashes α :=
  store fun w =>
    match w.faults.headD none with
    | some (e, z) => (.error e, ⟨z, w.faults.tail⟩)
    | none =>
      let r := P.runFs (P.getFsCtx (itsClient m)) prog w.stores
      (r.1, ⟨r.2, w.faults.tail⟩)

def fsCfg : Its.Cfg := P.cfg (P.getFsCtx (itsClient m))

/-- The loop of `tfm_its_set` with the calls of `its_req_mngr_read`.
mirrors secure_fw/partitions/internal_trusted_storage/tfm_internal_trusted_storage.c:292-317
and tfm_its_req_mngr.c:366-374 -/
def itsSetLoop (fid : Nat) : Nat → UInt32 → Nat → Nat → Handler nS nP n Flashes Unit
  | 0, _, _, _ => hang
  | fuel + 1, flags, dataLength, offset => do
    let writeSize := min dataLength P.buf
    let _ ← read db p m 1 writeSize
    fs m P (fileWrite (fsCfg m P) fid flags.toNat dataLength writeSize offset fun k =>
      body 1 (offset + k))
    if 0 < dataLength - writeSize then
      itsSetLoop fid fuel (flags &&& ~~~Its.createFlags) (dataLength - writeSize)
        (offset + writeSize)
    else pure ()

/-- mirrors secure_fw/partitions/internal_trusted_storage/tfm_internal_trusted_storage.c:246-318 -/
def itsSet (uid : UInt64) (dataLength : Nat) (flags : UInt32) : Handler nS nP n Flashes Unit :=
  if uid = 0 then throw .invalidArgument
  else if flags &&& ~~~supportedFlags ≠ 0 then throw .notSupported
  else do
    fs m P (setCheck (fsCfg m P) (getFid (itsClient m) uid))
    itsSetLoop db p m body P (getFid (itsClient m) uid) (dataLength + 1)
      (flags ||| Its.createFlags) dataLength 0

/-- mirrors secure_fw/partitions/internal_trusted_storage/tfm_its_req_mngr.c:188-220 -/
def tfmItsSetIpc : Handler nS nP n Flashes Unit :=
  if inSize m 0 ≠ uidSize ∨ inSize m 2 ≠ flagsSize then throw .programmerError
  else do
    let uid ← readArg db p m body 0 uidSize
    let flags ← readArg db p m body 2 flagsSize
    itsSet db p m body P (UInt64.ofNat uid) (inSize m 1) (UInt32.ofNat flags)

/-- The loop of `tfm_its_get` with the calls of `its_req_mngr_write`.
mirrors secure_fw/partitions/internal_trusted_storage/tfm_internal_trusted_storage.c:364-385
and tfm_its_req_mngr.c:376-383 -/
def itsGetLoop (fid : Nat) : Nat → Nat → Nat → Handler nS nP n Flashes Unit
  | 0, _, _ => hang
  | fuel + 1, dataOffset, dataSize => do
    let readSize := min dataSize P.buf
    let _ ← fs m P (fileRead (fsCfg m P) fid readSize dataOffset)
    write db p m 0 readSize
    if 0 < dataSize - readSize then
      itsGetLoop fid fuel (dataOffset + readSize) (dataSize - readSize)
    else pure ()

/-- mirrors secure_fw/partitions/internal_trusted_storage/tfm_internal_trusted_storage.c:320-388 -/
def itsGet (uid : UInt64) (dataOffset dataSize : Nat) : Handler nS nP n Flashes Unit :=
  if uid = 0 then throw .invalidArgument
  else do
    let i ← fs m P (fileGetInfo (fsCfg m P) (getFid (itsClient m) uid))
    if i.sizeCurrent < dataOffset then throw .invalidArgument
    else
      itsGetLoop db p m P (getFid (itsClient m) uid)
        (min dataSize (i.sizeCurrent - dataOffset) + 1) dataOffset
        (min dataSize (i.sizeCurrent - dataOffset))

/-- mirrors secure_fw/partitions/internal_trusted_storage/tfm_its_req_mngr.c:222-254 -/
def tfmItsGetIpc : Handler nS nP n Flashes Unit :=
  if inSize m 0 ≠ uidSize ∨ inSize m 1 ≠ sizeSize then throw .programmerError
  else do
    let uid ← readArg db p m body 0 uidSize
    let dataOffset ← readArg db p m body 1 sizeSize
    itsGet db p m P (UInt64.ofNat uid) dataOffset (outSize m 0)

/-- mirrors secure_fw/partitions/internal_trusted_storage/tfm_its_req_mngr.c:256-283 -/
def tfmItsGetInfoIpc : Handler nS nP n Flashes Unit :=
  if inSize m 0 ≠ uidSize ∨ outSize m 0 ≠ infoSize then throw .programmerError
  else do
    let uid ← readArg db p m body 0 uidSize
    let _ ← fs m P (tfmItsGetInfo (fsCfg m P) (itsClient m) (UInt64.ofNat uid))
    write db p m 0 infoSize

/-- mirrors secure_fw/partitions/internal_trusted_storage/tfm_its_req_mngr.c:285-305 -/
def tfmItsRemoveIpc : Handler nS nP n Flashes Unit :=
  if inSize m 0 ≠ uidSize then throw .programmerError
  else do
    let uid ← readArg db p m body 0 uidSize
    fs m P (tfmItsRemove (fsCfg m P) (itsClient m) (UInt64.ofNat uid))

end Its

/-! ## Protected Storage -/

section Ps

open Tfm.L4.Ps Tfm.Crash

variable {k : Nat}

/-- The objects and the faults to come: whether a call out of the partition fails. -/
structure World (k : Nat) where
  sys : Sys k
  faults : List Bool

/-- Settings of the partition, and the platform's provisioned certificates. -/
structure PsSetup where
  cfg : Ps.Cfg
  /-- `TFM_ENABLE_PS_OEM_UID` -/
  oemUid : Bool
  /-- the length `cy_p64_get_provisioning_details` returns -/
  certificate : UInt64 → Option Nat

variable (S : PsSetup)

/-- Run a program of the object system. -/
def runPs {α : Type} (prog : Ps.M k α) (w : World k) : Except PsaStatus α × World k :=
  match prog w.sys (w.faults.map fun b => if b then .fail else .ok) with
  | .ok a s l => (.ok a, ⟨s, l.map (· == .fail)⟩)
  | .err e s l => (.error e, ⟨s, l.map (· == .fail)⟩)
  -- the power stays on
  | .cut s => (.error .genericError, ⟨s, []⟩)

def ps {α : Type} (prog : Ps.M k α) : Handler nS nP n (World k) α := store (runPs prog)

/-- mirrors interface/include/tfm_ps_defs.h:23-36 -/
def isTfmPsOemUid (uid : UInt64) : Bool := S.oemUid && decide (0x100 ≤ uid ∧ uid ≤ 0x1FF)

/-- mirrors platform/ext/target/cypress/psoc64/services/src/tfm_platform_ps.c:33-58; the id
of the certificate is in range for every OEM uid. -/
def platformGetCertificate (uid : UInt64) : Handler nS nP n (World k) Nat :=
  match S.certificate uid with
  | none => throw .storageFailure
  | some len => pure len

/-- mirrors platform/ext/target/cypress/psoc64/services/src/tfm_platform_ps.c:73-113 -/
def tfmPlatformPsGet (uid : UInt64) (dataOffset dataSize : Nat) :
    Handler nS nP n (World k) Unit :=
  if dataOffset ≠ 0 then throw .invalidArgument
  else do
    let certLength ← platformGetCertificate S uid
    if dataSize < certLength then throw .bufferTooSmall
    else write db p m 0 certLength

/-- mirrors secure_fw/partitions/protected_storage/tfm_ps_req_mngr.c:442-455 -/
def psReqMngrReadAssetData (size : Nat) : Handler nS nP n (World k) (List UInt8) := do
  let num ← read db p m 1 size
  if num ≠ size then throw .programmerError
  else pure ((List.range size).map (body 1))

/-- `ps_object_create` with the call of `ps_req_mngr_read_asset_data`.
mirrors secure_fw/partitions/protected_storage/ps_object_system.c:224-337 -/
def objectCreate (uid : Nat) (flags : UInt32) (size : Nat) : Handler nS nP n (World k) Unit :=
  if S.cfg.maxData < size then throw .invalidArgument
  else do
    let s ← ps Crash.get
    match getObjectEntryIdx s.table.body uid m.clientId with
    | some i => do
      let old ← ps (psEncryptedObjectRead (objectFid i.val) (s.table.body.db i).tag)
      if old.flags &&& flagWriteOnce ≠ 0 then throw .notPermitted
      else do
        let data ← psReqMngrReadAssetData db p m body size
        ps (storeObject S.cfg 1 uid m.clientId ⟨data.length, flags, data⟩
          (some (objectFid i.val)))
    | none => do
      let data ← psReqMngrReadAssetData db p m body size
      ps (storeObject S.cfg 2 uid m.clientId ⟨data.length, flags, data⟩ none)

/-- mirrors secure_fw/partitions/protected_storage/tfm_protected_storage.c:49-74 -/
def psSet (uid : UInt64) (dataLength : Nat) (flags : UInt32) : Handler nS nP n (World k) Unit :=
  if uid = 0 then throw .invalidArgument
  else if flags &&& ~~~Ps.createFlags ≠ 0 then throw .notSupported
  else if isTfmPsOemUid S uid then throw .notPermitted
  else objectCreate db p m body S uid.toNat flags dataLength

/-- mirrors secure_fw/partitions/protected_storage/tfm_ps_req_mngr.c:249-283 -/
def tfmPsSetIpc : Handler nS nP n (World k) Unit :=
  if inSize m 0 ≠ uidSize ∨ inSize m 2 ≠ flagsSize then throw .programmerError
  else do
    let uid ← readArg db p m body 0 (inSize m 0)
    let flags ← readArg db p m body 2 (inSize m 2)
    psSet db p m body S (UInt64.ofNat uid) (inSize m 1) (UInt32.ofNat flags)

/-- `ps_object_read` with the call of `ps_req_mngr_write_asset_data`.
mirrors secure_fw/partitions/protected_storage/ps_object_system.c:177-222 -/
def objectRead (uid dataOffset size : Nat) : Handler nS nP n (World k) Unit := do
  let s ← ps Crash.get
  match getObjectEntryIdx s.table.body uid m.clientId with
  | none => throw .doesNotExist
  | some i => do
    let obj ← ps (psEncryptedObjectRead (objectFid i.val) (s.table.body.db i).tag)
    if obj.data.length < dataOffset then throw .invalidArgument
    else write db p m 0 (min size (obj.data.length - dataOffset))

/-- mirrors secure_fw/partitions/protected_storage/tfm_protected_storage.c:76-95 -/
def psGet (uid : UInt64) (dataOffset dataSize : Nat) : Handler nS nP n (World k) Unit :=
  if uid = 0 then throw .invalidArgument
  else if isTfmPsOemUid S uid then tfmPlatformPsGet db p m S uid dataOffset dataSize
  else objectRead db p m uid.toNat dataOffset dataSize

/-- mirrors secure_fw/partitions/protected_storage/tfm_ps_req_mngr.c:285-315 -/
def tfmPsGetIpc : Handler nS nP n (World k) Unit :=
  if inSize m 0 ≠ uidSize ∨ inSize m 1 ≠ sizeSize then throw .programmerError
  else do
    let uid ← readArg db p m body 0 (inSize m 0)
    let dataOffset ← readArg db p m body 1 (inSize m 1)
    psGet db p m S (UInt64.ofNat uid) dataOffset (outSize m 0)

/-- The answer of `tfm_ps_get_info`: the size and the flags.
mirrors secure_fw/partitions/protected_storage/tfm_protected_storage.c:97-110 -/
def psGetInfo (uid : UInt64) : Handler nS nP n (World k) (Nat × UInt32) :=
  if uid = 0 then throw .invalidArgument
  else if isTfmPsOemUid S uid then do
    let certLength ← platformGetCertificate S uid
    pure (certLength, flagWriteOnce)
  else ps (psObjectGetInfo uid.toNat m.clientId)

/-- mirrors secure_fw/partitions/protected_storage/tfm_ps_req_mngr.c:317-345 -/
def tfmPsGetInfoIpc : Handler nS nP n (World k) Unit :=
  if inSize m 0 ≠ uidSize ∨ outSize m 0 ≠ infoSize then throw .programmerError
  else do
    let uid ← readArg db p m body 0 (inSize m 0)
    let _ ← psGetInfo m S (UInt64.ofNat uid)
    write db p m 0 (outSize m 0)

/-- mirrors secure_fw/partitions/protected_storage/tfm_protected_storage.c:112-139 -/
def psRemove (uid : UInt64) : Handler nS nP n (World k) Unit :=
  if uid = 0 then throw .invalidArgument
  else if isTfmPsOemUid S uid then throw .notPermitted
  else store fun w =>
    match runPs (psObjectDelete S.cfg uid.toNat m.clientId) w with
    | (.error .invalidSignature, w') => (.error .genericError, w')
    | r => r

/-- mirrors secure_fw/partitions/protected_storage/tfm_ps_req_mngr.c:347-367 -/
def tfmPsRemoveIpc : Handler nS nP n (World k) Unit :=
  if inSize m 0 ≠ uidSize then throw .programmerError
  else do
    let uid ← readArg db p m body 0 (inSize m 0)
    psRemove m S (UInt64.ofNat uid)

/-- mirrors secure_fw/partitions/protected_storage/tfm_ps_req_mngr.c:369-383 -/
def tfmPsGetSupportIpc : Handler nS nP n (World k) Unit :=
  if outSize m 0 ≠ 4 then throw .programmerError else write db p m 0 (outSize m 0)

end Ps

/-! ## Requests -/

inductive ItsReq
  | set
  | get
  | getInfo
  | remove
  deriving DecidableEq, Repr

def itsReq (P : Its.Setup) : ItsReq → Handler nS nP n Flashes Unit
  | .set => tfmItsSetIpc db p m body P
  | .get => tfmItsGetIpc db p m body P
  | .getInfo => tfmItsGetInfoIpc db p m body P
  | .remove => tfmItsRemoveIpc db p m body P

inductive PsReq
  | set
  | get
  | getInfo
  | remove
  | getSupport
  deriving DecidableEq, Repr

def psReq {k : Nat} (S : PsSetup) : PsReq → Handler nS nP n (World k) Unit
  | .set => tfmPsSetIpc db p m body S
  | .get => tfmPsGetIpc db p m body S
  | .getInfo => tfmPsGetInfoIpc db p m body S
  | .remove => tfmPsRemoveIpc db p m body S
  | .getSupport => tfmPsGetSupportIpc db p m

end Calls

/-- `its_signal_handle`.
mirrors secure_fw/partitions/internal_trusted_storage/tfm_its_req_mngr.c:307-329 -/
def itsSignalHandle (db : Db nS nP) (p : Fin nP) (body : Nat → Nat → UInt8) (P : Its.Setup)
    (signal : Nat) (q : ItsReq) (x : Run nS nP n × Flashes) :
    Option (Run nS nP n × Flashes) :=
  signalHandle db p signal (fun m => itsReq db p m body P q) x

/-- `ps_signal_handle`.
mirrors secure_fw/partitions/protected_storage/tfm_ps_req_mngr.c:385-404 -/
def psSignalHandle {k : Nat} (db : Db nS nP) (p : Fin nP) (body : Nat → Nat → UInt8)
    (S : PsSetup) (signal : Nat) (q : PsReq) (x : Run nS nP n × World k) :
    Option (Run nS nP n × World k) :=
  signalHandle db p signal (fun m => psReq db p m body S q) x

/-- One turn of the loop of a request manager: the first signal that is asserted. -/
def reqTurn {ρ α : Type} (handle : Nat → ρ → Run nS nP n × α → Option (Run nS nP n × α))
    (p : Fin nP) : List (Nat × ρ) → Run nS nP n × α → Option (Run nS nP n × α)
  | [], x => some ({ x.1 with sys := panic x.1.sys }, x.2)
  | (signal, q) :: l, x =>
    if x.1.sys.spm.asserted p signal then handle signal q x else reqTurn handle p l x

/-- The loop body of `tfm_its_req_mngr_init`; `signal` are the signals of the services.
mirrors secure_fw/partitions/internal_trusted_storage/tfm_its_req_mngr.c:341-354 -/
def itsTurn (db : Db nS nP) (p : Fin nP) (body : Nat → Nat → UInt8) (P : Its.Setup)
    (signal : ItsReq → Nat) : Run nS nP n × Flashes → Option (Run nS nP n × Flashes) :=
  reqTurn (itsSignalHandle db p body P) p
    ([.set, .get, .getInfo, .remove].map fun q => (signal q, q))

/-- The loop body of `tfm_ps_req_mngr_init`.
mirrors secure_fw/partitions/protected_storage/tfm_ps_req_mngr.c:416-432 -/
def psTurn {k : Nat} (db : Db nS nP) (p : Fin nP) (body : Nat → Nat → UInt8) (S : PsSetup)
    (signal : PsReq → Nat) : Run nS nP n × World k → Option (Run nS nP n × World k) :=
  reqTurn (psSignalHandle db p body S) p
    ([.set, .get, .getInfo, .remove, .getSupport].map fun q => (signal q, q))

/-! ## Rules for handlers -/

section Rules

variable {db : Db nS nP} {p : Fin nP} {m : Msg nS} {b : Nat} {σ α β : Type}

/-- The handler leaves the output vector alone. -/
def Quiet (db : Db nS nP) (p : Fin nP) (m : Msg nS) (h : Handler nS nP n σ α) : Prop :=
  ∀ x b, Ready db p m x.1.sys b → Ready db p m (h x).2.1.sys b

/-- The handler writes no more than `b` bytes. -/
def Uses (db : Db nS nP) (p : Fin nP) (m : Msg nS) (b : Nat) (h : Handler nS nP n σ α) : Prop :=
  ∀ x, Ready db p m x.1.sys b → Ready db p m (h x).2.1.sys 0

theorem ready_wait (hpid : PidsOk db) {x : Run nS nP n} (h : Ready db p m x.sys b) :
    Ready db p m (x.wait db p).sys b := ready_others hpid _ h

theorem quiet_pure (r : α) : Quiet db p m (pure r : Handler nS nP n σ α) := fun _ _ h => h

theorem quiet_throw (e : PsaStatus) : Quiet db p m (throw e : Handler nS nP n σ α) :=
  fun _ _ h => h

theorem quiet_store (f : σ → Except PsaStatus α × σ) :
    Quiet db p m (store f : Handler nS nP n σ α) := fun _ _ h => h

theorem quiet_read (hpid : PidsOk db) (hty : ipcCall ≤ m.type) {idx : Nat}
    (hidx : idx < maxIovec) (num : Nat) :
    Quiet db p m (read db p m idx num : Handler nS nP n σ Nat) :=
  fun _ _ h => ready_read (ready_wait hpid h) hty hidx num

theorem quiet_bind {h : Handler nS nP n σ α} {f : α → Handler nS nP n σ β}
    (hq : Quiet db p m h) (hf : ∀ r, Quiet db p m (f r)) : Quiet db p m (h >>= f) := by
  intro x b hx
  have hy := hq x b hx
  show Ready db p m (match h x with
    | (.ok r, y) => f r y
    | (.error e, y) => (.error e, y)).2.1.sys b
  revert hy
  rcases h x with ⟨e | r, y⟩
  · exact id
  · exact hf r y b

theorem uses_of_quiet {h : Handler nS nP n σ α} (hq : Quiet db p m h) : Uses db p m b h :=
  fun x hx => (hq x b hx).mono (Nat.zero_le b)

theorem uses_bind {h : Handler nS nP n σ α} {f : α → Handler nS nP n σ β}
    (hq : Quiet db p m h) (hf : ∀ r, Uses db p m b (f r)) : Uses db p m b (h >>= f) := by
  intro x hx
  have hy := hq x b hx
  show Ready db p m (match h x with
    | (.ok r, y) => f r y
    | (.error e, y) => (.error e, y)).2.1.sys 0
  revert hy
  rcases h x with ⟨e | r, y⟩
  · exact fun hy => hy.mono (Nat.zero_le b)
  · exact hf r y

theorem uses_write (hpid : PidsOk db) (hty : ipcCall ≤ m.type) {num : Nat} (hnum : num ≤ b) :
    Uses db p m b (write db p m 0 num : Handler nS nP n σ Unit) :=
  fun _ hx => (ready_write (ready_wait hpid hx) hty hnum).mono (Nat.zero_le _)

theorem uses_write_bind (hpid : PidsOk db) (hty : ipcCall ≤ m.type) {num : Nat} (hnum : num ≤ b)
    {f : Unit → Handler nS nP n σ β} (hf : Uses db p m (b - num) (f ())) :
    Uses db p m b (write db p m 0 num >>= f) :=
  fun _ hx => hf _ (ready_write (ready_wait hpid hx) hty hnum)

theorem quiet_readArg (hpid : PidsOk db) (hty : ipcCall ≤ m.type) (body : Nat → Nat → UInt8)
    {idx : Nat} (hidx : idx < maxIovec) (size : Nat) :
    Quiet db p m (readArg db p m body idx size : Handler nS nP n σ Nat) := by
  refine quiet_bind (quiet_read hpid hty hidx size) fun num => ?_
  split
  · exact quiet_throw _
  · exact quiet_pure _

end Rules

/-! ## The handlers of ITS -/

section Its

open Tfm.L4.Its

variable {db : Db nS nP} {p : Fin nP} {m : Msg nS} {body : Nat → Nat → UInt8} {P : Setup}
  {b : Nat}

/-- The fuel of a loop is enough: every turn but the last takes a byte at least. -/
theorem turn_lt {d buf fuel : Nat} (hbuf : 0 < buf) (hd : d < fuel + 1)
    (hrest : 0 < d - min d buf) : d - min d buf < fuel := by omega

theorem quiet_itsSetLoop (hpid : PidsOk db) (hty : ipcCall ≤ m.type) (fid : Nat) (fuel : Nat) :
    ∀ (flags : UInt32) (dataLength offset : Nat), dataLength < fuel →
      Quiet db p m (itsSetLoop db p m body P fid fuel flags dataLength offset :
        Handler nS nP n Flashes Unit) := by
  induction fuel with
  | zero => exact fun _ _ _ hd => absurd hd (Nat.not_lt_zero _)
  | succ fuel ih =>
    intro flags dataLength offset hd
    unfold itsSetLoop
    refine quiet_bind (quiet_read hpid hty (by decide) _) fun _ => ?_
    refine quiet_bind (quiet_store _) fun _ => ?_
    split
    · next hrest => exact ih _ _ _ (turn_lt P.buf_pos hd hrest)
    · exact quiet_pure ()

theorem uses_tfmItsSetIpc (hpid : PidsOk db) (hty : ipcCall ≤ m.type) :
    Uses db p m b (tfmItsSetIpc db p m body P : Handler nS nP n Flashes Unit) := by
  apply uses_of_quiet
  unfold tfmItsSetIpc
  split
  · exact quiet_throw _
  refine quiet_bind (quiet_readArg hpid hty body (by decide) _) fun uid => ?_
  refine quiet_bind (quiet_readArg hpid hty body (by decide) _) fun flags => ?_
  unfold itsSet
  split
  · exact quiet_throw _
  split
  · exact quiet_throw _
  · refine quiet_bind (quiet_store _) fun _ => ?_
    exact quiet_itsSetLoop hpid hty _ _ _ _ _ (Nat.lt_succ_self _)

/-- The chunks of a get add up to what is left to get. -/
theorem uses_itsGetLoop (hpid : PidsOk db) (hty : ipcCall ≤ m.type) (fid : Nat) (fuel : Nat) :
    ∀ (dataOffset dataSize b : Nat), dataSize < fuel → dataSize ≤ b →
      Uses db p m b (itsGetLoop db p m P fid fuel dataOffset dataSize :
        Handler nS nP n Flashes Unit) := by
  induction fuel with
  | zero => exact fun _ _ _ hd _ => absurd hd (Nat.not_lt_zero _)
  | succ fuel ih =>
    intro dataOffset dataSize b hd hb
    unfold itsGetLoop
    refine uses_bind (quiet_store _) fun _ => ?_
    refine uses_write_bind hpid hty (Nat.le_trans (Nat.min_le_left _ _) hb) ?_
    split
    · next hrest =>
      exact ih _ _ _ (turn_lt P.buf_pos hd hrest) (Nat.sub_le_sub_right hb _)
    · exact uses_of_quiet (quiet_pure ())

theorem uses_tfmItsGetIpc (hpid : PidsOk db) (hty : ipcCall ≤ m.type) :
    Uses db p m (outSize m 0) (tfmItsGetIpc db p m body P : Handler nS nP n Flashes Unit) := by
  unfold tfmItsGetIpc
  split
  · exact uses_of_quiet (quiet_throw _)
  refine uses_bind (quiet_readArg hpid hty body (by decide) _) fun uid => ?_
  refine uses_bind (quiet_readArg hpid hty body (by decide) _) fun dataOffset => ?_
  unfold itsGet
  split
  · exact uses_of_quiet (quiet_throw _)
  refine uses_bind (quiet_store _) fun i => ?_
  split
  · exact uses_of_quiet (quiet_throw _)
  · exact uses_itsGetLoop hpid hty _ _ _ _ _ (Nat.lt_succ_self _) (Nat.min_le_left _ _)

theorem uses_itsReq (hpid : PidsOk db) (hty : ipcCall ≤ m.type) (q : ItsReq) :
    Uses db p m (outSize m 0) (itsReq db p m body P q : Handler nS nP n Flashes Unit) := by
  cases q with
  | set => exact uses_tfmItsSetIpc hpid hty
  | get => exact uses_tfmItsGetIpc hpid hty
  | getInfo =>
    show Uses db p m (outSize m 0) (tfmItsGetInfoIpc db p m body P)
    unfold tfmItsGetInfoIpc
    split
    · exact uses_of_quiet (quiet_throw _)
    · next hsize =>
      refine uses_bind (quiet_readArg hpid hty body (by decide) _) fun uid => ?_
      refine uses_bind (quiet_store _) fun _ => uses_write hpid hty ?_
      omega
  | remove =>
    show Uses db p m (outSize m 0) (tfmItsRemoveIpc db p m body P)
    unfold tfmItsRemoveIpc
    split
    · exact uses_of_quiet (quiet_throw _)
    · refine uses_bind (quiet_readArg hpid hty body (by decide) _) fun uid => ?_
      exact uses_of_quiet (quiet_store _)

end Its

/-! ## The handlers of Protected Storage -/

section Ps

open Tfm.L4.Ps

variable {db : Db nS nP} {p : Fin nP} {m : Msg nS} {body : Nat → Nat → UInt8} {S : PsSetup}
  {k : Nat}

theorem quiet_psReqMngrReadAssetData (hpid : PidsOk db) (hty : ipcCall ≤ m.type) (size : Nat) :
    Quiet db p m (psReqMngrReadAssetData db p m body size :
      Handler nS nP n (World k) (List UInt8)) := by
  refine quiet_bind (quiet_read hpid hty (by decide) _) fun num => ?_
  split
  · exact quiet_throw _
  · exact quiet_pure _

theorem quiet_objectCreate (hpid : PidsOk db) (hty : ipcCall ≤ m.type) (uid : Nat)
    (flags : UInt32) (size : Nat) :
    Quiet db p m (objectCreate db p m body S uid flags size :
      Handler nS nP n (World k) Unit) := by
  unfold objectCreate
  split
  · exact quiet_throw _
  refine quiet_bind (quiet_store _) fun s => ?_
  split
  · refine quiet_bind (quiet_store _) fun old => ?_
    split
    · exact quiet_throw _
    · exact quiet_bind (quiet_psReqMngrReadAssetData hpid hty _) fun data => quiet_store _
  · exact quiet_bind (quiet_psReqMngrReadAssetData hpid hty _) fun data => quiet_store _

theorem uses_tfmPsSetIpc (hpid : PidsOk db) (hty : ipcCall ≤ m.type) {b : Nat} :
    Uses db p m b (tfmPsSetIpc db p m body S : Handler nS nP n (World k) Unit) := by
  apply uses_of_quiet
  unfold tfmPsSetIpc
  split
  · exact quiet_throw _
  refine quiet_bind (quiet_readArg hpid hty body (by decide) _) fun uid => ?_
  refine quiet_bind (quiet_readArg hpid hty body (by decide) _) fun flags => ?_
  unfold psSet
  split
  · exact quiet_throw _
  split
  · exact quiet_throw _
  split
  · exact quiet_throw _
  · exact quiet_objectCreate hpid hty _ _ _

theorem quiet_platformGetCertificate (uid : UInt64) :
    Quiet db p m (platformGetCertificate S uid : Handler nS nP n (World k) Nat) := by
  unfold platformGetCertificate
  split
  · exact quiet_throw _
  · exact quiet_pure _

theorem uses_tfmPsGetIpc (hpid : PidsOk db) (hty : ipcCall ≤ m.type) :
    Uses db p m (outSize m 0) (tfmPsGetIpc db p m body S : Handler nS nP n (World k) Unit) := by
  unfold tfmPsGetIpc
  split
  · exact uses_of_quiet (quiet_throw _)
  refine uses_bind (quiet_readArg hpid hty body (by decide) _) fun uid => ?_
  refine uses_bind (quiet_readArg hpid hty body (by decide) _) fun dataOffset => ?_
  unfold psGet
  split
  · exact uses_of_quiet (quiet_throw _)
  split
  · unfold tfmPlatformPsGet
    split
    · exact uses_of_quiet (quiet_throw _)
    refine uses_bind (quiet_platformGetCertificate _) fun certLength => ?_
    split
    · exact uses_of_quiet (quiet_throw _)
    · next hfits => exact uses_write hpid hty (Nat.not_lt.1 hfits)
  · unfold objectRead
    refine uses_bind (quiet_store _) fun s => ?_
    split
    · exact uses_of_quiet (quiet_throw _)
    refine uses_bind (quiet_store _) fun obj => ?_
    split
    · exact uses_of_quiet (quiet_throw _)
    · exact uses_write hpid hty (Nat.min_le_left _ _)

theorem quiet_psGetInfo (uid : UInt64) :
    Quiet db p m (psGetInfo m S uid : Handler nS nP n (World k) (Nat × UInt32)) := by
  unfold psGetInfo
  split
  · exact quiet_throw _
  split
  · exact quiet_bind (quiet_platformGetCertificate _) fun certLength => quiet_pure _
  · exact quiet_store _

theorem quiet_psRemove (uid : UInt64) :
    Quiet db p m (psRemove m S uid : Handler nS nP n (World k) Unit) := by
  unfold psRemove
  split
  · exact quiet_throw _
  split
  · exact quiet_throw _
  · exact quiet_store _

theorem uses_psReq (hpid : PidsOk db) (hty : ipcCall ≤ m.type) (q : PsReq) :
    Uses db p m (outSize m 0) (psReq db p m body S q : Handler nS nP n (World k) Unit) := by
  cases q with
  | set => exact uses_tfmPsSetIpc hpid hty
  | get => exact uses_tfmPsGetIpc hpid hty
  | getInfo =>
    show Uses db p m (outSize m 0) (tfmPsGetInfoIpc db p m body S)
    unfold tfmPsGetInfoIpc
    split
    · exact uses_of_quiet (quiet_throw _)
    · refine uses_bind (quiet_readArg hpid hty body (by decide) _) fun uid => ?_
      exact uses_bind (quiet_psGetInfo _) fun _ => uses_write hpid hty (Nat.le_refl _)
  | remove =>
    show Uses db p m (outSize m 0) (tfmPsRemoveIpc db p m body S)
    unfold tfmPsRemoveIpc
    split
    · exact uses_of_quiet (quiet_throw _)
    · refine uses_bind (quiet_readArg hpid hty body (by decide) _) fun uid => ?_
      exact uses_of_quiet (quiet_psRemove _)
  | getSupport =>
    show Uses db p m (outSize m 0) (tfmPsGetSupportIpc db p m)
    unfold tfmPsGetSupportIpc
    split
    · exact uses_of_quiet (quiet_throw _)
    · exact uses_write hpid hty (Nat.le_refl _)

end Ps

/-! ## Results -/

/-- With a signal of the partition asserted, a turn is that of such a signal. -/
theorem reqTurn_asserted {ρ α : Type}
    (handle : Nat → ρ → Run nS nP n × α → Option (Run nS nP n × α)) (p : Fin nP)
    (l : List (Nat × ρ)) (x : Run nS nP n × α)
    (h : ∃ y ∈ l, x.1.sys.spm.asserted p y.1 = true) :
    ∃ y ∈ l, x.1.sys.spm.asserted p y.1 = true ∧ reqTurn handle p l x = handle y.1 y.2 x := by
  induction l with
  | nil =>
    obtain ⟨y, hy, -⟩ := h
    cases hy
  | cons z l ih =>
    by_cases hz : x.1.sys.spm.asserted p z.1 = true
    · exact ⟨z, List.mem_cons_self, hz, by simp [reqTurn, hz]⟩
    · obtain ⟨y, hy, ha, he⟩ := ih <| by
        obtain ⟨y, hy, ha⟩ := h
        rcases List.mem_cons.1 hy with rfl | hy
        · exact absurd ha hz
        · exact ⟨y, hy, ha⟩
      exact ⟨y, List.mem_cons_of_mem _ hy, ha, by simp [reqTurn, hz, he]⟩

theorem signalHandle_served {σ : Type} {db : Db nS nP} (hpid : PidsOk db) {s : RSt nS nP n}
    {p : Fin nP} {signal : Nat} {t : St nS nP} {m : Msg nS} (h : WInv db s)
    (hp : s.spm.panicked = false) (hg : psaGet db s.spm p signal true = some (t, some m))
    (hc : m.clientId < 0) (hty : ipcCall ≤ m.type) {pfn : Msg nS → Handler nS nP n σ Unit}
    (hu : Uses db p m (outSize m 0) (pfn m)) (steps : List (List (RLbl nP n))) (z : σ) :
    ∃ x, signalHandle db p signal pfn (⟨s, steps⟩, z) = some x ∧
      (Served s x.1.sys m ↔ m.type = ipcCall) := by
  obtain ⟨hready, hnew⟩ := ready_get h hp hg
  have h1 : m.type ≠ ipcConnect := by
    intro he
    rw [he] at hty
    exact absurd hty (by decide)
  have h2 : m.type ≠ ipcDisconnect := by
    intro he
    rw [he] at hty
    exact absurd hty (by decide)
  unfold signalHandle
  simp only [hg, if_neg h1, if_neg h2]
  by_cases hcall : m.type = ipcCall
  · refine ⟨_, if_pos hcall, fun _ => hcall, fun _ => ?_⟩
    have hend := hu (⟨{ s with spm := t }, steps⟩, z) hready
    exact ready_reply (ready_wait hpid hend) hty hc hnew _
  · refine ⟨_, if_neg hcall, fun hs => ?_, fun he => absurd he hcall⟩
    cases hs.run

/-- **Requests of non-secure clients.** In every reachable state of a run in which requests
on a connection come one at a time and services use the handle of a message only while they
have it, whatever the vectors of the request, their contents, the stored data and the
failures behind the partition, and whatever the other threads do meanwhile: the handler of
ITS, or of Protected Storage, ends with one reply to the request, and no panic, exactly if
the type of the request is `PSA_IPC_CALL`. -/
theorem storage_requests (db : Db nS nP) (hpid : PidsOk db) {s : RSt nS nP n}
    (hs : ((rlts db n).restrict fun s l => disciplined db s l = true).Reachable s)
    (hp : s.spm.panicked = false) {p : Fin nP} {signal : Nat} {t : St nS nP} {m : Msg nS}
    (hg : psaGet db s.spm p signal true = some (t, some m)) (hc : m.clientId < 0)
    (hty : 0 ≤ m.type) (body : Nat → Nat → UInt8) (steps : List (List (RLbl nP n))) :
    (∀ (P : Its.Setup) (q : ItsReq) (w : Flashes), ∃ x,
      itsSignalHandle db p body P signal q (⟨s, steps⟩, w) = some x ∧
        (Served s x.1.sys m ↔ m.type = ipcCall)) ∧
    ∀ (k : Nat) (S : PsSetup) (q : PsReq) (w : World k), ∃ x,
      psSignalHandle db p body S signal q (⟨s, steps⟩, w) = some x ∧
        (Served s x.1.sys m ↔ m.type = ipcCall) := by
  have h := (winv_inductive hpid n).reachable s hs
  refine ⟨fun P q w => ?_, fun k S q w => ?_⟩
  · exact signalHandle_served hpid h hp hg hc hty (uses_itsReq hpid hty q) steps w
  · exact signalHandle_served hpid h hp hg hc hty (uses_psReq hpid hty q) steps w

/-- Client -1 sends a request of this type to the stateless service, with an id of eight
bytes. -/
def sendRequest (type : Int) : List (RLbl 1 1) :=
  [.mailbox 0 (.call ⟨0x40000101, type, 0x100, [⟨0x200, 8⟩], 0, []⟩)]

/-- Its message. -/
def sentMsg (type : Int) : Msg 2 :=
  ⟨true, some 1, type, 194, -1, 0, [⟨0x200, 8⟩], [], 0, some 0, .call, 0⟩

theorem storage_requests_remove : ∃ (s : RSt 2 1 1) (x : Run 2 1 1 × Flashes),
    itsSignalHandle bothServices 0 (fun _ _ => 7) Its.smallSetup 5 .remove
      (⟨s, [[.mailbox 1 (.connect 0x1000 1)]]⟩, ⟨Its.smallStores, []⟩) = some x ∧
    Served s x.1.sys (sentMsg 0) := by
  have he : (LTS.execC (disciplined bothServices) (rstep bothServices) (rinit 2 1 1)
      (sendRequest 0)).bind (fun s => (psaGet bothServices s.spm 0 5 true).map fun x =>
        (s.spm.panicked, x.2)) = some (false, some (sentMsg 0)) := by decide +kernel
  obtain ⟨s, hs, hg⟩ := Option.bind_eq_some_iff.1 he
  obtain ⟨⟨t, m⟩, hg, hv⟩ := Option.map_eq_some_iff.1 hg
  simp only [Prod.mk.injEq] at hv
  obtain ⟨hp, rfl⟩ := hv
  obtain ⟨x, hx, hserved⟩ := (storage_requests bothServices (fun _ => Int.le_refl _)
    (LTS.reachable_execC (fun _ _ h => h) _ rfl hs) hp hg (by decide) (by decide)
    (fun _ _ => 7) [[.mailbox 1 (.connect 0x1000 1)]]).1 Its.smallSetup .remove
    ⟨Its.smallStores, []⟩
  exact ⟨s, x, hx, hserved.2 rfl⟩

/-- **Counterexample**: the SPM delivers a request of type 1, and whatever service it is
for, the partition panics. -/
theorem storage_requests_panic : ∃ (s : RSt 2 1 1) (t : St 2 1),
    ((rlts bothServices 1).restrict fun s l =>
      disciplined bothServices s l = true).Reachable s ∧
    s.spm.panicked = false ∧ psaGet bothServices s.spm 0 5 true = some (t, some (sentMsg 1)) ∧
    (∀ body P q w, ∃ x, itsSignalHandle bothServices 0 body P 5 q (⟨s, []⟩, w) = some x ∧
      x.1.sys.spm.panicked = true) ∧
    ∀ body (k : Nat) S q (w : World k), ∃ x,
      psSignalHandle bothServices 0 body S 5 q (⟨s, []⟩, w) = some x ∧
        x.1.sys.spm.panicked = true := by
  have he : (LTS.execC (disciplined bothServices) (rstep bothServices) (rinit 2 1 1)
      (sendRequest 1)).bind (fun s => (psaGet bothServices s.spm 0 5 true).map fun x =>
        (s.spm.panicked, x.2)) = some (false, some (sentMsg 1)) := by decide +kernel
  obtain ⟨s, hs, hg⟩ := Option.bind_eq_some_iff.1 he
  obtain ⟨⟨t, m⟩, hg, hv⟩ := Option.map_eq_some_iff.1 hg
  simp only [Prod.mk.injEq] at hv
  obtain ⟨hp, rfl⟩ := hv
  refine ⟨s, t, LTS.reachable_execC (fun _ _ h => h) _ rfl hs, hp, hg, fun body P q w => ?_,
    fun body k S q w => ?_⟩
  · unfold itsSignalHandle signalHandle
    simp only [hg]
    exact ⟨_, rfl, rfl⟩
  · unfold psSignalHandle signalHandle
    simp only [hg]
    exact ⟨_, rfl, rfl⟩

end Tfm.L4.StorageReq
