import Mathlib.Data.Fintype.Basic
import Mathlib.Data.List.Nodup
import Tfm.Core.Signal
import Tfm.L4Service.Spm

/-!
# PSA proxy

The partition that forwards every service of a secure enclave to it
(secure_fw/partitions/psa_proxy/psa_proxy.c): its main loop over `psa_wait` and
`psa_get`, the pool of forward handles, and the answers to connect, call and
disconnect messages. The SPM side is what the loop uses of it: the message list
and the asserted signals of the partition, and `psa_reply` on a connect message
(ffm/psa_client_service_apis.c).

A connect allocates a cell for the enclave's handle and makes it the
connection's `rhandle`; a call or a disconnect reads the handle through the
`rhandle` it came with. The number of cells, of connections and of clients is
arbitrary. A client has at most one message of a connection under way. What the
mailbox and the shared memory return is an input of the step, and waiting for
the enclave is part of the step that serves a message. A panic, of the SPM or
of the proxy, is a step that does not exist.

The contents of the shared memory are not modelled: `psa_proxy_put_msg_into_shared_mem`
is its status.
-/
namespace Tfm.L4.PsaProxy
open Spm (ipcCall ipcConnect ipcDisconnect psaSuccess psaErrorConnectionRefused
  psaErrorConnectionBusy psaErrorProgrammerError)

/-- mirrors interface/include/psa/error.h -/
def psaErrorInsufficientMemory : Int := -141
def psaErrorCommunicationFailure : Int := -145
def psaNullHandle : Int := 0

/-- The services the proxy offers, in the order of its manifest.
mirrors secure_fw/partitions/psa_proxy/tfm_psa_proxy.yaml:14-138 -/
inductive Service
  | crypto
  | attestGetToken
  | attestGetTokenSize
  | attestGetPublicKey
  | itsSet
  | itsGet
  | itsGetInfo
  | itsRemove
  | platformSystemReset
  | platformIoctl
  | platformNvCounter
  | psSet
  | psGet
  | psGetInfo
  | psRemove
  | psGetSupport
  deriving DecidableEq, Repr

def Service.all : List Service :=
  [.crypto, .attestGetToken, .attestGetTokenSize, .attestGetPublicKey, .itsSet, .itsGet,
    .itsGetInfo, .itsRemove, .platformSystemReset, .platformIoctl, .platformNvCounter, .psSet,
    .psGet, .psGetInfo, .psRemove, .psGetSupport]

def Service.sid : Service → Nat
  | .crypto => 0x80
  | .attestGetToken => 0x20
  | .attestGetTokenSize => 0x21
  | .attestGetPublicKey => 0x22
  | .itsSet => 0x70
  | .itsGet => 0x71
  | .itsGetInfo => 0x72
  | .itsRemove => 0x73
  | .platformSystemReset => 0x40
  | .platformIoctl => 0x41
  | .platformNvCounter => 0x42
  | .psSet => 0x60
  | .psGet => 0x61
  | .psGetInfo => 0x62
  | .psRemove => 0x63
  | .psGetSupport => 0x64

def Service.version (_ : Service) : Nat := 1

/-- The service's signal: its place in the manifest, behind the four reserved
bits.
mirrors secure_fw/partitions/manifestfilename.template:17-24 -/
def Service.bit (v : Service) : Nat := Service.all.idxOf v + 4
def Service.signal (v : Service) : Signal := Signal.bit v.bit

/-- mirrors secure_fw/partitions/psa_proxy/psa_proxy.c:89-161 -/
def getSidAndVersionForSignal (signal : Signal) : Option (Nat × Nat) :=
  (Service.all.find? fun v => v.signal == signal).map fun v => (v.sid, v.version)

/-! ## State -/

variable {nCell nConn : Nat}

/-- Where a connection is, seen from its client. -/
inductive Stage
  | free
  | connecting
  | opened
  | closing
  /-- refused with `PSA_ERROR_CONNECTION_BUSY`: the SPM keeps the handle -/
  | busy
  deriving DecidableEq, Repr

/-- `struct tfm_conn_handle_t`. A new connection keeps the `rhandle` the last
one left. -/
structure Conn (nCell : Nat) where
  stage : Stage
  client : Int
  service : Service
  rhandle : Option (Fin nCell)
  /-- `TFM_HANDLE_STATUS_CONNECT_ERROR` -/
  connectError : Bool
  /-- a message of the connection is queued or being served -/
  pending : Bool
  deriving DecidableEq, Repr

/-- `psa_msg_t`. -/
structure Msg (nCell nConn : Nat) where
  type : Int
  conn : Fin nConn
  client : Int
  service : Service
  rhandle : Option (Fin nCell)
  /-- ghost -/
  rid : Nat
  deriving DecidableEq, Repr

/-- Where the main loop is. -/
inductive Pc (nCell nConn : Nat)
  | wait
  /-- `psa_wait` returned the signals -/
  | get (signal : Signal)
  | serve (signal : Signal) (msg : Msg nCell nConn)
  deriving DecidableEq, Repr

structure St (nCell nConn : Nat) where
  /-- `forward_handle_pool`: the free cells, in list order -/
  free : List (Fin nCell)
  /-- the `psa_handle_t` of each cell -/
  cell : Fin nCell → Int
  conn : Fin nConn → Conn nCell
  msgList : List (Msg nCell nConn)
  signalsAsserted : Signal
  pc : Pc nCell nConn
  /-- ghost: the enclave's handle for each connection -/
  enclave : Fin nConn → Int
  /-- ghost -/
  next : Nat
  sent : List Nat
  answered : List Nat

def St.setConn (s : St nCell nConn) (k : Fin nConn) (f : Conn nCell → Conn nCell) :
    St nCell nConn :=
  { s with conn := Function.update s.conn k (f (s.conn k)) }

/-! ## Clients -/

/-- `tfm_spm_fill_msg` and `tfm_spm_send_event`.
mirrors secure_fw/spm/cmsis_psa/spm_ipc.c:503-585 -/
def send (s : St nCell nConn) (k : Fin nConn) (type : Int) : St nCell nConn :=
  let c := s.conn k
  { s.setConn k (fun c => { c with pending := true }) with
    msgList := s.msgList ++ [⟨type, k, c.client, c.service, c.rhandle, s.next⟩]
    signalsAsserted := s.signalsAsserted ||| c.service.signal
    next := s.next + 1
    sent := s.next :: s.sent }

/-- `psa_connect` of a client, on a free handle. -/
def connect (s : St nCell nConn) (k : Fin nConn) (v : Service) (client : Int) :
    Option (St nCell nConn) :=
  if (s.conn k).stage = .free then
    some (send (s.setConn k fun c =>
      { c with stage := .connecting, client := client, service := v, connectError := false })
      k ipcConnect)
  else none

/-- `psa_call` of a client; its type is not negative. -/
def call (s : St nCell nConn) (k : Fin nConn) (type : Nat) : Option (St nCell nConn) :=
  if (s.conn k).stage = .opened ∧ (s.conn k).pending = false ∧ (s.conn k).connectError = false then
    some (send s k type)
  else none

/-- `psa_close` of a client. -/
def close (s : St nCell nConn) (k : Fin nConn) : Option (St nCell nConn) :=
  if (s.conn k).stage = .opened ∧ (s.conn k).pending = false then
    some (send (s.setConn k fun c => { c with stage := .closing }) k ipcDisconnect)
  else none

/-! ## SPM calls of the proxy -/

/-- `psa_wait(PSA_WAIT_ANY, PSA_BLOCK)`, once a signal is asserted.
mirrors secure_fw/spm/ffm/psa_client_service_apis.c:126-168 -/
def psaWait (s : St nCell nConn) : Option (St nCell nConn) :=
  match s.pc with
  | .wait => if s.signalsAsserted = 0 then none else some { s with pc := .get s.signalsAsserted }
  | _ => none

/-- The first message of the service with the signal, and whether the signal
stays asserted for a second one.
mirrors secure_fw/spm/cmsis_psa/spm_ipc.c:236-271 -/
def getMsgBySignal (l : List (Msg nCell nConn)) (signal : Signal) :
    Option (Msg nCell nConn) × List (Msg nCell nConn) × Bool :=
  let of := fun m : Msg nCell nConn => m.service.signal == signal
  match l.find? of with
  | none => (none, l, false)
  | some m => (some m, l.eraseP of, (l.eraseP of).any of)

/-- What `psa_get` does: a panic, no message, or one. -/
inductive Got (nCell nConn : Nat)
  | panic
  | doesNotExist (s : St nCell nConn)
  | msg (s : St nCell nConn) (m : Msg nCell nConn)

/-- mirrors secure_fw/spm/ffm/psa_client_service_apis.c:170-238 -/
def psaGet (s : St nCell nConn) (signal : Signal) : Got nCell nConn :=
  if !Signal.onlyOneBit signal then .panic
  else if s.signalsAsserted = 0 then .panic
  else if s.signalsAsserted &&& signal = 0 then .panic
  else if s.msgList.isEmpty then .doesNotExist s
  else
    let (m, rest, more) := getMsgBySignal s.msgList signal
    let s₁ := { s with
      msgList := rest
      signalsAsserted := if more then s.signalsAsserted else s.signalsAsserted &&& ~~~signal }
    match m with
    | none => .doesNotExist s₁
    | some m => .msg s₁ m

/-- The statuses `psa_reply` takes for a connect message; `none` is a panic. -/
def connectReply (status : Int) : Option Stage :=
  if status = psaSuccess then some .opened
  else if status = psaErrorConnectionRefused then some .free
  else if status = psaErrorConnectionBusy then some .busy
  else none

/-- `psa_reply`. A refused connection and a closed one are freed; a call answered with
`PSA_ERROR_PROGRAMMER_ERROR` breaks a non-secure client's connection and panics
a secure one.
mirrors secure_fw/spm/ffm/psa_client_service_apis.c:460-566 -/
def psaReply (s : St nCell nConn) (m : Msg nCell nConn) (status : Int) :
    Option (St nCell nConn) :=
  let done := fun (s : St nCell nConn) (stage : Stage) (error : Bool) =>
    some { s.setConn m.conn (fun c =>
        { c with stage := stage, connectError := error, pending := false }) with
      pc := .wait
      answered := m.rid :: s.answered }
  if m.type = ipcConnect then
    match connectReply status with
    | some stage => done s stage false
    | none => none
  else if m.type = ipcDisconnect then done s .free false
  else if status = psaErrorProgrammerError then
    if m.client < 0 then done s .opened true else none
  else done s .opened false

/-! ## Serving a message -/

/-- What the shared memory and the mailbox return. -/
structure Outcome where
  /-- status of `psa_proxy_put_msg_into_shared_mem` -/
  put : Int
  /-- `tfm_ns_mailbox_client_call` returned `MAILBOX_SUCCESS` -/
  mailbox : Bool
  /-- the reply value it stored, if so -/
  reply : Int
  deriving DecidableEq, Repr

/-- mirrors secure_fw/partitions/psa_proxy/psa_proxy.c:42-45 and
secure_fw/spm/cmsis_psa/tfm_pools.c:57-76 -/
def allocateForwardHandle (s : St nCell nConn) : Option (Fin nCell × St nCell nConn) :=
  match s.free with
  | [] => none
  | h :: rest => some (h, { s with free := rest })

/-- mirrors secure_fw/partitions/psa_proxy/psa_proxy.c:47-50 and
secure_fw/spm/cmsis_psa/tfm_pools.c:78-84 -/
def deallocateForwardHandle (s : St nCell nConn) (h : Fin nCell) : St nCell nConn :=
  { s with free := s.free ++ [h] }

/-- The status of the connect, or `none` when the lookup of the service
panics. The handle is read again after its cell is back in the pool.
mirrors secure_fw/partitions/psa_proxy/psa_proxy.c:163-195 -/
def psaConnectToSecureEnclave (s : St nCell nConn) (signal : Signal) (m : Msg nCell nConn)
    (o : Outcome) : Option (Int × St nCell nConn) :=
  match allocateForwardHandle s with
  | none => some (psaErrorInsufficientMemory, s)
  | some (h, s₁) =>
    match getSidAndVersionForSignal signal with
    | none => none
    | some _ =>
      let v := if o.mailbox then o.reply else psaNullHandle
      let s₂ := { s₁ with cell := Function.update s₁.cell h v }
      if 0 < v then
        some (psaSuccess, { s₂.setConn m.conn (fun c => { c with rhandle := some h }) with
          enclave := Function.update s₂.enclave m.conn v })
      else
        let s₃ := deallocateForwardHandle s₂ h
        some (s₃.cell h, s₃)

/-- The status of the call, or `none` when there is no forward handle to read.
mirrors secure_fw/partitions/psa_proxy/psa_proxy.c:52-72 -/
def forwardPsaCallToSecureEnclave (m : Msg nCell nConn) (o : Outcome) : Option Int :=
  match m.rhandle with
  | none => none
  | some _ =>
    if o.put ≠ psaSuccess then some o.put
    else some (if o.mailbox then o.reply else psaErrorCommunicationFailure)

/-- mirrors secure_fw/partitions/psa_proxy/psa_proxy.c:74-87 -/
def psaDisconnectFromSecureEnclave (s : St nCell nConn) (m : Msg nCell nConn) :
    Option (St nCell nConn) :=
  match m.rhandle with
  | none => none
  | some h => some (deallocateForwardHandle s h)

/-- `handle_signal` up to the switch on the message type.
mirrors secure_fw/partitions/psa_proxy/psa_proxy.c:202-207 -/
def handleGet (s : St nCell nConn) : Option (St nCell nConn) :=
  match s.pc with
  | .get signal =>
    match psaGet s signal with
    | .panic => none
    | .doesNotExist s₁ => some { s₁ with pc := .wait }
    | .msg s₁ m => some { s₁ with pc := .serve signal m }
  | _ => none

/-- The switch of `handle_signal`.
mirrors secure_fw/partitions/psa_proxy/psa_proxy.c:209-224 -/
def handleServe (s : St nCell nConn) (o : Outcome) : Option (St nCell nConn) :=
  match s.pc with
  | .serve signal m =>
    if m.type = ipcConnect then
      (psaConnectToSecureEnclave s signal m o).bind fun r => psaReply r.2 m r.1
    else if m.type = ipcCall then
      (forwardPsaCallToSecureEnclave m o).bind fun status => psaReply s m status
    else if m.type = ipcDisconnect then
      (psaDisconnectFromSecureEnclave s m).bind fun s₁ => psaReply s₁ m psaSuccess
    else none
  | _ => none

/-! ## Transition system -/

inductive Lbl (nConn : Nat)
  | connect (k : Fin nConn) (v : Service) (client : Int)
  | call (k : Fin nConn) (type : Nat)
  | close (k : Fin nConn)
  | wait
  | get
  | serve (o : Outcome)
  deriving DecidableEq, Repr

def step (s : St nCell nConn) : Lbl nConn → Option (St nCell nConn)
  | .connect k v c => connect s k v c
  | .call k t => call s k t
  | .close k => close s k
  | .wait => psaWait s
  | .get => handleGet s
  | .serve o => handleServe s o

/-- After `psa_proxy_init`.
mirrors secure_fw/partitions/psa_proxy/psa_proxy.c:226-242 -/
def init (nCell nConn : Nat) : St nCell nConn where
  free := List.finRange nCell
  cell _ := 0
  conn _ := ⟨.free, 0, .crypto, none, false, false⟩
  msgList := []
  signalsAsserted := 0
  pc := .wait
  enclave _ := 0
  next := 0
  sent := []
  answered := []

def lts (nCell nConn : Nat) : LTS (St nCell nConn) (Lbl nConn) :=
  LTS.ofFn (· = init nCell nConn) step

/-! ## Messages -/

/-- The message being served, if any, and the queued ones. -/
def St.messages (s : St nCell nConn) : List (Msg nCell nConn) :=
  match s.pc with
  | .serve _ m => m :: s.msgList
  | _ => s.msgList

variable {s s' : St nCell nConn} {signal : Signal} {m : Msg nCell nConn} {o : Outcome}

theorem lookup_signal (v : Service) :
    getSidAndVersionForSignal v.signal = some (v.sid, v.version) := by
  cases v <;> decide

theorem Service.bit_lt (v : Service) : v.bit < 32 := by
  cases v <;> decide

theorem Service.bit_inj {v w : Service} (h : v.bit = w.bit) : v = w := by
  cases v <;> cases w <;> first | rfl | exact absurd h (by decide)

/-- `psa_get` takes the first message with the signal out of the list. -/
theorem psaGet_msg {s₁ : St nCell nConn} (h : psaGet s signal = .msg s₁ m) :
    ∃ l₁ l₂, s.msgList = l₁ ++ m :: l₂ ∧ m.service.signal = signal ∧
      (∀ x ∈ l₁, x.service.signal ≠ signal) ∧
      s₁ = { s with
        msgList := l₁ ++ l₂
        signalsAsserted :=
          if (l₁ ++ l₂).any (fun x => x.service.signal == signal) then s.signalsAsserted
          else s.signalsAsserted &&& ~~~signal } := by
  unfold psaGet at h
  split at h
  · cases h
  split at h
  · cases h
  split at h
  · cases h
  split at h
  · cases h
  · unfold getMsgBySignal at h
    dsimp only at h
    cases hf : s.msgList.find? fun m => m.service.signal == signal with
    | none => simp [hf] at h
    | some x =>
      obtain ⟨hx, l₁, l₂, hl, hno⟩ := List.find?_eq_some_iff_append.1 hf
      have hne : ∀ y ∈ l₁, ¬ (y.service.signal == signal) = true := by
        intro y hy
        have := hno y hy
        simpa using this
      have herase : s.msgList.eraseP (fun m => m.service.signal == signal) = l₁ ++ l₂ := by
        rw [hl, List.eraseP_append_right _ hne]
        simp [hx]
      rw [hf, herase] at h
      simp only [Got.msg.injEq] at h
      obtain ⟨hs, hm⟩ := h
      subst hm
      exact ⟨l₁, l₂, hl, by simpa using hx, fun y hy => by simpa using hne y hy, hs.symm⟩

/-- Without a message `psa_get` changes the signals at most. -/
theorem psaGet_none {s₁ : St nCell nConn} (h : psaGet s signal = .doesNotExist s₁) :
    ∃ sigs, s₁ = { s with signalsAsserted := sigs } := by
  unfold psaGet at h
  split at h
  · cases h
  split at h
  · cases h
  split at h
  · cases h
  split at h
  · cases h
    exact ⟨_, rfl⟩
  · unfold getMsgBySignal at h
    dsimp only at h
    cases hf : s.msgList.find? fun m => m.service.signal == signal with
    | none =>
      rw [hf] at h
      cases h
      exact ⟨_, rfl⟩
    | some x => simp [hf] at h

theorem messages_serve (hpc : s.pc = .serve signal m) : s.messages = m :: s.msgList := by
  unfold St.messages
  rw [hpc]

theorem messages_idle (hpc : ∀ signal m, s.pc ≠ .serve signal m) : s.messages = s.msgList := by
  unfold St.messages
  split
  · next hs => exact absurd hs (hpc _ _)
  · rfl

end Tfm.L4.PsaProxy
