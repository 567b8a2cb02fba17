import Mathlib.Data.Fintype.Basic
import Mathlib.Data.List.FinRange
import Mathlib.Data.List.Count
import Tfm.Core.Index
import Tfm.Core.LTS

/-!
# NS/SPE mailbox

Model of the multi-core mailbox: the non-secure client path of
interface/src/multi_core/tfm_ns_mailbox.c (RTOS variant,
`TFM_MULTI_CORE_NS_OS`), its interrupt handler, and the secure side of
secure_fw/spm/cmsis_psa/tfm_spe_mailbox.c.

A call takes a semaphore permit, picks an empty slot, fills it, marks it
pending, waits until the interrupt handler marked the slot woken, reads the
reply value and gives the slot and the permit back. Every critical section is
one step, so is every run of unprotected accesses between two of them; the
threads, the interrupt handler and the SPE interleave freely. The SPE runs
`tfm_mailbox_handle_msg` and `tfm_mailbox_reply_msg` to completion one at a
time, with the NS core running in between their critical sections.

A status word is a function from slot numbers to bits. Each call carries a
ghost request id; ghost lists record which requests were sent, taken by the
SPE, answered by the SPE and returned to their caller.

`acquire_empty_slot` reads `empty_slots` in one critical section and clears the
chosen bit in another, so two threads can choose the same slot
(`Agree` fails on `clashTrace`). Everything else in the protocol is sound:
`agree_reachable` proves agreement for the runs in which no thread chooses a
slot that another thread has chosen and not yet marked as taken
(`NoClash`), with `n` slots and `N` threads for all `n` and `N`.

Not modelled: the argument checks of `tfm_ns_mailbox_client_call` (they return
before any shared state is touched), the statistics of the multi-core tests,
and the platform's notification calls, which carry no data.
-/
namespace Tfm.L5.Mailbox

/-- `mailbox_queue_status_t`, bit by bit. -/
abbrev Bits (n : Nat) := Fin n → Bool

/-- mirrors interface/include/multi_core/tfm_mailbox.h:29-33 -/
def mailboxPsaFrameworkVersion : Nat := 1
def mailboxPsaVersion : Nat := 2
def mailboxPsaConnect : Nat := 3
def mailboxPsaCall : Nat := 4
def mailboxPsaClose : Nat := 5

/-- `struct mailbox_msg_t`; the parameter union as its words.
mirrors interface/include/multi_core/tfm_mailbox.h:77-91 -/
structure Msg where
  callType : Nat
  params : List Nat
  clientId : Int
  /-- ghost: which call this is -/
  rid : Nat
  deriving DecidableEq, Repr

/-- Where a thread is inside `tfm_ns_mailbox_client_call`. -/
inductive Pc (n : Nat)
  | idle
  /-- holds a permit, before the snapshot of `empty_slots` -/
  | lock (m : Msg)
  /-- chose `i` from the snapshot, has not cleared its bit -/
  | picked (m : Msg) (i : Fin n)
  | own (m : Msg) (i : Fin n)
  | filled (m : Msg) (i : Fin n)
  | waiting (m : Msg) (i : Fin n)
  /-- saw and cleared the woken flag -/
  | got (m : Msg) (i : Fin n)
  | read (m : Msg) (i : Fin n) (v : Int)
  /-- before the permit is released; `some v` is `MAILBOX_SUCCESS` with reply
  `v`, `none` is `MAILBOX_QUEUE_FULL` -/
  | post (m : Msg) (ret : Option Int)
  deriving DecidableEq, Repr

/-- Where the SPE is. -/
inductive Spe (n : Nat)
  | idle
  /-- in the loop of `tfm_mailbox_handle_msg` at `idx` -/
  | handling (pendSlots : Bits n) (idx : Nat) (replySlots : Bits n)
  /-- `tfm_mailbox_reply_msg` wrote the value, `replied_slots` not yet set -/
  | replying (idx : Fin n)

structure St (n N : Nat) where
  /-- `ns_mailbox_queue_t` -/
  emptySlots : Bits n
  pendSlots : Bits n
  repliedSlots : Bits n
  msg : Fin n → Msg
  returnVal : Fin n → Int
  owner : Fin n → Option (Fin N)
  isWoken : Bits n
  /-- free permits of the semaphore -/
  permits : Nat
  ths : Fin N → Pc n
  /-- slots the running interrupt handler has still to wake -/
  isr : Option (Bits n)
  /-- `secure_mailbox_queue_t` -/
  speEmpty : Bits n
  nsSlotIdx : Fin n → Fin n
  spe : Spe n
  /-- requests delivered to the SPM and not yet answered, with the slot their
  message handle names -/
  outstanding : List (Nat × Fin n)
  /-- ghost: the next request id -/
  next : Nat
  /-- ghost: requests marked pending -/
  sent : List Nat
  /-- ghost: requests the SPE took from the queue -/
  taken : List Nat
  /-- ghost: values the SPE produced -/
  produced : List (Nat × Int)
  /-- ghost: values returned with `MAILBOX_SUCCESS` -/
  returned : List (Nat × Int)

variable {n N : Nat}

/-- The first bit set, from bit 0 up. -/
def firstSet (b : Bits n) : Option (Fin n) := (List.finRange n).find? fun i => b i

def setPc (s : St n N) (t : Fin N) (p : Pc n) : St n N :=
  { s with ths := Function.update s.ths t p }

/-! ## NS side -/

/-- `tfm_ns_mailbox_os_lock_acquire`; blocks (is not enabled) without a permit.
mirrors interface/src/multi_core/tfm_ns_mailbox.c:179-181 -/
def lockAcquire (s : St n N) (t : Fin N) (callType : Nat) (params : List Nat) (clientId : Int) :
    Option (St n N) :=
  match s.ths t with
  | .idle =>
    if s.permits = 0 then none
    else
      let m : Msg := ⟨callType, params, clientId, s.next⟩
      some { setPc s t (.lock m) with permits := s.permits - 1, next := s.next + 1 }
  | _ => none

/-- First critical section of `acquire_empty_slot` and the search for a bit.
mirrors interface/src/multi_core/tfm_ns_mailbox.c:74-87 -/
def snapshotEmpty (s : St n N) (t : Fin N) : Option (St n N) :=
  match s.ths t with
  | .lock m =>
    match firstSet s.emptySlots with
    | some i => some (setPc s t (.picked m i))
    | none => some (setPc s t (.post m none))
  | _ => none

/-- Second critical section of `acquire_empty_slot`.
mirrors interface/src/multi_core/tfm_ns_mailbox.c:89-91 -/
def clearEmpty (s : St n N) (t : Fin N) : Option (St n N) :=
  match s.ths t with
  | .picked m i =>
    some { setPc s t (.own m i) with emptySlots := Function.update s.emptySlots i false }
  | _ => none

/-- mirrors interface/src/multi_core/tfm_ns_mailbox.c:123-136 -/
def fillMsg (s : St n N) (t : Fin N) : Option (St n N) :=
  match s.ths t with
  | .own m i =>
    some { setPc s t (.filled m i) with
      msg := Function.update s.msg i m, owner := Function.update s.owner i (some t) }
  | _ => none

/-- mirrors interface/src/multi_core/tfm_ns_mailbox.c:138-140 -/
def setPend (s : St n N) (t : Fin N) : Option (St n N) :=
  match s.ths t with
  | .filled m i =>
    some { setPc s t (.waiting m i) with
      pendSlots := Function.update s.pendSlots i true, sent := m.rid :: s.sent }
  | _ => none

/-- One round of the loop in `mailbox_wait_reply`.
mirrors interface/src/multi_core/tfm_ns_mailbox.c:252-266,285-306 -/
def waitReplySignal (s : St n N) (t : Fin N) : Option (St n N) :=
  match s.ths t with
  | .waiting m i =>
    if s.isWoken i then
      some { setPc s t (.got m i) with isWoken := Function.update s.isWoken i false }
    else some s
  | _ => none

/-- mirrors interface/src/multi_core/tfm_ns_mailbox.c:151-154 -/
def rxReadReply (s : St n N) (t : Fin N) : Option (St n N) :=
  match s.ths t with
  | .got m i =>
    some { setPc s t (.read m i (s.returnVal i)) with owner := Function.update s.owner i none }
  | _ => none

/-- mirrors interface/src/multi_core/tfm_ns_mailbox.c:156-163 -/
def rxSetEmpty (s : St n N) (t : Fin N) : Option (St n N) :=
  match s.ths t with
  | .read m i v =>
    some { setPc s t (.post m (some v)) with
      isWoken := Function.update s.isWoken i false,
      emptySlots := Function.update s.emptySlots i true }
  | _ => none

/-- Release the permit and return.
mirrors interface/src/multi_core/tfm_ns_mailbox.c:199-205 -/
def lockRelease (s : St n N) (t : Fin N) : Option (St n N) :=
  match s.ths t with
  | .post m (some v) =>
    some { setPc s t .idle with permits := s.permits + 1, returned := (m.rid, v) :: s.returned }
  | .post _ none => some { setPc s t .idle with permits := s.permits + 1 }
  | _ => none

/-- The handler's local `replied_status`; it returns when no bit is left. -/
def toWake (b : Bits n) : Option (Bits n) := if (firstSet b).isSome then some b else none

/-- Critical section of `tfm_ns_mailbox_wake_reply_owner_isr`.
mirrors interface/src/multi_core/tfm_ns_mailbox.c:218-225 -/
def isrBegin (s : St n N) : Option (St n N) :=
  match s.isr with
  | none =>
    some { s with
      repliedSlots := fun i => s.repliedSlots i && !s.repliedSlots i,
      isr := toWake s.repliedSlots }
  | some _ => none

/-- One slot of the wake loop.
mirrors interface/src/multi_core/tfm_ns_mailbox.c:227-247 -/
def isrWake (s : St n N) : Option (St n N) :=
  match s.isr with
  | some b =>
    match firstSet b with
    | some i =>
      some { s with
        isWoken := Function.update s.isWoken i true,
        isr := toWake (Function.update b i false) }
    | none => some { s with isr := none }
  | none => none

/-! ## SPE side -/

/-- mirrors secure_fw/spm/cmsis_psa/tfm_spe_mailbox.c:129-138 -/
def mailboxCleanQueueSlot (s : St n N) (idx : Fin n) : St n N :=
  { s with nsSlotIdx := Function.update s.nsSlotIdx idx ⟨0, idx.pos⟩,
           speEmpty := Function.update s.speEmpty idx true }

/-- Write the value where the NS side reads it.
mirrors secure_fw/spm/cmsis_psa/tfm_spe_mailbox.c:140-170 -/
def mailboxDirectReply (s : St n N) (idx : Fin n) (result : Int) : St n N :=
  mailboxCleanQueueSlot
    { s with returnVal := Function.update s.returnVal (s.nsSlotIdx idx) result } idx

/-- Critical section at the start of `tfm_mailbox_handle_msg`.
mirrors secure_fw/spm/cmsis_psa/tfm_spe_mailbox.c:194-206 -/
def handleBegin (s : St n N) : Option (St n N) :=
  match s.spe with
  | .idle =>
    if (firstSet s.pendSlots).isSome then
      some { s with spe := .handling s.pendSlots 0 fun _ => false }
    else some s
  | _ => none

/-- Take the message of slot `i`: copy it, dispatch it, and answer it at once
when the SPM did (`psaRet` is what `tfm_mailbox_dispatch` returned for it).
mirrors secure_fw/spm/cmsis_psa/tfm_spe_mailbox.c:222-274 -/
def handleMsg (s : St n N) (i : Fin n) (psaRet : Int) : St n N × Bool :=
  let m := s.msg i
  let s₁ : St n N := { s with
    speEmpty := Function.update s.speEmpty i false, nsSlotIdx := Function.update s.nsSlotIdx i i,
    taken := m.rid :: s.taken }
  if m.callType = mailboxPsaFrameworkVersion ∨ m.callType = mailboxPsaVersion then
    ({ mailboxDirectReply s₁ i psaRet with produced := (m.rid, psaRet) :: s.produced }, true)
  else if m.callType = mailboxPsaConnect ∨ m.callType = mailboxPsaCall then
    if psaRet ≠ 0 then
      ({ mailboxDirectReply s₁ i psaRet with produced := (m.rid, psaRet) :: s.produced }, true)
    else ({ s₁ with outstanding := (m.rid, i) :: s.outstanding }, false)
  else if m.callType = mailboxPsaClose then
    ({ s₁ with outstanding := (m.rid, i) :: s.outstanding }, false)
  -- `MAILBOX_INVAL_PARAMS`: the slot is cleaned, nobody answers
  else (mailboxCleanQueueSlot s₁ i, false)

/-- One iteration of the slot loop.
mirrors secure_fw/spm/cmsis_psa/tfm_spe_mailbox.c:208-279 -/
def handleSlot (s : St n N) (psaRet : Int) : Option (St n N) :=
  match s.spe with
  | .handling pend idx reply =>
    if h : idx < n then
      let i : Fin n := ⟨idx, h⟩
      if pend i then
        let (s', direct) := handleMsg s i psaRet
        some { s' with spe := .handling pend (idx + 1) (Function.update reply i direct) }
      else some { s with spe := .handling pend (idx + 1) reply }
    else none
  | _ => none

/-- Critical section at the end of `tfm_mailbox_handle_msg`.
mirrors secure_fw/spm/cmsis_psa/tfm_spe_mailbox.c:281-295 -/
def handleEnd (s : St n N) : Option (St n N) :=
  match s.spe with
  | .handling pend idx reply =>
    if idx < n then none
    else some { s with
      pendSlots := fun i => s.pendSlots i && !pend i,
      repliedSlots := fun i => s.repliedSlots i || reply i,
      spe := .idle }
  | _ => none

/-- `get_spe_mailbox_msg_idx`, with the null handle naming slot 0.
mirrors secure_fw/spm/cmsis_psa/tfm_spe_mailbox.c:117-127,308-315 -/
def msgIdx (handle : Nat) : Nat := if handle = 0 then 0 else (handle - 1) % 256

/-- `tfm_mailbox_reply_msg` up to its critical section.
mirrors secure_fw/spm/cmsis_psa/tfm_spe_mailbox.c:297-323 -/
def replyMsg (s : St n N) (handle : Nat) (reply : Int) : Option (St n N) :=
  match s.spe with
  | .idle =>
    if h : msgIdx handle < n then
      let idx : Fin n := ⟨msgIdx handle, h⟩
      if s.speEmpty idx then some s
      else some { mailboxDirectReply s idx reply with spe := .replying idx }
    else none
  | _ => none

/-- The SPM answers the request `r`, once, through the message handle
(`idx + 1`) it was delivered with. -/
def answer (s : St n N) (r : Nat) (v : Int) : Option (St n N) :=
  match s.outstanding.find? fun p => p.1 == r with
  | some (_, i) =>
    (replyMsg s (i.val + 1) v).map fun s' =>
      { s' with outstanding := s.outstanding.filter (fun p => p.1 != r),
                produced := (r, v) :: s.produced }
  | none => none

/-- mirrors secure_fw/spm/cmsis_psa/tfm_spe_mailbox.c:325-332 -/
def replyEnd (s : St n N) : Option (St n N) :=
  match s.spe with
  | .replying idx =>
    some { s with repliedSlots := Function.update s.repliedSlots idx true, spe := .idle }
  | _ => none

/-! ## Transition system -/

inductive Lbl (N : Nat)
  | lockAcquire (t : Fin N) (callType : Nat) (params : List Nat) (clientId : Int)
  | snapshotEmpty (t : Fin N)
  | clearEmpty (t : Fin N)
  | fillMsg (t : Fin N)
  | setPend (t : Fin N)
  | waitReplySignal (t : Fin N)
  | rxReadReply (t : Fin N)
  | rxSetEmpty (t : Fin N)
  | lockRelease (t : Fin N)
  | isrBegin
  | isrWake
  | handleBegin
  | handleSlot (psaRet : Int)
  | handleEnd
  | answer (r : Nat) (v : Int)
  | replyEnd
  deriving DecidableEq, Repr

def step (s : St n N) : Lbl N → Option (St n N)
  | .lockAcquire t ct ps c => lockAcquire s t ct ps c
  | .snapshotEmpty t => snapshotEmpty s t
  | .clearEmpty t => clearEmpty s t
  | .fillMsg t => fillMsg s t
  | .setPend t => setPend s t
  | .waitReplySignal t => waitReplySignal s t
  | .rxReadReply t => rxReadReply s t
  | .rxSetEmpty t => rxSetEmpty s t
  | .lockRelease t => lockRelease s t
  | .isrBegin => isrBegin s
  | .isrWake => isrWake s
  | .handleBegin => handleBegin s
  | .handleSlot r => handleSlot s r
  | .handleEnd => handleEnd s
  | .answer r v => answer s r v
  | .replyEnd => replyEnd s

/-- `tfm_ns_mailbox_init`, `tfm_mailbox_init` and a full semaphore.
mirrors interface/src/multi_core/tfm_ns_mailbox.c:313-349 and
secure_fw/spm/cmsis_psa/tfm_spe_mailbox.c:375-384 -/
def init (n N : Nat) : St n N where
  emptySlots _ := true
  pendSlots _ := false
  repliedSlots _ := false
  msg _ := ⟨0, [], 0, 0⟩
  returnVal _ := 0
  owner _ := none
  isWoken _ := false
  permits := n
  ths _ := .idle
  isr := none
  speEmpty _ := true
  nsSlotIdx i := ⟨0, i.pos⟩
  spe := .idle
  outstanding := []
  next := 0
  sent := []
  taken := []
  produced := []
  returned := []

def lts (n N : Nat) : LTS (St n N) (Lbl N) := LTS.ofFn (· = init n N) step

/-! ## Agreement -/

/-- The slot a call owns: from the moment its empty bit was cleared for the
call until it is set again. -/
def Pc.slot : Pc n → Option (Fin n)
  | .own _ i => some i
  | .filled _ i => some i
  | .waiting _ i => some i
  | .got _ i => some i
  | .read _ i _ => some i
  | _ => none

/-- A sent request is either still pending in the slot its caller waits on, and
was never taken, or it was taken once. Returned values are the one value the
SPE produced for the request. -/
structure Agree (s : St n N) : Prop where
  own : ∀ t t' i, (s.ths t).slot = some i → (s.ths t').slot = some i → t = t'
  once : ∀ r ∈ s.sent, s.taken.count r = 1 ∨ (s.taken.count r = 0 ∧
    ∃ t m i, s.ths t = .waiting m i ∧ m.rid = r ∧ s.msg i = m ∧ s.pendSlots i = true)
  genuine : ∀ r ∈ s.taken, r ∈ s.sent
  value : ∀ r v, (r, v) ∈ s.returned → ∀ v', (r, v') ∈ s.produced ↔ v' = v

def Pc.pick : Pc n → Option (Fin n)
  | .picked _ i => some i
  | _ => none

/-- No thread chooses a slot that another has chosen and not yet cleared. -/
def NoClash (s : St n N) : Lbl N → Bool
  | .snapshotEmpty _ =>
    match firstSet s.emptySlots with
    | some i => (List.finRange N).all fun t => (s.ths t).pick != some i
    | none => true
  | _ => true

end Tfm.L5.Mailbox
