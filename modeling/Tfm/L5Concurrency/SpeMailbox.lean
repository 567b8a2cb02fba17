import Tfm.L4Service.SpmReply
import Tfm.L5Concurrency.Mailbox

/-!
# Secure side of the mailbox

`tfm_mailbox_handle_msg` (secure_fw/spm/cmsis_psa/tfm_spe_mailbox.c) with the SPM
behind it: it takes every pending slot of the non-secure queue, dispatches the
request in it, answers at once what ends at once, and leaves the rest to the
reply of the service.

The SPM, the services and the secure side of the queue are those of `SpmReply`.
The non-secure core writes anything to its queue at any time, also between two
turns of the loop; a slot may be pending again before its reply. Partitions do
not run while the loop does. The status words are functions from slots to bits.
A panic ends the run.

A `psa_close` is answered by the service only. If the SPM does not send it a
message, because the handle is null, invalid or in use, the slot is never
answered, nor is that of a request of an unknown type.

Results:
* `slots_answered`: in a run in which this does not happen, no slot is taken
  again before its reply, and connections and messages are used one request at a
  time, every slot that was taken and not answered since is the owner of exactly
  one outstanding message, at the end of `tfm_mailbox_handle_msg` and later; the
  reply to this message answers the slot.
-/
namespace Tfm.L5.SpeMailbox
open L4.Spm
open Mailbox (Bits mailboxPsaFrameworkVersion mailboxPsaVersion mailboxPsaConnect
  mailboxPsaCall mailboxPsaClose)

variable {nS nP n : Nat}

/-- `struct mailbox_msg_t`, each member of the union of parameters on its own.
mirrors interface/include/multi_core/tfm_mailbox.h:39-91 -/
structure MailMsg where
  callType : Nat
  sid : Nat
  version : Nat
  call : CallArgs
  closeHandle : UInt32
  deriving DecidableEq, Repr

/-- Where `tfm_mailbox_handle_msg` is. -/
inductive Spe (n : Nat)
  | out
  /-- its copy of `pend_slots`, `reply_slots`, and the slot whose turn is next -/
  | handling (pend reply : Bits (n + 1)) (idx : Nat)

structure MSt (nS nP n : Nat) where
  r : RSt nS nP n
  /-- the words and the messages of the non-secure queue -/
  pendSlots : Bits (n + 1)
  repliedSlots : Bits (n + 1)
  queue : Fin (n + 1) → MailMsg
  spe : Spe n

/-! ## The loop -/

/-- The client call a message asks for.
mirrors secure_fw/spm/cmsis_psa/tfm_spe_mailbox.c:33-60 -/
def MailMsg.req (m : MailMsg) : Option Req :=
  if m.callType = mailboxPsaConnect then some (.connect m.sid m.version)
  else if m.callType = mailboxPsaCall then some (.call m.call)
  else if m.callType = mailboxPsaClose then some (.close m.closeHandle)
  else none

/-- One turn, and whether it answers the slot. A version request is answered at
once, a request of an unknown type is dropped.
mirrors secure_fw/spm/cmsis_psa/tfm_spe_mailbox.c:209-273 -/
def turnSlot (db : Db nS nP) (r : RSt nS nP n) (i : Fin (n + 1)) (m : MailMsg) :
    RSt nS nP n × Bool :=
  if m.callType = mailboxPsaFrameworkVersion ∨ m.callType = mailboxPsaVersion then
    ({ cleanQueueSlot r i with slot := Function.update r.slot i .free }, true)
  else
    match m.req with
    | some q => (handleMsg db r i q, (handleMsg db r i q).emptySlots i)
    | none => ({ cleanQueueSlot r i with slot := Function.update r.slot i (.waiting none) }, false)

/-- mirrors secure_fw/spm/cmsis_psa/tfm_spe_mailbox.c:192-204 -/
def handleBegin (s : MSt nS nP n) : Option (MSt nS nP n) :=
  match s.spe with
  | .out =>
    if (List.finRange (n + 1)).any s.pendSlots then
      some { s with spe := .handling s.pendSlots (fun _ => false) 0 }
    else some s
  | .handling _ _ _ => none

def handleSlot (db : Db nS nP) (s : MSt nS nP n) : Option (MSt nS nP n) :=
  match s.spe with
  | .out => none
  | .handling pend reply idx =>
    if h : idx < n + 1 then
      let i : Fin (n + 1) := ⟨idx, h⟩
      if pend i then
        let t := turnSlot db s.r i (s.queue i)
        some { s with
          r := t.1
          spe := .handling pend (Function.update reply i t.2) (idx + 1) }
      else some { s with spe := .handling pend reply (idx + 1) }
    else none

/-- mirrors secure_fw/spm/cmsis_psa/tfm_spe_mailbox.c:275-291 -/
def handleEnd (s : MSt nS nP n) : Option (MSt nS nP n) :=
  match s.spe with
  | .out => none
  | .handling pend reply idx =>
    if idx < n + 1 then none
    else some { s with
      pendSlots := fun i => s.pendSlots i && !pend i
      repliedSlots := fun i => s.repliedSlots i || reply i
      spe := .out }

/-! ## Transition system -/

inductive MLbl (nP n : Nat)
  /-- the non-secure core writes its queue -/
  | ns (pend replied : Bits (n + 1)) (queue : Fin (n + 1) → MailMsg)
  | handleBegin
  | handleSlot
  | handleEnd
  | svc (p : Fin nP) (privileged : Bool) (ctrlParam : Nat) (q : Req)
  | service (p : Fin nP) (c : SvcCall)

/-- A step of a partition. A reply that reaches a slot empties it and sets its
bit in `replied_slots` (tfm_spe_mailbox.c:318-330). -/
def partition (db : Db nS nP) (s : MSt nS nP n) (l : RLbl nP n) : Option (MSt nS nP n) :=
  match s.spe with
  | .out =>
    (rstep db s.r l).map fun r => { s with
      r := r
      repliedSlots := fun i => s.repliedSlots i || (!s.r.emptySlots i && r.emptySlots i) }
  | .handling _ _ _ => none

def mstep (db : Db nS nP) (s : MSt nS nP n) (l : MLbl nP n) : Option (MSt nS nP n) :=
  if s.r.spm.panicked then none
  else
    match l with
    | .ns pend replied queue =>
      some { s with pendSlots := pend, repliedSlots := replied, queue := queue }
    | .handleBegin => handleBegin s
    | .handleSlot => handleSlot db s
    | .handleEnd => handleEnd s
    | .svc p privileged ctrlParam q => partition db s (.svc p privileged ctrlParam q)
    | .service p c => partition db s (.service p c)

/-- After `tfm_mailbox_init`, with any content of the non-secure queue. -/
structure MInit (s : MSt nS nP n) : Prop where
  r : s.r = rinit nS nP n
  spe : s.spe = .out

def mlts (db : Db nS nP) (n : Nat) : LTS (MSt nS nP n) (MLbl nP n) :=
  LTS.ofFn MInit (mstep db)

/-! ## The property and its condition -/

/-- The message of chunk `k` is outstanding, and slot `i` its recorded owner. -/
def Owner (r : RSt nS nP n) (i : Fin (n + 1)) (k : Chunk) : Prop :=
  r.spm.busy k ≠ .idle ∧ (r.spm.conn k).internalMsg.clientId < 0 ∧
    (r.spm.conn k).internalMsg.callerData = some i.val

/-- A `psa_close` of a connection of the non-secure client whose message is not
with the service. -/
def closeSends (s : L4.Spm.St nS nP) (h : UInt32) : Bool :=
  h != 0 && (staticIndex h).isNone &&
    (validateConnHandle s h defaultNsClientId).any fun k =>
      (s.conn k).service.isSome && decide ((s.conn k).status ≠ .active)

/-- The turn of slot `i` leads to an answer: the slot is not waiting for another
one, the type of the request is known, a `psa_close` sends its message, and a
message in use is not filled again. -/
def turnOk (db : Db nS nP) (r : RSt nS nP n) (i : Fin (n + 1)) (m : MailMsg) : Bool :=
  decide (r.slot i = .free) &&
    (decide (m.callType = mailboxPsaFrameworkVersion ∨ m.callType = mailboxPsaVersion) ||
      match m.req with
      | some q => exclusive db r.spm (mailboxLbl i.val q) &&
          match q with
          | .close h => closeSends r.spm h
          | _ => true
      | none => false)

def answerable (db : Db nS nP) (s : MSt nS nP n) : MLbl nP n → Bool
  | .handleSlot =>
    match s.spe with
    | .handling pend _ idx =>
      if h : idx < n + 1 then !pend ⟨idx, h⟩ || turnOk db s.r ⟨idx, h⟩ (s.queue ⟨idx, h⟩)
      else true
    | .out => true
  | .svc p privileged ctrlParam q => disciplined db s.r (.svc p privileged ctrlParam q)
  | .service p c => disciplined db s.r (.service p c)
  | _ => true

structure AnswerLaw (db : Db nS nP) (s : MSt nS nP n) : Prop where
  /-- a slot that was taken and not answered since is the owner of one message -/
  owner : ∀ i, s.r.slot i ≠ .free → ∃! k, Owner s.r i k
  /-- a slot is answered, or the owner of one message, when `tfm_mailbox_handle_msg`
  returns -/
  handled : ∀ s' pend reply idx, s.spe = .handling pend reply idx → handleEnd s = some s' →
    ∀ i, pend i = true → s'.repliedSlots i = true ∨ ∃! k, Owner s'.r i k
  /-- the reply to the message answers the slot -/
  replied : ∀ i k p h status s', Owner s.r i k → chunkOf h = some k →
    turn db s.r.spm p h = true → mstep db s (.service p (.reply h status)) = some s' →
    s'.r.spm.panicked = false → s'.r.slot i = .free ∧ s'.repliedSlots i = true
  /-- no slot stays in use once every message is answered -/
  idle : (∀ k, s.r.spm.busy k = .idle) → ∀ i, s.r.slot i = .free

/-! ## Messages of the slots -/

/-- The message of request `r`, in chunk `k`, is for slot `i`. -/
def Serves (t : L4.Spm.St nS nP) (i : Nat) (k : Chunk) (r : Nat) : Prop :=
  (t.busy k).Holds r ∧ (t.conn k).internalMsg.clientId < 0 ∧
    (t.conn k).internalMsg.callerData = some i

def Served (s : RSt nS nP n) : Prop :=
  ∀ i x, s.slot i = .waiting x → ∃ k r, x = some r ∧ Serves s.spm i.val k r

variable {db : Db nS nP} {r r' : RSt nS nP n}

theorem Serves.owner {i : Fin (n + 1)} {k : Chunk} {x : Nat} (h : Serves r.spm i.val k x) :
    Owner r i k := by
  obtain ⟨hb, hc, hd⟩ := h
  refine ⟨?_, hc, hd⟩
  rcases hb with hb | hb
  · simp [hb]
  · simp [hb]

/-- The owner of an outstanding message waits for it. -/
theorem owner_waiting (h : RInv db r) {i : Fin (n + 1)} {k : Chunk} (ho : Owner r i k) :
    ∃ x, r.slot i = .waiting (some x) ∧ (r.spm.busy k).Holds x := by
  obtain ⟨hb, hc, hd⟩ := ho
  obtain ⟨x, hx⟩ : ∃ x, (r.spm.busy k).Holds x := by
    cases hbk : r.spm.busy k with
    | idle => exact absurd hbk hb
    | queued x => exact ⟨x, .inl rfl⟩
    | delivered x => exact ⟨x, .inr rfl⟩
  rcases h.waits k x hx with ⟨-, -, j, hj, hslot, -⟩ | ⟨hpos, -⟩
  · rw [hd] at hj
    have hij : i = j := Fin.ext (Option.some.inj hj)
    subst hij
    exact ⟨x, hslot, hx⟩
  · omega

theorem owner_unique (h : RInv db r) {i : Fin (n + 1)} {k k' : Chunk} (ho : Owner r i k)
    (ho' : Owner r i k') : k = k' := by
  obtain ⟨x, hx, hb⟩ := owner_waiting h ho
  obtain ⟨x', hx', hb'⟩ := owner_waiting h ho'
  have hxx : x = x' := by
    rw [hx] at hx'
    cases hx'
    rfl
  subst hxx
  rcases hb with hb | hb
  · rcases hb' with hb' | hb'
    · exact h.base.log.queuedInj k k' x hb hb'
    · exact h.base.log.holds_inj hb' (.inl hb)
  · exact (h.base.log.holds_inj hb hb').symm

theorem owner_existsUnique (h : RInv db r) (hv : Served r) {i : Fin (n + 1)}
    (hi : r.slot i ≠ .free) : ∃! k, Owner r i k := by
  cases hs : r.slot i with
  | free => exact absurd hs hi
  | waiting x =>
    obtain ⟨k, y, -, hk⟩ := hv i x hs
    exact ⟨k, hk.owner, fun k' hk' => owner_unique h hk' hk.owner⟩

/-! ## Client calls -/

/-- Nothing that serves a slot is lost, and no slot is taken. -/
structure Keeps (r r' : RSt nS nP n) : Prop where
  slot : r'.slot = r.slot
  serves : ∀ i k x, Serves r.spm i k x → Serves r'.spm i k x

theorem Served.keeps (hv : Served r) (hk : Keeps r r') : Served r' := by
  intro i x hi
  rw [hk.slot] at hi
  obtain ⟨k, y, hx, hs⟩ := hv i x hi
  exact ⟨k, y, hx, hk.serves _ k y hs⟩

theorem serves_sent {t t' : L4.Spm.St nS nP} {c : Int} {cd : Option Nat} {k : Chunk}
    (hs : Sent t t' c cd k) {i : Nat} {k' : Chunk} {x : Nat} (h : Serves t i k' x) :
    Serves t' i k' x := by
  obtain ⟨hb, hc, hd⟩ := h
  have hk : k' ≠ k := by
    intro he
    rw [he, hs.idle] at hb
    rcases hb with hb | hb <;> cases hb
  obtain ⟨hm, -⟩ := hs.others k' hk
  refine ⟨?_, ?_, ?_⟩
  · rw [hs.busy, Function.update_of_ne hk]
    exact hb
  · rw [hm]
    exact hc
  · rw [hm]
    exact hd

theorem serves_quiet {t t' : L4.Spm.St nS nP} (hs : Quiet t t') {i : Nat} {k : Chunk} {x : Nat}
    (h : Serves t i k x) : Serves t' i k x := by
  unfold Serves
  rw [hs.busy, hs.msg]
  exact h

theorem sent_serves {t t' : L4.Spm.St nS nP} {c : Int} {i : Nat} {k : Chunk}
    (hs : Sent t t' c (some i) k) (hc : c < 0) : Serves t' i k t.next := by
  refine ⟨?_, ?_, ?_⟩
  · rw [hs.busy, Function.update_self]
    exact .inl rfl
  · rw [hs.client]
    exact hc
  · rw [hs.data, if_pos hc]

/-- A handle of the non-secure client that is no good ends in a reply or a panic. -/
theorem resolveHandle_error {t t' : L4.Spm.St nS nP} {c : Int} {h : UInt32} {o : Outcome}
    (he : resolveHandle db t (.ns c) h = (t', .error o)) : o = .panic ∨ ∃ e, o = .refused e := by
  have hpe : ∀ e, programmerError (Caller.ns c : Caller nP).isNs e = .refused e := fun _ => rfl
  simp only [resolveHandle, hpe] at he
  split at he
  · split at he
    · cases he
      exact .inl rfl
    split at he
    · cases he
      exact .inr ⟨_, rfl⟩
    split at he
    · cases he
      exact .inr ⟨_, rfl⟩
    split at he
    · cases he
      exact .inr ⟨_, rfl⟩
    · cases he
  · split at he
    · cases he
      exact .inr ⟨_, rfl⟩
    split at he
    · cases he
      exact .inr ⟨_, rfl⟩
    · cases he
      exact .inr ⟨_, rfl⟩
    split at he
    · cases he
      exact .inl rfl
    · cases he

/-- A call of the non-secure client is accepted, refused or a panic; a `psa_close` that
does not send its message is neither answered nor accepted. -/
theorem mailbox_outcome (db : Db nS nP) (t : L4.Spm.St nS nP) (i : Nat) (q : Req) :
    (answer db t (mailboxLbl i q)).2 = .accepted ∨ (answer db t (mailboxLbl i q)).2 = .panic ∨
    (∃ e, (answer db t (mailboxLbl i q)).2 = .refused e ∧ ∀ h, q ≠ .close h) ∨
    ∃ h, q = .close h ∧ closeSends t h = false := by
  cases q with
  | connect sid version =>
    simp only [mailboxLbl, answer, clientPsaConnect, programmerError, Caller.isNs, if_true]
    split
    · simp
    split
    · simp
    split
    · simp
    split
    · simp
    split
    · simp
    · simp
  | call a =>
    simp only [mailboxLbl, answer, rpcPsaCall, clientPsaCall, programmerError, Caller.isNs, if_true]
    split
    · simp
    split
    · rename_i t' o he
      rcases resolveHandle_error he with rfl | ⟨e, rfl⟩
      · simp
      · simp
    split
    · simp
    · simp
  | close h =>
    by_cases hc : closeSends t h = false
    · exact .inr (.inr (.inr ⟨h, rfl, hc⟩))
    · simp only [closeSends, Bool.not_eq_false, Bool.and_eq_true, bne_iff_ne, ne_eq,
        Option.isNone_iff_eq_none, Option.any_eq_true, decide_eq_true_eq,
        Option.isSome_iff_exists] at hc
      obtain ⟨⟨hne, hst⟩, k, hk, ⟨v, hv⟩, hidle⟩ := hc
      have hk : validateConnHandle t h ((Caller.ns defaultNsClientId : Caller nP).id db) =
          some k := hk
      left
      simp only [mailboxLbl, answer, clientPsaClose, hne, hst, hk, hv, hidle, if_false,
        Option.isSome_none, Bool.false_eq_true]

/-! ## One turn -/

theorem handleMsg_spm (db : Db nS nP) (r : RSt nS nP n) (i : Fin (n + 1)) (q : Req) :
    (handleMsg db r i q).spm = finish (answer db r.spm (mailboxLbl i.val q)) := by
  unfold handleMsg
  dsimp only
  split <;> rfl

/-- The turn of a slot leaves the other slots alone. -/
theorem handleMsg_others (db : Db nS nP) (r : RSt nS nP n) {i j : Fin (n + 1)} (q : Req)
    (hj : j ≠ i) : (handleMsg db r i q).slot j = r.slot j := by
  unfold handleMsg
  dsimp only
  split
  · simp [hj]
  · simp [hj]
  · simp [hj]

/-- The slot is answered, or in use. -/
theorem handleMsg_slot (db : Db nS nP) (r : RSt nS nP n) (i : Fin (n + 1)) (q : Req) :
    (handleMsg db r i q).emptySlots i = true ∨ (handleMsg db r i q).slot i ≠ .free := by
  unfold handleMsg
  dsimp only
  split
  · left
    simp [cleanQueueSlot]
  · left
    simp [cleanQueueSlot]
  · right
    simp

theorem served_handleMsg {i : Fin (n + 1)} {q : Req} (h : RInv db r)
    (hp : r.spm.panicked = false) (hx : exclusive db r.spm (mailboxLbl i.val q) = true)
    (hc : ∀ hd, q = .close hd → closeSends r.spm hd = true) (hv : Served r)
    (hp' : (handleMsg db r i q).spm.panicked = false) : Served (handleMsg db r i q) := by
  rw [handleMsg_spm] at hp'
  obtain ⟨-, hcases⟩ := client_cases h.base hp hx (mailboxLbl_client i.val q)
  have hspm := handleMsg_spm db r i q
  have hothers := fun j (hj : j ≠ i) => handleMsg_others db r q hj
  rcases hcases with ⟨hacc, k, hk⟩ | ⟨hno, hq⟩
  · have hi : (handleMsg db r i q).slot i = .waiting (some r.spm.next) := by
      unfold handleMsg
      cases q with
      | connect => simp [hacc]
      | call => simp [hacc]
      | close => simp [hacc]
    intro j x hj
    by_cases hji : j = i
    · subst hji
      rw [hi] at hj
      cases hj
      refine ⟨k, _, rfl, ?_⟩
      rw [hspm]
      exact sent_serves hk (Int.negSucc_lt_zero 0)
    · rw [hothers j hji] at hj
      obtain ⟨k', y, rfl, hs⟩ := hv j x hj
      refine ⟨k', y, rfl, ?_⟩
      rw [hspm]
      exact serves_sent hk hs
  · have hi : (handleMsg db r i q).slot i = .free := by
      rcases mailbox_outcome db r.spm i.val q with ho | ho | ⟨e, ho, hq⟩ | ⟨hd, rfl, ho⟩
      · exact absurd ho hno
      · simp [finish, ho] at hp'
      · unfold handleMsg
        cases q with
        | connect => simp [ho]
        | call => simp [ho]
        | close hd => exact absurd rfl (hq hd)
      · rw [hc hd rfl] at ho
        cases ho
    intro j x hj
    by_cases hji : j = i
    · subst hji
      rw [hi] at hj
      cases hj
    · rw [hothers j hji] at hj
      obtain ⟨k', y, rfl, hs⟩ := hv j x hj
      refine ⟨k', y, rfl, ?_⟩
      rw [hspm]
      exact serves_quiet hq hs

/-- What the turn of slot `i` does to the slots. -/
structure Turned (r r' : RSt nS nP n) (i : Fin (n + 1)) (replied : Bool) : Prop where
  others : ∀ j, j ≠ i → r'.slot j = r.slot j
  slot : replied = true ∨ r'.slot i ≠ .free
  served : Served r → r'.spm.panicked = false → Served r'

theorem turn_cleaned {i : Fin (n + 1)} (h : RInv db r) (hfree : r.slot i = .free) :
    RInv db { cleanQueueSlot r i with slot := Function.update r.slot i .free } ∧
      Turned r { cleanQueueSlot r i with slot := Function.update r.slot i .free } i true := by
  constructor
  · refine rinv_quiet h h.base ⟨rfl, rfl, fun _ => rfl, fun _ hx => hx, rfl⟩ ?_ rfl rfl
    intro m x hw
    refine waits_slot hfree rfl rfl rfl (fun j hj => ?_) hw
    simp [cleanQueueSlot, hj]
  · refine ⟨fun j hj => ?_, .inl rfl, fun hv _ j x hj => ?_⟩
    · simp [hj]
    · by_cases hji : j = i
      · subst hji
        simp at hj
      · simp only [Function.update_of_ne hji] at hj
        exact hv j x hj

theorem turnSlot_inv {i : Fin (n + 1)} {m : MailMsg} (h : RInv db r)
    (hp : r.spm.panicked = false) (hok : turnOk db r i m = true) :
    RInv db (turnSlot db r i m).1 ∧ Turned r (turnSlot db r i m).1 i (turnSlot db r i m).2 := by
  simp only [turnOk, Bool.and_eq_true, decide_eq_true_eq, Bool.or_eq_true] at hok
  obtain ⟨hfree, hok⟩ := hok
  unfold turnSlot
  by_cases hver : m.callType = mailboxPsaFrameworkVersion ∨ m.callType = mailboxPsaVersion
  · rw [if_pos hver]
    exact turn_cleaned h hfree
  rw [if_neg hver]
  have hok := hok.resolve_left hver
  cases hq : m.req with
  | none => simp [hq] at hok
  | some q =>
    simp only [hq, Bool.and_eq_true] at hok ⊢
    obtain ⟨hx, hc⟩ := hok
    have hc : ∀ hd, q = .close hd → closeSends r.spm hd = true := by
      intro hd he
      subst he
      exact hc
    exact ⟨rinv_handleMsg h hp hx hfree, fun j hj => handleMsg_others db r q hj,
      handleMsg_slot db r i q, fun hv hp' => served_handleMsg h hp hx hc hv hp'⟩

/-! ## Steps of the partitions -/

theorem keeps_touch {t : L4.Spm.St nS nP} {w : Nat → Nat → Nat} (hb : t.busy = r.spm.busy)
    (hm : ∀ k, (t.conn k).internalMsg.clientId = (r.spm.conn k).internalMsg.clientId ∧
      (t.conn k).internalMsg.callerData = (r.spm.conn k).internalMsg.callerData) :
    Keeps r { r with spm := t, written := w } := by
  refine ⟨rfl, fun i k x hs => ?_⟩
  unfold Serves
  rw [(hm k).1, (hm k).2, hb]
  exact hs

theorem keeps_refl (r : RSt nS nP n) : Keeps r r := ⟨rfl, fun _ _ _ hs => hs⟩

theorem keeps_panic (r : RSt nS nP n) : Keeps r (panic r) :=
  keeps_touch rfl fun _ => ⟨rfl, rfl⟩

theorem keeps_setConn {k : Chunk} {f : Conn nS → Conn nS}
    (hc : (f (r.spm.conn k)).internalMsg.clientId = (r.spm.conn k).internalMsg.clientId ∧
      (f (r.spm.conn k)).internalMsg.callerData = (r.spm.conn k).internalMsg.callerData) :
    Keeps r { r with spm := r.spm.setConn k f } := by
  refine keeps_touch rfl fun x => ?_
  rw [setConn_conn]
  split
  · rename_i hx
    rw [hx]
    exact hc
  · exact ⟨rfl, rfl⟩

theorem keeps_svcCall {p : Fin nP} {privileged : Bool} {ctrlParam : Nat} {q : Req}
    (h : RInv db r) (hp : r.spm.panicked = false)
    (hx : exclusive db r.spm (svcLbl p privileged ctrlParam q) = true) :
    Keeps r (svcCall db r p privileged ctrlParam q) := by
  obtain ⟨-, hcases⟩ := client_cases h.base hp hx (svcLbl_client p privileged ctrlParam q)
  have hserves : ∀ i k x, Serves r.spm i k x →
      Serves (finish (answer db r.spm (svcLbl p privileged ctrlParam q))) i k x := by
    intro i k x hs
    rcases hcases with ⟨-, k', hk⟩ | ⟨-, hq⟩
    · exact serves_sent hk hs
    · exact serves_quiet hq hs
  unfold svcCall
  dsimp only
  split
  · exact ⟨rfl, hserves⟩
  · exact ⟨rfl, hserves⟩

theorem keeps_get {t : L4.Spm.St nS nP} {p : Fin nP} {signal : Nat} {bufOk : Bool}
    (h : RInv db r) (ht : Trans db r.spm (.get p signal bufOk) t) :
    Keeps r { r with spm := t } := by
  cases ht with
  | stay l b => exact keeps_touch rfl fun _ => ⟨rfl, rfl⟩
  | leak b hl => cases hl
  | call hq => cases hq
  | callStatic hq => cases hq
  | getNone => exact keeps_touch rfl fun _ => ⟨rfl, rfl⟩
  | @get _ _ _ clear m k ha hne hf =>
    obtain ⟨-, ⟨ml, hmsg⟩, -⟩ := h.base
    obtain ⟨⟨r₀, hq⟩, -⟩ := hmsg.get hf
    have hrid := hmsg.rid k r₀ (.inl hq)
    refine ⟨rfl, fun i x y hs => ?_⟩
    obtain ⟨hb, hc, hd⟩ := hs
    have hm : ((taken r.spm p signal m clear k).conn x).internalMsg =
        (r.spm.conn x).internalMsg := by
      simp only [taken, setConn_conn]
      split
      · rename_i hx
        rw [hx]
      · rfl
    refine ⟨?_, by rw [hm]; exact hc, by rw [hm]; exact hd⟩
    by_cases hxk : x = k
    · subst hxk
      have hy : y = r₀ := by
        rw [hq] at hb
        rcases hb with hb | hb <;> cases hb
        rfl
      simp only [taken, Function.update_self, hrid, hy]
      exact .inr rfl
    · simp only [taken, Function.update_of_ne hxk]
      exact hb

theorem keeps_service {p : Fin nP} {c : SvcCall} (h : RInv db r)
    (hc : ∀ hd st, c ≠ .reply hd st) (hs : service db r p c = some r') : Keeps r r' := by
  cases c with
  | get signal bufOk =>
    obtain ⟨⟨t, m⟩, hg, rfl⟩ := Option.map_eq_some_iff.1 hs
    exact keeps_get h (get_trans (by rw [hg]; rfl))
  | read hd idx numBytes bufOk =>
    cases hs
    unfold psaRead
    split
    · exact keeps_panic r
    dsimp only
    split
    · exact keeps_refl r
    split
    · exact keeps_panic r
    · exact keeps_setConn ⟨rfl, rfl⟩
  | skip hd idx numBytes =>
    cases hs
    unfold psaSkip
    split
    · exact keeps_panic r
    dsimp only
    split
    · exact keeps_refl r
    · exact keeps_setConn ⟨rfl, rfl⟩
  | write hd idx numBytes bufOk =>
    cases hs
    unfold psaWrite
    split
    · exact keeps_panic r
    dsimp only
    split
    · exact keeps_panic r
    split
    · exact keeps_panic r
    · exact keeps_touch rfl fun _ => ⟨rfl, rfl⟩
  | setRhandle hd rhandle =>
    cases hs
    unfold psaSetRhandle
    split
    · exact keeps_panic r
    split
    · exact keeps_panic r
    · exact keeps_setConn ⟨rfl, rfl⟩
  | reply hd st => exact absurd rfl (hc hd st)

/-- The other messages stay, when the message of chunk `k` is answered. -/
theorem serves_replied {t t₁ : L4.Spm.St nS nP} {k k' : Chunk} {v : Fin nS} {hd : UInt32}
    {st ret : Int} {i x : Nat} (hr : replyByType db t k v hd st = some (t₁, ret)) (hk : k' ≠ k)
    (h : Serves t i k' x) : Serves (replied t t₁ k ret) i k' x := by
  have hm : (t₁.conn k').internalMsg = (t.conn k').internalMsg := by
    rcases replyByType_kept hr with ⟨g, rfl⟩ | rfl
    · rfl
    · simp [freeConnHandle, setConn_conn, hk]
  unfold Serves
  simp only [replied, setConn_conn, hk, if_false, Function.update_of_ne hk, hm]
  exact h

/-- A reply empties the slot of the owner of its message. -/
theorem served_serviceReply {p : Fin nP} {hd : UInt32} {st : Int} (h : RInv db r)
    (hp : r.spm.panicked = false) (ht : turn db r.spm p hd = true) (hv : Served r) :
    Served (serviceReply db r p hd st) ∧
    ∀ i k, Owner r i k → chunkOf hd = some k →
      (serviceReply db r p hd st).spm.panicked = false →
      (serviceReply db r p hd st).slot i = .free ∧ r.emptySlots i = false ∧
        (serviceReply db r p hd st).emptySlots i = true := by
  rcases serviceReply_cases db r p hd st hp with he | ⟨k, v, t₁, ret, hg, hr, he⟩
  · rw [he]
    exact ⟨hv.keeps (keeps_panic r), fun _ _ _ _ hp' => by cases hp'⟩
  obtain ⟨⟨x, hb⟩, -⟩ := turn_some ht hg
  have hrid : (r.spm.conn k).internalMsg.rid = x := by
    obtain ⟨-, ⟨ml, hmsg⟩, -⟩ := h.base
    exact hmsg.rid k x (.inr hb)
  have hw := h.waits k x (.inr hb)
  rw [← hrid] at hw
  rw [he]
  rcases hw with ⟨hc, hown, i, hdata, hslot, hh, hemp⟩ | ⟨hc, q, hown, hbl, hwt⟩
  · -- the message of slot `i`
    rw [deliver_mailbox (s := { r with spm := replied r.spm t₁ k ret }) ret hc hown hdata hslot hh
      hemp]
    constructor
    · intro j y hj
      by_cases hji : j = i
      · subst hji
        simp at hj
      · simp only [Function.update_of_ne hji] at hj
        obtain ⟨k', z, hz, hs⟩ := hv j y hj
        have hk : k' ≠ k := by
          intro hkk
          rw [hkk] at hs
          have hd' := hs.2.2
          rw [hdata] at hd'
          exact hji (Fin.ext (Option.some.inj hd').symm)
        exact ⟨k', z, hz, serves_replied hr hk hs⟩
    · intro j k' ho hk' _
      rw [(getMsgFromHandle_some hg).1] at hk'
      cases hk'
      have hd' := ho.2.2
      rw [hdata] at hd'
      have hji : i = j := Fin.ext (Option.some.inj hd')
      subst hji
      refine ⟨?_, hemp, ?_⟩
      · simp
      · simp [cleanQueueSlot]
  · -- the message of a secure caller
    rw [deliver_event (s := { r with spm := replied r.spm t₁ k ret }) ret hown hbl hwt]
    constructor
    · intro j y hj
      obtain ⟨k', z, hz, hs⟩ := hv j y hj
      have hk : k' ≠ k := by
        intro hkk
        rw [hkk] at hs
        have hneg := hs.2.1
        omega
      exact ⟨k', z, hz, serves_replied hr hk hs⟩
    · intro j k' ho hk' _
      rw [(getMsgFromHandle_some hg).1] at hk'
      cases hk'
      have hneg := ho.2.1
      omega

/-! ## Invariant -/

structure AInv (db : Db nS nP) (s : MSt nS nP n) : Prop where
  r : RInv db s.r
  served : s.r.spm.panicked = false → Served s.r
  /-- the slots whose turn is over -/
  turned : ∀ pend reply idx, s.spe = .handling pend reply idx →
    ∀ i, i.val < idx → pend i = true → reply i = true ∨ s.r.slot i ≠ .free

variable {s s' : MSt nS nP n}

theorem ainv_init (db : Db nS nP) (h : MInit s) : AInv db s := by
  refine ⟨?_, fun _ i x hi => ?_, fun pend reply idx he => ?_⟩
  · rw [h.r]
    exact rinv_init db n
  · rw [h.r] at hi
    cases hi
  · rw [h.spe] at he
    cases he

theorem ainv_handleBegin (h : AInv db s) (hs : handleBegin s = some s') : AInv db s' := by
  unfold handleBegin at hs
  split at hs
  · split at hs
    · cases hs
      refine ⟨h.r, h.served, fun pend reply idx he i hi _ => ?_⟩
      cases he
      exact absurd hi (Nat.not_lt_zero _)
    · cases hs
      exact h
  · cases hs

theorem ainv_handleSlot (h : AInv db s) (hp : s.r.spm.panicked = false)
    (hok : answerable db s .handleSlot = true) (hs : handleSlot db s = some s') : AInv db s' := by
  unfold handleSlot at hs
  unfold answerable at hok
  split at hs
  · cases hs
  rename_i pend reply idx hspe
  split at hs
  swap
  · cases hs
  rename_i hidx
  simp only [hspe, hidx, dite_true] at hok
  dsimp only at hs
  split at hs
  · rename_i hpend
    cases hs
    simp only [hpend, Bool.not_true, Bool.false_or] at hok
    obtain ⟨hr, ht⟩ := turnSlot_inv h.r hp hok
    refine ⟨hr, fun hp' => ht.served (h.served hp) hp', fun pend' reply' idx' he i hi hpi => ?_⟩
    cases he
    by_cases hii : i = ⟨idx, hidx⟩
    · subst hii
      rw [Function.update_self]
      exact ht.slot
    · rw [Function.update_of_ne hii]
      have hlt : i.val < idx := by
        have hne : i.val ≠ idx := fun e => hii (Fin.ext e)
        omega
      show reply i = true ∨ (turnSlot db s.r ⟨idx, hidx⟩ (s.queue ⟨idx, hidx⟩)).1.slot i ≠ .free
      rw [ht.others i hii]
      exact h.turned pend reply idx hspe i hlt hpi
  · rename_i hpend
    cases hs
    refine ⟨h.r, h.served, fun pend' reply' idx' he i hi hpi => ?_⟩
    cases he
    have hlt : i.val < idx := by
      have hne : i.val ≠ idx := by
        intro e
        have hii : i = ⟨idx, hidx⟩ := Fin.ext e
        exact hpend (hii ▸ hpi)
      omega
    exact h.turned pend reply idx hspe i hlt hpi

theorem ainv_handleEnd (h : AInv db s) (hs : handleEnd s = some s') : AInv db s' := by
  unfold handleEnd at hs
  split at hs
  · cases hs
  split at hs
  · cases hs
  · cases hs
    exact ⟨h.r, h.served, fun _ _ _ he => by cases he⟩

theorem ainv_partition (hpid : PidsOk db) {l : RLbl nP n} (h : AInv db s)
    (hp : s.r.spm.panicked = false) (hl : ∀ i q, l ≠ .mailbox i q)
    (hok : disciplined db s.r l = true) (hs : partition db s l = some s') : AInv db s' := by
  unfold partition at hs
  split at hs
  swap
  · cases hs
  rename_i hspe
  obtain ⟨r', hr', rfl⟩ := Option.map_eq_some_iff.1 hs
  refine ⟨rinv_step hpid h.r hok hr', fun _ => ?_, fun _ _ _ he => ?_⟩
  · have hv := h.served hp
    show Served r'
    unfold rstep at hr'
    rw [if_neg (by simp [hp])] at hr'
    cases l with
    | mailbox i q => exact absurd rfl (hl i q)
    | svc p privileged ctrlParam q =>
      dsimp only at hr'
      split at hr'
      · cases hr'
      · cases hr'
        exact hv.keeps (keeps_svcCall h.r hp hok)
    | service p c =>
      dsimp only at hr'
      split at hr'
      · cases hr'
      by_cases hc : ∃ hd st, c = .reply hd st
      · obtain ⟨hd, st, rfl⟩ := hc
        cases hr'
        exact (served_serviceReply h.r hp hok hv).1
      · exact hv.keeps (keeps_service h.r (fun hd st e => hc ⟨hd, st, e⟩) hr')
  · have he : s.spe = _ := he
    rw [hspe] at he
    cases he

theorem ainv_step (hpid : PidsOk db) {l : MLbl nP n} (h : AInv db s)
    (hok : answerable db s l = true) (hs : mstep db s l = some s') : AInv db s' := by
  unfold mstep at hs
  split at hs
  · cases hs
  rename_i hp
  have hp : s.r.spm.panicked = false := by simpa using hp
  cases l with
  | ns pend replied queue =>
    cases hs
    exact ⟨h.r, h.served, h.turned⟩
  | handleBegin => exact ainv_handleBegin h hs
  | handleSlot => exact ainv_handleSlot h hp hok hs
  | handleEnd => exact ainv_handleEnd h hs
  | svc p privileged ctrlParam q =>
    have hl : ∀ i q', (.svc p privileged ctrlParam q : RLbl nP n) ≠ .mailbox i q' := by simp
    exact ainv_partition hpid h hp hl hok hs
  | service p c =>
    have hl : ∀ i q', (.service p c : RLbl nP n) ≠ .mailbox i q' := by simp
    exact ainv_partition hpid h hp hl hok hs

theorem ainv_inductive (hpid : PidsOk db) (n : Nat) :
    ((mlts db n).restrict fun s l => answerable db s l = true).Inductive (AInv db) where
  init := fun _ h => ainv_init db h
  step := fun _ _ _ h hs => ainv_step hpid h hs.1 hs.2

/-! ## Results -/

theorem AInv.handled (h : AInv db s) (hrun : s.r.spm.panicked = false) {pend reply : Bits (n + 1)}
    {idx : Nat} (hspe : s.spe = .handling pend reply idx) (hs : handleEnd s = some s')
    (i : Fin (n + 1)) (hi : pend i = true) :
    s'.repliedSlots i = true ∨ ∃! k, Owner s'.r i k := by
  unfold handleEnd at hs
  simp only [hspe] at hs
  split at hs
  · cases hs
  rename_i hidx
  cases hs
  have hlt : i.val < idx := by
    have := i.isLt
    omega
  rcases h.turned pend reply idx hspe i hlt hi with hr | hw
  · left
    simp [hr]
  · exact .inr (owner_existsUnique h.r (h.served hrun) hw)

theorem AInv.replied (h : AInv db s) {i : Fin (n + 1)} {k : Chunk} {p : Fin nP} {hd : UInt32}
    {st : Int} (ho : Owner s.r i k) (hk : chunkOf hd = some k) (ht : turn db s.r.spm p hd = true)
    (hs : mstep db s (.service p (.reply hd st)) = some s') (hp' : s'.r.spm.panicked = false) :
    s'.r.slot i = .free ∧ s'.repliedSlots i = true := by
  unfold mstep at hs
  split at hs
  · cases hs
  rename_i hp
  have hp : s.r.spm.panicked = false := by simpa using hp
  dsimp only [partition] at hs
  split at hs
  swap
  · cases hs
  obtain ⟨r', hr', rfl⟩ := Option.map_eq_some_iff.1 hs
  unfold rstep at hr'
  rw [if_neg (by simp [hp])] at hr'
  dsimp only at hr'
  split at hr'
  · cases hr'
  cases hr'
  obtain ⟨hslot, hemp, hemp'⟩ :=
    (served_serviceReply h.r hp ht (h.served hp)).2 i k ho hk hp'
  refine ⟨hslot, ?_⟩
  simp [hemp, hemp']

/-- **Every slot is answered**, in every run in which no slot is taken again before its
reply, every request has a known type, every `psa_close` sends its message, and
connections and messages are used one request at a time: a slot that was taken and not
answered since is the owner of exactly one outstanding message, in particular when
`tfm_mailbox_handle_msg` returns; the reply to the message answers the slot, and no slot
is in use once every message is answered. -/
theorem slots_answered (db : Db nS nP) (hpid : PidsOk db) (s : MSt nS nP n)
    (h : ((mlts db n).restrict fun s l => answerable db s l = true).Reachable s)
    (hrun : s.r.spm.panicked = false) : AnswerLaw db s := by
  have hi := (ainv_inductive hpid n).reachable s h
  have howner := fun i => owner_existsUnique (i := i) hi.r (hi.served hrun)
  refine ⟨howner, fun s' pend reply idx hspe hs i => hi.handled hrun hspe hs i,
    fun i k p hd st s' ho hk ht hs hp' => hi.replied ho hk ht hs hp', fun hidle i => ?_⟩
  by_contra hne
  obtain ⟨k, hk, -⟩ := howner i hne
  exact hk.1 (hidle k)

/-- Slot 0 asks for a connection and slot 1 for the version of the framework. -/
def twoSlots : List (MLbl 1 1) :=
  [.ns (fun _ => true) (fun _ => false) fun i =>
      ⟨if i = 0 then mailboxPsaConnect else mailboxPsaFrameworkVersion, 0x1000, 1,
        ⟨0, 0, 0, [], 0, []⟩, 0⟩,
    .handleBegin, .handleSlot, .handleSlot, .handleEnd]

theorem slots_answered_two : ∃ s : MSt 2 1 1, AnswerLaw bothServices s ∧
    s.r.slot 0 = .waiting (some 0) ∧ s.repliedSlots 1 = true := by
  have he : ((LTS.execC (answerable bothServices) (mstep bothServices)
      ⟨rinit 2 1 1, fun _ => false, fun _ => false, fun _ => ⟨0, 0, 0, ⟨0, 0, 0, [], 0, []⟩, 0⟩,
        .out⟩ twoSlots).map fun s => (s.r.spm.panicked, s.r.slot 0, s.repliedSlots 1)) =
      some (false, .waiting (some 0), true) := by decide +kernel
  obtain ⟨s, hs, hv⟩ := Option.map_eq_some_iff.1 he
  simp only [Prod.mk.injEq] at hv
  have hpid : PidsOk bothServices := fun _ => Int.le_refl _
  exact ⟨s, slots_answered bothServices hpid s
    (LTS.reachable_execC (fun _ _ h => h) _ ⟨rfl, rfl⟩ hs) hv.1, hv.2⟩

/-- Slot 0 closes the null handle. -/
def closeNull : List (MLbl 1 1) :=
  [.ns (fun i => i = 0) (fun _ => false) fun _ =>
      ⟨mailboxPsaClose, 0, 0, ⟨0, 0, 0, [], 0, []⟩, 0⟩,
    .handleBegin, .handleSlot, .handleSlot]

/-- **Counterexample**: `psa_close(PSA_NULL_HANDLE)` returns without a message. When
`tfm_mailbox_handle_msg` returns, slot 0 is no longer pending, is not marked replied, and
owns no message. -/
theorem close_null_unanswered : ∃ s s' : MSt 2 1 1, (mlts bothServices 1).Reachable s ∧
    s.r.spm.panicked = false ∧ handleEnd s = some s' ∧
    (∃ pend reply, s.spe = .handling pend reply 2 ∧ pend 0 = true) ∧
    s'.pendSlots 0 = false ∧ s'.repliedSlots 0 = false ∧ (∀ k, s'.r.spm.busy k = .idle) ∧
    ¬ AnswerLaw bothServices s := by
  have he : ((LTS.exec (mstep bothServices)
      ⟨rinit 2 1 1, fun _ => false, fun _ => false, fun _ => ⟨0, 0, 0, ⟨0, 0, 0, [], 0, []⟩, 0⟩,
        .out⟩ closeNull).map fun s => (s.r.spm.panicked, (match s.spe with
          | .handling pend _ idx => (pend 0, idx)
          | .out => (false, 0)), (handleEnd s).map fun s' =>
        (s'.pendSlots 0, s'.repliedSlots 0, decide (∀ k, s'.r.spm.busy k = .idle)))) =
      some (false, (true, 2), some (false, false, true)) := by decide +kernel
  obtain ⟨s, hs, hv⟩ := Option.map_eq_some_iff.1 he
  simp only [Prod.mk.injEq] at hv
  obtain ⟨hrun, hspe, hend⟩ := hv
  obtain ⟨s', hs', hv'⟩ := Option.map_eq_some_iff.1 hend
  simp only [Prod.mk.injEq, decide_eq_true_eq] at hv'
  obtain ⟨hpend, hrep, hidle⟩ := hv'
  obtain ⟨pend, reply, hp, h0⟩ : ∃ pend reply, s.spe = .handling pend reply 2 ∧
      pend 0 = true := by
    cases hsp : s.spe with
    | out => simp [hsp] at hspe
    | handling pend reply idx =>
      simp only [hsp, Prod.mk.injEq] at hspe
      obtain ⟨h0, rfl⟩ := hspe
      exact ⟨pend, reply, rfl, h0⟩
  refine ⟨s, s', LTS.reachable_exec _ (.init ⟨rfl, rfl⟩) hs, hrun, hs', ⟨pend, reply, hp, h0⟩,
    hpend, hrep, hidle, fun hlaw => ?_⟩
  rcases hlaw.handled s' pend reply 2 hp hs' 0 h0 with hr | ⟨k, hk, -⟩
  · rw [hrep] at hr
    cases hr
  · exact hk.1 (hidle k)

end Tfm.L5.SpeMailbox
