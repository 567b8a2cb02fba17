import Tfm.L5Concurrency.Mailbox

/-!
# NS mailbox thread

Model of interface/src/multi_core/tfm_ns_mailbox_thread.c
(`TFM_MULTI_CORE_NS_OS_MAILBOX_THREAD`) over the reference RTOS layer of
tfm_ns_mailbox_rtos_api.c. Application threads put their requests into a
message queue; one dedicated thread takes them out, waits for an empty mailbox
slot, fills it and marks it pending; the reply interrupt handler stores the
reply, wakes the request's owner and gives the slot back.

Every critical section is one step, so is every run of unprotected accesses
between two of them. Application threads, mailbox thread, handler and SPE
interleave freely, except that the last two statements of the handler (give the
slots back, wake the mailbox thread if `is_full`) are one step: the threads
share the handler's core and cannot run between them, and the SPE touches
neither. A thread flag stays set until a wait consumes it.

The mailbox thread reads `empty_slots` in a critical section and sets `is_full`
outside of it. A handler that runs in between gives slots back and wakes
nobody, and the thread goes to sleep (`wakeup_lost`). In all other runs it sleeps
only while no slot is empty and every slot is on its way through the SPE and
the handler (`sleeps_full`, `sleeps_busy`), which is `no_lost_wakeup`.

Not modelled: the null checks of `tfm_ns_mailbox_client_call`, the pointer
checks of the mailbox thread, which repeat them, and the statistics of the
multi-core tests.
-/
namespace Tfm.L5.NsThread
open Mailbox (Bits firstSet)

/-- `struct ns_mailbox_req_t`; `reply` and `woken_flag` point into the owner's
frame.
mirrors interface/src/multi_core/tfm_ns_mailbox_thread.c:20-41 -/
structure Req (N : Nat) where
  callType : Nat
  params : List Nat
  clientId : Int
  owner : Fin N
  deriving DecidableEq, Repr

/-- Where an application thread is in `tfm_ns_mailbox_client_call`. -/
inductive App
  | idle
  /-- in the loop of `mailbox_wait_reply`, before the test of `woken_flag` -/
  | test
  /-- in `tfm_ns_mailbox_os_wait_reply` -/
  | wait
  deriving DecidableEq, Repr

/-- Where the mailbox thread is. -/
inductive Pc (n N : Nat)
  | start
  | receive
  /-- has a request, before the snapshot of `empty_slots` -/
  | look (r : Req N)
  /-- the snapshot was 0, `is_full` is not set yet -/
  | full (r : Req N)
  /-- in `tfm_ns_mailbox_os_wait_reply` -/
  | wait (r : Req N)
  /-- woken up, `is_full` is not cleared yet -/
  | woken (r : Req N)
  /-- chose `i` from the snapshot, has not cleared its bit -/
  | picked (r : Req N) (i : Fin n)
  | own (r : Req N) (i : Fin n)
  | filled (i : Fin n)
  deriving DecidableEq, Repr

/-- The locals of the running handler: the replied slots it has not handled yet
and those it has. -/
structure Isr (n : Nat) where
  repliedStatus : Bits n
  completeSlots : Bits n

structure St (n N : Nat) where
  /-- `ns_mailbox_queue_t` -/
  emptySlots : Bits n
  pendSlots : Bits n
  repliedSlots : Bits n
  isFull : Bool
  /-- message and reply structure of each slot, as the request that filled them -/
  queue : Fin n → Option (Req N)
  returnVal : Fin n → Int
  /-- the RTOS message queue -/
  msgq : List (Req N)
  thread : Pc n N
  /-- `ns_mailbox_thread_handle` is set -/
  threadHandle : Bool
  threadFlag : Bool
  apps : Fin N → App
  appFlag : Fin N → Bool
  /-- `woken_flag` and `*reply` in the frame of each application thread -/
  wokenFlag : Fin N → Bool
  reply : Fin N → Int
  isr : Option (Isr n)
  /-- slots the SPE took and has not replied to -/
  taken : Bits n

variable {n N : Nat}

/-! ## Application threads -/

/-- Up to `tfm_ns_mailbox_os_mq_send`, which waits for room in the queue.
mirrors interface/src/multi_core/tfm_ns_mailbox_thread.c:167-203 -/
def clientCall (s : St n N) (t : Fin N) (callType : Nat) (params : List Nat) (clientId : Int) :
    Option (St n N) :=
  if s.apps t = .idle ∧ s.msgq.length < n then
    some { s with
      msgq := s.msgq ++ [⟨callType, params, clientId, t⟩]
      apps := Function.update s.apps t .test
      wokenFlag := Function.update s.wokenFlag t false }
  else none

/-- One round of the loop in `mailbox_wait_reply`; a woken thread returns.
mirrors interface/src/multi_core/tfm_ns_mailbox_thread.c:147-165 -/
def waitReply (s : St n N) (t : Fin N) : Option (St n N) :=
  match s.apps t with
  | .test => some { s with
      apps := Function.update s.apps t (if s.wokenFlag t then .idle else .wait) }
  | .wait =>
    if s.appFlag t then
      some { s with
        apps := Function.update s.apps t .test, appFlag := Function.update s.appFlag t false }
    else none
  | .idle => none

/-! ## Mailbox thread -/

/-- The next step of `tfm_ns_mailbox_thread_runner`, `acquire_empty_slot` and
`mailbox_tx_client_call_msg`; waiting for a request or for a wake-up is not
enabled.
mirrors interface/src/multi_core/tfm_ns_mailbox_thread.c:65-136,205-234 -/
def threadStep (s : St n N) : Option (St n N) :=
  match s.thread with
  | .start => some { s with thread := .receive, threadHandle := true }
  | .receive =>
    match s.msgq with
    | r :: rest => some { s with thread := .look r, msgq := rest }
    | [] => none
  | .look r =>
    match firstSet s.emptySlots with
    | some i => some { s with thread := .picked r i }
    | none => some { s with thread := .full r }
  | .full r => some { s with thread := .wait r, isFull := true }
  | .wait r => if s.threadFlag then some { s with thread := .woken r, threadFlag := false } else none
  | .woken r => some { s with thread := .look r, isFull := false }
  | .picked r i =>
    some { s with thread := .own r i, emptySlots := Function.update s.emptySlots i false }
  | .own r i => some { s with thread := .filled i, queue := Function.update s.queue i (some r) }
  | .filled i =>
    some { s with thread := .receive, pendSlots := Function.update s.pendSlots i true }

/-! ## Reply interrupt handler -/

/-- The critical section of `tfm_ns_mailbox_wake_reply_owner_isr`; without a
reply it returns.
mirrors interface/src/multi_core/tfm_ns_mailbox_thread.c:236-255 -/
def isrBegin (s : St n N) : Option (St n N) :=
  match s.isr with
  | none =>
    some { s with
      repliedSlots := fun i => s.repliedSlots i && !s.repliedSlots i
      isr := if (firstSet s.repliedSlots).isSome then some ⟨s.repliedSlots, fun _ => false⟩
        else none }
  | some _ => none

/-- One slot of the wake loop: store the reply, mark and wake the owner.
mirrors interface/src/multi_core/tfm_ns_mailbox_thread.c:257-291 -/
def isrWake (s : St n N) : Option (St n N) :=
  match s.isr with
  | some h =>
    match firstSet h.repliedStatus with
    | some i =>
      let h' : Isr n := ⟨Function.update h.repliedStatus i false,
        Function.update h.completeSlots i true⟩
      match s.queue i with
      | some r => some { s with
          reply := Function.update s.reply r.owner (s.returnVal i)
          wokenFlag := Function.update s.wokenFlag r.owner true
          appFlag := Function.update s.appFlag r.owner true
          isr := some h' }
      | none => some { s with isr := some h' }
    | none => none
  | none => none

/-- After the loop: give the slots back and wake the mailbox thread.
mirrors interface/src/multi_core/tfm_ns_mailbox_thread.c:293-306 -/
def isrEnd (s : St n N) : Option (St n N) :=
  match s.isr with
  | some h =>
    if (firstSet h.repliedStatus).isSome then none
    else some { s with
      emptySlots := fun i => s.emptySlots i || h.completeSlots i
      threadFlag := s.threadFlag || (s.isFull && s.threadHandle)
      isr := none }
  | none => none

/-! ## SPE -/

/-- The SPE takes pending slots. -/
def speTake (s : St n N) (slots : Bits n) : Option (St n N) :=
  if ∀ i, slots i = true → s.pendSlots i = true then
    some { s with
      pendSlots := fun i => s.pendSlots i && !slots i
      taken := fun i => s.taken i || slots i }
  else none

/-- The SPE replies to a slot it took. -/
def speReply (s : St n N) (i : Fin n) (v : Int) : Option (St n N) :=
  if s.taken i then
    some { s with
      taken := Function.update s.taken i false
      repliedSlots := Function.update s.repliedSlots i true
      returnVal := Function.update s.returnVal i v }
  else none

/-! ## Transition system -/

inductive Lbl (n N : Nat)
  | clientCall (t : Fin N) (callType : Nat) (params : List Nat) (clientId : Int)
  | waitReply (t : Fin N)
  | thread
  | isrBegin
  | isrWake
  | isrEnd
  | speTake (slots : Bits n)
  | speReply (i : Fin n) (v : Int)

def step (s : St n N) : Lbl n N → Option (St n N)
  | .clientCall t c ps id => clientCall s t c ps id
  | .waitReply t => waitReply s t
  | .thread => threadStep s
  | .isrBegin => isrBegin s
  | .isrWake => isrWake s
  | .isrEnd => isrEnd s
  | .speTake slots => speTake s slots
  | .speReply i v => speReply s i v

/-- After `tfm_ns_mailbox_init`.
mirrors interface/src/multi_core/tfm_ns_mailbox_thread.c:320-356 -/
def init (n N : Nat) : St n N where
  emptySlots _ := true
  pendSlots _ := false
  repliedSlots _ := false
  isFull := false
  queue _ := none
  returnVal _ := 0
  msgq := []
  thread := .start
  threadHandle := false
  threadFlag := false
  apps _ := .idle
  appFlag _ := false
  wokenFlag _ := false
  reply _ := 0
  isr := none
  taken _ := false

def lts (n N : Nat) : LTS (St n N) (Lbl n N) := LTS.ofFn (· = init n N) step

/-! ## Sleeping -/

/-- The mailbox thread waits for an empty slot and nobody has woken it. -/
def Blocked (s : St n N) : Prop := (∃ r, s.thread = .wait r) ∧ s.threadFlag = false

/-- It does so although a slot is empty and no slot is pending or unreplied. -/
def Stalled (s : St n N) : Prop :=
  Blocked s ∧ (∃ i, s.emptySlots i = true) ∧
    ∀ i, s.pendSlots i = false ∧ s.taken i = false

/-- The handler does not give slots back between the thread's snapshot of
`empty_slots` and its setting `is_full`. -/
def NoRace (s : St n N) : Lbl n N → Bool
  | .isrEnd =>
    match s.thread with
    | .full _ => false
    | _ => true
  | _ => true

/-- The slot the mailbox thread has taken from the empty ones. -/
def Pc.slot : Pc n N → Option (Fin n)
  | .own _ i => some i
  | .filled i => some i
  | _ => none

/-- A slot with the SPE, or on its way back from it. -/
def Away (s : St n N) (i : Fin n) : Prop :=
  s.pendSlots i = true ∨ s.taken i = true ∨ s.repliedSlots i = true ∨
    ∃ h, s.isr = some h ∧ (h.repliedStatus i = true ∨ h.completeSlots i = true)

structure Inv (s : St n N) : Prop where
  handle : s.thread ≠ .start → s.threadHandle = true
  full : ∀ r, s.thread = .wait r → s.isFull = true
  /-- the snapshot still holds -/
  none : ∀ r i, s.thread = .full r → s.emptySlots i = false
  asleep : ∀ r i, s.thread = .wait r → s.threadFlag = false → s.emptySlots i = false
  /-- no slot gets lost -/
  place : ∀ i, s.emptySlots i = true ∨ s.thread.slot = some i ∨ Away s i

theorem firstSet_none {b : Bits n} (h : firstSet b = none) (i : Fin n) : b i = false := by
  have := List.find?_eq_none.1 h i (List.mem_finRange i)
  simpa using this

theorem firstSet_some {b : Bits n} {i : Fin n} (h : firstSet b = some i) : b i = true :=
  List.find?_some h

theorem inv_init (n N : Nat) : Inv (init n N) := by
  constructor <;> simp [init]

/-! ## Invariant -/

variable {s s' : St n N}

/-- A step that touches neither the slots' bits nor the mailbox thread. -/
theorem Inv.same (h : Inv s) (he : s'.emptySlots = s.emptySlots) (hp : s'.pendSlots = s.pendSlots)
    (hr : s'.repliedSlots = s.repliedSlots) (ht : s'.taken = s.taken) (hi : s'.isr = s.isr)
    (hth : s'.thread = s.thread) (hfl : s'.threadFlag = s.threadFlag)
    (hf : s'.isFull = s.isFull) (hh : s'.threadHandle = s.threadHandle) : Inv s' := by
  obtain ⟨h1, h2, h3, h4, h5⟩ := h
  constructor
  · rw [hth, hh]; exact h1
  · rw [hth, hf]; exact h2
  · rw [hth, he]; exact h3
  · rw [hth, he, hfl]; exact h4
  · unfold Away
    rw [hth, he, hp, hr, ht, hi]
    exact h5

/-- A step that leaves the mailbox thread, its flag and the empty slots alone. -/
theorem Inv.away (h : Inv s) (he : s'.emptySlots = s.emptySlots) (hth : s'.thread = s.thread)
    (hfl : s'.threadFlag = s.threadFlag) (hf : s'.isFull = s.isFull)
    (hh : s'.threadHandle = s.threadHandle) (ha : ∀ i, Away s i → Away s' i) : Inv s' := by
  obtain ⟨h1, h2, h3, h4, h5⟩ := h
  constructor
  · rw [hth, hh]; exact h1
  · rw [hth, hf]; exact h2
  · rw [hth, he]; exact h3
  · rw [hth, he, hfl]; exact h4
  · intro i
    rw [hth, he]
    exact (h5 i).imp id (Or.imp id (ha i))

theorem inv_clientCall {t : Fin N} {c : Nat} {ps : List Nat} {id : Int} (h : Inv s)
    (hs : clientCall s t c ps id = some s') : Inv s' := by
  unfold clientCall at hs
  split at hs
  · cases hs
    exact h.same rfl rfl rfl rfl rfl rfl rfl rfl rfl
  · cases hs

theorem inv_waitReply {t : Fin N} (h : Inv s) (hs : waitReply s t = some s') : Inv s' := by
  unfold waitReply at hs
  split at hs
  · cases hs
    exact h.same rfl rfl rfl rfl rfl rfl rfl rfl rfl
  · split at hs
    · cases hs
      exact h.same rfl rfl rfl rfl rfl rfl rfl rfl rfl
    · cases hs
  · cases hs

theorem inv_threadStep (h : Inv s) (hs : threadStep s = some s') : Inv s' := by
  obtain ⟨h1, h2, h3, h4, h5⟩ := h
  unfold threadStep at hs
  split at hs
  · next hpc =>
    cases hs
    exact ⟨by simp, by simp, by simp, by simp, fun i => by simpa [hpc, Pc.slot, Away] using h5 i⟩
  · next hpc =>
    split at hs
    · cases hs
      exact ⟨fun _ => h1 (by simp [hpc]), by simp, by simp, by simp,
        fun i => by simpa [hpc, Pc.slot, Away] using h5 i⟩
    · cases hs
  · next r hpc =>
    have hh := h1 (by simp [hpc])
    split at hs
    · cases hs
      exact ⟨fun _ => hh, by simp, by simp, by simp,
        fun i => by simpa [hpc, Pc.slot, Away] using h5 i⟩
    · next hnone =>
      cases hs
      exact ⟨fun _ => hh, by simp, fun _ i _ => firstSet_none hnone i, by simp,
        fun i => by simpa [hpc, Pc.slot, Away] using h5 i⟩
  · next r hpc =>
    cases hs
    exact ⟨fun _ => h1 (by simp [hpc]), by simp, by simp, fun _ i _ _ => h3 r i hpc,
      fun i => by simpa [hpc, Pc.slot, Away] using h5 i⟩
  · next r hpc =>
    split at hs
    · cases hs
      exact ⟨fun _ => h1 (by simp [hpc]), by simp, by simp, by simp,
        fun i => by simpa [hpc, Pc.slot, Away] using h5 i⟩
    · cases hs
  · next r hpc =>
    cases hs
    exact ⟨fun _ => h1 (by simp [hpc]), by simp, by simp, by simp,
      fun i => by simpa [hpc, Pc.slot, Away] using h5 i⟩
  · next r i hpc =>
    cases hs
    refine ⟨fun _ => h1 (by simp [hpc]), by simp, by simp, by simp, fun j => ?_⟩
    -- the slot leaves the empty ones and is the thread's
    by_cases hij : j = i
    · simp [hij, Pc.slot]
    · simpa [hpc, Pc.slot, Away, Function.update_of_ne hij, Ne.symm hij] using h5 j
  · next r i hpc =>
    cases hs
    exact ⟨fun _ => h1 (by simp [hpc]), by simp, by simp, by simp,
      fun j => by simpa [hpc, Pc.slot, Away] using h5 j⟩
  · next i hpc =>
    cases hs
    refine ⟨fun _ => h1 (by simp [hpc]), by simp, by simp, by simp, fun j => ?_⟩
    by_cases hij : j = i
    · simp [hij, Away]
    · simpa [hpc, Pc.slot, Away, Function.update_of_ne hij, Ne.symm hij] using h5 j

theorem inv_isrBegin (h : Inv s) (hs : isrBegin s = some s') : Inv s' := by
  unfold isrBegin at hs
  split at hs
  · next hisr =>
    cases hs
    refine h.away rfl rfl rfl rfl rfl fun i ha => ?_
    simp only [Away, hisr] at ha ⊢
    obtain ha | ha | ha | ⟨_, ha, _⟩ := ha
    · exact .inl ha
    · exact .inr (.inl ha)
    · -- a replied slot goes to the handler
      refine .inr (.inr (.inr ⟨⟨s.repliedSlots, fun _ => false⟩, if_pos ?_, .inl ha⟩))
      cases hf : firstSet s.repliedSlots with
      | some _ => rfl
      | none => simp [firstSet_none hf i] at ha
    · cases ha
  · cases hs

theorem inv_isrWake (h : Inv s) (hs : isrWake s = some s') : Inv s' := by
  unfold isrWake at hs
  split at hs
  · next hd hisr =>
    split at hs
    · next i hi =>
      have ha : ∀ (t : St n N) j, t.pendSlots = s.pendSlots → t.taken = s.taken →
          t.repliedSlots = s.repliedSlots →
          t.isr = some ⟨Function.update hd.repliedStatus i false,
            Function.update hd.completeSlots i true⟩ → Away s j → Away t j := by
        intro t j hp ht hr hisr' ha
        simp only [Away, hp, ht, hr, hisr', hisr, Option.some.injEq, exists_eq_left'] at ha ⊢
        by_cases hj : j = i
        · simp [hj]
        · simpa [Function.update_of_ne hj] using ha
      dsimp only at hs
      split at hs
      · cases hs
        exact h.away rfl rfl rfl rfl rfl fun j => ha _ j rfl rfl rfl rfl
      · cases hs
        exact h.away rfl rfl rfl rfl rfl fun j => ha _ j rfl rfl rfl rfl
    · cases hs
  · cases hs

/-- The one step that fills the empty slots again. -/
theorem inv_isrEnd (h : Inv s) (hs : isrEnd s = some s') (hc : NoRace s .isrEnd = true) :
    Inv s' := by
  unfold isrEnd at hs
  split at hs
  · next hd hisr =>
    split at hs
    · cases hs
    · next hnone =>
      cases hs
      have hrem : ∀ i, hd.repliedStatus i = false := fun i => firstSet_none (by simpa using hnone) i
      obtain ⟨h1, h2, _, _, h5⟩ := h
      refine ⟨h1, h2, fun r i hpc => ?_, fun r i hpc hfl => ?_, fun i => ?_⟩
      · have hpc' : s.thread = .full r := hpc
        simp [NoRace, hpc'] at hc
      · -- the thread waits, so `is_full` is set and it was woken
        have hpc' : s.thread = .wait r := hpc
        simp [h2 r hpc', h1 (by simp [hpc'])] at hfl
      · obtain he | hp | ha := h5 i
        · exact .inl (by simp [he])
        · exact .inr (.inl hp)
        · simp only [Away, hisr, Option.some.injEq, exists_eq_left', hrem i] at ha ⊢
          obtain ha | ha | ha | ha := ha
          · simp [ha]
          · simp [ha]
          · simp [ha]
          · simp at ha
            simp [ha]
  · cases hs

theorem inv_speTake {slots : Bits n} (h : Inv s) (hs : speTake s slots = some s') : Inv s' := by
  unfold speTake at hs
  split at hs
  · cases hs
    refine h.away rfl rfl rfl rfl rfl fun i ha => ?_
    simp only [Away] at ha ⊢
    cases hi : slots i <;> simp_all
  · cases hs

theorem inv_speReply {i : Fin n} {v : Int} (h : Inv s) (hs : speReply s i v = some s') :
    Inv s' := by
  unfold speReply at hs
  split at hs
  · cases hs
    refine h.away rfl rfl rfl rfl rfl fun j ha => ?_
    simp only [Away] at ha ⊢
    by_cases hj : j = i
    · simp [hj]
    · simpa [Function.update_of_ne hj] using ha
  · cases hs

theorem inv_step {l : Lbl n N} (h : Inv s) (hs : step s l = some s') (hc : NoRace s l = true) :
    Inv s' := by
  cases l with
  | clientCall t c ps id => exact inv_clientCall h hs
  | waitReply t => exact inv_waitReply h hs
  | thread => exact inv_threadStep h hs
  | isrBegin => exact inv_isrBegin h hs
  | isrWake => exact inv_isrWake h hs
  | isrEnd => exact inv_isrEnd h hs hc
  | speTake slots => exact inv_speTake h hs
  | speReply i v => exact inv_speReply h hs

theorem inv_inductive (n N : Nat) :
    ((lts n N).restrict fun s l => NoRace s l = true).Inductive Inv where
  init := by
    intro s hs
    rw [hs]
    exact inv_init n N
  step := by
    intro s l s' h hs
    exact inv_step h hs.2 hs.1

/-! ## Results -/

/-- A sleeping mailbox thread sleeps on a full queue. -/
theorem sleeps_full (h : Inv s) (hb : Blocked s) (i : Fin n) : s.emptySlots i = false := by
  obtain ⟨⟨r, hpc⟩, hfl⟩ := hb
  exact h.asleep r i hpc hfl

/-- And every slot is pending, with the SPE, replied, or in the handler's hands. -/
theorem sleeps_busy (h : Inv s) (hb : Blocked s) (i : Fin n) : Away s i := by
  have hfull := sleeps_full h hb i
  obtain ⟨⟨r, hpc⟩, _⟩ := hb
  obtain he | hp | ha := h.place i
  · simp [hfull] at he
  · simp [hpc, Pc.slot] at hp
  · exact ha

/-- **No lost wake-up**: in a run in which the handler never gives slots back
between the mailbox thread's look at `empty_slots` and its setting `is_full`,
the thread never waits for an empty slot while there is one and nothing is
pending or unreplied. -/
theorem no_lost_wakeup (h : ((lts n N).restrict fun s l => NoRace s l = true).Reachable s) :
    ¬ Stalled s := by
  intro ⟨hb, ⟨i, hi⟩, _⟩
  have hfull := sleeps_full ((inv_inductive n N).reachable s h) hb i
  simp [hfull] at hi

/-- Two calls at once on a queue of one slot, up to the second request's
finding it taken. -/
def fullTrace : List (Lbl 1 2) :=
  [.thread, .clientCall 0 3 [] (-1), .thread, .thread, .thread, .thread, .thread,
    .clientCall 1 3 [] (-1), .thread, .thread, .speTake fun _ => true]

/-- The thread sleeps, the reply wakes it, and it takes the slot. -/
theorem no_lost_wakeup_two_calls : ∃ s : St 1 2, ¬ Stalled s ∧
    s.thread = .own ⟨3, [], -1, 1⟩ 0 ∧ s.reply 0 = 7 := by
  have he : (LTS.execC NoRace step (init 1 2) (fullTrace ++ [.thread, .speReply 0 7, .isrBegin,
      .isrWake, .isrEnd, .thread, .thread, .thread, .thread])).map
      (fun s => (s.thread, s.reply 0)) = some (.own ⟨3, [], -1, 1⟩ 0, 7) := by decide +kernel
  obtain ⟨s, hs, hv⟩ := Option.map_eq_some_iff.1 he
  simp only [Prod.mk.injEq] at hv
  exact ⟨s, no_lost_wakeup (LTS.reachable_execC (fun _ _ h => h) _ rfl hs), hv⟩

/-- **Counterexample**: the reply comes before `is_full` is set, and the thread
goes to sleep on an empty queue. -/
theorem wakeup_lost : ∃ s : St 1 2, (lts 1 2).Reachable s ∧ Stalled s := by
  have he : (LTS.exec step (init 1 2) (fullTrace ++ [.speReply 0 7, .isrBegin, .isrWake, .isrEnd,
      .thread])).map (fun s => (s.thread, s.threadFlag, s.emptySlots 0, s.pendSlots 0,
      s.taken 0)) = some (.wait ⟨3, [], -1, 1⟩, false, true, false, false) := by decide +kernel
  obtain ⟨s, hs, hv⟩ := Option.map_eq_some_iff.1 he
  simp only [Prod.mk.injEq] at hv
  obtain ⟨hpc, hfl, hem, hpe, hta⟩ := hv
  refine ⟨s, LTS.reachable_exec _ (.init rfl) hs, ⟨⟨_, hpc⟩, hfl⟩, ⟨0, hem⟩, fun i => ?_⟩
  rw [Subsingleton.elim i 0]
  exact ⟨hpe, hta⟩

end Tfm.L5.NsThread
