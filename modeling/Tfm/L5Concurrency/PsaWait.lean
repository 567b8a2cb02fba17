import Mathlib.Data.Fintype.Basic
import Mathlib.Data.List.FinRange
import Tfm.Core.Index
import Tfm.Core.LTS
import Tfm.Core.Signal

/-!
# Blocking on signals

`psa_wait` (secure_fw/spm/ffm/psa_client_service_apis.c), the events threads
block on (secure_fw/spm/cmsis_psa/tfm_wait.c), the signals of `tfm_spm_send_event`
and `notify_with_signal` (spm_ipc.c), and the scheduler in PendSV (spm_ipc.c,
tfm_thread.c), for any number of threads, one for each partition and one for the
non-secure caller.

Each handler runs in one step: SVC at the highest priority, interrupts below it,
PendSV at the lowest. So between the SVC in which a thread blocks and the PendSV
that takes it from the processor an interrupt may come. An exception from thread
mode stores the registers in a frame on the stack of the thread, and the thread
goes on with them when the last handler returns. The value of a blocking call is
r0 of this frame; `tfm_event_wake` writes it where `arch_ctx.sp` points, the
frame of the thread when it was last taken from the processor.

Which message a `psa_get` finds in the list of messages, and whether it clears
the signal, is an input; so is the message a client call fills, and the message
a handle stands for. A panic ends the run.

Results:
* `winv_inductive`: the invariant of every run in which no thread goes on while it
  is blocked, and no interrupt wakes a thread that blocks and is still on the
  processor, if its last frame was elsewhere.
* `wait_no_lost_wakeup`: in these runs no thread is blocked on a signal that is
  asserted, a thread blocked on a client call is only woken by the reply, and
  `psa_wait` returns signals of its mask that are asserted, and not none.
* `wait_returns_none`: with no thread left to run the thread in `psa_wait` goes
  on, and returns no signal; and with an interrupt before PendSV.
-/
namespace Tfm.L5.PsaWait

variable {n : Nat}

/-! ## State -/

/-- mirrors secure_fw/spm/cmsis_psa/tfm_thread.h:17-21; `THRD_STATE_CREATING` ends
before the scheduler starts -/
inductive ThrdState
  | runnable
  | block
  deriving DecidableEq, Repr

/-- The event of a partition, and that of a message. -/
inductive Event (n : Nat)
  | partition (p : Fin n)
  | ack (m : Nat)
  deriving DecidableEq, Repr

/-- ghost: what a thread does with r0 of its frame when it goes on -/
inductive Frame
  /-- there is no frame, the thread runs -/
  | running
  /-- it is the value of `psa_wait(mask, PSA_BLOCK)` -/
  | wait (mask : Signal)
  /-- it is the value of the client call of message `m` -/
  | client (m : Nat)
  | other
  deriving DecidableEq, Repr

/-- ghost: a return of `psa_wait(mask, PSA_BLOCK)`, with the signals asserted then -/
structure Return (n : Nat) where
  thread : Fin n
  mask : Signal
  value : Signal
  asserted : Signal
  deriving DecidableEq, Repr

/-- The threads are numbered in the order of their list. -/
structure Cfg (n : Nat) where
  prior : Fin n → Nat
  signalsAllowed : Fin n → Signal
  /-- the partition has an interrupt with the signal -/
  irqLine : Fin n → Signal → Bool

structure St (n : Nat) where
  state : Fin n → ThrdState
  /-- `arch_ctx.sp` -/
  savedSp : Fin n → Nat
  /-- r0 of the frame at an address of the thread's stack -/
  r0 : Fin n → Nat → Signal
  rnblHead : Option (Fin n)
  curr : Fin n
  /-- an exception is handled, and the frame of the current thread is at `psp` -/
  handler : Bool
  psp : Nat
  /-- PendSV is pending -/
  pendsv : Bool
  signalsAsserted : Fin n → Signal
  signalsWaiting : Fin n → Signal
  owner : Event n → Option (Fin n)
  /-- ghost -/
  frame : Fin n → Frame
  /-- ghost -/
  returned : List (Return n)

/-! ## Threads and events -/

/-- mirrors secure_fw/spm/cmsis_psa/tfm_thread.c:27-40 -/
def getNext (s : St n) : Option (Fin n) :=
  s.rnblHead.bind fun h =>
    (List.finRange n).find? fun t => decide (h ≤ t) && decide (s.state t = .runnable)

/-- `LIST_HEAD`. -/
def listHead (t : Fin n) : Fin n := ⟨0, t.pos⟩

/-- mirrors secure_fw/spm/cmsis_psa/tfm_thread.c:106-122 -/
def setState (c : Cfg n) (s : St n) (t : Fin n) (x : ThrdState) : St n :=
  { s with
    state := Function.update s.state t x
    rnblHead :=
      if x = .runnable ∧ s.rnblHead.all (fun h => decide (c.prior t < c.prior h)) = true then some t
      else some (listHead t) }

/-- mirrors secure_fw/spm/cmsis_psa/tfm_thread.h:146-150 -/
def setRetval (s : St n) (t : Fin n) (retval : Signal) : St n :=
  { s with r0 := Function.update s.r0 t (Function.update (s.r0 t) (s.savedSp t) retval) }

/-- mirrors secure_fw/spm/cmsis_psa/tfm_wait.c:15-22 -/
def eventWait (c : Cfg n) (s : St n) (e : Event n) : St n :=
  { setState c { s with owner := Function.update s.owner e (some s.curr) } s.curr .block with
    pendsv := true }

/-- mirrors secure_fw/spm/cmsis_psa/tfm_wait.c:24-34 -/
def eventWake (c : Cfg n) (s : St n) (e : Event n) (retval : Signal) : St n :=
  match s.owner e with
  | none => s
  | some t =>
    if s.state t = .block then
      { setRetval (setState c s t .runnable) t retval with
        owner := Function.update s.owner e none
        pendsv := true }
    else s

/-! ## Signals -/

/-- mirrors secure_fw/spm/cmsis_psa/spm_ipc.c:910-917 and 578-588 -/
def assertSignal (c : Cfg n) (s : St n) (p : Fin n) (signal : Signal) : St n :=
  let asserted := s.signalsAsserted p ||| signal
  let s₁ := { s with signalsAsserted := Function.update s.signalsAsserted p asserted }
  if s.signalsWaiting p &&& signal ≠ 0 then
    { eventWake c s₁ (.partition p) (asserted &&& s.signalsWaiting p) with
      signalsWaiting := Function.update s.signalsWaiting p (s.signalsWaiting p &&& ~~~signal) }
  else s₁

/-- `m` is the message of a caller that waits for the reply; there is none for a
mailbox request.
mirrors secure_fw/spm/cmsis_psa/spm_ipc.c:561-595 -/
def sendEvent (c : Cfg n) (s : St n) (p : Fin n) (signal : Signal) (m : Option Nat) : St n :=
  let s₁ := assertSignal c s p signal
  match m with
  | none => s₁
  | some m => eventWait c s₁ (.ack m)

/-- A client call that is accepted; filling a message clears its event.
mirrors secure_fw/spm/cmsis_psa/spm_ipc.c:513-559 -/
def clientCall (c : Cfg n) (s : St n) (p : Fin n) (signal : Signal) (m : Nat) : St n :=
  sendEvent c { s with owner := Function.update s.owner (.ack m) none } p signal (some m)

def psaBlock : Signal := 0x80000000
def psaTimeoutMask : Signal := 0x80000000
def psaDoorbell : Signal := 0x00000008

/-- mirrors secure_fw/spm/ffm/psa_client_service_apis.c:126-168 -/
def psaWait (c : Cfg n) (s : St n) (mask timeout : Signal) : Option (St n × Signal) :=
  if c.signalsAllowed s.curr &&& mask = 0 then none
  else
    let s₁ :=
      if timeout &&& psaTimeoutMask = psaBlock ∧ s.signalsAsserted s.curr &&& mask = 0 then
        eventWait c { s with signalsWaiting := Function.update s.signalsWaiting s.curr mask }
          (.partition s.curr)
      else s
    some (s₁, s₁.signalsAsserted s₁.curr &&& mask)

def clearSignal (s : St n) (signal : Signal) : St n :=
  { s with signalsAsserted :=
      Function.update s.signalsAsserted s.curr (s.signalsAsserted s.curr &&& ~~~signal) }

/-- `cleared` is whether the walk of the list reached its end.
mirrors secure_fw/spm/ffm/psa_client_service_apis.c:170-238 and
secure_fw/spm/cmsis_psa/spm_ipc.c:236-267 -/
def psaGet (s : St n) (signal : Signal) (bufOk cleared : Bool) : Option (St n) :=
  if !Signal.onlyOneBit signal then none
  else if !bufOk then none
  else if s.signalsAsserted s.curr = 0 then none
  else if s.signalsAsserted s.curr &&& signal = 0 then none
  else if cleared then some (clearSignal s signal)
  else some s

/-- mirrors secure_fw/spm/ffm/psa_client_service_apis.c:578-595 -/
def psaClear (s : St n) : Option (St n) :=
  if s.signalsAsserted s.curr &&& psaDoorbell = 0 then none else some (clearSignal s psaDoorbell)

/-- mirrors secure_fw/spm/ffm/psa_client_service_apis.c:597-626 -/
def psaEoi (c : Cfg n) (s : St n) (irqSignal : Signal) : Option (St n) :=
  if !c.irqLine s.curr irqSignal then none
  else if s.signalsAsserted s.curr &&& irqSignal = 0 then none
  else some (clearSignal s irqSignal)

/-! ## Handlers -/

inductive SvcCall (n : Nat)
  | wait (mask timeout : Signal)
  | get (signal : Signal) (bufOk cleared : Bool) (status : Signal)
  | clear
  | eoi (irqSignal : Signal)
  | notify (p : Fin n)
  | call (p : Fin n) (signal : Signal) (m : Nat)
  | reply (m : Nat) (ret : Signal)
  /-- a call that does nothing to threads and signals, such as one that is refused -/
  | other (ret : Signal)
  deriving DecidableEq, Repr

/-- The state, the value that becomes r0 of the caller, and what it is. -/
def svcHandler (c : Cfg n) (s : St n) : SvcCall n → Option (St n × Signal × Frame)
  | .wait mask timeout => (psaWait c s mask timeout).map fun r =>
    (r.1, r.2, if timeout &&& psaTimeoutMask = psaBlock then .wait mask else .other)
  | .get signal bufOk cleared status =>
    (psaGet s signal bufOk cleared).map fun s' => (s', status, .other)
  | .clear => (psaClear s).map fun s' => (s', 0, .other)
  | .eoi irqSignal => (psaEoi c s irqSignal).map fun s' => (s', 0, .other)
  | .notify p => some (assertSignal c s p psaDoorbell, 0, .other)
  | .call p signal m => some (clientCall c s p signal m, 0, .client m)
  | .reply m ret => some (eventWake c s (.ack m) ret, 0, .other)
  | .other ret => some (s, ret, .other)

/-- An exception stores a frame of the current thread at `sp`. -/
def enter (s : St n) (sp : Nat) (x : Signal) (f : Frame) : St n :=
  { s with
    handler := true
    psp := sp
    r0 := Function.update s.r0 s.curr (Function.update (s.r0 s.curr) sp x)
    frame := Function.update s.frame s.curr f }

/-- mirrors secure_fw/spm/cmsis_psa/tfm_core_svcalls_ipc.c:131-176 -/
def svc (c : Cfg n) (s : St n) (sp : Nat) (q : SvcCall n) : Option (St n) :=
  (svcHandler c s q).map fun r => enter r.1 sp r.2.1 r.2.2

/-- mirrors secure_fw/spm/cmsis_psa/tfm_thread.c:151-165 -/
def switchContext (s : St n) (next : Fin n) : St n :=
  { s with
    savedSp := Function.update s.savedSp s.curr s.psp
    psp := s.savedSp next
    curr := next }

/-- mirrors secure_fw/spm/cmsis_psa/spm_ipc.c:801-855 -/
def pendsvDoSchedule (s : St n) : St n :=
  let s₁ := { s with pendsv := false }
  match getNext s with
  | none => s₁
  | some next => if s.curr = next then s₁ else switchContext s₁ next

/-- The current thread goes on with the registers of its frame. -/
def resume (s : St n) : St n :=
  { s with
    handler := false
    frame := Function.update s.frame s.curr .running
    returned :=
      match s.frame s.curr with
      | .wait mask =>
        ⟨s.curr, mask, s.r0 s.curr s.psp, s.signalsAsserted s.curr⟩ :: s.returned
      | _ => s.returned }

/-! ## Transition system -/

inductive Lbl (n : Nat)
  | svc (sp : Nat) (q : SvcCall n)
  /-- an interrupt comes while a thread runs -/
  | interrupt (sp : Nat) (x : Signal)
  /-- `tfm_set_irq_signal` -/
  | irq (p : Fin n) (signal : Signal)
  /-- a mailbox request is dispatched, at the end of PendSV -/
  | rpc (p : Fin n) (signal : Signal)
  | pendsv
  /-- the last handler returns -/
  | ret
  deriving DecidableEq, Repr

def step (c : Cfg n) (s : St n) : Lbl n → Option (St n)
  | .svc sp q => if s.handler then none else svc c s sp q
  | .interrupt sp x => if s.handler then none else some (enter s sp x .other)
  | .irq p signal => if s.handler then some (assertSignal c s p signal) else none
  | .rpc p signal => if s.handler then some (sendEvent c s p signal none) else none
  | .pendsv => if s.handler && s.pendsv then some (pendsvDoSchedule s) else none
  | .ret => if s.handler && !s.pendsv then some (resume s) else none

/-- When the scheduler starts, in the SVC that does it; the frames and the saved
contexts are those of the entry of the threads. -/
structure Init (s : St n) : Prop where
  state : ∀ t, s.state t = .runnable
  handler : s.handler = true
  pendsv : s.pendsv = true
  asserted : ∀ p, s.signalsAsserted p = 0
  owner : ∀ e, s.owner e = none
  frame : ∀ t, s.frame t = .other
  returned : s.returned = []

def lts (c : Cfg n) : LTS (St n) (Lbl n) := LTS.ofFn Init (step c)

/-! ## The property and its condition -/

/-- Signals of the mask that are asserted, and not none. -/
def Chosen (value mask asserted : Signal) : Prop :=
  value ≠ 0 ∧ value &&& mask = value ∧ value &&& asserted = value

structure WaitLaw (c : Cfg n) (s : St n) : Prop where
  /-- no thread is blocked on a signal that is asserted -/
  blocked : ∀ t mask, s.state t = .block → s.frame t = .wait mask →
    s.signalsAsserted t &&& mask = 0
  /-- a thread blocked on a client call is woken by the reply only -/
  client : ∀ t m l s', s.state t = .block → s.frame t = .client m →
    (∀ sp ret, l ≠ .svc sp (.reply m ret)) → step c s l = some s' → s'.state t = .block
  returned : ∀ x ∈ s.returned, Chosen x.value x.mask x.asserted

/-- The signal wakes the current thread, which has not left the processor since
it blocked. -/
def wakesCurr (s : St n) (p : Fin n) (signal : Signal) : Bool :=
  decide (s.signalsWaiting p &&& signal ≠ 0) && decide (s.owner (.partition p) = some s.curr) &&
    decide (s.state s.curr = .block)

/-- No thread goes on while it is blocked, and the value of a thread that is woken
before it leaves the processor reaches its frame. -/
def switched (s : St n) : Lbl n → Bool
  | .irq p signal => !wakesCurr s p signal || s.savedSp s.curr == s.psp
  | .rpc p signal => !wakesCurr s p signal || s.savedSp s.curr == s.psp
  | .ret => decide (s.state s.curr = .runnable)
  | _ => true

/-! ## Invariant -/

/-- Where the frame of a thread is. -/
def frameSp (s : St n) (t : Fin n) : Nat := if t = s.curr then s.psp else s.savedSp t

structure WInv (s : St n) : Prop where
  /-- a thread blocked in `psa_wait` waits for signals that are not asserted, and
  their assertion will wake it -/
  waiting : ∀ t mask, s.state t = .block → s.frame t = .wait mask →
    s.signalsWaiting t = mask ∧ s.signalsAsserted t &&& mask = 0 ∧
      s.owner (.partition t) = some t
  /-- a thread that was woken finds its value in its frame -/
  value : ∀ t mask, s.state t = .runnable → s.frame t = .wait mask →
    Chosen (s.r0 t (frameSp s t)) mask (s.signalsAsserted t)
  blocked : ∀ t, s.state t = .block →
    (∃ mask, s.frame t = .wait mask) ∨ ∃ m, s.frame t = .client m
  running : ∀ t, s.frame t = .running → t = s.curr ∧ s.handler = false
  current : s.handler = false → s.frame s.curr = .running
  event : ∀ p t, s.owner (.partition p) = some t →
    t = p ∧ s.state t = .block ∧ ∃ mask, s.frame t = .wait mask
  ack : ∀ m t, s.owner (.ack m) = some t → s.state t = .block ∧ s.frame t = .client m
  returned : ∀ x ∈ s.returned, Chosen x.value x.mask x.asserted

variable {c : Cfg n} {s s' : St n}

theorem winv_init (h : Init s) : WInv s := by
  refine ⟨fun t mask hb => ?_, fun t mask _ hf => ?_, fun t hb => ?_, fun t hf => ?_, fun hh => ?_,
    fun p t ho => ?_, fun m t ho => ?_, fun x hx => ?_⟩
  · simp [h.state] at hb
  · simp [h.frame] at hf
  · simp [h.state] at hb
  · simp [h.frame] at hf
  · simp [h.handler] at hh
  · simp [h.owner] at ho
  · simp [h.owner] at ho
  · simp [h.returned] at hx

/-- The thread on the processor is not blocked while it runs. -/
theorem WInv.curr_runnable (h : WInv s) (hh : s.handler = false) : s.state s.curr = .runnable := by
  cases hs : s.state s.curr with
  | runnable => rfl
  | block =>
    have hf := h.current hh
    rcases h.blocked s.curr hs with ⟨mask, hw⟩ | ⟨m, hw⟩
    · rw [hf] at hw
      cases hw
    · rw [hf] at hw
      cases hw

theorem Chosen.or {v m a : Signal} (x : Signal) (h : Chosen v m a) : Chosen v m (a ||| x) :=
  ⟨h.1, h.2.1, Signal.and_or_eq x h.2.2⟩

/-- The value `tfm_event_wake` stores. -/
theorem chosen_wake {a m x : Signal} (hx : m &&& x ≠ 0) : Chosen ((a ||| x) &&& m) m (a ||| x) := by
  refine ⟨?_, ?_, ?_⟩
  · intro h
    exact hx (Signal.or_and_eq_zero.1 h).2
  · rw [BitVec.and_assoc, BitVec.and_self]
  · rw [BitVec.and_comm, ← BitVec.and_assoc, BitVec.and_self]

/-! ## Waking -/

theorem eventWake_none {e : Event n} {x : Signal} (ho : s.owner e = none) :
    eventWake c s e x = s := by
  simp [eventWake, ho]

theorem eventWake_some {e : Event n} {t : Fin n} {x : Signal} (ho : s.owner e = some t)
    (hb : s.state t = .block) :
    eventWake c s e x = { setRetval (setState c s t .runnable) t x with
      owner := Function.update s.owner e none
      pendsv := true } := by
  simp [eventWake, ho, hb]

/-- A thread is woken, while signals of its own partition are asserted. -/
theorem winv_woken {e : Event n} {t : Fin n} {x : Signal} {a w : Fin n → Signal} (h : WInv s)
    (ho : s.owner e = some t) (ha : ∀ p, p ≠ t → a p = s.signalsAsserted p)
    (hw : ∀ p, p ≠ t → w p = s.signalsWaiting p)
    (hx : ∀ mask, s.frame t = .wait mask → frameSp s t = s.savedSp t ∧ Chosen x mask (a t)) :
    WInv { setRetval (setState c s t .runnable) t x with
      owner := Function.update s.owner e none
      pendsv := true
      signalsAsserted := a
      signalsWaiting := w } := by
  refine ⟨fun q mask hb hf => ?_, fun q mask hr hf => ?_, fun q hb => ?_, h.running, h.current,
    fun p q hq => ?_, fun m q hq => ?_, h.returned⟩
  · have hqt : q ≠ t := by
      intro hqt
      simp [setRetval, setState, hqt] at hb
    have hb : s.state q = .block := by simpa [setRetval, setState, hqt] using hb
    obtain ⟨h1, h2, h3⟩ := h.waiting q mask hb hf
    have he : Event.partition q ≠ e := by
      intro he
      rw [he, ho] at h3
      cases h3
      exact hqt rfl
    refine ⟨(hw q hqt).trans h1, ?_, ?_⟩
    · show a q &&& mask = 0
      rw [ha q hqt]
      exact h2
    · simpa [he] using h3
  · by_cases hqt : q = t
    · subst hqt
      obtain ⟨hsp, hc⟩ := hx mask hf
      have hsp : (if q = s.curr then s.psp else s.savedSp q) = s.savedSp q := hsp
      simpa [frameSp, setRetval, setState, hsp] using hc
    · have hr : s.state q = .runnable := by simpa [setRetval, setState, hqt] using hr
      have hv := h.value q mask hr hf
      dsimp only
      rw [ha q hqt]
      simpa [frameSp, setRetval, setState, hqt] using hv
  · have hqt : q ≠ t := by
      intro hqt
      simp [setRetval, setState, hqt] at hb
    exact h.blocked q (by simpa [setRetval, setState, hqt] using hb)
  · have he : Event.partition p ≠ e := by
      intro he
      simp [he] at hq
    have hq : s.owner (.partition p) = some q := by simpa [he] using hq
    obtain ⟨rfl, hb, mask, hf⟩ := h.event p q hq
    have hqt : q ≠ t := by
      intro hqt
      cases e with
      | partition p' =>
        have hp' := (h.event p' t ho).1
        exact he (by rw [hqt, hp'])
      | ack m =>
        have hcl := (h.ack m t ho).2
        rw [← hqt, hf] at hcl
        cases hcl
    exact ⟨rfl, by simpa [setRetval, setState, hqt] using hb, mask, hf⟩
  · have he : Event.ack m ≠ e := by
      intro he
      simp [he] at hq
    have hq : s.owner (.ack m) = some q := by simpa [he] using hq
    obtain ⟨hb, hf⟩ := h.ack m q hq
    have hqt : q ≠ t := by
      intro hqt
      cases e with
      | partition p' =>
        obtain ⟨-, -, mask, hwt⟩ := h.event p' t ho
        rw [← hqt, hf] at hwt
        cases hwt
      | ack m' =>
        have hcl := (h.ack m' t ho).2
        rw [← hqt, hf] at hcl
        cases hcl
        exact he rfl
    exact ⟨by simpa [setRetval, setState, hqt] using hb, hf⟩

/-- Signals are asserted that no blocked thread waits for. -/
theorem winv_signals {a w : Fin n → Signal} (h : WInv s)
    (hb : ∀ t mask, s.state t = .block → s.frame t = .wait mask →
      w t = mask ∧ a t &&& mask = 0)
    (hr : ∀ t mask v, s.state t = .runnable → s.frame t = .wait mask →
      Chosen v mask (s.signalsAsserted t) → Chosen v mask (a t)) :
    WInv { s with signalsAsserted := a, signalsWaiting := w } := by
  refine ⟨fun t mask hs hf => ?_, fun t mask hs hf => ?_, h.blocked, h.running, h.current,
    h.event, h.ack, h.returned⟩
  · obtain ⟨h1, h2⟩ := hb t mask hs hf
    exact ⟨h1, h2, (h.waiting t mask hs hf).2.2⟩
  · exact hr t mask _ hs hf (h.value t mask hs hf)

/-- The value of a thread that is woken while it is on the processor reaches its
frame. -/
def Reaches (s : St n) (p : Fin n) (signal : Signal) : Prop :=
  wakesCurr s p signal = true → s.savedSp s.curr = s.psp

theorem winv_assertSignal {p : Fin n} {signal : Signal} (h : WInv s) (hx : Reaches s p signal) :
    WInv (assertSignal c s p signal) := by
  unfold assertSignal
  have hgrow : ∀ (t : Fin n) mask v, Chosen v mask (s.signalsAsserted t) →
      Chosen v mask (Function.update s.signalsAsserted p (s.signalsAsserted p ||| signal) t) := by
    intro t mask v hv
    by_cases htp : t = p
    · subst htp
      simpa using hv.or signal
    · simpa [htp] using hv
  by_cases hw : s.signalsWaiting p &&& signal = 0
  · -- no thread waits for the signal
    simp only [hw, ne_eq, not_true, if_false]
    refine winv_signals (s := s) h (fun t mask hb hf => ?_) (fun t mask v _ _ hv => hgrow t mask v hv)
    obtain ⟨h1, h2, -⟩ := h.waiting t mask hb hf
    refine ⟨h1, ?_⟩
    by_cases htp : t = p
    · subst htp
      rw [Function.update_self, Signal.or_and_eq_zero]
      exact ⟨h2, by rw [← h1]; exact hw⟩
    · rw [Function.update_of_ne htp]
      exact h2
  · simp only [ne_eq, hw, not_false_eq_true, if_true]
    cases ho : s.owner (.partition p) with
    | none =>
      rw [eventWake_none (by exact ho)]
      refine winv_signals (s := s) h (fun t mask hb hf => ?_) (fun t mask v _ _ hv => hgrow t mask v hv)
      obtain ⟨h1, h2, h3⟩ := h.waiting t mask hb hf
      have htp : t ≠ p := by
        intro htp
        rw [htp, ho] at h3
        cases h3
      simp only [Function.update_of_ne htp]
      exact ⟨h1, h2⟩
    | some t =>
      obtain ⟨rfl, hb, mask, hf⟩ := h.event p t ho
      obtain ⟨h1, h2, -⟩ := h.waiting t mask hb hf
      rw [eventWake_some (by exact ho) (by exact hb)]
      refine winv_woken (s := s) h ho (fun q hq => ?_) (fun q hq => ?_) fun mask' hf' => ?_
      · exact Function.update_of_ne hq _ _
      · exact Function.update_of_ne hq _ _
      · rw [hf] at hf'
        cases hf'
        refine ⟨?_, ?_⟩
        · unfold frameSp
          split
          · rename_i htc
            have hwk : wakesCurr s t signal = true := by
              simp only [wakesCurr, ho, ← htc, hb, decide_true, Bool.and_true, decide_eq_true_eq]
              exact hw
            rw [htc]
            exact (hx hwk).symm
          · rfl
        · show Chosen _ mask (Function.update s.signalsAsserted t _ t)
          rw [Function.update_self, h1]
          rw [h1] at hw
          exact chosen_wake hw

/-! ## Calls of the running thread -/

/-- The running thread clears signals of its own. -/
theorem winv_clearSignal {signal : Signal} (h : WInv s) (hh : s.handler = false) :
    WInv (clearSignal s signal) := by
  have hf := h.current hh
  refine winv_signals (s := s) h (fun t mask hb hw => ?_) fun t mask v _ hw hv => ?_
  · have ht : t ≠ s.curr := by
      intro ht
      rw [ht, hf] at hw
      cases hw
    obtain ⟨h1, h2, -⟩ := h.waiting t mask hb hw
    rw [Function.update_of_ne ht]
    exact ⟨h1, h2⟩
  · have ht : t ≠ s.curr := by
      intro ht
      rw [ht, hf] at hw
      cases hw
    rw [Function.update_of_ne ht]
    exact hv

/-- The running thread stays as it is, and its frame is stored. -/
theorem winv_enter {sp : Nat} {x : Signal} {f : Frame} (h : WInv s) (hh : s.handler = false)
    (hf : ∀ mask, f = .wait mask → Chosen x mask (s.signalsAsserted s.curr))
    (hne : f ≠ .running) : WInv (enter s sp x f) := by
  have hrun := h.curr_runnable hh
  refine ⟨fun t mask hb hw => ?_, fun t mask hr hw => ?_, fun t hb => ?_, fun t hw => ?_,
    (fun hc => by cases hc), fun p t ho => ?_, fun m t ho => ?_, h.returned⟩
  · have ht : t ≠ s.curr := by
      intro ht
      have hb : s.state t = .block := hb
      rw [ht, hrun] at hb
      cases hb
    exact h.waiting t mask hb (by simpa [enter, ht] using hw)
  · by_cases ht : t = s.curr
    · subst ht
      have hc := hf mask (by simpa [enter] using hw)
      simpa [enter, frameSp] using hc
    · have hv := h.value t mask hr (by simpa [enter, ht] using hw)
      simpa [enter, frameSp, ht] using hv
  · have ht : t ≠ s.curr := by
      intro ht
      have hb : s.state t = .block := hb
      rw [ht, hrun] at hb
      cases hb
    simpa [enter, ht] using h.blocked t hb
  · by_cases ht : t = s.curr
    · subst ht
      simp [enter, hne] at hw
    · have hw : s.frame t = .running := by simpa [enter, ht] using hw
      exact absurd (h.running t hw).1 ht
  · obtain ⟨rfl, hb, mask, hw⟩ := h.event p t ho
    have ht : t ≠ s.curr := by
      intro ht
      rw [ht, hrun] at hb
      cases hb
    exact ⟨rfl, hb, mask, by simpa [enter, ht] using hw⟩
  · obtain ⟨hb, hw⟩ := h.ack m t ho
    have ht : t ≠ s.curr := by
      intro ht
      rw [ht, hrun] at hb
      cases hb
    exact ⟨hb, by simpa [enter, ht] using hw⟩

theorem winv_enterOther {sp : Nat} {x : Signal} (h : WInv s) (hh : s.handler = false) :
    WInv (enter s sp x .other) := by
  refine winv_enter h hh (fun mask hf => ?_) ?_
  · cases hf
  · simp

/-- The running thread blocks on an event that no thread is blocked on, and its frame
is stored. -/
theorem winv_block {e : Event n} {w : Fin n → Signal} {sp : Nat} {x : Signal} {f : Frame}
    (h : WInv s) (hh : s.handler = false) (hw' : ∀ t, t ≠ s.curr → w t = s.signalsWaiting t)
    (hf : (∃ mask, e = .partition s.curr ∧ f = .wait mask ∧ w s.curr = mask ∧
        s.signalsAsserted s.curr &&& mask = 0) ∨ ∃ m, e = .ack m ∧ f = .client m)
    (ho : s.owner e = none) :
    WInv (enter (eventWait c { s with signalsWaiting := w } e) sp x f) := by
  have hcurr := h.current hh
  have hothers : ∀ p t, s.owner p = some t → t ≠ s.curr := by
    intro p t hp ht
    cases p with
    | partition p =>
      obtain ⟨-, -, mask, hw⟩ := h.event p t hp
      rw [ht, hcurr] at hw
      cases hw
    | ack m =>
      have hw := (h.ack m t hp).2
      rw [ht, hcurr] at hw
      cases hw
  refine ⟨fun t mask hb hw => ?_, fun t mask hr hw => ?_, fun t hb => ?_, fun t hw => ?_,
    (fun hc => by cases hc), fun p t hp => ?_, fun m t hp => ?_, h.returned⟩
  · by_cases ht : t = s.curr
    · subst ht
      have hfw : f = .wait mask := by simpa [enter, eventWait, setState] using hw
      rcases hf with ⟨mask', rfl, hf, h1, h2⟩ | ⟨m, -, hf⟩
      · rw [hf] at hfw
        cases hfw
        exact ⟨h1, h2, by simp [enter, eventWait, setState]⟩
      · rw [hf] at hfw
        cases hfw
    · have hb : s.state t = .block := by simpa [enter, eventWait, setState, ht] using hb
      have hw : s.frame t = .wait mask := by simpa [enter, eventWait, setState, ht] using hw
      obtain ⟨h1, h2, h3⟩ := h.waiting t mask hb hw
      refine ⟨(hw' t ht).trans h1, h2, ?_⟩
      have he : Event.partition t ≠ e := by
        intro he
        rw [he, ho] at h3
        cases h3
      simpa [enter, eventWait, setState, he] using h3
  · have ht : t ≠ s.curr := by
      intro ht
      simp [enter, eventWait, setState, ht] at hr
    have hr : s.state t = .runnable := by simpa [enter, eventWait, setState, ht] using hr
    have hw : s.frame t = .wait mask := by simpa [enter, eventWait, setState, ht] using hw
    have hv := h.value t mask hr hw
    simpa [enter, eventWait, setState, frameSp, ht] using hv
  · by_cases ht : t = s.curr
    · subst ht
      simp only [enter, eventWait, setState, Function.update_self]
      rcases hf with ⟨mask, -, rfl, -⟩ | ⟨m, -, rfl⟩
      · exact .inl ⟨mask, rfl⟩
      · exact .inr ⟨m, rfl⟩
    · have hb : s.state t = .block := by simpa [enter, eventWait, setState, ht] using hb
      simpa [enter, eventWait, setState, ht] using h.blocked t hb
  · by_cases ht : t = s.curr
    · subst ht
      have hfw : f = .running := by simpa [enter, eventWait, setState] using hw
      rcases hf with ⟨mask, -, hf, -⟩ | ⟨m, -, hf⟩
      · rw [hf] at hfw
        cases hfw
      · rw [hf] at hfw
        cases hfw
    · have hw : s.frame t = .running := by simpa [enter, eventWait, setState, ht] using hw
      exact absurd (h.running t hw).1 ht
  · by_cases he : Event.partition p = e
    · subst he
      have ht : s.curr = t := by simpa [enter, eventWait, setState] using hp
      subst ht
      rcases hf with ⟨mask, he, rfl, -⟩ | ⟨m, he, -⟩
      · cases he
        exact ⟨rfl, by simp [enter, eventWait, setState], mask, by simp [enter, eventWait, setState]⟩
      · cases he
    · have hp : s.owner (.partition p) = some t := by
        simpa [enter, eventWait, setState, he] using hp
      have ht := hothers _ t hp
      obtain ⟨rfl, hb, mask, hw⟩ := h.event p t hp
      exact ⟨rfl, by simpa [enter, eventWait, setState, ht] using hb, mask,
        by simpa [enter, eventWait, setState, ht] using hw⟩
  · by_cases he : Event.ack m = e
    · subst he
      have ht : s.curr = t := by simpa [enter, eventWait, setState] using hp
      subst ht
      rcases hf with ⟨mask, he, -⟩ | ⟨m', he, rfl⟩
      · cases he
      · cases he
        exact ⟨by simp [enter, eventWait, setState], by simp [enter, eventWait, setState]⟩
    · have hp : s.owner (.ack m) = some t := by simpa [enter, eventWait, setState, he] using hp
      have ht := hothers _ t hp
      obtain ⟨hb, hw⟩ := h.ack m t hp
      exact ⟨by simpa [enter, eventWait, setState, ht] using hb,
        by simpa [enter, eventWait, setState, ht] using hw⟩

/-- What waking a thread leaves alone. -/
theorem eventWake_frame (c : Cfg n) (s : St n) (e : Event n) (x : Signal) :
    (eventWake c s e x).handler = s.handler ∧ (eventWake c s e x).curr = s.curr ∧
      ∀ e', e' ≠ e → (eventWake c s e x).owner e' = s.owner e' := by
  unfold eventWake
  split
  · exact ⟨rfl, rfl, fun _ _ => rfl⟩
  split
  · exact ⟨rfl, rfl, fun _ he => Function.update_of_ne he _ _⟩
  · exact ⟨rfl, rfl, fun _ _ => rfl⟩

theorem assertSignal_frame (c : Cfg n) (s : St n) (p : Fin n) (signal : Signal) :
    (assertSignal c s p signal).handler = s.handler ∧
      (assertSignal c s p signal).curr = s.curr ∧
      ∀ m, (assertSignal c s p signal).owner (.ack m) = s.owner (.ack m) := by
  unfold assertSignal
  dsimp only
  split
  · obtain ⟨h1, h2, h3⟩ := eventWake_frame c
      { s with signalsAsserted :=
          Function.update s.signalsAsserted p (s.signalsAsserted p ||| signal) }
      (.partition p) ((s.signalsAsserted p ||| signal) &&& s.signalsWaiting p)
    exact ⟨h1, h2, fun m => h3 _ (by simp)⟩
  · exact ⟨rfl, rfl, fun _ => rfl⟩

/-- A call of the running thread does not wake this thread. -/
theorem WInv.reaches (h : WInv s) (hh : s.handler = false) (p : Fin n) (signal : Signal) :
    Reaches s p signal := by
  intro hw
  simp [wakesCurr, h.curr_runnable hh] at hw

theorem winv_wait {mask timeout v : Signal} {sp : Nat} (h : WInv s) (hh : s.handler = false)
    (hs : psaWait c s mask timeout = some (s', v)) :
    WInv (enter s' sp v (if timeout &&& psaTimeoutMask = psaBlock then .wait mask else .other)) := by
  unfold psaWait at hs
  split at hs
  · cases hs
  dsimp only at hs
  split at hs
  · rename_i hb
    cases hs
    rw [if_pos hb.1]
    have hown : s.owner (.partition s.curr) = none := by
      cases ho : s.owner (.partition s.curr) with
      | none => rfl
      | some t =>
        obtain ⟨rfl, hblock, -⟩ := h.event _ t ho
        rw [h.curr_runnable hh] at hblock
        cases hblock
    refine winv_block h hh (fun t ht => Function.update_of_ne ht _ _) (.inl ⟨mask, rfl, rfl, ?_, hb.2⟩)
      hown
    simp
  · rename_i hb
    cases hs
    refine winv_enter h hh (fun mask' hf => ?_) ?_
    · split at hf
      · rename_i hblock
        cases hf
        refine ⟨fun h0 => hb ⟨hblock, h0⟩, ?_, ?_⟩
        · rw [BitVec.and_assoc, BitVec.and_self]
        · rw [BitVec.and_comm, ← BitVec.and_assoc, BitVec.and_self]
      · cases hf
    · split
      · simp
      · simp

/-- An event that is cleared. -/
theorem winv_ackInit {m : Nat} (h : WInv s) :
    WInv { s with owner := Function.update s.owner (.ack m) none } := by
  refine ⟨fun t mask hb hf => ?_, h.value, h.blocked, h.running, h.current, fun p t ho => ?_,
    fun m' t ho => ?_, h.returned⟩
  · obtain ⟨h1, h2, h3⟩ := h.waiting t mask hb hf
    exact ⟨h1, h2, by simpa using h3⟩
  · exact h.event p t (by simpa using ho)
  · have hm : m' ≠ m := by
      intro hm
      simp [hm] at ho
    exact h.ack m' t (by simpa [hm] using ho)

theorem winv_sendEvent {p : Fin n} {signal : Signal} {m sp : Nat} (h : WInv s)
    (hh : s.handler = false) (ho : s.owner (.ack m) = none) :
    WInv (enter (sendEvent c s p signal (some m)) sp 0 (.client m)) := by
  have h₁ := winv_assertSignal (c := c) h (h.reaches hh p signal)
  obtain ⟨hha, -, hack⟩ := assertSignal_frame c s p signal
  exact winv_block h₁ (hha.trans hh) (fun _ _ => rfl) (.inr ⟨m, rfl, rfl⟩) ((hack m).trans ho)

theorem winv_call {p : Fin n} {signal : Signal} {m sp : Nat} (h : WInv s)
    (hh : s.handler = false) : WInv (enter (clientCall c s p signal m) sp 0 (.client m)) := by
  refine winv_sendEvent (winv_ackInit h) hh ?_
  simp

theorem winv_reply {m : Nat} {ret : Signal} (h : WInv s) : WInv (eventWake c s (.ack m) ret) := by
  cases ho : s.owner (.ack m) with
  | none =>
    rw [eventWake_none ho]
    exact h
  | some t =>
    obtain ⟨hb, hf⟩ := h.ack m t ho
    rw [eventWake_some ho hb]
    refine winv_woken (s := s) h ho (fun _ _ => rfl) (fun _ _ => rfl) fun mask hw => ?_
    rw [hf] at hw
    cases hw

theorem winv_svc {sp : Nat} {q : SvcCall n} (h : WInv s) (hh : s.handler = false)
    (hs : svc c s sp q = some s') : WInv s' := by
  obtain ⟨⟨s₁, v, f⟩, hq, rfl⟩ := Option.map_eq_some_iff.1 hs
  cases q with
  | wait mask timeout =>
    obtain ⟨⟨s₂, v'⟩, hw, he⟩ := Option.map_eq_some_iff.1 hq
    cases he
    exact winv_wait h hh hw
  | get signal bufOk cleared status =>
    obtain ⟨s₂, hg, he⟩ := Option.map_eq_some_iff.1 hq
    cases he
    unfold psaGet at hg
    split at hg
    · cases hg
    split at hg
    · cases hg
    split at hg
    · cases hg
    split at hg
    · cases hg
    split at hg
    · cases hg
      exact winv_enterOther (winv_clearSignal h hh) hh
    · cases hg
      exact winv_enterOther h hh
  | clear =>
    obtain ⟨s₂, hg, he⟩ := Option.map_eq_some_iff.1 hq
    cases he
    unfold psaClear at hg
    split at hg
    · cases hg
    · cases hg
      exact winv_enterOther (winv_clearSignal h hh) hh
  | eoi irqSignal =>
    obtain ⟨s₂, hg, he⟩ := Option.map_eq_some_iff.1 hq
    cases he
    unfold psaEoi at hg
    split at hg
    · cases hg
    split at hg
    · cases hg
    · cases hg
      exact winv_enterOther (winv_clearSignal h hh) hh
  | notify p =>
    cases hq
    exact winv_enterOther (winv_assertSignal h (h.reaches hh p psaDoorbell))
      ((assertSignal_frame c s p psaDoorbell).1.trans hh)
  | call p signal m =>
    cases hq
    exact winv_call h hh
  | reply m ret =>
    cases hq
    exact winv_enterOther (winv_reply h) ((eventWake_frame c s (.ack m) ret).1.trans hh)
  | other ret =>
    cases hq
    exact winv_enterOther h hh

/-! ## Handlers keep the invariant -/

theorem winv_pendsv (h : WInv s) (hh : s.handler = true) : WInv (pendsvDoSchedule s) := by
  have h₁ : WInv { s with pendsv := false } :=
    ⟨h.waiting, h.value, h.blocked, h.running, h.current, h.event, h.ack, h.returned⟩
  unfold pendsvDoSchedule
  dsimp only
  split
  · exact h₁
  rename_i next hn
  split
  · exact h₁
  rename_i hne
  refine ⟨h.waiting, fun t mask hr hf => ?_, h.blocked, fun t hf => ?_, fun hc => ?_, h.event, h.ack,
    h.returned⟩
  · -- the frame of every thread stays where it is
    have hsp : frameSp (switchContext { s with pendsv := false } next) t = frameSp s t := by
      by_cases htn : t = next
      · subst htn
        simp [frameSp, switchContext, Ne.symm hne]
      · by_cases htc : t = s.curr
        · subst htc
          simp [frameSp, switchContext, htn]
        · simp [frameSp, switchContext, htn, htc]
    rw [hsp]
    exact h.value t mask hr hf
  · obtain ⟨-, hc⟩ := h.running t hf
    rw [hh] at hc
    cases hc
  · have hc : s.handler = false := hc
    rw [hh] at hc
    cases hc

theorem winv_resume (h : WInv s) (hr : s.state s.curr = .runnable) : WInv (resume s) := by
  refine ⟨fun t mask hb hf => ?_, fun t mask hrt hf => ?_, fun t hb => ?_, fun t hf => ?_,
    fun _ => by simp [resume], fun p t ho => ?_, fun m t ho => ?_, fun x hx => ?_⟩
  · have ht : t ≠ s.curr := by
      intro ht
      simp [resume, ht] at hf
    exact h.waiting t mask hb (by simpa [resume, ht] using hf)
  · have ht : t ≠ s.curr := by
      intro ht
      simp [resume, ht] at hf
    exact h.value t mask hrt (by simpa [resume, ht] using hf)
  · have ht : t ≠ s.curr := by
      intro ht
      have hb : s.state t = .block := hb
      rw [ht, hr] at hb
      cases hb
    simpa [resume, ht] using h.blocked t hb
  · by_cases ht : t = s.curr
    · exact ⟨ht, rfl⟩
    · have hf : s.frame t = .running := by simpa [resume, ht] using hf
      exact absurd (h.running t hf).1 ht
  · obtain ⟨rfl, hb, mask, hf⟩ := h.event p t ho
    have ht : t ≠ s.curr := by
      intro ht
      rw [ht, hr] at hb
      cases hb
    exact ⟨rfl, hb, mask, by simpa [resume, ht] using hf⟩
  · obtain ⟨hb, hf⟩ := h.ack m t ho
    have ht : t ≠ s.curr := by
      intro ht
      rw [ht, hr] at hb
      cases hb
    exact ⟨hb, by simpa [resume, ht] using hf⟩
  · unfold resume at hx
    dsimp only at hx
    split at hx
    · rename_i mask hf
      rw [List.mem_cons] at hx
      rcases hx with rfl | hx
      · simpa [frameSp] using h.value s.curr mask hr hf
      · exact h.returned x hx
    · exact h.returned x hx

theorem winv_step {l : Lbl n} (h : WInv s) (hok : switched s l = true)
    (hs : step c s l = some s') : WInv s' := by
  cases l with
  | svc sp q =>
    dsimp only [step] at hs
    split at hs
    · cases hs
    · rename_i hh
      exact winv_svc h (by simpa using hh) hs
  | interrupt sp x =>
    dsimp only [step] at hs
    split at hs
    · cases hs
    · rename_i hh
      cases hs
      exact winv_enterOther h (by simpa using hh)
  | irq p signal =>
    dsimp only [step] at hs
    split at hs
    · cases hs
      refine winv_assertSignal h fun hw => ?_
      simpa [switched, hw] using hok
    · cases hs
  | rpc p signal =>
    dsimp only [step] at hs
    split at hs
    · cases hs
      refine winv_assertSignal h fun hw => ?_
      simpa [switched, hw] using hok
    · cases hs
  | pendsv =>
    dsimp only [step] at hs
    split at hs
    · rename_i hh
      cases hs
      exact winv_pendsv h (by simpa using And.left (by simpa using hh))
    · cases hs
  | ret =>
    dsimp only [step] at hs
    split at hs
    · cases hs
      exact winv_resume h (by simpa [switched] using hok)
    · cases hs

theorem winv_inductive (c : Cfg n) :
    ((lts c).restrict fun s l => switched s l = true).Inductive WInv where
  init := fun _ h => winv_init h
  step := fun _ _ _ h hs => winv_step h hs.1 hs.2

/-! ## Results -/

theorem eventWake_state {e : Event n} {x : Signal} {t : Fin n} (ho : s.owner e ≠ some t) :
    (eventWake c s e x).state t = s.state t := by
  unfold eventWake
  split
  · rfl
  rename_i q hq
  split
  · have htq : t ≠ q := by
      intro htq
      exact ho (htq ▸ hq)
    simp [setRetval, setState, htq]
  · rfl

theorem assertSignal_state {p : Fin n} {signal : Signal} {t : Fin n}
    (ho : s.owner (.partition p) ≠ some t) :
    (assertSignal c s p signal).state t = s.state t := by
  unfold assertSignal
  dsimp only
  split
  · exact eventWake_state (s := { s with signalsAsserted := _ }) ho
  · rfl

theorem eventWait_state {e : Event n} {t : Fin n} (hb : s.state t = .block) :
    (eventWait c s e).state t = .block := by
  by_cases ht : t = s.curr
  · simp [eventWait, setState, ht]
  · simpa [eventWait, setState, ht] using hb

/-- Only the reply wakes a thread that is blocked on a client call. -/
theorem WInv.client (h : WInv s) {t : Fin n} {m : Nat} {l : Lbl n} (hb : s.state t = .block)
    (hf : s.frame t = .client m) (hl : ∀ sp ret, l ≠ .svc sp (.reply m ret))
    (hs : step c s l = some s') : s'.state t = .block := by
  have hpart : ∀ p, s.owner (.partition p) ≠ some t := by
    intro p ho
    obtain ⟨-, -, mask, hw⟩ := h.event p t ho
    rw [hf] at hw
    cases hw
  have hsig : ∀ p signal, (assertSignal c s p signal).state t = .block := by
    intro p signal
    rw [assertSignal_state (hpart p)]
    exact hb
  cases l with
  | svc sp q =>
    dsimp only [step] at hs
    split at hs
    · cases hs
    obtain ⟨⟨s₁, v, f⟩, hq, rfl⟩ := Option.map_eq_some_iff.1 hs
    show s₁.state t = .block
    cases q with
    | wait mask timeout =>
      obtain ⟨⟨s₂, v'⟩, hw, he⟩ := Option.map_eq_some_iff.1 hq
      cases he
      unfold psaWait at hw
      split at hw
      · cases hw
      dsimp only at hw
      split at hw
      · cases hw
        exact eventWait_state hb
      · cases hw
        exact hb
    | get signal bufOk cleared status =>
      obtain ⟨s₂, hg, he⟩ := Option.map_eq_some_iff.1 hq
      cases he
      simp only [psaGet, Option.ite_none_left_eq_some] at hg
      obtain ⟨-, -, -, -, hg⟩ := hg
      split at hg
      · cases hg
        exact hb
      · cases hg
        exact hb
    | clear =>
      obtain ⟨s₂, hg, he⟩ := Option.map_eq_some_iff.1 hq
      cases he
      simp only [psaClear, Option.ite_none_left_eq_some] at hg
      obtain ⟨-, hg⟩ := hg
      cases hg
      exact hb
    | eoi irqSignal =>
      obtain ⟨s₂, hg, he⟩ := Option.map_eq_some_iff.1 hq
      cases he
      simp only [psaEoi, Option.ite_none_left_eq_some] at hg
      obtain ⟨-, -, hg⟩ := hg
      cases hg
      exact hb
    | notify p =>
      cases hq
      exact hsig p psaDoorbell
    | call p signal m' =>
      cases hq
      have hp : (Function.update s.owner (.ack m') none) (.partition p) ≠ some t := by
        simpa using hpart p
      refine eventWait_state ((assertSignal_state (by exact hp)).trans ?_)
      exact hb
    | reply m' ret =>
      cases hq
      rw [eventWake_state]
      · exact hb
      · intro ho
        have hm := (h.ack m' t ho).2
        rw [hf] at hm
        cases hm
        exact hl sp ret rfl
    | other ret =>
      cases hq
      exact hb
  | interrupt sp x =>
    dsimp only [step] at hs
    split at hs
    · cases hs
    · cases hs
      exact hb
  | irq p signal =>
    dsimp only [step] at hs
    split at hs
    · cases hs
      exact hsig p signal
    · cases hs
  | rpc p signal =>
    dsimp only [step] at hs
    split at hs
    · cases hs
      exact hsig p signal
    · cases hs
  | pendsv =>
    dsimp only [step] at hs
    split at hs
    · cases hs
      unfold pendsvDoSchedule
      dsimp only
      split
      · exact hb
      split
      · exact hb
      · exact hb
    · cases hs
  | ret =>
    dsimp only [step] at hs
    split at hs
    · cases hs
      exact hb
    · cases hs

/-- **No wake-up is lost**, in every run in which no thread goes on while it is blocked,
and no signal wakes a thread that blocks and has not yet left the processor, unless its
frame is where its last one was: no thread is blocked in `psa_wait` on a signal that is
asserted, a thread blocked on a client call is woken by the reply only, and
`psa_wait(mask, PSA_BLOCK)` returns asserted signals of `mask`, and at least one. -/
theorem wait_no_lost_wakeup (c : Cfg n) (s : St n)
    (h : ((lts c).restrict fun s l => switched s l = true).Reachable s) : WaitLaw c s := by
  have hi := (winv_inductive c).reachable s h
  refine ⟨fun t mask hb hf => (hi.waiting t mask hb hf).2.1, fun t m l s' hb hf hl hs => ?_,
    hi.returned⟩
  exact hi.client hb hf hl hs

/-- A service in thread 0, with the signal 0x20 and the interrupt signal 0x10, and the
non-secure caller in thread 1, which is on the processor. -/
def twoThreads : Cfg 2 where
  prior t := t.val
  signalsAllowed t := if t = 0 then 0x30 else 0
  irqLine t signal := decide (t = 0) && decide (signal = 0x10)

def start : St 2 where
  state _ := .runnable
  savedSp _ := 200
  r0 _ _ := 0
  rnblHead := some 0
  curr := 1
  handler := true
  psp := 200
  pendsv := true
  signalsAsserted _ := 0
  signalsWaiting _ := 0
  owner _ := none
  frame _ := .other
  returned := []

theorem start_init : Init start :=
  ⟨fun _ => rfl, rfl, rfl, fun _ => rfl, fun _ => rfl, fun _ => rfl, rfl⟩

/-- The service waits, the caller calls, the service takes the message and replies. -/
def callTrace : List (Lbl 2) :=
  [.pendsv, .ret, .svc 180 (.wait 0x30 psaBlock), .pendsv, .ret, .svc 150 (.call 0 0x20 7),
    .pendsv, .ret, .svc 180 (.get 0x20 true true 0), .ret, .svc 180 (.reply 7 5), .pendsv, .ret,
    .svc 180 (.wait 0x30 psaBlock), .pendsv]

theorem wait_no_lost_wakeup_call : ∃ s : St 2, WaitLaw twoThreads s ∧
    s.returned = [⟨0, 0x30, 0x20, 0x20⟩] ∧ s.state 0 = .block ∧ s.r0 1 150 = 5 := by
  have he : (LTS.execC switched (step twoThreads) start callTrace).map
      (fun s => (s.returned, s.state 0, s.r0 1 150)) =
      some ([⟨0, 0x30, 0x20, 0x20⟩], .block, 5) := by decide +kernel
  obtain ⟨s, hs, hv⟩ := Option.map_eq_some_iff.1 he
  simp only [Prod.mk.injEq] at hv
  exact ⟨s, wait_no_lost_wakeup twoThreads s (LTS.reachable_execC (fun _ _ h => h) _ start_init hs),
    hv⟩

/-- The service takes the message of the caller, and waits for the interrupt. -/
def noThread : List (Lbl 2) :=
  [.pendsv, .ret, .svc 180 (.wait 0x30 psaBlock), .pendsv, .ret, .svc 150 (.call 0 0x20 7),
    .pendsv, .ret, .svc 180 (.get 0x20 true true 0), .ret, .svc 180 (.wait 0x10 psaBlock),
    .pendsv, .ret]

/-- The interrupt comes after the SVC, before PendSV. -/
def earlyIrq : List (Lbl 2) :=
  [.pendsv, .ret, .svc 180 (.wait 0x10 psaBlock), .irq 0 0x10, .pendsv, .ret]

/-- **Counterexample**: every thread is blocked, PendSV finds none to run and leaves the
one in `psa_wait` on the processor, which returns no signal; with the interrupt before
PendSV, the value goes to where the thread's first frame was, and it returns no signal
either. -/
theorem wait_returns_none :
    (∃ s : St 2, (lts twoThreads).Reachable s ∧ ⟨0, 0x10, 0, 0⟩ ∈ s.returned ∧
      ¬ WaitLaw twoThreads s) ∧
    ∃ s : St 2, (lts twoThreads).Reachable s ∧ ⟨0, 0x10, 0, 0x10⟩ ∈ s.returned ∧
      ¬ WaitLaw twoThreads s := by
  have he : (LTS.exec (step twoThreads) start noThread).map St.returned =
      some [⟨0, 0x10, 0, 0⟩, ⟨0, 0x30, 0x20, 0x20⟩] := by decide +kernel
  have he' : (LTS.exec (step twoThreads) start earlyIrq).map St.returned =
      some [⟨0, 0x10, 0, 0x10⟩] := by decide +kernel
  obtain ⟨s, hs, hv⟩ := Option.map_eq_some_iff.1 he
  obtain ⟨s', hs', hv'⟩ := Option.map_eq_some_iff.1 he'
  have hm : ⟨0, 0x10, 0, 0⟩ ∈ s.returned := by simp [hv]
  have hm' : ⟨0, 0x10, 0, 0x10⟩ ∈ s'.returned := by simp [hv']
  refine ⟨⟨s, LTS.reachable_exec _ (.init start_init) hs, hm, fun hlaw => ?_⟩,
    s', LTS.reachable_exec _ (.init start_init) hs', hm', fun hlaw => ?_⟩
  · exact (hlaw.returned _ hm).1 rfl
  · exact (hlaw.returned _ hm').1 rfl

end Tfm.L5.PsaWait
