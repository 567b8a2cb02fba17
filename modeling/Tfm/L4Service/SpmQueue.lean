import Tfm.L4Service.SpmOneMsg

/-!
# SPM: first-in first-out delivery and the signals of RoT Services

The message list of a partition holds the messages of all its services, and one signal
word tells the partition which services have one. `tfm_spm_send_event` appends and
sets, `psa_get` takes the first message of a service out of the list and looks whether
it was the last one; interrupts and `psa_notify` set other signals of the same word.

Abstractly a partition has one queue of entries, each with its signal and request id.
`QSt` carries that queue and the logs of what was sent and taken next to the SPM's
state; `QInv` says that the pointer list is the queue, that the signal of a service is set
exactly while the queue has an entry for it, and that for each signal what was sent is
what was taken followed by what is queued.

Anything else the SPM does meanwhile (connecting, replying, reading vectors, freeing) is
one step, `other`: it may change everything but the lists, the signals, and the service
and id of a message.

Results:
* `qinv_send`, `qinv_get`, `qinv_signal`, `qinv_other`: the steps keep `QInv`.
* `fifo_reachable`: in every run with at most one message of a connection in the lists.
* `queue_simulates`: the runs of the SPM in which a connection has one message at a time are
  such runs.
-/
namespace Tfm.L4.Spm
open Tfm.BiList

variable {nS nP : Nat}

/-! ## Signals -/

/-- The bit of `PSA_DOORBELL`.
mirrors interface/include/psa/service.h:41 -/
def psaDoorbell : Nat := 3

/-- The generated tables: services with the interrupt signals of each partition. Service
signals start above the doorbell, and the generated header does not compile if "Secure
service and IRQ signal values overlap".
mirrors secure_fw/partitions/manifestfilename.template:17-47 -/
structure SigDb (nS nP : Nat) where
  db : Db nS nP
  irqSignals : List (Fin nP × Nat)
  apart : ∀ v, (db.service v).signal ≠ psaDoorbell ∧
    ((db.service v).partition, (db.service v).signal) ∉ irqSignals

/-- mirrors secure_fw/spm/cmsis_psa/spm_ipc.c:887-917 -/
def notifyWithSignal (s : St nS nP) (p : Fin nP) (signal : Nat) : St nS nP :=
  { s with asserted := Function.update s.asserted p (Function.update (s.asserted p) signal true) }

/-- The end of `psa_clear` and `psa_eoi`; a panic if the signal is not asserted.
mirrors secure_fw/spm/ffm/psa_client_service_apis.c:577-594,596-625 -/
def clearSignal (s : St nS nP) (p : Fin nP) (signal : Nat) : St nS nP :=
  if s.asserted p signal then
    { s with
      asserted := Function.update s.asserted p (Function.update (s.asserted p) signal false) }
  else { s with panicked := true }

/-! ## Steps -/

/-- One message in a list. -/
structure Entry where
  chunk : Chunk
  signal : Nat
  rid : Nat
  deriving DecidableEq, Repr

def Entry.log (e : Entry) : Nat × Nat := (e.signal, e.rid)

structure QSt (nS nP : Nat) where
  spm : St nS nP
  /-- the abstract message lists -/
  queue : Fin nP → List Entry
  /-- ghost: signal and request id of what was sent, oldest first -/
  sent : Fin nP → List (Nat × Nat)
  /-- ghost: what `psa_get` took -/
  got : Fin nP → List (Nat × Nat)

inductive QLbl (nS nP : Nat)
  /-- fill the message of a chunk and send it -/
  | send (v : Fin nS) (k : Chunk) (handle : UInt32) (type clientId : Int) (invec outvec : List Vec)
      (callerOutvec : Nat) (callerData : Option Nat) (origin : Origin)
  | get (p : Fin nP) (signal : Nat) (bufOk : Bool)
  | notify (p : Fin nP)
  | irq (p : Fin nP) (signal : Nat)
  | clear (p : Fin nP)
  | eoi (p : Fin nP) (signal : Nat)
  | other (t : St nS nP)

/-- The state becomes that of `t`, the lists, the signals, and the service and id of each
message stay. -/
def others (s t : St nS nP) : St nS nP :=
  { t with
    msgs := s.msgs
    asserted := s.asserted
    next := s.next
    conn := fun k => { t.conn k with
      internalMsg := { (t.conn k).internalMsg with
        service := (s.conn k).internalMsg.service, rid := (s.conn k).internalMsg.rid } } }

def qstep (c : SigDb nS nP) (s : QSt nS nP) (l : QLbl nS nP) : Option (QSt nS nP) :=
  if s.spm.panicked then none
  else
    match l with
    | .send v k handle type clientId invec outvec callerOutvec callerData origin =>
      let p := (c.db.service v).partition
      let e : Entry := ⟨k, (c.db.service v).signal, s.spm.next⟩
      some
        { spm := sendEvent c.db (fillMsg s.spm k v handle type clientId invec outvec callerOutvec
            callerData origin) v k
          queue := Function.update s.queue p (s.queue p ++ [e])
          sent := Function.update s.sent p (s.sent p ++ [e.log])
          got := s.got }
    | .get p signal bufOk =>
      (psaGet c.db s.spm p signal bufOk).map fun r =>
        { s with
          spm := r.1
          queue := if bufOk && s.spm.asserted p signal then
              Function.update s.queue p ((s.queue p).eraseP fun e => e.signal == signal)
            else s.queue
          got := match r.2 with
            | some m => Function.update s.got p (s.got p ++ [(signal, m.rid)])
            | none => s.got }
    | .notify p => some { s with spm := notifyWithSignal s.spm p psaDoorbell }
    | .irq p signal =>
      if (p, signal) ∈ c.irqSignals then some { s with spm := notifyWithSignal s.spm p signal }
      else none
    | .clear p => some { s with spm := clearSignal s.spm p psaDoorbell }
    | .eoi p signal =>
      if (p, signal) ∈ c.irqSignals then some { s with spm := clearSignal s.spm p signal }
      else some { s with spm := { s.spm with panicked := true } }
    | .other t => some { s with spm := others s.spm t }

def QSt.init (nS nP : Nat) : QSt nS nP := ⟨Spm.init nS nP, fun _ => [], fun _ => [], fun _ => []⟩

def qlts (c : SigDb nS nP) : LTS (QSt nS nP) (QLbl nS nP) :=
  LTS.ofFn (· = QSt.init nS nP) (qstep c)

/-- At most one outstanding message per connection: a message that is in a list is not
filled again. -/
def oneEach (s : QSt nS nP) : QLbl nS nP → Bool
  | .send _ k _ _ _ _ _ _ _ _ => (List.finRange nP).all fun p => (s.queue p).all fun e => e.chunk != k
  | _ => true

/-! ## Invariant -/

def chunks (q : List Entry) : List Chunk := q.map Entry.chunk

/-- The message of the entry's chunk is the entry's, and is for a service of the
partition. -/
structure Entry.Ok (c : SigDb nS nP) (conn : Chunk → Conn nS) (p : Fin nP) (e : Entry) : Prop where
  service : ∃ v, (conn e.chunk).internalMsg.service = some v ∧ (c.db.service v).partition = p ∧
    (c.db.service v).signal = e.signal
  rid : (conn e.chunk).internalMsg.rid = e.rid

def ofSignal (signal : Nat) (l : List (Nat × Nat)) : List (Nat × Nat) :=
  l.filter fun x => x.1 == signal

structure QInv (c : SigDb nS nP) (s : QSt nS nP) : Prop where
  msgs : Family s.spm.msgs .head fun p => (chunks (s.queue p)).map .chunk
  entry : ∀ p, ∀ e ∈ s.queue p, e.Ok c s.spm.conn p
  asserted : ∀ v, s.spm.asserted (c.db.service v).partition (c.db.service v).signal = true ↔
    ∃ e ∈ s.queue (c.db.service v).partition, e.signal = (c.db.service v).signal
  order : ∀ p signal, ofSignal signal (s.sent p) =
    ofSignal signal (s.got p) ++ ofSignal signal ((s.queue p).map Entry.log)
  fresh : ∀ p, ∀ x ∈ s.sent p, x.2 < s.spm.next
  once : ∀ p, ((s.sent p).map Prod.snd).Nodup
  apart : ∀ p q, p ≠ q → ∀ x ∈ s.sent p, ∀ y ∈ s.sent q, x.2 ≠ y.2

section Steps

variable {c : SigDb nS nP} {s : QSt nS nP}

theorem signalOf_entry {conn : Chunk → Conn nS} {p : Fin nP} {e : Entry} (h : e.Ok c conn p) :
    signalOf c.db conn e.chunk = some e.signal := by
  obtain ⟨v, hv, -, hs⟩ := h.service
  simp [signalOf, hv, hs]

theorem chunks_append (q : List Entry) (e : Entry) : chunks (q ++ [e]) = chunks q ++ [e.chunk] := by
  simp [chunks]

theorem map_chunks_update (Q : Fin nP → List Entry) (p : Fin nP) (q : List Entry) :
    Function.update (fun j => (chunks (Q j)).map (Node.chunk (H := Fin nP))) p
        ((chunks q).map .chunk) =
      fun j => (chunks (Function.update Q p q j)).map .chunk := by
  funext j
  by_cases hj : j = p
  · subst hj
    simp
  · simp [hj]

/-- Appending to one of the lists. -/
theorem mem_snoc {α : Type} {L : Fin nP → List α} {p q : Fin nP} {a x : α} :
    x ∈ Function.update L p (L p ++ [a]) q ↔ x ∈ L q ∨ (q = p ∧ x = a) := by
  by_cases hq : q = p
  · subst hq
    simp
  · simp [hq]

theorem update_snoc_map {α β : Type} (f : α → β) (L : Fin nP → List α) (p q : Fin nP) (a : α) :
    (Function.update L p (L p ++ [a]) q).map f =
      (L q).map f ++ if q = p then [f a] else [] := by
  by_cases hq : q = p
  · subst hq
    simp
  · simp [hq]

theorem ofSignal_append (signal : Nat) (l l' : List (Nat × Nat)) :
    ofSignal signal (l ++ l') = ofSignal signal l ++ ofSignal signal l' := List.filter_append ..

/-- Sending appends to the queue and sets the signal. -/
theorem qinv_send {v : Fin nS} {k : Chunk} {handle : UInt32} {type clientId : Int}
    {invec outvec : List Vec} {callerOutvec : Nat} {cd : Option Nat} {o : Origin} {s' : QSt nS nP}
    (h : QInv c s) (hk : ∀ p, ∀ e ∈ s.queue p, e.chunk ≠ k)
    (hs : qstep c s (.send v k handle type clientId invec outvec callerOutvec cd o) = some s') :
    QInv c s' := by
  unfold qstep at hs
  split at hs
  · cases hs
  cases hs
  have hnot : ∀ p, k ∉ chunks (s.queue p) := by
    intro p hm
    obtain ⟨e, he, rfl⟩ := List.mem_map.1 hm
    exact hk p e he rfl
  have hconn : ∀ x, x ≠ k → (sendEvent c.db (fillMsg s.spm k v handle type clientId invec outvec
      callerOutvec cd o) v k).conn x = s.spm.conn x := by
    intro x hx
    simp [sendEvent, fillMsg, setConn_conn, hx]
  refine ⟨?_, ?_, ?_, ?_, ?_, ?_, ?_⟩
  · -- the node is cleared first, which no list sees
    have hclear : Family ((s.spm.msgs.setNext (.chunk k) .null).setPrev (.chunk k) .null) .head
        fun p => (chunks (s.queue p)).map .chunk := by
      refine h.msgs.congr ?_ ?_ <;>
      · intro p y hy
        have hyk : y ≠ .chunk k := fun he => chunk_not_mem (hnot p) (he ▸ hy)
        simp [hyk]
    have hf := hclear.insertBefore (c.db.service v).partition (x := .chunk k)
      fun p => chunk_not_mem (hnot p)
    rwa [← List.map_singleton, ← List.map_append, ← chunks_append (e := ⟨k, _, _⟩),
      map_chunks_update] at hf
  · intro p e he
    rcases mem_snoc.1 he with he | ⟨rfl, rfl⟩
    · have hok := h.entry p e he
      have hc := hconn e.chunk (hk p e he)
      exact ⟨hc ▸ hok.service, hc ▸ hok.rid⟩
    · exact ⟨⟨v, by simp [sendEvent, fillMsg, setConn_conn], rfl, rfl⟩,
        by simp [sendEvent, fillMsg, setConn_conn]⟩
  · intro w
    simp only [mem_snoc]
    by_cases hw : (c.db.service w).partition = (c.db.service v).partition ∧
        (c.db.service w).signal = (c.db.service v).signal
    · refine iff_of_true ?_ ⟨_, .inr ⟨hw.1, rfl⟩, hw.2.symm⟩
      simp [sendEvent, hw.1, hw.2]
    · have hold : (sendEvent c.db (fillMsg s.spm k v handle type clientId invec outvec callerOutvec
          cd o) v k).asserted (c.db.service w).partition (c.db.service w).signal =
          s.spm.asserted (c.db.service w).partition (c.db.service w).signal := by
        by_cases hp : (c.db.service w).partition = (c.db.service v).partition
        · have hsg : (c.db.service w).signal ≠ (c.db.service v).signal := fun he => hw ⟨hp, he⟩
          simp [sendEvent, fillMsg, hp, hsg]
        · simp [sendEvent, fillMsg, hp]
      rw [hold, h.asserted w]
      constructor
      · intro hv
        obtain ⟨e, he, hes⟩ := hv
        exact ⟨e, .inl he, hes⟩
      · intro hv
        obtain ⟨e, he | ⟨hp, rfl⟩, hes⟩ := hv
        · exact ⟨e, he, hes⟩
        · exact absurd ⟨hp, hes.symm⟩ hw
  · intro p signal
    have ho := h.order p signal
    by_cases hp : p = (c.db.service v).partition
    · subst hp
      simp only [Function.update_self, List.map_append, List.map_singleton, ofSignal_append, ho,
        List.append_assoc]
    · simpa [hp] using ho
  · intro p x hx
    show x.2 < s.spm.next + 1
    rcases mem_snoc.1 hx with hx | ⟨-, rfl⟩
    · exact Nat.lt_succ_of_lt (h.fresh p x hx)
    · exact Nat.lt_succ_self _
  · intro p
    dsimp only
    rw [update_snoc_map]
    by_cases hp : p = (c.db.service v).partition
    · rw [if_pos hp]
      refine List.nodup_append.2 ⟨h.once p, List.nodup_singleton _, ?_⟩
      intro r hr r' hr' hv
      subst hv
      obtain ⟨x, hx, rfl⟩ := List.mem_map.1 hr
      have hlt := h.fresh p x hx
      rw [List.mem_singleton] at hr'
      simp only [Entry.log] at hr'
      omega
    · rw [if_neg hp, List.append_nil]
      exact h.once p
  · intro p q hpq x hx y hy
    rcases mem_snoc.1 hx with hx | ⟨rfl, rfl⟩
    · rcases mem_snoc.1 hy with hy | ⟨rfl, rfl⟩
      · exact h.apart p q hpq x hx y hy
      · exact Nat.ne_of_lt (h.fresh p x hx)
    · rcases mem_snoc.1 hy with hy | ⟨he, -⟩
      · exact Nat.ne_of_gt (h.fresh q y hy)
      · exact absurd he.symm hpq

/-- What `psa_get` does for an asserted signal: the queue has no entry for it, or the first
one is taken. -/
theorem psaGet_spec (h : QInv c s) (p : Fin nP) {signal : Nat}
    (ha : s.spm.asserted p signal = true) :
    ((∀ e ∈ s.queue p, e.signal ≠ signal) ∧ ∃ b : Bool, psaGet c.db s.spm p signal true =
      some ({ s.spm with
        asserted := if b then Function.update s.spm.asserted p
          (Function.update (s.spm.asserted p) signal false) else s.spm.asserted }, none)) ∨
    ∃ l₁ e l₂, s.queue p = l₁ ++ e :: l₂ ∧ (∀ x ∈ l₁, x.signal ≠ signal) ∧ e.signal = signal ∧
      psaGet c.db s.spm p signal true =
        some (taken s.spm p signal (removeNode s.spm.msgs (.chunk e.chunk))
          (l₂.all fun x => x.signal != signal) e.chunk,
          some (s.spm.conn e.chunk).internalMsg) := by
  have hsig : ∀ e ∈ s.queue p, signalOf c.db s.spm.conn e.chunk = some e.signal :=
    fun e he => signalOf_entry (h.entry p e he)
  have hv : ∀ k ∈ chunks (s.queue p), (s.spm.conn k).internalMsg.service ≠ none := by
    intro k hk
    obtain ⟨e, he, rfl⟩ := List.mem_map.1 hk
    obtain ⟨v, hv, -⟩ := (h.entry p e he).service
    simp [hv]
  unfold psaGet
  simp only [ha, Bool.not_true, Bool.or_self, Bool.false_eq_true, if_false]
  cases hemp : isEmpty s.spm.msgs (.head p) with
  | true =>
    have hnil := (h.msgs.isList p).isEmpty_iff.1 hemp
    simp only [chunks, List.map_eq_nil_iff] at hnil
    refine .inl ⟨by simp [hnil], false, ?_⟩
    simp
  | false =>
    rcases findMsg_spec c.db signal hv (h.msgs.isList p) with
      ⟨hno, he⟩ | ⟨l₁, k, l₂, hl, hno, hk, he⟩
    · refine .inl ⟨fun e hm hes => ?_, true, ?_⟩
      · exact hno e.chunk (List.mem_map_of_mem hm) (hes ▸ hsig e hm)
      · simp only [he, Bool.false_eq_true, if_false, if_true]
    · obtain ⟨q₁, q, hq, rfl, hq₂⟩ := List.map_eq_append_iff.1 hl
      obtain ⟨e, q₂, rfl, rfl, rfl⟩ := List.map_eq_cons_iff.1 hq₂
      have hmem : ∀ x ∈ q₁ ++ e :: q₂, x ∈ s.queue p := fun x hx => hq ▸ hx
      refine .inr ⟨q₁, e, q₂, hq, fun x hx hxs => ?_, ?_, ?_⟩
      · exact hno x.chunk (List.mem_map_of_mem hx) (hxs ▸ hsig x (hmem x (by simp [hx])))
      · have := hsig e (hmem e (by simp))
        rw [this] at hk
        exact Option.some.inj hk
      · have hall : (q₂.map Entry.chunk).all (fun x => signalOf c.db s.spm.conn x != some signal) =
            q₂.all fun x => x.signal != signal := by
          rw [Bool.eq_iff_iff, List.all_map, List.all_eq_true, List.all_eq_true]
          refine forall₂_congr fun x hx => ?_
          simp [hsig x (hmem x (by simp [hx]))]
        simp only [he, hall, Bool.false_eq_true, if_false]
        rfl

theorem QInv.congr {s' : QSt nS nP} (h : QInv c s) (hm : s'.spm.msgs = s.spm.msgs)
    (hc : ∀ k, (s'.spm.conn k).internalMsg.service = (s.spm.conn k).internalMsg.service ∧
      (s'.spm.conn k).internalMsg.rid = (s.spm.conn k).internalMsg.rid)
    (ha : ∀ v, s'.spm.asserted (c.db.service v).partition (c.db.service v).signal =
      s.spm.asserted (c.db.service v).partition (c.db.service v).signal)
    (hn : s'.spm.next = s.spm.next) (hq : s'.queue = s.queue) (hs : s'.sent = s.sent)
    (hg : s'.got = s.got) : QInv c s' := by
  refine ⟨?_, ?_, ?_, ?_, ?_, ?_, ?_⟩
  · rw [hm, hq]
    exact h.msgs
  · intro p e he
    rw [hq] at he
    obtain ⟨hsv, hr⟩ := h.entry p e he
    exact ⟨by rw [(hc e.chunk).1]; exact hsv, by rw [(hc e.chunk).2]; exact hr⟩
  · intro v
    rw [ha, hq]
    exact h.asserted v
  · rw [hs, hg, hq]
    exact h.order
  · rw [hs, hn]
    exact h.fresh
  · rw [hs]
    exact h.once
  · rw [hs]
    exact h.apart

/-- Setting or clearing a signal that is no service's. -/
theorem qinv_update {p : Fin nP} {signal : Nat} {b : Bool} (h : QInv c s)
    (hp : ∀ v, (c.db.service v).partition = p → (c.db.service v).signal ≠ signal) :
    QInv c { s with spm := { s.spm with
      asserted := Function.update s.spm.asserted p
        (Function.update (s.spm.asserted p) signal b) } } := by
  refine h.congr rfl (fun k => ⟨rfl, rfl⟩) (fun v => ?_) rfl rfl rfl rfl
  by_cases hv : (c.db.service v).partition = p
  · simp [hv, hp v hv]
  · simp [hv]

theorem eraseP_first {l₁ l₂ : List Entry} {e : Entry} {signal : Nat}
    (hno : ∀ x ∈ l₁, x.signal ≠ signal) (he : e.signal = signal) :
    (l₁ ++ e :: l₂).eraseP (fun e => e.signal == signal) = l₁ ++ l₂ := by
  rw [List.eraseP_append_right _ fun x hx => by simpa using hno x hx,
    List.eraseP_cons_of_pos (by simp [he])]

theorem taken_asserted (t : St nS nP) (p q : Fin nP) (signal b : Nat)
    (m : Links (Node (Fin nP))) (clear : Bool) (k : Chunk) :
    (taken t p signal m clear k).asserted q b =
      if clear = true ∧ q = p ∧ b = signal then false else t.asserted q b := by
  cases clear with
  | false => simp [taken]
  | true =>
    by_cases hq : q = p
    · subst hq
      by_cases hb : b = signal <;> simp [taken, hb]
    · simp [taken, hq]

theorem ofSignal_log_nil {signal : Nat} {l : List Entry} (h : ∀ x ∈ l, x.signal ≠ signal) :
    ofSignal signal (l.map Entry.log) = [] := by
  refine List.filter_eq_nil_iff.2 fun x hx => ?_
  obtain ⟨e, he, rfl⟩ := List.mem_map.1 hx
  simpa [Entry.log] using h e he

/-- Taking the first entry with the signal. -/
theorem qinv_taken {p : Fin nP} {signal : Nat} {l₁ l₂ : List Entry} {e : Entry} (h : QInv c s)
    (hq : s.queue p = l₁ ++ e :: l₂) (hno : ∀ x ∈ l₁, x.signal ≠ signal)
    (he : e.signal = signal) :
    QInv c { s with
      spm := taken s.spm p signal (removeNode s.spm.msgs (.chunk e.chunk))
        (l₂.all fun x => x.signal != signal) e.chunk
      queue := Function.update s.queue p (l₁ ++ l₂)
      got := Function.update s.got p (s.got p ++ [(signal, e.rid)]) } := by
  have hsub : ∀ q, ∀ x ∈ Function.update s.queue p (l₁ ++ l₂) q, x ∈ s.queue q := by
    intro q x hx
    by_cases hqp : q = p
    · subst hqp
      rw [Function.update_self, List.mem_append] at hx
      rw [hq, List.mem_append, List.mem_cons]
      exact hx.imp id .inr
    · rwa [Function.update_of_ne hqp] at hx
  refine ⟨?_, ?_, ?_, ?_, ?_, ?_, ?_⟩
  · have hs : chunks (s.queue p) = chunks l₁ ++ e.chunk :: chunks l₂ := by simp [hq, chunks]
    have hf := h.msgs.removeNode (map_split (Fin nP) hs)
    rwa [← List.map_append, show chunks l₁ ++ chunks l₂ = chunks (l₁ ++ l₂) by simp [chunks],
      map_chunks_update] at hf
  · intro q x hx
    obtain ⟨⟨v, hv, hvp, hvs⟩, hr⟩ := h.entry q x (hsub q x hx)
    have hm : ((taken s.spm p signal (removeNode s.spm.msgs (.chunk e.chunk))
        (l₂.all fun x => x.signal != signal) e.chunk).conn x.chunk).internalMsg =
        (s.spm.conn x.chunk).internalMsg := by
      simp only [taken, setConn_conn]
      split
      · rename_i hxe
        rw [hxe]
      · rfl
    exact ⟨⟨v, by rw [hm]; exact hv, hvp, hvs⟩, by rw [hm]; exact hr⟩
  · intro w
    dsimp only
    rw [taken_asserted]
    by_cases hp : (c.db.service w).partition = p
    · have hw := h.asserted w
      rw [hp] at hw ⊢
      rw [Function.update_self]
      by_cases hs : (c.db.service w).signal = signal
      · rw [hs] at hw ⊢
        have ha : s.spm.asserted p signal = true := hw.2 ⟨e, by simp [hq], he⟩
        rw [ha]
        simp only [List.all_eq_true, bne_iff_ne, ne_eq, and_true, List.mem_append]
        constructor
        · intro hall
          by_contra hc
          rw [if_pos fun x hx hxs => hc ⟨x, .inr hx, hxs⟩] at hall
          cases hall
        · intro hh
          obtain ⟨x, hx | hx, hxs⟩ := hh
          · exact absurd hxs (hno x hx)
          · rw [if_neg fun hall => hall x hx hxs]
      · simp only [hs, and_false, if_false, hw, hq, List.mem_append, List.mem_cons]
        constructor
        · intro hh
          obtain ⟨x, hx | rfl | hx, hxs⟩ := hh
          · exact ⟨x, .inl hx, hxs⟩
          · exact absurd (hxs.symm.trans he) hs
          · exact ⟨x, .inr hx, hxs⟩
        · intro hh
          obtain ⟨x, hx | hx, hxs⟩ := hh
          · exact ⟨x, .inl hx, hxs⟩
          · exact ⟨x, .inr (.inr hx), hxs⟩
    · rw [if_neg fun hc => hp hc.2.1, Function.update_of_ne hp]
      exact h.asserted w
  · intro q sg
    have ho := h.order q sg
    by_cases hqp : q = p
    · subst hqp
      simp only [Function.update_self, ofSignal_append, List.map_append]
      rw [ho, hq, List.map_append, ofSignal_append, List.map_cons, ← List.singleton_append,
        ofSignal_append]
      by_cases hs : sg = signal
      · subst hs
        rw [ofSignal_log_nil hno]
        simp [Entry.log, he]
      · have hlog : ofSignal sg [e.log] = [] := by
          simp [ofSignal, Entry.log, he, Ne.symm hs]
        have hnew : ofSignal sg [(signal, e.rid)] = [] := by
          simp [ofSignal, Ne.symm hs]
        rw [hlog, hnew, List.nil_append, List.append_nil]
    · simpa [hqp] using ho
  · exact h.fresh
  · exact h.once
  · exact h.apart

theorem qinv_get {p : Fin nP} {signal : Nat} {bufOk : Bool} {s' : QSt nS nP} (h : QInv c s)
    (hs : qstep c s (.get p signal bufOk) = some s') : QInv c s' := by
  unfold qstep at hs
  split at hs
  · cases hs
  cases hok : bufOk && s.spm.asserted p signal with
  | false =>
    have hget : psaGet c.db s.spm p signal bufOk = some ({ s.spm with panicked := true }, none) := by
      have hor : (!bufOk || !s.spm.asserted p signal) = true := by
        rw [← Bool.not_and, hok]
        rfl
      unfold psaGet
      rw [if_pos hor]
    simp only [hget, hok, Option.map_some, Option.some.injEq, Bool.false_eq_true, if_false] at hs
    subst hs
    exact h.congr rfl (fun _ => ⟨rfl, rfl⟩) (fun _ => rfl) rfl rfl rfl rfl
  | true =>
    obtain ⟨hb, ha⟩ := Bool.and_eq_true_iff.1 hok
    subst hb
    rcases psaGet_spec h p ha with ⟨hno, b, hget⟩ | ⟨l₁, e, l₂, hq, hno, he, hget⟩
    · have herase : (s.queue p).eraseP (fun e => e.signal == signal) = s.queue p :=
        List.eraseP_of_forall_not fun x hx => by simpa using hno x hx
      simp only [hget, hok, Option.map_some, Option.some.injEq, if_true, herase,
        Function.update_eq_self] at hs
      subst hs
      cases b with
      | false => exact h.congr rfl (fun _ => ⟨rfl, rfl⟩) (fun _ => rfl) rfl rfl rfl rfl
      | true =>
        refine qinv_update h fun v hv hvs => ?_
        -- an asserted service signal has an entry
        obtain ⟨x, hx, hxs⟩ := (h.asserted v).1 (by rw [hv, hvs]; exact ha)
        rw [hv] at hx
        exact hno x hx (hxs.trans hvs)
    · have hr := (h.entry p e (by simp [hq])).rid
      simp only [hget, hok, Option.map_some, Option.some.injEq, if_true, hr] at hs
      subst hs
      rw [hq, eraseP_first hno he]
      exact qinv_taken h hq hno he

theorem qinv_signal {p : Fin nP} {signal : Nat} {b : Bool} (h : QInv c s)
    (hp : signal = psaDoorbell ∨ (p, signal) ∈ c.irqSignals) :
    QInv c { s with spm := { s.spm with
      asserted := Function.update s.spm.asserted p
        (Function.update (s.spm.asserted p) signal b) } } := by
  refine qinv_update h fun v hv hvs => ?_
  rcases hp with rfl | hi
  · exact (c.apart v).1 hvs
  · exact (c.apart v).2 (by rw [hv, hvs]; exact hi)

theorem qinv_clear {p : Fin nP} {signal : Nat} (h : QInv c s)
    (hp : signal = psaDoorbell ∨ (p, signal) ∈ c.irqSignals) :
    QInv c { s with spm := clearSignal s.spm p signal } := by
  unfold clearSignal
  split
  · exact qinv_signal h hp
  · exact h.congr rfl (fun _ => ⟨rfl, rfl⟩) (fun _ => rfl) rfl rfl rfl rfl

theorem qinv_other (h : QInv c s) (t : St nS nP) : QInv c { s with spm := others s.spm t } :=
  h.congr rfl (fun _ => ⟨rfl, rfl⟩) (fun _ => rfl) rfl rfl rfl rfl

theorem qinv_step {s' : QSt nS nP} {l : QLbl nS nP} (h : QInv c s) (hl : oneEach s l = true)
    (hs : qstep c s l = some s') : QInv c s' := by
  cases l with
  | send v k handle type clientId invec outvec callerOutvec cd o =>
    refine qinv_send h (fun p e he => ?_) hs
    simp only [oneEach, List.all_eq_true, bne_iff_ne, ne_eq] at hl
    exact hl p (List.mem_finRange p) e he
  | get p signal bufOk => exact qinv_get h hs
  | notify p =>
    unfold qstep at hs
    split at hs
    · cases hs
    · cases hs
      exact qinv_signal h (.inl rfl)
  | irq p signal =>
    unfold qstep at hs
    split at hs
    · cases hs
    · dsimp only at hs
      split at hs
      · rename_i hi
        cases hs
        exact qinv_signal h (.inr hi)
      · cases hs
  | clear p =>
    unfold qstep at hs
    split at hs
    · cases hs
    · cases hs
      exact qinv_clear h (.inl rfl)
  | eoi p signal =>
    unfold qstep at hs
    split at hs
    · cases hs
    · dsimp only at hs
      split at hs
      · rename_i hi
        cases hs
        exact qinv_clear h (.inr hi)
      · cases hs
        exact h.congr rfl (fun _ => ⟨rfl, rfl⟩) (fun _ => rfl) rfl rfl rfl rfl
  | other t =>
    unfold qstep at hs
    split at hs
    · cases hs
    · cases hs
      exact qinv_other h t

end Steps

/-! ## Runs -/

theorem qinv_init (c : SigDb nS nP) : QInv c (QSt.init nS nP) := by
  refine ⟨?_, ?_, ?_, ?_, ?_, ?_, ?_⟩
  · exact ⟨fun p => ⟨⟨rfl, rfl⟩, by simp [QSt.init, chunks]⟩, fun p q hpq y hy hy' => by
      simp only [QSt.init, chunks, List.map_nil, List.mem_singleton] at hy hy'
      rw [hy] at hy'
      cases hy'
      exact hpq rfl⟩
  all_goals simp [QSt.init, init, ofSignal]

theorem qinv_inductive (c : SigDb nS nP) :
    ((qlts c).restrict fun s l => oneEach s l = true).Inductive (QInv c) where
  init := by
    intro s hx
    subst hx
    exact qinv_init c
  step := fun s l s' h hs => qinv_step h hs.1 hs.2

/-- What `psa_get` of partition `p` does for the asserted signal of a service: the oldest
entry with the signal leaves the list, the others keep their order, the signal stays
asserted just while there is another one, and no other signal changes. -/
def GetsOldest (c : SigDb nS nP) (s : QSt nS nP) (p : Fin nP) (signal : Nat) : Prop :=
  ∃ l₁ e l₂ t, s.queue p = l₁ ++ e :: l₂ ∧ (∀ x ∈ l₁, x.signal ≠ signal) ∧ e.signal = signal ∧
    psaGet c.db s.spm p signal true = some (t, some (s.spm.conn e.chunk).internalMsg) ∧
    (s.spm.conn e.chunk).internalMsg.rid = e.rid ∧
    IsList t.msgs (.head p) ((chunks (l₁ ++ l₂)).map .chunk) ∧
    (∀ q, q ≠ p → IsList t.msgs (.head q) ((chunks (s.queue q)).map .chunk)) ∧
    (t.asserted p signal = true ↔ ∃ x ∈ l₁ ++ l₂, x.signal = signal) ∧
    ∀ q b, ¬ (q = p ∧ b = signal) → t.asserted q b = s.spm.asserted q b

structure Fifo (c : SigDb nS nP) (s : QSt nS nP) : Prop where
  /-- the pointer list of each partition is its queue -/
  list : ∀ p, IsList s.spm.msgs (.head p) ((chunks (s.queue p)).map .chunk)
  own : ∀ p, ∀ e ∈ s.queue p, e.Ok c s.spm.conn p
  asserted : ∀ v, s.spm.asserted (c.db.service v).partition (c.db.service v).signal = true ↔
    ∃ e ∈ s.queue (c.db.service v).partition, e.signal = (c.db.service v).signal
  get : ∀ v, s.spm.asserted (c.db.service v).partition (c.db.service v).signal = true →
    GetsOldest c s (c.db.service v).partition (c.db.service v).signal
  /-- for each signal, what was sent is what was taken and then what is queued -/
  order : ∀ p signal, ofSignal signal (s.sent p) =
    ofSignal signal (s.got p) ++ ofSignal signal ((s.queue p).map Entry.log)
  /-- no request is sent twice -/
  once : ∀ p, ((s.sent p).map Prod.snd).Nodup
  apart : ∀ p q, p ≠ q → ∀ x ∈ s.sent p, ∀ y ∈ s.sent q, x.2 ≠ y.2

theorem getsOldest_of_inv {c : SigDb nS nP} {s : QSt nS nP} (h : QInv c s) {v : Fin nS}
    (ha : s.spm.asserted (c.db.service v).partition (c.db.service v).signal = true) :
    GetsOldest c s (c.db.service v).partition (c.db.service v).signal := by
  obtain ⟨x, hx, hxs⟩ := (h.asserted v).1 ha
  rcases psaGet_spec h _ ha with ⟨hno, -⟩ | ⟨l₁, e, l₂, hq, hno, he, hget⟩
  · exact absurd hxs (hno x hx)
  · have ht := qinv_taken h hq hno he
    have hmem : e ∈ s.queue (c.db.service v).partition := by simp [hq]
    refine ⟨l₁, e, l₂, _, hq, hno, he, hget, (h.entry _ e hmem).rid, ?_, ?_, ?_, ?_⟩
    · have := ht.msgs.isList (c.db.service v).partition
      simpa only [Function.update_self] using this
    · intro q hne
      have := ht.msgs.isList q
      simpa only [Function.update_of_ne hne] using this
    · have := ht.asserted v
      simpa only [Function.update_self] using this
    · intro q b hne
      rw [taken_asserted, if_neg fun hc => hne hc.2]

/-- **Messages are delivered first-in first-out and the signal of a service is asserted
just while it has a message**, under any interleaving of sends, `psa_get` and other
signals in which no message is filled while it is in a list. -/
theorem fifo_reachable (c : SigDb nS nP) (s : QSt nS nP)
    (h : ((qlts c).restrict fun s l => oneEach s l = true).Reachable s) : Fifo c s := by
  have hi := (qinv_inductive c).reachable s h
  exact ⟨hi.msgs.isList, hi.entry, hi.asserted, fun v ha => getsOldest_of_inv hi ha, hi.order,
    hi.once, hi.apart⟩

/-- Two services of one partition, and an interrupt. -/
def twoServices : SigDb 2 1 where
  db :=
    { service := fun v => ⟨0x1000 + v.val, 0, 4 + v.val, true, true, 1, .strict⟩
      partition := fun _ => ⟨1, []⟩
      stateless := fun _ => none
      halMemoryHasAccess := fun _ => true }
  irqSignals := [(0, 31)]
  apart := by decide

/-- A message of client -1 for service `v` in chunk `k`. -/
def sendTo (v : Fin 2) (k : Chunk) : QLbl 2 1 := .send v k (toUserHandle k 1) 0 (-1) [] [] 0 none .call

/-- Three messages with other signals in between; the partition takes the first one. -/
def fifoTrace : List (QLbl 2 1) :=
  [sendTo 0 0, .irq 0 31, sendTo 1 1, .notify 0, sendTo 0 2, .get 0 4 true, .eoi 0 31]

theorem fifo_three : ∃ s : QSt 2 1, Fifo twoServices s ∧ s.queue 0 = [⟨1, 5, 1⟩, ⟨2, 4, 2⟩] ∧
    s.got 0 = [(4, 0)] ∧ s.spm.asserted 0 4 = true ∧ s.spm.asserted 0 3 = true ∧
    s.spm.asserted 0 31 = false := by
  have he : (LTS.execC oneEach (qstep twoServices) (QSt.init 2 1) fifoTrace).map
      (fun s => (s.queue 0, s.got 0, s.spm.asserted 0 4, s.spm.asserted 0 3, s.spm.asserted 0 31)) =
      some ([⟨1, 5, 1⟩, ⟨2, 4, 2⟩], [(4, 0)], true, true, false) := by decide +kernel
  obtain ⟨s, hs, hv⟩ := Option.map_eq_some_iff.1 he
  simp only [Prod.mk.injEq] at hv
  exact ⟨s, fifo_reachable twoServices s (LTS.reachable_execC (fun _ _ h => h) _ rfl hs), hv⟩

/-! ## The SPM's runs -/

/-- `q` is the SPM's state with a queue whose entries are queued messages. -/
structure Sim (s : St nS nP) (q : QSt nS nP) : Prop where
  spm : q.spm = s
  queued : ∀ p, ∀ e ∈ q.queue p, ∃ r, s.busy e.chunk = .queued r

section Simulation

variable {c : SigDb nS nP} {s s' : St nS nP} {q : QSt nS nP}

def ReachQ (c : SigDb nS nP) (q : QSt nS nP) : Prop :=
  ((qlts c).restrict fun s l => oneEach s l = true).Reachable q

theorem others_eq (hm : s'.msgs = s.msgs) (ha : s'.asserted = s.asserted) (hn : s'.next = s.next)
    (hc : ∀ k, (s'.conn k).internalMsg.service = (s.conn k).internalMsg.service ∧
      (s'.conn k).internalMsg.rid = (s.conn k).internalMsg.rid) : others s s' = s' := by
  have hconn : (fun k => { s'.conn k with
      internalMsg := { (s'.conn k).internalMsg with
        service := (s.conn k).internalMsg.service, rid := (s.conn k).internalMsg.rid } }) =
      s'.conn := by
    funext k
    rw [← (hc k).1, ← (hc k).2]
  unfold others
  rw [hconn, ← hm, ← ha, ← hn]

theorem reachQ_other (hr : ReachQ c q) (hp : q.spm.panicked = false)
    (ho : others q.spm s' = s') : ReachQ c { q with spm := s' } := by
  refine LTS.Reachable.step (l := .other s') hr ⟨rfl, ?_⟩
  simp only [qlts, LTS.ofFn, qstep, hp, Bool.false_eq_true, if_false, ho]

theorem sim_other (h : Sim s q) (hr : ReachQ c q) (hp : s.panicked = false)
    (hm : s'.msgs = s.msgs) (ha : s'.asserted = s.asserted) (hn : s'.next = s.next)
    (hc : ∀ k, (s'.conn k).internalMsg.service = (s.conn k).internalMsg.service ∧
      (s'.conn k).internalMsg.rid = (s.conn k).internalMsg.rid)
    (hb : ∀ k r, s.busy k = .queued r → s'.busy k = .queued r) :
    ∃ q', ReachQ c q' ∧ Sim s' q' := by
  obtain ⟨rfl, hq⟩ := h
  refine ⟨_, reachQ_other hr hp (others_eq hm ha hn hc), rfl, fun p e he => ?_⟩
  obtain ⟨r, hr'⟩ := hq p e he
  exact ⟨r, hb _ r hr'⟩

theorem sim_send {v : Fin nS} {k : Chunk} {handle : UInt32} {type clientId : Int}
    {invec outvec : List Vec} {callerOutvec : Nat} {cd : Option Nat} {o : Origin} (h : Sim s q)
    (hr : ReachQ c q) (hp : s.panicked = false) (hk : s.busy k = .idle) :
    ∃ q', ReachQ c q' ∧ Sim (sendEvent c.db (fillMsg s k v handle type clientId invec outvec
      callerOutvec cd o) v k) q' := by
  obtain ⟨rfl, hq⟩ := h
  have hne : ∀ p, ∀ e ∈ q.queue p, e.chunk ≠ k := by
    intro p e he hx
    subst hx
    obtain ⟨r, hb⟩ := hq p e he
    rw [hk] at hb
    cases hb
  have hone : oneEach q (.send v k handle type clientId invec outvec callerOutvec cd o) = true := by
    simp only [oneEach, List.all_eq_true, bne_iff_ne]
    exact fun p _ e he => hne p e he
  have hstep : qstep c q (.send v k handle type clientId invec outvec callerOutvec cd o) = some
      { spm := sendEvent c.db (fillMsg q.spm k v handle type clientId invec outvec callerOutvec cd
          o) v k
        queue := Function.update q.queue (c.db.service v).partition
          (q.queue (c.db.service v).partition ++ [⟨k, (c.db.service v).signal, q.spm.next⟩])
        sent := Function.update q.sent (c.db.service v).partition
          (q.sent (c.db.service v).partition ++ [((c.db.service v).signal, q.spm.next)])
        got := q.got } := by
    simp only [qstep, hp, Bool.false_eq_true, if_false]
    rfl
  refine ⟨_, LTS.Reachable.step hr ⟨hone, hstep⟩, rfl, fun p e he => ?_⟩
  rcases mem_snoc.1 he with he | ⟨-, rfl⟩
  · obtain ⟨r, hb⟩ := hq p e he
    exact ⟨r, by simpa [sendEvent, fillMsg, hne p e he] using hb⟩
  · exact ⟨q.spm.next, by simp [sendEvent, fillMsg]⟩

/-- A chunk is in one list, and once. -/
theorem chunk_once (h : QInv c q) {p p' : Fin nP} {l₁ l₂ : List Entry} {e x : Entry}
    (hq : q.queue p = l₁ ++ e :: l₂)
    (hx : x ∈ Function.update q.queue p (l₁ ++ l₂) p') : x ∈ q.queue p' ∧ x.chunk ≠ e.chunk := by
  by_cases hp : p' = p
  · subst hp
    rw [Function.update_self] at hx
    have hnd := (h.msgs.isList p').nodup
    rw [List.nodup_cons, hq] at hnd
    have hmid : (chunks l₁ ++ e.chunk :: chunks l₂).Nodup := by simpa [chunks] using hnd.2.of_map
    have hnot := (List.nodup_cons.1 (List.nodup_middle.1 hmid)).1
    refine ⟨by rw [hq]; simp only [List.mem_append, List.mem_cons] at hx ⊢; tauto, fun he => ?_⟩
    refine hnot ?_
    have hmem : x.chunk ∈ chunks (l₁ ++ l₂) := List.mem_map_of_mem hx
    rwa [he, chunks, List.map_append] at hmem
  · rw [Function.update_of_ne hp] at hx
    refine ⟨hx, fun he => ?_⟩
    have hmem : e ∈ q.queue p := by simp [hq]
    have hdis := h.msgs.disj p' p hp (.chunk x.chunk)
      (List.mem_cons_of_mem _ (List.mem_map_of_mem (List.mem_map_of_mem hx)))
    rw [he] at hdis
    exact hdis (List.mem_cons_of_mem _ (List.mem_map_of_mem (List.mem_map_of_mem hmem)))

theorem sim_taken {p : Fin nP} {signal : Nat} {m : Msg nS} (h : Sim s q) (hr : ReachQ c q)
    (hp : s.panicked = false) (ha : s.asserted p signal = true)
    (hget : psaGet c.db s p signal true = some (s', some m)) :
    ∃ q', ReachQ c q' ∧ Sim s' q' := by
  obtain ⟨rfl, hqueued⟩ := h
  have hi := (qinv_inductive c).reachable q hr
  rcases psaGet_spec hi p ha with ⟨-, b, hno⟩ | ⟨l₁, e, l₂, hq, hno, he, hget'⟩
  · rw [hget] at hno
    cases hno
  have hstep : qstep c q (.get p signal true) = some
      { q with
        spm := s'
        queue := Function.update q.queue p (l₁ ++ l₂)
        got := Function.update q.got p (q.got p ++ [(signal, m.rid)]) } := by
    simp only [qstep, hp, hget, ha, Bool.and_self, Bool.false_eq_true, if_false, if_true,
      Option.map_some, hq, eraseP_first hno he]
  rw [hget] at hget'
  cases hget'
  refine ⟨_, LTS.Reachable.step hr ⟨rfl, hstep⟩, rfl, fun p' x hx => ?_⟩
  obtain ⟨hmem, hne⟩ := chunk_once hi hq hx
  obtain ⟨r, hb⟩ := hqueued p' x hmem
  exact ⟨r, by simpa [taken, hne] using hb⟩

theorem sim_getNone {p : Fin nP} {signal : Nat} (h : Sim s q) (hr : ReachQ c q)
    (hp : s.panicked = false) (ha : s.asserted p signal = true)
    (hget : psaGet c.db s p signal true = some (s', none)) :
    ∃ q', ReachQ c q' ∧ Sim s' q' := by
  obtain ⟨rfl, hqueued⟩ := h
  have hi := (qinv_inductive c).reachable q hr
  rcases psaGet_spec hi p ha with ⟨hno, b, hget'⟩ | ⟨l₁, e, l₂, -, -, -, hget'⟩
  · have herase : (q.queue p).eraseP (fun e => e.signal == signal) = q.queue p :=
      List.eraseP_of_forall_not fun x hx => by simpa using hno x hx
    have hstep : qstep c q (.get p signal true) = some { q with spm := s' } := by
      simp only [qstep, hp, hget, ha, Bool.and_self, Bool.false_eq_true, if_false, if_true,
        Option.map_some, herase, Function.update_eq_self]
    rw [hget] at hget'
    cases hget'
    exact ⟨_, LTS.Reachable.step hr ⟨rfl, hstep⟩, rfl, hqueued⟩
  · rw [hget] at hget'
    cases hget'

theorem create_panicked {s₁ : St nS nP} {v : Fin nS} {cl : Int} {k : Chunk} (hi : Inv c.db s)
    (hn : createConnHandle s v cl = some (k, s₁)) : s₁.panicked = s.panicked := by
  obtain ⟨⟨free, hl, hpool⟩, -, -⟩ := hi
  obtain ⟨free', rfl, rfl⟩ := createConnHandle_some hpool hn
  rfl

theorem sim_create {s₁ : St nS nP} {v : Fin nS} {cl : Int} {k : Chunk} {i : Nat}
    (hi : Inv c.db s) (h : Sim s q) (hr : ReachQ c q) (hp : s.panicked = false)
    (hn : createConnHandle s v cl = some (k, s₁)) :
    ∃ q', ReachQ c q' ∧ Sim { s₁ with loopIndex := i } q' := by
  obtain ⟨⟨free, hl, hpool⟩, -, -⟩ := hi
  obtain ⟨free', rfl, rfl⟩ := createConnHandle_some hpool hn
  refine sim_other h hr hp rfl rfl rfl (fun x => ?_) fun _ _ hb => hb
  by_cases hx : x = k
  · subst hx
    simp
  · simp [hx]

theorem sim_stateless {s₁ : St nS nP} {v : Fin nS} {cl : Int} {k : Chunk}
    (hi : Inv c.db s) (h : Sim s q) (hr : ReachQ c q) (hp : s.panicked = false)
    (hn : createConnHandle s v cl = some (k, s₁)) :
    ∃ q', ReachQ c q' ∧ Sim (statelessConn s₁ k) q' := by
  obtain ⟨⟨free, hl, hpool⟩, -, -⟩ := hi
  obtain ⟨free', rfl, rfl⟩ := createConnHandle_some hpool hn
  refine sim_other h hr hp rfl rfl rfl (fun x => ?_) fun _ _ hb => hb
  by_cases hx : x = k
  · subst hx
    simp [statelessConn, setConn_conn]
  · simp [statelessConn, setConn_conn, hx]

theorem step_running {db : Db nS nP} {s s' : St nS nP} {l : Lbl nP}
    (h : step db s l = some s') : s.panicked = false := by
  unfold step at h
  split at h
  · cases h
  · rename_i hp
    simpa using hp

/-- Every step of the SPM under which a connection has one message at a time is a run of
steps on the queues. -/
theorem sim_trans {l : Lbl nP} (hi : Inv c.db s) (h : Sim s q) (hr : ReachQ c q)
    (hp : s.panicked = false) (hx : exclusive c.db s l = true) (ht : Trans c.db s l s') :
    ∃ q', ReachQ c q' ∧ Sim s' q' := by
  cases ht with
  | stay l b => exact sim_other h hr hp rfl rfl rfl (fun _ => ⟨rfl, rfl⟩) fun _ _ hb => hb
  | connect hb hn =>
    obtain ⟨q', hr', hs'⟩ := sim_create hi h hr hp hn
    exact sim_send hs' hr' ((create_panicked hi hn).trans hp) (inv_create hi hn).2.2.1
  | call hq hvet hs hk hst hv =>
    obtain ⟨-, hidle⟩ := exclusive_target hx (call_target hq hvet hs hk hst hv)
    exact sim_send h hr hp hidle
  | callStatic hq hvet hok hs hn =>
    obtain ⟨q', hr', hs'⟩ := sim_stateless hi h hr hp hn
    exact sim_send hs' hr' ((create_panicked hi hn).trans hp) (inv_create hi hn).2.2.1
  | leak b hl hn =>
    obtain ⟨q', hr', hs'⟩ := sim_stateless hi h hr hp hn
    exact sim_other hs' hr' ((create_panicked hi hn).trans hp) rfl rfl rfl (fun _ => ⟨rfl, rfl⟩)
      fun _ _ hb => hb
  | close hs hk hst hv =>
    obtain ⟨-, hidle⟩ := exclusive_target hx (close_target hs hk hst hv)
    obtain ⟨q', hr', hs'⟩ := sim_send h hr hp hidle
    exact sim_other hs' hr' hp rfl rfl rfl (fun _ => ⟨rfl, rfl⟩) fun _ _ hb => hb
  | @get p signal ok clear m k ha hne hf =>
    refine sim_taken (m := (s.conn k).internalMsg) h hr hp ha ?_
    simp only [psaGet, ha, hne, hf, Bool.not_true, Bool.or_self, Bool.false_eq_true, if_false]
    rfl
  | getNone ha hne hf =>
    refine sim_getNone h hr hp ha ?_
    simp only [psaGet, ha, hne, hf, Bool.not_true, Bool.or_self, Bool.false_eq_true, if_false]
  | @reply p hd st ret k v s₁ hg hrep =>
    obtain ⟨r, hd⟩ := exclusive_reply hx hg
    have hqueued : ∀ x r', s.busy x = .queued r' → (replied s s₁ k ret).busy x = .queued r' := by
      intro x r' hb
      have hxk : x ≠ k := by
        intro he
        subst he
        rw [hd] at hb
        cases hb
      simpa [replied, hxk] using hb
    have hmsg : ∀ x, ((replied s s₁ k ret).conn x).internalMsg = (s₁.conn x).internalMsg := by
      intro x
      simp only [replied, setConn_conn]
      split
      · rename_i hxk
        rw [hxk]
      · rfl
    rcases replyByType_kept hrep with ⟨g, rfl⟩ | rfl
    · exact sim_other h hr hp rfl rfl rfl (fun x => by rw [hmsg]; exact ⟨rfl, rfl⟩) hqueued
    · refine sim_other h hr hp rfl rfl rfl (fun x => ?_) hqueued
      rw [hmsg]
      by_cases hxk : x = k
      · subst hxk
        simp [freeConnHandle, setConn_conn]
      · simp [freeConnHandle, setConn_conn, hxk]

end Simulation

/-- **The runs of the SPM in which a connection has one message at a time are runs of the
queues**, so that what `fifo_reachable` says holds in them. -/
theorem queue_simulates (c : SigDb nS nP) (s : St nS nP)
    (h : ((lts c.db).restrict fun s l => exclusive c.db s l = true).Reachable s) :
    ∃ q, ReachQ c q ∧ Sim s q := by
  induction h with
  | init hs =>
    cases hs
    exact ⟨QSt.init nS nP, .init rfl, rfl, fun p e he => by cases he⟩
  | step hr hs ih =>
    obtain ⟨q, hq, hsim⟩ := ih
    have hp := step_running hs.2
    exact sim_trans (inv_reachable c.db _ hr) hsim hq hp hs.1 (step_trans hs.2)

end Tfm.L4.Spm
