import Mathlib.Data.Finset.Card
import Mathlib.Data.Fintype.Basic
import Mathlib.Data.List.Nodup
import Tfm.L4Service.PsaProxy

/-!
# PSA proxy: connections and forward handles

What the connections of the proxy's clients and the cells of its pool have to do
with each other (secure_fw/partitions/psa_proxy/psa_proxy.c).

A connect whose mailbox call fails leaves `PSA_NULL_HANDLE` in the cell, which
is `PSA_SUCCESS` when it becomes the status of the reply; any other status but
the two refusals makes `psa_reply` panic.

Results:
* `connections_agree`: as long as no connect of these kinds is served, every
  open connection has a cell of its own with the enclave's handle in it, the
  cells in use are as many as the open connections, and a call or a disconnect
  reads the cell of its connection; the next connect is answered properly
  exactly if it is of none of these kinds.
* `pool_suffices`: a pool as large as the number of connections is never empty
  for a connect.
-/
namespace Tfm.L4.PsaProxy
open Spm (ipcCall ipcConnect ipcDisconnect psaSuccess psaErrorConnectionRefused
  psaErrorConnectionBusy psaErrorProgrammerError)

variable {nCell nConn : Nat} {s s' : St nCell nConn} {signal : Signal} {m : Msg nCell nConn}
  {o : Outcome}

/-! ## Connections -/

/-- A connection the enclave has a handle for. -/
def Live (s : St nCell nConn) (k : Fin nConn) : Prop :=
  (s.conn k).stage = .opened ∨ (s.conn k).stage = .closing

instance (s : St nCell nConn) (k : Fin nConn) : Decidable (Live s k) := by
  unfold Live
  infer_instance

/-- A message matches the state of its connection. -/
structure MsgOk (s : St nCell nConn) (m : Msg nCell nConn) : Prop where
  pending : (s.conn m.conn).pending = true
  type : m.type = ipcConnect ∨ m.type = ipcDisconnect ∨ ipcCall ≤ m.type
  connect : m.type = ipcConnect → (s.conn m.conn).stage = .connecting
  disconnect : m.type = ipcDisconnect →
    (s.conn m.conn).stage = .closing ∧ m.rhandle = (s.conn m.conn).rhandle
  call : ipcCall ≤ m.type → (s.conn m.conn).stage = .opened ∧ m.rhandle = (s.conn m.conn).rhandle

/-- The forward handles and the connections. -/
structure HandlesOk (s : St nCell nConn) : Prop where
  nodup : s.free.Nodup
  /-- a live connection has a cell, with the enclave's handle in it -/
  live : ∀ k, Live s k → ∃ c, (s.conn k).rhandle = some c ∧ c ∉ s.free ∧
    s.cell c = s.enclave k ∧ 0 < s.enclave k
  inj : ∀ k k', Live s k → Live s k' → (s.conn k).rhandle = (s.conn k').rhandle → k = k'
  /-- an allocated cell has a live connection -/
  used : ∀ c, c ∉ s.free → ∃ k, Live s k ∧ (s.conn k).rhandle = some c

structure ConnInv (s : St nCell nConn) : Prop extends HandlesOk s where
  msg : ∀ m ∈ s.messages, MsgOk s m
  one : (s.messages.map Msg.conn).Nodup

theorem connInv_init : ConnInv (init nCell nConn) where
  nodup := List.nodup_finRange nCell
  live := by simp [Live, init]
  inj := by simp [Live, init]
  used := fun c hc => absurd (List.mem_finRange c) hc
  msg := by simp [St.messages, init]
  one := by simp [St.messages, init]

theorem MsgOk.congr {s t : St nCell nConn} (h : MsgOk s m) (hc : t.conn m.conn = s.conn m.conn) :
    MsgOk t m :=
  ⟨hc ▸ h.pending, h.type, hc ▸ h.connect, hc ▸ h.disconnect, hc ▸ h.call⟩

/-- A change that keeps the pool, the cells and which connections are live. -/
theorem HandlesOk.congr {t : St nCell nConn} (h : HandlesOk s) (hf : t.free = s.free)
    (hc : t.cell = s.cell) (he : t.enclave = s.enclave) (hl : ∀ k, Live t k ↔ Live s k)
    (hr : ∀ k, (t.conn k).rhandle = (s.conn k).rhandle) : HandlesOk t := by
  constructor
  · exact hf ▸ h.nodup
  · intro k hk
    rw [hr k, hf, hc, he]
    exact h.live k ((hl k).1 hk)
  · intro i k hi hk
    rw [hr i, hr k]
    exact h.inj i k ((hl i).1 hi) ((hl k).1 hk)
  · intro c hcf
    rw [hf] at hcf
    obtain ⟨k, hk, hkr⟩ := h.used c hcf
    exact ⟨k, (hl k).2 hk, (hr k).trans hkr⟩

/-- Sending a message for a connection that has none, on a state that differs
from `s` in the stage of that connection at most. -/
theorem connInv_send {k : Fin nConn} {f : Conn nCell → Conn nCell} {type : Int}
    (h : ConnInv s) (hk : ∀ m ∈ s.messages, m.conn ≠ k)
    (hr : (f (s.conn k)).rhandle = (s.conn k).rhandle)
    (hl : Live (s.setConn k f) k ↔ Live s k)
    (ht : type = ipcConnect ∧ (f (s.conn k)).stage = .connecting ∨
      type = ipcDisconnect ∧ (f (s.conn k)).stage = .closing ∨
      ipcCall ≤ type ∧ (f (s.conn k)).stage = .opened) :
    ConnInv (send (s.setConn k f) k type) := by
  have hself : (send (s.setConn k f) k type).conn k = { f (s.conn k) with pending := true } := by
    simp [send, St.setConn]
  have hother : ∀ j, j ≠ k → (send (s.setConn k f) k type).conn j = s.conn j := by
    intro j hj
    simp [send, St.setConn, Function.update_of_ne hj]
  have hlive : ∀ j, Live (send (s.setConn k f) k type) j ↔ Live s j := by
    intro j
    by_cases hj : j = k
    · subst hj
      have hset : (s.setConn j f).conn j = f (s.conn j) := Function.update_self ..
      rw [← hl]
      unfold Live
      rw [hself, hset]
    · unfold Live
      rw [hother j hj]
  have hrh : ∀ j, ((send (s.setConn k f) k type).conn j).rhandle = (s.conn j).rhandle := by
    intro j
    by_cases hj : j = k
    · subst hj
      rw [hself]
      exact hr
    · rw [hother j hj]
  have hmsgs : (send (s.setConn k f) k type).messages = s.messages ++
      [⟨type, k, (f (s.conn k)).client, (f (s.conn k)).service, (f (s.conn k)).rhandle, s.next⟩] := by
    have hpc : (send (s.setConn k f) k type).pc = s.pc := rfl
    unfold St.messages
    rw [hpc]
    cases s.pc <;> simp [send, St.setConn]
  refine ⟨h.toHandlesOk.congr rfl rfl rfl hlive hrh, ?_, ?_⟩
  · intro m hm
    rw [hmsgs, List.mem_append, List.mem_singleton] at hm
    obtain hm | hm := hm
    · exact (h.msg m hm).congr (hother m.conn (hk m hm))
    · subst hm
      constructor
      · simp [hself]
      · exact ht.imp (·.1) (Or.imp (·.1) (·.1))
      · intro hty
        simp only [hself]
        obtain ⟨_, hst⟩ | ⟨hty', _⟩ | ⟨hty', _⟩ := ht
        · exact hst
        · exact absurd (hty'.symm.trans hty) (by decide)
        · exact absurd (hty ▸ hty' : ipcCall ≤ ipcConnect) (by decide)
      · intro hty
        simp only [hself]
        obtain ⟨hty', _⟩ | ⟨_, hst⟩ | ⟨hty', _⟩ := ht
        · exact absurd (hty'.symm.trans hty) (by decide)
        · exact ⟨hst, trivial⟩
        · exact absurd (hty ▸ hty' : ipcCall ≤ ipcDisconnect) (by decide)
      · intro hty
        simp only [hself]
        obtain ⟨hty', _⟩ | ⟨hty', _⟩ | ⟨_, hst⟩ := ht
        · exact absurd (hty' ▸ hty : ipcCall ≤ ipcConnect) (by decide)
        · exact absurd (hty' ▸ hty : ipcCall ≤ ipcDisconnect) (by decide)
        · exact ⟨hst, trivial⟩
  · rw [hmsgs, List.map_append, List.map_singleton]
    refine List.nodup_append.2 ⟨h.one, List.nodup_singleton k, ?_⟩
    intro a ha b hb
    obtain ⟨m, hm, hma⟩ := List.mem_map.1 ha
    rw [List.mem_singleton.1 hb, ← hma]
    exact hk m hm

/-! ### The messages under way -/

/-- The message served is answered: the others keep theirs. -/
theorem connInv_answered {t : St nCell nConn} (h : ConnInv s) (hpc : s.pc = .serve signal m)
    (hlist : t.msgList = s.msgList) (hwait : t.pc = .wait)
    (hconn : ∀ k, k ≠ m.conn → t.conn k = s.conn k) (ht : HandlesOk t) : ConnInv t := by
  have hone := h.one
  have hmsg := h.msg
  rw [messages_serve hpc] at hone hmsg
  rw [List.map_cons, List.nodup_cons] at hone
  have hidle : t.messages = s.msgList := by
    rw [messages_idle (by simp [hwait]), hlist]
  refine ⟨ht, fun x hx => ?_, ?_⟩
  · rw [hidle] at hx
    have hne : x.conn ≠ m.conn := fun he => hone.1 (List.mem_map.2 ⟨x, hx, he⟩)
    exact (hmsg x (List.mem_cons_of_mem _ hx)).congr (hconn _ hne)
  · rw [hidle]
    exact hone.2

/-! ### What the answers do to the handles -/

/-- The answer to a message leaves every other connection as it was. -/
theorem psaReply_some {t : St nCell nConn} {status : Int} (h : psaReply s m status = some t) :
    ∃ stage error, t = { s.setConn m.conn (fun c =>
        { c with stage := stage, connectError := error, pending := false }) with
      pc := .wait
      answered := m.rid :: s.answered } ∧
      (m.type = ipcConnect → connectReply status = some stage) ∧
      (m.type ≠ ipcConnect → m.type = ipcDisconnect → stage = .free) ∧
      (m.type ≠ ipcConnect → m.type ≠ ipcDisconnect → stage = .opened) := by
  unfold psaReply at h
  dsimp only at h
  split at h
  · next hty =>
    split at h
    · next stage hst =>
      exact ⟨stage, false, (Option.some.inj h).symm, fun _ => hst, fun hn => absurd hty hn,
        fun hn => absurd hty hn⟩
    · cases h
  next hty =>
  split at h
  · next hd =>
    exact ⟨.free, false, (Option.some.inj h).symm, fun hc => absurd hc hty, fun _ _ => rfl,
      fun _ hn => absurd hd hn⟩
  next hd =>
  split at h
  · split at h
    · exact ⟨.opened, true, (Option.some.inj h).symm, fun hc => absurd hc hty,
        fun _ hc => absurd hc hd, fun _ _ => rfl⟩
    · cases h
  · exact ⟨.opened, false, (Option.some.inj h).symm, fun hc => absurd hc hty,
      fun _ hc => absurd hc hd, fun _ _ => rfl⟩

theorem live_congr {t : St nCell nConn} {j : Fin nConn} (hj : t.conn j = s.conn j) :
    Live t j ↔ Live s j := by
  unfold Live
  rw [hj]

/-- A connection becomes live: it gets the first free cell. -/
theorem handlesOk_accept {t : St nCell nConn} {k : Fin nConn} {c : Fin nCell}
    {rest : List (Fin nCell)} {v : Int} (h : HandlesOk s) (hfree : s.free = c :: rest)
    (hk : ¬ Live s k) (hv : 0 < v) (htf : t.free = rest)
    (htc : t.cell = Function.update s.cell c v) (hte : t.enclave = Function.update s.enclave k v)
    (hlk : Live t k) (htk : (t.conn k).rhandle = some c) (hother : ∀ j, j ≠ k → t.conn j = s.conn j) :
    HandlesOk t := by
  have hnodup := h.nodup
  rw [hfree, List.nodup_cons] at hnodup
  have hold : ∀ j, j ≠ k → Live t j → ∃ d, (t.conn j).rhandle = some d ∧ d ∉ s.free ∧ d ≠ c ∧
      s.cell d = s.enclave j ∧ 0 < s.enclave j := by
    intro j hj hl
    obtain ⟨d, hd, hdf, hde, hdp⟩ := h.live j ((live_congr (hother j hj)).1 hl)
    refine ⟨d, by rw [hother j hj]; exact hd, hdf, ?_, hde, hdp⟩
    intro he
    exact hdf (by simp [hfree, he])
  constructor
  · exact htf ▸ hnodup.2
  · intro j hl
    rw [htf, htc, hte]
    by_cases hj : j = k
    · subst hj
      refine ⟨c, htk, hnodup.1, ?_⟩
      simp [hv]
    · obtain ⟨d, hd, hdf, hdc, hde, hdp⟩ := hold j hj hl
      refine ⟨d, hd, fun hm => hdf (by simp [hfree, hm]), ?_⟩
      rw [Function.update_of_ne hdc, Function.update_of_ne hj]
      exact ⟨hde, hdp⟩
  · intro i j hi hj heq
    by_cases hik : i = k
    · by_cases hjk : j = k
      · exact hik.trans hjk.symm
      · subst hik
        obtain ⟨d, hd, _, hdc, _⟩ := hold j hjk hj
        rw [htk, hd, Option.some.injEq] at heq
        exact absurd heq.symm hdc
    · by_cases hjk : j = k
      · subst hjk
        obtain ⟨d, hd, _, hdc, _⟩ := hold i hik hi
        rw [htk, hd, Option.some.injEq] at heq
        exact absurd heq hdc
      · rw [hother i hik, hother j hjk] at heq
        exact h.inj i j ((live_congr (hother i hik)).1 hi) ((live_congr (hother j hjk)).1 hj) heq
  · intro d hd
    rw [htf] at hd
    by_cases hdc : d = c
    · exact ⟨k, hlk, hdc ▸ htk⟩
    · obtain ⟨j, hj, hjr⟩ := h.used d (by simp [hfree, hdc, hd])
      have hjk : j ≠ k := fun he => hk (he ▸ hj)
      exact ⟨j, (live_congr (hother j hjk)).2 hj, by rw [hother j hjk]; exact hjr⟩

/-- A connect that opens nothing puts the cell back. -/
theorem handlesOk_refuse {t : St nCell nConn} {k : Fin nConn} {c : Fin nCell}
    {rest : List (Fin nCell)} {v : Int} (h : HandlesOk s) (hfree : s.free = c :: rest)
    (hk : ¬ Live s k) (htf : t.free = rest ++ [c]) (htc : t.cell = Function.update s.cell c v)
    (hte : t.enclave = s.enclave) (htk : ¬ Live t k) (hother : ∀ j, j ≠ k → t.conn j = s.conn j) :
    HandlesOk t := by
  have hmem : ∀ d, d ∈ t.free ↔ d ∈ s.free := by
    intro d
    simp [htf, hfree, or_comm]
  have hlive : ∀ j, Live t j ↔ Live s j := by
    intro j
    by_cases hj : j = k
    · subst hj
      exact iff_of_false htk hk
    · exact live_congr (hother j hj)
  have hne : ∀ j, Live s j → j ≠ k := fun j hj he => hk (he ▸ hj)
  constructor
  · have hnodup := h.nodup
    rw [hfree] at hnodup
    rw [htf]
    exact List.nodup_append_comm.1 hnodup
  · intro j hl
    have hj := (hlive j).1 hl
    obtain ⟨d, hd, hdf, hde⟩ := h.live j hj
    have hdc : d ≠ c := fun he => hdf (by simp [hfree, he])
    rw [hother j (hne j hj), hte, htc]
    refine ⟨d, hd, fun hm => hdf ((hmem d).1 hm), ?_⟩
    rw [Function.update_of_ne hdc]
    exact hde
  · intro i j hi hj heq
    have hi' := (hlive i).1 hi
    have hj' := (hlive j).1 hj
    rw [hother i (hne i hi'), hother j (hne j hj')] at heq
    exact h.inj i j hi' hj' heq
  · intro d hd
    obtain ⟨j, hj, hjr⟩ := h.used d fun hm => hd ((hmem d).2 hm)
    exact ⟨j, (hlive j).2 hj, by rw [hother j (hne j hj)]; exact hjr⟩

/-- A connection ends and its cell goes back. -/
theorem handlesOk_release {t : St nCell nConn} {k : Fin nConn} {c : Fin nCell} (h : HandlesOk s)
    (hk : Live s k) (hkr : (s.conn k).rhandle = some c) (htf : t.free = s.free ++ [c])
    (htc : t.cell = s.cell) (hte : t.enclave = s.enclave) (htk : ¬ Live t k)
    (hother : ∀ j, j ≠ k → t.conn j = s.conn j) : HandlesOk t := by
  have hcf : c ∉ s.free := by
    obtain ⟨d, hd, hdf, _⟩ := h.live k hk
    rw [hkr, Option.some.injEq] at hd
    exact hd ▸ hdf
  have hold : ∀ j, Live t j → j ≠ k ∧ Live s j := by
    intro j hj
    have hjk : j ≠ k := fun he => htk (he ▸ hj)
    exact ⟨hjk, (live_congr (hother j hjk)).1 hj⟩
  constructor
  · rw [htf]
    refine List.nodup_append.2 ⟨h.nodup, List.nodup_singleton c, ?_⟩
    intro a ha b hb he
    rw [List.mem_singleton] at hb
    exact hcf (hb ▸ he ▸ ha)
  · intro j hl
    obtain ⟨hjk, hj⟩ := hold j hl
    obtain ⟨d, hd, hdf, hde⟩ := h.live j hj
    have hdc : d ≠ c := by
      intro he
      exact hjk (h.inj j k hj hk (by rw [hd, hkr, he]))
    rw [hother j hjk, htf, htc, hte]
    exact ⟨d, hd, by simp [hdf, hdc], hde⟩
  · intro i j hi hj heq
    obtain ⟨hik, hi'⟩ := hold i hi
    obtain ⟨hjk, hj'⟩ := hold j hj
    rw [hother i hik, hother j hjk] at heq
    exact h.inj i j hi' hj' heq
  · intro d hd
    rw [htf, List.mem_append, List.mem_singleton, not_or] at hd
    obtain ⟨j, hj, hjr⟩ := h.used d hd.1
    have hjk : j ≠ k := by
      intro he
      rw [he, hkr, Option.some.injEq] at hjr
      exact hd.2 hjr.symm
    exact ⟨j, (live_congr (hother j hjk)).2 hj, by rw [hother j hjk]; exact hjr⟩

/-! ### Steps -/

/-- The handle a connect ends with in its cell. -/
def Outcome.handle (o : Outcome) : Int := if o.mailbox then o.reply else psaNullHandle

theorem psaConnect_cases {status : Int} {t : St nCell nConn}
    (h : psaConnectToSecureEnclave s signal m o = some (status, t)) :
    (s.free = [] ∧ status = psaErrorInsufficientMemory ∧ t = s) ∨
    ∃ c rest, s.free = c :: rest ∧
      (0 < o.handle ∧ status = psaSuccess ∧
          t = { s.setConn m.conn (fun k => { k with rhandle := some c }) with
            free := rest
            cell := Function.update s.cell c o.handle
            enclave := Function.update s.enclave m.conn o.handle } ∨
        o.handle ≤ 0 ∧ status = o.handle ∧
          t = { s with free := rest ++ [c], cell := Function.update s.cell c o.handle }) := by
  unfold psaConnectToSecureEnclave allocateForwardHandle at h
  cases hfree : s.free with
  | nil =>
    simp only [hfree, Option.some.injEq, Prod.mk.injEq] at h
    exact .inl ⟨rfl, h.1.symm, h.2.symm⟩
  | cons c rest =>
    refine .inr ⟨c, rest, rfl, ?_⟩
    simp only [hfree] at h
    split at h
    · cases h
    · change (if 0 < o.handle then _ else _) = _ at h
      split at h
      · next hv =>
        simp only [Option.some.injEq, Prod.mk.injEq] at h
        exact .inl ⟨hv, h.1.symm, h.2.symm⟩
      · next hv =>
        simp only [deallocateForwardHandle, Option.some.injEq, Prod.mk.injEq] at h
        obtain ⟨hst, ht⟩ := h
        change Function.update s.cell c o.handle c = status at hst
        rw [Function.update_self] at hst
        exact .inr ⟨Int.not_lt.1 hv, hst.symm, ht.symm⟩

/-- A connect the proxy answers as it should: there is a free cell, the mailbox
call goes through, and the enclave answers with a handle or refuses with one of
the two statuses `psa_reply` takes. -/
def connectOk (s : St nCell nConn) (o : Outcome) : Bool :=
  !s.free.isEmpty && o.mailbox &&
    (decide (0 < o.reply) || o.reply == psaErrorConnectionRefused ||
      o.reply == psaErrorConnectionBusy)

/-- The connects served on the way are all of that kind. -/
def connectsOk (s : St nCell nConn) (l : Lbl nConn) : Bool :=
  match s.pc, l with
  | .serve _ m, .serve o => m.type != ipcConnect || connectOk s o
  | _, _ => true

theorem connectOk_iff : connectOk s o = true ↔ s.free ≠ [] ∧ o.mailbox = true ∧
    (0 < o.reply ∨ o.reply = psaErrorConnectionRefused ∨ o.reply = psaErrorConnectionBusy) := by
  simp [connectOk, or_assoc, and_assoc]

theorem MsgOk.stage_ne_free (h : MsgOk s m) : (s.conn m.conn).stage ≠ .free := by
  obtain hty | hty | hty := h.type
  · simp [h.connect hty]
  · simp [(h.disconnect hty).1]
  · simp [(h.call hty).1]

theorem connInv_connect {k : Fin nConn} {v : Service} {client : Int} (h : ConnInv s)
    (hs : connect s k v client = some s') : ConnInv s' := by
  unfold connect at hs
  split at hs
  · next hst =>
    cases hs
    refine connInv_send h ?_ rfl ?_ (.inl ⟨rfl, rfl⟩)
    · intro m hm he
      exact (h.msg m hm).stage_ne_free (he ▸ hst)
    · simp [Live, St.setConn, hst]
  · cases hs

theorem connInv_call {k : Fin nConn} {type : Nat} (h : ConnInv s)
    (hs : call s k type = some s') : ConnInv s' := by
  unfold call at hs
  split at hs
  · next hst =>
    cases hs
    have hset : s.setConn k id = s := by simp [St.setConn]
    have := connInv_send (f := id) h (k := k) ?_ rfl (by rw [hset])
      (.inr (.inr ⟨Int.natCast_nonneg type, hst.1⟩))
    · rwa [hset] at this
    · intro m hm he
      have hp := (h.msg m hm).pending
      rw [he, hst.2.1] at hp
      cases hp
  · cases hs

theorem connInv_close {k : Fin nConn} (h : ConnInv s) (hs : close s k = some s') :
    ConnInv s' := by
  unfold close at hs
  split at hs
  · next hst =>
    cases hs
    refine connInv_send h ?_ rfl ?_ (.inr (.inl ⟨rfl, rfl⟩))
    · intro m hm he
      have hp := (h.msg m hm).pending
      rw [he, hst.2] at hp
      cases hp
    · simp [Live, St.setConn, hst.1]
  · cases hs

/-- Steps of the loop that change neither a connection nor the pool and take no
message away. -/
theorem connInv_loop {t : St nCell nConn} (h : ConnInv s) (hc : t.conn = s.conn)
    (hf : t.free = s.free) (hcell : t.cell = s.cell) (he : t.enclave = s.enclave)
    (hm : t.messages.Perm s.messages) : ConnInv t := by
  refine ⟨h.toHandlesOk.congr hf hcell he (fun k => live_congr (congrFun hc k))
    (fun k => by rw [hc]), fun m hmem => ?_, ?_⟩
  · exact (h.msg m (hm.mem_iff.1 hmem)).congr (congrFun hc _)
  · exact ((hm.map Msg.conn).nodup_iff).2 h.one

theorem connInv_wait (h : ConnInv s) (hs : psaWait s = some s') : ConnInv s' := by
  unfold psaWait at hs
  split at hs
  · next hpc =>
    split at hs
    · cases hs
    · cases hs
      refine connInv_loop h rfl rfl rfl rfl ?_
      rw [messages_idle (by simp), messages_idle (s := s) (by simp [hpc])]
  · cases hs

theorem connInv_get (h : ConnInv s) (hs : handleGet s = some s') : ConnInv s' := by
  unfold handleGet at hs
  split at hs
  · next signal hpc =>
    have hidle := messages_idle (s := s) (by simp [hpc])
    split at hs
    · cases hs
    · next s₁ hget =>
      cases hs
      obtain ⟨sigs, rfl⟩ := psaGet_none hget
      refine connInv_loop h rfl rfl rfl rfl ?_
      rw [messages_idle (by simp), hidle]
    · next s₁ m hget =>
      cases hs
      obtain ⟨l₁, l₂, hl, _, _, rfl⟩ := psaGet_msg hget
      refine connInv_loop h rfl rfl rfl rfl ?_
      rw [messages_serve rfl, hidle, hl]
      exact List.perm_middle.symm
  · cases hs

/-- The statuses a connect that is `connectOk` ends with. -/
theorem connectReply_refused {status : Int} {stage : Stage}
    (h : connectReply status = some stage) (hne : status ≠ psaSuccess) :
    stage = .free ∨ stage = .busy := by
  unfold connectReply at h
  split at h
  · next he => exact absurd he hne
  split at h
  · exact .inl (Option.some.inj h).symm
  split at h
  · exact .inr (Option.some.inj h).symm
  · cases h

theorem connInv_serveConnect (h : ConnInv s) (hpc : s.pc = .serve signal m)
    (hty : m.type = ipcConnect) (hok : connectOk s o = true)
    (hs : (psaConnectToSecureEnclave s signal m o).bind (fun r => psaReply r.2 m r.1) = some s') :
    ConnInv s' := by
  obtain ⟨⟨status, t⟩, hconn, hreply⟩ := Option.bind_eq_some_iff.1 hs
  obtain ⟨hne, hmb, hval⟩ := connectOk_iff.1 hok
  have hstage : (s.conn m.conn).stage = .connecting :=
    (h.msg m (by simp [messages_serve hpc])).connect hty
  have hdead : ¬ Live s m.conn := by simp [Live, hstage]
  have hhandle : o.handle = o.reply := by simp [Outcome.handle, hmb]
  obtain ⟨stage, error, rfl, hst, -, -⟩ := psaReply_some hreply
  obtain ⟨hnil, -⟩ | ⟨c, rest, hfree, ⟨hv, rfl, rfl⟩ | ⟨hv, rfl, rfl⟩⟩ := psaConnect_cases hconn
  · exact absurd hnil hne
  · -- accepted: the connection gets the first free cell
    have hopen : stage = .opened := (Option.some.inj ((hst hty).symm.trans rfl))
    refine connInv_answered h hpc rfl rfl (fun k hk => ?_) ?_
    · simp [St.setConn, Function.update_of_ne hk]
    · refine handlesOk_accept (k := m.conn) h.toHandlesOk hfree hdead hv rfl rfl rfl ?_ ?_ ?_
      · simp [Live, St.setConn, hopen]
      · simp [St.setConn]
      · intro j hj
        simp [St.setConn, Function.update_of_ne hj]
  · -- refused: the cell goes back
    have hnz : o.handle ≠ psaSuccess := by
      rw [hhandle]
      obtain hpos | href | hbusy := hval
      · rw [hhandle] at hv
        exact absurd hpos (Int.not_lt.2 hv)
      · rw [href]
        decide
      · rw [hbusy]
        decide
    have hdone := connectReply_refused (hst hty) hnz
    refine connInv_answered h hpc rfl rfl (fun k hk => ?_) ?_
    · simp [St.setConn, Function.update_of_ne hk]
    · refine handlesOk_refuse (k := m.conn) h.toHandlesOk hfree hdead rfl rfl rfl ?_ ?_
      · obtain he | he := hdone <;> simp [Live, St.setConn, he]
      · intro j hj
        simp [St.setConn, Function.update_of_ne hj]

theorem connInv_serveCall {status : Int} (h : ConnInv s) (hpc : s.pc = .serve signal m)
    (hty : m.type = ipcCall) (hs : psaReply s m status = some s') : ConnInv s' := by
  have hmsg := h.msg m (by simp [messages_serve hpc])
  have hstage := (hmsg.call (Int.le_of_eq hty.symm)).1
  obtain ⟨stage, error, rfl, -, -, hst⟩ := psaReply_some hs
  have hopen : stage = .opened := hst (by rw [hty]; decide) (by rw [hty]; decide)
  refine connInv_answered h hpc rfl rfl (fun k hk => ?_) ?_
  · simp [St.setConn, Function.update_of_ne hk]
  · refine h.toHandlesOk.congr rfl rfl rfl (fun k => ?_) (fun k => ?_)
    · by_cases hk : k = m.conn
      · subst hk
        simp [Live, St.setConn, hopen, hstage]
      · refine live_congr ?_
        simp [St.setConn, Function.update_of_ne hk]
    · by_cases hk : k = m.conn
      · subst hk
        simp [St.setConn]
      · simp [St.setConn, Function.update_of_ne hk]

theorem connInv_serveDisconnect (h : ConnInv s) (hpc : s.pc = .serve signal m)
    (hty : m.type = ipcDisconnect)
    (hs : (psaDisconnectFromSecureEnclave s m).bind (fun t => psaReply t m psaSuccess) =
      some s') : ConnInv s' := by
  obtain ⟨t, hdis, hreply⟩ := Option.bind_eq_some_iff.1 hs
  have hmsg := h.msg m (by simp [messages_serve hpc])
  obtain ⟨hstage, hrh⟩ := hmsg.disconnect hty
  obtain ⟨stage, error, rfl, -, hst, -⟩ := psaReply_some hreply
  have hfreed : stage = .free := hst (by rw [hty]; decide) hty
  unfold psaDisconnectFromSecureEnclave at hdis
  split at hdis
  · cases hdis
  next c hc =>
  obtain rfl := Option.some.inj hdis
  refine connInv_answered h hpc rfl rfl (fun k hk => ?_) ?_
  · simp [St.setConn, deallocateForwardHandle, Function.update_of_ne hk]
  · refine handlesOk_release (k := m.conn) (c := c) h.toHandlesOk (.inr hstage)
      (hrh.symm.trans hc) rfl rfl rfl ?_ ?_
    · simp [Live, St.setConn, hfreed]
    · intro j hj
      simp [St.setConn, deallocateForwardHandle, Function.update_of_ne hj]

theorem connInv_serve (h : ConnInv s) (hok : connectsOk s (.serve o) = true)
    (hs : handleServe s o = some s') : ConnInv s' := by
  unfold handleServe at hs
  split at hs
  · next signal m hpc =>
    split at hs
    · next hty =>
      refine connInv_serveConnect h hpc hty ?_ hs
      simpa [connectsOk, hpc, hty] using hok
    split at hs
    · next hty =>
      obtain ⟨status, _, hreply⟩ := Option.bind_eq_some_iff.1 hs
      exact connInv_serveCall h hpc hty hreply
    split at hs
    · next hty => exact connInv_serveDisconnect h hpc hty hs
    · cases hs
  · cases hs

theorem connInv_step {l : Lbl nConn} (h : ConnInv s) (hok : connectsOk s l = true)
    (hs : step s l = some s') : ConnInv s' := by
  cases l with
  | connect k v c => exact connInv_connect h hs
  | call k t => exact connInv_call h hs
  | close k => exact connInv_close h hs
  | wait => exact connInv_wait h hs
  | get => exact connInv_get h hs
  | serve o => exact connInv_serve h hok hs

theorem connInv_reachable
    (h : ((lts nCell nConn).restrict fun s l => connectsOk s l = true).Reachable s) :
    ConnInv s := by
  refine LTS.Inductive.reachable ⟨?_, ?_⟩ s h
  · intro s hs
    rw [show s = init nCell nConn from hs]
    exact connInv_init
  · intro s l s' hi hs
    exact connInv_step hi hs.1 hs.2

/-! ## Agreement -/

/-- The allocated cells are as many as the live connections. -/
theorem HandlesOk.count (h : HandlesOk s) :
    (Finset.univ.filter fun c => c ∉ s.free).card = (Finset.univ.filter (Live s)).card := by
  have himage : (Finset.univ.filter fun c => c ∉ s.free).image some =
      (Finset.univ.filter (Live s)).image fun k => (s.conn k).rhandle := by
    ext x
    simp only [Finset.mem_image, Finset.mem_filter, Finset.mem_univ, true_and]
    constructor
    · intro ⟨c, hc, hx⟩
      obtain ⟨k, hk, hkr⟩ := h.used c hc
      exact ⟨k, hk, hkr.trans hx⟩
    · intro ⟨k, hk, hx⟩
      obtain ⟨c, hc, hcf, _⟩ := h.live k hk
      exact ⟨c, hcf, hc.symm.trans hx⟩
  have hinj : Set.InjOn (fun k => (s.conn k).rhandle) (Finset.univ.filter (Live s)) := by
    intro i hi j hj heq
    rw [Finset.mem_coe, Finset.mem_filter] at hi hj
    exact h.inj i j hi.2 hj.2 heq
  rw [← Finset.card_image_of_injective _ (Option.some_injective (Fin nCell)), himage,
    Finset.card_image_of_injOn hinj]

/-- As many cells as connections are enough. -/
theorem pool_suffices {k : Fin nConn} (h : ConnInv s) (hle : nConn ≤ nCell) (hk : ¬ Live s k) :
    s.free ≠ [] := by
  intro hnil
  have hcount := h.count
  rw [hnil] at hcount
  have hall : (Finset.univ.filter fun c : Fin nCell => c ∉ ([] : List (Fin nCell))).card =
      nCell := by
    simp
  have hsub : Finset.univ.filter (Live s) ⊂ Finset.univ :=
    Finset.filter_ssubset.2 ⟨k, Finset.mem_univ k, hk⟩
  have hlt := Finset.card_lt_card hsub
  rw [Finset.card_univ, Fintype.card_fin] at hlt
  omega

/-- The connect message being served is answered with a status `psa_reply`
takes, and accepted exactly when the enclave returned a handle, with that handle
in a cell the connection then owns. -/
def ConnectAnswered (s : St nCell nConn) (m : Msg nCell nConn) (o : Outcome) : Prop :=
  ∃ s', handleServe s o = some s' ∧ m.rid ∈ s'.answered ∧
    ((s'.conn m.conn).stage = .opened ↔ o.mailbox = true ∧ 0 < o.reply) ∧
    ((s'.conn m.conn).stage = .opened → ∃ c, (s'.conn m.conn).rhandle = some c ∧ c ∉ s'.free ∧
      s'.cell c = o.reply)

/-- What holds between the proxy and its clients. -/
structure Agreed (s : St nCell nConn) : Prop where
  /-- an open connection's `rhandle` is an allocated cell with the enclave's
  handle for it -/
  holds : ∀ k, Live s k → ∃ c, (s.conn k).rhandle = some c ∧ c ∉ s.free ∧
    s.cell c = s.enclave k ∧ 0 < s.enclave k
  count : (Finset.univ.filter fun c => c ∉ s.free).card = (Finset.univ.filter (Live s)).card
  /-- a call or a disconnect reads the cell of its connection -/
  reads : ∀ signal m, s.pc = .serve signal m → m.type ≠ ipcConnect →
    ∃ c, m.rhandle = some c ∧ c ∉ s.free ∧ s.cell c = s.enclave m.conn

/-- The signal `handle_signal` goes by is the one of the message's service. -/
def ServesSignal (s : St nCell nConn) : Prop :=
  ∀ signal m, s.pc = .serve signal m → m.service.signal = signal

theorem servesSignal_step {l : Lbl nConn} (h : ServesSignal s) (hs : step s l = some s') :
    ServesSignal s' := by
  intro signal m hpc
  cases l with
  | connect k v c =>
    simp only [step, connect] at hs
    split at hs
    · cases hs
      exact h signal m hpc
    · cases hs
  | call k t =>
    simp only [step, call] at hs
    split at hs
    · cases hs
      exact h signal m hpc
    · cases hs
  | close k =>
    simp only [step, close] at hs
    split at hs
    · cases hs
      exact h signal m hpc
    · cases hs
  | wait =>
    simp only [step, psaWait] at hs
    split at hs
    · split at hs
      · cases hs
      · cases hs
        cases hpc
    · cases hs
  | get =>
    simp only [step, handleGet] at hs
    split at hs
    · split at hs
      · cases hs
      · cases hs
        cases hpc
      · next hget =>
        cases hs
        obtain ⟨_, _, _, hsig, _⟩ := psaGet_msg hget
        cases hpc
        exact hsig
    · cases hs
  | serve o =>
    have hwait : s'.pc = .wait := by
      simp only [step, handleServe] at hs
      split at hs
      · split at hs
        · obtain ⟨_, _, hreply⟩ := Option.bind_eq_some_iff.1 hs
          obtain ⟨_, _, rfl, _⟩ := psaReply_some hreply
          rfl
        split at hs
        · obtain ⟨_, _, hreply⟩ := Option.bind_eq_some_iff.1 hs
          obtain ⟨_, _, rfl, _⟩ := psaReply_some hreply
          rfl
        split at hs
        · obtain ⟨_, _, hreply⟩ := Option.bind_eq_some_iff.1 hs
          obtain ⟨_, _, rfl, _⟩ := psaReply_some hreply
          rfl
        · cases hs
      · cases hs
    rw [hwait] at hpc
    cases hpc

theorem servesSignal_reachable (h : (lts nCell nConn).Reachable s) : ServesSignal s := by
  refine LTS.Inductive.reachable ⟨?_, ?_⟩ s h
  · intro s hs signal m hpc
    rw [show s = init nCell nConn from hs] at hpc
    cases hpc
  · intro s l s' hi hs
    exact servesSignal_step (l := l) hi hs

theorem connectAnswered_iff (hsig : ServesSignal s) (hpc : s.pc = .serve signal m)
    (hty : m.type = ipcConnect) (hnd : s.free.Nodup) :
    ConnectAnswered s m o ↔ connectOk s o = true := by
  have hserve : handleServe s o =
      (psaConnectToSecureEnclave s signal m o).bind fun r => psaReply r.2 m r.1 := by
    simp [handleServe, hpc, hty]
  rw [connectOk_iff]
  constructor
  · intro ⟨s', hs', _, hopen, _⟩
    rw [hserve] at hs'
    obtain ⟨⟨status, t⟩, hconn, hreply⟩ := Option.bind_eq_some_iff.1 hs'
    obtain ⟨stage, error, rfl, hst, -, -⟩ := psaReply_some hreply
    have hst : connectReply status = some stage := hst hty
    have hop : stage = .opened ↔ o.mailbox = true ∧ 0 < o.reply := by
      simpa [St.setConn] using hopen
    obtain ⟨_, rfl, _⟩ | ⟨c, rest, hfree, ⟨_, rfl, _⟩ | ⟨hv, rfl, _⟩⟩ := psaConnect_cases hconn
    · exact absurd hst (by simp [connectReply, psaErrorInsufficientMemory, psaSuccess,
        psaErrorConnectionRefused, psaErrorConnectionBusy])
    · obtain ⟨hmb, hpos⟩ := hop.1 (Option.some.inj hst).symm
      exact ⟨by simp [hfree], hmb, .inl hpos⟩
    · -- a status of 0 would accept the connection without a handle
      have hnz : o.handle ≠ psaSuccess := by
        intro hz
        rw [hz] at hst
        obtain ⟨hmb, hpos⟩ := hop.1 (Option.some.inj hst).symm
        rw [Outcome.handle, if_pos hmb] at hv
        exact absurd hpos (Int.not_lt.2 hv)
      have hmb : o.mailbox = true := by
        by_contra hmb
        exact hnz (by simp [Outcome.handle, hmb, psaNullHandle, psaSuccess])
      have hval : o.handle = o.reply := by simp [Outcome.handle, hmb]
      refine ⟨by simp [hfree], hmb, .inr ?_⟩
      rw [hval] at hst hnz
      by_contra hn
      rw [not_or] at hn
      simp [connectReply, hnz, hn.1, hn.2] at hst
  · intro ⟨hne, hmb, hval⟩
    obtain ⟨c, rest, hfree⟩ := List.exists_cons_of_ne_nil hne
    have hc : c ∉ rest := by
      rw [hfree, List.nodup_cons] at hnd
      exact hnd.1
    have hlook := lookup_signal m.service
    rw [hsig signal m hpc] at hlook
    unfold ConnectAnswered
    rw [hserve]
    simp only [psaConnectToSecureEnclave, allocateForwardHandle, hfree, hlook, hmb, if_true]
    obtain hpos | hneg := hval
    · simp [hpos, psaReply, hty, connectReply, St.setConn, psaSuccess, hc]
    · have hnp : ¬ 0 < o.reply := by
        obtain he | he := hneg <;> rw [he] <;> decide
      have hstage : ∃ stage, connectReply o.reply = some stage ∧ stage ≠ .opened := by
        obtain he | he := hneg <;> rw [he]
        · exact ⟨.free, rfl, by decide⟩
        · exact ⟨.busy, rfl, by decide⟩
      obtain ⟨stage, hst, hns⟩ := hstage
      simp [hnp, psaReply, hty, hst, deallocateForwardHandle, St.setConn, hns]

theorem agreed_of_connInv (h : ConnInv s) : Agreed s where
  holds := h.live
  count := h.count
  reads := by
    intro signal m hpc hty
    have hmsg := h.msg m (by simp [messages_serve hpc])
    have hlive : Live s m.conn ∧ m.rhandle = (s.conn m.conn).rhandle := by
      obtain hc | hd | hcall := hmsg.type
      · exact absurd hc hty
      · exact ⟨.inr (hmsg.disconnect hd).1, (hmsg.disconnect hd).2⟩
      · exact ⟨.inl (hmsg.call hcall).1, (hmsg.call hcall).2⟩
    obtain ⟨c, hc, hcf, hce, _⟩ := h.live m.conn hlive.1
    exact ⟨c, hlive.2.trans hc, hcf, hce⟩

/-- **Connection agreement**: in a run whose connects find a free cell, a mailbox
that works and an enclave that answers with a handle or one of the two refusals,
the connections and the cells agree at every moment; and the next connect is
answered properly exactly if it is of that kind too. -/
theorem connections_agree
    (h : ((lts nCell nConn).restrict fun s l => connectsOk s l = true).Reachable s) :
    Agreed s ∧ ∀ signal m, s.pc = .serve signal m → m.type = ipcConnect →
      ∀ o, ConnectAnswered s m o ↔ connectOk s o = true := by
  have hinv := connInv_reachable h
  have hsig := servesSignal_reachable (LTS.restrict_reachable h)
  exact ⟨agreed_of_connInv hinv,
    fun signal m hpc hty o => connectAnswered_iff hsig hpc hty hinv.nodup⟩

/-- A client connects to the crypto service, up to the answer. -/
def connectTrace : List (Lbl 1) :=
  [.connect 0 .crypto 1, .wait, .get]

/-- A connection the enclave gave the handle 5, and a call on it that reads it. -/
theorem connections_agree_call : ∃ s : St 1 1, Agreed s ∧
    s.pc = .serve Service.crypto.signal ⟨ipcCall, 0, 1, .crypto, some 0, 1⟩ ∧ s.cell 0 = 5 := by
  have he : (LTS.execC connectsOk step (init 1 1) (connectTrace ++
      [.serve ⟨0, true, 5⟩, .call 0 0, .wait, .get])).map (fun s => (s.pc, s.cell 0)) =
      some (.serve Service.crypto.signal ⟨ipcCall, 0, 1, .crypto, some 0, 1⟩, 5) := by
    decide +kernel
  obtain ⟨s, hs, hv⟩ := Option.map_eq_some_iff.1 he
  simp only [Prod.mk.injEq] at hv
  exact ⟨s, (connections_agree (LTS.reachable_execC (fun _ _ h => h) _ rfl hs)).1, hv⟩

/-- **Counterexample**: the mailbox call fails, its `PSA_NULL_HANDLE` reads as
`PSA_SUCCESS`, and the call on the accepted connection has no cell to read. -/
theorem null_handle_accepted : ∃ s : St 1 1, (lts 1 1).Reachable s ∧ ¬ Agreed s ∧
    s.pc = .serve Service.crypto.signal ⟨ipcCall, 0, 1, .crypto, none, 1⟩ := by
  have he : (LTS.exec step (init 1 1) (connectTrace ++
      [.serve ⟨0, false, 0⟩, .call 0 0, .wait, .get])).map (fun s => s.pc) =
      some (.serve Service.crypto.signal ⟨ipcCall, 0, 1, .crypto, none, 1⟩) := by
    decide +kernel
  obtain ⟨s, hs, hpc⟩ := Option.map_eq_some_iff.1 he
  refine ⟨s, LTS.reachable_exec _ (.init rfl) hs, fun ha => ?_, hpc⟩
  obtain ⟨c, hc, _⟩ := ha.reads _ _ hpc (by decide)
  cases hc

end Tfm.L4.PsaProxy
