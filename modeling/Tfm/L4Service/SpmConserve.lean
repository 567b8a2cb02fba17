import Tfm.L4Service.SpmReject

/-!
# SPM: conservation of connection handles

A connection handle leaves the pool in `psa_connect` and in a call to a stateless
service, and goes back to it in `psa_reply`: for a refused connection, for a close, and
after a stateless call. Two paths miss the way back. A `psa_connect` that is answered
with `PSA_ERROR_CONNECTION_BUSY` keeps its handle although the client gets an error,
and a stateless call refused for its vectors keeps the one it took.

Results:
* `keptInv_trans`: a step on neither path keeps every allocated handle with a client or
  with a message under way.
* `conserved_reachable`: in every run of such steps, when no message is under way, the
  allocated handles are those that clients hold.
* `busy_keeps_handle`: the two paths.
-/
namespace Tfm.L4.Spm
open Tfm.BiList

variable {nS nP : Nat} {db : Db nS nP} {s : St nS nP}

/-! ## The property and its condition -/

/-- What `tfm_spm_init` guarantees of `stateless_service_ref`.
mirrors secure_fw/spm/cmsis_psa/spm_ipc.c:764-774 -/
def StatelessOk (db : Db nS nP) : Prop :=
  ∀ i v, db.stateless i = some v → (db.service v).connectionBased = false

/-- With no message under way, the chunks that are allocated are those of the handles
clients hold, one each. -/
def Conserved (s : St nS nP) : Prop :=
  (∀ k, s.busy k = .idle) →
    (∀ k, s.alloc k = true ↔ ∃ x ∈ s.granted, chunkOf x.2 = some k) ∧
    ∀ x ∈ s.granted, ∀ y ∈ s.granted, chunkOf x.2 = chunkOf y.2 → x = y

/-- `psa_reply` answers a connect message with `PSA_ERROR_CONNECTION_BUSY`. -/
def repliesBusy (db : Db nS nP) (s : St nS nP) : Lbl nP → Bool
  | .reply p h st =>
    match getMsgFromHandle db s p h with
    | some (k, _) => (s.conn k).internalMsg.type == ipcConnect && st == psaErrorConnectionBusy
    | none => false
  | _ => false

/-- The condition: an owned request, no call that takes a chunk and is refused for its
vectors, no connection answered with busy. -/
def returnsChunk (db : Db nS nP) (s : St nS nP) (l : Lbl nP) : Bool :=
  owned db s l && !leaks db s l && !repliesBusy db s l

/-! ## Invariant -/

/-- Why chunk `k` is allocated: a client holds its handle, or its message is a connect, a
close or a stateless call. -/
def Kept (db : Db nS nP) (s : St nS nP) (k : Chunk) : Prop :=
  (∃ x ∈ s.granted, chunkOf x.2 = some k) ∨
    (s.busy k ≠ .idle ∧ ((s.conn k).internalMsg.origin ≠ .call ∨
      ∃ v, (s.conn k).internalMsg.service = some v ∧ (db.service v).connectionBased = false))

def KeptInv (db : Db nS nP) (s : St nS nP) : Prop := ∀ k, s.alloc k = true → Kept db s k

/-- A step that keeps the granted handles, except those of chunk `k`, and does not touch
other chunks. -/
theorem keptInv_other {s' : St nS nP} (h : KeptInv db s) (k : Chunk)
    (hg : ∀ x ∈ s.granted, chunkOf x.2 ≠ some k → x ∈ s'.granted)
    (ha : ∀ x, x ≠ k → s'.alloc x = s.alloc x)
    (hb : ∀ x, x ≠ k → s.busy x ≠ .idle → s'.busy x ≠ .idle)
    (hc : ∀ x, x ≠ k → (s'.conn x).internalMsg = (s.conn x).internalMsg)
    (hk : s'.alloc k = true → Kept db s' k) : KeptInv db s' := by
  intro x hx
  by_cases hxk : x = k
  · subst hxk
    exact hk hx
  · rw [ha x hxk] at hx
    rcases h x hx with ⟨y, hy, hyx⟩ | ⟨hbx, hm⟩
    · refine .inl ⟨y, hg y hy ?_, hyx⟩
      rw [hyx]
      simpa using hxk
    · refine .inr ⟨hb x hxk hbx, ?_⟩
      rw [hc x hxk]
      exact hm

/-- Filling and sending the message of chunk `k`. -/
theorem keptInv_send {s₁ : St nS nP} {k : Chunk} {v : Fin nS} {handle : UInt32}
    {type clientId : Int} {invec outvec : List Vec} {callerOutvec : Nat} {cd : Option Nat}
    {o : Origin} {g : List (Int × UInt32)} (h : KeptInv db s)
    (hg : ∀ x ∈ s.granted, chunkOf x.2 ≠ some k → x ∈ g)
    (ha : ∀ x, x ≠ k → s₁.alloc x = s.alloc x) (hb : ∀ x, x ≠ k → s₁.busy x = s.busy x)
    (hc : ∀ x, x ≠ k → s₁.conn x = s.conn x)
    (hk : (∃ x ∈ g, chunkOf x.2 = some k) ∨ o ≠ .call ∨ (db.service v).connectionBased = false) :
    KeptInv db { sendEvent db (fillMsg s₁ k v handle type clientId invec outvec callerOutvec cd o)
      v k with granted := g } := by
  refine keptInv_other h k hg ?_ ?_ ?_ ?_
  · intro x hx
    exact ha x hx
  · intro x hx hbx
    simpa [sendEvent, fillMsg, hx, hb x hx] using hbx
  · intro x hx
    simp [sendEvent, fillMsg, setConn_conn, hx, hc x hx]
  · intro _
    rcases hk with hk | hk
    · exact .inl hk
    · refine .inr ⟨by simp [sendEvent, fillMsg], ?_⟩
      simpa [sendEvent, fillMsg, setConn_conn] using hk

theorem create_frame {s₁ : St nS nP} {v : Fin nS} {c : Int} {k : Chunk} (h : Inv db s)
    (hn : createConnHandle s v c = some (k, s₁)) :
    s₁.granted = s.granted ∧ (∀ x, x ≠ k → s₁.alloc x = s.alloc x) ∧ s₁.busy = s.busy ∧
      ∀ x, x ≠ k → s₁.conn x = s.conn x := by
  obtain ⟨⟨free, hl, hpool⟩, -, -⟩ := h
  obtain ⟨free', rfl, rfl⟩ := createConnHandle_some hpool hn
  refine ⟨rfl, fun x hx => ?_, rfl, fun x hx => ?_⟩
  · simp [hx]
  · simp [hx]

theorem keptInv_get {p : Fin nP} {signal : Nat} {m : Links (Node (Fin nP))} {clear : Bool}
    {k : Chunk} (h : KeptInv db s) : KeptInv db (taken s p signal m clear k) := by
  refine keptInv_other h k (fun x hx _ => hx) (fun _ _ => rfl) ?_ ?_ ?_
  · intro x hx hbx
    simpa [taken, hx] using hbx
  · intro x hx
    simp [taken, setConn_conn, hx]
  · intro ha
    rcases h k ha with hg | ⟨-, hm⟩
    · exact .inl hg
    · refine .inr ⟨by simp [taken], ?_⟩
      simpa [taken, setConn_conn] using hm

/-- `psa_reply`: the chunk is granted already, granted now, or freed. -/
theorem keptInv_replied {s₁ : St nS nP} {k : Chunk} {ret : Int} (h : KeptInv db s)
    (hg : ∀ x ∈ s.granted, x ∈ s₁.granted) (ha : ∀ x, x ≠ k → s₁.alloc x = s.alloc x)
    (hc : ∀ x, x ≠ k → s₁.conn x = s.conn x)
    (hk : s₁.alloc k = true → ∃ x ∈ s₁.granted, chunkOf x.2 = some k) :
    KeptInv db (replied s s₁ k ret) := by
  refine keptInv_other h k (fun x hx _ => hg x hx) ha ?_ ?_ ?_
  · intro x hx hbx
    simpa [replied, hx] using hbx
  · intro x hx
    simp [replied, setConn_conn, hx, hc x hx]
  · exact fun hal => .inl (hk hal)

theorem origin_call {m : Msg nS} (h : MsgTyped m) (ht : 0 ≤ m.type) : m.origin = .call := by
  cases ho : m.origin with
  | call => rfl
  | connect =>
    have hty := h.connect.2 ho
    simp only [ipcConnect] at hty
    omega
  | close =>
    have hty := h.close.2 ho
    simp only [ipcDisconnect] at hty
    omega

theorem keptInv_reply {p : Fin nP} {h : UInt32} {st ret : Int} {k : Chunk} {v : Fin nS}
    {s₁ : St nS nP} (hi : KeptInv db s) (ht : TypeInv s.conn)
    (hx : repliesBusy db s (.reply p h st) = false)
    (hg : getMsgFromHandle db s p h = some (k, v))
    (hr : replyByType db s k v h st = some (s₁, ret)) : KeptInv db (replied s s₁ k ret) := by
  obtain ⟨hck, hv⟩ := getMsgFromHandle_some hg
  have hfree : KeptInv db (replied s (freeConnHandle s k) k ret) := by
    refine keptInv_replied hi (fun _ hx => hx) (fun x hx => ?_) (fun x hx => ?_) fun ha => ?_
    · simp [freeConnHandle, hx]
    · simp [freeConnHandle, setConn_conn, hx]
    · simp [freeConnHandle] at ha
  rcases replyByType_cases hr with ⟨-, -, rfl⟩ | ⟨-, -, rfl⟩ | ⟨hty, hst, -⟩ | ⟨-, rfl⟩ |
    ⟨hty, hcb, rfl⟩ | ⟨-, -, rfl⟩
  · refine keptInv_replied hi (fun x hx => List.mem_cons_of_mem _ hx) (fun _ _ => rfl)
      (fun _ _ => rfl) fun _ => ?_
    exact ⟨_, List.mem_cons_self, hck⟩
  · exact hfree
  · simp [repliesBusy, hg, hty, hst] at hx
  · exact hfree
  · -- a call on a connection: its client holds the handle
    refine keptInv_replied hi (fun _ hx => hx) (fun _ _ => rfl) (fun _ _ => rfl) fun ha => ?_
    rcases hi k ha with hgr | ⟨-, hor | ⟨w, hw, hwb⟩⟩
    · exact hgr
    · refine absurd (origin_call (ht k) hty) hor
    · rw [hv] at hw
      cases hw
      rw [hcb] at hwb
      cases hwb
  · exact hfree

theorem returnsChunk_parts {l : Lbl nP} (hx : returnsChunk db s l = true) :
    owned db s l = true ∧ leaks db s l = false ∧ repliesBusy db s l = false := by
  simp only [returnsChunk, Bool.and_eq_true, Bool.not_eq_true'] at hx
  exact ⟨hx.1.1, hx.1.2, hx.2⟩

theorem keptInv_trans (hdb : StatelessOk db) {s' : St nS nP} {l : Lbl nP} (h : KeptInv db s)
    (hp : PoolAllInv db s) (hx : returnsChunk db s l = true) (ht : Trans db s l s') :
    KeptInv db s' := by
  obtain ⟨hown, hleak, hbusy⟩ := returnsChunk_parts hx
  cases ht with
  | stay l b => exact h
  | connect hb hn =>
    obtain ⟨hg, ha, hbu, hc⟩ := create_frame hp.base hn
    refine keptInv_send h (fun x hx _ => hg ▸ hx) ha (fun x _ => by rw [hbu]) hc (.inr (.inl ?_))
    simp
  | call hq hvet hs hk hst hv =>
    have hmem := owned_granted hown (call_target hq hvet hs hk hst hv) (callReq_request hq)
    refine keptInv_send h (fun x hx _ => hx) (fun _ _ => rfl) (fun _ _ => rfl) (fun _ _ => rfl)
      (.inl ⟨_, hmem, (validateConnHandle_some hk).1⟩)
  | @callStatic l c a cd k v s₁ hq hvet hok hs hn =>
    obtain ⟨i, -, hi⟩ := hs
    obtain ⟨hg, ha, hbu, hc⟩ := create_frame hp.base hn
    have hgr : (statelessConn s₁ k).granted = s.granted := hg
    have hco : ∀ x, x ≠ k → (statelessConn s₁ k).conn x = s.conn x := by
      intro x hx
      simp [statelessConn, setConn_conn, hx, hc x hx]
    exact keptInv_send (g := (statelessConn s₁ k).granted) h (fun x hx _ => hgr ▸ hx) ha
      (fun x _ => congrFun hbu x) hco (.inr (.inr (hdb i v hi)))
  | leak b hl hn =>
    rw [hl] at hleak
    cases hleak
  | @close c hh cd k v hs hk hst hv =>
    have hmem : (c.id db, hh) ∈ s.granted := owned_granted hown (close_target hs hk hst hv) rfl
    refine keptInv_send h (fun x hx hne => ?_) (fun _ _ => rfl) (fun _ _ => rfl) (fun _ _ => rfl)
      (.inr (.inl (by simp)))
    simp only [List.mem_filter, bne_iff_ne, ne_eq]
    refine ⟨hx, ?_⟩
    intro he
    subst he
    exact hne (validateConnHandle_some hk).1
  | get _ _ hf => exact keptInv_get h
  | getNone _ _ hf => exact h
  | reply hg hr => exact keptInv_reply h hp.types hbusy hg hr

/-! ## Runs -/

theorem conserve_inductive (hdb : StatelessOk db) :
    ((lts db).restrict fun s l => returnsChunk db s l = true).Inductive
      fun s => PoolAllInv db s ∧ KeptInv db s where
  init := by
    intro s he
    subst he
    refine ⟨(poolAllInv_inductive db).init _ rfl, fun k hk => ?_⟩
    simp [init] at hk
  step := by
    intro s l s' he hr
    obtain ⟨hp, h⟩ := he
    obtain ⟨hx, hs⟩ := hr
    have ht := step_trans hs
    obtain ⟨hown, -, -⟩ := returnsChunk_parts hx
    exact ⟨(poolAllInv_inductive db).step s l s' hp ⟨hown, hs⟩, keptInv_trans hdb h hp hx ht⟩

/-- **Connection handles are conserved** in every run of owned requests in which no
stateless call is refused for its vectors and no connection is answered with busy:
whenever no message is under way, the chunks that are allocated are those of the handles
that clients got from `psa_connect` and have not closed. -/
theorem conserved_reachable (db : Db nS nP) (hdb : StatelessOk db) (s : St nS nP)
    (h : ((lts db).restrict fun s l => returnsChunk db s l = true).Reachable s) :
    Conserved s := by
  obtain ⟨hp, hk⟩ := (conserve_inductive hdb).reachable s h
  refine fun hidle => ⟨fun k => ⟨fun ha => ?_, ?_⟩, hp.grants.inj⟩
  · rcases hk k ha with hg | ⟨hb, -⟩
    · exact hg
    · exact absurd (hidle k) hb
  · intro he
    obtain ⟨⟨c, hh⟩, hx, hck⟩ := he
    obtain ⟨j, hj, hl⟩ := hp.grants.live c hh hx
    rw [hck] at hj
    cases hj
    exact hl.alloc

/-- A connection, a refused connection, and a call answered with programmer error. -/
def conserveTrace : List (Lbl 1) :=
  openConn ++ [.connect (.ns (-2)) 0x1000 1 none, .get 0 4 true, .reply 0 1603 (-130),
    callConn 3, .get 0 4 true, .reply 0 194 (-129)]

theorem conserved_refused : ∃ s : St 1 1, Conserved s ∧ (∀ k, s.busy k = .idle) ∧
    s.granted = [(-1, 194)] ∧ s.alloc 0 = true ∧ s.alloc 1 = false := by
  have he : (LTS.execC (returnsChunk oneService) (step oneService) (init 1 1) conserveTrace).map
      (fun s => (decide (∀ k, s.busy k = .idle), s.granted, s.alloc 0, s.alloc 1)) =
      some (true, [(-1, 194)], true, false) := by decide +kernel
  obtain ⟨s, hs, hv⟩ := Option.map_eq_some_iff.1 he
  simp only [Prod.mk.injEq, decide_eq_true_eq] at hv
  have hdb : StatelessOk oneService := fun i v h => by cases h
  exact ⟨s, conserved_reachable oneService hdb s (LTS.reachable_execC (fun _ _ h => h) _ rfl hs), hv⟩

/-- **Counterexample**: client -1 connects and is answered with busy; and client -1 calls a
stateless service with a vector it may not read. No message is under way and no client
holds a handle, but chunk 0 is allocated. -/
theorem busy_keeps_handle :
    (∃ s : St 1 1, (lts oneService).Reachable s ∧ (∀ k, s.busy k = .idle) ∧ s.granted = [] ∧
      s.answered = [0] ∧ s.alloc 0 = true ∧ ¬ Conserved s) ∧
    ∃ s : St 1 1, (lts statelessService).Reachable s ∧ (∀ k, s.busy k = .idle) ∧ s.granted = [] ∧
      s.accepted = [] ∧ s.alloc 0 = true ∧ ¬ Conserved s := by
  have hnot : ∀ s : St 1 1, (∀ k, s.busy k = .idle) → s.granted = [] → s.alloc 0 = true →
      ¬ Conserved s := by
    intro s hidle hg ha hc
    obtain ⟨x, hx, -⟩ := ((hc hidle).1 0).1 ha
    rw [hg] at hx
    cases hx
  have he : (LTS.exec (step oneService) (init 1 1)
      [.connect (.ns (-1)) 0x1000 1 none, .get 0 4 true, .reply 0 194 (-131)]).map
      (fun s => (decide (∀ k, s.busy k = .idle), s.granted, s.answered, s.alloc 0)) =
      some (true, [], [0], true) := by decide +kernel
  have he' : (LTS.exec (step statelessService) (init 1 1) [callStateless 0x9000]).map
      (fun s => (decide (∀ k, s.busy k = .idle), s.granted, s.accepted, s.alloc 0)) =
      some (true, [], [], true) := by decide +kernel
  obtain ⟨s, hs, hv⟩ := Option.map_eq_some_iff.1 he
  obtain ⟨s', hs', hv'⟩ := Option.map_eq_some_iff.1 he'
  simp only [Prod.mk.injEq, decide_eq_true_eq] at hv hv'
  obtain ⟨hb, hg, hr, ha⟩ := hv
  obtain ⟨hb', hg', hr', ha'⟩ := hv'
  exact ⟨⟨s, LTS.reachable_exec _ (.init rfl) hs, hb, hg, hr, ha, hnot s hb hg ha⟩,
    s', LTS.reachable_exec _ (.init rfl) hs', hb', hg', hr', ha', hnot s' hb' hg' ha'⟩

end Tfm.L4.Spm
