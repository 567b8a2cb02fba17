import Tfm.L4Service.SpmStep

/-!
# SPM: invariants of connection handles and messages

The state of the SPM falls into three groups that the operations touch
separately, and the invariant has one part for each:
* `PoolInv`: the pool's free list and the services' handle lists hold every
  chunk once, in the place its allocation says;
* `MsgInv`: the partitions' message lists hold exactly the queued messages, and
  the state of a chunk agrees with where its message is;
* `LogInv`: the ledger of accepted, delivered and answered requests.

Each part has one lemma for each operation (`create`, `free`, `send`, `get`,
`reply`) and a `congr` lemma that names the state it depends on.
-/
namespace Tfm.L4.Spm
open Tfm.BiList

variable {nS nP : Nat}

/-! ## User handles -/

theorem nextLoopIndex_lt (i : Nat) : nextLoopIndex i < 8 := Nat.mod_lt _ (by decide)

theorem chunkOf_toUserHandle_fin : ∀ (k : Chunk) (i : Fin 8),
    chunkOf (toUserHandle k i.val) = some k := by decide +kernel

/-- The handle the SPM makes for a chunk leads back to it, for every rolling
index. -/
theorem chunkOf_toUserHandle (k : Chunk) (i : Nat) :
    chunkOf (toUserHandle k (nextLoopIndex i)) = some k :=
  chunkOf_toUserHandle_fin k ⟨nextLoopIndex i, nextLoopIndex_lt i⟩

theorem validateConnHandle_some {s : St nS nP} {h : UInt32} {c : Int} {k : Chunk}
    (hk : validateConnHandle s h c = some k) : chunkOf h = some k ∧ (s.conn k).clientId = c := by
  unfold validateConnHandle at hk
  split at hk
  · rename_i k' hk'
    split at hk
    · rename_i hc
      cases hk
      exact ⟨hk', hc⟩
    · cases hk
  · cases hk

theorem getMsgFromHandle_some {db : Db nS nP} {s : St nS nP} {p : Fin nP} {h : UInt32}
    {k : Chunk} {v : Fin nS} (hg : getMsgFromHandle db s p h = some (k, v)) :
    chunkOf h = some k ∧ (s.conn k).internalMsg.service = some v := by
  unfold getMsgFromHandle at hg
  split at hg
  · cases hg
  · rename_i k' hk'
    dsimp only at hg
    split at hg
    · split at hg
      · cases hg
      · rename_i v' hv'
        split at hg
        · cases hg
          exact ⟨hk', hv'⟩
        · cases hg
    · cases hg

/-! ## Frame lemmas of `setConn` -/

theorem setConn_conn (s : St nS nP) (k x : Chunk) (f : Conn nS → Conn nS) :
    (s.setConn k f).conn x = if x = k then f (s.conn k) else s.conn x := by
  simp [St.setConn, Function.update_apply]

@[simp] theorem setConn_pool (s : St nS nP) (k : Chunk) (f : Conn nS → Conn nS) :
    (s.setConn k f).pool = s.pool := rfl
@[simp] theorem setConn_handles (s : St nS nP) (k : Chunk) (f : Conn nS → Conn nS) :
    (s.setConn k f).handles = s.handles := rfl
@[simp] theorem setConn_msgs (s : St nS nP) (k : Chunk) (f : Conn nS → Conn nS) :
    (s.setConn k f).msgs = s.msgs := rfl
@[simp] theorem setConn_asserted (s : St nS nP) (k : Chunk) (f : Conn nS → Conn nS) :
    (s.setConn k f).asserted = s.asserted := rfl
@[simp] theorem setConn_alloc (s : St nS nP) (k : Chunk) (f : Conn nS → Conn nS) :
    (s.setConn k f).alloc = s.alloc := rfl
@[simp] theorem setConn_busy (s : St nS nP) (k : Chunk) (f : Conn nS → Conn nS) :
    (s.setConn k f).busy = s.busy := rfl
@[simp] theorem setConn_granted (s : St nS nP) (k : Chunk) (f : Conn nS → Conn nS) :
    (s.setConn k f).granted = s.granted := rfl

/-! ## Free list and handle lists -/

structure PoolInv (s : St nS nP) (free : List Chunk) (hl : Fin nS → List Chunk) : Prop where
  pool : IsList s.pool (.head ()) (free.map .chunk)
  handles : Family s.handles .head fun v => (hl v).map .chunk
  alloc : ∀ k, s.alloc k = true ↔ k ∉ free
  place : ∀ k v, k ∈ hl v ↔ s.alloc k = true ∧ (s.conn k).service = some v
  served : ∀ k, s.alloc k = true → ∃ v, (s.conn k).service = some v

/-- Lists of chunks, as lists of nodes, after one of them changed. -/
theorem map_update {ι : Type} [DecidableEq ι] (L : ι → List Chunk) (i : ι) (l : List Chunk) :
    Function.update (fun j => (L j).map (Node.chunk (H := ι))) i (l.map .chunk) =
      fun j => (Function.update L i l j).map .chunk := by
  funext j
  by_cases hj : j = i
  · subst hj
    simp
  · simp [hj]

theorem mem_update {ι : Type} [DecidableEq ι] {L : ι → List Chunk} {i j : ι} {l : List Chunk}
    {k : Chunk} :
    k ∈ Function.update L i l j ↔ (j = i ∧ k ∈ l) ∨ (j ≠ i ∧ k ∈ L j) := by
  by_cases hj : j = i
  · subst hj
    simp
  · simp [hj]

theorem map_split (ι : Type) {L l₁ l₂ : List Chunk} {k : Chunk} (h : L = l₁ ++ k :: l₂) :
    L.map (Node.chunk (H := ι)) = l₁.map .chunk ++ Node.chunk k :: l₂.map .chunk := by
  rw [h, List.map_append, List.map_cons]

theorem chunk_not_mem {ι : Type} {L : List Chunk} {k : Chunk} {i : ι} (hk : k ∉ L) :
    (Node.chunk k : Node ι) ∉ Node.head i :: L.map .chunk := by
  simp [hk]

theorem PoolInv.congr {s s' : St nS nP} {free : List Chunk} {hl : Fin nS → List Chunk}
    (h : PoolInv s free hl) (hp : s'.pool = s.pool) (hh : s'.handles = s.handles)
    (ha : s'.alloc = s.alloc) (hc : ∀ k, (s'.conn k).service = (s.conn k).service) :
    PoolInv s' free hl := by
  refine ⟨hp ▸ h.pool, hh ▸ h.handles, ?_, ?_, ?_⟩
  · intro k
    rw [ha]
    exact h.alloc k
  · intro k v
    rw [ha, hc]
    exact h.place k v
  · intro k
    rw [ha, hc]
    exact h.served k

theorem poolAlloc_some {s s₁ : St nS nP} {free : List Chunk} {hl : Fin nS → List Chunk}
    {k : Chunk} (h : PoolInv s free hl) (ha : poolAlloc s = some (k, s₁)) :
    ∃ free', free = k :: free' ∧ s₁ = { s with pool := removeNode s.pool (.chunk k) } := by
  unfold poolAlloc at ha
  split at ha
  · cases ha
  · rename_i hne
    cases free with
    | nil => exact absurd (h.pool.isEmpty_iff.2 rfl) hne
    | cons x free =>
      have hx : s.pool.next (.head ()) = .chunk x := h.pool.seg.1
      rw [hx] at ha
      cases ha
      exact ⟨free, rfl, rfl⟩

/-- What `createConnHandle` does on a sound pool. -/
theorem createConnHandle_some {s s' : St nS nP} {free : List Chunk} {hl : Fin nS → List Chunk}
    {v : Fin nS} {c : Int} {k : Chunk} (h : PoolInv s free hl)
    (hn : createConnHandle s v c = some (k, s')) :
    ∃ free', free = k :: free' ∧
      s' = { s with
        pool := removeNode s.pool (.chunk k)
        conn := Function.update s.conn k
          { s.conn k with service := some v, status := .idle, clientId := c }
        handles := insertBefore s.handles (.head v) (.chunk k)
        alloc := Function.update s.alloc k true } := by
  unfold createConnHandle at hn
  split at hn
  · cases hn
  · rename_i k' s₁ ha
    cases hn
    obtain ⟨free', rfl, rfl⟩ := poolAlloc_some h ha
    exact ⟨free', rfl, rfl⟩

theorem PoolInv.create {s s' : St nS nP} {free : List Chunk} {hl : Fin nS → List Chunk}
    {v : Fin nS} {c : Int} {k : Chunk} (h : PoolInv s free hl)
    (hn : createConnHandle s v c = some (k, s')) :
    ∃ free' hl', PoolInv s' free' hl' := by
  obtain ⟨free', rfl, rfl⟩ := createConnHandle_some h hn
  have hna : s.alloc k ≠ true := fun ha => (h.alloc k).1 ha List.mem_cons_self
  have hnd : k ∉ free' := by
    have hnd := h.pool.nodup
    simp only [List.map_cons, List.nodup_cons, List.mem_map, Node.chunk.injEq, exists_eq_right]
      at hnd
    exact hnd.2.1
  have hnot : ∀ w, k ∉ hl w := fun w hw => hna ((h.place k w).1 hw).1
  refine ⟨free', Function.update hl v (hl v ++ [k]), ?_, ?_, ?_, ?_, ?_⟩
  · have hp := h.pool
    rw [List.map_cons, ← List.nil_append (_ :: _)] at hp
    exact hp.removeNode
  · have hf := h.handles.insertBefore v (x := .chunk k) fun w => chunk_not_mem (hnot w)
    rwa [← List.map_singleton, ← List.map_append, map_update] at hf
  · intro x
    simp only [Function.update_apply]
    by_cases hx : x = k
    · subst hx
      simp [hnd]
    · rw [if_neg hx, h.alloc x]
      simp [hx]
  · intro x w
    simp only [Function.update_apply]
    by_cases hx : x = k
    · subst hx
      by_cases hw : w = v
      · subst hw
        simp
      · simp [hw, hnot w, Ne.symm hw]
    · by_cases hw : w = v
      · subst hw
        simp [hx, h.place x w]
      · simp [hx, hw, h.place x w]
  · intro x
    simp only [Function.update_apply]
    by_cases hx : x = k
    · simp [hx]
    · simp only [hx, if_false]
      exact h.served x

theorem PoolInv.free {s : St nS nP} {free : List Chunk} {hl : Fin nS → List Chunk}
    {k : Chunk} (h : PoolInv s free hl) (ha : s.alloc k = true) :
    ∃ free' hl', PoolInv (freeConnHandle s k) free' hl' := by
  obtain ⟨v, hv⟩ := h.served k ha
  have hkv : k ∈ hl v := (h.place k v).2 ⟨ha, hv⟩
  obtain ⟨l₁, l₂, hs⟩ := List.append_of_mem hkv
  have hnd : (l₁ ++ k :: l₂).Nodup := by
    have hnd := (h.handles.isList v).nodup
    rw [List.nodup_cons, hs] at hnd
    exact hnd.2.of_map
  have hk12 : k ∉ l₁ ++ l₂ := by
    have := List.nodup_middle.1 hnd
    exact (List.nodup_cons.1 this).1
  have hconn : ∀ x, ((freeConnHandle s k).conn x).service = (s.conn x).service := by
    intro x
    simp only [freeConnHandle, setConn_conn]
    split
    · rename_i hx
      rw [hx]
    · rfl
  have halloc : ∀ x, (freeConnHandle s k).alloc x = if x = k then false else s.alloc x := by
    intro x
    simp [freeConnHandle, St.setConn, Function.update_apply]
  refine ⟨free ++ [k], Function.update hl v (l₁ ++ l₂), ?_, ?_, ?_, ?_, ?_⟩
  · have hp := h.pool.insertBefore (chunk_not_mem ((h.alloc k).1 ha))
    rwa [← List.map_singleton, ← List.map_append] at hp
  · have hf := h.handles.removeNode (map_split (Fin nS) hs)
    rwa [← List.map_append, map_update] at hf
  · intro x
    rw [halloc]
    by_cases hx : x = k
    · simp [hx]
    · rw [if_neg hx, h.alloc x]
      simp [hx]
  · intro x w
    rw [halloc, hconn, mem_update]
    by_cases hx : x = k
    · subst hx
      have hw : w ≠ v → x ∉ hl w := by
        intro hw hm
        have := ((h.place x w).1 hm).2
        rw [hv] at this
        exact hw (Option.some.inj this).symm
      simp only [if_true, Bool.false_eq_true, false_and, iff_false, not_or, not_and]
      exact ⟨fun _ => hk12, hw⟩
    · rw [if_neg hx, ← h.place x w]
      by_cases hw : w = v
      · subst hw
        simp [hs, hx]
      · simp [hw]
  · intro x
    rw [halloc, hconn]
    by_cases hx : x = k
    · simp [hx]
    · rw [if_neg hx]
      exact h.served x

/-! ## Message lists -/

structure MsgInv (db : Db nS nP) (s : St nS nP) (ml : Fin nP → List Chunk) : Prop where
  msgs : Family s.msgs .head fun p => (ml p).map .chunk
  queue : ∀ k p, k ∈ ml p ↔ ∃ r v, s.busy k = .queued r ∧
    (s.conn k).internalMsg.service = some v ∧ (db.service v).partition = p
  busyAlloc : ∀ k, s.busy k ≠ .idle → s.alloc k = true
  active : ∀ k, (s.conn k).status = .active ↔ ∃ r, s.busy k = .delivered r
  rid : ∀ k r, s.busy k = .queued r ∨ s.busy k = .delivered r →
    (s.conn k).internalMsg.rid = r
  own : ∀ k, s.busy k ≠ .idle → ∃ v, (s.conn k).internalMsg.service = some v ∧
    (s.conn k).internalMsg.magic = true ∧ chunkOf (s.conn k).internalMsg.handle = some k
  signal : ∀ k r v, s.busy k = .queued r → (s.conn k).internalMsg.service = some v →
    s.asserted (db.service v).partition (db.service v).signal = true

/-- Two messages that the message lists do not tell apart. -/
structure Msg.Same (m' m : Msg nS) : Prop where
  service : m'.service = m.service
  magic : m'.magic = m.magic
  handle : m'.handle = m.handle
  rid : m'.rid = m.rid

theorem Msg.Same.of_eq {m' m : Msg nS} (h : m' = m) : m'.Same m := by
  subst h
  exact ⟨rfl, rfl, rfl, rfl⟩

/-- The message lists do not depend on the chunks whose message is idle, nor on what
a message carries. -/
theorem MsgInv.congr {db : Db nS nP} {s s' : St nS nP} {ml : Fin nP → List Chunk}
    (h : MsgInv db s ml) (hm : s'.msgs = s.msgs) (hs : s'.asserted = s.asserted)
    (hb : s'.busy = s.busy) (ha : ∀ k, s.busy k ≠ .idle → s'.alloc k = true)
    (hst : ∀ k, (s'.conn k).status = .active ↔ (s.conn k).status = .active)
    (hc : ∀ k, s.busy k ≠ .idle → (s'.conn k).internalMsg.Same (s.conn k).internalMsg) :
    MsgInv db s' ml := by
  refine ⟨hm ▸ h.msgs, ?_, ?_, ?_, ?_, ?_, ?_⟩
  · intro k p
    rw [h.queue k p, hb]
    constructor
    · intro hx
      obtain ⟨r, v, hq, hv, hp⟩ := hx
      exact ⟨r, v, hq, by rw [(hc k (by simp [hq])).service]; exact hv, hp⟩
    · intro hx
      obtain ⟨r, v, hq, hv, hp⟩ := hx
      exact ⟨r, v, hq, by rw [← (hc k (by simp [hq])).service]; exact hv, hp⟩
  · intro k hk
    exact ha k (hb ▸ hk)
  · intro k
    rw [hst, hb]
    exact h.active k
  · intro k r hr
    rw [hb] at hr
    rw [(hc k (by rcases hr with hr | hr <;> simp [hr])).rid]
    exact h.rid k r hr
  · intro k hk
    rw [hb] at hk
    have hsame := hc k hk
    rw [hsame.service, hsame.magic, hsame.handle]
    exact h.own k hk
  · intro k r v hq hv
    rw [hb] at hq
    rw [(hc k (by simp [hq])).service] at hv
    rw [hs]
    exact h.signal k r v hq hv

theorem MsgInv.idle_of_free {db : Db nS nP} {s : St nS nP} {ml : Fin nP → List Chunk}
    (h : MsgInv db s ml) {k : Chunk} (ha : s.alloc k ≠ true) : s.busy k = .idle :=
  Classical.byContradiction fun hb => ha (h.busyAlloc k hb)

theorem MsgInv.create {db : Db nS nP} {s s' : St nS nP} {free : List Chunk}
    {hl : Fin nS → List Chunk} {ml : Fin nP → List Chunk} {v : Fin nS} {c : Int} {k : Chunk}
    (h : MsgInv db s ml) (hp : PoolInv s free hl) (hn : createConnHandle s v c = some (k, s')) :
    MsgInv db s' ml := by
  obtain ⟨free', rfl, rfl⟩ := createConnHandle_some hp hn
  have hna : s.alloc k ≠ true := fun ha => (hp.alloc k).1 ha List.mem_cons_self
  have hidle := h.idle_of_free hna
  refine h.congr rfl rfl rfl ?_ ?_ ?_
  · intro x hx
    simp only [Function.update_apply]
    split
    · rfl
    · exact h.busyAlloc x hx
  · intro x
    simp only [Function.update_apply]
    split
    · rename_i hx
      subst hx
      simp [h.active, hidle]
    · rfl
  · intro x hx
    have hxk : x ≠ k := by
      intro he
      subst he
      exact hx hidle
    exact .of_eq (by simp [hxk])

/-- Filling and queueing the message of an idle, allocated chunk. -/
theorem MsgInv.send {db : Db nS nP} {s : St nS nP} {ml : Fin nP → List Chunk} {k : Chunk}
    {v : Fin nS} {handle : UInt32} {type clientId : Int} {invec outvec : List Vec}
    {callerOutvec : Nat} {cd : Option Nat} {o : Origin} (h : MsgInv db s ml)
    (hidle : s.busy k = .idle) (ha : s.alloc k = true) (hk : chunkOf handle = some k) :
    ∃ ml', MsgInv db (sendEvent db (fillMsg s k v handle type clientId invec outvec callerOutvec
      cd o) v k) ml' := by
  have hnot : ∀ p, k ∉ ml p := by
    intro p hp
    obtain ⟨r, w, hq, -⟩ := (h.queue k p).1 hp
    rw [hidle] at hq
    cases hq
  refine ⟨Function.update ml (db.service v).partition (ml (db.service v).partition ++ [k]),
    ?_, ?_, ?_, ?_, ?_, ?_, ?_⟩
  · -- the node is cleared first, which no list sees
    have hclear : Family ((s.msgs.setNext (.chunk k) .null).setPrev (.chunk k) .null) .head
        fun p => (ml p).map .chunk := by
      refine h.msgs.congr ?_ ?_ <;>
      · intro p y hy
        have hyk : y ≠ .chunk k := fun he => chunk_not_mem (hnot p) (he ▸ hy)
        simp [hyk]
    have hf := hclear.insertBefore (db.service v).partition (x := .chunk k)
      fun p => chunk_not_mem (hnot p)
    rwa [← List.map_singleton, ← List.map_append, map_update] at hf
  · intro x p
    simp only [sendEvent, fillMsg, setConn_conn, Function.update_apply]
    by_cases hx : x = k
    · subst hx
      by_cases hp : p = (db.service v).partition
      · subst hp
        simp
      · simp [hp, hnot p, Ne.symm hp]
    · by_cases hp : p = (db.service v).partition
      · simp only [hp, if_true, hx, if_false, List.mem_append, List.mem_singleton, or_false]
        exact h.queue x _
      · simp only [hp, hx, if_false]
        exact h.queue x p
  · intro x hx
    by_cases hxk : x = k
    · subst hxk
      exact ha
    · refine h.busyAlloc x ?_
      simpa [sendEvent, fillMsg, hxk] using hx
  · intro x
    simp only [sendEvent, fillMsg, setConn_conn, Function.update_apply]
    by_cases hxk : x = k
    · subst hxk
      simp [h.active, hidle]
    · simp only [hxk, if_false]
      exact h.active x
  · intro x r
    simp only [sendEvent, fillMsg, setConn_conn, Function.update_apply]
    by_cases hxk : x = k
    · subst hxk
      simp
    · simp only [hxk, if_false]
      exact h.rid x r
  · intro x
    simp only [sendEvent, fillMsg, setConn_conn, Function.update_apply]
    by_cases hxk : x = k
    · subst hxk
      simp [hk]
    · simp only [hxk, if_false]
      exact h.own x
  · intro x r w
    simp only [sendEvent, fillMsg, setConn_conn, Function.update_apply]
    by_cases hxk : x = k
    · subst hxk
      simp only [if_true, Option.some.injEq]
      rintro - rfl
      simp
    · simp only [hxk, if_false]
      intro hq hw
      have hs := h.signal x r w hq hw
      by_cases hp : (db.service w).partition = (db.service v).partition
      · rw [hp] at hs
        by_cases hg : (db.service w).signal = (db.service v).signal
        · simp [hp, hg]
        · simpa [hp, hg] using hs
      · simpa [hp] using hs

theorem MsgInv.queued_service {db : Db nS nP} {s : St nS nP} {ml : Fin nP → List Chunk}
    (h : MsgInv db s ml) (p : Fin nP) :
    ∀ x ∈ ml p, (s.conn x).internalMsg.service ≠ none := by
  intro x hx
  obtain ⟨r, v, -, hv, -⟩ := (h.queue x p).1 hx
  simp [hv]

/-- `psa_get` takes the first message with the signal from its list. -/
theorem MsgInv.get {db : Db nS nP} {s : St nS nP} {ml : Fin nP → List Chunk} {p : Fin nP}
    {signal : Nat} {m : Links (Node (Fin nP))} {clear : Bool} {k : Chunk} (h : MsgInv db s ml)
    (hf : findMsg db s.conn p signal walkFuel s.msgs (s.msgs.next (.head p)) none =
      some (m, some k, clear)) :
    (∃ r, s.busy k = .queued r) ∧ ∃ ml', MsgInv db (taken s p signal m clear k) ml' := by
  rcases findMsg_spec db signal (h.queued_service p) (h.msgs.isList p) with
    ⟨-, he⟩ | ⟨l₁, j, l₂, hl, hno, hj, he⟩
  · rw [he] at hf
    cases hf
  rw [he] at hf
  simp only [Option.some.injEq, Prod.mk.injEq] at hf
  obtain ⟨rfl, rfl, hclear⟩ := hf
  obtain ⟨r, v, hq, hv, hvp⟩ := (h.queue j p).1 (by rw [hl]; simp)
  have hrid := h.rid j r (.inl hq)
  have hj12 : j ∉ l₁ ++ l₂ := by
    have hnd := (h.msgs.isList p).nodup
    rw [List.nodup_cons, hl] at hnd
    exact (List.nodup_cons.1 (List.nodup_middle.1 hnd.2.of_map)).1
  refine ⟨⟨r, hq⟩, Function.update ml p (l₁ ++ l₂), ?_, ?_, ?_, ?_, ?_, ?_, ?_⟩
  · have hf := h.msgs.removeNode (map_split (Fin nP) hl)
    rwa [← List.map_append, map_update] at hf
  · intro x q
    simp only [taken, setConn_conn, Function.update_apply]
    by_cases hx : x = j
    · subst hx
      have hnot : q ≠ p → x ∉ ml q := by
        intro hne hm
        obtain ⟨r', v', -, hv', hq'⟩ := (h.queue x q).1 hm
        rw [hv] at hv'
        cases hv'
        exact hne (hq' ▸ hvp)
      by_cases hqp : q = p
      · simp [hqp, hj12]
      · simp [hqp, hnot hqp]
    · simp only [hx, if_false]
      rw [← h.queue x q]
      by_cases hqp : q = p
      · subst hqp
        simp [hl, hx]
      · simp [hqp]
  · intro x hx
    by_cases hxj : x = j
    · subst hxj
      exact h.busyAlloc x (by simp [hq])
    · exact h.busyAlloc x (by simpa [taken, hxj] using hx)
  · intro x
    simp only [taken, setConn_conn, Function.update_apply]
    by_cases hxj : x = j
    · simp [hxj]
    · simp only [hxj, if_false]
      exact h.active x
  · intro x r'
    simp only [taken, setConn_conn, Function.update_apply]
    by_cases hxj : x = j
    · subst hxj
      simp
    · simp only [hxj, if_false]
      exact h.rid x r'
  · intro x
    simp only [taken, setConn_conn, Function.update_apply]
    by_cases hxj : x = j
    · subst hxj
      intro _
      rw [if_pos rfl]
      exact h.own x (by simp [hq])
    · simp only [hxj, if_false]
      exact h.own x
  · -- the signal is cleared only when no other queued message has it
    intro x r' w
    simp only [taken, setConn_conn, Function.update_apply]
    by_cases hxj : x = j
    · simp [hxj]
    · simp only [hxj, if_false]
      intro hxq hxw
      have hs := h.signal x r' w hxq hxw
      cases clear with
      | false => simpa using hs
      | true =>
        by_cases hp : (db.service w).partition = p
        · by_cases hg : (db.service w).signal = signal
          · have hxl : x ∈ ml p := (h.queue x p).2 ⟨r', w, hxq, hxw, hp⟩
            rw [hl, List.mem_append, List.mem_cons] at hxl
            have hxs : signalOf db s.conn x = some signal := by simp [signalOf, hxw, hg]
            rcases hxl with hx₁ | hx₁ | hx₂
            · exact absurd hxs (hno x hx₁)
            · exact absurd hx₁ hxj
            · have := List.all_eq_true.1 hclear x hx₂
              simp [hxs] at this
          · rw [hp] at hs
            simpa [hp, hg] using hs
        · simpa [hp] using hs

theorem MsgInv.getNone {db : Db nS nP} {s : St nS nP} {ml : Fin nP → List Chunk} {p : Fin nP}
    {signal : Nat} {m : Links (Node (Fin nP))} {clear : Bool} (h : MsgInv db s ml)
    (hf : findMsg db s.conn p signal walkFuel s.msgs (s.msgs.next (.head p)) none =
      some (m, none, clear)) :
    MsgInv db { s with
      msgs := m
      asserted := if clear then Function.update s.asserted p
        (Function.update (s.asserted p) signal false) else s.asserted } ml := by
  rcases findMsg_spec db signal (h.queued_service p) (h.msgs.isList p) with
    ⟨hno, he⟩ | ⟨l₁, j, l₂, hl, hno, hj, he⟩
  · rw [he] at hf
    cases hf
    refine ⟨h.msgs, h.queue, h.busyAlloc, h.active, h.rid, h.own, ?_⟩
    intro x r w hq hw
    have hs := h.signal x r w hq hw
    by_cases hp : (db.service w).partition = p
    · by_cases hg : (db.service w).signal = signal
      · refine absurd ?_ (hno x ((h.queue x p).2 ⟨r, w, hq, hw, hp⟩))
        have hw : (s.conn x).internalMsg.service = some w := hw
        simp [signalOf, hw, hg]
      · rw [hp] at hs
        simpa [hp, hg] using hs
    · simpa [hp] using hs
  · rw [he] at hf
    cases hf

/-- `psa_reply`: the chunk's message is idle again, whatever the switch did to
the chunk itself. -/
theorem MsgInv.reply {db : Db nS nP} {s s₁ : St nS nP} {ml : Fin nP → List Chunk} {k : Chunk}
    {ret : Int} {r : Nat} (h : MsgInv db s ml) (hd : s.busy k = .delivered r)
    (hm : s₁.msgs = s.msgs) (hs : s₁.asserted = s.asserted)
    (ha : ∀ x, x ≠ k → s₁.alloc x = s.alloc x) (hc : ∀ x, x ≠ k → s₁.conn x = s.conn x) :
    MsgInv db (replied s s₁ k ret) ml := by
  have hbusy : ∀ x, (replied s s₁ k ret).busy x = if x = k then .idle else s.busy x := by
    intro x
    simp [replied, Function.update_apply]
  have hconn : ∀ x, x ≠ k → (replied s s₁ k ret).conn x = s.conn x := by
    intro x hx
    simp [replied, setConn_conn, hx, hc x hx]
  have hne : ∀ x, (replied s s₁ k ret).busy x ≠ .idle → x ≠ k := by
    intro x hx he
    exact hx (by simp [hbusy, he])
  refine ⟨?_, ?_, ?_, ?_, ?_, ?_, ?_⟩
  · have hm' : (replied s s₁ k ret).msgs = s.msgs := hm
    exact hm' ▸ h.msgs
  · intro x p
    by_cases hx : x = k
    · subst hx
      rw [h.queue, hbusy]
      simp [hd]
    · rw [hbusy, hconn x hx, if_neg hx]
      exact h.queue x p
  · intro x hb
    have hx := hne x hb
    rw [hbusy, if_neg hx] at hb
    exact (ha x hx).trans (h.busyAlloc x hb)
  · intro x
    by_cases hx : x = k
    · subst hx
      rw [hbusy]
      simp only [replied, setConn_conn, if_true, reduceCtorEq, exists_const, iff_false]
      split <;> simp
    · rw [hbusy, hconn x hx, if_neg hx]
      exact h.active x
  · intro x r' hb
    have hx : x ≠ k := hne x (by rcases hb with hb | hb <;> simp [hb])
    rw [hbusy, if_neg hx] at hb
    rw [hconn x hx]
    exact h.rid x r' hb
  · intro x hb
    have hx := hne x hb
    rw [hbusy, if_neg hx] at hb
    rw [hconn x hx]
    exact h.own x hb
  · intro x r' w hb hw
    have hx : x ≠ k := hne x (by simp [hb])
    rw [hbusy, if_neg hx] at hb
    rw [hconn x hx] at hw
    have hs' : (replied s s₁ k ret).asserted = s.asserted := hs
    rw [hs']
    exact h.signal x r' w hb hw

/-! ## Ledger -/

/-- Every request is in one place: queued, with the service, or answered. -/
structure LogInv (s : St nS nP) : Prop where
  kept : s.overwritten = false
  accepted : ∀ r, r ∈ s.accepted ↔ r < s.next
  acceptedNodup : s.accepted.Nodup
  deliveredNodup : s.delivered.Nodup
  answeredNodup : s.answered.Nodup
  deliveredAccepted : ∀ r ∈ s.delivered, r ∈ s.accepted
  answeredDelivered : ∀ r ∈ s.answered, r ∈ s.delivered
  queued : ∀ r, (∃ k, s.busy k = .queued r) ↔ r ∈ s.accepted ∧ r ∉ s.delivered
  inService : ∀ r, (∃ k, s.busy k = .delivered r) ↔ r ∈ s.delivered ∧ r ∉ s.answered
  queuedInj : ∀ k k' r, s.busy k = .queued r → s.busy k' = .queued r → k = k'
  serviceInj : ∀ k k' r, s.busy k = .delivered r → s.busy k' = .delivered r → k = k'

theorem LogInv.congr {s s' : St nS nP} (h : LogInv s) (ho : s'.overwritten = s.overwritten)
    (hn : s'.next = s.next) (ha : s'.accepted = s.accepted) (hd : s'.delivered = s.delivered)
    (hr : s'.answered = s.answered) (hb : s'.busy = s.busy) : LogInv s' := by
  obtain ⟨h₁, h₂, h₃, h₄, h₅, h₆, h₇, h₈, h₉, h₁₀, h₁₁⟩ := h
  constructor <;> simp only [ho, hn, ha, hd, hr, hb] <;> assumption

theorem LogInv.send {db : Db nS nP} {s : St nS nP} {k : Chunk} {v : Fin nS} {handle : UInt32}
    {type clientId : Int} {invec outvec : List Vec} {callerOutvec : Nat} {cd : Option Nat}
    {o : Origin} (h : LogInv s) (hidle : s.busy k = .idle) :
    LogInv (sendEvent db (fillMsg s k v handle type clientId invec outvec callerOutvec cd o)
      v k) := by
  have hnew : s.next ∉ s.accepted := fun hm => absurd ((h.accepted _).1 hm) (Nat.lt_irrefl _)
  have hnewd : s.next ∉ s.delivered := fun hm => hnew (h.deliveredAccepted _ hm)
  have hbusy : ∀ x, (sendEvent db (fillMsg s k v handle type clientId invec outvec callerOutvec
      cd o) v k).busy x = if x = k then .queued s.next else s.busy x := by
    intro x
    simp [sendEvent, fillMsg, Function.update_apply]
  have hold : ∀ x r, s.busy x = .queued r → r ≠ s.next := by
    intro x r hx he
    exact hnew (he ▸ ((h.queued r).1 ⟨x, hx⟩).1)
  constructor
  · simp [sendEvent, fillMsg, h.kept, hidle]
  · intro r
    simp only [sendEvent, fillMsg, List.mem_cons, h.accepted]
    omega
  · exact List.nodup_cons.2 ⟨hnew, h.acceptedNodup⟩
  · exact h.deliveredNodup
  · exact h.answeredNodup
  · intro r hr
    exact List.mem_cons_of_mem _ (h.deliveredAccepted r hr)
  · exact h.answeredDelivered
  · intro r
    simp only [hbusy]
    have hq := h.queued r
    show (∃ x, _) ↔ r ∈ s.next :: s.accepted ∧ r ∉ s.delivered
    rw [List.mem_cons]
    constructor
    · intro hv
      obtain ⟨x, hx⟩ := hv
      split at hx
      · cases hx
        exact ⟨.inl rfl, hnewd⟩
      · have := hq.1 ⟨x, hx⟩
        exact ⟨.inr this.1, this.2⟩
    · intro hv
      obtain ⟨rfl | hr, hd⟩ := hv
      · exact ⟨k, if_pos rfl⟩
      · obtain ⟨x, hx⟩ := hq.2 ⟨hr, hd⟩
        have hxk : x ≠ k := by
          intro hv
          subst hv
          rw [hidle] at hx
          cases hx
        exact ⟨x, by rw [if_neg hxk]; exact hx⟩
  · intro r
    simp only [hbusy]
    show _ ↔ r ∈ s.delivered ∧ r ∉ s.answered
    rw [← h.inService r]
    constructor
    · intro hv
      obtain ⟨x, hx⟩ := hv
      split at hx
      · cases hx
      · exact ⟨x, hx⟩
    · intro hv
      obtain ⟨x, hx⟩ := hv
      have hxk : x ≠ k := by
        intro hv
        subst hv
        rw [hidle] at hx
        cases hx
      exact ⟨x, by rw [if_neg hxk]; exact hx⟩
  · intro x y r
    simp only [hbusy]
    intro hx hy
    split at hx <;> split at hy
    · rename_i h₁ h₂
      exact h₁.trans h₂.symm
    · cases hx
      exact absurd rfl (hold y _ hy)
    · cases hy
      exact absurd rfl (hold x _ hx)
    · exact h.queuedInj x y r hx hy
  · intro x y r
    simp only [hbusy]
    intro hx hy
    split at hx
    · cases hx
    · split at hy
      · cases hy
      · exact h.serviceInj x y r hx hy

theorem LogInv.get {s s' : St nS nP} {k : Chunk} {r₀ : Nat} (h : LogInv s)
    (hq : s.busy k = .queued r₀) (ho : s'.overwritten = s.overwritten) (hn : s'.next = s.next)
    (ha : s'.accepted = s.accepted) (hd : s'.delivered = r₀ :: s.delivered)
    (hr : s'.answered = s.answered)
    (hb : ∀ x, s'.busy x = if x = k then .delivered r₀ else s.busy x) : LogInv s' := by
  have h₀ := (h.queued r₀).1 ⟨k, hq⟩
  have hans : r₀ ∉ s.answered := fun hm => h₀.2 (h.answeredDelivered _ hm)
  constructor
  · rw [ho, h.kept]
  · intro r
    rw [ha, hn]
    exact h.accepted r
  · exact ha ▸ h.acceptedNodup
  · rw [hd]
    exact List.nodup_cons.2 ⟨h₀.2, h.deliveredNodup⟩
  · exact hr ▸ h.answeredNodup
  · intro r hm
    rw [hd, List.mem_cons] at hm
    rw [ha]
    rcases hm with rfl | hm
    · exact h₀.1
    · exact h.deliveredAccepted r hm
  · intro r hm
    rw [hr] at hm
    rw [hd]
    exact List.mem_cons_of_mem _ (h.answeredDelivered r hm)
  · intro r
    simp only [hb, ha, hd, List.mem_cons, not_or]
    constructor
    · intro he
      obtain ⟨x, hx⟩ := he
      split at hx
      · cases hx
      · rename_i hxk
        have := (h.queued r).1 ⟨x, hx⟩
        refine ⟨this.1, ?_, this.2⟩
        intro he
        subst he
        exact hxk (h.queuedInj x k r hx hq)
    · intro he
      obtain ⟨hm, hne, hnd⟩ := he
      obtain ⟨x, hx⟩ := (h.queued r).2 ⟨hm, hnd⟩
      have hxk : x ≠ k := by
        intro he
        subst he
        rw [hq] at hx
        cases hx
        exact hne rfl
      exact ⟨x, by rw [if_neg hxk]; exact hx⟩
  · intro r
    simp only [hb, hr, hd, List.mem_cons]
    constructor
    · intro he
      obtain ⟨x, hx⟩ := he
      split at hx
      · cases hx
        exact ⟨.inl rfl, hans⟩
      · have := (h.inService r).1 ⟨x, hx⟩
        exact ⟨.inr this.1, this.2⟩
    · intro he
      obtain ⟨rfl | hm, hna⟩ := he
      · exact ⟨k, if_pos rfl⟩
      · obtain ⟨x, hx⟩ := (h.inService r).2 ⟨hm, hna⟩
        have hxk : x ≠ k := by
          intro he
          subst he
          rw [hq] at hx
          cases hx
        exact ⟨x, by rw [if_neg hxk]; exact hx⟩
  · intro x y r
    simp only [hb]
    intro hx hy
    split at hx
    · cases hx
    · split at hy
      · cases hy
      · exact h.queuedInj x y r hx hy
  · intro x y r
    simp only [hb]
    intro hx hy
    have hnew : ∀ z, s.busy z = .delivered r₀ → False :=
      fun z hz => h₀.2 ((h.inService r₀).1 ⟨z, hz⟩).1
    split at hx <;> split at hy
    · rename_i h₁ h₂
      exact h₁.trans h₂.symm
    · cases hx
      exact (hnew y hy).elim
    · cases hy
      exact (hnew x hx).elim
    · exact h.serviceInj x y r hx hy

theorem LogInv.reply {s s' : St nS nP} {k : Chunk} {r₀ : Nat} (h : LogInv s)
    (hq : s.busy k = .delivered r₀) (ho : s'.overwritten = s.overwritten) (hn : s'.next = s.next)
    (ha : s'.accepted = s.accepted) (hd : s'.delivered = s.delivered)
    (hr : s'.answered = r₀ :: s.answered)
    (hb : ∀ x, s'.busy x = if x = k then .idle else s.busy x) : LogInv s' := by
  have h₀ := (h.inService r₀).1 ⟨k, hq⟩
  constructor
  · rw [ho, h.kept]
  · intro r
    rw [ha, hn]
    exact h.accepted r
  · exact ha ▸ h.acceptedNodup
  · exact hd ▸ h.deliveredNodup
  · rw [hr]
    exact List.nodup_cons.2 ⟨h₀.2, h.answeredNodup⟩
  · intro r hm
    rw [ha]
    exact h.deliveredAccepted r (hd ▸ hm)
  · intro r hm
    rw [hr, List.mem_cons] at hm
    rw [hd]
    rcases hm with rfl | hm
    · exact h₀.1
    · exact h.answeredDelivered r hm
  · intro r
    rw [ha, hd, ← h.queued r]
    simp only [hb]
    constructor
    · intro he
      obtain ⟨x, hx⟩ := he
      split at hx
      · cases hx
      · exact ⟨x, hx⟩
    · intro he
      obtain ⟨x, hx⟩ := he
      have hxk : x ≠ k := by
        intro he
        subst he
        rw [hq] at hx
        cases hx
      exact ⟨x, by rw [if_neg hxk]; exact hx⟩
  · intro r
    simp only [hb, hr, hd, List.mem_cons, not_or]
    constructor
    · intro he
      obtain ⟨x, hx⟩ := he
      split at hx
      · cases hx
      · rename_i hxk
        have := (h.inService r).1 ⟨x, hx⟩
        refine ⟨this.1, ?_, this.2⟩
        intro he
        subst he
        exact hxk (h.serviceInj x k r hx hq)
    · intro he
      obtain ⟨hm, hne, hna⟩ := he
      obtain ⟨x, hx⟩ := (h.inService r).2 ⟨hm, hna⟩
      have hxk : x ≠ k := by
        intro he
        subst he
        rw [hq] at hx
        cases hx
        exact hne rfl
      exact ⟨x, by rw [if_neg hxk]; exact hx⟩
  · intro x y r
    simp only [hb]
    intro hx hy
    split at hx
    · cases hx
    · split at hy
      · cases hy
      · exact h.queuedInj x y r hx hy
  · intro x y r
    simp only [hb]
    intro hx hy
    split at hx
    · cases hx
    · split at hy
      · cases hy
      · exact h.serviceInj x y r hx hy

end Tfm.L4.Spm
