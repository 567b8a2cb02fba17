import Tfm.Core.LTS
import Tfm.L4Service.ItsWipe

/-!
# Runs of the ITS filesystem

The filesystem over a flash device as a transition system: it is wiped and prepared,
and then serves calls. `Tab.serve` is what a call does to a mounted filesystem.

Results: `wp_serve`, a call does what `Tab.serve` says, and `Recovers` says what the
next start finds where the power is cut in it; `wp_recover`, a start, which can be
cut as well.
-/
namespace Tfm.L4.Its
open Tfm.BlockDev Tfm.Bytes

/-! ## Calls -/

/-- A valid file id.
mirrors secure_fw/partitions/internal_trusted_storage/its_utils.c:30-43 -/
structure Fid where
  id : Nat
  valid : id ≠ 0
  fits : id < 2 ^ 96

/-- The arguments of `its_flash_fs_file_write`. -/
structure WriteArgs (c : Config) where
  fid : Fid
  flags : Nat
  maxSize : Nat
  dataSize : Nat
  offset : Nat
  data : Nat → UInt8
  flags_lt : flags < 2 ^ 32
  buffer : Buffer c dataSize

theorem WriteArgs.args {c : Config} (a : WriteArgs c) : Args c a.fid.id a.flags a.dataSize :=
  ⟨a.fid.valid, a.fid.fits, a.flags_lt, a.buffer⟩

inductive Req (c : Config)
  | write (a : WriteArgs c)
  | delete (fid : Fid)
  | read (fid : Fid) (size offset : Nat)
  | info (fid : Fid)
  | prepare

inductive Answer
  | done
  | data (l : List UInt8)
  | info (i : FileInfo)
  deriving DecidableEq, Repr

abbrev Reply := Except PsaStatus Answer

def Req.prog (c : Cfg) : Req c.toConfig → M Answer
  | .write a => do
    fileWrite c a.fid.id a.flags a.maxSize a.dataSize a.offset a.data
    pure .done
  | .delete fid => do
    fileDelete c fid.id
    pure .done
  | .read fid size offset => do
    let l ← fileRead c fid.id size offset
    pure (.data l)
  | .info fid => do
    let i ← fileGetInfo c fid.id
    pure (.info i)
  | .prepare => do
    Its.prepare c
    pure .done

/-- It changes nothing. -/
def Req.reads {c : Config} : Req c → Bool
  | .read .. | .info .. => true
  | .write .. | .delete .. | .prepare => false

/-- The filesystem is made and started. -/
def boot (c : Cfg) : M Unit := do
  wipeAll c
  prepare c

section Systems

variable {δ : Type} {α : Type}

/-- The context in RAM and the device. -/
abbrev Sys (δ : Type) : Type := Ctx × δ

def runOn (D : Dev PsaStatus δ) (m : M α) (y : Sys δ) : Except PsaStatus α × Sys δ :=
  let r := (m y.1).run D y.2
  (r.1.1, r.1.2, r.2)

variable (c : Cfg) (D : Dev PsaStatus δ)

def serve (q : Req c.toConfig) (y : Sys δ) : Reply × Sys δ := runOn D (q.prog c) y

/-- The answers to a list of calls, and the state after them. -/
def serveAll : List (Req c.toConfig) → Sys δ → List Reply × Sys δ
  | [], y => ([], y)
  | q :: qs, y =>
    let r := serve c D q y
    let rest := serveAll qs r.2
    (r.1 :: rest.1, rest.2)

/-- Runs from a wipe of any device in `ok`. -/
def fsLts (ok : δ → Prop) : LTS (Sys δ) (Req c.toConfig) where
  init y := ∃ x d, ok d ∧ y = (runOn D (boot c) (x, d)).2
  step y q y' := y' = (serve c D q y).2

end Systems

/-! ## Calls on a mounted filesystem -/

section Pure

variable (c : Cfg) (fill : Option UInt8)

/-- `n` bytes from `off` of a logical block. -/
def Tab.bytes (t : Tab) (l off n : Nat) : List UInt8 :=
  (List.range n).map fun k => (t.data l (off + k)).getD 0

def Tab.read (t : Tab) (fid size offset : Nat) : Reply :=
  match t.find c fid with
  | none => .error .doesNotExist
  | some i =>
    if checkContainedIn (t.fm i).curSize offset size then
      .ok (.data (t.bytes (t.fm i).lblock ((t.fm i).dataIdx + offset) size))
    else .error .invalidArgument

def Tab.info (t : Tab) (fid : Nat) : Reply :=
  match t.find c fid with
  | none => .error .doesNotExist
  | some i => .ok (.info ⟨(t.fm i).curSize, (t.fm i).maxSize, (t.fm i).flags &&& userFlagsMask⟩)

def Tab.writeArgs (t : Tab) (a : WriteArgs c.toConfig) : Except PsaStatus Tab :=
  t.write c fill a.fid.id a.flags a.maxSize a.dataSize a.offset a.data

/-- The answer of an update, and the filesystem after it. -/
def Tab.commit (t : Tab) : Except PsaStatus Tab → Reply × Tab
  | .ok t' => (.ok .done, t')
  | .error e => (.error e, t)

def Tab.serve (t : Tab) : Req c.toConfig → Reply × Tab
  | .write a => t.commit (t.writeArgs c fill a)
  | .delete fid => t.commit (t.delete c fill fid.id)
  | .read fid size offset => (t.read c fid.id size offset, t)
  | .info fid => (t.info c fid.id, t)
  | .prepare => (.ok .done, t)

def Tab.serveAll : List (Req c.toConfig) → Tab → List Reply × Tab
  | [], t => ([], t)
  | q :: qs, t =>
    let r := t.serve c fill q
    let rest := Tab.serveAll qs r.2
    (r.1 :: rest.1, rest.2)

/-- The contents of the files are known. -/
def Tab.Full (t : Tab) : Prop :=
  ∀ i, i < c.maxNumFiles → (t.fm i).used = true → ∀ k, k < (t.fm i).curSize →
    (t.data (t.fm i).lblock ((t.fm i).dataIdx + k)).isSome = true

/-- A call that a device with a write buffer serves. A file is replaced in two
updates, and deleted, in logical block 0 only. -/
def Req.Direct (t : Tab) : Req c.toConfig → Prop
  | .write a => ∀ o new m b,
    t.lookup c a.fid.id a.flags (c.aligned a.maxSize) = .ok (some o, none) →
    t.reserve c a.fid.id a.flags (c.aligned a.maxSize) (some o) none = .ok (new, m, b) →
    (a.dataSize = 0 ∨ m.lblock = 0) ∧ (t.fm o).lblock = 0
  | .delete fid => ∀ i, t.find c fid.id = some i → (t.fm i).lblock = 0
  | _ => True

end Pure

/-! ## A call -/

section Serve

variable {c : Cfg} {bu on : Bool} {x : Ctx} {s : Media} {t : Tab} {C : Media → Prop}

/-- The next start makes `t` of the device. -/
def Recovers (c : Cfg) (r : Rules) (s : Media) (t : Tab) : Prop :=
  ∃ u del, Counts c r s u ∧ Layout c u del ∧ del.elim u (u.deleteIdx c r.fill) = t

theorem Counts.recovers {r : Rules} (h : Counts c r s t) (hl : Layout c t none) :
    Recovers c r s t := ⟨t, none, h, hl, rfl⟩

theorem Rep.recovers (h : Rep c (c.rules bu on) x s t) (hl : Layout c t none) :
    Recovers c (c.rules bu on) s t := (h.counts hl.sane (.refl s)).recovers hl

/-- A refused write leaves what counts. -/
theorem Refused.counts {s' : Media} (h : Rep c (c.rules bu on) x s t) (ht : Sane c t)
    (hr : Refused c (c.rules bu on) t s s') : Counts c (c.rules bu on) s' t := by
  rcases hr with rfl | ⟨hf, _⟩
  · exact h.counts ht (.refl s')
  · refine h.counts ht (hf.mono ?_)
    intro b o hx
    obtain ⟨h1, h2, _⟩ := hx
    exact .inl ⟨h1, Nat.le_trans c.headerSize_le h2⟩

/-- Without a buffer, and where bytes can be written twice, it leaves all. -/
theorem Refused.rep {s' : Media} (h : Rep c (c.rules false false) x s t)
    (hr : Refused c (c.rules false false) t s s') (ht : Sane c t) :
    Rep c (c.rules false false) x s' t := by
  have hcount := hr.counts h ht
  refine ⟨h.ctx, hcount.1, ?_⟩
  rcases hr with rfl | ⟨hf, _⟩
  · exact h.clean
  have hsame : ∀ b o, ¬ Reg t.sm (c.fileMetaOffset 0) c.metaEnd b o → s'.cell b o = s.cell b o :=
    fun b o hn => hf.same b o hn nofun
  refine ⟨fun o ho hout => ?_, fun h2 o ho => ?_, nofun⟩
  · rw [hsame t.sm o]
    · exact h.clean.sm o ho hout
    · intro hx
      obtain ⟨_, h3, h4⟩ := hx
      rcases hout with h5 | h5 | h5 | h5
      · omega
      · omega
      · cases h5
      · cases h5
  · rw [hsame t.sd o]
    · exact h.clean.sd h2 o ho
    · intro hx
      obtain ⟨h3, _, _⟩ := hx
      have := (ht.scratch h2).1
      have := t.sm_lt
      omega

/-- What is known of the contents of a file is what is read. -/
theorem Tab.Full.bytes_eq (h : t.Full c) {i offset n : Nat} {l : List UInt8}
    (hi : i < c.maxNumFiles) (hu : (t.fm i).used = true)
    (hc : checkContainedIn (t.fm i).curSize offset n = true) (hl : l.length = n)
    (hv : ∀ k v, k < n → t.data (t.fm i).lblock ((t.fm i).dataIdx + offset + k) = some v →
      l[k]? = some v) :
    l = t.bytes (t.fm i).lblock ((t.fm i).dataIdx + offset) n := by
  simp only [checkContainedIn, Bool.and_eq_true, decide_eq_true_eq] at hc
  apply List.ext_getElem?
  intro k
  by_cases hk : k < n
  · have hsome := h i hi hu (offset + k) (by omega)
    rw [← Nat.add_assoc] at hsome
    obtain ⟨v, hd⟩ := Option.isSome_iff_exists.1 hsome
    rw [hv k v hk hd]
    simp [Tab.bytes, hk, hd]
  · rw [List.getElem?_eq_none (by omega), List.getElem?_eq_none (by simp [Tab.bytes]; omega)]

/-- A call that reads needs no more than that the filesystem is on the device. -/
theorem wp_reads {Q : Except PsaStatus Answer → Ctx → Media → Prop} {q : Req c.toConfig}
    (hq : q.reads = true) (h : Live c bu on x s t) (hfull : t.Full c) (hs : C s)
    (hQ : Q (t.serve c (c.rules bu on).fill q).1 x s) :
    wp (c.rules bu on) (q.prog c) x s Q C := by
  cases q with
  | read fid size offset =>
    refine wp_bind (wp_fileRead h fid.valid hs (fun hn => ⟨?_, hs⟩) (fun i hi hc => ⟨?_, hs⟩)
      fun i l hi hc hlen hv => wp_pure ?_ hs)
    · simpa only [Tab.serve, Tab.read, hn] using hQ
    · simpa only [Tab.serve, Tab.read, hi, hc, Bool.false_eq_true, if_false] using hQ
    · obtain ⟨h1, h2, _⟩ := Tab.find_used fid.valid hi
      simp only [Tab.serve, Tab.read, hi, hc, if_true] at hQ
      rw [hfull.bytes_eq h1 h2 hc hlen hv]
      exact hQ
  | info fid =>
    refine wp_bind (wp_fileGetInfo h hs (fun hn => ⟨?_, hs⟩) fun i hi => wp_pure ?_ hs)
    · simpa only [Tab.serve, Tab.info, hn] using hQ
    · simpa only [Tab.serve, Tab.info, hi] using hQ
  | write a => cases hq
  | delete fid => cases hq
  | prepare => cases hq

/-- **A call.** It answers and does what the mounted filesystem says; wherever the
power is cut, the next start finds what was there before it or after it. A write
that is refused can leave a mark in the scratch metadata block. -/
theorem wp_serve {Q : Except PsaStatus Answer → Ctx → Media → Prop} {q : Req c.toConfig}
    (h : Rep c (c.rules bu on) x s t) (hl : Layout c t none) (hfull : t.Full c)
    (hq : bu → q.Direct c t)
    (hC : ∀ s', Recovers c (c.rules bu on) s' t ∨
      Recovers c (c.rules bu on) s' (t.serve c (c.rules bu on).fill q).2 → C s')
    (hQe : ∀ e s', t.serve c (c.rules bu on).fill q = (.error e, t) →
      Refused c (c.rules bu on) t s s' → Q (.error e) x s')
    (hQ : ∀ x' s', Rep c (c.rules bu on) x' s' (t.serve c (c.rules bu on).fill q).2 →
      Q (t.serve c (c.rules bu on).fill q).1 x' s') :
    wp (c.rules bu on) (q.prog c) x s Q C := by
  have hs : C s := hC s (.inl (h.recovers hl))
  have hC0 : ∀ s', Counts c (c.rules bu on) s' t → C s' := fun s' hs' =>
    hC s' (.inl (hs'.recovers hl))
  cases q with
  | write a =>
    have hok : ∀ t', t.writeArgs c (c.rules bu on).fill a = .ok t' →
        t.serve c (c.rules bu on).fill (.write a) = (.ok .done, t') := by
      intro t' ht'
      simp only [Tab.serve, ht', Tab.commit]
    have herr : ∀ e, t.writeArgs c (c.rules bu on).fill a = .error e →
        t.serve c (c.rules bu on).fill (.write a) = (.error e, t) := by
      intro e he
      simp only [Tab.serve, he, Tab.commit]
    refine wp_bind (wp_write h hl a.args hq hC0 (fun t1 del s' hu hs' => hC s' (.inr ?_))
      (fun t' s' hw hs' => hC s' (.inr ?_)) (fun e s' hw hr => ?_) fun x' s' t' hw hrep => ?_)
    · refine ⟨t1, del, hs', hl.firstUpdate a.args hu, ?_⟩
      rw [hok _ (Tab.write_ok hu)]
    · rw [hok t' hw]
      exact hs'.recovers (hl.write a.args hw)
    · exact ⟨hQe e s' (herr e hw) hr, hC0 s' (hr.counts h hl.sane)⟩
    · have hfin := hok t' hw
      have hrec := hrep.recovers (hl.write a.args hw)
      rw [hfin] at hQ hC
      exact wp_pure (hQ x' s' hrep) (hC s' (.inr hrec))
  | delete fid =>
    have hok : ∀ i, t.find c fid.id = some i → t.serve c (c.rules bu on).fill (.delete fid) =
        (.ok .done, t.deleteIdx c (c.rules bu on).fill i) := by
      intro i hi
      simp only [Tab.serve, Tab.delete, hi, Tab.commit]
    have hlay : ∀ i, t.find c fid.id = some i →
        Layout c (t.deleteIdx c (c.rules bu on).fill i) none := by
      intro i hi
      obtain ⟨h1, h2, _⟩ := Tab.find_used fid.valid hi
      exact hl.deleteIdx h1 h2 (.inl rfl)
    refine wp_bind (wp_fileDelete h hl fid.valid hq hC0 (fun i hi s' hs' => hC s' (.inr ?_))
      (fun hn => ⟨hQe _ s ?_ (.inl rfl), hs⟩) fun i hi x' s' hrep => ?_)
    · rw [hok i hi]
      exact hs'.recovers (hlay i hi)
    · simp only [Tab.serve, Tab.delete, hn, Tab.commit]
    · have hfin := hok i hi
      have hrec := hrep.recovers (hlay i hi)
      rw [hfin] at hQ hC
      exact wp_pure (hQ x' s' hrep) (hC s' (.inr hrec))
  | read fid size offset =>
    exact wp_reads rfl (h.live hl.sane) hfull hs (hQ x s h)
  | info fid =>
    exact wp_reads rfl (h.live hl.sane) hfull hs (hQ x s h)
  | prepare =>
    exact wp_bind (wp_prepare h.startable hl (fun _ _ h0 => nomatch h0) hC0
      (fun _ h0 => nomatch h0) fun x' s' hrep =>
        wp_pure (hQ x' s' hrep) (hC s' (.inl (hrep.recovers hl))))

/-- **A start** on a device that a call left, when the power was cut in it. Where it
is cut again, the next start makes the same of the device. -/
theorem wp_recover {Q : Except PsaStatus Answer → Ctx → Media → Prop}
    (h : Recovers c (c.rules false on) s t)
    (hC : ∀ s', Recovers c (c.rules false on) s' t → C s')
    (hQ : ∀ x' s', Rep c (c.rules false on) x' s' t → Q (.ok .done) x' s') :
    wp (c.rules false on) (Req.prepare.prog c) x s Q C := by
  obtain ⟨u, del, hu, hl, rfl⟩ := h
  refine wp_bind (wp_prepare hu.startable hl nofun
    (fun s' hs' => hC s' ⟨u, del, hs', hl, rfl⟩) (fun i hi s' hs' => hC s' ?_)
    fun x' s' hrep => wp_pure (hQ x' s' hrep) (hC s' ?_))
  · subst hi
    obtain ⟨h1, h2⟩ := hl.target i rfl
    exact hs'.recovers (hl.deleteIdx h1 h2 (.inr rfl))
  · refine hrep.recovers ?_
    cases del with
    | none => exact hl
    | some i =>
      obtain ⟨h1, h2⟩ := hl.target i rfl
      exact hl.deleteIdx h1 h2 (.inr rfl)

theorem wp_boot {Q : Except PsaStatus Unit → Ctx → Media → Prop}
    (hp : (c.rules bu on).buffered → s.pend = none)
    (hQ : ∀ x' s', Rep c (c.rules bu on) x' s' (Tab.fresh c (c.rules bu on).fill) →
      Q (.ok ()) x' s') :
    wp (c.rules bu on) (boot c) x s Q fun _ => True :=
  wp_bind (wp_wipeAll hp fun _ _ hst => wp_prepare hst Layout.fresh (fun _ _ h0 => nomatch h0)
    (fun _ _ => trivial) (fun _ h0 => nomatch h0) hQ)

end Serve

/-! ## Runs -/

section Runs

variable {c : Cfg} {fill : Option UInt8} {t : Tab}

/-- A call keeps the layout. -/
theorem Layout.serve (hl : Layout c t none) (q : Req c.toConfig) :
    Layout c (t.serve c fill q).2 none := by
  cases q with
  | write a =>
    unfold Tab.serve
    dsimp only
    cases hw : t.writeArgs c fill a with
    | error e => exact hl
    | ok t' => exact hl.write a.args hw
  | delete fid =>
    unfold Tab.serve Tab.delete
    dsimp only
    cases hf : t.find c fid.id with
    | none => exact hl
    | some i =>
      obtain ⟨h1, h2, _⟩ := Tab.find_used fid.valid hf
      exact hl.deleteIdx h1 h2 (.inl rfl)
  | read | info | prepare => exact hl

/-- All contents are known. -/
def Tab.Known (t : Tab) : Prop := ∀ l o, (t.data l o).isSome = true

theorem Tab.Known.full (h : t.Known) : t.Full c := fun i _ _ k _ =>
  h (t.fm i).lblock ((t.fm i).dataIdx + k)

theorem known_update {l : Nat} {b : BlockMeta} {fm : Nat → FileMeta}
    {dl : Option (Nat → Option UInt8)} (h : t.Known) (hfill : fill.isSome = true)
    (hdl : ∀ d, dl = some d → ∀ o, (d o).isSome = true) : (t.update c fill l b fm dl).Known := by
  intro k o
  unfold Tab.update
  dsimp only
  split
  · next hk =>
    obtain ⟨d, rfl⟩ := Option.isSome_iff_exists.1 hk.2
    exact hdl d rfl o
  · split
    · unfold Tab.moved0
      split
      · exact h 0 o
      · exact hfill
    · exact h k o

theorem known_deleteIdx {i : Nat} (h : t.Known) (hfill : fill.isSome = true) :
    (t.deleteIdx c fill i).Known := by
  refine known_update h hfill fun d hd o => ?_
  cases hd
  unfold compacted
  split
  · exact h _ _
  · split
    · exact h _ _
    · exact hfill

theorem known_writeData {m m' : FileMeta} {b : BlockMeta} {dataSize offset : Nat}
    {data : Nat → UInt8} {dl : Option (Nat → Option UInt8)} (h : t.Known)
    (hfill : fill.isSome = true)
    (hd : t.writeData c fill m b dataSize offset data = .ok (m', dl)) :
    ∀ d, dl = some d → ∀ o, (d o).isSome = true := by
  intro d hx o
  subst hx
  unfold Tab.writeData at hd
  split at hd
  · cases hd
  · split at hd
    · cases hd
      unfold rewritten
      split
      · exact h _ _
      · split
        · rfl
        · split
          · exact h _ _
          · exact hfill
    · cases hd

theorem Tab.Known.serve (h : t.Known) (hfill : fill.isSome = true) (q : Req c.toConfig) :
    (t.serve c fill q).2.Known := by
  cases q with
  | write a =>
    unfold Tab.serve
    dsimp only
    cases hw : t.writeArgs c fill a with
    | error e => exact h
    | ok t' =>
      obtain ⟨t1, del, hu, rfl⟩ := Tab.write_eq hw
      obtain ⟨_, old, reuse, new, m, b, m', dl, _, _, hd, rfl, _⟩ := Tab.firstUpdate_eq hu
      have h1 : (t.update c fill m'.lblock b (t.table old new m') dl).Known :=
        known_update h hfill (known_writeData h hfill hd)
      cases del with
      | none => exact h1
      | some o => exact known_deleteIdx h1 hfill
  | delete fid =>
    unfold Tab.serve Tab.delete
    dsimp only
    cases hf : t.find c fid.id with
    | none => exact h
    | some i => exact known_deleteIdx h hfill
  | read | info | prepare => exact h

end Runs

end Tfm.L4.Its
