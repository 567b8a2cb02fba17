import Tfm.L4Service.ItsCrash
import Tfm.L4Service.ItsWrite

/-!
# The ITS service

Model of tfm_internal_trusted_storage.c: a file is set and got in chunks that fit the
asset buffer, which has any size. With Protected Storage the partition has two
filesystems, on two flash devices; the client says which of them is used.

The data of a `set` is what the caller has, and behind it whatever is in the asset
buffer. A `get` returns the number of bytes that is reported, and the bytes that are
delivered.

`fsWp` is a rule of the same kind as `wp`, one level up: a program made of filesystem
calls, on a mounted filesystem.

Results: rules for the calls and for the two loops; `Holds.step`, what a call or a
start keeps of both filesystems, also where the power is cut in it.
-/
namespace Tfm.L4.Its
open Tfm.BlockDev Tfm.Bytes

/-! ## Flags and file ids -/

/-- `PSA_STORAGE_FLAG_WRITE_ONCE` -/
def storageFlagWriteOnce : UInt32 := 1

/-- `PSA_STORAGE_FLAG_NO_CONFIDENTIALITY` -/
def storageFlagNoConfidentiality : UInt32 := 2

/-- `PSA_STORAGE_FLAG_NO_REPLAY_PROTECTION` -/
def storageFlagNoReplayProtection : UInt32 := 4

/-- The flags that `tfm_its_set` takes. -/
def supportedFlags : UInt32 :=
  storageFlagWriteOnce ||| storageFlagNoConfidentiality ||| storageFlagNoReplayProtection

/-- The two flags of the first chunk. -/
def createFlags : UInt32 := UInt32.ofNat flagCreate ||| UInt32.ofNat flagTruncate

/-- The four bytes of the client id, and the eight of the uid.
mirrors secure_fw/partitions/internal_trusted_storage/tfm_internal_trusted_storage.c:75-88 -/
def getFid (client : UInt32) (uid : UInt64) : Nat := client.toNat + 2 ^ 32 * uid.toNat

/-- `struct psa_storage_info_t` -/
structure StorageInfo where
  capacity : Nat
  size : Nat
  flags : Nat
  deriving DecidableEq, Repr

/-! ## Calls of the service -/

section Calls

variable (c : Cfg) (buf : Nat)

/-- What `tfm_its_set` checks of a file that exists.
mirrors secure_fw/partitions/internal_trusted_storage/tfm_internal_trusted_storage.c:272-290 -/
def setCheck (fid : Nat) : M Unit := do
  match ← attempt (fileGetInfo c fid) with
  | .ok i => if i.flags &&& storageFlagWriteOnce.toNat ≠ 0 then throw .notPermitted
  | .error .doesNotExist => pure ()
  | .error e => throw e

/-- The loop of `tfm_its_set`; every iteration but the last writes a byte at least.
mirrors secure_fw/partitions/internal_trusted_storage/tfm_internal_trusted_storage.c:292-317 -/
def setLoop (fid : Nat) (data : Nat → UInt8) : Nat → UInt32 → Nat → Nat → M Unit
  | 0, _, _, _ => pure ()
  | fuel + 1, flags, dataLength, offset => do
    let writeSize := min dataLength buf
    fileWrite c fid flags.toNat dataLength writeSize offset fun k => data (offset + k)
    if 0 < dataLength - writeSize then
      -- only the first chunk creates or truncates
      setLoop fid data fuel (flags &&& ~~~createFlags) (dataLength - writeSize) (offset + writeSize)

/-- mirrors secure_fw/partitions/internal_trusted_storage/tfm_internal_trusted_storage.c:246-318 -/
def tfmItsSet (client : UInt32) (uid : UInt64) (dataLength : Nat) (flags : UInt32)
    (data : Nat → UInt8) : M Unit := do
  if uid = 0 then throw .invalidArgument
  if flags &&& ~~~supportedFlags ≠ 0 then throw .notSupported
  setCheck c (getFid client uid)
  setLoop c buf (getFid client uid) data (dataLength + 1) (flags ||| createFlags) dataLength 0

/-- The loop of `tfm_its_get`.
mirrors secure_fw/partitions/internal_trusted_storage/tfm_internal_trusted_storage.c:364-385 -/
def getLoop (fid : Nat) : Nat → Nat → Nat → M (List UInt8)
  | 0, _, _ => pure []
  | fuel + 1, dataOffset, dataSize => do
    let readSize := min dataSize buf
    let l ← fileRead c fid readSize dataOffset
    if 0 < dataSize - readSize then
      let rest ← getLoop fid fuel (dataOffset + readSize) (dataSize - readSize)
      pure (l ++ rest)
    else pure l

/-- mirrors secure_fw/partitions/internal_trusted_storage/tfm_internal_trusted_storage.c:320-388 -/
def tfmItsGet (client : UInt32) (uid : UInt64) (dataOffset dataSize : Nat) :
    M (Nat × List UInt8) := do
  if uid = 0 then throw .invalidArgument
  let i ← fileGetInfo c (getFid client uid)
  if i.sizeCurrent < dataOffset then throw .invalidArgument
  let n := min dataSize (i.sizeCurrent - dataOffset)
  let l ← getLoop c buf (getFid client uid) (n + 1) dataOffset n
  pure (n, l)

/-- mirrors secure_fw/partitions/internal_trusted_storage/tfm_internal_trusted_storage.c:390-416 -/
def tfmItsGetInfo (client : UInt32) (uid : UInt64) : M StorageInfo := do
  if uid = 0 then throw .invalidArgument
  let i ← fileGetInfo c (getFid client uid)
  pure ⟨i.sizeCurrent, i.sizeCurrent, i.flags⟩

/-- mirrors secure_fw/partitions/internal_trusted_storage/tfm_internal_trusted_storage.c:418-454 -/
def tfmItsRemove (client : UInt32) (uid : UInt64) : M Unit := do
  if uid = 0 then throw .invalidArgument
  let i ← fileGetInfo c (getFid client uid)
  if i.flags &&& storageFlagWriteOnce.toNat ≠ 0 then throw .notPermitted
  fileDelete c (getFid client uid)

/-- The start of one filesystem; `create` is `ITS_CREATE_FLASH_LAYOUT` or
`PS_CREATE_FLASH_LAYOUT`.
mirrors secure_fw/partitions/internal_trusted_storage/tfm_internal_trusted_storage.c:171-200 -/
def startFs (create : Bool) : M Unit := do
  match ← attempt (prepare c) with
  | .ok () => pure ()
  | .error e =>
    if create then do
      wipeAll c
      prepare c
    else throw e

end Calls

/-! ## The partition -/

inductive Fs
  | its
  | ps
  deriving DecidableEq, Repr

/-- The settings of the partition. -/
structure Setup where
  cfg : Fs → Cfg
  /-- the size of `asset_data` -/
  buf : Nat
  /-- `TFM_PARTITION_PROTECTED_STORAGE` -/
  psOn : Bool
  /-- `TFM_SP_PS` -/
  spPs : UInt32
  /-- `ITS_CREATE_FLASH_LAYOUT` and `PS_CREATE_FLASH_LAYOUT` -/
  create : Fs → Bool
  buf_pos : 0 < buf
  buf_aligned : ∀ s, (cfg s).programUnit ∣ buf
  buf_room : ∀ s, Buffer (cfg s).toConfig buf

/-- mirrors secure_fw/partitions/internal_trusted_storage/tfm_internal_trusted_storage.c:65-73 -/
def Setup.getFsCtx (P : Setup) (client : UInt32) : Fs :=
  if P.psOn && client = P.spPs then .ps else .its

/-- The filesystems that there are. -/
def Setup.Has (P : Setup) (s : Fs) : Prop := s = .its ∨ P.psOn = true

theorem Setup.has_getFsCtx (P : Setup) (client : UInt32) : P.Has (P.getFsCtx client) := by
  unfold Setup.Has Setup.getFsCtx
  cases P.psOn with
  | true => exact .inr rfl
  | false => exact .inl rfl

inductive Call
  | set (client : UInt32) (uid : UInt64) (dataLength : Nat) (flags : UInt32) (data : Nat → UInt8)
  | get (client : UInt32) (uid : UInt64) (dataOffset dataSize : Nat)
  | getInfo (client : UInt32) (uid : UInt64)
  | remove (client : UInt32) (uid : UInt64)

inductive Result
  | done
  | data (length : Nat) (l : List UInt8)
  | info (i : StorageInfo)
  deriving DecidableEq, Repr

def Call.client : Call → UInt32
  | .set client .. | .get client .. | .getInfo client _ | .remove client _ => client

def Call.uid : Call → UInt64
  | .set _ uid .. | .get _ uid .. | .getInfo _ uid | .remove _ uid => uid

/-- A call, over the filesystem `c`. -/
def Call.prog (c : Cfg) (buf : Nat) : Call → M Result
  | .set client uid dataLength flags data => do
    tfmItsSet c buf client uid dataLength flags data
    pure .done
  | .get client uid dataOffset dataSize => do
    let r ← tfmItsGet c buf client uid dataOffset dataSize
    pure (.data r.1 r.2)
  | .getInfo client uid => do
    let i ← tfmItsGetInfo c client uid
    pure (.info i)
  | .remove client uid => do
    tfmItsRemove c client uid
    pure .done

/-- Both filesystems. -/
abbrev Stores : Type := Fs → Sys Flash

namespace Setup

variable (P : Setup)

def fsOf (q : Call) : Fs := P.getFsCtx q.client

def prog (q : Call) : M Result := q.prog (P.cfg (P.fsOf q)) P.buf

/-- Run a program over one of the filesystems. -/
def runFs {α : Type} (s : Fs) (m : M α) (z : Stores) : Except PsaStatus α × Stores :=
  let r := runOn (memOps (P.cfg s).toConfig) m (z s)
  (r.1, Function.update z s r.2)

def serve (q : Call) (z : Stores) : Except PsaStatus Result × Stores :=
  P.runFs (P.fsOf q) (P.prog q) z

def start (s : Fs) : M Unit := startFs (P.cfg s) (P.create s)

/-- mirrors secure_fw/partitions/internal_trusted_storage/tfm_internal_trusted_storage.c:159-244 -/
def tfmItsInit (z : Stores) : Except PsaStatus Unit × Stores :=
  match P.runFs .its (P.start .its) z with
  | (.error e, z) => (.error e, z)
  | (.ok (), z) => if P.psOn then P.runFs .ps (P.start .ps) z else (.ok (), z)

end Setup

/-! ## Power cuts -/

/-- The flash where the power is cut in `m`. -/
def CutOf {α : Type} (c : Cfg) (m : M α) (y : Sys Flash) (f : Flash) : Prop :=
  (m y.1).Cut (memOps c.toConfig) (Flash.tear c.toConfig) y.2 f

/-- The flash of both filesystems. -/
abbrev Stores.flash (z : Stores) : Fs → Flash := fun s => (z s).2

/-- The flash where the power is cut in a program over one of the filesystems. -/
def Setup.CutFs {α : Type} (P : Setup) (s : Fs) (m : M α) (z : Stores) (f : Fs → Flash) : Prop :=
  ∃ g, CutOf (P.cfg s) m (z s) g ∧ f = Function.update z.flash s g

/-- The power is cut in `tfm_its_init`. -/
def Setup.CutInit (P : Setup) (z : Stores) (f : Fs → Flash) : Prop :=
  P.CutFs .its (P.start .its) z f ∨
    P.psOn = true ∧ (P.runFs .its (P.start .its) z).1 = .ok () ∧
      P.CutFs .ps (P.start .ps) (P.runFs .its (P.start .its) z).2 f

/-- The partition serves, or the power is off. -/
inductive Device
  | on (z : Stores)
  | off (f : Fs → Flash)

inductive Event
  | call (q : Call)
  /-- the power is cut in a call -/
  | cut (q : Call)
  /-- the power is cut in `tfm_its_init` -/
  | cutStart
  | start

/-- What was in RAM is lost with the power. -/
inductive Setup.Step (P : Setup) : Device → Event → Device → Prop
  | call (q : Call) (z : Stores) : P.Step (.on z) (.call q) (.on (P.serve q z).2)
  | cut {q : Call} {z : Stores} {f : Fs → Flash} (h : P.CutFs (P.fsOf q) (P.prog q) z f) :
    P.Step (.on z) (.cut q) (.off f)
  | cutStart {f f' : Fs → Flash} {x : Fs → Ctx} (h : P.CutInit (fun s => (x s, f s)) f') :
    P.Step (.off f) .cutStart (.off f')
  | start {f : Fs → Flash} {x : Fs → Ctx} (h : (P.tfmItsInit fun s => (x s, f s)).1 = .ok ()) :
    P.Step (.off f) .start (.on (P.tfmItsInit fun s => (x s, f s)).2)

/-- The runs from two filesystems that were just made. -/
def svcLts (P : Setup) : LTS Device Event where
  init d := ∃ z : Stores, d = .on z ∧ ∀ s, P.Has s → (memLts (P.cfg s)).init (z s)
  step := P.Step

/-! ## Programs over a mounted filesystem -/

section Logic

variable {c : Cfg} {α β : Type} {t : Tab} {y : Sys Flash} {f : Flash} {C : Tab → Prop}

theorem runOn_bind {δ : Type} (D : Dev PsaStatus δ) (m : M α) (g : α → M β) (y : Sys δ) :
    runOn D (m >>= g) y = match (runOn D m y).1 with
      | .ok a => runOn D (g a) (runOn D m y).2
      | .error e => (.error e, (runOn D m y).2) := by
  unfold runOn
  dsimp only
  rw [show (m >>= g) y.1 = (m y.1).bind _ from rfl, Io.run_bind]
  generalize (m y.1).run D y.2 = r
  obtain ⟨⟨r, x⟩, d⟩ := r
  cases r with
  | ok a => rfl
  | error e => rfl

theorem runOn_attempt {δ : Type} (D : Dev PsaStatus δ) (m : M α) (y : Sys δ) :
    runOn D (attempt m) y = (.ok (runOn D m y).1, (runOn D m y).2) := by
  unfold runOn attempt
  dsimp only
  rw [Io.run_bind]
  rfl

/-- A cut in a sequence. -/
theorem CutOf.of_bind {m : M α} {g : α → M β} (h : CutOf c (m >>= g) y f) :
    CutOf c m y f ∨ match (runOn (memOps c.toConfig) m y).1 with
      | .ok a => CutOf c (g a) (runOn (memOps c.toConfig) m y).2 f
      | .error _ => f = (runOn (memOps c.toConfig) m y).2.2 := by
  rcases Io.Cut.of_bind h with h | h
  · exact .inl h
  · right
    unfold CutOf runOn
    revert h
    generalize (m y.1).run (memOps c.toConfig) y.2 = r
    obtain ⟨⟨r, x⟩, d⟩ := r
    cases r with
    | ok a => exact id
    | error e =>
      intro h
      cases h
      rfl

theorem CutOf.bind {m : M α} (h : CutOf c m y f) (g : α → M β) : CutOf c (m >>= g) y f :=
  Io.Cut.bind h _

/-- A cut in what comes after `m`. -/
theorem CutOf.append {m : M α} {g : α → M β} {a : α} {y' : Sys Flash}
    (hm : runOn (memOps c.toConfig) m y = (.ok a, y')) (h : CutOf c (g a) y' f) :
    CutOf c (m >>= g) y f := by
  refine Io.Cut.append ?_
  unfold runOn at hm
  dsimp only at hm
  revert hm
  generalize (m y.1).run (memOps c.toConfig) y.2 = r
  obtain ⟨⟨r, x⟩, d⟩ := r
  intro hm
  cases hm
  exact h

/-- The next start makes a filesystem in `C` of the flash. -/
def Restores (c : Cfg) (f : Flash) (C : Tab → Prop) : Prop :=
  ∃ t, Recoverable c f t ∧ Layout c t none ∧ t.Known ∧ C t

theorem Restores.mono {C' : Tab → Prop} (h : Restores c f C) (hC : ∀ t, C t → C' t) :
    Restores c f C' := by
  obtain ⟨t, h1, h2, h3, h4⟩ := h
  exact ⟨t, h1, h2, h3, hC t h4⟩

theorem Mounted.recoverable (h : Mounted c y t) : Recoverable c y.2 t := by
  obtain ⟨s, hs, hrep⟩ := h.held
  exact ⟨s, hs, hrep.recovers h.layout⟩

theorem Mounted.restores (h : Mounted c y t) (hC : C t) : Restores c y.2 C :=
  ⟨t, h.recoverable, h.layout, h.known, hC⟩

/-- From every filesystem that holds `t`, `m` ends in `Q`; where the power is cut, the
next start makes a filesystem in `C`. -/
def fsWp (c : Cfg) (m : M α) (t : Tab) (Q : Except PsaStatus α → Tab → Prop) (C : Tab → Prop) :
    Prop :=
  ∀ y, Mounted c y t →
    (∃ t', Mounted c (runOn (memOps c.toConfig) m y).2 t' ∧
      Q (runOn (memOps c.toConfig) m y).1 t') ∧
    ∀ f, CutOf c m y f → Restores c f C

variable {Q : Except PsaStatus α → Tab → Prop}

theorem fsWp_pure {a : α} (h : Q (.ok a) t) (hC : C t) : fsWp c (pure a) t Q C := by
  intro y hy
  refine ⟨⟨t, hy, h⟩, fun f hf => ?_⟩
  cases hf
  exact hy.restores hC

theorem fsWp_throw {e : PsaStatus} (h : Q (.error e) t) (hC : C t) : fsWp c (throw e) t Q C := by
  intro y hy
  refine ⟨⟨t, hy, h⟩, fun f hf => ?_⟩
  cases hf
  exact hy.restores hC

theorem fsWp_bind {m : M β} {g : β → M α}
    (h : fsWp c m t (fun r t' => match r with
      | .ok b => fsWp c (g b) t' Q C
      | .error e => Q (.error e) t' ∧ C t') C) : fsWp c (m >>= g) t Q C := by
  intro y hy
  obtain ⟨⟨t', hy', hr⟩, hcut⟩ := h y hy
  have hrest : (∃ t'', Mounted c (runOn (memOps c.toConfig) (m >>= g) y).2 t'' ∧
      Q (runOn (memOps c.toConfig) (m >>= g) y).1 t'') ∧
      ∀ f, (match (runOn (memOps c.toConfig) m y).1 with
        | .ok a => CutOf c (g a) (runOn (memOps c.toConfig) m y).2 f
        | .error _ => f = (runOn (memOps c.toConfig) m y).2.2) → Restores c f C := by
    rw [runOn_bind]
    cases hm : (runOn (memOps c.toConfig) m y).1 with
    | ok b =>
      rw [hm] at hr
      exact hr _ hy'
    | error e =>
      rw [hm] at hr
      exact ⟨⟨t', hy', hr.1⟩, fun f hf => hf ▸ hy'.restores hr.2⟩
  exact ⟨hrest.1, fun f hf => (hf.of_bind).elim (hcut f) (hrest.2 f)⟩

theorem fsWp_mono {m : M α} {Q' : Except PsaStatus α → Tab → Prop} {C' : Tab → Prop}
    (h : fsWp c m t Q C) (hQ : ∀ r t', Q r t' → Q' r t') (hC : ∀ t', C t' → C' t') :
    fsWp c m t Q' C' := by
  intro y hy
  obtain ⟨⟨t', hy', hr⟩, hcut⟩ := h y hy
  exact ⟨⟨t', hy', hQ _ _ hr⟩, fun f hf => (hcut f hf).mono hC⟩

theorem fsWp_attempt {m : M β} {Q : Except PsaStatus (Except PsaStatus β) → Tab → Prop}
    (h : fsWp c m t (fun r t' => Q (.ok r) t' ∧ C t') C) : fsWp c (attempt m) t Q C := by
  intro y hy
  obtain ⟨⟨t', hy', hr⟩, hcut⟩ := h y hy
  rw [runOn_attempt]
  refine ⟨⟨t', hy', hr.1⟩, fun f hf => (Io.Cut.of_bind hf).elim (hcut f) fun hf => ?_⟩
  cases hf
  exact hy'.restores hr.2

theorem fsWp_map {m : M β} {g : β → α} (h : fsWp c m t (fun r t' => Q (r.map g) t' ∧ C t') C) :
    fsWp c (m >>= fun b => pure (g b)) t Q C := by
  refine fsWp_bind (fsWp_mono h (fun r t' hr => ?_) fun _ hC => hC)
  cases r with
  | ok b => exact fsWp_pure hr.1 hr.2
  | error e => exact hr

/-- A call of the filesystem that `Req.prog` wraps. -/
theorem fsWp_req {m : M β} {g : β → Answer} {q : Req c.toConfig}
    {Q : Except PsaStatus β → Tab → Prop} (hq : q.prog c = m >>= fun b => pure (g b)) (hC : C t)
    (hC' : C (t.serve c (some c.eraseVal) q).2)
    (hQ : ∀ r : Except PsaStatus β, r.map g = (t.serve c (some c.eraseVal) q).1 →
      Q r (t.serve c (some c.eraseVal) q).2) : fsWp c m t Q C := by
  intro y hy
  have hserve := hy.serve q
  have hrun : memServe c q y = ((runOn (memOps c.toConfig) m y).1.map g,
      (runOn (memOps c.toConfig) m y).2) := by
    unfold memServe Its.serve
    rw [hq, runOn_bind]
    cases (runOn (memOps c.toConfig) m y).1 with
    | ok b => rfl
    | error e => rfl
  rw [hrun] at hserve
  refine ⟨⟨_, hserve.2, hQ _ hserve.1⟩, fun f hf => ?_⟩
  have hcut : CutIn c q y f := by
    unfold CutIn
    rw [hq]
    exact CutOf.bind hf _
  rcases hy.cut hcut with hr | hr
  · exact ⟨t, hr, hy.layout, hy.known, hC⟩
  · exact ⟨_, hr, hserve.2.layout, hserve.2.known, hC'⟩

theorem fsWp_layout {m : M α} (h : Layout c t none → fsWp c m t Q C) : fsWp c m t Q C :=
  fun y hy => h hy.layout y hy

end Logic

/-! ## The calls of the filesystem -/

section Rules

variable {c : Cfg} {t : Tab} {C : Tab → Prop} {fid : Nat}

theorem Tab.info_cases (c : Cfg) (t : Tab) (fid : Nat) :
    t.info c fid = .error .doesNotExist ∨ ∃ i, t.info c fid = .ok (.info i) := by
  unfold Tab.info
  split
  · exact .inl rfl
  · exact .inr ⟨_, rfl⟩

/-- An update of the filesystem: it is done, or refused. -/
theorem fsWp_update {m : M Unit} {q : Req c.toConfig} {u : Except PsaStatus Tab}
    {Q : Except PsaStatus Unit → Tab → Prop} (hm : q.prog c = m >>= fun _ => pure .done)
    (hq : t.serve c (some c.eraseVal) q = t.commit u) (hC : C t)
    (hok : ∀ t', u = .ok t' → Q (.ok ()) t' ∧ C t') (herr : ∀ e, u = .error e → Q (.error e) t) :
    fsWp c m t Q C := by
  refine fsWp_req (g := fun _ => .done) hm hC ?_ fun r hr => ?_
  · rw [hq]
    cases u with
    | ok t' => exact (hok t' rfl).2
    | error e => exact hC
  · rw [hq] at hr ⊢
    cases u with
    | ok t' =>
      cases r with
      | ok v => exact (hok t' rfl).1
      | error e => cases hr
    | error e =>
      cases r with
      | ok v => cases hr
      | error e' =>
        cases hr
        exact herr e rfl

theorem fsWp_fileWrite {a : WriteArgs c.toConfig} {Q : Except PsaStatus Unit → Tab → Prop}
    (hC : C t) (hok : ∀ t', t.writeArgs c (some c.eraseVal) a = .ok t' → Q (.ok ()) t' ∧ C t')
    (herr : ∀ e, t.writeArgs c (some c.eraseVal) a = .error e → Q (.error e) t) :
    fsWp c (fileWrite c a.fid.id a.flags a.maxSize a.dataSize a.offset a.data) t Q C :=
  fsWp_update (q := .write a) rfl rfl hC hok herr

theorem fsWp_fileDelete {f : Fid} {Q : Except PsaStatus Unit → Tab → Prop} (hC : C t)
    (hok : ∀ i, t.find c f.id = some i → Q (.ok ()) (t.deleteIdx c (some c.eraseVal) i) ∧
      C (t.deleteIdx c (some c.eraseVal) i))
    (hno : t.find c f.id = none → Q (.error .doesNotExist) t) :
    fsWp c (fileDelete c f.id) t Q C := by
  refine fsWp_update (q := .delete f) rfl rfl hC (fun t' hd => ?_) fun e hd => ?_
  · unfold Tab.delete at hd
    cases hf : t.find c f.id with
    | some i =>
      rw [hf] at hd
      cases hd
      exact hok i hf
    | none =>
      rw [hf] at hd
      cases hd
  · unfold Tab.delete at hd
    cases hf : t.find c f.id with
    | some i =>
      rw [hf] at hd
      cases hd
    | none =>
      rw [hf] at hd
      cases hd
      exact hno hf

theorem fsWp_fileGetInfo {f : Fid} {Q : Except PsaStatus FileInfo → Tab → Prop} (hC : C t)
    (hno : t.info c f.id = .error .doesNotExist → Q (.error .doesNotExist) t)
    (hok : ∀ i, t.info c f.id = .ok (.info i) → Q (.ok i) t) :
    fsWp c (fileGetInfo c f.id) t Q C := by
  refine fsWp_req (q := .info f) (g := .info) rfl hC hC fun r hr => ?_
  have hr : r.map Answer.info = t.info c f.id := hr
  rcases t.info_cases c f.id with hi | ⟨i, hi⟩
  · rw [hi] at hr
    cases r with
    | ok j => cases hr
    | error e =>
      cases hr
      exact hno hi
  · rw [hi] at hr
    cases r with
    | ok j =>
      cases hr
      exact hok i hi
    | error e => cases hr

theorem fsWp_fileRead {f : Fid} {size offset : Nat}
    {Q : Except PsaStatus (List UInt8) → Tab → Prop} (hC : C t)
    (hok : ∀ l, t.read c f.id size offset = .ok (.data l) → Q (.ok l) t)
    (herr : ∀ e, t.read c f.id size offset = .error e → Q (.error e) t) :
    fsWp c (fileRead c f.id size offset) t Q C := by
  refine fsWp_req (q := .read f size offset) (g := .data) rfl hC hC fun r hr => ?_
  have hr : r.map Answer.data = t.read c f.id size offset := hr
  cases r with
  | ok l => exact hok l hr.symm
  | error e => exact herr e hr.symm

end Rules

/-! ## The calls of the service -/

section Service

variable {c : Cfg} {t : Tab} {C : Tab → Prop} {buf : Nat} {f : Fid} {data : Nat → UInt8}
  {client : UInt32} {uid : UInt64}

theorem getFid_ne_zero (client : UInt32) (h : uid ≠ 0) : getFid client uid ≠ 0 := by
  have hu : uid.toNat ≠ 0 := fun h0 => h (UInt64.toNat_inj.1 h0)
  unfold getFid
  omega

theorem getFid_lt (client : UInt32) (uid : UInt64) : getFid client uid < 2 ^ 96 := by
  have h1 := client.toNat_lt
  have h2 := uid.toNat_lt
  unfold getFid
  omega

theorem getFid_inj {client' : UInt32} {uid' : UInt64}
    (h : getFid client uid = getFid client' uid') : client = client' ∧ uid = uid' := by
  have h1 := client.toNat_lt
  have h2 := client'.toNat_lt
  unfold getFid at h
  exact ⟨UInt32.toNat_inj.1 (by omega), UInt64.toNat_inj.1 (by omega)⟩

/-- The file of an asset. -/
def assetFid (client : UInt32) (uid : UInt64) (h : uid ≠ 0) : Fid :=
  ⟨getFid client uid, getFid_ne_zero client h, getFid_lt client uid⟩

/-- A chunk of `tfm_its_set`. -/
def chunk (c : Cfg) (hb : Buffer c.toConfig buf) (f : Fid) (data : Nat → UInt8) (flags : UInt32)
    (n offset : Nat) : WriteArgs c.toConfig where
  fid := f
  flags := flags.toNat
  maxSize := n
  dataSize := min n buf
  offset := offset
  data k := data (offset + k)
  flags_lt := flags.toNat_lt
  buffer := Nat.le_trans (Nat.add_le_add_right (Nat.min_le_right n buf) _) hb

/-- The loop of `tfm_its_set`: `J` holds before every chunk. -/
theorem fsWp_setLoop (hb : Buffer c.toConfig buf) (hpos : 0 < buf)
    {J : UInt32 → Nat → Nat → Tab → Prop} {Q : Except PsaStatus Unit → Tab → Prop}
    (hJ : ∀ fl n off t, J fl n off t → C t)
    (hstep : ∀ fl n off t t', J fl n off t → Layout c t none →
      t.writeArgs c (some c.eraseVal) (chunk c hb f data fl n off) = .ok t' →
      if 0 < n - min n buf then J (fl &&& ~~~createFlags) (n - min n buf) (off + min n buf) t'
      else Q (.ok ()) t' ∧ C t')
    (herr : ∀ fl n off t e, J fl n off t →
      t.writeArgs c (some c.eraseVal) (chunk c hb f data fl n off) = .error e → Q (.error e) t)
    (fuel : Nat) : ∀ {fl : UInt32} {n off : Nat} {t : Tab}, n < fuel → J fl n off t →
      fsWp c (setLoop c buf f.id data fuel fl n off) t Q C := by
  induction fuel with
  | zero => exact fun hn => absurd hn (Nat.not_lt_zero _)
  | succ fuel ih =>
    intro fl n off t hn hj
    refine fsWp_layout fun hl => fsWp_bind (fsWp_fileWrite (a := chunk c hb f data fl n off)
      (hJ fl n off t hj) (fun t' hw => ?_) fun e he => ⟨herr fl n off t e hj he, hJ fl n off t hj⟩)
    have hnext := hstep fl n off t t' hj hl hw
    split at hnext
    · next hmore =>
      simp only [if_pos hmore]
      exact ⟨ih (by omega) hnext, hJ _ _ _ _ hnext⟩
    · next hmore =>
      simp only [if_neg hmore]
      exact ⟨fsWp_pure hnext.1 hnext.2, hnext.2⟩

/-- The flags that `tfm_its_set` takes are low bits. -/
theorem supported_lt {flags : UInt32} (h : flags &&& ~~~supportedFlags = 0) : flags.toNat < 2 ^ 3 := by
  have hand : flags.toNat &&& (~~~supportedFlags).toNat = 0 := by
    rw [← UInt32.toNat_and, h]
    rfl
  have hbits : ∀ i, i < 32 → 3 ≤ i → (~~~supportedFlags).toNat.testBit i = true := by decide
  refine Nat.lt_pow_two_of_testBit _ fun i hi => ?_
  by_cases h32 : i < 32
  · have hbit := congrArg (Nat.testBit · i) hand
    simp only [Nat.testBit_and, Nat.zero_testBit] at hbit
    rwa [hbits i h32 hi, Bool.and_true] at hbit
  · exact Nat.testBit_lt_two_pow
      (Nat.lt_of_lt_of_le flags.toNat_lt (Nat.pow_le_pow_right (by decide) (by omega)))

theorem first_truncates (flags : UInt32) : (flags ||| createFlags).toNat &&& flagTruncate ≠ 0 := by
  rw [UInt32.toNat_or, Nat.and_or_distrib_right,
    show createFlags.toNat &&& flagTruncate = flagTruncate by decide]
  exact fun h => absurd (Nat.or_eq_zero_iff.1 h).2 (by decide)

theorem later_appends (flags : UInt32) : (flags &&& ~~~createFlags).toNat &&& flagTruncate = 0 := by
  rw [UInt32.toNat_and, Nat.and_assoc, show (~~~createFlags).toNat &&& flagTruncate = 0 by decide,
    Nat.and_zero]

theorem first_user {flags : UInt32} (h : flags &&& ~~~supportedFlags = 0) :
    (flags ||| createFlags).toNat &&& userFlagsMask = flags.toNat := by
  have hlt := supported_lt h
  rw [UInt32.toNat_or, Nat.and_or_distrib_right, show createFlags.toNat &&& userFlagsMask = 0 by decide,
    Nat.or_zero]
  exact Nat.and_two_pow_sub_one_of_lt_two_pow (n := 16) (by omega)

theorem first_internal {flags : UInt32} (h : flags &&& ~~~supportedFlags = 0) :
    (flags ||| createFlags).toNat &&& internalFlagsMask = 0 := by
  have hlow : ∀ n, n < 2 ^ 3 → n &&& internalFlagsMask = 0 := by decide
  rw [UInt32.toNat_or, Nat.and_or_distrib_right, hlow _ (supported_lt h),
    show createFlags.toNat &&& internalFlagsMask = 0 by decide]
  rfl

/-- **The loop of `tfm_its_set`**: `I off` holds after the chunks of the first `off`
bytes, and the size and flags of the file are known then. -/
theorem fsWp_setFile (hb : Buffer c.toConfig buf) (hpos : 0 < buf) {n : Nat} {flags : UInt32}
    (hfl : flags &&& ~~~supportedFlags = 0) {I : Nat → Tab → Prop}
    {Q : Except PsaStatus Unit → Tab → Prop} (hC : C t) (hIC : ∀ off u, I off u → C u)
    (hfirst : ∀ u, Layout c t none →
      t.writeArgs c (some c.eraseVal) (chunk c hb f data (flags ||| createFlags) n 0) = .ok u →
      I (min n buf) u)
    (hnext : ∀ fl m off u u', Layout c u none → I off u →
      u.info c f.id = .ok (.info ⟨off, c.aligned n, flags.toNat⟩) → fl.toNat &&& flagTruncate = 0 →
      u.writeArgs c (some c.eraseVal) (chunk c hb f data fl m off) = .ok u' →
      I (off + min m buf) u')
    (hdone : ∀ u, I n u → u.info c f.id = .ok (.info ⟨n, c.aligned n, flags.toNat⟩) →
      Q (.ok ()) u)
    (herr0 : ∀ e, t.writeArgs c (some c.eraseVal) (chunk c hb f data (flags ||| createFlags) n 0) =
      .error e → Q (.error e) t)
    (herr : ∀ e off u, I off u → Q (.error e) u) :
    fsWp c (setLoop c buf f.id data (n + 1) (flags ||| createFlags) n 0) t Q C := by
  let J : UInt32 → Nat → Nat → Tab → Prop := fun fl m off u =>
    (fl = (flags ||| createFlags) ∧ m = n ∧ off = 0 ∧ u = t) ∨
    (fl.toNat &&& flagTruncate = 0 ∧ off + m = n ∧ I off u ∧
      u.info c f.id = .ok (.info ⟨off, c.aligned n, flags.toNat⟩))
  refine fsWp_setLoop hb hpos (J := J) (fun fl m off u hj => ?_) (fun fl m off u u' hj hl hw => ?_)
    (fun fl m off u e hj hw => ?_) _ (Nat.lt_succ_self n) (.inl ⟨rfl, rfl, rfl, rfl⟩)
  · rcases hj with ⟨_, _, _, rfl⟩ | ⟨_, _, hI, _⟩
    · exact hC
    · exact hIC off u hI
  · -- the file has `off + min m buf` bytes now
    have hnow : I (off + min m buf) u' ∧ off + m = n ∧
        u'.info c f.id = .ok (.info ⟨off + min m buf, c.aligned n, flags.toNat⟩) := by
      rcases hj with ⟨rfl, rfl, rfl, rfl⟩ | ⟨htr, hoff, hI, hinfo⟩
      · have hinfo := hl.info_created (chunk c hb f data (flags ||| createFlags) m 0).args hw
          (.inr (first_truncates flags))
        rw [show (chunk c hb f data (flags ||| createFlags) m 0).flags &&& userFlagsMask =
          flags.toNat from first_user hfl] at hinfo
        rw [Nat.zero_add, Nat.zero_add]
        exact ⟨hfirst u' hl hw, rfl, hinfo⟩
      · exact ⟨hnext fl m off u u' hl hI hinfo htr hw, hoff,
          hl.info_appended (chunk c hb f data fl m off).args hw hinfo htr⟩
    obtain ⟨hI, hoff, hinfo⟩ := hnow
    split
    · exact .inr ⟨later_appends fl, by omega, hI, hinfo⟩
    · have hall : off + min m buf = n := by omega
      rw [hall] at hI hinfo
      exact ⟨hdone u' hI hinfo, hIC n u' hI⟩
  · rcases hj with ⟨rfl, rfl, rfl, rfl⟩ | ⟨_, _, hI, _⟩
    · exact herr0 e hw
    · exact herr e off u hI

/-- What `tfm_its_set` finds of the file. -/
theorem fsWp_setCheck {Q : Except PsaStatus Unit → Tab → Prop} (hC : C t)
    (hperm : ∀ i, t.info c f.id = .ok (.info i) → i.flags &&& storageFlagWriteOnce.toNat ≠ 0 →
      Q (.error .notPermitted) t)
    (hgo : (∀ i, t.info c f.id = .ok (.info i) → i.flags &&& storageFlagWriteOnce.toNat = 0) →
      Q (.ok ()) t) :
    fsWp c (setCheck c f.id) t Q C := by
  refine fsWp_bind (fsWp_attempt (fsWp_fileGetInfo hC (fun hno => ⟨?_, hC⟩) fun i hi => ⟨?_, hC⟩))
  · refine fsWp_pure (hgo fun i hi => ?_) hC
    rw [hno] at hi
    cases hi
  · dsimp only
    split
    · next hw => exact fsWp_throw (hperm i hi hw) hC
    · next hw =>
      refine fsWp_pure (hgo fun j hj => ?_) hC
      rw [hi] at hj
      cases hj
      exact not_not.1 hw

theorem fsWp_tfmItsSet {n : Nat} {flags : UInt32} {Q : Except PsaStatus Unit → Tab → Prop}
    (hC : C t) (hinv : uid = 0 → Q (.error .invalidArgument) t)
    (hsup : uid ≠ 0 → flags &&& ~~~supportedFlags ≠ 0 → Q (.error .notSupported) t)
    (hperm : ∀ i, uid ≠ 0 → flags &&& ~~~supportedFlags = 0 →
      t.info c (getFid client uid) = .ok (.info i) →
      i.flags &&& storageFlagWriteOnce.toNat ≠ 0 → Q (.error .notPermitted) t)
    (hloop : uid ≠ 0 → flags &&& ~~~supportedFlags = 0 →
      (∀ i, t.info c (getFid client uid) = .ok (.info i) →
        i.flags &&& storageFlagWriteOnce.toNat = 0) →
      fsWp c (setLoop c buf (getFid client uid) data (n + 1) (flags ||| createFlags) n 0) t Q C) :
    fsWp c (tfmItsSet c buf client uid n flags data) t Q C := by
  unfold tfmItsSet
  by_cases hu : uid = 0
  · simp only [if_pos hu]
    exact fsWp_bind (fsWp_throw ⟨hinv hu, hC⟩ hC)
  · simp only [if_neg hu]
    by_cases hfl : flags &&& ~~~supportedFlags = 0
    · rw [if_neg (not_not.2 hfl)]
      refine fsWp_bind ?_
      exact fsWp_setCheck (f := assetFid client uid hu) hC
        (fun i hi hw => ⟨hperm i hu hfl hi hw, hC⟩) fun hgo => hloop hu hfl hgo
    · rw [if_pos hfl]
      exact fsWp_bind (fsWp_throw ⟨hsup hu hfl, hC⟩ hC)

/-- A part of a file is read. -/
theorem Tab.read_contents {fid k size offset : Nat} (hf : t.find c fid = some k)
    (h : offset + size ≤ (t.fm k).curSize) :
    t.read c fid size offset = .ok (.data (((t.contents k).drop offset).take size)) := by
  unfold Tab.read
  rw [hf]
  dsimp only
  rw [if_pos (by simp only [checkContainedIn, Bool.and_eq_true, decide_eq_true_eq]; omega)]
  congr 2
  apply List.ext_getElem?
  intro j
  by_cases hj : j < size
  · rw [List.getElem?_take_of_lt hj, List.getElem?_drop, Tab.contents_getElem? (by omega)]
    unfold Tab.bytes
    rw [List.getElem?_map, List.getElem?_range hj, ← Nat.add_assoc]
    rfl
  · rw [List.getElem?_eq_none (by simp [Tab.bytes]; omega),
      List.getElem?_eq_none (by rw [List.length_take]; omega)]

/-- The loop of `tfm_its_get` delivers the part of the file that it is about. -/
theorem fsWp_getLoop (hpos : 0 < buf) {k : Nat} (hf : t.find c f.id = some k) (hC : C t)
    (fuel : Nat) : ∀ {offset n : Nat} {Q : Except PsaStatus (List UInt8) → Tab → Prop}, n < fuel →
      offset + n ≤ (t.fm k).curSize → Q (.ok (((t.contents k).drop offset).take n)) t →
      fsWp c (getLoop c buf f.id fuel offset n) t Q C := by
  induction fuel with
  | zero => exact fun hn => absurd hn (Nat.not_lt_zero _)
  | succ fuel ih =>
    intro offset n Q hn hle hQ
    have hread := Tab.read_contents hf (show offset + min n buf ≤ (t.fm k).curSize by omega)
    refine fsWp_bind (fsWp_fileRead hC (fun l hr => ?_) fun e hr => ?_)
    · rw [hread] at hr
      cases hr
      dsimp only
      by_cases hmore : 0 < n - min n buf
      · rw [if_pos hmore]
        have hsplit : ((t.contents k).drop offset).take n =
            ((t.contents k).drop offset).take (min n buf) ++
              ((t.contents k).drop (offset + min n buf)).take (n - min n buf) := by
          rw [← List.drop_drop, ← List.take_add]
          congr 1
          omega
        rw [hsplit] at hQ
        exact fsWp_bind (ih (by omega) (by omega) (fsWp_pure hQ hC))
      · rw [if_neg hmore]
        have hmin : min n buf = n := by omega
        rw [hmin]
        exact fsWp_pure hQ hC
    · rw [hread] at hr
      cases hr

/-- What `tfm_its_get` answers on a mounted filesystem. -/
def Tab.get (c : Cfg) (t : Tab) (client : UInt32) (uid : UInt64) (offset size : Nat) :
    Except PsaStatus (Nat × List UInt8) :=
  if uid = 0 then .error .invalidArgument
  else match t.find c (getFid client uid) with
    | none => .error .doesNotExist
    | some k =>
      if (t.fm k).curSize < offset then .error .invalidArgument
      else .ok (min size ((t.fm k).curSize - offset), ((t.contents k).drop offset).take size)

theorem fsWp_tfmItsGet {offset size : Nat} {Q : Except PsaStatus (Nat × List UInt8) → Tab → Prop}
    (hpos : 0 < buf) (hC : C t) (hQ : Q (t.get c client uid offset size) t) :
    fsWp c (tfmItsGet c buf client uid offset size) t Q C := by
  unfold tfmItsGet
  unfold Tab.get at hQ
  by_cases hu : uid = 0
  · rw [if_pos hu] at hQ ⊢
    exact fsWp_bind (fsWp_throw ⟨hQ, hC⟩ hC)
  · rw [if_neg hu] at hQ ⊢
    refine fsWp_bind (fsWp_fileGetInfo (f := assetFid client uid hu) hC (fun hno => ?_) fun i hi => ?_)
    · unfold Tab.info at hno
      cases hf : t.find c (getFid client uid) with
      | none =>
        rw [hf] at hQ
        exact ⟨hQ, hC⟩
      | some k =>
        rw [show t.find c (assetFid client uid hu).id = some k from hf] at hno
        cases hno
    · unfold Tab.info at hi
      cases hf : t.find c (getFid client uid) with
      | none =>
        rw [show t.find c (assetFid client uid hu).id = none from hf] at hi
        cases hi
      | some k =>
        rw [show t.find c (assetFid client uid hu).id = some k from hf] at hi
        cases hi
        rw [hf] at hQ
        dsimp only at hQ ⊢
        by_cases hoff : (t.fm k).curSize < offset
        · rw [if_pos hoff] at hQ ⊢
          exact fsWp_bind (fsWp_throw ⟨hQ, hC⟩ hC)
        · rw [if_neg hoff] at hQ ⊢
          refine fsWp_bind (fsWp_getLoop (f := assetFid client uid hu) hpos hf hC _
            (Nat.lt_succ_self _) (by omega) (fsWp_pure ?_ hC))
          have htake : ((t.contents k).drop offset).take (min size ((t.fm k).curSize - offset)) =
              ((t.contents k).drop offset).take size := by
            have hlen : ((t.contents k).drop offset).length = (t.fm k).curSize - offset := by
              rw [List.length_drop, Tab.length_contents]
            rw [← hlen, ← List.take_eq_take_min]
          rw [htake]
          exact hQ

/-- What `tfm_its_get_info` answers on a mounted filesystem. -/
def Tab.getInfo (c : Cfg) (t : Tab) (client : UInt32) (uid : UInt64) :
    Except PsaStatus StorageInfo :=
  if uid = 0 then .error .invalidArgument
  else match t.info c (getFid client uid) with
    | .ok (.info i) => .ok ⟨i.sizeCurrent, i.sizeCurrent, i.flags⟩
    | _ => .error .doesNotExist

theorem fsWp_tfmItsGetInfo {Q : Except PsaStatus StorageInfo → Tab → Prop} (hC : C t)
    (hQ : Q (t.getInfo c client uid) t) : fsWp c (tfmItsGetInfo c client uid) t Q C := by
  unfold tfmItsGetInfo
  unfold Tab.getInfo at hQ
  by_cases hu : uid = 0
  · rw [if_pos hu] at hQ ⊢
    exact fsWp_bind (fsWp_throw ⟨hQ, hC⟩ hC)
  · rw [if_neg hu] at hQ ⊢
    refine fsWp_bind (fsWp_fileGetInfo (f := assetFid client uid hu) hC (fun hno => ?_) fun i hi =>
      fsWp_pure ?_ hC)
    · rw [show t.info c (getFid client uid) = _ from hno] at hQ
      exact ⟨hQ, hC⟩
    · rw [show t.info c (getFid client uid) = _ from hi] at hQ
      exact hQ

theorem fsWp_tfmItsRemove {Q : Except PsaStatus Unit → Tab → Prop} (hC : C t)
    (hinv : uid = 0 → Q (.error .invalidArgument) t)
    (hno : uid ≠ 0 → t.info c (getFid client uid) = .error .doesNotExist →
      Q (.error .doesNotExist) t)
    (hperm : ∀ i, uid ≠ 0 → t.info c (getFid client uid) = .ok (.info i) →
      i.flags &&& storageFlagWriteOnce.toNat ≠ 0 → Q (.error .notPermitted) t)
    (hok : ∀ i k, uid ≠ 0 → t.info c (getFid client uid) = .ok (.info i) →
      i.flags &&& storageFlagWriteOnce.toNat = 0 → t.find c (getFid client uid) = some k →
      Q (.ok ()) (t.deleteIdx c (some c.eraseVal) k) ∧ C (t.deleteIdx c (some c.eraseVal) k)) :
    fsWp c (tfmItsRemove c client uid) t Q C := by
  unfold tfmItsRemove
  by_cases hu : uid = 0
  · rw [if_pos hu]
    exact fsWp_bind (fsWp_throw ⟨hinv hu, hC⟩ hC)
  · rw [if_neg hu]
    refine fsWp_bind (fsWp_fileGetInfo (f := assetFid client uid hu) hC
      (fun hn => ⟨hno hu hn, hC⟩) fun i hi => ?_)
    by_cases hw : i.flags &&& storageFlagWriteOnce.toNat = 0
    · simp only [if_neg (not_not.2 hw)]
      refine fsWp_fileDelete (f := assetFid client uid hu) hC (fun k hk => hok i k hu hi hw hk)
        fun hf => ?_
      unfold Tab.info at hi
      rw [hf] at hi
      cases hi
    · simp only [if_pos hw]
      exact fsWp_bind (fsWp_throw ⟨hperm i hu hi hw, hC⟩ hC)

end Service

/-! ## Both filesystems -/

section Stores

variable {P : Setup} {I : Fs → Tab → Prop} {z : Stores} {f f' : Fs → Flash}

/-- `I` holds of what the filesystems hold, or of what the next start makes of their flash. -/
def Holds (P : Setup) (I : Fs → Tab → Prop) : Device → Prop
  | .on z => ∀ s, P.Has s → ∃ t, Mounted (P.cfg s) (z s) t ∧ I s t
  | .off f => ∀ s, P.Has s → Restores (P.cfg s) (f s) (I s)

/-- A program over one filesystem. -/
theorem Holds.runFs {α : Type} {s : Fs} {m : M α} {t : Tab} {Q : Except PsaStatus α → Tab → Prop}
    (h : Holds P I (.on z)) (ht : Mounted (P.cfg s) (z s) t)
    (hm : fsWp (P.cfg s) m t (fun r t' => Q r t' ∧ I s t') (I s)) :
    (∃ t', Mounted (P.cfg s) ((P.runFs s m z).2 s) t' ∧ Q (P.runFs s m z).1 t') ∧
      Holds P I (.on (P.runFs s m z).2) ∧ ∀ f, P.CutFs s m z f → Holds P I (.off f) := by
  obtain ⟨⟨t', ht', hQ, hI⟩, hcut⟩ := hm (z s) ht
  have hself : (P.runFs s m z).2 s = (runOn (memOps (P.cfg s).toConfig) m (z s)).2 :=
    Function.update_self s _ z
  refine ⟨⟨t', hself ▸ ht', hQ⟩, fun s' hs' => ?_, ?_⟩
  · by_cases hs : s' = s
    · subst hs
      exact ⟨t', hself ▸ ht', hI⟩
    · rw [show (P.runFs s m z).2 s' = z s' from Function.update_of_ne hs _ z]
      exact h s' hs'
  · intro f hx s' hs'
    obtain ⟨g, hg, rfl⟩ := hx
    by_cases hs : s' = s
    · subst hs
      rw [Function.update_self]
      exact hcut g hg
    · rw [Function.update_of_ne hs]
      obtain ⟨u, hu, hI⟩ := h s' hs'
      exact hu.restores hI

/-- A start of one filesystem. -/
theorem Restores.start {c : Cfg} {g : Flash} {C : Tab → Prop} (h : Restores c g C) (create : Bool)
    (x : Ctx) :
    (runOn (memOps c.toConfig) (startFs c create) (x, g)).1 = .ok () ∧
    (∃ t, Mounted c (runOn (memOps c.toConfig) (startFs c create) (x, g)).2 t ∧ C t) ∧
    ∀ g', CutOf c (startFs c create) (x, g) g' → Restores c g' C := by
  obtain ⟨t, hrec, hl, hk, hC⟩ := h
  obtain ⟨hok, hmount⟩ := hrec.start hl hk x
  have hserve : memServe c .prepare (x, g) =
      ((runOn (memOps c.toConfig) (prepare c) (x, g)).1.map fun _ => .done,
        (runOn (memOps c.toConfig) (prepare c) (x, g)).2) := by
    unfold memServe Its.serve Req.prog
    rw [runOn_bind]
    cases (runOn (memOps c.toConfig) (prepare c) (x, g)).1 with
    | ok u => rfl
    | error e => rfl
  rw [hserve] at hok hmount
  have hok : (runOn (memOps c.toConfig) (prepare c) (x, g)).1 = .ok () := by
    cases hr : (runOn (memOps c.toConfig) (prepare c) (x, g)).1 with
    | ok u => rfl
    | error e =>
      rw [hr] at hok
      cases hok
  have hrun : runOn (memOps c.toConfig) (startFs c create) (x, g) =
      (.ok (), (runOn (memOps c.toConfig) (prepare c) (x, g)).2) := by
    unfold startFs
    rw [runOn_bind, runOn_attempt]
    dsimp only
    rw [hok]
    rfl
  rw [hrun]
  refine ⟨rfl, ⟨t, hmount, hC⟩, fun g' hcut => ?_⟩
  have hafter : Restores c (runOn (memOps c.toConfig) (prepare c) (x, g)).2.2 C :=
    hmount.restores hC
  have hbefore : ∀ g', CutOf c (prepare c) (x, g) g' → Restores c g' C := fun g' hg =>
    ⟨t, hrec.cut ⟨x, CutOf.bind hg _⟩, hl, hk, hC⟩
  rcases hcut.of_bind with hg | hg
  · rcases Io.Cut.of_bind hg with hg | hg
    · exact hbefore g' hg
    · cases hg
      exact hafter
  · rw [runOn_attempt] at hg
    dsimp only at hg
    rw [hok] at hg
    cases hg
    exact hafter

/-- A start of one filesystem, of both. -/
theorem Restores.runFs {s : Fs} {C : Tab → Prop} (h : Restores (P.cfg s) (z s).2 C) :
    (P.runFs s (P.start s) z).1 = .ok () ∧
    (∃ t, Mounted (P.cfg s) ((P.runFs s (P.start s) z).2 s) t ∧ C t) ∧
    (∀ s', s' ≠ s → (P.runFs s (P.start s) z).2 s' = z s') ∧
    ∀ f', P.CutFs s (P.start s) z f' →
      Restores (P.cfg s) (f' s) C ∧ ∀ s', s' ≠ s → f' s' = (z s').2 := by
  obtain ⟨hok, hmount, hcut⟩ := h.start (P.create s) (z s).1
  refine ⟨hok, ?_, fun s' hs => Function.update_of_ne hs _ z, ?_⟩
  · rw [show (P.runFs s (P.start s) z).2 s = _ from Function.update_self s _ z]
    exact hmount
  · intro f' hx
    obtain ⟨g, hg, rfl⟩ := hx
    rw [Function.update_self]
    exact ⟨hcut g hg, fun s' hs => Function.update_of_ne hs _ _⟩

/-- **A start of the partition** succeeds; where it is cut, the next one finds the same. -/
theorem Holds.tfmItsInit (h : Holds P I (.off f)) (x : Fs → Ctx) :
    (P.tfmItsInit fun s => (x s, f s)).1 = .ok () ∧
    Holds P I (.on (P.tfmItsInit fun s => (x s, f s)).2) ∧
    ∀ f', P.CutInit (fun s => (x s, f s)) f' → Holds P I (.off f') := by
  obtain ⟨hok, hits, hother, hcut⟩ :=
    Restores.runFs (z := fun s => (x s, f s)) (h .its (.inl rfl))
  have hcut : ∀ f', P.CutFs .its (P.start .its) (fun s => (x s, f s)) f' → Holds P I (.off f') := by
    intro f' hf' s hs
    obtain ⟨h1, h2⟩ := hcut f' hf'
    cases s with
    | its => exact h1
    | ps =>
      rw [h2 .ps (by decide)]
      exact h .ps hs
  unfold Setup.tfmItsInit Setup.CutInit
  revert hok hits hother
  generalize P.runFs .its (P.start .its) (fun s => (x s, f s)) = r
  obtain ⟨r, z⟩ := r
  intro hok hits hother
  dsimp only at hok hits hother ⊢
  subst hok
  dsimp only
  have hz : z .ps = (x .ps, f .ps) := hother .ps (by decide)
  cases hps : P.psOn with
  | false =>
    rw [if_neg (by decide)]
    refine ⟨rfl, fun s hs => ?_, fun f' hf' => hcut f' (hf'.resolve_right fun hh => nomatch hh.1)⟩
    rcases hs with rfl | hs
    · exact hits
    · rw [hps] at hs
      cases hs
  | true =>
    rw [if_pos rfl]
    have hres : Restores (P.cfg .ps) (z .ps).2 (I .ps) := by
      rw [hz]
      exact h .ps (.inr hps)
    obtain ⟨hok, hmount, hother', hcut'⟩ := hres.runFs
    refine ⟨hok, fun s _ => ?_, fun f' hf' => hf'.elim (hcut f') fun hh s _ => ?_⟩
    · cases s with
      | its =>
        rw [hother' .its (by decide)]
        exact hits
      | ps => exact hmount
    · obtain ⟨h1, h2⟩ := hcut' f' hh.2.2
      cases s with
      | its =>
        rw [h2 .its (by decide)]
        obtain ⟨t, ht, hI⟩ := hits
        exact ht.restores hI
      | ps => exact h1

/-- **A step** keeps `I`, if the calls do. -/
theorem Holds.step {d d' : Device} {e : Event} (h : Holds P I d) (hs : P.Step d e d')
    (hcall : ∀ q t, (e = .call q ∨ e = .cut q) → I (P.fsOf q) t →
      (∀ z, d = .on z → Mounted (P.cfg (P.fsOf q)) (z (P.fsOf q)) t) →
      fsWp (P.cfg (P.fsOf q)) (P.prog q) t (fun _ t' => I (P.fsOf q) t') (I (P.fsOf q))) :
    Holds P I d' := by
  cases hs with
  | call q z =>
    obtain ⟨t, ht, hI⟩ := h (P.fsOf q) (P.has_getFsCtx q.client)
    have hwp := hcall q t (.inl rfl) hI fun z' hz => by cases hz; exact ht
    exact (h.runFs (Q := fun _ _ => True) ht
      (fsWp_mono hwp (fun _ _ hI => ⟨trivial, hI⟩) fun _ hI => hI)).2.1
  | @cut q z f hcut =>
    obtain ⟨t, ht, hI⟩ := h (P.fsOf q) (P.has_getFsCtx q.client)
    have hwp := hcall q t (.inr rfl) hI fun z' hz => by cases hz; exact ht
    exact (h.runFs (Q := fun _ _ => True) ht
      (fsWp_mono hwp (fun _ _ hI => ⟨trivial, hI⟩) fun _ hI => hI)).2.2 f hcut
  | @cutStart f f' x hcut => exact (h.tfmItsInit x).2.2 f' hcut
  | @start f x hok => exact (h.tfmItsInit x).2.1

/-- Every call leaves a mounted filesystem. -/
theorem fsWp_call {c : Cfg} {t : Tab} {buf : Nat} (hb : Buffer c.toConfig buf) (hpos : 0 < buf)
    (q : Call) : fsWp c (q.prog c buf) t (fun _ _ => True) fun _ => True := by
  cases q with
  | set client uid n flags data =>
    refine fsWp_map (fsWp_tfmItsSet trivial (fun _ => ⟨trivial, trivial⟩)
      (fun _ _ => ⟨trivial, trivial⟩) (fun _ _ _ _ _ => ⟨trivial, trivial⟩) fun hu hfl _ => ?_)
    exact fsWp_setFile (f := assetFid client uid hu) (I := fun _ _ => True) hb hpos hfl trivial
      (fun _ _ _ => trivial) (fun _ _ _ => trivial) (fun _ _ _ _ _ _ _ _ _ _ => trivial)
      (fun _ _ _ => ⟨trivial, trivial⟩) (fun _ _ => ⟨trivial, trivial⟩)
      fun _ _ _ _ => ⟨trivial, trivial⟩
  | get client uid offset size => exact fsWp_map (fsWp_tfmItsGet hpos trivial ⟨trivial, trivial⟩)
  | getInfo client uid => exact fsWp_map (fsWp_tfmItsGetInfo trivial ⟨trivial, trivial⟩)
  | remove client uid =>
    exact fsWp_map (fsWp_tfmItsRemove trivial (fun _ => ⟨trivial, trivial⟩)
      (fun _ _ => ⟨trivial, trivial⟩) (fun _ _ _ _ => ⟨trivial, trivial⟩)
      fun _ _ _ _ _ _ => ⟨⟨trivial, trivial⟩, trivial⟩)

/-- **In every run** the filesystems are mounted, or the next start mounts them. -/
theorem svc_holds {d : Device} (h : (svcLts P).Reachable d) : Holds P (fun _ _ => True) d := by
  induction h with
  | init h =>
    obtain ⟨z, rfl, hz⟩ := h
    intro s hs
    obtain ⟨t, ht⟩ := reachable_mounted (.init (hz s hs))
    exact ⟨t, ht, trivial⟩
  | step _ hs ih =>
    exact ih.step hs fun q t _ _ _ => fsWp_call (P.buf_room _) P.buf_pos q

theorem svc_mounted (h : (svcLts P).Reachable (.on z)) (client : UInt32) :
    ∃ t, Mounted (P.cfg (P.getFsCtx client)) (z (P.getFsCtx client)) t := by
  obtain ⟨t, ht, _⟩ := svc_holds h _ (P.has_getFsCtx client)
  exact ⟨t, ht⟩

/-- A call, from what holds of its program. -/
theorem Setup.serve_wp {q : Call} {t : Tab} {Q : Except PsaStatus Result → Tab → Prop}
    {C : Tab → Prop} (ht : Mounted (P.cfg (P.fsOf q)) (z (P.fsOf q)) t)
    (h : fsWp (P.cfg (P.fsOf q)) (P.prog q) t Q C) :
    ∃ t', Mounted (P.cfg (P.fsOf q)) ((P.serve q z).2 (P.fsOf q)) t' ∧ Q (P.serve q z).1 t' := by
  obtain ⟨⟨t', ht', hQ⟩, _⟩ := h _ ht
  refine ⟨t', ?_, hQ⟩
  rw [show (P.serve q z).2 (P.fsOf q) = _ from Function.update_self _ _ z]
  exact ht'

theorem Setup.serve_get {client : UInt32} {t : Tab}
    (ht : Mounted (P.cfg (P.getFsCtx client)) (z (P.getFsCtx client)) t) (uid : UInt64)
    (offset size : Nat) : (P.serve (.get client uid offset size) z).1 =
      (t.get (P.cfg (P.getFsCtx client)) client uid offset size).map fun r => .data r.1 r.2 := by
  obtain ⟨_, _, hr⟩ := P.serve_wp (q := .get client uid offset size) (Q := fun r _ => r =
    (t.get (P.cfg (P.getFsCtx client)) client uid offset size).map fun r => .data r.1 r.2)
    (C := fun _ => True) ht (fsWp_map (fsWp_tfmItsGet P.buf_pos trivial ⟨rfl, trivial⟩))
  exact hr

end Stores

end Tfm.L4.Its
