import Mathlib.Data.Fintype.Pi
import Mathlib.Data.List.FinRange
import Mathlib.Data.UInt
import Mathlib.Order.Basic
import Tfm.Core.Crash
import Tfm.Core.Index
import Tfm.Core.LTS

/-!
# PSoC 64 non-volatile counters

The counters are in a flash sector with a watermark and an XOR checksum, and an
update goes to a backup sector first and then to the main one. A start takes the
main sector if it is valid and else the backup.

A sector program can be cut after any number of words; the rest of the sector is
still erased. The checksum does not detect every such torn sector: it cannot
tell an unwritten tail from the tail that was to be written when both have the
same XOR.

Results:
* `set_wp`, `init_wp`: an update and a start, with what they leave when they are
  cut at any word.
* `counters_power_fail_safe`: in every run in which no torn image of the main
  sector passes the check, a completed start gives every counter its value from
  before or after the interrupted call, and no counter is below its value at the
  last completed start. A torn image of the backup sector does no harm.
* `counters_lost_on_torn_sector`: an even number of counters that are 0.
-/
namespace Tfm.L2.NvCounter
open Tfm.Crash

/-- mirrors platform/include/tfm_plat_defs.h:18-26 -/
inductive PlatErr
  | systemErr
  | maxValue
  | invalidInput
  deriving DecidableEq, Repr

structure Cfg where
  /-- `TFM_NV_COUNTERS_SECTOR_SIZE` -/
  sectorSize : Nat
  /-- The size that `nvc_flash_block` returns. -/
  areaSize : Nat
  /-- An erased word of the flash. -/
  erased : UInt32

def nvCountersInitialized : UInt32 := 0xC0DE0042

/-- mirrors platform/ext/target/cypress/psoc64/nv_counters.c:33-34 -/
def numNvCounters (cfg : Cfg) : Nat := (cfg.sectorSize - 4 - 4) / 4

variable {n : Nat}

/-- `struct nv_counters_t` as its words: checksum, watermark, counters.
mirrors platform/ext/target/cypress/psoc64/nv_counters.c:43-54 -/
abbrev Sector (n : Nat) := Fin (n + 2) → UInt32

def counters (s : Sector n) : Fin n → UInt32 := fun i => s i.succ.succ

/-- mirrors platform/ext/target/cypress/psoc64/nv_counters.c:56-64 -/
def calcChecksum (data : List UInt32) : UInt32 := data.foldl (· ^^^ ·) 0

/-- mirrors platform/ext/target/cypress/psoc64/nv_counters.c:66-70 -/
def isValid (s : Sector n) : Bool :=
  s 1 == nvCountersInitialized && calcChecksum (List.ofFn s) == 0

/-- mirrors platform/ext/target/cypress/psoc64/nv_counters.c:72-79 -/
def setChecksum (s : Sector n) : Sector n :=
  Function.update s 0 (calcChecksum (List.ofFn s).tail)

/-- The two sectors. -/
structure Sys (n : Nat) where
  main : Sector n
  backup : Sector n

inductive Addr
  | main
  | backup
  deriving DecidableEq

def Sys.get (s : Sys n) : Addr → Sector n
  | .main => s.main
  | .backup => s.backup

def Sys.set (s : Sys n) (w : Sector n) : Addr → Sys n
  | .main => { s with main := w }
  | .backup => { s with backup := w }

abbrev M (n : Nat) := Prog PlatErr (Sys n)

/-! ## Flash -/

def erasedSector (e : UInt32) : Sector n := fun _ => e

/-- A sector after the first `k` words of `w` were written to it. -/
def tornSector (k : Nat) (w old : Sector n) : Sector n := fun i => if i.val < k then w i else old i

def flashInitialize : M n Unit := call .systemErr (fun _ s => s) fun s => (.ok (), s)

def readData (a : Addr) : M n (Sector n) :=
  call .systemErr (fun _ s => s) fun s => (.ok (s.get a), s)

def eraseSector (cfg : Cfg) (a : Addr) : M n Unit :=
  call .systemErr (fun _ s => s) fun s => (.ok (), s.set (erasedSector cfg.erased) a)

def programData (a : Addr) (w : Sector n) : M n Unit :=
  call .systemErr (fun k s => s.set (tornSector k w (s.get a)) a) fun s => (.ok (), s.set w a)

/-! ## Operations -/

/-- The contents of a first initialisation, over what was read.
mirrors platform/ext/target/cypress/psoc64/nv_counters.c:148-156 -/
def initialSector (b : Sector n) : Sector n :=
  setChecksum fun i => if i = 0 then b 0 else if i = 1 then nvCountersInitialized else 0

/-- mirrors platform/ext/target/cypress/psoc64/nv_counters.c:89-167 -/
def tfmPlatInitNvCounter (cfg : Cfg) : M n Unit :=
  if cfg.areaSize ≠ 2 * cfg.sectorSize then throw .systemErr
  else do
    flashInitialize
    let m ← readData .main
    if isValid m then pure ()
    else do
      let b ← readData .backup
      eraseSector cfg .main
      if isValid b then programData .main b
      else programData .main (initialSector b)

/-- mirrors platform/ext/target/cypress/psoc64/nv_counters.c:169-195 -/
def tfmPlatReadNvCounter (counterId size : Nat) : M n UInt32 :=
  if h : counterId < n then
    if size ≠ 4 then throw .systemErr
    else do
      let m ← readData .main
      pure (counters m ⟨counterId, h⟩)
  else throw .invalidInput

/-- The sector that a set of a counter writes. -/
def setSector (m : Sector n) (i : Fin n) (value : UInt32) : Sector n :=
  setChecksum (Function.update m i.succ.succ value)

/-- mirrors platform/ext/target/cypress/psoc64/nv_counters.c:197-258 -/
def tfmPlatSetNvCounter (cfg : Cfg) (counterId : Nat) (value : UInt32) : M n Unit :=
  if h : counterId < n then do
    let m ← readData .main
    if value ≠ counters m ⟨counterId, h⟩ then
      if value < counters m ⟨counterId, h⟩ then throw .invalidInput
      else do
        eraseSector cfg .backup
        programData .backup (setSector m ⟨counterId, h⟩ value)
        eraseSector cfg .main
        programData .main (setSector m ⟨counterId, h⟩ value)
    else pure ()
  else throw .invalidInput

/-- mirrors platform/ext/target/cypress/psoc64/nv_counters.c:260-278 -/
def tfmPlatIncrementNvCounter (cfg : Cfg) (counterId : Nat) : M n Unit := do
  let v ← tfmPlatReadNvCounter counterId 4
  if v = 0xffffffff then throw .maxValue
  else tfmPlatSetNvCounter cfg counterId (v + 1)

/-! ## Transition system -/

inductive Op
  | set (counterId : Nat) (value : UInt32)
  | increment (counterId : Nat)
  deriving DecidableEq, Repr

def Op.run (cfg : Cfg) : Op → M n Unit
  | .set id v => tfmPlatSetNvCounter cfg id v
  | .increment id => tfmPlatIncrementNvCounter cfg id

/-- The device and, as ghost state, the values before the last operation and
after its completion, and the values at the last completed start. -/
structure Dev (n : Nat) where
  sys : Sys n
  up : Bool
  before : Fin n → UInt32
  after : Fin n → UInt32
  floor : Fin n → UInt32

def Sys.values (s : Sys n) : Fin n → UInt32 := counters s.main

inductive Lbl
  | op (o : Op) (p : List Ev)
  | boot (p : List Ev)
  /-- power cut between two calls -/
  | off
  deriving DecidableEq, Repr

def Dev.running (d : Dev n) (s : Sys n) : Dev n := ⟨s, true, s.values, s.values, d.floor⟩

def step (cfg : Cfg) (d : Dev n) : Lbl → Option (Dev n)
  | .op o p =>
    if d.up then
      match o.run cfg d.sys p with
      | .ok _ s _ => some (d.running s)
      | .err _ s _ => some (d.running s)
      | .cut s => some ⟨s, false, d.sys.values, (o.run cfg d.sys []).state.values, d.floor⟩
    else none
  | .boot p =>
    if d.up then none
    else
      match tfmPlatInitNvCounter cfg d.sys p with
      | .ok _ s _ => some ⟨s, true, s.values, s.values, s.values⟩
      | .err _ s _ => some { d with sys := s }
      | .cut s => some { d with sys := s }
  | .off => if d.up then some { d with up := false } else none

/-- A completed start on any sector contents. -/
def Init (cfg : Cfg) (d : Dev n) : Prop :=
  ∃ s₀ s p, tfmPlatInitNvCounter cfg s₀ [] = .ok () s p ∧
    d = ⟨s, true, s.values, s.values, s.values⟩

def lts (cfg : Cfg) : LTS (Dev (numNvCounters cfg)) Lbl := LTS.ofFn (Init cfg) (step cfg)

/-! ## Checksums -/

theorem foldl_xor (a : UInt32) (l : List UInt32) :
    l.foldl (· ^^^ ·) a = a ^^^ calcChecksum l := by
  unfold calcChecksum
  induction l generalizing a with
  | nil => simp
  | cons x l ih =>
    simp only [List.foldl_cons]
    rw [ih (a ^^^ x), ih (0 ^^^ x), UInt32.zero_xor, UInt32.xor_assoc]

theorem calcChecksum_cons (x : UInt32) (l : List UInt32) :
    calcChecksum (x :: l) = x ^^^ calcChecksum l := by
  show l.foldl (· ^^^ ·) (0 ^^^ x) = _
  rw [foldl_xor, UInt32.zero_xor]

theorem isValid_setChecksum {s : Sector n} (h : s 1 = nvCountersInitialized) :
    isValid (setChecksum s) = true := by
  have h1 : setChecksum s 1 = nvCountersInitialized := by
    unfold setChecksum
    rw [Function.update_of_ne (by simp)]
    exact h
  have hsum : calcChecksum (List.ofFn (setChecksum s)) = 0 := by
    have htail : (fun i : Fin (n + 1) => setChecksum s i.succ) = fun i => s i.succ := by
      funext i
      exact Function.update_of_ne (Fin.succ_ne_zero i) _ _
    rw [List.ofFn_succ, htail, calcChecksum_cons]
    simp [setChecksum, List.ofFn_succ]
  simp only [isValid, h1, hsum, beq_self_eq_true, Bool.and_self]

theorem watermark_of_valid {s : Sector n} (h : isValid s = true) : s 1 = nvCountersInitialized := by
  unfold isValid at h
  simp only [Bool.and_eq_true, beq_iff_eq] at h
  exact h.1

theorem isValid_setSector {m : Sector n} (h : isValid m = true) (i : Fin n) (v : UInt32) :
    isValid (setSector m i v) = true := by
  refine isValid_setChecksum ?_
  rw [Function.update_of_ne]
  · exact watermark_of_valid h
  · intro he
    have := congrArg Fin.val he
    simp at this

theorem counters_setSector (m : Sector n) (i : Fin n) (v : UInt32) :
    counters (setSector m i v) = Function.update (counters m) i v := by
  funext j
  unfold counters setSector setChecksum
  rw [Function.update_of_ne (Fin.succ_ne_zero _)]
  by_cases hj : j = i
  · subst hj
    simp
  · rw [Function.update_of_ne, Function.update_of_ne hj]
    simpa using hj

theorem isValid_initialSector (b : Sector n) : isValid (initialSector b) = true := by
  refine isValid_setChecksum ?_
  simp

/-! ## What a cut leaves -/

/-- A torn image of `w` does not pass the check, unless it is `w`. -/
def Detected (cfg : Cfg) (w : Sector n) (k : Nat) : Prop :=
  isValid (tornSector k w (erasedSector cfg.erased)) = true →
    tornSector k w (erasedSector cfg.erased) = w

/-- The next completed start finds the values `v`. -/
def Rec (s : Sys n) (v : Fin n → UInt32) : Prop :=
  (isValid s.main = true ∧ counters s.main = v) ∨
    (isValid s.main = false ∧ isValid s.backup = true ∧ counters s.backup = v)

section Ops

variable {G : Nat → Ev → Prop} {j : Nat} {s : Sys n} {cfg : Cfg} {w : Sector n}

theorem rec_torn {s' : Sys n} {k : Nat} (hw : isValid w = true) (hb : s'.backup = w)
    (hm : s'.main = tornSector k w (erasedSector cfg.erased)) (hd : Detected cfg w k) :
    Rec s' (counters w) := by
  cases hv : isValid s'.main with
  | true =>
    refine .inl ⟨hv, ?_⟩
    rw [hm] at hv ⊢
    rw [hd hv]
  | false => exact .inr ⟨hv, by rw [hb]; exact hw, by rw [hb]⟩

/-- A call that cannot fail on its own. -/
theorem wpAt_flash {α : Type} {Q : PostAt PlatErr (Sys n) α} {torn : Nat → Sys n → Sys n}
    {f : Sys n → Except PlatErr α × Sys n} {a : α} {s' : Sys n} (hF : ∀ i, ¬ G i .fail)
    (hf : f s = (.ok a, s')) (hok : Q.ok a s' (j + 1))
    (hcut : ∀ k, G j (.cut k) → Q.cut (torn k s)) : wpAt G j (call .systemErr torn f) s Q := by
  refine wpAt_call ?_ ?_ (fun h => absurd h (hF j)) hcut
  · intro b t hb
    rw [hf] at hb
    cases hb
    exact hok
  · intro e t hb
    rw [hf] at hb
    cases hb

/-- The values after a set. -/
def setValues (v : Fin n → UInt32) (id : Nat) (value : UInt32) : Fin n → UInt32 :=
  if h : id < n then if v ⟨id, h⟩ < value then Function.update v ⟨id, h⟩ value else v else v

theorem setValues_le (v : Fin n → UInt32) (id : Nat) (value : UInt32) (i : Fin n) :
    v i ≤ setValues v id value i := by
  unfold setValues
  split
  · split
    · rename_i h hlt
      by_cases hi : i = ⟨id, h⟩
      · subst hi
        rw [Function.update_self]
        exact UInt32.le_of_lt hlt
      · rw [Function.update_of_ne hi]
        exact UInt32.le_refl _
    · exact UInt32.le_refl _
  · exact UInt32.le_refl _

/-- Some call can be cut. -/
def CutsAt (G : Nat → Ev → Prop) : Prop := ∃ i k, G i (.cut k)

/-- How an operation ends: the main sector is valid and has the values `v`, or the
power was cut and storage has the values from before or `v`. -/
def opPost (G : Nat → Ev → Prop) (s : Sys n) (v : Fin n → UInt32) : Post PlatErr (Sys n) Unit where
  ok _ s' := isValid s'.main = true ∧ s'.values = v
  err _ s' := isValid s'.main = true ∧ s'.values = v
  cut s' := CutsAt G ∧ (Rec s' s.values ∨ Rec s' v)

theorem not_cutsAt_quiet : ¬ CutsAt fun _ => Quiet := by
  intro hx
  obtain ⟨_, _, h⟩ := hx
  cases h

/-- An update. Only its fifth call, which programs the main sector, must not be cut
where it is not detected. -/
theorem set_wp (hv : isValid s.main = true) (id : Nat) (value : UInt32)
    (hF : ∀ i, ¬ G i .fail) (hd : ∀ k, G (j + 4) (.cut k) → ∀ h : id < n,
      Detected cfg (setSector s.main ⟨id, h⟩ value) k) :
    wpAt G j (tfmPlatSetNvCounter cfg id value) s (opPost G s (setValues s.values id value)).anyTime := by
  unfold tfmPlatSetNvCounter setValues
  have hcut : ∀ v s' i k, s'.main = s.main → G i (.cut k) → (opPost G s v).cut s' :=
    fun _ s' i k hm hk => ⟨⟨i, k, hk⟩, .inl (.inl ⟨hm ▸ hv, congrArg counters hm⟩)⟩
  split
  · rename_i h
    refine wpAt_bind (wpAt_flash hF rfl ?_ fun k => hcut _ s j k rfl)
    show wpAt G (j + 1) (if value ≠ s.values ⟨id, h⟩ then _ else _) s _
    split
    · rename_i hne
      split
      · rename_i hlt
        have hge : ¬ s.values ⟨id, h⟩ < value := UInt32.not_lt.2 (UInt32.le_of_lt hlt)
        rw [if_neg hge]
        exact wpAt_throw ⟨hv, rfl⟩
      · rename_i hge
        have hlt : s.values ⟨id, h⟩ < value :=
          UInt32.lt_of_le_of_ne (UInt32.not_lt.1 hge) (Ne.symm hne)
        rw [if_pos hlt]
        have hw := isValid_setSector hv ⟨id, h⟩ value
        have hval := counters_setSector s.main ⟨id, h⟩ value
        refine wpAt_bind (wpAt_flash hF rfl ?_ fun k => hcut _ _ _ k rfl)
        refine wpAt_bind (wpAt_flash hF rfl ?_ fun k => hcut _ _ _ k rfl)
        refine wpAt_bind (wpAt_flash hF rfl ?_ fun k => hcut _ _ _ k rfl)
        refine wpAt_flash hF rfl ⟨hw, hval⟩ fun k hk => ⟨⟨_, k, hk⟩, .inr ?_⟩
        rw [← show counters _ = Function.update s.values _ _ from hval]
        exact rec_torn hw rfl rfl (hd k hk h)
    · rename_i heq
      have heq : value = s.values ⟨id, h⟩ := by simpa using heq
      rw [if_neg (by rw [heq]; exact UInt32.lt_irrefl _)]
      exact wpAt_pure ⟨hv, rfl⟩
  · exact wpAt_throw ⟨hv, rfl⟩

/-- The sector that a start programs. -/
def initSector (s : Sys n) : Sector n :=
  if isValid s.backup then s.backup else initialSector s.backup

theorem init_wp (cfg : Cfg) {v : Fin n → UInt32} (h : Rec s v) (hF : ∀ i, ¬ G i .fail)
    (hd : ∀ k, G (j + 4) (.cut k) → Detected cfg (initSector s) k) :
    wpAt G j (tfmPlatInitNvCounter cfg) s (Post.mk
      (fun _ s' => isValid s'.main = true ∧ s'.values = v) (fun _ s' => Rec s' v)
      fun s' => Rec s' v).anyTime := by
  unfold tfmPlatInitNvCounter
  split
  · exact wpAt_throw h
  refine wpAt_bind (wpAt_flash hF rfl ?_ fun _ _ => h)
  refine wpAt_bind (wpAt_flash hF rfl ?_ fun _ _ => h)
  show wpAt G (j + 2) (if isValid s.main = true then _ else _) s _
  rcases h with ⟨hm, hv⟩ | ⟨hm, hb, hv⟩
  · rw [if_pos hm]
    exact wpAt_pure ⟨hm, hv⟩
  · have h : Rec s v := .inr ⟨hm, hb, hv⟩
    rw [if_neg (by rw [hm]; decide)]
    refine wpAt_bind (wpAt_flash hF rfl ?_ fun _ _ => h)
    refine wpAt_bind (wpAt_flash hF rfl ?_ fun _ _ => h)
    show wpAt G (j + 4) (if isValid s.backup = true then _ else _) _ _
    rw [if_pos hb]
    refine wpAt_flash hF rfl ⟨hb, hv⟩ fun k hk => ?_
    have hdet := hd k hk
    unfold initSector at hdet
    rw [if_pos hb] at hdet
    rw [← hv]
    exact rec_torn hb rfl rfl hdet

/-- A start on any sector contents. -/
theorem init_valid (cfg : Cfg) (hF : ∀ i, ¬ G i .fail) :
    wpAt G j (tfmPlatInitNvCounter cfg) s (Post.mk
      (fun _ s' => isValid s'.main = true) (fun _ _ => True) fun _ => True).anyTime := by
  have hcut : True := trivial
  unfold tfmPlatInitNvCounter
  split
  · exact wpAt_throw trivial
  refine wpAt_bind (wpAt_flash hF rfl ?_ fun _ _ => hcut)
  refine wpAt_bind (wpAt_flash hF rfl ?_ fun _ _ => hcut)
  show wpAt G (j + 2) (if isValid s.main = true then _ else _) s _
  split
  · rename_i hm
    exact wpAt_pure hm
  · refine wpAt_bind (wpAt_flash hF rfl ?_ fun _ _ => hcut)
    refine wpAt_bind (wpAt_flash hF rfl ?_ fun _ _ => hcut)
    show wpAt G (j + 4) (if isValid s.backup = true then _ else _) _ _
    split
    · rename_i hb
      exact wpAt_flash hF rfl hb fun _ _ => hcut
    · exact wpAt_flash hF rfl (isValid_initialSector _) fun _ _ => hcut

/-- The values after an operation. -/
def Op.values (o : Op) (v : Fin n → UInt32) : Fin n → UInt32 :=
  match o with
  | .set id value => setValues v id value
  | .increment id =>
    if h : id < n then if v ⟨id, h⟩ = 0xffffffff then v else setValues v id (v ⟨id, h⟩ + 1) else v

theorem Op.values_le (o : Op) (v : Fin n → UInt32) (i : Fin n) : v i ≤ o.values v i := by
  cases o with
  | set id value => exact setValues_le v id value i
  | increment id =>
    simp only [Op.values]
    split
    · split
      · exact UInt32.le_refl _
      · exact setValues_le v id _ i
    · exact UInt32.le_refl _

/-- The sector that an operation programs. -/
def Op.sector (o : Op) (m : Sector n) (h : (match o with | .set id _ => id | .increment id => id) < n) :
    Sector n :=
  match o with
  | .set id value => setSector m ⟨id, h⟩ value
  | .increment id => setSector m ⟨id, h⟩ (counters m ⟨id, h⟩ + 1)

/-- The number of calls of an operation before the one that programs the main sector. -/
def Op.callsBefore : Op → Nat
  | .set _ _ => 4
  | .increment _ => 5

theorem op_wp (cfg : Cfg) (hv : isValid s.main = true) (o : Op) (hF : ∀ i, ¬ G i .fail)
    (hd : ∀ k, G o.callsBefore (.cut k) → ∀ h, Detected cfg (o.sector s.main h) k) :
    wpAt G 0 (o.run cfg) s (opPost G s (o.values s.values)).anyTime := by
  cases o with
  | set id value => exact set_wp hv id value hF hd
  | increment id =>
    have hcut : ∀ v i k, G i (.cut k) → (opPost G s v).cut s :=
      fun _ i k hk => ⟨⟨i, k, hk⟩, .inl (.inl ⟨hv, rfl⟩)⟩
    simp only [Op.run, Op.values]
    refine wpAt_bind ?_
    unfold tfmPlatReadNvCounter
    split
    · rename_i h
      rw [if_neg (by decide)]
      refine wpAt_bind (wpAt_flash hF rfl ?_ (hcut _ _))
      refine wpAt_pure ?_
      show wpAt G 1 (if s.values ⟨id, h⟩ = 0xffffffff then _ else _) s _
      split
      · exact wpAt_throw ⟨hv, rfl⟩
      · exact set_wp hv id _ hF hd
    · exact wpAt_throw ⟨hv, rfl⟩

end Ops

/-! ## Runs -/

def Lbl.plan : Lbl → List Ev
  | .op _ p => p
  | .boot p => p
  | .off => []

/-- No call fails; the power may be cut anywhere. -/
def NoFault (_ : Dev n) (l : Lbl) : Prop := ∀ e ∈ l.plan, e ≠ .fail

/-- The event of the call that programs the main sector. -/
def Lbl.atProgram : Lbl → Option Ev
  | .op o p => p[o.callsBefore]?
  | .boot p => p[4]?
  | .off => none

/-- Where the power is cut in the program of the main sector, the torn image does not
pass the check, unless it is complete. -/
def TornDetected (cfg : Cfg) (d : Dev n) (l : Lbl) : Prop :=
  ∀ k, l.atProgram = some (.cut k) →
    match l with
    | .op o _ => ∀ h, Detected cfg (o.sector d.sys.main h) k
    | .boot _ => Detected cfg (initSector d.sys) k
    | .off => True

/-- A completed start gives every counter its value from before or after the
interrupted operation, and not less than at the last completed start. -/
def StartsSafe (cfg : Cfg) (d : Dev n) : Prop :=
  ∀ p s' q, (∀ e ∈ p, e = .ok) → tfmPlatInitNvCounter cfg d.sys p = .ok () s' q →
    (s'.values = d.before ∨ s'.values = d.after) ∧ ∀ i, d.floor i ≤ s'.values i

structure DevInv (d : Dev n) : Prop where
  up : d.up = true → isValid d.sys.main = true ∧ d.before = d.sys.values ∧ d.after = d.sys.values
  down : Rec d.sys d.before ∨ Rec d.sys d.after
  before : ∀ i, d.floor i ≤ d.before i
  after : ∀ i, d.floor i ≤ d.after i

theorem DevInv.running {d : Dev n} {s : Sys n} (hv : isValid s.main = true)
    (hf : ∀ i, d.floor i ≤ s.values i) : DevInv (d.running s) :=
  ⟨fun _ => ⟨hv, rfl, rfl⟩, .inl (.inl ⟨hv, rfl⟩), hf, hf⟩

variable {cfg : Cfg}

theorem inv_op {d d' : Dev n} {o : Op} {p : List Ev} (h : DevInv d) (hp : ∀ e ∈ p, e ≠ .fail)
    (hd : TornDetected cfg d (.op o p)) (hs : step cfg d (.op o p) = some d') : DevInv d' := by
  simp only [step] at hs
  split at hs
  · rename_i hu
    obtain ⟨hv, hb, -⟩ := h.up hu
    have hfloor : ∀ i, d.floor i ≤ d.sys.values i := fun i => hb ▸ h.before i
    have hle : ∀ i, d.floor i ≤ o.values d.sys.values i := fun i =>
      UInt32.le_trans (hfloor i) (o.values_le _ i)
    have hafter : (o.run cfg d.sys []).state.values = o.values d.sys.values :=
      wp_quiet_state (P := fun s => s.values = _)
        (wp_of_wpAt (op_wp (G := fun _ => Quiet) cfg hv o (fun _ h => by cases h)
          fun _ h => by cases h))
        (fun _ _ h => h.2) (fun _ _ h => h.2) fun _ h => not_cutsAt_quiet h.1
    have hrun := wpAt_schedule (op_wp cfg hv o (fun i hf => hp _ (List.mem_of_getElem? hf) rfl) hd)
    revert hs hrun
    cases o.run cfg d.sys p with
    | ok a s' q =>
      intro hs hrun
      cases hs
      exact .running hrun.1 fun i => hrun.2 ▸ hle i
    | err e s' q =>
      intro hs hrun
      cases hs
      exact .running hrun.1 fun i => hrun.2 ▸ hle i
    | cut s' =>
      intro hs hrun
      cases hs
      refine ⟨fun hd => (by cases hd), ?_, hfloor, ?_⟩
      · rw [hafter]
        exact hrun.2
      · rw [hafter]
        exact hle
  · cases hs

theorem inv_boot {d d' : Dev n} {p : List Ev} (h : DevInv d) (hp : ∀ e ∈ p, e ≠ .fail)
    (hd : TornDetected cfg d (.boot p)) (hs : step cfg d (.boot p) = some d') : DevInv d' := by
  simp only [step] at hs
  split at hs
  · cases hs
  · have hrun : ∀ v, Rec d.sys v → _ := fun v hv =>
      wpAt_schedule (init_wp cfg hv (fun i hf => hp _ (List.mem_of_getElem? hf) rfl) hd)
    have hdown := h.down
    revert hs hrun
    cases tfmPlatInitNvCounter cfg d.sys p with
    | ok a s' q =>
      intro hs hrun
      cases hs
      have hv : isValid s'.main = true := by
        rcases hdown with hb | ha
        · exact (hrun _ hb).1
        · exact (hrun _ ha).1
      exact ⟨fun _ => ⟨hv, rfl, rfl⟩, .inl (.inl ⟨hv, rfl⟩), fun _ => UInt32.le_refl _,
        fun _ => UInt32.le_refl _⟩
    | err e s' q =>
      intro hs hrun
      cases hs
      rename_i hu
      exact ⟨fun hu' => absurd hu' hu, hdown.imp (fun hb => hrun _ hb) fun ha => hrun _ ha,
        h.before, h.after⟩
    | cut s' =>
      intro hs hrun
      cases hs
      rename_i hu
      exact ⟨fun hu' => absurd hu' hu, hdown.imp (fun hb => hrun _ hb) fun ha => hrun _ ha,
        h.before, h.after⟩

theorem inv_step {d d' : Dev n} {l : Lbl} (h : DevInv d) (hl : NoFault d l)
    (hd : TornDetected cfg d l) (hs : step cfg d l = some d') : DevInv d' := by
  cases l with
  | op o p => exact inv_op h hl hd hs
  | boot p => exact inv_boot h hl hd hs
  | off =>
    simp only [step] at hs
    split at hs
    · cases hs
      exact ⟨fun hd => (by cases hd), h.down, h.before, h.after⟩
    · cases hs

theorem inv_init {d : Dev n} (h : Init cfg d) : DevInv d := by
  obtain ⟨s₀, s, p, hrun, rfl⟩ := h
  have hv : isValid s.main = true := by
    have hi := wpAt_schedule (p := []) (init_valid (s := s₀) cfg nofun)
    rw [hrun] at hi
    exact hi
  exact ⟨fun _ => ⟨hv, rfl, rfl⟩, .inl (.inl ⟨hv, rfl⟩), fun _ => UInt32.le_refl _,
    fun _ => UInt32.le_refl _⟩

theorem inv_inductive (cfg : Cfg) :
    ((lts cfg).restrict fun d l => NoFault d l ∧ TornDetected cfg d l).Inductive DevInv where
  init := fun _ hd => inv_init hd
  step := fun _ _ _ h hs => inv_step h hs.1.1 hs.1.2 hs.2

theorem DevInv.startsSafe {d : Dev n} (h : DevInv d) : StartsSafe cfg d := by
  intro p s' q hp hrun
  have hend : ∀ v, Rec d.sys v → s'.values = v := by
    intro v hv
    have hi := wp_of_wpAt (init_wp (G := fun _ => Quiet) (j := 0) cfg hv (fun _ h => by cases h)
      fun _ h => by cases h) p hp
    rw [hrun] at hi
    exact hi.1.2
  rcases h.down with hb | ha
  · rw [hend _ hb]
    exact ⟨.inl rfl, h.before⟩
  · rw [hend _ ha]
    exact ⟨.inr rfl, h.after⟩

/-- **The counters are power-fail safe and monotonic**, for every sector size, in
every run without failing calls in which no torn image of the main sector passes the
check. -/
theorem counters_power_fail_safe (cfg : Cfg) (d : Dev (numNvCounters cfg))
    (h : ((lts cfg).restrict fun d l => NoFault d l ∧ TornDetected cfg d l).Reachable d) :
    StartsSafe cfg d :=
  ((inv_inductive cfg).reachable d h).startsSafe

instance (d : Dev n) (l : Lbl) : Decidable (NoFault d l) :=
  inferInstanceAs (Decidable (∀ e ∈ l.plan, e ≠ .fail))

/-- A decision procedure for `Detected`. -/
def detected (cfg : Cfg) (w : Sector n) (k : Nat) : Bool :=
  !isValid (tornSector k w (erasedSector cfg.erased)) ||
    List.ofFn (tornSector k w (erasedSector cfg.erased)) == List.ofFn w

theorem detected_sound {w : Sector n} {k : Nat} (h : detected cfg w k = true) :
    Detected cfg w k := by
  intro hv
  simp only [detected, hv, Bool.not_true, Bool.false_or, beq_iff_eq] at h
  exact List.ofFn_injective h

/-- A decision procedure for `TornDetected`, for concrete runs. -/
def tornDetected (cfg : Cfg) (d : Dev n) (l : Lbl) : Bool :=
  match l.atProgram with
  | some (.cut k) =>
    match l with
    | .op o _ => if h : _ < n then detected cfg (o.sector d.sys.main h) k else true
    | .boot _ => detected cfg (initSector d.sys) k
    | .off => true
  | _ => true

theorem tornDetected_sound {d : Dev n} {l : Lbl} (h : tornDetected cfg d l = true) :
    TornDetected cfg d l := by
  intro k hk
  unfold tornDetected at h
  simp only [hk] at h
  cases l with
  | op o p =>
    intro hlt
    simp only [hlt, dif_pos] at h
    exact detected_sound h
  | boot p => exact detected_sound h
  | off => trivial

/-- The sectors of psoc64, 512 bytes with 126 counters, on flash with erased value 0xff. -/
def psoc64Cfg : Cfg := ⟨0x200, 0x400, 0xffffffff⟩

def psoc64Sys : Sys (numNvCounters psoc64Cfg) := ⟨erasedSector 0, erasedSector 0⟩

/-- The device after its first start, on sectors of zeros. -/
def psoc64Init : Dev (numNvCounters psoc64Cfg) :=
  let s := (tfmPlatInitNvCounter psoc64Cfg psoc64Sys []).state
  ⟨s, true, s.values, s.values, s.values⟩

theorem psoc64Init_init : Init psoc64Cfg psoc64Init := by
  have hok : (tfmPlatInitNvCounter psoc64Cfg psoc64Sys []).isOk = true := by
    decide +kernel
  obtain ⟨_, p, hrun⟩ := Res.of_isOk hok
  exact ⟨psoc64Sys, _, p, hrun, rfl⟩

/-- Two updates of counter 0 that are cut: after four words of the backup sector, where
the torn image passes the check but is not used, and after three words of the main one. -/
theorem counters_power_fail_safe_on_cut_set :
    ∃ d, ((lts psoc64Cfg).restrict fun d l => NoFault d l ∧
        TornDetected psoc64Cfg d l).Reachable d ∧ d.up = false ∧ StartsSafe psoc64Cfg d := by
  have he : (LTS.execC (fun d l => decide (NoFault d l) && tornDetected psoc64Cfg d l)
      (step psoc64Cfg) psoc64Init
      [.op (.set 0 7) [.ok, .ok, .cut 4], .boot [],
        .op (.set 0 7) [.ok, .ok, .ok, .ok, .cut 3]]).map (·.up) = some false := by decide +kernel
  obtain ⟨d, hd, hv⟩ := Option.map_eq_some_iff.1 he
  have hreach : ((lts psoc64Cfg).restrict fun d l => NoFault d l ∧
      TornDetected psoc64Cfg d l).Reachable d := by
    refine LTS.reachable_execC (fun _ _ h => ?_) _ psoc64Init_init hd
    simp only [Bool.and_eq_true, decide_eq_true_eq] at h
    exact ⟨h.1, tornDetected_sound h.2⟩
  exact ⟨d, hreach, hv, counters_power_fail_safe psoc64Cfg d hreach⟩

def counter2 : Fin (numNvCounters psoc64Cfg) := ⟨2, by decide⟩

/-- Without the condition: all counters are 0, an update of counter 0 is cut after four
words of the main sector, and the next start takes the erased words for the values of
the counters from 2 on. -/
theorem counters_lost_on_torn_sector :
    ¬ ∀ (cfg : Cfg) (d : Dev (numNvCounters cfg)), ((lts cfg).restrict NoFault).Reachable d →
      StartsSafe cfg d := by
  intro h
  have he : (LTS.execC (fun d l => decide (NoFault d l)) (step psoc64Cfg) psoc64Init
      [.op (.set 0 7) [.ok, .ok, .ok, .ok, .cut 4]]).map (fun d =>
        (d.before counter2, d.after counter2, (tfmPlatInitNvCounter psoc64Cfg d.sys []).isOk,
          (tfmPlatInitNvCounter psoc64Cfg d.sys []).state.values counter2)) =
      some (0, 0, true, 0xffffffff) := by decide +kernel
  obtain ⟨d, hd, hv⟩ := Option.map_eq_some_iff.1 he
  have hreach : ((lts psoc64Cfg).restrict NoFault).Reachable d :=
    LTS.reachable_execC (fun _ _ h => of_decide_eq_true h) _ psoc64Init_init hd
  simp only [Prod.mk.injEq] at hv
  obtain ⟨hbefore, hafter, hok, hval⟩ := hv
  obtain ⟨_, q, hrun⟩ := Res.of_isOk hok
  have hsafe := h psoc64Cfg d hreach [] _ q (fun e he => by cases he) hrun
  rcases hsafe.1 with heq | heq
  · rw [heq, hbefore] at hval
    exact absurd hval (by decide)
  · rw [heq, hafter] at hval
    exact absurd hval (by decide)

end Tfm.L2.NvCounter
