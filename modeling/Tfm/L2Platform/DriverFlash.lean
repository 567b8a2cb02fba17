import Mathlib.Data.UInt
import Tfm.Core.Pieces
import Tfm.Core.While

/-!
# PSoC 64 flash driver

Model of `ARM_Flash_ReadData` and `ARM_Flash_ProgramData` in
platform/ext/target/cypress/psoc64/CMSIS_Driver/Driver_Flash.c, in the 32-bit
arithmetic of the target. Flash can only be programmed by whole rows, so the
loop reads a row, puts the data of this turn into it and programs it again.

`Cy_Flash_ProgramRow` and the geometry (`CY_FLASH_BASE`, `CY_FLASH_SIZE`,
`CY_FLASH_SIZEOF_ROW`) come from the vendor's library, which is not part of the
repository. They are parameters: `RowDriver` is the function with a state of its
own, `RowDriver.Lawful` says that it stores the row it is given or leaves the
flash as it is, and `Device` has the geometry. The caller's buffer is not in the
flash.

Results:
* `readData_eq`: contents of every range in the device, an error for all others.
* `programData_rejected`: no row is programmed for a request that is rejected.
* `ProgInv.turn`: one turn of the loop extends the data in the flash up to the
  next row boundary or to the end.
* `programData_done`: all of the data, or what was written before the row that
  failed, and nothing else changed.
-/
namespace Tfm.L2.DriverFlash
open Tfm.Pieces Tfm.While

/-! ## The driver -/

/-- The geometry: whole rows, and the last address of the address space is not
in the flash (`psoc64` is the geometry of the repository's flash layout). -/
structure Device where
  memoryBase : UInt32
  flashSize : UInt32
  rowSize : UInt32
  programUnit : UInt32
  top : memoryBase.toNat + flashSize.toNat < 2 ^ 32 - 1
  row_pos : 0 < rowSize.toNat
  unit_pos : 0 < programUnit.toNat
  row_base : rowSize.toNat ∣ memoryBase.toNat
  row_size : rowSize.toNat ∣ flashSize.toNat

/-- The results of `Cy_Flash_ProgramRow`; `other` are the codes that the driver
does not tell apart. -/
inductive FlashDrvStatus
  | success
  | ipcBusy
  | invalidInputParameters
  | errUnc
  | other (code : Nat)
  deriving DecidableEq, Repr

/-- The `ARM_DRIVER_` results. -/
inductive ArmStatus
  | ok
  | errorBusy
  | errorParameter
  | error
  deriving DecidableEq, Repr

/-- The vendor's function, with the state it works on. -/
structure RowDriver (H : Type) where
  flash : H → Nat → UInt8
  programRow : H → UInt32 → List UInt8 → FlashDrvStatus × H

/-- A whole row of the device. -/
def Device.IsRow (dev : Device) (address : Nat) : Prop :=
  address % dev.rowSize.toNat = 0 ∧ dev.memoryBase.toNat ≤ address ∧
    address + dev.rowSize.toNat ≤ dev.memoryBase.toNat + dev.flashSize.toNat

/-- The row is stored, or the flash is as it was. -/
structure RowDriver.Lawful {H : Type} (rd : RowDriver H) (dev : Device) : Prop where
  stored : ∀ h a row, dev.IsRow a.toNat → row.length = dev.rowSize.toNat →
    (rd.programRow h a row).1 = .success →
    rd.flash (rd.programRow h a row).2 = blit (rd.flash h) a.toNat row
  kept : ∀ h a row, dev.IsRow a.toNat → row.length = dev.rowSize.toNat →
    (rd.programRow h a row).1 ≠ .success → rd.flash (rd.programRow h a row).2 = rd.flash h

section Driver
variable {H : Type} (dev : Device) (rd : RowDriver H)

def uint32Max : UInt32 := 0xFFFFFFFF

/-- The result, and the bytes put at `data`; `null` is `data == NULL`.
mirrors platform/ext/target/cypress/psoc64/CMSIS_Driver/Driver_Flash.c:150-182 -/
def readData (addr : UInt32) (null : Bool) (cnt : UInt32) (h : H) : ArmStatus × List UInt8 :=
  if null ∨ cnt = 0 then (.ok, [])
  else if dev.memoryBase ≥ uint32Max - addr then (.errorParameter, [])
  else
    let startAddr := dev.memoryBase + addr
    if startAddr ≥ dev.memoryBase + dev.flashSize then (.errorParameter, [])
    else if startAddr ≥ uint32Max - cnt then (.errorParameter, [])
    else if startAddr + cnt < dev.memoryBase ∨ startAddr + cnt > dev.memoryBase + dev.flashSize then
      (.errorParameter, [])
    else (.ok, slice (rd.flash h) startAddr.toNat cnt.toNat)

/-- The variables of the loop. `rows` are the rows programmed so far, with the
results; `stopped` is the `break`. -/
structure Prog (H : Type) where
  cnt : UInt32
  address : UInt32
  dataPtr : Nat
  status : FlashDrvStatus
  stopped : Bool
  h : H
  rows : List (UInt32 × FlashDrvStatus)

def chunkSize (address cnt : UInt32) : UInt32 :=
  let offset := address % dev.rowSize
  if offset + cnt > dev.rowSize then dev.rowSize - offset else cnt

/-- The body of the loop; `d` are the bytes at `data`. -/
def Prog.turn (d : Nat → UInt8) (p : Prog H) : Prog H :=
  let offset := p.address % dev.rowSize
  let chunk := chunkSize dev p.address p.cnt
  let rowAddress := p.address / dev.rowSize * dev.rowSize
  let row := slice (rd.flash p.h) rowAddress.toNat dev.rowSize.toNat
  let progBuf := row.take offset.toNat ++ slice d p.dataPtr chunk.toNat ++
    row.drop (offset.toNat + chunk.toNat)
  let r := rd.programRow p.h rowAddress progBuf
  if r.1 ≠ .success then
    { p with status := r.1, stopped := true, h := r.2, rows := p.rows ++ [(rowAddress, r.1)] }
  else
    { cnt := p.cnt - chunk, address := p.address + chunk, dataPtr := p.dataPtr + chunk.toNat
      status := r.1, stopped := p.stopped, h := r.2, rows := p.rows ++ [(rowAddress, r.1)] }

end Driver

/-- A chunk is not empty and not more than what is left. -/
theorem chunkSize_le (dev : Device) (address : UInt32) {cnt : UInt32} (hc : cnt ≠ 0) :
    0 < (chunkSize dev address cnt).toNat ∧ (chunkSize dev address cnt).toNat ≤ cnt.toNat := by
  have hrow := dev.row_pos
  have hpos : 0 < cnt.toNat := by
    apply Nat.pos_of_ne_zero
    intro h
    exact hc (UInt32.toNat_inj.mp h)
  have hoff : (address % dev.rowSize).toNat < dev.rowSize.toNat := by
    rw [UInt32.toNat_mod]
    exact Nat.mod_lt _ hrow
  have hr := dev.rowSize.toNat_lt
  have hn := cnt.toNat_lt
  unfold chunkSize
  dsimp only
  split
  · next h =>
    rw [gt_iff_lt, UInt32.lt_iff_toNat_lt, UInt32.toNat_add] at h
    rw [UInt32.toNat_sub_of_le _ _ (UInt32.le_iff_toNat_le.mpr hoff.le)]
    omega
  · exact ⟨hpos, Nat.le_refl _⟩

/-- What the loop makes smaller: the bytes left, or the turns after a failure. -/
def Prog.size {H : Type} (p : Prog H) : Nat := p.cnt.toNat + if p.stopped then 0 else 1

def Prog.more {H : Type} (p : Prog H) : Bool := p.cnt != 0 && !p.stopped

theorem Prog.turn_lt {H : Type} (dev : Device) (rd : RowDriver H) (d : Nat → UInt8) (p : Prog H)
    (h : p.more = true) : (p.turn dev rd d).size < p.size := by
  rw [Prog.more, Bool.and_eq_true, bne_iff_ne, Bool.not_eq_true'] at h
  have hchunk := chunkSize_le dev p.address h.1
  have hsub : (p.cnt - chunkSize dev p.address p.cnt).toNat =
      p.cnt.toNat - (chunkSize dev p.address p.cnt).toNat :=
    UInt32.toNat_sub_of_le _ _ (UInt32.le_iff_toNat_le.mpr hchunk.2)
  unfold Prog.turn
  dsimp only
  split
  · simp [Prog.size, h.2]
  · simp only [Prog.size, h.2, hsub]
    omega

/-- The `switch` on the status. -/
def armStatus : FlashDrvStatus → ArmStatus
  | .success => .ok
  | .ipcBusy => .errorBusy
  | .invalidInputParameters => .errorParameter
  | .errUnc => .error
  | .other _ => .error

/-- What a call leaves: its result, the hardware, and the rows it programmed. -/
structure Done (H : Type) where
  result : ArmStatus
  h : H
  rows : List (UInt32 × FlashDrvStatus)

/-- `none` is `data == NULL`.
mirrors platform/ext/target/cypress/psoc64/CMSIS_Driver/Driver_Flash.c:184-251 -/
def programData {H : Type} (dev : Device) (rd : RowDriver H) (addr : UInt32)
    (data : Option (Nat → UInt8)) (cnt : UInt32) (h : H) : Done H :=
  match data with
  | none => ⟨.errorParameter, h, []⟩
  | some d =>
    if cnt = 0 then ⟨.errorParameter, h, []⟩
    else if cnt % dev.programUnit ≠ 0 then ⟨.errorParameter, h, []⟩
    else if addr ≥ dev.flashSize ∨ cnt > dev.flashSize - addr then ⟨.errorParameter, h, []⟩
    else if dev.memoryBase ≥ uint32Max - addr then ⟨.errorParameter, h, []⟩
    else
      let p := whileDo Prog.more (Prog.turn dev rd d) Prog.size (Prog.turn_lt dev rd d)
        { cnt := cnt, address := dev.memoryBase + addr, dataPtr := 0, status := .errUnc
          stopped := false, h := h, rows := [] }
      ⟨armStatus p.status, p.h, p.rows⟩

/-! ## Reading -/

/-- Every byte of the range is in the device. -/
def Device.InRange (dev : Device) (addr cnt : UInt32) : Prop :=
  ∀ i < cnt.toNat, addr.toNat + i < dev.flashSize.toNat

theorem inRange_iff (dev : Device) {addr cnt : UInt32} (hc : cnt ≠ 0) :
    dev.InRange addr cnt ↔ addr.toNat + cnt.toNat ≤ dev.flashSize.toNat := by
  have hpos : 0 < cnt.toNat := by
    apply Nat.pos_of_ne_zero
    intro h
    exact hc (UInt32.toNat_inj.mp h)
  constructor
  · intro h
    have hlast := h (cnt.toNat - 1) (by omega)
    omega
  · intro h i hi
    omega

/-- The checks before two numbers are added. -/
theorem length_check {start cnt : UInt32} :
    start ≥ uint32Max - cnt ↔ 2 ^ 32 - 1 ≤ start.toNat + cnt.toNat := by
  have hc := cnt.toNat_lt
  have hmax : uint32Max.toNat = 2 ^ 32 - 1 := rfl
  have hle : cnt ≤ uint32Max := by
    rw [UInt32.le_iff_toNat_le, hmax]
    omega
  rw [ge_iff_le, UInt32.le_iff_toNat_le, UInt32.toNat_sub_of_le _ _ hle, hmax]
  omega

/-- Reading gives the contents of a range in the device, and an error for every
other range. -/
theorem readData_eq {H : Type} (dev : Device) (rd : RowDriver H) (addr cnt : UInt32) (h : H) :
    (dev.InRange addr cnt →
      readData dev rd addr false cnt h =
        (.ok, slice (rd.flash h) (dev.memoryBase.toNat + addr.toNat) cnt.toNat)) ∧
    (¬ dev.InRange addr cnt → readData dev rd addr false cnt h = (.errorParameter, [])) := by
  by_cases hc : cnt = 0
  · -- an empty range is in every device
    have hin : dev.InRange addr cnt := by
      intro i hi
      rw [hc] at hi
      exact absurd hi (Nat.not_lt_zero i)
    constructor
    · intro _
      rw [readData, if_pos (.inr hc), hc]
      rfl
    · intro hout
      exact absurd hin hout
  · have htop := dev.top
    rw [inRange_iff dev hc, readData, if_neg (by simpa using hc)]
    by_cases h1 : 2 ^ 32 - 1 ≤ dev.memoryBase.toNat + addr.toNat
    · rw [if_pos (length_check.mpr h1)]
      constructor
      · intro hin
        omega
      · intro _
        rfl
    · have hstart : (dev.memoryBase + addr).toNat = dev.memoryBase.toNat + addr.toNat := by
        rw [UInt32.toNat_add]
        omega
      have hend : (dev.memoryBase + dev.flashSize).toNat =
          dev.memoryBase.toNat + dev.flashSize.toNat := by
        rw [UInt32.toNat_add]
        omega
      have hfirst : dev.memoryBase + addr ≥ dev.memoryBase + dev.flashSize ↔
          dev.flashSize.toNat ≤ addr.toNat := by
        rw [ge_iff_le, UInt32.le_iff_toNat_le, hend, hstart]
        omega
      have hwrap : dev.memoryBase + addr ≥ uint32Max - cnt ↔
          2 ^ 32 - 1 ≤ dev.memoryBase.toNat + addr.toNat + cnt.toNat := by
        rw [length_check, hstart]
      have hlast : dev.memoryBase.toNat + addr.toNat + cnt.toNat < 2 ^ 32 →
          ((dev.memoryBase + addr + cnt < dev.memoryBase ∨
              dev.memoryBase + addr + cnt > dev.memoryBase + dev.flashSize) ↔
            dev.flashSize.toNat < addr.toNat + cnt.toNat) := by
        intro hlt
        have hsum : (dev.memoryBase + addr + cnt).toNat =
            dev.memoryBase.toNat + addr.toNat + cnt.toNat := by
          rw [UInt32.toNat_add, hstart]
          exact Nat.mod_eq_of_lt hlt
        rw [gt_iff_lt, UInt32.lt_iff_toNat_lt, UInt32.lt_iff_toNat_lt, hend, hsum]
        omega
      rw [if_neg (fun hge => h1 (length_check.mp hge))]
      dsimp only
      constructor
      · intro hin
        have hpos : 0 < cnt.toNat := by
          apply Nat.pos_of_ne_zero
          intro hz
          exact hc (UInt32.toNat_inj.mp hz)
        rw [if_neg (by rw [hfirst]; omega), if_neg (by rw [hwrap]; omega),
          if_neg (by rw [hlast (by omega)]; omega), hstart]
      · intro hout
        by_cases hover : dev.memoryBase.toNat + addr.toNat + cnt.toNat < 2 ^ 32 - 1
        · by_cases hf : dev.flashSize.toNat ≤ addr.toNat
          · rw [if_pos (hfirst.mpr hf)]
          · rw [if_neg (by rw [hfirst]; exact hf), if_neg (by rw [hwrap]; omega),
              if_pos ((hlast (by omega)).mpr (by omega))]
        · by_cases hf : dev.flashSize.toNat ≤ addr.toNat
          · rw [if_pos (hfirst.mpr hf)]
          · rw [if_neg (by rw [hfirst]; exact hf), if_pos (hwrap.mpr (by omega))]

/-! ## Programming -/

/-- A positive multiple of the program unit, in the device. -/
def Device.Accepts (dev : Device) (addr cnt : UInt32) : Prop :=
  0 < cnt.toNat ∧ dev.programUnit.toNat ∣ cnt.toNat ∧
    addr.toNat + cnt.toNat ≤ dev.flashSize.toNat

section Program
variable {H : Type} {dev : Device} {rd : RowDriver H}

/-- The loop of a request that is accepted. -/
def runLoop (dev : Device) (rd : RowDriver H) (addr : UInt32) (d : Nat → UInt8) (cnt : UInt32)
    (h : H) : Prog H :=
  whileDo Prog.more (Prog.turn dev rd d) Prog.size (Prog.turn_lt dev rd d)
    { cnt := cnt, address := dev.memoryBase + addr, dataPtr := 0, status := .errUnc
      stopped := false, h := h, rows := [] }

theorem unit_check {cnt : UInt32} :
    cnt % dev.programUnit ≠ 0 ↔ ¬ dev.programUnit.toNat ∣ cnt.toNat := by
  rw [Nat.dvd_iff_mod_eq_zero, ne_eq, ← UInt32.toNat_inj, UInt32.toNat_mod, UInt32.toNat_zero]

theorem range_check {addr cnt : UInt32} :
    (addr ≥ dev.flashSize ∨ cnt > dev.flashSize - addr) ↔
      ¬ (addr.toNat < dev.flashSize.toNat ∧ addr.toNat + cnt.toNat ≤ dev.flashSize.toNat) := by
  by_cases h : dev.flashSize.toNat ≤ addr.toNat
  · have hge : addr ≥ dev.flashSize := UInt32.le_iff_toNat_le.mpr h
    simp only [hge, true_or, true_iff]
    omega
  · have hle : addr ≤ dev.flashSize := UInt32.le_iff_toNat_le.mpr (by omega)
    rw [ge_iff_le, UInt32.le_iff_toNat_le, gt_iff_lt, UInt32.lt_iff_toNat_lt,
      UInt32.toNat_sub_of_le _ _ hle]
    omega

theorem programData_accepted {addr cnt : UInt32} (hacc : dev.Accepts addr cnt) (d : Nat → UInt8)
    (h : H) :
    programData dev rd addr (some d) cnt h =
      ⟨armStatus (runLoop dev rd addr d cnt h).status, (runLoop dev rd addr d cnt h).h,
        (runLoop dev rd addr d cnt h).rows⟩ := by
  obtain ⟨hpos, hunit, hrange⟩ := hacc
  have htop := dev.top
  have hc : cnt ≠ 0 := by
    intro hz
    rw [hz] at hpos
    exact absurd hpos (by decide)
  rw [programData]
  dsimp only
  rw [if_neg hc, if_neg (fun hne => unit_check.mp hne hunit),
    if_neg (fun hout => range_check.mp hout ⟨by omega, hrange⟩),
    if_neg (fun hwrap => absurd (length_check.mp hwrap) (by omega))]
  rfl

/-- No row is programmed for a request that is rejected. -/
theorem programData_rejected {addr cnt : UInt32} {data : Option (Nat → UInt8)}
    (hrej : ¬ (data ≠ none ∧ dev.Accepts addr cnt)) (h : H) :
    programData dev rd addr data cnt h = ⟨.errorParameter, h, []⟩ := by
  cases data with
  | none => rfl
  | some d =>
    rw [programData]
    dsimp only
    by_cases hc : cnt = 0
    · rw [if_pos hc]
    · rw [if_neg hc]
      by_cases hunit : dev.programUnit.toNat ∣ cnt.toNat
      · rw [if_neg (fun hne => unit_check.mp hne hunit), if_pos]
        apply range_check.mpr
        intro hin
        apply hrej
        refine ⟨Option.some_ne_none d, ?_, hunit, hin.2⟩
        apply Nat.pos_of_ne_zero
        intro hz
        exact hc (UInt32.toNat_inj.mp hz)
      · rw [if_pos (unit_check.mpr hunit)]

/-- The state of the loop at `start`, `n` bytes of `d` to program. -/
structure ProgInv (dev : Device) (rd : RowDriver H) (h : H) (start n : Nat) (d : Nat → UInt8)
    (p : Prog H) : Prop where
  le : p.dataPtr ≤ n
  cnt : p.cnt.toNat = n - p.dataPtr
  address : p.address.toNat = start + p.dataPtr
  flash : rd.flash p.h = blit (rd.flash h) start (slice d 0 p.dataPtr)
  edge : p.dataPtr = 0 ∨ p.dataPtr = n ∨ (start + p.dataPtr) % dev.rowSize.toNat = 0
  going : p.stopped = false → (∀ r ∈ p.rows, r.2 = .success) ∧
    (0 < p.dataPtr → p.status = .success ∧ p.rows ≠ [])
  failed : p.stopped = true → p.dataPtr < n ∧ p.status ≠ .success ∧
    ∃ r ∈ p.rows, r.2 ≠ .success

/-- The row of an address of the device. -/
theorem isRow_of_mem (dev : Device) (address : UInt32) (hlow : dev.memoryBase.toNat ≤ address.toNat)
    (hhigh : address.toNat < dev.memoryBase.toNat + dev.flashSize.toNat) :
    (address / dev.rowSize * dev.rowSize).toNat =
        address.toNat - address.toNat % dev.rowSize.toNat ∧
      dev.IsRow (address.toNat - address.toNat % dev.rowSize.toNat) := by
  have hrow := dev.row_pos
  have haddr := address.toNat_lt
  obtain ⟨b, hb⟩ := dev.row_base
  obtain ⟨s, hs⟩ := dev.row_size
  have hdiv := Nat.div_add_mod address.toNat dev.rowSize.toNat
  have heq : address.toNat - address.toNat % dev.rowSize.toNat =
      dev.rowSize.toNat * (address.toNat / dev.rowSize.toNat) := by omega
  refine ⟨?_, ?_, ?_, ?_⟩
  · rw [UInt32.toNat_mul, UInt32.toNat_div, Nat.mul_comm, heq]
    exact Nat.mod_eq_of_lt (by omega)
  · rw [heq]
    exact Nat.mul_mod_right _ _
  · rw [heq, hb]
    apply Nat.mul_le_mul_left
    rw [Nat.le_div_iff_mul_le hrow, Nat.mul_comm, ← hb]
    exact hlow
  · rw [heq, hb, hs, ← Nat.mul_succ, ← Nat.mul_add]
    apply Nat.mul_le_mul_left
    show address.toNat / dev.rowSize.toNat < b + s
    rw [Nat.div_lt_iff_lt_mul hrow, Nat.mul_comm, Nat.mul_add, ← hb, ← hs]
    exact hhigh

/-- The chunk of a turn ends at the end of the row or of the data. -/
theorem chunkSize_eq (dev : Device) (address cnt : UInt32)
    (hfit : address.toNat + cnt.toNat ≤ dev.memoryBase.toNat + dev.flashSize.toNat) :
    (chunkSize dev address cnt).toNat =
      min (dev.rowSize.toNat - address.toNat % dev.rowSize.toNat) cnt.toNat := by
  have hrow := dev.row_pos
  have htop := dev.top
  have hle := Nat.mod_le address.toNat dev.rowSize.toNat
  have hlt := Nat.mod_lt address.toNat hrow
  have hmod : (address % dev.rowSize).toNat = address.toNat % dev.rowSize.toNat :=
    UInt32.toNat_mod _ _
  have hcond : address % dev.rowSize + cnt > dev.rowSize ↔
      dev.rowSize.toNat < address.toNat % dev.rowSize.toNat + cnt.toNat := by
    rw [gt_iff_lt, UInt32.lt_iff_toNat_lt, UInt32.toNat_add, hmod, Nat.mod_eq_of_lt (by omega)]
  unfold chunkSize
  dsimp only
  by_cases h : dev.rowSize.toNat < address.toNat % dev.rowSize.toNat + cnt.toNat
  · rw [if_pos (hcond.mpr h), UInt32.toNat_sub_of_le, hmod]
    · omega
    · rw [UInt32.le_iff_toNat_le, hmod]
      exact hlt.le
  · rw [if_neg (fun hgt => h (hcond.mp hgt))]
    omega

/-- The buffer of a turn is a whole row, and programming it puts the data of the
turn into the flash. -/
theorem turn_row (hl : rd.Lawful dev) (h₀ : H) {row c : Nat} (o : Nat) {a : UInt32}
    {l : List UInt8} (ha : a.toNat = row) (hrow : dev.IsRow row) (hc : l.length = c)
    (hfit : o + c ≤ dev.rowSize.toNat) {buf : List UInt8}
    (hbuf : buf = (slice (rd.flash h₀) row dev.rowSize.toNat).take o ++ l ++
      (slice (rd.flash h₀) row dev.rowSize.toNat).drop (o + c)) :
    ((rd.programRow h₀ a buf).1 = .success →
      rd.flash (rd.programRow h₀ a buf).2 = blit (rd.flash h₀) (row + o) l) ∧
    ((rd.programRow h₀ a buf).1 ≠ .success →
      rd.flash (rd.programRow h₀ a buf).2 = rd.flash h₀) := by
  have hlen : buf.length = dev.rowSize.toNat := by
    rw [hbuf, List.length_append, List.length_append, List.length_take, List.length_drop,
      length_slice, hc]
    omega
  have hisRow : dev.IsRow a.toNat := by
    rw [ha]
    exact hrow
  constructor
  · intro hok
    rw [hl.stored h₀ a buf hisRow hlen hok, ha, hbuf, ← hc]
    exact blit_window _ row (by omega)
  · exact hl.kept h₀ a buf hisRow hlen

/-- **One turn** extends the data in the flash up to the next row or to the end,
or it fails and leaves the flash as it is. -/
theorem ProgInv.turn (hl : rd.Lawful dev) {h : H} {start n : Nat} {d : Nat → UInt8} {p : Prog H}
    (hlow : dev.memoryBase.toNat ≤ start)
    (hhigh : start + n ≤ dev.memoryBase.toNat + dev.flashSize.toNat)
    (hinv : ProgInv dev rd h start n d p) (hm : p.more = true) :
    ProgInv dev rd h start n d (p.turn dev rd d) := by
  rw [Prog.more, Bool.and_eq_true, bne_iff_ne, Bool.not_eq_true'] at hm
  have htop := dev.top
  have hrow := dev.row_pos
  have hptr := hinv.le
  have hcnt := hinv.cnt
  have haddr := hinv.address
  have hpos : 0 < p.cnt.toNat := by
    apply Nat.pos_of_ne_zero
    intro hz
    exact hm.1 (UInt32.toNat_inj.mp hz)
  obtain ⟨hrowAddr, hisRow⟩ :=
    isRow_of_mem dev p.address (by omega) (by omega)
  have hoff : (p.address % dev.rowSize).toNat = p.address.toNat % dev.rowSize.toNat :=
    UInt32.toNat_mod _ _
  have hchunk := chunkSize_eq dev p.address p.cnt (by omega)
  have hlt := Nat.mod_lt p.address.toNat hrow
  have hle := Nat.mod_le p.address.toNat dev.rowSize.toNat
  obtain ⟨c, hc⟩ : ∃ c, c = (chunkSize dev p.address p.cnt).toNat := ⟨_, rfl⟩
  rw [← hc] at hchunk
  have hprog := turn_row hl p.h (p.address.toNat % dev.rowSize.toNat) hrowAddr hisRow
    (length_slice d p.dataPtr c) (by omega) rfl
  unfold Prog.turn
  dsimp only
  rw [hoff, hrowAddr, ← hc]
  split
  · next hfail =>
    -- the row fails and the loop stops
    refine ⟨hinv.le, hinv.cnt, hinv.address, (hprog.2 hfail).trans hinv.flash, hinv.edge, ?_, ?_⟩
    · intro hf
      cases hf
    · intro _
      refine ⟨by dsimp only; omega, hfail, _, List.mem_append_right _ (List.mem_singleton_self _),
        hfail⟩
  · next hok =>
    rw [Decidable.not_not] at hok
    have hsub : (p.cnt - chunkSize dev p.address p.cnt).toNat = p.cnt.toNat - c := by
      rw [UInt32.toNat_sub_of_le, ← hc]
      rw [UInt32.le_iff_toNat_le, ← hc]
      omega
    have hadd : (p.address + chunkSize dev p.address p.cnt).toNat = p.address.toNat + c := by
      rw [UInt32.toNat_add, ← hc]
      omega
    have hplace : p.address.toNat - p.address.toNat % dev.rowSize.toNat +
        p.address.toNat % dev.rowSize.toNat = start + p.dataPtr := by omega
    have hwritten := hprog.1 hok
    rw [hplace] at hwritten
    refine ⟨by dsimp only; omega, ?_, ?_, ?_, ?_, ?_, ?_⟩
    · dsimp only
      rw [hsub]
      omega
    · dsimp only
      rw [hadd]
      omega
    · refine hwritten.trans ?_
      rw [hinv.flash, slice_add, Nat.zero_add, blit_append, length_slice]
    · dsimp only
      right
      by_cases hend : c = p.cnt.toNat
      · left
        omega
      · right
        have hfull : start + (p.dataPtr + c) =
            p.address.toNat - p.address.toNat % dev.rowSize.toNat + dev.rowSize.toNat := by omega
        rw [hfull, Nat.add_mod_right]
        exact hisRow.1
    · intro _
      have hgoing := hinv.going hm.2
      refine ⟨?_, fun _ => ⟨hok, List.append_ne_nil_of_right_ne_nil _ (List.cons_ne_nil _ _)⟩⟩
      intro r hr
      rw [List.mem_append, List.mem_singleton] at hr
      cases hr with
      | inl hold => exact hgoing.1 r hold
      | inr hnew =>
        rw [hnew]
        exact hok
    · intro hf
      rw [hm.2] at hf
      cases hf

/-- The first `n` bytes of `d` are in the flash from `start` on, and every other
byte is as it was. -/
def Written (flash flash' : Nat → UInt8) (start : Nat) (d : Nat → UInt8) (n : Nat) : Prop :=
  ∀ x, flash' x = if start ≤ x ∧ x < start + n then d (x - start) else flash x

theorem written_of_blit {flash flash' d : Nat → UInt8} {start n : Nat}
    (h : flash' = blit flash start (slice d 0 n)) : Written flash flash' start d n := by
  intro x
  rw [h, blit_slice, Nat.zero_add]

theorem programData_done (hl : rd.Lawful dev) {addr cnt : UInt32} (hacc : dev.Accepts addr cnt)
    (d : Nat → UInt8) (h : H) :
    (programData dev rd addr (some d) cnt h).rows ≠ [] ∧
    ((∀ row ∈ (programData dev rd addr (some d) cnt h).rows, row.2 = .success) →
      (programData dev rd addr (some d) cnt h).result = .ok ∧
        Written (rd.flash h) (rd.flash (programData dev rd addr (some d) cnt h).h)
          (dev.memoryBase.toNat + addr.toNat) d cnt.toNat) ∧
    ((∃ row ∈ (programData dev rd addr (some d) cnt h).rows, row.2 ≠ .success) →
      (programData dev rd addr (some d) cnt h).result ≠ .ok ∧
        ∃ m < cnt.toNat,
          (m = 0 ∨ (dev.memoryBase.toNat + addr.toNat + m) % dev.rowSize.toNat = 0) ∧
          Written (rd.flash h) (rd.flash (programData dev rd addr (some d) cnt h).h)
            (dev.memoryBase.toNat + addr.toNat) d m) := by
  have htop := dev.top
  have hrange := hacc.2.2
  have hpos := hacc.1
  have hstart : ProgInv dev rd h (dev.memoryBase.toNat + addr.toNat) cnt.toNat d
      { cnt := cnt, address := dev.memoryBase + addr, dataPtr := 0, status := .errUnc
        stopped := false, h := h, rows := [] } := by
    refine ⟨Nat.zero_le _, rfl, ?_, ?_, .inl rfl, ?_, ?_⟩
    · show (dev.memoryBase + addr).toNat = _
      rw [UInt32.toNat_add]
      exact Nat.mod_eq_of_lt (by omega)
    · funext x
      rw [blit_slice, if_neg (by dsimp only; omega)]
    · intro _
      refine ⟨?_, fun hptr => absurd hptr (Nat.lt_irrefl 0)⟩
      intro r hr
      cases hr
    · intro hf
      cases hf
  have hrun : ProgInv dev rd h (dev.memoryBase.toNat + addr.toNat) cnt.toNat d
      (runLoop dev rd addr d cnt h) ∧ (runLoop dev rd addr d cnt h).more = false :=
    whileDo_rule _ (fun p hP hm => hP.turn hl (by omega) (by omega) hm) _ hstart
  obtain ⟨hinv, hdone⟩ := hrun
  rw [programData_accepted hacc]
  dsimp only
  have hptr := hinv.le
  have hleft := hinv.cnt
  have hflash := written_of_blit hinv.flash
  cases hs : (runLoop dev rd addr d cnt h).stopped with
  | false =>
    -- nothing is left, and every row succeeded
    have hzero : (runLoop dev rd addr d cnt h).cnt = 0 := by
      simpa [Prog.more, hs] using hdone
    rw [hzero, UInt32.toNat_zero] at hleft
    have hall : (runLoop dev rd addr d cnt h).dataPtr = cnt.toNat := by omega
    obtain ⟨hrows, hlast⟩ := hinv.going hs
    obtain ⟨hok, hne⟩ := hlast (by omega)
    rw [hall] at hflash
    refine ⟨hne, fun _ => ⟨?_, hflash⟩, ?_⟩
    · rw [hok]
      rfl
    · intro hbad
      obtain ⟨row, hrow, hfail⟩ := hbad
      exact absurd (hrows row hrow) hfail
  | true =>
    obtain ⟨hlt, hfail, row, hrow, hbad⟩ := hinv.failed hs
    refine ⟨List.ne_nil_of_mem hrow, fun hok => absurd (hok row hrow) hbad, fun _ => ⟨?_, ?_⟩⟩
    · intro hres
      apply hfail
      cases hst : (runLoop dev rd addr d cnt h).status with
      | success => rfl
      | ipcBusy =>
        rw [hst] at hres
        cases hres
      | invalidInputParameters =>
        rw [hst] at hres
        cases hres
      | errUnc =>
        rw [hst] at hres
        cases hres
      | other code =>
        rw [hst] at hres
        cases hres
    · refine ⟨_, hlt, ?_, hflash⟩
      cases hinv.edge with
      | inl h0 => exact .inl h0
      | inr hedge => exact .inr (hedge.resolve_left (Nat.ne_of_lt hlt))

end Program

/-! ## The two functions -/

/-- **Programming and reading.** What is accepted, what a success leaves in the
flash, what a failed row leaves, and what reading gives: nothing, and success,
where `data` is `NULL`. -/
theorem program_and_read {H : Type} (dev : Device) (rd : RowDriver H) (hl : rd.Lawful dev)
    (addr cnt : UInt32) (data : Option (Nat → UInt8)) (h : H) :
    ((programData dev rd addr data cnt h).rows ≠ [] ↔ data ≠ none ∧ dev.Accepts addr cnt) ∧
    (¬ (data ≠ none ∧ dev.Accepts addr cnt) →
      (programData dev rd addr data cnt h).result = .errorParameter ∧
        (programData dev rd addr data cnt h).h = h) ∧
    (∀ d, data = some d → dev.Accepts addr cnt →
      ((∀ row ∈ (programData dev rd addr data cnt h).rows, row.2 = .success) →
        (programData dev rd addr data cnt h).result = .ok ∧
          Written (rd.flash h) (rd.flash (programData dev rd addr data cnt h).h)
            (dev.memoryBase.toNat + addr.toNat) d cnt.toNat) ∧
      ((∃ row ∈ (programData dev rd addr data cnt h).rows, row.2 ≠ .success) →
        (programData dev rd addr data cnt h).result ≠ .ok ∧
          ∃ m < cnt.toNat,
            (m = 0 ∨ (dev.memoryBase.toNat + addr.toNat + m) % dev.rowSize.toNat = 0) ∧
            Written (rd.flash h) (rd.flash (programData dev rd addr data cnt h).h)
              (dev.memoryBase.toNat + addr.toNat) d m)) ∧
    (dev.InRange addr cnt →
      readData dev rd addr false cnt h =
        (.ok, slice (rd.flash h) (dev.memoryBase.toNat + addr.toNat) cnt.toNat)) ∧
    (¬ dev.InRange addr cnt → readData dev rd addr false cnt h = (.errorParameter, [])) ∧
    readData dev rd addr true cnt h = (.ok, []) := by
  refine ⟨?_, ?_, ?_, (readData_eq dev rd addr cnt h).1, (readData_eq dev rd addr cnt h).2,
    if_pos (.inl rfl)⟩
  · constructor
    · intro hne
      apply Classical.byContradiction
      intro hrej
      rw [programData_rejected hrej] at hne
      exact hne rfl
    · intro hacc
      cases data with
      | none => exact absurd rfl hacc.1
      | some d => exact (programData_done hl hacc.2 d h).1
  · intro hrej
    rw [programData_rejected hrej]
    exact ⟨rfl, rfl⟩
  · intro d hd hacc
    rw [hd]
    exact (programData_done hl hacc d h).2

/-- Two megabytes at `0x10000000`, in rows of 512 bytes.
mirrors platform/ext/target/cypress/psoc64/partition/flash_layout.h:65-69 -/
def psoc64 : Device where
  memoryBase := 0x10000000
  flashSize := 0x200000
  rowSize := 512
  programUnit := 1
  top := by decide
  row_pos := by decide
  unit_pos := by decide
  row_base := by decide
  row_size := by decide

/-- A flash whose rows can always be programmed. -/
def goodRows : RowDriver (Nat → UInt8) where
  flash := id
  programRow := fun flash a row => (.success, blit flash a.toNat row)

theorem goodRows_lawful (dev : Device) : goodRows.Lawful dev where
  stored := fun _ _ _ _ _ _ => rfl
  kept := fun _ _ _ _ _ hne => absurd rfl hne

/-- Three bytes across the first row boundary. -/
theorem program_and_read_psoc64 :
    (programData psoc64 goodRows 0x1FF (some fun i => UInt8.ofNat i) 3 fun _ => 0xFF).rows ≠ [] :=
  (program_and_read psoc64 goodRows (goodRows_lawful psoc64) 0x1FF 3 (some fun i => UInt8.ofNat i)
    fun _ => 0xFF).1.mpr ⟨Option.some_ne_none _, by decide, by decide, by decide⟩

end Tfm.L2.DriverFlash
