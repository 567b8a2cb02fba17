import Mathlib.Tactic.SplitIfs
import Tfm.L2Platform.NvCounter

/-!
# NV counters of the platform service

The handler of the NV-counter service, on top of the counters in flash. The type, the sizes and
the counter id of a message come from the client.

A local buffer is its size; `overrun` is a write of more bytes than it has.

Results:
* `handler_refused`: a message that is not allowed is refused, and the flash is not accessed.
* `handler_increment`: an increment that is allowed.
* `nv_counter_service_iff`: a message is handled as it should be, unless it is a read that is
  allowed: the value has four bytes, its buffer one.
-/
namespace Tfm.L4.PlatformNv
open Tfm.Crash Tfm.L2.NvCounter

variable {n : Nat}

structure Setup where
  cfg : Cfg
  /-- `TFM_SP_PS` -/
  tfmSpPs : Int
  /-- `BL2` is defined -/
  bl2 : Bool

/-- The fields of `psa_msg_t` that the handler reads, and what the client put into the first
input vector. -/
structure Msg where
  type : Int
  clientId : Int
  inSize : Fin 4 → Nat
  outSize : Fin 4 → Nat
  counterId : UInt32
  deriving DecidableEq

/-- mirrors interface/include/tfm_platform_api.h:26-27 -/
def tfmPlatformApiIdNvRead : Int := 1010

def tfmPlatformApiIdNvIncrement : Int := 1011

inductive PlatformErr
  | success
  | systemError
  deriving DecidableEq, Repr

/-- The status, and what was written to the first output vector. -/
inductive NvReply
  | overrun
  | ret (status : PlatformErr) (out : Option UInt32)
  deriving DecidableEq, Repr

/-- mirrors secure_fw/partitions/platform/platform_sp.c:19-27 -/
def nvCounterIdSize : Nat := 4

def nvCounterAccessMap (S : Setup) : List Int := [S.tfmSpPs, S.tfmSpPs, S.tfmSpPs]

/-- mirrors platform/include/tfm_plat_nv_counters.h:31-39 -/
def platNvCounterMax (S : Setup) : Nat := if S.bl2 then 5 else 3

/-- mirrors secure_fw/partitions/platform/platform_sp.c:48-73 -/
def nvCounterAccessGrant (S : Setup) (clientId : Int) (nvCounterNo : UInt32) : Bool :=
  if nvCounterNo.toNat < min (platNvCounterMax S) (nvCounterAccessMap S).length then
    match (nvCounterAccessMap S)[nvCounterNo.toNat]? with
    | some reqId => decide (clientId = reqId) && decide (reqId ≠ 0)
    | none => false
  else false

/-- The vectors up to the last one that is not empty.
mirrors secure_fw/partitions/platform/platform_sp.c:199-207 -/
def filled (size : Fin 4 → Nat) : Nat := ((List.ofFn size).reverse.dropWhile (· == 0)).length

/-- `psa_read` of a vector that was not read before. -/
def psaRead (size numBytes : Nat) : Nat := min size numBytes

/-- `sizeof(counter_id)` -/
def counterIdBytes : Nat := 4

/-- `sizeof(counter_val)`, a `uint8_t` -/
def counterValBytes : Nat := 1

/-- The bytes that `tfm_plat_read_nv_counter` writes. -/
def nvCounterSize : Nat := 4

/-- mirrors secure_fw/partitions/platform/platform_sp.c:191-262 -/
def platformSpNvCounterIpc (S : Setup) (msg : Msg) : M n NvReply :=
  if msg.type = tfmPlatformApiIdNvIncrement then
    if msg.inSize 0 ≠ nvCounterIdSize ∨ filled msg.inSize ≠ 1 ∨ filled msg.outSize ≠ 0 then
      pure (.ret .systemError none)
    else
      let num := psaRead (msg.inSize 0) (msg.inSize 0)
      if counterIdBytes < num then pure .overrun
      else if num ≠ msg.inSize 0 then pure (.ret .systemError none)
      else if !nvCounterAccessGrant S msg.clientId msg.counterId then
        pure (.ret .systemError none)
      else do
        match ← attempt (tfmPlatIncrementNvCounter S.cfg msg.counterId.toNat) with
        | .error _ => pure (.ret .systemError none)
        | .ok () => pure (.ret .success none)
  else if msg.type = tfmPlatformApiIdNvRead then
    if msg.inSize 0 ≠ nvCounterIdSize ∨ filled msg.inSize ≠ 1 ∨ filled msg.outSize ≠ 1 then
      pure (.ret .systemError none)
    else
      let num := psaRead (msg.inSize 0) (msg.inSize 0)
      if counterIdBytes < num then pure .overrun
      else if num ≠ msg.inSize 0 then pure (.ret .systemError none)
      else if !nvCounterAccessGrant S msg.clientId msg.counterId then
        pure (.ret .systemError none)
      else do
        match ← attempt (tfmPlatReadNvCounter msg.counterId.toNat (msg.outSize 0)) with
        | .error _ => pure (.ret .systemError none)
        | .ok v =>
          if counterValBytes < nvCounterSize then pure .overrun
          else pure (.ret .success (some v))
  else pure (.ret .systemError none)

/-! ## What the service is for -/

/-- No vector but the first has bytes, and this one has `k`. -/
def OnlyFirst (size : Fin 4 → Nat) (k : Nat) : Prop := ∀ i, size i = if i = 0 then k else 0

/-- The counter id is sent, and the value of a read is returned. -/
def Shaped (msg : Msg) : Prop :=
  OnlyFirst msg.inSize 4 ∧
    ((msg.type = tfmPlatformApiIdNvIncrement ∧ OnlyFirst msg.outSize 0) ∨
      (msg.type = tfmPlatformApiIdNvRead ∧ OnlyFirst msg.outSize 4))

/-- The counter exists, and is the client's. -/
def Assigned (S : Setup) (n : Nat) (msg : Msg) : Prop :=
  msg.counterId.toNat < 3 ∧ msg.counterId.toNat < n ∧ msg.clientId = S.tfmSpPs ∧ S.tfmSpPs ≠ 0

/-- `n` is the number of counters of the platform. -/
def Allowed (S : Setup) (n : Nat) (msg : Msg) : Prop := Shaped msg ∧ Assigned S n msg

/-- The values after an increment of counter `i`. -/
def incremented (values : Fin n → UInt32) (i : Fin n) : Fin n → UInt32 :=
  Function.update values i (values i + 1)

/-- What is expected for one message, from any contents of the flash. `p` are faults of the
flash driver; without them an increment takes effect unless the counter is at its end. -/
structure Handled (S : Setup) (msg : Msg) (s : Sys n) : Prop where
  inside : ∀ p s' p', platformSpNvCounterIpc S msg s p ≠ .ok .overrun s' p'
  refused : ¬ Allowed S n msg →
    ∀ p, platformSpNvCounterIpc S msg s p = .ok (.ret .systemError none) s p
  increment : Allowed S n msg → msg.type = tfmPlatformApiIdNvIncrement →
    ∀ i : Fin n, i.val = msg.counterId.toNat →
      if s.values i = 0xffffffff then
        platformSpNvCounterIpc S msg s [] = .ok (.ret .systemError none) s []
      else ∃ s', platformSpNvCounterIpc S msg s [] = .ok (.ret .success none) s' [] ∧
        s'.values = incremented s.values i
  read : Allowed S n msg → msg.type = tfmPlatformApiIdNvRead →
    ∀ i : Fin n, i.val = msg.counterId.toNat →
      platformSpNvCounterIpc S msg s [] = .ok (.ret .success (some (s.values i))) s [] ∧
        ∀ p s' p' out, platformSpNvCounterIpc S msg s p = .ok (.ret .success out) s' p' →
          out = some (s.values i) ∧ s' = s

/-! ## The checks -/

theorem filled_eq (size : Fin 4 → Nat) :
    filled size = if size 3 ≠ 0 then 4 else if size 2 ≠ 0 then 3 else if size 1 ≠ 0 then 2
      else if size 0 ≠ 0 then 1 else 0 := by
  have hlist : List.ofFn size = [size 0, size 1, size 2, size 3] := by
    simp [List.ofFn_succ]
  rw [filled, hlist]
  by_cases h3 : size 3 = 0
  · by_cases h2 : size 2 = 0
    · by_cases h1 : size 1 = 0
      · by_cases h0 : size 0 = 0
        · simp [h0, h1, h2, h3]
        · simp [h0, h1, h2, h3]
      · simp [h1, h2, h3]
    · simp [h2, h3]
  · simp [h3]

theorem onlyFirst_iff {size : Fin 4 → Nat} {k : Nat} :
    OnlyFirst size k ↔ size 0 = k ∧ size 1 = 0 ∧ size 2 = 0 ∧ size 3 = 0 := by
  simp [OnlyFirst, Fin.forall_fin_succ]

theorem filled_eq_zero {size : Fin 4 → Nat} : filled size = 0 ↔ OnlyFirst size 0 := by
  rw [filled_eq, onlyFirst_iff]
  split_ifs <;> simp_all

theorem filled_eq_one {size : Fin 4 → Nat} :
    filled size = 1 ↔ size 0 ≠ 0 ∧ OnlyFirst size (size 0) := by
  rw [filled_eq, onlyFirst_iff]
  split_ifs <;> simp_all

theorem input_ok {size : Fin 4 → Nat} : OnlyFirst size 4 ↔ size 0 = nvCounterIdSize ∧ filled size = 1 := by
  rw [filled_eq_one, onlyFirst_iff, onlyFirst_iff, nvCounterIdSize]
  omega

theorem grant_iff {S : Setup} {msg : Msg} :
    nvCounterAccessGrant S msg.clientId msg.counterId = true ↔
      msg.counterId.toNat < 3 ∧ msg.clientId = S.tfmSpPs ∧ S.tfmSpPs ≠ 0 := by
  have hbound : min (platNvCounterMax S) (nvCounterAccessMap S).length = 3 := by
    rw [platNvCounterMax, nvCounterAccessMap]
    cases S.bl2 <;> rfl
  rw [nvCounterAccessGrant, hbound]
  by_cases h : msg.counterId.toNat < 3
  · have hmap : (nvCounterAccessMap S)[msg.counterId.toNat]? = some S.tfmSpPs := by
      rw [nvCounterAccessMap]
      generalize msg.counterId.toNat = k at h
      have hk : k = 0 ∨ k = 1 ∨ k = 2 := by omega
      rcases hk with rfl | rfl | rfl <;> rfl
    simp [h, hmap]
  · simp [h]

/-! ## The handler -/

variable {S : Setup} {msg : Msg} {s : Sys n}

theorem counter_id_read (hsize : msg.inSize 0 = nvCounterIdSize) :
    ¬ counterIdBytes < psaRead (msg.inSize 0) (msg.inSize 0) ∧
      ¬ psaRead (msg.inSize 0) (msg.inSize 0) ≠ msg.inSize 0 := by
  rw [hsize]
  decide

/-- What is left of the handler when the shape is that of an increment. -/
theorem increment_shaped (ht : msg.type = tfmPlatformApiIdNvIncrement)
    (hin : OnlyFirst msg.inSize 4) (hout : OnlyFirst msg.outSize 0) :
    (platformSpNvCounterIpc S msg : M n NvReply) =
      if !nvCounterAccessGrant S msg.clientId msg.counterId then
        pure (.ret .systemError none)
      else (do
        match ← attempt (tfmPlatIncrementNvCounter S.cfg msg.counterId.toNat) with
        | .error _ => pure (.ret .systemError none)
        | .ok () => pure (.ret .success none)) := by
  obtain ⟨hsize, hfilled⟩ := input_ok.1 hin
  have hempty := filled_eq_zero.2 hout
  have hshape : ¬ (msg.inSize 0 ≠ nvCounterIdSize ∨ filled msg.inSize ≠ 1 ∨
      filled msg.outSize ≠ 0) := by simp [hsize, hfilled, hempty]
  obtain ⟨hroom, hnum⟩ := counter_id_read hsize
  rw [platformSpNvCounterIpc, if_pos ht, if_neg hshape, if_neg hroom, if_neg hnum]

/-- The same for a read; the last test is decided. -/
theorem read_shaped (ht : msg.type = tfmPlatformApiIdNvRead)
    (hin : OnlyFirst msg.inSize 4) (hout : filled msg.outSize = 1) :
    (platformSpNvCounterIpc S msg : M n NvReply) =
      if !nvCounterAccessGrant S msg.clientId msg.counterId then
        pure (.ret .systemError none)
      else (do
        match ← attempt (tfmPlatReadNvCounter msg.counterId.toNat (msg.outSize 0)) with
        | .error _ => pure (.ret .systemError none)
        | .ok _ => pure .overrun) := by
  obtain ⟨hsize, hfilled⟩ := input_ok.1 hin
  have hother : ¬ msg.type = tfmPlatformApiIdNvIncrement := by
    rw [ht]
    decide
  have hshape : ¬ (msg.inSize 0 ≠ nvCounterIdSize ∨ filled msg.inSize ≠ 1 ∨
      filled msg.outSize ≠ 1) := by simp [hsize, hfilled, hout]
  obtain ⟨hroom, hnum⟩ := counter_id_read hsize
  rw [platformSpNvCounterIpc, if_neg hother, if_pos ht, if_neg hshape, if_neg hroom, if_neg hnum]
  rfl

theorem handler_increment (ht : msg.type = tfmPlatformApiIdNvIncrement)
    (hin : OnlyFirst msg.inSize 4) (hout : OnlyFirst msg.outSize 0)
    (hg : nvCounterAccessGrant S msg.clientId msg.counterId = true) (p : List Ev) :
    platformSpNvCounterIpc S msg s p =
      match tfmPlatIncrementNvCounter S.cfg msg.counterId.toNat s p with
      | .ok _ s' p' => .ok (.ret .success none) s' p'
      | .err _ s' p' => .ok (.ret .systemError none) s' p'
      | .cut s' => .cut s' := by
  have hgrant : ¬ (!nvCounterAccessGrant S msg.clientId msg.counterId) = true := by simp [hg]
  rw [increment_shaped ht hin hout, if_neg hgrant]
  simp only [bind, attempt]
  cases tfmPlatIncrementNvCounter S.cfg msg.counterId.toNat s p <;> rfl

theorem handler_read (ht : msg.type = tfmPlatformApiIdNvRead)
    (hin : OnlyFirst msg.inSize 4) (hout : filled msg.outSize = 1)
    (hg : nvCounterAccessGrant S msg.clientId msg.counterId = true) (p : List Ev) :
    platformSpNvCounterIpc S msg s p =
      match tfmPlatReadNvCounter msg.counterId.toNat (msg.outSize 0) s p with
      | .ok _ s' p' => .ok .overrun s' p'
      | .err _ s' p' => .ok (.ret .systemError none) s' p'
      | .cut s' => .cut s' := by
  have hgrant : ¬ (!nvCounterAccessGrant S msg.clientId msg.counterId) = true := by simp [hg]
  rw [read_shaped ht hin hout, if_neg hgrant]
  simp only [bind, attempt]
  cases tfmPlatReadNvCounter msg.counterId.toNat (msg.outSize 0) s p <;> rfl

/-! ## The counters -/

/-- Without the counter or with another size the flash is not read. -/
theorem read_refused {id size : Nat} (h : ¬ (id < n ∧ size = 4)) (s : Sys n) (p : List Ev) :
    ∃ e, tfmPlatReadNvCounter id size s p = .err e s p := by
  by_cases hid : id < n
  · have hsize : size ≠ 4 := fun he => h ⟨hid, he⟩
    exact ⟨.systemErr, by simp only [tfmPlatReadNvCounter, dif_pos hid, if_pos hsize]; rfl⟩
  · exact ⟨.invalidInput, by simp only [tfmPlatReadNvCounter, dif_neg hid]; rfl⟩

theorem read_counter {id : Nat} (hid : id < n) (s : Sys n) :
    tfmPlatReadNvCounter id 4 s [] = .ok (s.values ⟨id, hid⟩) s [] := by
  simp only [tfmPlatReadNvCounter, dif_pos hid]
  rfl

theorem increment_refused {cfg : Cfg} {id : Nat} (h : ¬ id < n) (s : Sys n) (p : List Ev) :
    ∃ e, tfmPlatIncrementNvCounter cfg id s p = .err e s p := by
  have hnone : ¬ (id < n ∧ 4 = 4) := fun hc => h hc.1
  obtain ⟨e, he⟩ := read_refused hnone s p
  exact ⟨e, by simp only [tfmPlatIncrementNvCounter, bind, he]⟩

theorem lt_add_one {v : UInt32} (h : v ≠ 0xffffffff) : v < v + 1 := by
  rw [UInt32.lt_iff_toNat_lt, UInt32.toNat_add]
  have hv := v.toNat_lt
  have hne : v.toNat ≠ 4294967295 := fun he => h (UInt32.toNat.inj he)
  simp only [UInt32.reduceToNat]
  omega

theorem set_counter (cfg : Cfg) {id : Nat} (hid : id < n) {s : Sys n} {v : UInt32}
    (hlt : s.values ⟨id, hid⟩ < v) :
    tfmPlatSetNvCounter cfg id v s [] =
      .ok () ⟨setSector s.main ⟨id, hid⟩ v, setSector s.main ⟨id, hid⟩ v⟩ [] := by
  have hne : v ≠ counters s.main ⟨id, hid⟩ := (UInt32.ne_of_lt hlt).symm
  have hnlt : ¬ v < counters s.main ⟨id, hid⟩ := UInt32.lt_asymm hlt
  have hread : readData .main s [] = .ok s.main s [] := rfl
  rw [tfmPlatSetNvCounter, dif_pos hid]
  refine bind_run hread ?_
  rw [if_pos hne, if_neg hnlt]
  rfl

theorem increment_counter (cfg : Cfg) {id : Nat} (hid : id < n) (s : Sys n) :
    if s.values ⟨id, hid⟩ = 0xffffffff then
      tfmPlatIncrementNvCounter cfg id s [] = .err .maxValue s []
    else ∃ s', tfmPlatIncrementNvCounter cfg id s [] = .ok () s' [] ∧
      s'.values = incremented s.values ⟨id, hid⟩ := by
  have hread := read_counter hid s
  by_cases hmax : s.values ⟨id, hid⟩ = 0xffffffff
  · rw [if_pos hmax]
    simp only [tfmPlatIncrementNvCounter, bind, hread, if_pos hmax]
    rfl
  · rw [if_neg hmax]
    have hset := set_counter cfg hid (lt_add_one hmax)
    have hvalues := counters_setSector s.main ⟨id, hid⟩ (s.values ⟨id, hid⟩ + 1)
    generalize setSector s.main ⟨id, hid⟩ (s.values ⟨id, hid⟩ + 1) = w at hset hvalues
    refine ⟨⟨w, w⟩, bind_run hread ?_, hvalues⟩
    rw [if_neg hmax, hset]

/-! ## One message -/

theorem refused_of_shape
    (h : ¬ (OnlyFirst msg.inSize 4 ∧
      ((msg.type = tfmPlatformApiIdNvIncrement ∧ OnlyFirst msg.outSize 0) ∨
        (msg.type = tfmPlatformApiIdNvRead ∧ filled msg.outSize = 1)))) (p : List Ev) :
    platformSpNvCounterIpc S msg s p = .ok (.ret .systemError none) s p := by
  rw [input_ok, ← filled_eq_zero] at h
  by_cases ht : msg.type = tfmPlatformApiIdNvIncrement
  · have hshape : msg.inSize 0 ≠ nvCounterIdSize ∨ filled msg.inSize ≠ 1 ∨
        filled msg.outSize ≠ 0 := by
      by_contra hgood
      simp only [not_or, ne_eq, Decidable.not_not] at hgood
      exact h ⟨⟨hgood.1, hgood.2.1⟩, .inl ⟨ht, hgood.2.2⟩⟩
    rw [platformSpNvCounterIpc, if_pos ht, if_pos hshape]
    rfl
  by_cases ht' : msg.type = tfmPlatformApiIdNvRead
  · have hshape : msg.inSize 0 ≠ nvCounterIdSize ∨ filled msg.inSize ≠ 1 ∨
        filled msg.outSize ≠ 1 := by
      by_contra hgood
      simp only [not_or, ne_eq, Decidable.not_not] at hgood
      exact h ⟨⟨hgood.1, hgood.2.1⟩, .inr ⟨ht', hgood.2.2⟩⟩
    rw [platformSpNvCounterIpc, if_neg ht, if_pos ht', if_pos hshape]
    rfl
  · rw [platformSpNvCounterIpc, if_neg ht, if_neg ht']
    rfl

theorem refused_of_grant (hg : nvCounterAccessGrant S msg.clientId msg.counterId = false)
    (p : List Ev) : platformSpNvCounterIpc S msg s p = .ok (.ret .systemError none) s p := by
  have hgrant : (!nvCounterAccessGrant S msg.clientId msg.counterId) = true := by simp [hg]
  by_cases hshape : OnlyFirst msg.inSize 4 ∧
      ((msg.type = tfmPlatformApiIdNvIncrement ∧ OnlyFirst msg.outSize 0) ∨
        (msg.type = tfmPlatformApiIdNvRead ∧ filled msg.outSize = 1))
  case neg => exact refused_of_shape hshape p
  obtain ⟨hin, ⟨ht, hout⟩ | ⟨ht, hout⟩⟩ := hshape
  · rw [increment_shaped ht hin hout, if_pos hgrant]
    rfl
  · rw [read_shaped ht hin hout, if_pos hgrant]
    rfl

/-- A message that is not allowed is refused, whatever the flash does: it is not accessed. -/
theorem handler_refused (h : ¬ Allowed S n msg) (p : List Ev) :
    platformSpNvCounterIpc S msg s p = .ok (.ret .systemError none) s p := by
  by_cases hg : nvCounterAccessGrant S msg.clientId msg.counterId = true
  case neg => exact refused_of_grant (Bool.not_eq_true _ ▸ hg) p
  obtain ⟨hid, hclient, hps⟩ := grant_iff.1 hg
  by_cases hshape : OnlyFirst msg.inSize 4 ∧
      ((msg.type = tfmPlatformApiIdNvIncrement ∧ OnlyFirst msg.outSize 0) ∨
        (msg.type = tfmPlatformApiIdNvRead ∧ filled msg.outSize = 1))
  case neg => exact refused_of_shape hshape p
  obtain ⟨hin, ⟨ht, hout⟩ | ⟨ht, hout⟩⟩ := hshape
  · have hcount : ¬ msg.counterId.toNat < n := fun hn =>
      h ⟨⟨hin, .inl ⟨ht, hout⟩⟩, hid, hn, hclient, hps⟩
    obtain ⟨e, he⟩ := increment_refused hcount s p
    rw [handler_increment ht hin hout hg, he]
  · have hcount : ¬ (msg.counterId.toNat < n ∧ msg.outSize 0 = 4) := by
      intro hx
      obtain ⟨hn, hsize⟩ := hx
      have hout := (filled_eq_one.1 hout).2
      rw [hsize] at hout
      exact h ⟨⟨hin, .inr ⟨ht, hout⟩⟩, hid, hn, hclient, hps⟩
    obtain ⟨e, he⟩ := read_refused hcount s p
    rw [handler_read ht hin hout hg, he]

/-- **A message is handled as it should be, whatever its contents, unless it is a read that is
allowed.** There the four bytes of the value are written over a buffer of one byte. -/
theorem nv_counter_service_iff (S : Setup) (msg : Msg) (s : Sys n) :
    Handled S msg s ↔ ¬ (msg.type = tfmPlatformApiIdNvRead ∧ Allowed S n msg) := by
  constructor
  · intro h hx
    obtain ⟨ht, hallowed⟩ := hx
    obtain ⟨⟨hin, hshape⟩, hid, hn, hclient, hps⟩ := hallowed
    obtain ⟨ht', -⟩ | ⟨-, hout⟩ := hshape
    · rw [ht] at ht'
      exact absurd ht' (by decide)
    have hsize := (onlyFirst_iff.1 hout).1
    have hfilled : filled msg.outSize = 1 := filled_eq_one.2 (by rw [hsize]; exact ⟨by decide, hout⟩)
    have hrun := handler_read (s := s) ht hin hfilled (grant_iff.2 ⟨hid, hclient, hps⟩) []
    rw [hsize, read_counter hn] at hrun
    exact h.inside [] _ _ hrun
  · intro h
    by_cases hallowed : Allowed S n msg
    case neg =>
      refine ⟨?_, fun _ => handler_refused hallowed, fun hc => absurd hc hallowed,
        fun hc => absurd hc hallowed⟩
      intro p s' p' hover
      rw [handler_refused hallowed] at hover
      cases hover
    have hread : msg.type ≠ tfmPlatformApiIdNvRead := fun ht => h ⟨ht, hallowed⟩
    obtain ⟨⟨hin, hshape⟩, hid, hn, hclient, hps⟩ := id hallowed
    obtain ⟨ht, hout⟩ | ⟨ht, -⟩ := hshape
    case inr => exact absurd ht hread
    have hrun := fun p => handler_increment (s := s) ht hin hout (grant_iff.2 ⟨hid, hclient, hps⟩) p
    refine ⟨?_, fun hc => absurd hallowed hc, ?_, fun _ hc => absurd hc hread⟩
    · intro p s' p' hover
      rw [hrun p] at hover
      cases hinc : tfmPlatIncrementNvCounter S.cfg msg.counterId.toNat s p with
      | ok a s₁ p₁ => simp [hinc] at hover
      | err e s₁ p₁ => simp [hinc] at hover
      | cut s₁ => simp [hinc] at hover
    · rintro - - ⟨i, hi⟩ rfl
      have hinc := increment_counter S.cfg hn s
      by_cases hmax : s.values ⟨msg.counterId.toNat, hn⟩ = 0xffffffff
      · rw [if_pos hmax] at hinc ⊢
        rw [hrun [], hinc]
      · rw [if_neg hmax] at hinc ⊢
        obtain ⟨s', hs', hvalues⟩ := hinc
        exact ⟨s', by rw [hrun [], hs'], hvalues⟩

/-- Three counters; `TFM_SP_PS` is 256. -/
def threeCounters : Setup := ⟨⟨20, 40, 0xffffffff⟩, 256, false⟩

/-- What the storage partition sends to read counter 1. -/
def readCounter : Msg :=
  ⟨tfmPlatformApiIdNvRead, 256, fun i => if i = 0 then 4 else 0, fun i => if i = 0 then 4 else 0, 1⟩

theorem nv_counter_read_overruns :
    (∃ p, platformSpNvCounterIpc threeCounters readCounter (n := 3) ⟨0, 0⟩ [] = .ok .overrun ⟨0, 0⟩ p) ∧
      ¬ Handled (n := 3) threeCounters readCounter ⟨0, 0⟩ := by
  have hover : platformSpNvCounterIpc threeCounters readCounter (n := 3) ⟨0, 0⟩ [] =
      .ok .overrun ⟨0, 0⟩ [] := by
    have hin : OnlyFirst readCounter.inSize 4 := fun i => rfl
    refine (handler_read rfl hin (by decide) (by decide) []).trans ?_
    rfl
  exact ⟨⟨_, hover⟩, fun h => h.inside _ _ _ hover⟩

end Tfm.L4.PlatformNv
