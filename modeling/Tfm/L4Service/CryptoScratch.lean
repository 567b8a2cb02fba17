import Mathlib.Data.List.DropRight
import Mathlib.Data.List.Pairwise
import Tfm.Core.Bytes
import Tfm.Core.Tiles
import Tfm.L4Service.CryptoKey

/-!
# The scratch buffer of the crypto service

The vectors of every message the crypto partition serves live in one buffer,
shared by all clients (secure_fw/partitions/crypto/crypto_init.c:77-183). A call
of the service gets its regions from the front of the buffer, rounded up to the
alignment, and the buffer is cleared up to the allocation index when the call
is over.

`mem` is the memory from the start of the buffer on, so that a write behind its
end would show. The called function is arbitrary: it sees the vectors it is given
and all of `mem`, and writes inside its output regions only, which is a field of
its type. A panic of `psa_write` is a message that is never answered.

Results:
* `scratch_isolated`: between messages the buffer is as it was at boot, all zero
  with nothing allocated, whatever came before; the regions of one message are in
  bounds, aligned and apart; and what is written back to a client is the same
  after any two histories.
-/
namespace Tfm.L4.CryptoScratch
open CryptoKey (sizeofPackIovec)

/-- mirrors interface/include/psa/client.h:55 -/
def psaMaxIovec : Nat := 4

/-- mirrors interface/include/tfm_crypto_defs.h:58-125 -/
def sidMax : Nat := 65

/-- `TFM_CRYPTO_IOVEC_ALIGNMENT`. -/
def iovecAlignment : BitVec 32 := 4

/-- `ALIGN`, on a `size_t`.
mirrors secure_fw/partitions/crypto/crypto_init.c:48-51 -/
def align (x : BitVec 32) : BitVec 32 :=
  (x + (iovecAlignment - 1)) &&& ~~~(iovecAlignment - 1)

/-- The largest size of a vector. The SPM's memory check lets none of the last
three through. -/
def vecMax : Nat := 2 ^ 32 - 4

/-- `TFM_CRYPTO_IOVEC_BUFFER_SIZE`. -/
structure Cfg where
  bufSize : Nat
  bound : bufSize < 2 ^ 32

/-- `struct tfm_crypto_scratch`. -/
structure Scratch where
  mem : Nat → UInt8
  allocIndex : Nat
  owner : Int

/-- A `psa_invec` or `psa_outvec`: its base is an offset in the buffer. -/
structure Vec where
  base : Nat
  len : Nat
  deriving DecidableEq, Repr

/-- `psa_msg_t`, with the bytes of the input vectors in place of `psa_read`. -/
structure Msg where
  clientId : Int
  inVec : List (List UInt8)
  outSize : List Nat
  inCount : inVec.length = psaMaxIovec
  outCount : outSize.length = psaMaxIovec
  inMax : ∀ d ∈ inVec, d.length ≤ vecMax
  outMax : ∀ n ∈ outSize, n ≤ vecMax

/-- mirrors secure_fw/partitions/crypto/crypto_init.c:88-104 -/
def allocScratch (c : Cfg) (s : Scratch) (requestedSize : Nat) : Option (Nat × Scratch) :=
  let size := (align (BitVec.ofNat 32 requestedSize)).toNat
  if (BitVec.ofNat 32 c.bufSize - BitVec.ofNat 32 s.allocIndex).toNat < size then none
  else some (s.allocIndex, { s with allocIndex := (s.allocIndex + size) % 2 ^ 32 })

/-- mirrors secure_fw/partitions/crypto/crypto_init.c:106-111 -/
def clearScratch (s : Scratch) : Scratch where
  mem a := if a < s.allocIndex then 0 else s.mem a
  allocIndex := 0
  owner := 0

/-- `psa_read` of a whole input vector to an offset. -/
def psaRead (s : Scratch) (base : Nat) (d : List UInt8) : Scratch :=
  { s with mem := fun a => if base ≤ a then d.getD (a - base) (s.mem a) else s.mem a }

/-- The loop over the input vectors: the regions it got, and whether it got one
for each.
mirrors secure_fw/partitions/crypto/crypto_init.c:137-150 -/
def readIns (c : Cfg) (s : Scratch) : List (List UInt8) → List Vec × Bool × Scratch
  | [] => ([], true, s)
  | d :: ds =>
    match allocScratch c s d.length with
    | none => ([], false, s)
    | some (base, s₁) =>
      let (vs, ok, s₂) := readIns c (psaRead s₁ base d) ds
      (⟨base, d.length⟩ :: vs, ok, s₂)

/-- The loop over the output vectors.
mirrors secure_fw/partitions/crypto/crypto_init.c:157-167 -/
def allocOuts (c : Cfg) (s : Scratch) : List Nat → List Vec × Bool × Scratch
  | [] => ([], true, s)
  | n :: ns =>
    match allocScratch c s n with
    | none => ([], false, s)
    | some (base, s₁) =>
      let (vs, ok, s₂) := allocOuts c s₁ ns
      (⟨base, n⟩ :: vs, ok, s₂)

/-- What the called function sees. -/
structure Input where
  iov : List UInt8
  ins : List Vec
  outs : List Vec
  mem : Nat → UInt8
  owner : Int

/-- What it leaves: the memory, the lengths of the output vectors, its status. -/
structure Output where
  mem : Nat → UInt8
  outLen : List Nat
  status : Except PsaStatus Unit

/-- A secure function of uniform signature. -/
structure Sfn where
  run : Input → Output
  /-- it writes nowhere but in its output regions -/
  frame : ∀ x a, (∀ v ∈ x.outs, ¬ (v.base ≤ a ∧ a < v.base + v.len)) → (run x).mem a = x.mem a
  /-- it keeps the number of its output vectors -/
  count : ∀ x, (run x).outLen.length = x.outs.length

/-- `psa_write` of each output vector; it panics on more bytes than the client
gave room for.
mirrors secure_fw/partitions/crypto/crypto_init.c:176-178 and
secure_fw/spm/ffm/psa_client_service_apis.c:433-458 -/
def writeOuts (mem : Nat → UInt8) : List Vec → List Nat → Option (List (List UInt8))
  | v :: vs, n :: ns =>
    if v.len < n then none
    else (writeOuts mem vs ns).map ((List.range n).map (fun i => mem (v.base + i)) :: ·)
  | _, _ => some []

/-- The answer to a message: the status and the bytes of the output vectors. -/
structure Answer where
  status : Except PsaStatus Unit
  written : List (List UInt8)

/-- The vectors without the empty ones at the end; the first one is not counted.
mirrors secure_fw/partitions/crypto/crypto_init.c:124-135, 152-155 -/
def Msg.ins (m : Msg) : List (List UInt8) := (m.inVec.rdropWhile List.isEmpty).tail
def Msg.outs (m : Msg) : List Nat := m.outSize.rdropWhile (· == 0)

/-- mirrors secure_fw/partitions/crypto/crypto_init.c:113-183 -/
def callSfn (c : Cfg) (s : Scratch) (m : Msg) (iov : List UInt8) (f : Sfn) :
    Option (Answer × Scratch) :=
  if (m.inVec.rdropWhile List.isEmpty).isEmpty then some (⟨.error .genericError, []⟩, s)
  else
    let (ins, ok, s₁) := readIns c s m.ins
    if !ok then some (⟨.error .insufficientMemory, []⟩, clearScratch s₁)
    else
      let (outs, ok, s₂) := allocOuts c s₁ m.outs
      if !ok then some (⟨.error .insufficientMemory, []⟩, clearScratch s₂)
      else
        let r := f.run ⟨iov, ins, outs, s₂.mem, m.clientId⟩
        (writeOuts r.mem outs r.outLen).map fun written =>
          (⟨r.status, written⟩, clearScratch { s₂ with mem := r.mem, owner := m.clientId })

/-- The regions handed out for a message, also when the buffer is too small for
all of them. -/
def regions (c : Cfg) (s : Scratch) (m : Msg) : List Vec :=
  let (ins, ok, s₁) := readIns c s m.ins
  if !ok then ins else ins ++ (allocOuts c s₁ m.outs).1

/-- mirrors secure_fw/partitions/crypto/crypto_init.c:185-207 -/
def parseMsg (m : Msg) : Option (List UInt8 × Nat) :=
  let iov := (m.inVec.headD []).take sizeofPackIovec
  if iov.length ≠ sizeofPackIovec then none
  else
    let sfnId := Bytes.ofLe (iov.take 4)
    if sidMax ≤ sfnId then none else some (iov, sfnId)

/-- A message to the service. A call comes with what the table of functions does at
that moment. -/
inductive Event
  | connect
  | disconnect
  | call (m : Msg) (sfidFuncTable : Nat → Sfn)

/-- One turn of the loop.
mirrors secure_fw/partitions/crypto/crypto_init.c:210-258 -/
def serve (c : Cfg) (s : Scratch) : Event → Option (Answer × Scratch)
  | .connect | .disconnect => some (⟨.ok (), []⟩, s)
  | .call m sfidFuncTable =>
    match parseMsg m with
    | none => some (⟨.error .genericError, []⟩, s)
    | some (iov, sfnId) => callSfn c s m iov (sfidFuncTable sfnId)

/-- The messages of a history, one after the other. -/
def run (c : Cfg) (s : Scratch) : List Event → Option (List Answer × Scratch)
  | [] => some ([], s)
  | e :: es =>
    (serve c s e).bind fun (a, s₁) => (run c s₁ es).map fun (as, s₂) => (a :: as, s₂)

/-- The buffer at boot, in front of memory that is not its own. -/
def boot (c : Cfg) (others : Nat → UInt8) : Scratch where
  mem a := if a < c.bufSize then 0 else others a
  allocIndex := 0
  owner := 0

/-! ## Alignment -/

theorem and_not_three (y : BitVec 32) : (y &&& ~~~(3 : BitVec 32)).toNat = y.toNat / 4 * 4 := by
  have hshift : y &&& ~~~(3 : BitVec 32) = (y >>> 2) <<< 2 := by
    apply BitVec.eq_of_getLsbD_eq
    intro i hi
    have h3 : (3 : BitVec 32).getLsbD i = decide (i < 2) := by
      by_cases h2 : i < 2
      · obtain rfl | rfl : i = 0 ∨ i = 1 := by omega
        · rfl
        · rfl
      · have hlt : 3 < 2 ^ i :=
          calc 3 < 2 ^ 2 := by decide
            _ ≤ 2 ^ i := Nat.pow_le_pow_right (by decide) (by omega)
        simp [h2, show (3 : BitVec 32) = BitVec.ofNat 32 3 from rfl, -BitVec.ofNat_eq_ofNat,
          BitVec.getLsbD_ofNat, Nat.testBit_lt_two_pow hlt]
    rw [BitVec.getLsbD_and, BitVec.getLsbD_not, h3, BitVec.getLsbD_shiftLeft,
      BitVec.getLsbD_ushiftRight]
    by_cases h2 : i < 2
    · simp [h2]
    · simp [h2, hi, show 2 + (i - 2) = i by omega]
  rw [hshift, BitVec.toNat_shiftLeft, BitVec.toNat_ushiftRight]
  have := y.isLt
  omega

theorem align_toNat {n : Nat} (hn : n ≤ vecMax) :
    (align (BitVec.ofNat 32 n)).toNat = (n + 3) / 4 * 4 := by
  unfold vecMax at hn
  unfold align iovecAlignment
  rw [show (4 : BitVec 32) - 1 = 3 from rfl, and_not_three, BitVec.toNat_add, BitVec.toNat_ofNat]
  have h3 : (3 : BitVec 32).toNat = 3 := rfl
  rw [h3]
  omega

/-! ## Regions -/

/-- Vectors one behind the other from `lo` to `hi`, each at an aligned base. -/
def Laid (lo hi : Nat) : List Vec → Prop
  | [] => lo = hi
  | v :: vs => v.base = lo ∧ 4 ∣ lo ∧ ∃ mid, lo + v.len ≤ mid ∧ Laid mid hi vs

theorem Laid.le {hi : Nat} : ∀ {vs : List Vec} {lo : Nat}, Laid lo hi vs → lo ≤ hi
  | [], _, h => Nat.le_of_eq h
  | v :: vs, lo, ⟨_, _, mid, hm, h⟩ => by
    have := Laid.le h
    omega

theorem Laid.mem {hi : Nat} {v : Vec} : ∀ {vs : List Vec} {lo : Nat}, Laid lo hi vs → v ∈ vs →
    4 ∣ v.base ∧ lo ≤ v.base ∧ v.base + v.len ≤ hi
  | w :: vs, lo, ⟨hb, hd, mid, hm, h⟩, hv => by
    obtain rfl | hv := List.mem_cons.1 hv
    · have := h.le
      exact ⟨hb ▸ hd, by omega, by omega⟩
    · obtain ⟨hd', hlo, hhi⟩ := Laid.mem h hv
      exact ⟨hd', by omega, hhi⟩

theorem Laid.apart {hi : Nat} : ∀ {vs : List Vec} {lo : Nat}, Laid lo hi vs →
    vs.Pairwise fun v w => Tiles.Apart v.base v.len w.base w.len
  | [], _, _ => .nil
  | v :: vs, lo, ⟨hb, _, mid, hm, h⟩ => by
    refine .cons (fun w hw => ?_) (Laid.apart h)
    have := (h.mem hw).2.1
    exact .inl (by omega)

theorem Laid.append {mid hi : Nat} {ws : List Vec} (hw : Laid mid hi ws) :
    ∀ {vs : List Vec} {lo : Nat}, Laid lo mid vs → Laid lo hi (vs ++ ws)
  | [], _, h => h ▸ hw
  | _ :: _, _, ⟨hb, hd, m, hm, h⟩ => ⟨hb, hd, m, hm, Laid.append hw h⟩

/-! ## Allocating -/

variable {c : Cfg} {others : Nat → UInt8} {s s' : Scratch}

/-- Behind the allocation index the buffer is still as it was at boot. -/
structure Room (c : Cfg) (others : Nat → UInt8) (s : Scratch) : Prop where
  le : s.allocIndex ≤ c.bufSize
  aligned : 4 ∣ s.allocIndex
  mem : ∀ a, s.allocIndex ≤ a → s.mem a = (boot c others).mem a

theorem room_boot : Room c others (boot c others) :=
  ⟨Nat.zero_le _, Nat.dvd_zero 4, fun _ _ => rfl⟩

/-- Clearing up to the index makes it all as at boot. -/
theorem Room.clear (h : Room c others s) : clearScratch s = boot c others := by
  unfold clearScratch boot
  congr 1
  funext a
  split
  · next ha => rw [if_pos (Nat.lt_of_lt_of_le ha h.le)]
  · next ha => exact h.mem a (Nat.le_of_not_lt ha)

theorem allocScratch_some {n base : Nat} (h : Room c others s) (hn : n ≤ vecMax)
    (hs : allocScratch c s n = some (base, s')) :
    base = s.allocIndex ∧ s.allocIndex + n ≤ s'.allocIndex ∧ s'.mem = s.mem ∧
      Room c others s' := by
  unfold allocScratch at hs
  dsimp only at hs
  rw [align_toNat hn] at hs
  have hle := h.le
  have hlt := c.bound
  have hdvd := h.aligned
  have hroom : (BitVec.ofNat 32 c.bufSize - BitVec.ofNat 32 s.allocIndex).toNat =
      c.bufSize - s.allocIndex := by
    rw [BitVec.toNat_sub, BitVec.toNat_ofNat, BitVec.toNat_ofNat]
    omega
  rw [hroom] at hs
  split at hs
  · cases hs
  · next hfit =>
    simp only [Option.some.injEq, Prod.mk.injEq] at hs
    obtain ⟨rfl, rfl⟩ := hs
    have hmod : (s.allocIndex + (n + 3) / 4 * 4) % 2 ^ 32 = s.allocIndex + (n + 3) / 4 * 4 :=
      Nat.mod_eq_of_lt (by omega)
    refine ⟨rfl, ?_, rfl, ?_, ?_, ?_⟩
    · dsimp only
      omega
    · dsimp only
      omega
    · dsimp only
      omega
    · intro a ha
      dsimp only at ha
      exact h.mem a (by omega)

/-- Reading a vector into its region changes nothing behind the index. -/
theorem Room.read {base : Nat} {d : List UInt8} (h : Room c others s)
    (hd : base + d.length ≤ s.allocIndex) : Room c others (psaRead s base d) := by
  refine ⟨h.le, h.aligned, fun a ha => ?_⟩
  have ha : s.allocIndex ≤ a := ha
  rw [← h.mem a ha, psaRead]
  dsimp only
  split
  · rw [List.getD_eq_getElem?_getD, List.getElem?_eq_none (by omega), Option.getD_none]
  · rfl

theorem readIns_spec {ds : List (List UInt8)} : ∀ {s s' : Scratch} {vs : List Vec} {ok : Bool},
    Room c others s → (∀ d ∈ ds, d.length ≤ vecMax) → readIns c s ds = (vs, ok, s') →
    Room c others s' ∧ Laid s.allocIndex s'.allocIndex vs ∧
      vs.map Vec.len <+: ds.map List.length ∧
      (ok = true → vs.map Vec.len = ds.map List.length) := by
  induction ds with
  | nil =>
    intro s s' vs ok h _ hs
    cases hs
    exact ⟨h, rfl, List.prefix_refl _, fun _ => rfl⟩
  | cons d ds ih =>
    intro s s' vs ok h hmax hs
    unfold readIns at hs
    cases ha : allocScratch c s d.length with
    | none =>
      rw [ha] at hs
      cases hs
      exact ⟨h, rfl, List.nil_prefix, fun hok => nomatch hok⟩
    | some r =>
      obtain ⟨base, s₁⟩ := r
      obtain ⟨rfl, hidx, _, hroom⟩ := allocScratch_some h (hmax d (List.mem_cons_self ..)) ha
      rw [ha] at hs
      dsimp only at hs
      cases hs
      obtain ⟨h', hl, hp, he⟩ :=
        ih (hroom.read hidx) (fun x hx => hmax x (List.mem_cons_of_mem _ hx)) rfl
      exact ⟨h', ⟨rfl, h.aligned, _, hidx, hl⟩, List.cons_prefix_cons.2 ⟨rfl, hp⟩,
        fun hok => congrArg (d.length :: ·) (he hok)⟩

theorem allocOuts_spec {ns : List Nat} : ∀ {s s' : Scratch} {vs : List Vec} {ok : Bool},
    Room c others s → (∀ n ∈ ns, n ≤ vecMax) → allocOuts c s ns = (vs, ok, s') →
    Room c others s' ∧ Laid s.allocIndex s'.allocIndex vs ∧ vs.map Vec.len <+: ns := by
  induction ns with
  | nil =>
    intro s s' vs ok h _ hs
    cases hs
    exact ⟨h, rfl, List.prefix_refl _⟩
  | cons n ns ih =>
    intro s s' vs ok h hmax hs
    unfold allocOuts at hs
    cases ha : allocScratch c s n with
    | none =>
      rw [ha] at hs
      cases hs
      exact ⟨h, rfl, List.nil_prefix⟩
    | some r =>
      obtain ⟨base, s₁⟩ := r
      obtain ⟨rfl, hidx, _, hroom⟩ := allocScratch_some h (hmax n (List.mem_cons_self ..)) ha
      rw [ha] at hs
      dsimp only at hs
      cases hs
      obtain ⟨h', hl, hp⟩ := ih hroom (fun x hx => hmax x (List.mem_cons_of_mem _ hx)) rfl
      exact ⟨h', ⟨rfl, h.aligned, _, hidx, hl⟩, List.cons_prefix_cons.2 ⟨rfl, hp⟩⟩

/-! ## Calls -/

variable {m : Msg} {iov : List UInt8} {f : Sfn} {a : Answer}

theorem Msg.ins_max (m : Msg) : ∀ d ∈ m.ins, d.length ≤ vecMax := by
  intro d hd
  exact m.inMax d ((List.rdropWhile_prefix ..).subset (List.mem_of_mem_tail hd))

theorem Msg.outs_max (m : Msg) : ∀ n ∈ m.outs, n ≤ vecMax := by
  intro n hn
  exact m.outMax n ((List.rdropWhile_prefix ..).subset hn)

/-- What the called function leaves behind the index is as at boot. -/
theorem Room.called {outs : List Vec} {lo : Nat} {x : Input} {owner : Int} (h : Room c others s)
    (hl : Laid lo s.allocIndex outs) (ho : x.outs = outs) (hm : x.mem = s.mem) :
    Room c others { s with mem := (f.run x).mem, owner := owner } := by
  refine ⟨h.le, h.aligned, fun a ha => ?_⟩
  have ha : s.allocIndex ≤ a := ha
  rw [← h.mem a ha, ← hm]
  refine f.frame x a fun v hv hin => ?_
  have := (hl.mem (ho ▸ hv)).2.2
  omega

/-- However a call ends, the buffer is as at boot again. -/
theorem callSfn_boot (h : callSfn c (boot c others) m iov f = some (a, s')) :
    s' = boot c others := by
  unfold callSfn at h
  split at h
  · cases h
    rfl
  cases hin : readIns c (boot c others) m.ins with
  | mk ins r =>
  obtain ⟨ok, s₁⟩ := r
  obtain ⟨h₁, _⟩ := readIns_spec room_boot m.ins_max hin
  rw [hin] at h
  dsimp only at h
  split at h
  · cases h
    exact h₁.clear
  cases hout : allocOuts c s₁ m.outs with
  | mk outs r =>
  obtain ⟨ok', s₂⟩ := r
  obtain ⟨h₂, hl, _⟩ := allocOuts_spec h₁ m.outs_max hout
  rw [hout] at h
  dsimp only at h
  split at h
  · cases h
    exact h₂.clear
  · obtain ⟨written, _, he⟩ := Option.map_eq_some_iff.1 h
    cases he
    exact (h₂.called hl rfl rfl).clear

theorem regions_laid (c : Cfg) (others : Nat → UInt8) (m : Msg) :
    ∃ hi ≤ c.bufSize, Laid 0 hi (regions c (boot c others) m) ∧
      (regions c (boot c others) m).map Vec.len <+: m.ins.map List.length ++ m.outs := by
  unfold regions
  cases hin : readIns c (boot c others) m.ins with
  | mk ins r =>
  obtain ⟨ok, s₁⟩ := r
  obtain ⟨h₁, hl₁, hp₁, he₁⟩ := readIns_spec room_boot m.ins_max hin
  cases ok with
  | false =>
    exact ⟨s₁.allocIndex, h₁.le, hl₁, hp₁.trans (List.prefix_append ..)⟩
  | true =>
    cases hout : allocOuts c s₁ m.outs with
    | mk outs r =>
    obtain ⟨ok', s₂⟩ := r
    obtain ⟨h₂, hl₂, hp₂⟩ := allocOuts_spec h₁ m.outs_max hout
    dsimp only
    rw [if_neg (by decide), hout]
    refine ⟨s₂.allocIndex, h₂.le, hl₂.append hl₁, ?_⟩
    rw [List.map_append, he₁ rfl]
    exact (List.prefix_append_right_inj _).2 hp₂

theorem serve_boot {e : Event} (h : serve c (boot c others) e = some (a, s')) :
    s' = boot c others := by
  unfold serve at h
  split at h
  · cases h
    rfl
  · cases h
    rfl
  · split at h
    · cases h
      rfl
    · exact callSfn_boot h

/-- After any history the buffer is as at boot. -/
theorem run_boot {es : List Event} : ∀ {as : List Answer} {s' : Scratch},
    run c (boot c others) es = some (as, s') → s' = boot c others := by
  induction es with
  | nil =>
    intro as s' h
    cases h
    rfl
  | cons e es ih =>
    intro as s' h
    obtain ⟨⟨a, s₁⟩, hs, h⟩ := Option.bind_eq_some_iff.1 h
    obtain ⟨⟨as', s₂⟩, hr, he⟩ := Option.map_eq_some_iff.1 h
    cases he
    obtain rfl := serve_boot hs
    exact ih hr

/-! ## Results -/

/-- The buffer is all zero and nothing is allocated. -/
structure Clean (c : Cfg) (s : Scratch) : Prop where
  zero : ∀ a, a < c.bufSize → s.mem a = 0
  index : s.allocIndex = 0

/-- Regions in bounds, aligned and apart. -/
structure Sound (c : Cfg) (vs : List Vec) : Prop where
  bounds : ∀ v ∈ vs, v.base + v.len ≤ c.bufSize
  aligned : ∀ v ∈ vs, 4 ∣ v.base
  apart : vs.Pairwise fun v w => Tiles.Apart v.base v.len w.base w.len

theorem clean_boot : Clean c (boot c others) :=
  ⟨fun _ ha => if_pos ha, rfl⟩

/-- **Scratch isolation**: whatever messages came before, a call starts and ends
with a clean buffer, on each of its exits; the regions it hands out are of the
sizes asked for, in bounds, aligned and apart; and the answer to a message is the
same after any other history. -/
theorem scratch_isolated (c : Cfg) (others : Nat → UInt8) (es : List Event) (as : List Answer)
    (s : Scratch) (hrun : run c (boot c others) es = some (as, s)) :
    Clean c s ∧
    (∀ m iov f a s', callSfn c s m iov f = some (a, s') → Clean c s') ∧
    (∀ m, Sound c (regions c s m) ∧
      (regions c s m).map Vec.len <+: m.ins.map List.length ++ m.outs) ∧
    ∀ es' as' s', run c (boot c others) es' = some (as', s') →
      ∀ e, (serve c s e).map Prod.fst = (serve c s' e).map Prod.fst := by
  obtain rfl := run_boot hrun
  refine ⟨clean_boot, fun m iov f a s' h => ?_, fun m => ?_, fun es' as' s' h e => ?_⟩
  · rw [callSfn_boot h]
    exact clean_boot
  · obtain ⟨hi, hle, hl, hp⟩ := regions_laid c others m
    refine ⟨⟨fun v hv => ?_, fun v hv => (hl.mem hv).1, hl.apart⟩, hp⟩
    exact (hl.mem hv).2.2.trans hle
  · rw [run_boot h]

/-- A function that writes nothing and claims all of its output. -/
def idle : Sfn where
  run x := ⟨x.mem, x.outs.map Vec.len, .ok ()⟩
  frame _ _ _ := rfl
  count _ := List.length_map ..

/-- A call with 5 bytes of input and room for 6 bytes of output. -/
def exMsg : Msg where
  clientId := 1
  inVec := [List.replicate sizeofPackIovec 0, [0xAA, 0xBB, 0xCC, 0xDD, 0xEE], [], []]
  outSize := [6, 0, 0, 0]
  inCount := rfl
  outCount := rfl
  inMax := by decide
  outMax := by decide

/-- The second of two such calls gets zeroes, not the input of the first one. -/
theorem scratch_isolated_two_calls : ∃ s,
    (run ⟨16, by decide⟩ (boot ⟨16, by decide⟩ fun _ => 0)
      [.call exMsg fun _ => idle, .call exMsg fun _ => idle]).map
        (fun r => r.1.map Answer.written) = some [[[0, 0, 0, 0, 0, 0]], [[0, 0, 0, 0, 0, 0]]] ∧
    Clean ⟨16, by decide⟩ s := by
  have he : (run ⟨16, by decide⟩ (boot ⟨16, by decide⟩ fun _ => 0)
      [.call exMsg fun _ => idle, .call exMsg fun _ => idle]).map
        (fun r => r.1.map Answer.written) = some [[[0, 0, 0, 0, 0, 0]], [[0, 0, 0, 0, 0, 0]]] := by
    decide +kernel
  obtain ⟨⟨as, s⟩, hrun, _⟩ := Option.map_eq_some_iff.1 he
  exact ⟨s, he, (scratch_isolated _ _ _ as s hrun).1⟩

end Tfm.L4.CryptoScratch
