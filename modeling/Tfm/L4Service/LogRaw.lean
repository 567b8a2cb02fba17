import Mathlib.Data.UInt
import Tfm.Core.Index

/-!
# Log formatting

Model of `tfm_log_printf` in interface/src/log/tfm_log_raw.c: the format is gone
through once, the output is collected in a buffer of 32 bytes that is given to
`stdio_output_string` when it is full, and numbers are written to a buffer of
their digits, lowest first, that is then output from its end.

A function is `none` where the source would leave an array or take an argument
of another type than was given. `out` are the blocks given to
`stdio_output_string`; what the function returns is a parameter. `int` is a
32-bit number that wraps.

Two things are not as the header has them. After an unsupported tag the cursor
stays on the tag's character, which is then output as any other character. The
characters in the last, partial block were counted when they were put there, and
are counted again when the block is output.

Results:
* `digitLoop_eq`: the digit buffer holds the digits of `Nat.toDigits`, reversed.
* `logVprintf_eq`: no array is left, and what is output is the expansion with
  the characters of unsupported tags.
* `logPrintf_eq`: the blocks, and the count that is returned.
* `expand_eq_iff`: when the two expansions agree.
-/
namespace Tfm.L4.LogRaw

/-! ## Strings and arguments -/

/-- The bytes of a literal. -/
def ascii (s : String) : List UInt8 := s.toList.map Char.toUInt8

/-- A string in memory, up to its terminator. -/
structure CStr where
  chars : List UInt8
  noNul : 0 ∉ chars

/-- An argument: a 32-bit number (a pointer for `%p`), or a string. -/
inductive Arg
  | num (x : UInt32)
  | str (s : CStr)

/-! ## Output -/

def printBuffSize : Nat := 32
def numBuffSize : Nat := 12

/-- mirrors interface/src/log/tfm_log_raw.c:17-20 -/
structure FormattedBuffer where
  pos : Nat
  buf : List UInt8
  out : List (List UInt8)
  deriving DecidableEq

/-- mirrors interface/src/log/tfm_log_raw.c:27-36 -/
def flushFormattedBuffer (pb : FormattedBuffer) (data : UInt8) : Option FormattedBuffer :=
  if pb.pos < pb.buf.length then
    let buf := pb.buf.set pb.pos data
    if pb.pos + 1 ≥ printBuffSize then
      some { pos := 0, buf := buf, out := pb.out ++ [buf.take printBuffSize] }
    else some { pos := pb.pos + 1, buf := buf, out := pb.out }
  else none

/-- The loop of `_tfm_string_output`, with its `count`.
mirrors interface/src/log/tfm_log_raw.c:38-49 -/
def stringOutput : FormattedBuffer → List UInt8 → UInt32 → Option (FormattedBuffer × UInt32)
  | pb, [], count => some (pb, count)
  | pb, c :: str, count =>
    (flushFormattedBuffer pb c).bind fun pb => stringOutput pb str (count + 1)

/-- How a loop takes a number apart: the digit that it writes, and what is left
of the number. -/
structure Radix where
  low : UInt32 → UInt8
  next : UInt32 → UInt32
  next_lt : ∀ n, next n ≠ 0 → (next n).toNat < n.toNat

/-- `'0' + number % 10` and `number /= 10`. -/
def decimal : Radix where
  low := fun n => '0'.toUInt8 + (n % 10).toUInt8
  next := fun n => n / 10
  next_lt := by
    intro n h
    have hpos : (n / 10).toNat ≠ 0 := fun hz => h (UInt32.toNat_inj.mp hz)
    rw [UInt32.toNat_div, show (10 : UInt32).toNat = 10 from rfl] at hpos ⊢
    omega

def hexDigitsLo : List UInt8 := ascii "0123456789abcdef"
def hexDigitsUp : List UInt8 := ascii "0123456789ABCDEF"

/-- `hex_digits[num & 0x0f]` and `num >>= 4`. -/
def hexadecimal (hexDigits : List UInt8) : Radix where
  low := fun n => hexDigits.getD (n &&& 0x0f).toNat 0
  next := fun n => n >>> 4
  next_lt := by
    intro n h
    have hpos : (n >>> 4).toNat ≠ 0 := fun hz => h (UInt32.toNat_inj.mp hz)
    rw [UInt32.toNat_shiftRight, show (4 : UInt32).toNat % 32 = 4 from rfl,
      Nat.shiftRight_eq_div_pow] at hpos ⊢
    omega

/-- The `do` loop that fills the digit buffer. -/
def digitLoop (r : Radix) (numBuff : List UInt8) (k : Nat) (number : UInt32) :
    Option (List UInt8 × Nat) :=
  if k < numBuff.length then
    let numBuff := numBuff.set k (r.low number)
    if _ : r.next number ≠ 0 then digitLoop r numBuff (k + 1) (r.next number)
    else some (numBuff, k + 1)
  else none
termination_by number.toNat
decreasing_by exact r.next_lt number ‹_›

/-- `while (k)`: the digit buffer from its end. -/
def emitLoop : FormattedBuffer → List UInt8 → Nat → UInt32 → Option (FormattedBuffer × UInt32)
  | pb, _, 0, count => some (pb, count)
  | pb, numBuff, k + 1, count =>
    (numBuff[k]?).bind fun d =>
      (flushFormattedBuffer pb d).bind fun pb => emitLoop pb numBuff k (count + 1)

/-- The two loops, from a digit buffer of zeros. -/
def numOutput (r : Radix) (pb : FormattedBuffer) (number count : UInt32) :
    Option (FormattedBuffer × UInt32) :=
  (digitLoop r (List.replicate numBuffSize 0) 0 number).bind fun d => emitLoop pb d.1 d.2 count

/-- mirrors interface/src/log/tfm_log_raw.c:51-76 -/
def decNumOutput (pb : FormattedBuffer) (num : UInt32) (sign : UInt8) :
    Option (FormattedBuffer × UInt32) :=
  if sign = 'd'.toUInt8 ∧ num.toInt32.toInt < 0 then
    (flushFormattedBuffer pb '-'.toUInt8).bind fun pb => numOutput decimal pb (-num) 1
  else numOutput decimal pb num 0

/-- mirrors interface/src/log/tfm_log_raw.c:78-96 -/
def hexNumOutput (pb : FormattedBuffer) (num : UInt32) (hexDigits : List UInt8) :
    Option (FormattedBuffer × UInt32) :=
  numOutput (hexadecimal hexDigits) pb num 0

/-! ## The format -/

/-- The cases of the `switch`. -/
inductive Conv
  | dec
  | unsigned
  | hexLower
  | hexUpper
  | pointer
  | string
  | char
  | percent
  deriving DecidableEq, Repr

/-- The case labels; `none` is the default. -/
def conv (t : UInt8) : Option Conv :=
  if t = 'd'.toUInt8 ∨ t = 'i'.toUInt8 then some .dec
  else if t = 'u'.toUInt8 then some .unsigned
  else if t = 'x'.toUInt8 then some .hexLower
  else if t = 'X'.toUInt8 then some .hexUpper
  else if t = 'p'.toUInt8 then some .pointer
  else if t = 's'.toUInt8 then some .string
  else if t = 'c'.toUInt8 then some .char
  else if t = '%'.toUInt8 then some .percent
  else none

/-- A case of the `switch`: the buffer, what `count` grows by, and the arguments
left. -/
def Conv.output : Conv → FormattedBuffer → List Arg →
    Option (FormattedBuffer × UInt32 × List Arg)
  | .dec, pb, .num x :: ap => (decNumOutput pb x 'd'.toUInt8).map fun r => (r.1, r.2, ap)
  | .unsigned, pb, .num x :: ap => (decNumOutput pb x 'u'.toUInt8).map fun r => (r.1, r.2, ap)
  | .hexLower, pb, .num x :: ap => (hexNumOutput pb x hexDigitsLo).map fun r => (r.1, r.2, ap)
  | .hexUpper, pb, .num x :: ap => (hexNumOutput pb x hexDigitsUp).map fun r => (r.1, r.2, ap)
  | .pointer, pb, .num x :: ap =>
    (stringOutput pb (ascii "0x") 0).bind fun r =>
      (hexNumOutput r.1 x hexDigitsLo).map fun q => (q.1, r.2 + q.2, ap)
  | .string, pb, .str s :: ap => (stringOutput pb s.chars 0).map fun r => (r.1, r.2, ap)
  | .char, pb, .num x :: ap => (flushFormattedBuffer pb x.toUInt8).map fun pb => (pb, 1, ap)
  | .percent, pb, ap => (flushFormattedBuffer pb '%'.toUInt8).map fun pb => (pb, 1, ap)
  | _, _, _ => none

def unsupportedTag : List UInt8 := ascii "[Unsupported Tag]"

/-- The loop of `_tfm_log_vprintf`. The list is the format from the cursor on; at
its end the cursor is on the terminator, which is the default of the `switch`.
mirrors interface/src/log/tfm_log_raw.c:105-151 -/
def logVprintf : FormattedBuffer → UInt32 → List UInt8 → List Arg →
    Option (FormattedBuffer × UInt32)
  | pb, count, [], _ => some (pb, count)
  | pb, count, c :: fmt, ap =>
    if c = '%'.toUInt8 then
      match fmt with
      | [] => (stringOutput pb unsupportedTag 0).map fun r => (r.1, count + r.2)
      | t :: rest =>
        match conv t with
        | some cv =>
          (cv.output pb ap).bind fun r => logVprintf r.1 (count + r.2.1) rest r.2.2
        | none =>
          -- the cursor stays on the character of the tag
          (stringOutput pb unsupportedTag 0).bind fun r =>
            logVprintf r.1 (count + r.2) (t :: rest) ap
    else (flushFormattedBuffer pb c).bind fun pb => logVprintf pb (count + 1) fmt ap

/-- The blocks given to `stdio_output_string` and the value returned. `stdio` is
what that function returns for the last of some blocks; `buf` is what the buffer
holds at the start.
mirrors interface/src/log/tfm_log_raw.c:98-171 -/
def logPrintf (stdio : List (List UInt8) → UInt32) (buf : List UInt8) (fmt : CStr)
    (ap : List Arg) : Option (List (List UInt8) × Int) :=
  (logVprintf { pos := 0, buf := buf, out := [] } 0 fmt.chars ap).map fun r =>
    if r.1.pos ≠ 0 then
      let out := r.1.out ++ [r.1.buf.take r.1.pos]
      (out, (r.2 + stdio out).toInt32.toInt)
    else (r.1.out, r.2.toInt32.toInt)

/-! ## What a number looks like -/

/-- Digits as bytes. -/
def digits (f : Char → UInt8) (base n : Nat) : List UInt8 := (Nat.toDigits base n).map f

def decText (n : Nat) : List UInt8 := digits Char.toUInt8 10 n

def signedText (z : Int) : List UInt8 :=
  if z < 0 then '-'.toUInt8 :: decText z.natAbs else decText z.natAbs

def hexText (n : Nat) : List UInt8 := digits Char.toUInt8 16 n

def hexUpperText (n : Nat) : List UInt8 := digits (fun c => c.toUpper.toUInt8) 16 n

/-- The loop takes numbers apart in a base, and writes digits as `f` does. -/
structure Radix.Writes (r : Radix) (f : Char → UInt8) (base : Nat) : Prop where
  low_eq : ∀ n, r.low n = f (Nat.digitChar (n.toNat % base))
  next_eq : ∀ n, (r.next n).toNat = n.toNat / base

theorem low_decimal : ∀ d : Fin 10,
    '0'.toUInt8 + UInt8.ofNat d.val = (Nat.digitChar d.val).toUInt8 := by
  decide

theorem low_hexLo : ∀ d : Fin 16,
    hexDigitsLo.getD d.val 0 = (Nat.digitChar d.val).toUInt8 := by
  decide

theorem low_hexUp : ∀ d : Fin 16,
    hexDigitsUp.getD d.val 0 = (Nat.digitChar d.val).toUpper.toUInt8 := by
  decide

theorem decimal_writes : decimal.Writes Char.toUInt8 10 where
  low_eq := by
    intro n
    have hlt : n.toNat % 10 < 10 := Nat.mod_lt _ (by decide)
    have hdigit := low_decimal ⟨n.toNat % 10, hlt⟩
    have hbyte : (n % 10).toUInt8 = UInt8.ofNat (n.toNat % 10) := by
      apply UInt8.toNat_inj.mp
      rw [UInt32.toNat_toUInt8, UInt32.toNat_mod, UInt8.toNat_ofNat']
      rfl
    show '0'.toUInt8 + (n % 10).toUInt8 = _
    rw [hbyte]
    exact hdigit
  next_eq := fun n => UInt32.toNat_div n 10

theorem low_nibble (n : UInt32) : (n &&& 0x0f).toNat = n.toNat % 16 := by
  rw [UInt32.toNat_and, show (0x0f : UInt32).toNat = 2 ^ 4 - 1 from rfl,
    Nat.and_two_pow_sub_one_eq_mod]

theorem next_nibble (n : UInt32) : (n >>> 4).toNat = n.toNat / 16 := by
  rw [UInt32.toNat_shiftRight, show (4 : UInt32).toNat % 32 = 4 from rfl,
    Nat.shiftRight_eq_div_pow]

theorem hexLo_writes : (hexadecimal hexDigitsLo).Writes Char.toUInt8 16 where
  low_eq := by
    intro n
    have hlt : n.toNat % 16 < 16 := Nat.mod_lt _ (by decide)
    show hexDigitsLo.getD (n &&& 0x0f).toNat 0 = _
    rw [low_nibble]
    exact low_hexLo ⟨n.toNat % 16, hlt⟩
  next_eq := next_nibble

theorem hexUp_writes : (hexadecimal hexDigitsUp).Writes (fun c => c.toUpper.toUInt8) 16 where
  low_eq := by
    intro n
    have hlt : n.toNat % 16 < 16 := Nat.mod_lt _ (by decide)
    show hexDigitsUp.getD (n &&& 0x0f).toNat 0 = _
    rw [low_nibble]
    exact low_hexUp ⟨n.toNat % 16, hlt⟩
  next_eq := next_nibble

/-! ## The buffer -/

namespace FormattedBuffer

/-- All that was output so far. -/
def text (pb : FormattedBuffer) : List UInt8 := pb.out.flatten ++ pb.buf.take pb.pos

/-- There is room, and the blocks given away were full. -/
structure Ok (pb : FormattedBuffer) : Prop where
  pos_lt : pb.pos < 32
  length_buf : pb.buf.length = 32
  full : ∀ b ∈ pb.out, b.length = 32

end FormattedBuffer

/-- `pb'` is `pb` with `l` output. -/
structure Put (pb pb' : FormattedBuffer) (l : List UInt8) : Prop where
  ok : pb'.Ok
  text_eq : pb'.text = pb.text ++ l

theorem Put.trans {pb pb' pb'' : FormattedBuffer} {l l' : List UInt8} (h : Put pb pb' l)
    (h' : Put pb' pb'' l') : Put pb pb'' (l ++ l') where
  ok := h'.ok
  text_eq := by rw [h'.text_eq, h.text_eq, List.append_assoc]

theorem Put.refl {pb : FormattedBuffer} (h : pb.Ok) : Put pb pb [] where
  ok := h
  text_eq := (List.append_nil _).symm

/-- The cells up to one that is set. -/
theorem take_succ_set {α : Type} {l : List α} {p : Nat} (h : p < l.length) (x : α) :
    (l.set p x).take (p + 1) = l.take p ++ [x] := by
  have hget : (l.set p x)[p]? = some x := by
    rw [List.getElem?_set_self h]
  rw [List.take_add_one, hget, List.take_set_of_le (Nat.le_refl p)]
  rfl

/-- One character. -/
theorem flush_put {pb : FormattedBuffer} (h : pb.Ok) (c : UInt8) :
    ∃ pb', flushFormattedBuffer pb c = some pb' ∧ Put pb pb' [c] := by
  have hlt : pb.pos < pb.buf.length := by
    rw [h.length_buf]
    exact h.pos_lt
  have htake := take_succ_set hlt c
  unfold flushFormattedBuffer
  rw [if_pos hlt]
  dsimp only
  split
  · next hfull =>
    have hpos : pb.pos + 1 = printBuffSize := Nat.le_antisymm h.pos_lt hfull
    rw [hpos] at htake
    refine ⟨_, rfl, ⟨by show 0 < 32; decide, by rw [List.length_set, h.length_buf], ?_⟩, ?_⟩
    · intro b hb
      rw [List.mem_append, List.mem_singleton] at hb
      cases hb with
      | inl hold => exact h.full b hold
      | inr hnew =>
        rw [hnew, List.length_take, List.length_set, h.length_buf]
        rfl
    · simp [FormattedBuffer.text, htake, List.append_assoc]
  · next hroom =>
    refine ⟨_, rfl, ⟨Nat.lt_of_not_le hroom, by rw [List.length_set, h.length_buf], h.full⟩, ?_⟩
    show pb.out.flatten ++ (pb.buf.set pb.pos c).take (pb.pos + 1) = _
    rw [htake, FormattedBuffer.text, List.append_assoc]

/-- A run of characters, and its count. -/
theorem stringOutput_put (l : List UInt8) : ∀ {pb : FormattedBuffer} (_ : pb.Ok) (count : UInt32),
    ∃ pb', stringOutput pb l count = some (pb', count + UInt32.ofNat l.length) ∧
      Put pb pb' l := by
  induction l with
  | nil =>
    intro pb h count
    exact ⟨pb, by simp [stringOutput], Put.refl h⟩
  | cons c l ih =>
    intro pb h count
    obtain ⟨pb₁, hflush, hput⟩ := flush_put h c
    obtain ⟨pb₂, hrest, hput'⟩ := ih hput.ok (count + 1)
    refine ⟨pb₂, ?_, hput.trans hput'⟩
    rw [stringOutput, hflush, Option.bind_some, hrest, List.length_cons, Nat.add_comm,
      UInt32.ofNat_add, UInt32.add_assoc]
    rfl

/-- The digit buffer from its end. -/
theorem emitLoop_put (numBuff : List UInt8) (k : Nat) (hk : k ≤ numBuff.length) :
    ∀ {pb : FormattedBuffer} (_ : pb.Ok) (count : UInt32),
      ∃ pb', emitLoop pb numBuff k count = some (pb', count + UInt32.ofNat k) ∧
        Put pb pb' (numBuff.take k).reverse := by
  induction k with
  | zero =>
    intro pb h count
    exact ⟨pb, by simp [emitLoop], by simpa using Put.refl h⟩
  | succ k ih =>
    intro pb h count
    obtain ⟨d, hd⟩ : ∃ d, numBuff[k]? = some d := ⟨_, List.getElem?_eq_getElem hk⟩
    obtain ⟨pb₁, hflush, hput⟩ := flush_put h d
    obtain ⟨pb₂, hrest, hput'⟩ := ih (Nat.le_of_succ_le hk) hput.ok (count + 1)
    have htake : (numBuff.take (k + 1)).reverse = [d] ++ (numBuff.take k).reverse := by
      rw [List.take_add_one, hd, List.reverse_append]
      rfl
    refine ⟨pb₂, ?_, ?_⟩
    · rw [emitLoop, hd, Option.bind_some, hflush, Option.bind_some, hrest, Nat.add_comm k 1,
        UInt32.ofNat_add, UInt32.add_assoc]
      rfl
    · rw [htake]
      exact hput.trans hput'

theorem digits_eq {f : Char → UInt8} {base : Nat} (hb : 1 < base) (n : Nat) :
    digits f base n =
      (if n < base then [] else digits f base (n / base)) ++ [f (Nat.digitChar (n % base))] := by
  unfold digits
  rw [Nat.toDigits_eq_if hb]
  split
  · next h => simp [Nat.mod_eq_of_lt h]
  · simp

/-- One digit more, seen from the end. -/
theorem reverse_take_set {l : List UInt8} {k : Nat} (h : k < l.length) (x : UInt8) :
    ((l.set k x).take (k + 1)).reverse = [x] ++ (l.take k).reverse := by
  rw [take_succ_set h, List.reverse_append]
  rfl

/-- **The digit buffer** has room for the digits, and holds them reversed. -/
theorem digitLoop_eq {r : Radix} {f : Char → UInt8} {base : Nat} (hr : r.Writes f base)
    (hb : 1 < base) (room : Nat) :
    ∀ (numBuff : List UInt8) (k : Nat) (number : UInt32), k + room = numBuff.length →
      0 < room → number.toNat < base ^ room →
      ∃ numBuff' k', digitLoop r numBuff k number = some (numBuff', k') ∧
        k' ≤ numBuff'.length ∧
        (numBuff'.take k').reverse = digits f base number.toNat ++ (numBuff.take k).reverse := by
  induction room with
  | zero =>
    intro _ _ _ _ hpos _
    exact absurd hpos (Nat.lt_irrefl 0)
  | succ room ih =>
    intro numBuff k number hroom _ hlt
    have hk : k < numBuff.length := by omega
    have hlow := hr.low_eq number
    have hnext : r.next number = 0 ↔ number.toNat < base := by
      rw [← UInt32.toNat_inj, hr.next_eq, UInt32.toNat_zero, Nat.div_eq_zero_iff]
      omega
    rw [digitLoop, if_pos hk]
    dsimp only
    by_cases hlast : number.toNat < base
    · -- the last digit
      rw [dif_neg (by rw [hnext.mpr hlast]; exact fun h => h rfl)]
      refine ⟨_, _, rfl, by rw [List.length_set]; omega, ?_⟩
      rw [reverse_take_set hk, hlow, digits_eq hb, if_pos hlast]
      rfl
    · rw [dif_pos (fun h => hlast (hnext.mp h))]
      have hdiv : (r.next number).toNat < base ^ room := by
        rw [hr.next_eq, Nat.div_lt_iff_lt_mul (by omega), ← Nat.pow_succ]
        exact hlt
      have hpos : 0 < room := by
        apply Nat.pos_of_ne_zero
        intro hz
        rw [hz] at hlt
        simp at hlt
        exact hlast hlt
      obtain ⟨numBuff', k', hloop, hle, htake⟩ := ih (numBuff.set k (r.low number)) (k + 1)
        (r.next number) (by rw [List.length_set]; omega) hpos hdiv
      refine ⟨numBuff', k', hloop, hle, ?_⟩
      rw [htake, reverse_take_set hk, hr.next_eq, hlow, digits_eq hb number.toNat, if_neg hlast,
        List.append_assoc]

/-- A number. -/
theorem numOutput_put {r : Radix} {f : Char → UInt8} {base : Nat} (hr : r.Writes f base)
    (hb : 10 ≤ base) {pb : FormattedBuffer} (h : pb.Ok) (number count : UInt32) :
    ∃ pb', numOutput r pb number count =
        some (pb', count + UInt32.ofNat (digits f base number.toNat).length) ∧
      Put pb pb' (digits f base number.toNat) := by
  have hnum := number.toNat_lt
  have hfit : number.toNat < base ^ 12 := by
    calc number.toNat < 10 ^ 12 := by omega
      _ ≤ base ^ 12 := Nat.pow_le_pow_left hb 12
  obtain ⟨numBuff, k, hloop, hle, htake⟩ := digitLoop_eq hr (by omega) 12
    (List.replicate numBuffSize 0) 0 number rfl (by decide) hfit
  rw [List.take_zero, List.reverse_nil, List.append_nil] at htake
  have hlen : k = (digits f base number.toNat).length := by
    rw [← htake, List.length_reverse, List.length_take, Nat.min_eq_left hle]
  obtain ⟨pb', hemit, hput⟩ := emitLoop_put numBuff k hle h count
  refine ⟨pb', ?_, ?_⟩
  · rw [numOutput, hloop, Option.bind_some, hemit, hlen]
  · rw [← htake]
    exact hput

/-- The magnitude of a negative number, `INT32_MIN` included. -/
theorem neg_toNat {x : UInt32} (h : x.toInt32.toInt < 0) :
    (-x).toNat = x.toInt32.toInt.natAbs := by
  have hx := x.toNat_lt
  have hcond : x.toInt32.toInt = if 2 * x.toNat < 2 ^ 32 then (x.toNat : Int)
      else (x.toNat : Int) - (2 ^ 32 : Nat) := BitVec.toInt_eq_toNat_cond x.toBitVec
  rw [UInt32.toNat_neg, show UInt32.size = 4294967296 from rfl]
  rw [hcond] at h ⊢
  split at h
  · omega
  · next hge =>
    rw [if_neg hge]
    omega

theorem toNat_of_nonneg {x : UInt32} (h : ¬ x.toInt32.toInt < 0) :
    x.toNat = x.toInt32.toInt.natAbs := by
  have hx := x.toNat_lt
  have hcond : x.toInt32.toInt = if 2 * x.toNat < 2 ^ 32 then (x.toNat : Int)
      else (x.toNat : Int) - (2 ^ 32 : Nat) := BitVec.toInt_eq_toNat_cond x.toBitVec
  rw [hcond] at h ⊢
  split at h
  · next hlt => rw [if_pos hlt, Int.natAbs_natCast]
  · omega

theorem decNumOutput_signed {pb : FormattedBuffer} (h : pb.Ok) (x : UInt32) :
    ∃ pb', decNumOutput pb x 'd'.toUInt8 =
        some (pb', UInt32.ofNat (signedText x.toInt32.toInt).length) ∧
      Put pb pb' (signedText x.toInt32.toInt) := by
  unfold decNumOutput signedText decText
  by_cases hneg : x.toInt32.toInt < 0
  · obtain ⟨pb₁, hflush, hput⟩ := flush_put h '-'.toUInt8
    obtain ⟨pb₂, hnum, hput'⟩ := numOutput_put decimal_writes (by decide) hput.ok (-x) 1
    rw [neg_toNat hneg] at hnum hput'
    refine ⟨pb₂, ?_, ?_⟩
    · rw [if_pos ⟨rfl, hneg⟩, if_pos hneg, hflush, Option.bind_some, hnum, List.length_cons,
        Nat.add_comm, UInt32.ofNat_add]
      rfl
    · rw [if_pos hneg]
      exact hput.trans hput'
  · obtain ⟨pb', hnum, hput⟩ := numOutput_put decimal_writes (by decide) h x 0
    rw [toNat_of_nonneg hneg] at hnum hput
    refine ⟨pb', ?_, ?_⟩
    · rw [if_neg (fun hc => hneg hc.2), if_neg hneg, hnum, UInt32.zero_add]
    · rw [if_neg hneg]
      exact hput

theorem decNumOutput_unsigned {pb : FormattedBuffer} (h : pb.Ok) (x : UInt32) :
    ∃ pb', decNumOutput pb x 'u'.toUInt8 =
        some (pb', UInt32.ofNat (decText x.toNat).length) ∧ Put pb pb' (decText x.toNat) := by
  obtain ⟨pb', hnum, hput⟩ := numOutput_put decimal_writes (by decide) h x 0
  refine ⟨pb', ?_, hput⟩
  rw [decNumOutput, if_neg (fun hc => absurd hc.1 (by decide)), hnum, UInt32.zero_add]
  rfl

theorem hexNumOutput_put {hexDigits : List UInt8} {f : Char → UInt8}
    (hr : (hexadecimal hexDigits).Writes f 16) {pb : FormattedBuffer} (h : pb.Ok) (x : UInt32) :
    ∃ pb', hexNumOutput pb x hexDigits =
        some (pb', UInt32.ofNat (digits f 16 x.toNat).length) ∧
      Put pb pb' (digits f 16 x.toNat) := by
  obtain ⟨pb', hnum, hput⟩ := numOutput_put hr (by decide) h x 0
  refine ⟨pb', ?_, hput⟩
  rw [hexNumOutput, hnum, UInt32.zero_add]

/-! ## What a format asks for -/

inductive Kind
  | num
  | str
  deriving DecidableEq, Repr

def Arg.kind : Arg → Kind
  | .num _ => .num
  | .str _ => .str

/-- The argument that a tag takes. -/
def Conv.kind : Conv → Option Kind
  | .percent => none
  | .string => some .str
  | _ => some .num

/-- What a tag stands for, with the arguments from its own on.
mirrors interface/include/log/tfm_log_raw.h:26-35 -/
def Conv.text : Conv → List Arg → List UInt8
  | .dec, .num x :: _ => signedText x.toInt32.toInt
  | .unsigned, .num x :: _ => decText x.toNat
  | .hexLower, .num x :: _ => hexText x.toNat
  | .hexUpper, .num x :: _ => hexUpperText x.toNat
  | .pointer, .num x :: _ => ascii "0x" ++ hexText x.toNat
  | .string, .str s :: _ => s.chars
  | .char, .num x :: _ => [x.toUInt8]
  | .percent, _ => ascii "%"
  | _, _ => []

/-- The arguments after a tag. -/
def Conv.rest (cv : Conv) (ap : List Arg) : List Arg := ap.drop cv.kind.toList.length

/-- The arguments that a format takes. -/
def wants : List UInt8 → List Kind
  | [] => []
  | c :: fmt =>
    if c = '%'.toUInt8 then
      match fmt with
      | [] => []
      | t :: rest =>
        match conv t with
        | some cv => cv.kind.toList ++ wants rest
        | none => wants rest
    else wants fmt

/-- The arguments match the format; further ones are not looked at. -/
def Matches (fmt : CStr) (ap : List Arg) : Prop := wants fmt.chars <+: ap.map Arg.kind

instance (fmt : CStr) (ap : List Arg) : Decidable (Matches fmt ap) :=
  inferInstanceAs (Decidable (wants fmt.chars <+: ap.map Arg.kind))

/-- The expansion of a format. With `keep`, the character of an unsupported tag
follows its message. -/
def expand (keep : Bool) : List UInt8 → List Arg → List UInt8
  | [], _ => []
  | c :: fmt, ap =>
    if c = '%'.toUInt8 then
      match fmt with
      | [] => unsupportedTag
      | t :: rest =>
        match conv t with
        | some cv => cv.text ap ++ expand keep rest (cv.rest ap)
        | none => unsupportedTag ++ (if keep then [t] else []) ++ expand keep rest ap
    else c :: expand keep fmt ap

/-- No character follows a `%` without being one of the tags. -/
def plain : List UInt8 → Bool
  | [] => true
  | c :: fmt =>
    if c = '%'.toUInt8 then
      match fmt with
      | [] => true
      | t :: rest => (conv t).isSome && plain rest
    else plain fmt

section Unfold
variable {c t : UInt8} {cv : Conv} {fmt rest : List UInt8} {ap : List Arg} {keep : Bool}
  (pb : FormattedBuffer) (count : UInt32)

/-- One turn of the loop. -/
theorem logVprintf_cons :
    logVprintf pb count (c :: fmt) ap =
      if c = '%'.toUInt8 then
        match fmt with
        | [] => (stringOutput pb unsupportedTag 0).map fun r => (r.1, count + r.2)
        | t :: rest =>
          match conv t with
          | some cv =>
            (cv.output pb ap).bind fun r => logVprintf r.1 (count + r.2.1) rest r.2.2
          | none =>
            (stringOutput pb unsupportedTag 0).bind fun r =>
              logVprintf r.1 (count + r.2) (t :: rest) ap
      else (flushFormattedBuffer pb c).bind fun pb => logVprintf pb (count + 1) fmt ap := by
  rw [logVprintf.eq_def]

theorem logVprintf_char (hc : c ≠ '%'.toUInt8) :
    logVprintf pb count (c :: fmt) ap =
      (flushFormattedBuffer pb c).bind fun pb => logVprintf pb (count + 1) fmt ap := by
  rw [logVprintf_cons, if_neg hc]

theorem logVprintf_end :
    logVprintf pb count ['%'.toUInt8] ap =
      (stringOutput pb unsupportedTag 0).map fun r => (r.1, count + r.2) := by
  rw [logVprintf_cons, if_pos rfl]

theorem logVprintf_conv (h : conv t = some cv) :
    logVprintf pb count ('%'.toUInt8 :: t :: rest) ap =
      (cv.output pb ap).bind fun r => logVprintf r.1 (count + r.2.1) rest r.2.2 := by
  rw [logVprintf_cons, if_pos rfl]
  simp only [h]

theorem logVprintf_default (h : conv t = none) :
    logVprintf pb count ('%'.toUInt8 :: t :: rest) ap =
      (stringOutput pb unsupportedTag 0).bind fun r =>
        logVprintf r.1 (count + r.2) (t :: rest) ap := by
  rw [logVprintf_cons, if_pos rfl]
  simp only [h]

theorem expand_cons :
    expand keep (c :: fmt) ap =
      if c = '%'.toUInt8 then
        match fmt with
        | [] => unsupportedTag
        | t :: rest =>
          match conv t with
          | some cv => cv.text ap ++ expand keep rest (cv.rest ap)
          | none => unsupportedTag ++ (if keep then [t] else []) ++ expand keep rest ap
      else c :: expand keep fmt ap := by
  rw [expand.eq_def]

theorem expand_char (hc : c ≠ '%'.toUInt8) :
    expand keep (c :: fmt) ap = c :: expand keep fmt ap := by
  rw [expand_cons, if_neg hc]

theorem expand_end : expand keep ['%'.toUInt8] ap = unsupportedTag := by
  rw [expand_cons, if_pos rfl]

theorem expand_conv (h : conv t = some cv) :
    expand keep ('%'.toUInt8 :: t :: rest) ap = cv.text ap ++ expand keep rest (cv.rest ap) := by
  rw [expand_cons, if_pos rfl]
  simp only [h]

theorem expand_default (h : conv t = none) :
    expand keep ('%'.toUInt8 :: t :: rest) ap =
      unsupportedTag ++ (if keep then [t] else []) ++ expand keep rest ap := by
  rw [expand_cons, if_pos rfl]
  simp only [h]

/-- The message, with the character of the tag. -/
theorem expand_kept (h : conv t = none) :
    expand true ('%'.toUInt8 :: t :: rest) ap = unsupportedTag ++ [t] ++ expand true rest ap :=
  expand_default h

/-- The message, without the character of the tag. -/
theorem expand_dropped (h : conv t = none) :
    expand false ('%'.toUInt8 :: t :: rest) ap = unsupportedTag ++ expand false rest ap := by
  rw [expand_default h, if_neg Bool.false_ne_true, List.append_nil]

theorem wants_cons :
    wants (c :: fmt) =
      if c = '%'.toUInt8 then
        match fmt with
        | [] => []
        | t :: rest =>
          match conv t with
          | some cv => cv.kind.toList ++ wants rest
          | none => wants rest
      else wants fmt := by
  rw [wants.eq_def]

theorem wants_char (hc : c ≠ '%'.toUInt8) : wants (c :: fmt) = wants fmt := by
  rw [wants_cons, if_neg hc]

theorem wants_conv (h : conv t = some cv) :
    wants ('%'.toUInt8 :: t :: rest) = cv.kind.toList ++ wants rest := by
  rw [wants_cons, if_pos rfl]
  simp only [h]

theorem wants_default (h : conv t = none) : wants ('%'.toUInt8 :: t :: rest) = wants rest := by
  rw [wants_cons, if_pos rfl]
  simp only [h]

theorem plain_cons :
    plain (c :: fmt) =
      if c = '%'.toUInt8 then
        match fmt with
        | [] => true
        | t :: rest => (conv t).isSome && plain rest
      else plain fmt := by
  rw [plain.eq_def]

theorem plain_char (hc : c ≠ '%'.toUInt8) : plain (c :: fmt) = plain fmt := by
  rw [plain_cons, if_neg hc]

theorem plain_tag : plain ('%'.toUInt8 :: t :: rest) = ((conv t).isSome && plain rest) := by
  rw [plain_cons, if_pos rfl]

end Unfold

/-- Formats are gone through by characters, tags and a `%` at the end. -/
theorem format_induction {P : List UInt8 → Prop} (nil : P [])
    (char : ∀ c fmt, c ≠ '%'.toUInt8 → P fmt → P (c :: fmt)) (last : P ['%'.toUInt8])
    (tag : ∀ t rest, P rest → P ('%'.toUInt8 :: t :: rest)) : ∀ fmt, P fmt
  | [] => nil
  | c :: fmt => by
    by_cases hc : c = '%'.toUInt8
    · rw [hc]
      match fmt with
      | [] => exact last
      | t :: rest => exact tag t rest (format_induction nil char last tag rest)
    · exact char c fmt hc (format_induction nil char last tag fmt)

theorem conv_ne_percent {t : UInt8} (h : conv t = none) : t ≠ '%'.toUInt8 := by
  intro ht
  rw [ht] at h
  exact absurd h (by decide)

/-! ## The blocks are the expansion -/

theorem head_num {ap : List Arg} (h : [Kind.num] <+: ap.map Arg.kind) :
    ∃ x ap', ap = .num x :: ap' := by
  cases ap with
  | nil => simp at h
  | cons a ap' =>
    cases a with
    | num x => exact ⟨x, ap', rfl⟩
    | str s => simp [Arg.kind] at h

theorem head_str {ap : List Arg} (h : [Kind.str] <+: ap.map Arg.kind) :
    ∃ s ap', ap = .str s :: ap' := by
  cases ap with
  | nil => simp at h
  | cons a ap' =>
    cases a with
    | num x => simp [Arg.kind] at h
    | str s => exact ⟨s, ap', rfl⟩

/-- **Each case of the `switch`** outputs what its tag stands for. -/
theorem Conv.output_put (cv : Conv) {pb : FormattedBuffer} (h : pb.Ok) {ap : List Arg}
    (hk : cv.kind.toList <+: ap.map Arg.kind) :
    ∃ pb', cv.output pb ap = some (pb', UInt32.ofNat (cv.text ap).length, cv.rest ap) ∧
      Put pb pb' (cv.text ap) := by
  cases cv with
  | dec =>
    obtain ⟨x, ap', rfl⟩ := head_num hk
    obtain ⟨pb', hout, hput⟩ := decNumOutput_signed h x
    exact ⟨pb', by rw [Conv.output, hout]; rfl, hput⟩
  | unsigned =>
    obtain ⟨x, ap', rfl⟩ := head_num hk
    obtain ⟨pb', hout, hput⟩ := decNumOutput_unsigned h x
    exact ⟨pb', by rw [Conv.output, hout]; rfl, hput⟩
  | hexLower =>
    obtain ⟨x, ap', rfl⟩ := head_num hk
    obtain ⟨pb', hout, hput⟩ := hexNumOutput_put hexLo_writes h x
    exact ⟨pb', by rw [Conv.output, hout]; rfl, hput⟩
  | hexUpper =>
    obtain ⟨x, ap', rfl⟩ := head_num hk
    obtain ⟨pb', hout, hput⟩ := hexNumOutput_put hexUp_writes h x
    exact ⟨pb', by rw [Conv.output, hout]; rfl, hput⟩
  | pointer =>
    obtain ⟨x, ap', rfl⟩ := head_num hk
    obtain ⟨pb₁, hpre, hput⟩ := stringOutput_put (ascii "0x") h 0
    obtain ⟨pb₂, hout, hput'⟩ := hexNumOutput_put hexLo_writes hput.ok x
    refine ⟨pb₂, ?_, hput.trans hput'⟩
    rw [Conv.output, hpre, Option.bind_some, hout, Option.map_some, UInt32.zero_add, Conv.text,
      List.length_append, UInt32.ofNat_add]
    rfl
  | string =>
    obtain ⟨s, ap', rfl⟩ := head_str hk
    obtain ⟨pb', hout, hput⟩ := stringOutput_put s.chars h 0
    refine ⟨pb', ?_, hput⟩
    rw [Conv.output, hout, UInt32.zero_add]
    rfl
  | char =>
    obtain ⟨x, ap', rfl⟩ := head_num hk
    obtain ⟨pb', hout, hput⟩ := flush_put h x.toUInt8
    exact ⟨pb', by rw [Conv.output, hout]; rfl, hput⟩
  | percent =>
    obtain ⟨pb', hout, hput⟩ := flush_put h '%'.toUInt8
    exact ⟨pb', by rw [Conv.output, hout]; rfl, hput⟩

/-- After a tag, the arguments left match the rest of the format. -/
theorem matches_rest {cv : Conv} {ks : List Kind} {ap : List Arg}
    (h : cv.kind.toList ++ ks <+: ap.map Arg.kind) :
    cv.kind.toList <+: ap.map Arg.kind ∧ ks <+: (cv.rest ap).map Arg.kind := by
  obtain ⟨r, hr⟩ := h
  rw [List.append_assoc] at hr
  refine ⟨⟨ks ++ r, hr⟩, r, ?_⟩
  rw [Conv.rest, List.map_drop, ← hr, List.drop_left]

theorem ofNat_length_append (count : UInt32) (l l' : List UInt8) :
    count + UInt32.ofNat l.length + UInt32.ofNat l'.length =
      count + UInt32.ofNat (l ++ l').length := by
  rw [List.length_append, UInt32.ofNat_add, UInt32.add_assoc]

/-- **The loop** outputs the expansion with the characters of unsupported tags,
and counts it. -/
theorem logVprintf_eq (fmt : List UInt8) :
    ∀ {pb : FormattedBuffer} (_ : pb.Ok) (count : UInt32) {ap : List Arg}
      (_ : wants fmt <+: ap.map Arg.kind),
      ∃ pb', logVprintf pb count fmt ap =
          some (pb', count + UInt32.ofNat (expand true fmt ap).length) ∧
        Put pb pb' (expand true fmt ap) := by
  induction fmt using format_induction with
  | nil =>
    intro pb h count ap _
    exact ⟨pb, by simp [logVprintf, expand], Put.refl h⟩
  | char c fmt hc ih =>
    intro pb h count ap hm
    rw [wants_char hc] at hm
    obtain ⟨pb₁, hflush, hput⟩ := flush_put h c
    obtain ⟨pb₂, hrest, hput'⟩ := ih hput.ok (count + 1) hm
    refine ⟨pb₂, ?_, ?_⟩
    · rw [logVprintf_char pb count hc, hflush, Option.bind_some, hrest, expand_char hc]
      exact congrArg (fun n => some (pb₂, n))
        (ofNat_length_append count [c] (expand true fmt ap))
    · rw [expand_char hc]
      exact hput.trans hput'
  | last =>
    intro pb h count ap _
    obtain ⟨pb', hout, hput⟩ := stringOutput_put unsupportedTag h 0
    refine ⟨pb', ?_, ?_⟩
    · rw [logVprintf_end, hout, Option.map_some, expand_end, UInt32.zero_add]
    · rw [expand_end]
      exact hput
  | tag t rest ih =>
    intro pb h count ap hm
    cases ht : conv t with
    | some cv =>
      rw [wants_conv ht] at hm
      obtain ⟨hk, hrest⟩ := matches_rest hm
      obtain ⟨pb₁, hout, hput⟩ := cv.output_put h hk
      obtain ⟨pb₂, hloop, hput'⟩ := ih hput.ok (count + UInt32.ofNat (cv.text ap).length) hrest
      refine ⟨pb₂, ?_, ?_⟩
      · rw [logVprintf_conv pb count ht, hout, Option.bind_some, hloop, expand_conv ht,
          ofNat_length_append]
      · rw [expand_conv ht]
        exact hput.trans hput'
    | none =>
      -- the message, then the character of the tag as any other
      rw [wants_default ht] at hm
      obtain ⟨pb₁, hmsg, hput₁⟩ := stringOutput_put unsupportedTag h 0
      obtain ⟨pb₂, hflush, hput₂⟩ := flush_put hput₁.ok t
      obtain ⟨pb₃, hloop, hput₃⟩ :=
        ih hput₂.ok (count + UInt32.ofNat unsupportedTag.length + 1) hm
      refine ⟨pb₃, ?_, ?_⟩
      · rw [logVprintf_default pb count ht, hmsg, Option.bind_some, UInt32.zero_add,
          logVprintf_char pb₁ _ (conv_ne_percent ht), hflush, Option.bind_some, hloop,
          expand_kept ht, ← ofNat_length_append, ← ofNat_length_append]
        rfl
      · rw [expand_kept ht]
        exact (hput₁.trans hput₂).trans hput₃

theorem length_expand_le (fmt : List UInt8) :
    ∀ ap, (expand false fmt ap).length ≤ (expand true fmt ap).length := by
  induction fmt using format_induction with
  | nil =>
    intro ap
    simp [expand]
  | char c fmt hc ih =>
    intro ap
    have hrest := ih ap
    rw [expand_char hc, expand_char hc, List.length_cons, List.length_cons]
    omega
  | last =>
    intro ap
    rw [expand_end, expand_end]
  | tag t rest ih =>
    intro ap
    cases ht : conv t with
    | some cv =>
      have hrest := ih (cv.rest ap)
      rw [expand_conv ht, expand_conv ht, List.length_append, List.length_append]
      omega
    | none =>
      have hrest := ih ap
      rw [expand_kept ht, expand_dropped ht, List.length_append, List.length_append,
        List.length_append]
      omega

/-- The characters of unsupported tags are all that the expansions differ in. -/
theorem expand_eq_iff (fmt : List UInt8) :
    ∀ ap, expand true fmt ap = expand false fmt ap ↔ plain fmt = true := by
  induction fmt using format_induction with
  | nil =>
    intro ap
    simp [expand, plain]
  | char c fmt hc ih =>
    intro ap
    rw [expand_char hc, expand_char hc, plain_char hc, List.cons.injEq, ih ap]
    simp
  | last =>
    intro ap
    rw [expand_end, expand_end]
    simp [plain]
  | tag t rest ih =>
    intro ap
    rw [plain_tag]
    cases ht : conv t with
    | some cv =>
      rw [expand_conv ht, expand_conv ht, List.append_cancel_left_eq, ih (cv.rest ap)]
      simp
    | none =>
      have hle := length_expand_le rest ap
      constructor
      · intro heq
        rw [expand_kept ht, expand_dropped ht, List.append_assoc,
          List.append_cancel_left_eq] at heq
        have hlen := congrArg List.length heq
        rw [List.length_append, List.length_singleton] at hlen
        omega
      · intro hplain
        simp at hplain

/-! ## The count -/

/-- `stdio_output_string` outputs everything and returns its length. -/
def Honest (stdio : List (List UInt8) → UInt32) : Prop :=
  ∀ out b, stdio (out ++ [b]) = UInt32.ofNat b.length

theorem FormattedBuffer.Ok.length_text {pb : FormattedBuffer} (h : pb.Ok) :
    pb.text.length = 32 * pb.out.length + pb.pos := by
  have hblocks : pb.out.flatten.length = 32 * pb.out.length := by
    rw [List.length_flatten, List.map_congr_left h.full, List.map_const', List.sum_replicate_nat,
      Nat.mul_comm]
  have hpos := h.pos_lt
  rw [FormattedBuffer.text, List.length_append, hblocks, List.length_take, h.length_buf,
    Nat.min_eq_left hpos.le]

/-- **The blocks and the count.** The last, partial block is counted twice. -/
theorem logPrintf_eq (stdio : List (List UInt8) → UInt32) {buf : List UInt8}
    (hbuf : buf.length = 32) {fmt : CStr} {ap : List Arg} (hm : Matches fmt ap) :
    ∃ out ret, logPrintf stdio buf fmt ap = some (out, ret) ∧
      out.flatten = expand true fmt.chars ap ∧
      (Honest stdio → ret = (UInt32.ofNat
        ((expand true fmt.chars ap).length +
          (expand true fmt.chars ap).length % 32)).toInt32.toInt) := by
  have hstart : FormattedBuffer.Ok { pos := 0, buf := buf, out := [] } := by
    refine ⟨show 0 < 32 by decide, hbuf, ?_⟩
    intro b hb
    cases hb
  obtain ⟨pb, hloop, hput⟩ := logVprintf_eq fmt.chars hstart 0 hm
  have htext : pb.text = expand true fmt.chars ap := by
    rw [hput.text_eq]
    rfl
  have hlen := hput.ok.length_text
  rw [htext] at hlen
  have hmod : (expand true fmt.chars ap).length % 32 = pb.pos := by
    have hpos := hput.ok.pos_lt
    omega
  rw [logPrintf, hloop, Option.map_some, UInt32.zero_add, hmod]
  dsimp only
  by_cases hz : pb.pos = 0
  · refine ⟨_, _, by rw [if_neg (fun h => h hz)], ?_, fun _ => by rw [hz, Nat.add_zero]⟩
    rw [← htext, FormattedBuffer.text, hz, List.take_zero, List.append_nil]
  · refine ⟨_, _, by rw [if_pos hz], ?_, ?_⟩
    · rw [← htext, FormattedBuffer.text, List.flatten_append, List.flatten_singleton]
    · intro hs
      rw [hs, List.length_take, hput.ok.length_buf, Nat.min_eq_left hput.ok.pos_lt.le,
        UInt32.ofNat_add]

/-- A count with the last block in it twice is right if there is none. -/
theorem count_right_iff (n : Nat) :
    (UInt32.ofNat (n + n % 32)).toInt32.toInt = (n : Int) ↔ 32 ∣ n ∧ n < 2 ^ 31 := by
  obtain ⟨x, hx⟩ : ∃ x, x = UInt32.ofNat (n + n % 32) := ⟨_, rfl⟩
  have hnat : x.toNat = (n + n % 32) % 4294967296 := by
    rw [hx, UInt32.toNat_ofNat']
  have hcond : x.toInt32.toInt = if 2 * x.toNat < 2 ^ 32 then (x.toNat : Int)
      else (x.toNat : Int) - (2 ^ 32 : Nat) := BitVec.toInt_eq_toNat_cond x.toBitVec
  rw [← hx, hcond, Nat.dvd_iff_mod_eq_zero]
  split <;> omega

/-- **Output, and count.** The arrays are not left, and the blocks are the
expansion with the characters of unsupported tags. The blocks are the documented
expansion, and the returned value is its length, exactly for the formats without
an unsupported tag before the end whose expansion fills whole blocks. -/
theorem log_printf_right_iff (stdio : List (List UInt8) → UInt32) (buf : List UInt8)
    (hbuf : buf.length = 32) (fmt : CStr) (ap : List Arg) (hm : Matches fmt ap) :
    ∃ out ret, logPrintf stdio buf fmt ap = some (out, ret) ∧
      out.flatten = expand true fmt.chars ap ∧
      (out.flatten = expand false fmt.chars ap ↔ plain fmt.chars = true) ∧
      (Honest stdio →
        (ret = (out.flatten.length : Int) ↔
          32 ∣ out.flatten.length ∧ out.flatten.length < 2 ^ 31) ∧
        (out.flatten = expand false fmt.chars ap ∧ ret = (out.flatten.length : Int) ↔
          plain fmt.chars = true ∧ 32 ∣ (expand false fmt.chars ap).length ∧
            (expand false fmt.chars ap).length < 2 ^ 31)) := by
  obtain ⟨out, ret, hrun, hout, hret⟩ := logPrintf_eq stdio hbuf hm
  have hplain := expand_eq_iff fmt.chars ap
  refine ⟨out, ret, hrun, hout, by rw [hout]; exact hplain, ?_⟩
  intro hs
  rw [hret hs, hout]
  refine ⟨count_right_iff _, ?_⟩
  rw [hplain, count_right_iff]
  constructor
  · intro h
    rw [← hplain.mpr h.1]
    exact h
  · intro h
    rw [← hplain.mpr h.1] at h
    exact h

/-- A device that outputs all it is given. -/
def goodStdio (out : List (List UInt8)) : UInt32 := UInt32.ofNat (out.getLast?.getD []).length

theorem goodStdio_honest : Honest goodStdio := by
  intro out b
  rw [goodStdio, List.getLast?_concat]
  rfl

/-- `"n = %d"` with `INT32_MIN`. -/
def minFormat : CStr := ⟨ascii "n = %d", by decide⟩

theorem log_printf_right_iff_min :
    ∃ out ret, logPrintf goodStdio (List.replicate 32 0) minFormat [.num 0x80000000] =
        some (out, ret) ∧
      out.flatten = expand true minFormat.chars [.num 0x80000000] ∧
      (ret = (out.flatten.length : Int) ↔
        32 ∣ out.flatten.length ∧ out.flatten.length < 2 ^ 31) := by
  obtain ⟨out, ret, hrun, hout, -, hret⟩ := log_printf_right_iff goodStdio (List.replicate 32 0)
    List.length_replicate minFormat [.num 0x80000000] (by decide)
  exact ⟨out, ret, hrun, hout, (hret goodStdio_honest).1⟩

/-- One character is output and two are returned; the character of an
unsupported tag is output. -/
theorem one_character_counts_twice :
    logPrintf goodStdio (List.replicate 32 0) ⟨ascii "a", by decide⟩ [] =
        some ([ascii "a"], 2) ∧
      logPrintf goodStdio (List.replicate 32 0) ⟨ascii "%q", by decide⟩ [] =
        some ([ascii "[Unsupported Tag]q"], 36) := by
  decide +kernel

end Tfm.L4.LogRaw
