import Mathlib.Data.Int.Bitwise
import Tfm.L4Service.Spm

/-!
# Static handles of stateless services

`process_stateless_services` (tools/tfm_parse_manifest_list.py) collects the stateless
services of the FF-M 1.1 IPC partitions and gives each a handle. A service may ask for a
value; it then goes to the place of the list with the index one below. The others take the
free places in order. The handle in the list is a text that the SPM's header macros decode
(secure_fw/spm/cmsis_psa/spm_ipc.h).

The first loop removes services from the list it goes through, with `list.remove`: a service
after one that was removed is passed over, and what is removed is the first service that is
equal. Every service of the manifests is a dictionary of its own (`Obj`). The second loop
changes the handles; `field` is what `stateless_handle` holds then.

Results:
* `word_encode`: what the macros give for an encoded handle.
-/
namespace Tfm.L1.Handles

/-- `stateless_handle` in a manifest. -/
inductive Asked
  | auto
  | value (z : Int)
  deriving DecidableEq, Repr

/-- A service of a manifest; `other` are its further entries. -/
structure Service (α : Type) where
  connectionBased : Option Bool
  statelessHandle : Asked
  version : Nat
  other : α
  deriving DecidableEq, Repr

/-- A partition with its manifest; the version is in tenths. -/
structure Partition (α : Type) where
  psaFrameworkVersion : Nat
  tfmPartitionIpc : Bool
  services : List (Service α)
  deriving DecidableEq, Repr

/-- A service as an object: two of them may be equal as dictionaries. -/
structure Obj (α : Type) where
  ident : Nat
  service : Service α
  deriving DecidableEq, Repr

/-- `stateless_handle` of an object; `text v` is `'0x%08x' % v`. -/
inductive Field
  | asked (a : Asked)
  | text (v : Int)
  deriving DecidableEq, Repr

/-- What is raised. -/
inductive Raised
  | connectionBasedMandatory
  | numbersRangeExceed
  | duplicatedHandle
  | indexOutOfRange
  | typeError
  deriving DecidableEq, Repr

variable {α : Type}

/-! ## The script -/

def Partition.ffm11Ipc (p : Partition α) : Bool :=
  decide (11 ≤ p.psaFrameworkVersion) && p.tfmPartitionIpc

/-- The services of the FF-M 1.1 IPC partitions. -/
def services (ps : List (Partition α)) : List (Service α) :=
  (ps.filter Partition.ffm11Ipc).flatMap Partition.services

/-- mirrors tools/tfm_parse_manifest_list.py:198-202 -/
def collect : List (Service α) → Except Raised (List (Service α))
  | [] => .ok []
  | v :: l =>
    match v.connectionBased with
    | none => .error .connectionBasedMandatory
    | some b => (collect l).map fun l' => if b then l' else v :: l'

def objects (l : List (Service α)) : List (Obj α) := l.zipIdx.map fun v => ⟨v.2, v.1⟩

/-- The place that index `z` of a list of length `n` stands for; `none` is `IndexError`. -/
def pyIndex (n : Nat) (z : Int) : Option Nat :=
  if 0 ≤ z then if z < n then some z.toNat else none
  else if -n ≤ z then some (z + n).toNat else none

/-- A turn of the first loop for a service that asks for a value.
mirrors tools/tfm_parse_manifest_list.py:224-229 -/
def place (n : Nat) (slots : Nat → Option (Obj α)) (x : Obj α) (z : Int) :
    Except Raised (Nat → Option (Obj α)) :=
  match pyIndex n (z - 1) with
  | none => .error .indexOutOfRange
  | some j =>
    if (slots j).isSome then .error .duplicatedHandle
    else .ok (Function.update slots j (some x))

/-- `list.remove` -/
def removeEq [DecidableEq α] (x : Obj α) (l : List (Obj α)) : List (Obj α) :=
  l.eraseP fun y => decide (y.service = x.service)

/-- The first loop at index `i`; `fuel` is the length of the list at the start.
mirrors tools/tfm_parse_manifest_list.py:221-231 -/
def fill [DecidableEq α] (n : Nat) : Nat → Nat → List (Obj α) → (Nat → Option (Obj α)) →
    Except Raised (List (Obj α) × (Nat → Option (Obj α)))
  | 0, _, left, slots => .ok (left, slots)
  | fuel + 1, i, left, slots =>
    match left[i]? with
    | none => .ok (left, slots)
    | some x =>
      match x.service.statelessHandle with
      | .auto => fill n fuel (i + 1) left slots
      | .value z =>
        match place n slots x z with
        | .error e => .error e
        | .ok slots' => fill n fuel (i + 1) (removeEq x left) slots'

/-- The lists and the handles in the second loop. -/
structure Alloc (α : Type) where
  left : List (Obj α)
  slots : Nat → Option (Obj α)
  field : Obj α → Field

/-- mirrors tools/tfm_parse_manifest_list.py:235-238 -/
def pop [DecidableEq α] (i : Nat) (s : Alloc α) : Alloc α :=
  match s.slots i, s.left with
  | none, x :: l =>
    { left := l
      slots := Function.update s.slots i (some x)
      field := Function.update s.field x (.asked (.value (i + 1))) }
  | _, _ => s

/-- The stateless flag and the version are put into a handle. -/
def encode (version : Nat) (z : Int) : Int :=
  Int.lor (Int.lor z (2 ^ 30 : Nat)) (((version &&& 0xff) <<< 8 : Nat) : Int)

/-- A handle that is a string already raises.
mirrors tools/tfm_parse_manifest_list.py:245-251 -/
def stamp [DecidableEq α] (i : Nat) (s : Alloc α) : Except Raised (Alloc α) :=
  match s.slots i with
  | none => .ok s
  | some x =>
    match s.field x with
    | .asked (.value z) =>
      .ok { s with field := Function.update s.field x (.text (encode x.service.version z)) }
    | _ => .error .typeError

/-- The second loop. -/
def allocate [DecidableEq α] (n : Nat) (s : Alloc α) : Except Raised (Alloc α) :=
  (List.range n).foldlM (fun s i => stamp i (pop i s)) s

def asked (x : Obj α) : Field := .asked x.service.statelessHandle

/-- The list that is returned and the handles of the services in it.
mirrors tools/tfm_parse_manifest_list.py:178-253 -/
def processStatelessServices [DecidableEq α] (ps : List (Partition α)) (n : Nat) :
    Except Raised (List (Option (Obj α)) × (Obj α → Field)) :=
  match collect (services ps) with
  | .error e => .error e
  | .ok l =>
    if l.length = 0 then .ok ([], asked)
    else if n < l.length then .error .numbersRangeExceed
    else
      match fill n l.length 0 (objects l) fun _ => none with
      | .error e => .error e
      | .ok (left, slots) =>
        match allocate n ⟨left, slots, asked⟩ with
        | .error e => .error e
        | .ok s => .ok ((List.range n).map s.slots, s.field)

/-! ## The header -/

/-- mirrors secure_fw/spm/cmsis_psa/spm_ipc.h:41-44 -/
def getIndexFromStaticHandle (h : UInt32) : UInt32 := (h &&& 0xff) - 1

/-- mirrors secure_fw/spm/cmsis_psa/spm_ipc.h:46-51 -/
def getVersionFromStaticHandle (h : UInt32) : UInt32 := (h >>> 8) &&& 0xff

/-- `limit` is `STATIC_HANDLE_NUM_LIMIT`.
mirrors secure_fw/spm/cmsis_psa/spm_ipc.h:53-60 -/
def isValidStaticHandle (limit : Nat) (h : UInt32) : Bool :=
  h &&& 0x40000000 != 0 && decide ((getIndexFromStaticHandle h).toNat < limit)

/-- The 32-bit word that the text is in C; a text with a sign is none. -/
def Field.word : Field → Option UInt32
  | .text v => if 0 ≤ v then some (UInt32.ofNat v.toNat) else none
  | .asked _ => none

/-- The SPM's own reading of a handle, at its limit. -/
theorem staticIndex_eq (h : UInt32) :
    (Tfm.L4.Spm.staticIndex h).map Fin.val =
      if isValidStaticHandle 32 h then some (getIndexFromStaticHandle h).toNat else none := by
  unfold Tfm.L4.Spm.staticIndex isValidStaticHandle getIndexFromStaticHandle
  by_cases hf : h &&& 0x40000000 = 0
  · simp [hf]
  · by_cases hi : ((h &&& 0xff) - 1).toNat < 32
    · simp [hf, hi]
    · simp [hf, hi]

theorem staticVersion_eq (h : UInt32) :
    Tfm.L4.Spm.staticVersion h = (getVersionFromStaticHandle h).toNat := rfl

theorem encode_eq {version i : Nat} (hv : version < 256) (hi : i < 255) :
    encode version (i + 1) = ((2 ^ 30 + 2 ^ 8 * version + (i + 1) : Nat) : Int) := by
  have hand : version &&& 0xff = version := by
    rw [show 0xff = 2 ^ 8 - 1 from rfl, Nat.and_two_pow_sub_one_of_lt_two_pow hv]
  have hlor : ∀ a b : Nat, Int.lor a b = ((a ||| b : Nat) : Int) := fun _ _ => rfl
  have hnat : (i + 1) ||| 2 ^ 30 ||| (version <<< 8) = 2 ^ 30 + 2 ^ 8 * version + (i + 1) := by
    have hlow := Nat.two_pow_add_eq_or_of_lt (i := 8) (by omega : i + 1 < 2 ^ 8) version
    have hhigh := Nat.two_pow_add_eq_or_of_lt (i := 30)
      (by omega : 2 ^ 8 * version + (i + 1) < 2 ^ 30) 1
    calc (i + 1) ||| 2 ^ 30 ||| (version <<< 8)
        = 2 ^ 30 * 1 ||| (2 ^ 8 * version ||| (i + 1)) := by
          rw [Nat.shiftLeft_eq, Nat.mul_comm version, Nat.mul_one, Nat.or_comm (i + 1),
            Nat.or_assoc, Nat.or_comm (i + 1)]
      _ = 2 ^ 30 + 2 ^ 8 * version + (i + 1) := by rw [← hlow, ← hhigh]; omega
  rw [encode, hand, ← Int.natCast_succ, hlor, hlor, hnat]

/-- The handle at place `i` is valid, and the macros give the place and the version. -/
theorem word_encode {n version i : Nat} (hn : n ≤ 255) (hv : version < 256) (hi : i < n) :
    ∃ w, (Field.text (encode version (i + 1))).word = some w ∧
      isValidStaticHandle n w = true ∧ (getIndexFromStaticHandle w).toNat = i ∧
      (getVersionFromStaticHandle w).toNat = version := by
  obtain ⟨w, hw⟩ : ∃ w : UInt32, w = UInt32.ofNat (2 ^ 30 + 2 ^ 8 * version + (i + 1)) := ⟨_, rfl⟩
  have hnat : w.toNat = 2 ^ 30 + 2 ^ 8 * version + (i + 1) := by
    rw [hw, UInt32.toNat_ofNat', Nat.mod_eq_of_lt]
    omega
  have hlow : (w &&& 0xff).toNat = i + 1 := by
    rw [UInt32.toNat_and, show (0xff : UInt32).toNat = 2 ^ 8 - 1 from rfl,
      Nat.and_two_pow_sub_one_eq_mod, hnat]
    omega
  have hidx : (getIndexFromStaticHandle w).toNat = i := by
    have hle : (1 : UInt32) ≤ w &&& 0xff := by
      rw [UInt32.le_iff_toNat_le, hlow]
      exact Nat.succ_pos i
    rw [getIndexFromStaticHandle, UInt32.toNat_sub_of_le _ _ hle, hlow]
    rfl
  have hver : (getVersionFromStaticHandle w).toNat = version := by
    rw [getVersionFromStaticHandle, UInt32.toNat_and, UInt32.toNat_shiftRight,
      show (0xff : UInt32).toNat = 2 ^ 8 - 1 from rfl, Nat.and_two_pow_sub_one_eq_mod,
      show (8 : UInt32).toNat % 32 = 8 from rfl, Nat.shiftRight_eq_div_pow, hnat]
    omega
  have hflag : w &&& 0x40000000 ≠ 0 := by
    intro h
    have hbit := congrArg (fun x : UInt32 => x.toNat.testBit 30) h
    have hset : w.toNat.testBit 30 = true := by
      rw [Nat.testBit_eq_decide_div_mod_eq, hnat, decide_eq_true_eq]
      omega
    rw [UInt32.toNat_and, Nat.testBit_and, hset] at hbit
    cases hbit
  refine ⟨w, ?_, ?_, hidx, hver⟩
  · rw [encode_eq hv (by omega), Field.word, if_pos (Int.natCast_nonneg _), Int.toNat_natCast, hw]
  · simp [isValidStaticHandle, hflag, hidx, hi]

end Tfm.L1.Handles
