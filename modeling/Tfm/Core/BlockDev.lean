import Mathlib.Init

/-!
# Programs over a block device

A block device is a driver with five calls: `init`, `read`, `write`, `flush` and
`erase`. A program over it is a tree of calls, so that one program runs over any
device, can be stopped between any two of its calls, and can be reasoned about
once for many devices.

`Media` is the device the reasoning is about. A cell knows its byte, or does not
(`none`), and whether it was programmed since its block was last erased. `Rules`
say what a program may do on it: with `buffered`, writes go to one block at a
time until `flush`, and what is not written of that block is lost; with `once`,
a cell is programmed at most once between two erases. A program that keeps the
rules of a `Media` does the same on every device that follows it.

`wp r io s Q C` says that `io` keeps the rules from `s`, ends in `Q`, and that `C`
holds wherever the power is cut, inside of a write included.

Results: one rule for each construct, `Frame` (what a program leaves alone) and
its algebra, `Follows.run` and `Follows.cut`, from `Media` to a real device.
-/
namespace Tfm.BlockDev

inductive Op
  | init
  | read (b off n : Nat)
  | write (b off : Nat) (data : List UInt8)
  | flush
  | erase (b : Nat)
  deriving DecidableEq, Repr

inductive Io (ε α : Type)
  | ret (a : α)
  | call (o : Op) (k : Except ε (List UInt8) → Io ε α)

/-- The call is about a device of `blocks` blocks of `size` bytes. -/
def Op.Inside (blocks size : Nat) : Op → Prop
  | .init | .flush => True
  | .read b off n => b < blocks ∧ off + n ≤ size
  | .write b off data => b < blocks ∧ off + data.length ≤ size
  | .erase b => b < blocks

instance (blocks size : Nat) : (o : Op) → Decidable (o.Inside blocks size)
  | .init | .flush => isTrue trivial
  | .read b off n => inferInstanceAs (Decidable (b < blocks ∧ off + n ≤ size))
  | .write b off data => inferInstanceAs (Decidable (b < blocks ∧ off + data.length ≤ size))
  | .erase b => inferInstanceAs (Decidable (b < blocks))

section Io

variable {ε σ δ α β : Type}

def Io.bind : Io ε α → (α → Io ε β) → Io ε β
  | .ret a, f => f a
  | .call o k, f => .call o fun r => (k r).bind f

/-- A device: the answer to a call and the next state. -/
def Dev (ε δ : Type) : Type := δ → Op → Except ε (List UInt8) × δ

def Io.run (D : Dev ε δ) : Io ε α → δ → α × δ
  | .ret a, d => (a, d)
  | .call o k, d => (k (D d o).1).run D (D d o).2

theorem Io.run_bind (D : Dev ε δ) (f : α → Io ε β) : ∀ (io : Io ε α) (d : δ),
    (io.bind f).run D d = (f (io.run D d).1).run D (io.run D d).2 := by
  intro io
  induction io with
  | ret a => intro d; rfl
  | call o k ih => intro d; exact ih _ _

/-- The states in which a run can be when the power is cut: between two calls, or
inside of a call, of which `tear n` is what was done of it. -/
inductive Io.Cut (D : Dev ε δ) (tear : δ → Op → Nat → δ) : Io ε α → δ → δ → Prop
  | stop (io : Io ε α) (d : δ) : Cut D tear io d d
  | torn (o : Op) (k : Except ε (List UInt8) → Io ε α) (d : δ) (n : Nat) :
    Cut D tear (.call o k) d (tear d o n)
  | later {o : Op} {k : Except ε (List UInt8) → Io ε α} {d d' : δ}
    (h : Cut D tear (k (D d o).1) (D d o).2 d') : Cut D tear (.call o k) d d'

/-- A cut in a sequence is a cut in its first part or in the rest. -/
theorem Io.Cut.of_bind {D : Dev ε δ} {tear : δ → Op → Nat → δ} {f : α → Io ε β} :
    ∀ {io : Io ε α} {d d' : δ}, (io.bind f).Cut D tear d d' →
      io.Cut D tear d d' ∨ (f (io.run D d).1).Cut D tear (io.run D d).2 d' := by
  intro io
  induction io with
  | ret a => exact fun h => .inr h
  | call o k ih =>
    intro d d' h
    cases h with
    | stop => exact .inl (.stop _ _)
    | torn _ _ _ n => exact .inl (.torn o k d n)
    | later h => exact (ih _ h).imp .later id

theorem Io.Cut.bind {D : Dev ε δ} {tear : δ → Op → Nat → δ} {io : Io ε α} {d d' : δ}
    (h : io.Cut D tear d d') (f : α → Io ε β) : (io.bind f).Cut D tear d d' := by
  induction h with
  | stop io d => exact .stop _ d
  | torn o k d n => exact .torn o _ d n
  | later _ ih => exact .later ih

/-- A cut in the rest is a cut in the sequence. -/
theorem Io.Cut.append {D : Dev ε δ} {tear : δ → Op → Nat → δ} {f : α → Io ε β} :
    ∀ {io : Io ε α} {d d' : δ}, (f (io.run D d).1).Cut D tear (io.run D d).2 d' →
      (io.bind f).Cut D tear d d' := by
  intro io
  induction io with
  | ret a => exact id
  | call o k ih => exact fun h => .later (ih _ h)

/-- The state when the power is cut in call number `k`, of which `tear n` was done, or
at the end. -/
def Io.cutAt (D : Dev ε δ) (tear : δ → Op → Nat → δ) (k n : Nat) : Io ε α → δ → δ
  | .ret _, d => d
  | .call o f, d =>
    match k with
    | 0 => tear d o n
    | k + 1 => (f (D d o).1).cutAt D tear k n (D d o).2

theorem Io.cut_cutAt (D : Dev ε δ) (tear : δ → Op → Nat → δ) (n : Nat) (io : Io ε α) :
    ∀ (k : Nat) (d : δ), io.Cut D tear d (io.cutAt D tear k n d) := by
  induction io with
  | ret a =>
    intro k d
    unfold Io.cutAt
    exact .stop (.ret a) d
  | call o f ih =>
    intro k d
    unfold Io.cutAt
    cases k with
    | zero => exact .torn o f d n
    | succ k => exact .later (ih _ k _)

/-- The calls of a run. -/
def Io.calls (D : Dev ε δ) : Io ε α → δ → List Op
  | .ret _, _ => []
  | .call o k, d => o :: (k (D d o).1).calls D (D d o).2

theorem Io.calls_bind (D : Dev ε δ) (f : α → Io ε β) : ∀ (io : Io ε α) (d : δ),
    (io.bind f).calls D d = io.calls D d ++ (f (io.run D d).1).calls D (io.run D d).2
  | .ret _, _ => rfl
  | .call _ k, _ => congrArg (List.cons _) (Io.calls_bind D f (k _) _)

/-! ## Programs with a context in RAM -/

def Prog (ε σ α : Type) : Type := σ → Io ε (Except ε α × σ)

instance : Monad (Prog ε σ) where
  pure a := fun c => .ret (.ok a, c)
  bind m f := fun c => (m c).bind fun
    | (.ok a, c') => f a c'
    | (.error e, c') => .ret (.error e, c')

def get : Prog ε σ σ := fun c => .ret (.ok c, c)

def modify (f : σ → σ) : Prog ε σ Unit := fun c => .ret (.ok (), f c)

def throw (e : ε) : Prog ε σ α := fun c => .ret (.error e, c)

def call (o : Op) : Prog ε σ (List UInt8) := fun c => .call o fun r => .ret (r, c)

/-- Run `m` and hand its error to the caller. -/
def attempt (m : Prog ε σ α) : Prog ε σ (Except ε α) := fun c =>
  (m c).bind fun r => .ret (.ok r.1, r.2)

/-- Run `m`; every error of it is reported as `e`. -/
def recast (e : ε) (m : Prog ε σ α) : Prog ε σ α := fun c =>
  (m c).bind fun r => .ret (r.1.mapError fun _ => e, r.2)

end Io

/-! ## The device of the rules -/

structure Cell where
  val : Option UInt8
  prog : Bool
  deriving DecidableEq

structure Media where
  cell : Nat → Nat → Cell
  /-- the block whose writes are not flushed -/
  pend : Option Nat

structure Rules where
  blocks : Nat
  size : Nat
  ev : UInt8
  buffered : Bool
  once : Bool

namespace Rules

variable (r : Rules)

/-- Cells that are not written can turn into anything: a buffer programs them with
zeros. -/
def loose : Bool := r.buffered && r.ev != 0

def blank : Cell := ⟨some r.ev, false⟩

/-- What a cell that is not written holds when its block is programmed. -/
def fill : Option UInt8 := if r.loose then none else some r.ev

end Rules

namespace Media

variable (r : Rules) (s : Media)

def write (b off : Nat) (data : List UInt8) : Media where
  cell b' o :=
    if b' = b then
      if off ≤ o ∧ o < off + data.length then ⟨data[o - off]?, true⟩
      else if r.loose ∧ (s.cell b o).prog = false then ⟨none, false⟩ else s.cell b o
    else s.cell b' o
  pend := some b

def erase (b : Nat) : Media :=
  { s with cell := fun b' o => if b' = b then r.blank else s.cell b' o }

def tear : Op → Nat → Media
  | .write b off data, n => s.write r b off (data.take n)
  | _, _ => s

/-- No cell of the block was programmed. -/
def Fresh (b : Nat) : Prop := ∀ o, o < r.size → (s.cell b o).prog = false

/-- Writes to `b` are in turn. -/
def Open (b : Nat) : Prop := r.buffered → s.pend = some b ∨ s.pend = none ∧ s.Fresh r b

/-- Cell `o` of `b` holds `v`, also after more of the block is programmed. -/
def Has (b o : Nat) (v : UInt8) : Prop :=
  (s.cell b o).val = some v ∧ (r.loose → (s.cell b o).prog = true)

/-- The bytes `l` from `off` on. -/
def HasAll (b off : Nat) (l : List UInt8) : Prop :=
  ∀ i v, l[i]? = some v → s.Has r b (off + i) v

end Media

section Wp

variable {ε σ δ α β : Type} {r : Rules} {s : Media}

/-- What call `o` demands of `s`, and `K` of its answer and the next state. -/
def demand (r : Rules) (s : Media) (K : Except ε (List UInt8) → Media → Prop) : Op → Prop
  | .init => K (.ok []) s
  | .read b off n => b < r.blocks ∧ off + n ≤ r.size ∧ (r.buffered → s.pend ≠ some b) ∧
      ∀ l, l.length = n → (∀ i v, i < n → (s.cell b (off + i)).val = some v → l[i]? = some v) →
        K (.ok l) s
  | .write b off data => b < r.blocks ∧ off + data.length ≤ r.size ∧ s.Open r b ∧
      (r.once → ∀ i, i < data.length → (s.cell b (off + i)).prog = false) ∧
      K (.ok []) (s.write r b off data)
  | .flush => (r.buffered → s.pend ≠ none) ∧ K (.ok []) { s with pend := none }
  | .erase b => b < r.blocks ∧ (r.buffered → s.pend ≠ some b) ∧ K (.ok []) (s.erase r b)

theorem demand_mono {K K' : Except ε (List UInt8) → Media → Prop} {o : Op}
    (h : demand r s K o) (hK : ∀ x s', K x s' → K' x s') : demand r s K' o := by
  cases o with
  | init => exact hK _ _ h
  | read b off n => exact ⟨h.1, h.2.1, h.2.2.1, fun l hl hv => hK _ _ (h.2.2.2 l hl hv)⟩
  | write b off data => exact ⟨h.1, h.2.1, h.2.2.1, h.2.2.2.1, hK _ _ h.2.2.2.2⟩
  | flush => exact ⟨h.1, hK _ _ h.2⟩
  | erase b => exact ⟨h.1, h.2.1, hK _ _ h.2.2⟩

theorem demand_inside {K : Except ε (List UInt8) → Media → Prop} {o : Op} (h : demand r s K o) :
    o.Inside r.blocks r.size := by
  cases o with
  | init | flush => exact trivial
  | read | write => exact ⟨h.1, h.2.1⟩
  | erase => exact h.1

def Io.wp (r : Rules) (Q : α → Media → Prop) (C : Media → Prop) : Io ε α → Media → Prop
  | .ret a, s => Q a s ∧ C s
  | .call o k, s => (∀ n, C (s.tear r o n)) ∧ C s ∧ demand r s (fun x s' => (k x).wp r Q C s') o

theorem Io.wp_mono {Q Q' : α → Media → Prop} {C : Media → Prop}
    (hQ : ∀ a s', Q a s' → Q' a s') : ∀ (io : Io ε α) (s : Media), io.wp r Q C s →
      io.wp r Q' C s := by
  intro io
  induction io with
  | ret a => exact fun s h => ⟨hQ a s h.1, h.2⟩
  | call o k ih => exact fun s h => ⟨h.1, h.2.1, demand_mono h.2.2 fun x s' => ih x s'⟩

theorem Io.wp_bind {Q : β → Media → Prop} {C : Media → Prop} {f : α → Io ε β} :
    ∀ (io : Io ε α) (s : Media), io.wp r (fun a s' => (f a).wp r Q C s') C s →
      (io.bind f).wp r Q C s := by
  intro io
  induction io with
  | ret a => exact fun s h => h.1
  | call o k ih => exact fun s h => ⟨h.1, h.2.1, demand_mono h.2.2 fun x s' => ih x s'⟩

/-- `m` keeps the rules from the context `c` and `s`, ends in `Q`, and is in `C`
when the power is cut. -/
def wp (r : Rules) (m : Prog ε σ α) (c : σ) (s : Media) (Q : Except ε α → σ → Media → Prop)
    (C : Media → Prop) : Prop := (m c).wp r (fun x s' => Q x.1 x.2 s') C s

variable {c : σ} {Q : Except ε α → σ → Media → Prop} {C : Media → Prop}

theorem wp_pure {a : α} (h : Q (.ok a) c s) (hC : C s) : wp r (pure a) c s Q C := ⟨h, hC⟩

theorem wp_throw {e : ε} (h : Q (.error e) c s) (hC : C s) : wp r (throw e) c s Q C := ⟨h, hC⟩

theorem wp_bind {m : Prog ε σ β} {f : β → Prog ε σ α}
    (h : wp r m c s (fun x c' s' => match x with
      | .ok b => wp r (f b) c' s' Q C
      | .error e => Q (.error e) c' s' ∧ C s') C) : wp r (m >>= f) c s Q C := by
  apply Io.wp_bind
  refine Io.wp_mono ?_ _ _ h
  intro he s' hx
  obtain ⟨x, c'⟩ := he
  cases x with
  | ok b => exact hx
  | error e => exact hx

theorem wp_get {f : σ → Prog ε σ α} (h : wp r (f c) c s Q C) : wp r (get >>= f) c s Q C := h

theorem wp_modify {g : σ → σ} {f : Unit → Prog ε σ α} (h : wp r (f ()) (g c) s Q C) :
    wp r (modify g >>= f) c s Q C := h

theorem wp_mono {m : Prog ε σ α} {Q' : Except ε α → σ → Media → Prop} (h : wp r m c s Q C)
    (hQ : ∀ x c' s', Q x c' s' → Q' x c' s') : wp r m c s Q' C := by
  refine Io.wp_mono ?_ (m c) s h
  intro x s'
  exact hQ x.1 x.2 s'

theorem wp_attempt {m : Prog ε σ β} {Q : Except ε (Except ε β) → σ → Media → Prop}
    (h : wp r m c s (fun x c' s' => Q (.ok x) c' s' ∧ C s') C) : wp r (attempt m) c s Q C :=
  Io.wp_bind _ _ (Io.wp_mono (fun _ _ hx => hx) _ _ h)

theorem wp_recast {m : Prog ε σ α} {e : ε}
    (h : wp r m c s (fun x c' s' => Q (x.mapError fun _ => e) c' s' ∧ C s') C) :
    wp r (recast e m) c s Q C :=
  Io.wp_bind _ _ (Io.wp_mono (fun _ _ hx => hx) _ _ h)

theorem wp_call {o : Op} {Q : Except ε (List UInt8) → σ → Media → Prop}
    (ht : ∀ n, C (s.tear r o n)) (hC : C s) (h : demand r s (fun x s' => Q x c s' ∧ C s') o) :
    wp r (call o) c s Q C := ⟨ht, hC, h⟩

end Wp

/-! ## Frames -/

/-- The cells of `b` from `lo` up to `hi`. -/
def Reg (b lo hi : Nat) : Nat → Nat → Prop := fun b' o => b' = b ∧ lo ≤ o ∧ o < hi

/-- The cells of `b`. -/
def Whole (b : Nat) : Nat → Nat → Prop := fun b' _ => b' = b

/-- From `s` to `s'` only the cells of `W` were written or erased. The others keep
what they hold, but for cells that were never programmed, in the blocks of `W`. -/
structure Frame (r : Rules) (W : Nat → Nat → Prop) (s s' : Media) : Prop where
  prog : ∀ b o, ¬ W b o → (s'.cell b o).prog = (s.cell b o).prog
  same : ∀ b o, ¬ W b o → (r.loose → (s.cell b o).prog = true ∨ ∀ o', ¬ W b o') →
    s'.cell b o = s.cell b o

namespace Frame

variable {r : Rules} {W W' : Nat → Nat → Prop} {s s' s'' : Media}

theorem refl (s : Media) : Frame r W s s := ⟨fun _ _ _ => rfl, fun _ _ _ _ => rfl⟩

theorem of_cell (h : s'.cell = s.cell) : Frame r W s s' :=
  ⟨fun _ _ _ => by rw [h], fun _ _ _ _ => by rw [h]⟩

theorem trans (h : Frame r W s s') (h' : Frame r W s' s'') : Frame r W s s'' where
  prog b o hW := (h'.prog b o hW).trans (h.prog b o hW)
  same b o hW hl := by
    have he := h.same b o hW hl
    rw [← he]
    apply h'.same b o hW
    rw [he]
    exact hl

theorem mono (h : Frame r W s s') (hW : ∀ b o, W b o → W' b o) : Frame r W' s s' where
  prog b o hn := h.prog b o fun hw => hn (hW b o hw)
  same b o hn hl := h.same b o (fun hw => hn (hW b o hw)) fun hr =>
    (hl hr).imp id fun hu o' hw => hu o' (hW b o' hw)

/-- One part after the other. -/
theorem step (h : Frame r W s s') (h' : Frame r W' s' s'') (hW : ∀ b o, W' b o → W b o) :
    Frame r W s s'' := h.trans (h'.mono hW)

theorem join (h : Frame r W s s') (h' : Frame r W' s' s'') :
    Frame r (fun b o => W b o ∨ W' b o) s s'' :=
  (h.mono fun _ _ => .inl).step h' fun _ _ => .inr

theorem has (h : Frame r W s s') {b o : Nat} {v : UInt8} (hW : ¬ W b o) (hv : s.Has r b o v) :
    s'.Has r b o v := by
  have he := h.same b o hW fun hr => .inl (hv.2 hr)
  unfold Media.Has
  rw [he]
  exact hv

theorem hasAll (h : Frame r W s s') {b off : Nat} {l : List UInt8}
    (hW : ∀ i, i < l.length → ¬ W b (off + i)) (hl : s.HasAll r b off l) :
    s'.HasAll r b off l := by
  intro i v hi
  exact h.has (hW i (List.getElem?_eq_some_iff.mp hi).1) (hl i v hi)

/-- A block outside of `W`. -/
theorem block (h : Frame r W s s') {b : Nat} (hW : ∀ o, ¬ W b o) (o : Nat) :
    s'.cell b o = s.cell b o := h.same b o (hW o) fun _ => .inr hW

theorem write {b off : Nat} {l : List UInt8} (hl : ∀ o, off ≤ o → o < off + l.length → W b o)
    (hb : ∃ o, W b o) : Frame r W s (s.write r b off l) := by
  have hcell : ∀ b' o, ¬ W b' o → (s.write r b off l).cell b' o =
      if b' = b ∧ r.loose = true ∧ (s.cell b o).prog = false then ⟨none, false⟩
      else s.cell b' o := by
    intro b' o hW
    by_cases hne : b' = b
    · subst hne
      have hr : ¬ (off ≤ o ∧ o < off + l.length) := fun h => hW (hl o h.1 h.2)
      simp only [Media.write, if_true, if_neg hr, true_and]
    · simp only [Media.write, hne, false_and, if_false]
  constructor
  · intro b' o hW
    rw [hcell b' o hW]
    split
    · next h =>
      rw [h.1]
      exact h.2.2.symm
    · rfl
  · intro b' o hW hlo
    rw [hcell b' o hW, if_neg]
    intro hx
    obtain ⟨rfl, hr, hp⟩ := hx
    obtain ⟨o', ho'⟩ := hb
    rcases hlo hr with h | h
    · rw [hp] at h
      cases h
    · exact h o' ho'

theorem erase {b : Nat} (hb : ∀ o, W b o) : Frame r W s (s.erase r b) := by
  have hcell : ∀ b' o, ¬ W b' o → (s.erase r b).cell b' o = s.cell b' o := by
    intro b' o hW
    have hne : b' ≠ b := fun h => hW (h ▸ hb o)
    simp only [Media.erase, if_neg hne]
  exact ⟨fun b' o hW => by rw [hcell b' o hW], fun b' o hW _ => hcell b' o hW⟩

end Frame

/-- `n` bytes from `off` of `b` can be read. -/
structure CanRead (r : Rules) (s : Media) (b off n : Nat) : Prop where
  block : b < r.blocks
  room : off + n ≤ r.size
  quiet : r.buffered → s.pend ≠ some b

/-- `n` bytes from `off` of `b` can be written. -/
structure CanWrite (r : Rules) (s : Media) (b off n : Nat) : Prop where
  block : b < r.blocks
  room : off + n ≤ r.size
  opened : s.Open r b
  once : r.once → ∀ i, i < n → (s.cell b (off + i)).prog = false

namespace CanWrite

variable {r : Rules} {s s' : Media} {b off n : Nat}

theorem part (h : CanWrite r s b off n) {o m : Nat} (h1 : off ≤ o)
    (h2 : o + m ≤ off + n) : CanWrite r s b o m where
  block := h.block
  room := Nat.le_trans h2 h.room
  opened := h.opened
  once ho i hi := by
    have := h.once ho (o - off + i) (by omega)
    rwa [← Nat.add_assoc, Nat.add_sub_cancel' h1] at this

/-- Still, after writing other cells. -/
theorem kept (h : CanWrite r s b off n) {W : Nat → Nat → Prop} (hf : Frame r W s s')
    (hW : ∀ i, i < n → ¬ W b (off + i)) (hp : r.buffered → s'.pend = some b) :
    CanWrite r s' b off n where
  block := h.block
  room := h.room
  opened hb := .inl (hp hb)
  once ho i hi := by
    rw [hf.prog b (off + i) (hW i hi)]
    exact h.once ho i hi

theorem after (h : CanWrite r s b off n) {W : Nat → Nat → Prop} (hf : Frame r W s s')
    (hW : ∀ i, i < n → ¬ W b (off + i)) (hp : s'.pend = some b) : CanWrite r s' b off n :=
  h.kept hf hW fun _ => hp

end CanWrite

section Calls

variable {ε σ : Type} {r : Rules} {s : Media} {c : σ}
  {Q : Except ε (List UInt8) → σ → Media → Prop} {C : Media → Prop}

theorem wp_init (hC : C s) (hQ : Q (.ok []) c s) : wp r (call .init) c s Q C :=
  wp_call (fun _ => hC) hC ⟨hQ, hC⟩

theorem wp_read {b off n : Nat} (h : CanRead r s b off n) (hC : C s)
    (hQ : ∀ l : List UInt8, l.length = n →
      (∀ i v, i < n → (s.cell b (off + i)).val = some v → l[i]? = some v) → Q (.ok l) c s) :
    wp r (call (.read b off n)) c s Q C :=
  wp_call (fun _ => hC) hC ⟨h.block, h.room, h.quiet, fun l hl hv => ⟨hQ l hl hv, hC⟩⟩

theorem hasAll_write (r : Rules) (s : Media) (b off : Nat) (data : List UInt8) :
    (s.write r b off data).HasAll r b off data := by
  intro i v hi
  have hlt := (List.getElem?_eq_some_iff.mp hi).1
  have hin : off ≤ off + i ∧ off + i < off + data.length := by omega
  have hcell : (s.write r b off data).cell b (off + i) = ⟨some v, true⟩ := by
    simp only [Media.write, if_true, if_pos hin, Nat.add_sub_cancel_left, hi]
  exact ⟨by rw [hcell], fun _ => by rw [hcell]⟩

theorem wp_write {b off : Nat} {data : List UInt8} (h : CanWrite r s b off data.length)
    (hpos : 0 < data.length)
    (hC : ∀ s', Frame r (Reg b off (off + data.length)) s s' → C s')
    (hQ : ∀ s', Frame r (Reg b off (off + data.length)) s s' → s'.HasAll r b off data →
      s'.pend = some b → Q (.ok []) c s') :
    wp r (call (.write b off data)) c s Q C := by
  have hne : ∃ o, Reg b off (off + data.length) b o := ⟨off, rfl, by omega, by omega⟩
  have hframe : ∀ n, Frame r (Reg b off (off + data.length)) s
      (s.write r b off (data.take n)) := by
    intro n
    apply Frame.write _ hne
    intro o h1 h2
    rw [List.length_take] at h2
    exact ⟨rfl, h1, by omega⟩
  have hfull := hframe data.length
  rw [List.take_length] at hfull
  exact wp_call (fun n => hC _ (hframe n)) (hC s (.refl s))
    ⟨h.block, h.room, h.opened, h.once, hQ _ hfull (hasAll_write r s b off data) rfl, hC _ hfull⟩

theorem wp_flush (hp : r.buffered → s.pend ≠ none) (hC : C s) (hC' : C { s with pend := none })
    (hQ : Q (.ok []) c { s with pend := none }) : wp r (call .flush) c s Q C :=
  wp_call (fun _ => hC) hC ⟨hp, hQ, hC'⟩

theorem wp_erase {b : Nat} (hb : b < r.blocks) (hp : r.buffered → s.pend ≠ some b)
    (hC : ∀ s', Frame r (Whole b) s s' → (s' = s ∨ ∀ o, s'.cell b o = r.blank) → C s')
    (hQ : ∀ s', Frame r (Whole b) s s' → (∀ o, s'.cell b o = r.blank) → s'.pend = s.pend →
      Q (.ok []) c s') :
    wp r (call (.erase b)) c s Q C := by
  have hf : Frame r (Whole b) s (s.erase r b) := .erase fun _ => rfl
  have hblank : ∀ o, (s.erase r b).cell b o = r.blank := fun o => by simp [Media.erase]
  have hs : C s := hC s (.refl s) (.inl rfl)
  exact wp_call (fun _ => hs) hs ⟨hb, hp, hQ _ hf hblank rfl, hC _ hf (.inr hblank)⟩

end Calls

/-! ## Real devices -/

section Follows

variable {ε σ δ α : Type} {r : Rules} {D : Dev ε δ} {R : δ → Media → Prop}

/-- Under `R`, the device does what `Media` does, as long as the rules are kept. -/
structure Follows (r : Rules) (D : Dev ε δ) (R : δ → Media → Prop) : Prop where
  step : ∀ {d s o} {K : Except ε (List UInt8) → Media → Prop}, R d s → demand r s K o →
    ∃ s', K (D d o).1 s' ∧ R (D d o).2 s'

theorem Follows.io_run (hD : Follows r D R) {Q : α → Media → Prop} {C : Media → Prop} :
    ∀ (io : Io ε α) {d s}, R d s → io.wp r Q C s →
      ∃ s', Q (io.run D d).1 s' ∧ R (io.run D d).2 s' := by
  intro io
  induction io with
  | ret a => exact fun hR h => ⟨_, h.1, hR⟩
  | call o k ih =>
    intro d s hR h
    obtain ⟨s', hk, hR'⟩ := hD.step hR h.2.2
    exact ih _ hR' hk

theorem Follows.run (hD : Follows r D R) {m : Prog ε σ α} {c : σ} {d : δ} {s : Media}
    {Q : Except ε α → σ → Media → Prop} {C : Media → Prop} (hR : R d s) (h : wp r m c s Q C) :
    ∃ s', Q ((m c).run D d).1.1 ((m c).run D d).1.2 s' ∧ R ((m c).run D d).2 s' :=
  hD.io_run (m c) hR h

/-- A program that keeps the rules stays inside of the device. -/
theorem Follows.io_calls (hD : Follows r D R) {Q : α → Media → Prop} {C : Media → Prop} :
    ∀ (io : Io ε α) {d s}, R d s → io.wp r Q C s →
      ∀ o ∈ io.calls D d, o.Inside r.blocks r.size := by
  intro io
  induction io with
  | ret a => exact fun _ _ _ ho => nomatch ho
  | call o k ih =>
    intro d s hR h o' ho'
    obtain ⟨s', hk, hR'⟩ := hD.step hR h.2.2
    rcases List.mem_cons.mp ho' with rfl | ho'
    · exact demand_inside h.2.2
    · exact ih _ hR' hk o' ho'

theorem Follows.calls (hD : Follows r D R) {m : Prog ε σ α} {c : σ} {d : δ} {s : Media}
    {Q : Except ε α → σ → Media → Prop} {C : Media → Prop} (hR : R d s) (h : wp r m c s Q C) :
    ∀ o ∈ (m c).calls D d, o.Inside r.blocks r.size := hD.io_calls (m c) hR h

theorem Follows.io_cut (hD : Follows r D R) {tear : δ → Op → Nat → δ}
    (ht : ∀ {d s o} {K : Except ε (List UInt8) → Media → Prop} n, R d s → demand r s K o →
      R (tear d o n) (s.tear r o n)) {Q : α → Media → Prop} {C : Media → Prop} {io : Io ε α}
    {d d' : δ} (hcut : io.Cut D tear d d') :
    ∀ {s}, R d s → io.wp r Q C s → ∃ s', C s' ∧ R d' s' := by
  induction hcut with
  | stop io d =>
    intro s hR h
    cases io with
    | ret a => exact ⟨s, h.2, hR⟩
    | call o k => exact ⟨s, h.2.1, hR⟩
  | torn o k d n => exact fun hR h => ⟨_, h.1 n, ht n hR h.2.2⟩
  | later _ ih =>
    intro s hR h
    obtain ⟨s', hk, hR'⟩ := hD.step hR h.2.2
    exact ih hR' hk

theorem Follows.cut (hD : Follows r D R) {tear : δ → Op → Nat → δ}
    (ht : ∀ {d s o} {K : Except ε (List UInt8) → Media → Prop} n, R d s → demand r s K o →
      R (tear d o n) (s.tear r o n)) {m : Prog ε σ α} {c : σ} {d d' : δ} {s : Media}
    {Q : Except ε α → σ → Media → Prop} {C : Media → Prop} (hR : R d s) (h : wp r m c s Q C)
    (hcut : (m c).Cut D tear d d') : ∃ s', C s' ∧ R d' s' :=
  hD.io_cut ht hcut hR h

end Follows

end Tfm.BlockDev
