import Tfm.Core.Within

/-!
# Devices whose calls fail

`D.Imitates D' look` says that a call of `D` that succeeds does what it does to `D'`, in the
state that `look` shows. Nothing is said of a call that fails: a device that fails at will
imitates one that does not.

`D.marked` remembers whether a call failed. `KeepsOr` is for programs that stop where one
does: it has a state for the end that returns something, and one for the end that fails.

Results: `Io.run_imitates`, a run without a call that failed; `Io.run_marked`; one rule for
each construct for `KeepsOr`; `failing_imitates`.
-/
namespace Tfm.BlockDev

section Imitates

variable {ε δ δ' α β : Type} {D : Dev ε δ} {D' : Dev ε δ'} {look : δ → δ'}

def Dev.Imitates (D : Dev ε δ) (D' : Dev ε δ') (look : δ → δ') : Prop :=
  ∀ d o l, (D d o).1 = .ok l → D' (look d) o = (.ok l, look (D d o).2)

/-- No call of the run fails. -/
def Io.allOk (D : Dev ε δ) : Io ε α → δ → Bool
  | .ret _, _ => true
  | .call o k, d => (D d o).1.isOk && (k (D d o).1).allOk D (D d o).2

theorem Io.run_imitates (hD : D.Imitates D' look) : ∀ (io : Io ε α) (d : δ),
    io.allOk D d = true → io.run D' (look d) = ((io.run D d).1, look (io.run D d).2) := by
  intro io
  induction io with
  | ret a => exact fun _ _ => rfl
  | call o k ih =>
    intro d hok
    simp only [Io.allOk, Bool.and_eq_true] at hok
    obtain ⟨hcall, hrest⟩ := hok
    cases hr : (D d o).1 with
    | ok l =>
      have hstep := hD d o l hr
      have hlater := ih _ _ hrest
      rw [hr] at hlater
      simp only [Io.run, hstep, hr]
      exact hlater
    | error e =>
      rw [hr] at hcall
      cases hcall

/-- The device `D`, whose call number `n` answers the error `e` if `F n` holds, and does nothing.
It counts the calls. -/
def Dev.failing (D : Dev ε δ) (e : ε) (F : Nat → Bool) : Dev ε (δ × Nat) := fun d o =>
  if F d.2 then (.error e, (d.1, d.2 + 1)) else ((D d.1 o).1, ((D d.1 o).2, d.2 + 1))

theorem failing_imitates {e : ε} {F : Nat → Bool} : (D.failing e F).Imitates D Prod.fst := by
  intro d o l hl
  unfold Dev.failing at hl ⊢
  split at hl
  · cases hl
  · next hF =>
    rw [if_neg hF]
    exact Prod.ext hl rfl

end Imitates

/-! ## Which calls failed -/

section Marked

variable {ε δ α : Type}

/-- The device `D` with a mark that stays as long as no call fails. -/
def Dev.marked (D : Dev ε δ) : Dev ε (δ × Bool) := fun d o =>
  ((D d.1 o).1, (D d.1 o).2, d.2 && (D d.1 o).1.isOk)

theorem Io.run_marked (D : Dev ε δ) : ∀ (io : Io ε α) (d : δ) (b : Bool),
    io.run D.marked (d, b) = ((io.run D d).1, (io.run D d).2, b && io.allOk D d) := by
  intro io
  induction io with
  | ret a => exact fun d b => by simp only [Io.run, Io.allOk, Bool.and_true]
  | call o k ih =>
    intro d b
    refine (ih _ _ _).trans ?_
    simp only [Io.run, Io.allOk, Bool.and_assoc]
    rfl

end Marked

/-! ## Programs that stop where a call fails -/

section Returns

variable {ε σ δ α β : Type} {D : Dev ε δ} {P : Op → Prop} {K : σ → δ → Prop} {J : ε → σ → δ → Prop}
  {R : α → Prop} {S : β → Prop}

/-- The end is in `K` where something is returned, and in `J` where it is not. -/
def Returns (K : α → σ → δ → Prop) (J : ε → σ → δ → Prop) : Except ε α → σ → δ → Prop
  | .ok a => K a
  | .error e => J e

theorem leads_seq {K₁ : β → σ → δ → Prop} {K₂ : α → σ → δ → Prop} {m : Prog ε σ β}
    {f : β → Prog ε σ α} (h : Leads D P K m (Returns K₁ J))
    (hf : ∀ b, Leads D P (K₁ b) (f b) (Returns K₂ J)) : Leads D P K (m >>= f) (Returns K₂ J) :=
  Leads.bind h (fun _ _ _ => id) hf

/-- From every state in `K`, `m` ends in `K` and returns what has `R`, or fails in `J`. -/
abbrev KeepsOr (D : Dev ε δ) (P : Op → Prop) (K : σ → δ → Prop) (J : ε → σ → δ → Prop)
    (m : Prog ε σ α) (R : α → Prop) : Prop :=
  Leads D P K m (Returns (fun a x d => K x d ∧ R a) J)

theorem keepsOr_pure {a : α} (h : R a) : KeepsOr D P K J (pure a) R :=
  leads_pure fun _ _ hK => ⟨hK, h⟩

theorem keepsOr_throw {e : ε} (h : ∀ x d, K x d → J e x d) : KeepsOr D P K J (throw e) R :=
  leads_throw h

theorem keepsOr_bind {m : Prog ε σ β} {f : β → Prog ε σ α} (h : KeepsOr D P K J m S)
    (hf : ∀ b, S b → KeepsOr D P K J (f b) R) : KeepsOr D P K J (m >>= f) R :=
  leads_seq h fun b => leads_assume (fun _ _ hS => hS.2) fun hS => (hf b hS).from fun _ _ hK => hK.1

theorem KeepsOr.weaken {J' : ε → σ → δ → Prop} {m : Prog ε σ α} (h : KeepsOr D P K J m R)
    (hJ : ∀ e x d, J e x d → J' e x d) : KeepsOr D P K J' m R :=
  h.mono fun r x d hr => by
    cases r with
    | ok a => exact hr
    | error e => exact hJ e x d hr

theorem keepsOr_recast {m : Prog ε σ α} {e : ε} (h : KeepsOr D P K (fun _ => J e) m R) :
    KeepsOr D P K J (recast e m) R := by
  refine leads_recast (h.mono fun r x d hr => ?_)
  cases r with
  | ok a => exact hr
  | error e' => exact hr

/-- Where the first part fails, the rest is not run. -/
theorem run_error {m : Prog ε σ β} {f : β → Prog ε σ α} {x x' : σ} {d d' : δ} {e : ε}
    (h : (m x).run D d = ((.error e, x'), d')) : ((m >>= f) x).run D d = ((.error e, x'), d') := by
  refine (Io.run_bind D _ (m x) d).trans ?_
  rw [h]
  rfl

end Returns

/-! ## What is known after a call that failed -/

namespace Media

/-- Nothing is known of the cells `W` any more. -/
def forget (s : Media) (W : Nat → Nat → Prop) [∀ b o, Decidable (W b o)] : Media :=
  { s with cell := fun b o => if W b o then ⟨none, (s.cell b o).prog⟩ else s.cell b o }

theorem frame_forget {r : Rules} (s : Media) (W : Nat → Nat → Prop) [∀ b o, Decidable (W b o)] :
    Frame r W s (s.forget W) := by
  have hsame : ∀ b o, ¬ W b o → (s.forget W).cell b o = s.cell b o := fun b o h => if_neg h
  exact ⟨fun b o h => by rw [hsame b o h], fun b o h _ => hsame b o h⟩

end Media

end Tfm.BlockDev
