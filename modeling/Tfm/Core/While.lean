import Mathlib.Init

/-!
# While loops

A `while` loop over a state, with a size that the body makes smaller wherever
the guard holds. `whileDo_rule` is the rule for partial correctness and
termination together: the loop is a total function, an invariant of the body
holds after it, and the guard does not.
-/
namespace Tfm.While

variable {σ : Type}

/-- `while (g s) s = body(s);` -/
def whileDo (g : σ → Bool) (body : σ → σ) (size : σ → Nat)
    (dec : ∀ s, g s = true → size (body s) < size s) (s : σ) : σ :=
  if _ : g s = true then whileDo g body size dec (body s) else s
termination_by size s
decreasing_by exact dec s ‹_›

variable {g : σ → Bool} {body : σ → σ} {size : σ → Nat}
  {dec : ∀ s, g s = true → size (body s) < size s}

theorem whileDo_rule (P : σ → Prop) (step : ∀ s, P s → g s = true → P (body s)) (s : σ)
    (h : P s) : P (whileDo g body size dec s) ∧ g (whileDo g body size dec s) = false := by
  induction s using whileDo.induct g body size dec with
  | case1 s hg ih =>
    rw [whileDo, dif_pos hg]
    exact ih (step s h hg)
  | case2 s hg =>
    rw [whileDo, dif_neg hg]
    exact ⟨h, Bool.eq_false_iff.mpr hg⟩

end Tfm.While
