import Tfm.Core.LTS

/-!
# Simulations

`Run` has the labels of a run, and `Simulates R` says that whatever one system does, the other
one does too, with the same labels and with states that `R` relates. `watch` puts what is seen
of a step in the place of its label.

Results: `Simulates.run`.
-/
namespace Tfm.LTS

universe u v w

variable {S : Type u} {S' : Type w} {L : Type v}

/-- The labels of a run between two states. -/
inductive Run (T : LTS S L) : S → List L → S → Prop
  | nil (s : S) : Run T s [] s
  | cons {s s' s'' : S} {l : L} {ls : List L} (hs : T.step s l s') (h : Run T s' ls s'') :
    Run T s (l :: ls) s''

/-- What is seen of the steps. -/
def watch {O : Type w} (T : LTS S L) (seen : S → L → O) : LTS S O where
  init := T.init
  step s o s' := ∃ l, T.step s l s' ∧ o = seen s l

/-- What `T` does, `U` does too. -/
structure Simulates (T : LTS S L) (U : LTS S' L) (R : S → S' → Prop) : Prop where
  init : ∀ s, T.init s → ∃ u, U.init u ∧ R s u
  step : ∀ s l s' u, R s u → T.step s l s' → ∃ u', U.step u l u' ∧ R s' u'

variable {T : LTS S L} {U : LTS S' L} {R : S → S' → Prop}

theorem Simulates.run_from (h : T.Simulates U R) {s s' : S} {ls : List L} (hrun : T.Run s ls s') :
    ∀ u, R s u → ∃ u', U.Run u ls u' ∧ R s' u' := by
  induction hrun with
  | nil s => exact fun u hR => ⟨u, .nil u, hR⟩
  | cons hs _ ih =>
    intro u hR
    obtain ⟨u', hstep, hR'⟩ := h.step _ _ _ u hR hs
    obtain ⟨u'', hrun, hR''⟩ := ih u' hR'
    exact ⟨u'', .cons hstep hrun, hR''⟩

/-- **Whole runs**: the labels of a run of `T` are those of a run of `U`. -/
theorem Simulates.run (h : T.Simulates U R) {s s' : S} {ls : List L} (hs : T.init s)
    (hrun : T.Run s ls s') : ∃ u u', U.init u ∧ U.Run u ls u' ∧ R s' u' := by
  obtain ⟨u, hu, hR⟩ := h.init s hs
  obtain ⟨u', hrun', hR'⟩ := h.run_from hrun u hR
  exact ⟨u, u', hu, hrun', hR'⟩

end Tfm.LTS
