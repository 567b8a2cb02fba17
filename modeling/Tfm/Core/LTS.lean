import Mathlib.Logic.Relation

/-!
# Labelled transition systems

A component that keeps state between calls is read as a labelled transition
system: a set of initial states and a step relation whose label carries the
caller's request and the answers of whatever the component calls.

* `Reachable` is the least set closed under the steps, `Inductive` the proof
  obligation of an invariant, `Inductive.reachable` the rule that turns it
  into a fact about every run.
* `restrict` keeps only the steps that meet a side condition on the state
  before the step and the label. A fact about `restrict C` is a fact about the
  runs all of whose steps meet `C`.
* `exec` runs a list of labels of a deterministic system, for concrete traces.
-/
namespace Tfm

universe u v

structure LTS (S : Type u) (L : Type v) where
  init : S → Prop
  step : S → L → S → Prop

namespace LTS

variable {S : Type u} {L : Type v}

/-- The system of a partial step function: `none` is "not enabled". -/
def ofFn (init : S → Prop) (f : S → L → Option S) : LTS S L where
  init := init
  step s l s' := f s l = some s'

inductive Reachable (T : LTS S L) : S → Prop
  | init {s : S} (h : T.init s) : Reachable T s
  | step {s s' : S} {l : L} (h : Reachable T s) (hs : T.step s l s') : Reachable T s'

/-- `I` holds initially and every step keeps it. -/
structure Inductive (T : LTS S L) (I : S → Prop) : Prop where
  init : ∀ s, T.init s → I s
  step : ∀ s l s', I s → T.step s l s' → I s'

theorem Inductive.reachable {T : LTS S L} {I : S → Prop} (hI : T.Inductive I) (s : S)
    (h : T.Reachable s) : I s := by
  induction h with
  | init h => exact hI.init _ h
  | step _ hs ih => exact hI.step _ _ _ ih hs

/-- The runs of `T` all of whose steps meet `C`. -/
def restrict (T : LTS S L) (C : S → L → Prop) : LTS S L where
  init := T.init
  step s l s' := C s l ∧ T.step s l s'

theorem restrict_reachable {T : LTS S L} {C : S → L → Prop} {s : S}
    (h : (T.restrict C).Reachable s) : T.Reachable s := by
  induction h with
  | init h => exact .init h
  | step _ hs ih => exact .step ih hs.2

theorem restrict_mono {T : LTS S L} {C D : S → L → Prop} (hCD : ∀ s l, C s l → D s l) {s : S}
    (h : (T.restrict C).Reachable s) : (T.restrict D).Reachable s := by
  induction h with
  | init h => exact .init h
  | step _ hs ih => exact .step ih ⟨hCD _ _ hs.1, hs.2⟩

/-- Run a list of labels from `s`. -/
def exec (f : S → L → Option S) (s : S) (ls : List L) : Option S := ls.foldlM f s

theorem exec_cons (f : S → L → Option S) (s : S) (l : L) (ls : List L) :
    exec f s (l :: ls) = (f s l).bind fun s' => exec f s' ls := by
  simp only [exec, List.foldlM_cons]
  rfl

theorem reachable_exec {init : S → Prop} {f : S → L → Option S} (ls : List L) :
    ∀ {s s' : S}, (ofFn init f).Reachable s → exec f s ls = some s' →
      (ofFn init f).Reachable s' := by
  induction ls with
  | nil =>
    intro s s' hr h
    simp only [exec, List.foldlM_nil, pure, Option.some.injEq] at h
    exact h ▸ hr
  | cons l ls ih =>
    intro s s' hr h
    rw [exec_cons] at h
    cases hl : f s l with
    | none => simp [hl] at h
    | some t =>
      rw [hl, Option.bind_some] at h
      exact ih (.step hr hl) h

/-- A trace whose steps all meet a decidable `C`, for witnesses of facts about
`restrict C`. -/
def execC (C : S → L → Bool) (f : S → L → Option S) (s : S) (ls : List L) : Option S :=
  exec (fun s l => if C s l then f s l else none) s ls

theorem reachable_execC {init : S → Prop} {f : S → L → Option S} {C : S → L → Prop}
    {D : S → L → Bool} (hD : ∀ s l, D s l = true → C s l) {s s' : S} (ls : List L)
    (hi : init s) (h : execC D f s ls = some s') :
    ((ofFn init f).restrict C).Reachable s' := by
  have hr : (ofFn init fun s l => if D s l then f s l else none).Reachable s' :=
    reachable_exec ls (.init hi) h
  clear h
  induction hr with
  | init h => exact .init h
  | step _ hs ih =>
    simp only [ofFn] at hs
    split at hs
    · rename_i hd
      exact .step ih ⟨hD _ _ hd, hs⟩
    · cases hs

end LTS

end Tfm
