import Mathlib.Init

/-!
# Programs with faults and power cuts

Sequential code that acts on the outside world through calls that can fail, and
whose power can be cut at any of them. A program runs on a state and on a
schedule, the list of what happens at its calls, in order: `ok`, `fail` (the call
returns an error and does nothing) or `cut` (the power goes; `done` says how far
a call that is not atomic got). An exhausted schedule means no more faults.

`wp F m s Q` says what every run of `m` from `s` ends in, over all schedules whose
events are in `F`: a result, an error, or a power cut. The state at a cut is the
crash condition, in the same rule as the other two ends.

Results: one rule for each program construct (`wp_pure`, `wp_bind`, `wp_throw`,
`wp_get`, `wp_modify`, `wp_attempt`, `wp_call`) and `wp_mono`; the same rules for
an invariant of the state that no construct breaks (`Keeps`), for what relates the
states on the way to the last one (`Steady`), and for faults that depend on the
number of the call (`wpAt`).
-/
namespace Tfm.Crash

inductive Ev
  | ok
  | fail
  | cut (done : Nat)
  deriving DecidableEq, Repr

inductive Res (ε σ α : Type)
  | ok (a : α) (s : σ) (p : List Ev)
  | err (e : ε) (s : σ) (p : List Ev)
  | cut (s : σ)

/-- The state a run ends in. -/
def Res.state {ε σ α : Type} : Res ε σ α → σ
  | .ok _ s _ => s
  | .err _ s _ => s
  | .cut s => s

def Res.isOk {ε σ α : Type} : Res ε σ α → Bool
  | .ok _ _ _ => true
  | _ => false

def Res.failure {ε σ α : Type} : Res ε σ α → Option ε
  | .err e _ _ => some e
  | _ => none

theorem Res.of_failure {ε σ α : Type} {r : Res ε σ α} {e : ε} (h : r.failure = some e) :
    ∃ s p, r = .err e s p := by
  cases r with
  | ok a s p => cases h
  | err e s p =>
    cases h
    exact ⟨s, p, rfl⟩
  | cut s => cases h

theorem Res.of_isOk {ε σ α : Type} {r : Res ε σ α} (h : r.isOk = true) :
    ∃ a p, r = .ok a r.state p := by
  cases r with
  | ok a s p => exact ⟨a, p, rfl⟩
  | err e s p => cases h
  | cut s => cases h

def Prog (ε σ α : Type) : Type := σ → List Ev → Res ε σ α

section Constructs

variable {ε σ α β : Type}

instance : Monad (Prog ε σ) where
  pure a := fun s p => .ok a s p
  bind m f := fun s p =>
    match m s p with
    | .ok a s' p' => f a s' p'
    | .err e s' p' => .err e s' p'
    | .cut s' => .cut s'

def get : Prog ε σ σ := fun s p => .ok s s p

def modify (f : σ → σ) : Prog ε σ Unit := fun s p => .ok () (f s) p

def throw (e : ε) : Prog ε σ α := fun s p => .err e s p

/-- Run `m` and hand its error to the caller. A power cut is not caught. -/
def attempt (m : Prog ε σ α) : Prog ε σ (Except ε α) := fun s p =>
  match m s p with
  | .ok a s' p' => .ok (.ok a) s' p'
  | .err e s' p' => .ok (.error e) s' p'
  | .cut s' => .cut s'

/-- A call to the outside: `f` is what it does, `e` the error when it fails, and
`torn n` what is left of it when the power goes. -/
def call (e : ε) (torn : Nat → σ → σ) (f : σ → Except ε α × σ) : Prog ε σ α := fun s p =>
  let run := fun (p : List Ev) =>
    match f s with
    | (.ok a, s') => Res.ok a s' p
    | (.error e', s') => Res.err e' s' p
  match p with
  | [] => run []
  | .ok :: p => run p
  | .fail :: p => .err e s p
  | .cut n :: _ => .cut (torn n s)

/-- One step of a run. -/
theorem bind_run {m : Prog ε σ α} {f : α → Prog ε σ β} {s s' : σ} {p p' : List Ev}
    {a : α} {r : Res ε σ β} (hm : m s p = .ok a s' p') (hf : f a s' p' = r) :
    (m >>= f) s p = r := by
  simp only [bind, hm, hf]

end Constructs

/-! ## Weakest preconditions -/

structure Post (ε σ α : Type) where
  ok : α → σ → Prop
  err : ε → σ → Prop
  cut : σ → Prop

section Rules

variable {ε σ α β : Type} {F : Ev → Prop} {s : σ} {Q : Post ε σ α}

def wp (F : Ev → Prop) (m : Prog ε σ α) (s : σ) (Q : Post ε σ α) : Prop :=
  ∀ p, (∀ e ∈ p, F e) →
    match m s p with
    | .ok a s' p' => Q.ok a s' ∧ ∀ e ∈ p', F e
    | .err e s' p' => Q.err e s' ∧ ∀ e ∈ p', F e
    | .cut s' => Q.cut s'

/-- The schedules of `F` may cut the power. As a conjunct of crash conditions it
lets one specification serve the runs that are cut and the runs that are not. -/
def Cuts (F : Ev → Prop) : Prop := ∃ n, F (.cut n)

/-- No call fails; the power may be cut. -/
def NoFail : Ev → Prop := (· ≠ .fail)

/-- Neither a fault nor a power cut. -/
def Quiet : Ev → Prop := (· = .ok)

def AnyEv : Ev → Prop := fun _ => True

theorem not_cuts_quiet : ¬ Cuts Quiet := by
  intro h
  obtain ⟨n, hn⟩ := h
  cases hn

theorem wp_pure {a : α} (h : Q.ok a s) : wp F (pure a) s Q := fun _ hp => ⟨h, hp⟩

theorem wp_get {Q : Post ε σ σ} (h : Q.ok s s) : wp F get s Q := fun _ hp => ⟨h, hp⟩

theorem wp_modify {f : σ → σ} {Q : Post ε σ Unit} (h : Q.ok () (f s)) : wp F (modify f) s Q :=
  fun _ hp => ⟨h, hp⟩

theorem wp_throw {e : ε} (h : Q.err e s) : wp F (throw e) s Q := fun _ hp => ⟨h, hp⟩

theorem wp_bind {m : Prog ε σ β} {f : β → Prog ε σ α}
    (h : wp F m s ⟨fun b s' => wp F (f b) s' Q, Q.err, Q.cut⟩) : wp F (m >>= f) s Q := by
  intro p hp
  have hm := h p hp
  show (match (match m s p with
    | .ok a s' p' => f a s' p'
    | .err e s' p' => .err e s' p'
    | .cut s' => .cut s' : Res ε σ α) with
    | .ok a s' p' => _
    | .err e s' p' => _
    | .cut s' => _)
  revert hm
  cases m s p with
  | ok b s' p' => exact fun hm => hm.1 p' hm.2
  | err e s' p' => exact fun hm => hm
  | cut s' => exact fun hm => hm

theorem wp_attempt {m : Prog ε σ α} {Q : Post ε σ (Except ε α)}
    (h : wp F m s ⟨fun a s' => Q.ok (.ok a) s', fun e s' => Q.ok (.error e) s', Q.cut⟩) :
    wp F (attempt m) s Q := by
  intro p hp
  have hm := h p hp
  unfold attempt
  revert hm
  cases m s p with
  | ok b s' p' => exact fun hm => hm
  | err e s' p' => exact fun hm => hm
  | cut s' => exact fun hm => hm

theorem wp_call {e : ε} {torn : Nat → σ → σ} {f : σ → Except ε α × σ}
    (hok : ∀ a s', f s = (.ok a, s') → Q.ok a s')
    (herr : ∀ e' s', f s = (.error e', s') → Q.err e' s') (hfail : F .fail → Q.err e s)
    (hcut : ∀ n, F (.cut n) → Q.cut (torn n s)) : wp F (call e torn f) s Q := by
  intro p hp
  have hrun : ∀ q, (∀ e ∈ q, F e) →
      match (match f s with
        | (.ok a, s') => Res.ok a s' q
        | (.error e', s') => Res.err e' s' q : Res ε σ α) with
      | .ok a s' p' => Q.ok a s' ∧ ∀ e ∈ p', F e
      | .err e s' p' => Q.err e s' ∧ ∀ e ∈ p', F e
      | .cut s' => Q.cut s' := by
    intro q hq
    cases hf : f s with
    | mk r s' =>
      cases r with
      | ok a => exact ⟨hok a s' hf, hq⟩
      | error e' => exact ⟨herr e' s' hf, hq⟩
  cases p with
  | nil => exact hrun [] hp
  | cons ev p =>
    have hp' : ∀ e ∈ p, F e := fun x hx => hp x (List.mem_cons_of_mem _ hx)
    have hev : F ev := hp ev List.mem_cons_self
    cases ev with
    | ok => exact hrun p hp'
    | fail => exact ⟨hfail hev, hp'⟩
    | cut n => exact hcut n hev

theorem wp_mono {m : Prog ε σ α} {Q' : Post ε σ α} (h : wp F m s Q)
    (hok : ∀ a s', Q.ok a s' → Q'.ok a s') (herr : ∀ e s', Q.err e s' → Q'.err e s')
    (hcut : ∀ s', Q.cut s' → Q'.cut s') : wp F m s Q' := by
  intro p hp
  have hm := h p hp
  revert hm
  cases m s p with
  | ok a s' p' => exact fun hm => ⟨hok a s' hm.1, hm.2⟩
  | err e s' p' => exact fun hm => ⟨herr e s' hm.1, hm.2⟩
  | cut s' => exact fun hm => hcut s' hm

theorem wp_and {m : Prog ε σ α} {Q' : Post ε σ α} (h : wp F m s Q) (h' : wp F m s Q') :
    wp F m s ⟨fun a s' => Q.ok a s' ∧ Q'.ok a s', fun e s' => Q.err e s' ∧ Q'.err e s',
      fun s' => Q.cut s' ∧ Q'.cut s'⟩ := by
  intro p hp
  have h1 := h p hp
  have h2 := h' p hp
  revert h1 h2
  cases m s p with
  | ok a s' q => exact fun h1 h2 => ⟨⟨h1.1, h2.1⟩, h1.2⟩
  | err e s' q => exact fun h1 h2 => ⟨⟨h1.1, h2.1⟩, h1.2⟩
  | cut s' => exact fun h1 h2 => ⟨h1, h2⟩

/-- A run without faults, of a program that cannot fail on its own. -/
theorem wp_quiet {m : Prog ε σ α} (h : wp Quiet m s Q) (herr : ∀ e s', ¬ Q.err e s')
    (hcut : ∀ s', ¬ Q.cut s') : ∃ a s' p, m s [] = .ok a s' p ∧ Q.ok a s' := by
  have hm := h [] fun e he => by cases he
  revert hm
  cases m s [] with
  | ok a s' p => exact fun hm => ⟨a, s', p, rfl, hm.1⟩
  | err e s' p => exact fun hm => absurd hm.1 (herr e s')
  | cut s' => exact fun hm => absurd hm (hcut s')

/-- The state in which a run without faults ends. -/
theorem wp_quiet_state {m : Prog ε σ α} {P : σ → Prop} (h : wp Quiet m s Q)
    (hok : ∀ a s', Q.ok a s' → P s') (herr : ∀ e s', Q.err e s' → P s')
    (hcut : ∀ s', ¬ Q.cut s') : P (m s []).state := by
  have hm := h [] fun e he => by cases he
  revert hm
  cases m s [] with
  | ok a s' p => exact fun hm => hok a s' hm.1
  | err e s' p => exact fun hm => herr e s' hm.1
  | cut s' => exact fun hm => absurd hm (hcut s')

/-! ## Invariants of programs -/

/-- However `m` ends, and whatever faults there are, `I` still holds. -/
def Keeps (I : σ → Prop) (m : Prog ε σ α) : Prop :=
  ∀ (F : Ev → Prop) (s : σ), I s → wp F m s ⟨fun _ => I, fun _ => I, I⟩

variable {I : σ → Prop}

theorem Keeps.pure (a : α) : Keeps I (Pure.pure a : Prog ε σ α) := fun _ _ h => wp_pure h

theorem Keeps.throw (e : ε) : Keeps I (Crash.throw e : Prog ε σ α) := fun _ _ h => wp_throw h

theorem Keeps.modify {f : σ → σ} (hf : ∀ s, I s → I (f s)) :
    Keeps I (Crash.modify f : Prog ε σ Unit) := fun _ s h => wp_modify (hf s h)

theorem Keeps.bind {m : Prog ε σ β} {f : β → Prog ε σ α} (hm : Keeps I m)
    (hf : ∀ b, Keeps I (f b)) : Keeps I (m >>= f) := fun F s h =>
  wp_bind (wp_mono (hm F s h) (fun b s' h' => hf b F s' h') (fun _ _ h' => h') fun _ h' => h')

theorem Keeps.get {f : σ → Prog ε σ α} (hf : ∀ s, Keeps I (f s)) : Keeps I (Crash.get >>= f) :=
  fun F s h => wp_bind (wp_get (hf s F s h))

theorem Keeps.attempt {m : Prog ε σ α} (hm : Keeps I m) : Keeps I (Crash.attempt m) :=
  fun F s h => wp_attempt (hm F s h)

theorem Keeps.call {e : ε} {torn : Nat → σ → σ} {f : σ → Except ε α × σ}
    (hf : ∀ s, I s → I (f s).2) (ht : ∀ n s, I s → I (torn n s)) : Keeps I (call e torn f) := by
  intro F s h
  refine wp_call ?_ ?_ (fun _ => h) fun n _ => ht n s h
  · intro a s' hs'
    have := hf s h
    rwa [hs'] at this
  · intro e' s' hs'
    have := hf s h
    rwa [hs'] at this

/-- The state in which a run ends. -/
theorem wp_state {m : Prog ε σ α} (h : wp AnyEv m s ⟨fun _ => I, fun _ => I, I⟩) (p : List Ev) :
    I (m s p).state := by
  have hp := h p fun _ _ => trivial
  revert hp
  cases m s p with
  | ok a s' q => exact fun hp => hp.1
  | err e s' q => exact fun hp => hp.1
  | cut s' => exact fun hp => hp

theorem Keeps.state {m : Prog ε σ α} (hm : Keeps I m) (h : I s) (p : List Ev) :
    I (m s p).state :=
  wp_state (hm AnyEv s h) p

theorem Keeps.read : Keeps I (Crash.get : Prog ε σ σ) := fun _ _ h => wp_get h

end Rules

/-! ## Programs made of given ones -/

section Made

variable {ε σ α β : Type}

/-- Programs put together from those of `P`. An argument about every program of a
component is made once for the constructs, and then for the members of `P`. -/
inductive Made (P : (α : Type) → Prog ε σ α → Prop) : (α : Type) → Prog ε σ α → Prop
  | base {α : Type} {m : Prog ε σ α} (h : P α m) : Made P α m
  | pure {α : Type} (a : α) : Made P α (Pure.pure a)
  | throw {α : Type} (e : ε) : Made P α (Crash.throw e)
  | get : Made P σ Crash.get
  | bind {α β : Type} {m : Prog ε σ β} {f : β → Prog ε σ α} (hm : Made P β m)
    (hf : ∀ b, Made P α (f b)) : Made P α (m >>= f)
  | attempt {α : Type} {m : Prog ε σ α} (hm : Made P α m) : Made P (Except ε α) (Crash.attempt m)

variable {P : (α : Type) → Prog ε σ α → Prop}

theorem Made.keeps {I : σ → Prop} (hP : ∀ {α : Type} {m : Prog ε σ α}, P α m → Keeps I m)
    {m : Prog ε σ α} (hm : Made P α m) : Keeps I m := by
  induction hm with
  | base h => exact hP h
  | pure a => exact .pure a
  | throw e => exact .throw e
  | get => exact .read
  | bind _ _ ihm ihf => exact .bind ihm ihf
  | attempt _ ih => exact .attempt ih

/-- `q` is an initial part of the schedule `p`, which goes on without faults. -/
def Initial (q p : List Ev) : Prop := ∃ k, q <+: p ++ List.replicate k .ok

theorem Initial.cons {q p : List Ev} {e : Ev} (h : Initial (e :: q) p) :
    (e = .ok ∧ p = [] ∧ Initial q []) ∨ ∃ p', p = e :: p' ∧ Initial q p' := by
  obtain ⟨k, hk⟩ := h
  cases p with
  | nil =>
    cases k with
    | zero => simp at hk
    | succ k =>
      rw [List.nil_append, List.replicate_succ, List.cons_prefix_cons] at hk
      exact .inl ⟨hk.1, rfl, k, by simpa using hk.2⟩
  | cons e' p' =>
    rw [List.cons_append, List.cons_prefix_cons] at hk
    exact .inr ⟨p', by rw [hk.1], k, hk.2⟩

/-- `R` relates every state on the way to the state in which a run ends: a run
with a schedule that is cut earlier goes the same way up to there. -/
structure Steady (R : σ → σ → Prop) (m : Prog ε σ α) : Prop where
  ends : ∀ s p, R s (m s p).state
  cut : ∀ s q p, Initial q p →
    match m s (q ++ [.cut 0]) with
    | .ok a t r => ∃ q' p', r = q' ++ [.cut 0] ∧ m s p = .ok a t p' ∧ Initial q' p'
    | .err e t r => ∃ q' p', r = q' ++ [.cut 0] ∧ m s p = .err e t p' ∧ Initial q' p'
    | .cut t => R t (m s p).state

/-- The state at a cut and the end of the run. -/
theorem Steady.state {R : σ → σ → Prop} (hr : ∀ s, R s s) {m : Prog ε σ α} (hm : Steady R m)
    (s : σ) {q p : List Ev} (h : Initial q p) : R (m s (q ++ [.cut 0])).state (m s p).state := by
  have hc := hm.cut s q p h
  revert hc
  cases m s (q ++ [.cut 0]) with
  | ok a t r =>
    intro hx
    obtain ⟨_, _, _, he, _⟩ := hx
    rw [he]
    exact hr t
  | err e t r =>
    intro hx
    obtain ⟨_, _, _, he, _⟩ := hx
    rw [he]
    exact hr t
  | cut t => exact fun hc => hc

variable {R : σ → σ → Prop}

theorem Steady.pure (hr : ∀ s, R s s) (a : α) : Steady R (Pure.pure a : Prog ε σ α) :=
  ⟨fun s _ => hr s, fun _ q p h => ⟨q, p, rfl, rfl, h⟩⟩

theorem Steady.throw (hr : ∀ s, R s s) (e : ε) : Steady R (Crash.throw e : Prog ε σ α) :=
  ⟨fun s _ => hr s, fun _ q p h => ⟨q, p, rfl, rfl, h⟩⟩

theorem Steady.get (hr : ∀ s, R s s) : Steady R (Crash.get : Prog ε σ σ) :=
  ⟨fun s _ => hr s, fun _ q p h => ⟨q, p, rfl, rfl, h⟩⟩

theorem Steady.modify {f : σ → σ} (hf : ∀ s, R s (f s)) :
    Steady R (Crash.modify f : Prog ε σ Unit) :=
  ⟨fun s _ => hf s, fun _ q p h => ⟨q, p, rfl, rfl, h⟩⟩

theorem Steady.attempt {m : Prog ε σ α} (hm : Steady R m) : Steady R (Crash.attempt m) := by
  constructor
  · intro s p
    have := hm.ends s p
    unfold Crash.attempt
    revert this
    cases m s p <;> exact fun h => h
  · intro s q p h
    have hc := hm.cut s q p h
    unfold Crash.attempt
    revert hc
    cases m s (q ++ [.cut 0]) with
    | ok a t r =>
      intro hx
      obtain ⟨q', p', hr, he, hi⟩ := hx
      exact ⟨q', p', hr, by rw [he], hi⟩
    | err e t r =>
      intro hx
      obtain ⟨q', p', hr, he, hi⟩ := hx
      exact ⟨q', p', hr, by rw [he], hi⟩
    | cut t =>
      intro hc
      revert hc
      cases m s p <;> exact fun h => h

theorem Steady.bind (ht : ∀ a b c, R a b → R b c → R a c) {m : Prog ε σ β}
    {f : β → Prog ε σ α} (hm : Steady R m) (hf : ∀ b, Steady R (f b)) : Steady R (m >>= f) := by
  have hbind : ∀ s p, (m >>= f) s p = match m s p with
      | .ok a s' p' => f a s' p'
      | .err e s' p' => .err e s' p'
      | .cut s' => .cut s' := fun _ _ => rfl
  have hafter : ∀ t s p, R t (m s p).state → R t ((m >>= f) s p).state := by
    intro t s p h
    rw [hbind]
    revert h
    cases m s p with
    | ok a s' p' => exact fun h => ht _ _ _ h ((hf a).ends s' p')
    | err e s' p' => exact fun h => h
    | cut s' => exact fun h => h
  refine ⟨fun s p => hafter s s p (hm.ends s p), fun s q p h => ?_⟩
  have hc := hm.cut s q p h
  have hq := hbind s (q ++ [Ev.cut 0])
  rw [hq]
  revert hc
  cases m s (q ++ [.cut 0]) with
  | ok a t r =>
    intro hx
    obtain ⟨q', p', rfl, he, hi⟩ := hx
    have hp : (m >>= f) s p = f a t p' := by rw [hbind, he]
    rw [hp]
    exact (hf a).cut t q' p' hi
  | err e t r =>
    intro hx
    obtain ⟨q', p', rfl, he, hi⟩ := hx
    exact ⟨q', p', rfl, by rw [hbind, he], hi⟩
  | cut t => exact fun hc => hafter t s p hc

theorem Steady.call {e : ε} {f : σ → Except ε α × σ} (hr : ∀ s, R s s) (hf : ∀ s, R s (f s).2) :
    Steady R (call e (fun _ s => s) f) := by
  have hrun : ∀ s (p : List Ev), R s (match f s with
      | (.ok a, s') => Res.ok a s' p
      | (.error e', s') => Res.err e' s' p : Res ε σ α).state := by
    intro s p
    have := hf s
    revert this
    rcases f s with ⟨⟨⟩ | ⟨⟩, s'⟩ <;> exact fun h => h
  have hends : ∀ s p, R s (Crash.call e (fun _ s => s) f s p).state := by
    intro s p
    unfold Crash.call
    rcases p with _ | ⟨⟨⟩ | ⟨⟩ | ⟨k⟩, p⟩
    · exact hrun s []
    · exact hrun s p
    · exact hr s
    · exact hr s
  refine ⟨hends, fun s q p h => ?_⟩
  cases q with
  | nil => exact hends s p
  | cons ev q =>
    have hok : ∀ p', Initial q p' → Crash.call e (fun _ s => s) f s p = (match f s with
        | (.ok a, s') => Res.ok a s' p'
        | (.error e', s') => Res.err e' s' p' : Res ε σ α) →
        match (match f s with
          | (.ok a, s') => Res.ok a s' (q ++ [.cut 0])
          | (.error e', s') => Res.err e' s' (q ++ [.cut 0]) : Res ε σ α) with
        | .ok a t r => ∃ q' p', r = q' ++ [.cut 0] ∧
            Crash.call e (fun _ s => s) f s p = .ok a t p' ∧ Initial q' p'
        | .err e' t r => ∃ q' p', r = q' ++ [.cut 0] ∧
            Crash.call e (fun _ s => s) f s p = .err e' t p' ∧ Initial q' p'
        | .cut t => R t (Crash.call e (fun _ s => s) f s p).state := by
      intro p' hi he
      rw [he]
      rcases f s with ⟨⟨e'⟩ | ⟨a⟩, s'⟩
      · exact ⟨q, p', rfl, rfl, hi⟩
      · exact ⟨q, p', rfl, rfl, hi⟩
    obtain ⟨rfl, rfl, hi⟩ | ⟨p', rfl, hi⟩ := h.cons
    · exact hok [] hi rfl
    · cases ev with
      | ok => exact hok p' hi rfl
      | fail => exact ⟨q, p', rfl, rfl, hi⟩
      | cut k => exact hr s

theorem Made.steady (hr : ∀ s, R s s) (ht : ∀ a b c, R a b → R b c → R a c)
    (hP : ∀ {α : Type} {m : Prog ε σ α}, P α m → Steady R m) {m : Prog ε σ α}
    (hm : Made P α m) : Steady R m := by
  induction hm with
  | base h => exact hP h
  | pure a => exact .pure hr a
  | throw e => exact .throw hr e
  | get => exact .get hr
  | bind _ _ ihm ihf => exact .bind ht ihm ihf
  | attempt _ ih => exact .attempt ih

end Made

/-! ## Faults at given calls -/

/-- `Post` with the number of calls so far. -/
structure PostAt (ε σ α : Type) where
  ok : α → σ → Nat → Prop
  err : ε → σ → Nat → Prop
  cut : σ → Prop

/-- The number of calls does not matter. -/
def Post.anyTime {ε σ α : Type} (Q : Post ε σ α) : PostAt ε σ α :=
  ⟨fun a s _ => Q.ok a s, fun e s _ => Q.err e s, Q.cut⟩

section At

variable {ε σ α β : Type} {G : Nat → Ev → Prop} {i : Nat} {s : σ} {Q : PostAt ε σ α}

/-- As `wp`, for schedules whose event at the `k`-th call is in `G k`; `m` starts
with call `i`. -/
def wpAt (G : Nat → Ev → Prop) (i : Nat) (m : Prog ε σ α) (s : σ) (Q : PostAt ε σ α) : Prop :=
  ∀ p : List Ev, (∀ k e, p[k]? = some e → G (i + k) e) →
    match m s p with
    | .ok a s' p' => ∃ j, Q.ok a s' j ∧ ∀ k e, p'[k]? = some e → G (j + k) e
    | .err e s' p' => ∃ j, Q.err e s' j ∧ ∀ k e, p'[k]? = some e → G (j + k) e
    | .cut s' => Q.cut s'

theorem wpAt_pure {a : α} (h : Q.ok a s i) : wpAt G i (pure a) s Q := fun _ hp => ⟨i, h, hp⟩

theorem wpAt_get {Q : PostAt ε σ σ} (h : Q.ok s s i) : wpAt G i get s Q := fun _ hp => ⟨i, h, hp⟩

theorem wpAt_modify {f : σ → σ} {Q : PostAt ε σ Unit} (h : Q.ok () (f s) i) :
    wpAt G i (modify f) s Q := fun _ hp => ⟨i, h, hp⟩

theorem wpAt_throw {e : ε} (h : Q.err e s i) : wpAt G i (throw e) s Q := fun _ hp => ⟨i, h, hp⟩

theorem wpAt_bind {m : Prog ε σ β} {f : β → Prog ε σ α}
    (h : wpAt G i m s ⟨fun b s' j => wpAt G j (f b) s' Q, Q.err, Q.cut⟩) :
    wpAt G i (m >>= f) s Q := by
  intro p hp
  have hm := h p hp
  show (match (match m s p with
    | .ok a s' p' => f a s' p'
    | .err e s' p' => .err e s' p'
    | .cut s' => .cut s' : Res ε σ α) with
    | .ok a s' p' => _
    | .err e s' p' => _
    | .cut s' => _)
  revert hm
  cases m s p with
  | ok b s' p' =>
    intro hx
    obtain ⟨j, hj, hp'⟩ := hx
    exact hj p' hp'
  | err e s' p' => exact fun hm => hm
  | cut s' => exact fun hm => hm

theorem wpAt_attempt {m : Prog ε σ α} {Q : PostAt ε σ (Except ε α)}
    (h : wpAt G i m s ⟨fun a s' j => Q.ok (.ok a) s' j, fun e s' j => Q.ok (.error e) s' j, Q.cut⟩) :
    wpAt G i (attempt m) s Q := by
  intro p hp
  have hm := h p hp
  unfold attempt
  revert hm
  cases m s p with
  | ok b s' p' => exact fun hm => hm
  | err e s' p' => exact fun hm => hm
  | cut s' => exact fun hm => hm

theorem wpAt_call {e : ε} {torn : Nat → σ → σ} {f : σ → Except ε α × σ}
    (hok : ∀ a s', f s = (.ok a, s') → Q.ok a s' (i + 1))
    (herr : ∀ e' s', f s = (.error e', s') → Q.err e' s' (i + 1))
    (hfail : G i .fail → Q.err e s (i + 1)) (hcut : ∀ n, G i (.cut n) → Q.cut (torn n s)) :
    wpAt G i (call e torn f) s Q := by
  intro p hp
  have hrun : ∀ q : List Ev, (∀ k e, q[k]? = some e → G (i + 1 + k) e) →
      match (match f s with
        | (.ok a, s') => Res.ok a s' q
        | (.error e', s') => Res.err e' s' q : Res ε σ α) with
      | .ok a s' p' => ∃ j, Q.ok a s' j ∧ ∀ k e, p'[k]? = some e → G (j + k) e
      | .err e s' p' => ∃ j, Q.err e s' j ∧ ∀ k e, p'[k]? = some e → G (j + k) e
      | .cut s' => Q.cut s' := by
    intro q hq
    cases hf : f s with
    | mk r s' =>
      cases r with
      | ok a => exact ⟨i + 1, hok a s' hf, hq⟩
      | error e' => exact ⟨i + 1, herr e' s' hf, hq⟩
  cases p with
  | nil => exact hrun [] fun k e h => by simp at h
  | cons ev p =>
    have hp' : ∀ k e, p[k]? = some e → G (i + 1 + k) e := by
      intro k e hk
      have := hp (k + 1) e (by simpa using hk)
      rwa [Nat.add_assoc, Nat.add_comm 1 k]
    have hev : G i ev := hp 0 ev rfl
    cases ev with
    | ok => exact hrun p hp'
    | fail => exact ⟨i + 1, hfail hev, hp'⟩
    | cut n => exact hcut n hev

theorem wpAt_mono {m : Prog ε σ α} {Q' : PostAt ε σ α} (h : wpAt G i m s Q)
    (hok : ∀ a s' j, Q.ok a s' j → Q'.ok a s' j) (herr : ∀ e s' j, Q.err e s' j → Q'.err e s' j)
    (hcut : ∀ s', Q.cut s' → Q'.cut s') : wpAt G i m s Q' := by
  intro p hp
  have hm := h p hp
  revert hm
  cases m s p with
  | ok a s' p' => exact fun ⟨j, hj, hp'⟩ => ⟨j, hok a s' j hj, hp'⟩
  | err e s' p' => exact fun ⟨j, hj, hp'⟩ => ⟨j, herr e s' j hj, hp'⟩
  | cut s' => exact fun hm => hcut s' hm

/-- The run with the schedule `p`. -/
theorem wpAt_schedule {p : List Ev} {m : Prog ε σ α} {Q : Post ε σ α}
    (h : wpAt (fun k e => p[k]? = some e) 0 m s Q.anyTime) :
    match m s p with
    | .ok a s' _ => Q.ok a s'
    | .err e s' _ => Q.err e s'
    | .cut s' => Q.cut s' := by
  have hm := h p fun k e hk => by rwa [Nat.zero_add]
  revert hm
  cases m s p with
  | ok a s' p' => exact fun ⟨_, hj, _⟩ => hj
  | err e s' p' => exact fun ⟨_, hj, _⟩ => hj
  | cut s' => exact fun hm => hm

/-- The same events at every call. -/
theorem wp_of_wpAt {F : Ev → Prop} {m : Prog ε σ α} {Q : Post ε σ α}
    (h : wpAt (fun _ => F) i m s ⟨fun a s' _ => Q.ok a s', fun e s' _ => Q.err e s', Q.cut⟩) :
    wp F m s Q := by
  have hmem : ∀ {p : List Ev}, (∀ (k : Nat) e, p[k]? = some e → F e) → ∀ e ∈ p, F e := by
    intro p hp e he
    obtain ⟨k, hk⟩ := List.mem_iff_getElem?.mp he
    exact hp k e hk
  intro p hp
  have hm := h p fun k e hk => hp e (List.mem_of_getElem? hk)
  revert hm
  cases m s p with
  | ok a s' p' =>
    intro hx
    obtain ⟨j, hj, hp'⟩ := hx
    exact ⟨hj, hmem hp'⟩
  | err e s' p' =>
    intro hx
    obtain ⟨j, hj, hp'⟩ := hx
    exact ⟨hj, hmem hp'⟩
  | cut s' => exact fun hm => hm

end At

end Tfm.Crash
