import Tfm.Core.BlockDev

/-!
# Block devices with reads that fail

`D.faulty e F` is the device `D`, where read number `n` answers the error `e` if `F n`
holds, and does nothing. It counts the reads.

After a read that failed a program should do nothing but read, and give up: it is
`Strict`. It is a matter of the program alone, whatever the device answers.

Results: one rule for each construct; `Io.Strict.run`, over the faulty device a strict
program does what it does over `D`, or stops where it could also have been cut.
-/
namespace Tfm.BlockDev

def Dev.faulty {ε δ : Type} (D : Dev ε δ) (e : ε) (F : Nat → Bool) : Dev ε (δ × Nat) :=
  fun d o =>
    match o with
    | .read b off n =>
      if F d.2 then (.error e, (d.1, d.2 + 1))
      else ((D d.1 (.read b off n)).1, ((D d.1 (.read b off n)).2, d.2 + 1))
    | o => ((D d.1 o).1, ((D d.1 o).2, d.2))

/-- Reading leaves the device as it is. -/
def Dev.ReadsOnly {ε δ : Type} (D : Dev ε δ) : Prop :=
  ∀ d b off n, (D d (.read b off n)).2 = d

def Op.isRead : Op → Bool
  | .read .. => true
  | _ => false

section Trees

variable {ε δ σ α β : Type} {Q : α → Prop} {Q' : β → Prop} {e : ε}

/-- Only reads, whatever they answer, and then `Q`. -/
def Io.Reads (Q : α → Prop) : Io ε α → Prop
  | .ret a => Q a
  | .call o k => o.isRead = true ∧ ∀ r, (k r).Reads Q

/-- After a read that answered `e`, only reads, and then `Q`. -/
def Io.Strict (e : ε) (Q : α → Prop) : Io ε α → Prop
  | .ret _ => True
  | .call o k => (o.isRead = true → (k (.error e)).Reads Q) ∧ ∀ r, (k r).Strict e Q

theorem Io.Reads.mono {R : α → Prop} (hR : ∀ a, Q a → R a) : ∀ {io : Io ε α}, io.Reads Q →
    io.Reads R := by
  intro io
  induction io with
  | ret a => exact hR a
  | call o k ih => exact fun h => ⟨h.1, fun r => ih r (h.2 r)⟩

theorem Io.Reads.bind {f : α → Io ε β} : ∀ {io : Io ε α}, io.Reads (fun a => (f a).Reads Q') →
    (io.bind f).Reads Q' := by
  intro io
  induction io with
  | ret a => exact id
  | call o k ih => exact fun h => ⟨h.1, fun r => ih r (h.2 r)⟩

theorem Io.Strict.mono {R : α → Prop} (hR : ∀ a, Q a → R a) : ∀ {io : Io ε α},
    io.Strict e Q → io.Strict e R := by
  intro io
  induction io with
  | ret a => exact id
  | call o k ih => exact fun h => ⟨fun ho => (h.1 ho).mono hR, fun r => ih r (h.2 r)⟩

theorem Io.Strict.bind {f : α → Io ε β} (hf : ∀ a, (f a).Strict e Q') : ∀ {io : Io ε α},
    io.Strict e (fun a => (f a).Reads Q') → (io.bind f).Strict e Q' := by
  intro io
  induction io with
  | ret a => exact fun _ => hf a
  | call o k ih => exact fun h => ⟨fun ho => (h.1 ho).bind, fun r => ih r (h.2 r)⟩

variable {D : Dev ε δ} {F : Nat → Bool}

/-- Reads leave the device alone. -/
theorem Io.Reads.run (hD : D.ReadsOnly) : ∀ {io : Io ε α} {d : δ} {n : Nat}, io.Reads Q →
    ∃ a n', io.run (D.faulty e F) (d, n) = (a, (d, n')) ∧ Q a := by
  intro io
  induction io with
  | ret a => exact fun {d n} h => ⟨a, n, rfl, h⟩
  | call o k ih =>
    intro d n h
    cases o with
    | read b off m =>
      by_cases hF : F n = true
      · obtain ⟨a, n', hrun, ha⟩ := ih (.error e) (d := d) (n := n + 1) (h.2 _)
        refine ⟨a, n', ?_, ha⟩
        simp only [Io.run, Dev.faulty, if_pos hF]
        exact hrun
      · obtain ⟨a, n', hrun, ha⟩ := ih (D d (.read b off m)).1 (d := d) (n := n + 1) (h.2 _)
        refine ⟨a, n', ?_, ha⟩
        simp only [Io.run, Dev.faulty, if_neg hF]
        rw [hD d b off m]
        exact hrun
    | init => cases h.1
    | write => cases h.1
    | flush => cases h.1
    | erase => cases h.1

/-- **A strict program over the faulty device** does the same as over `D`, or it stops
in `Q` where it could have been cut. -/
theorem Io.Strict.run (hD : D.ReadsOnly) (tear : δ → Op → Nat → δ) :
    ∀ {io : Io ε α} {d : δ} {n : Nat}, io.Strict e Q →
    (∃ n', io.run (D.faulty e F) (d, n) = ((io.run D d).1, ((io.run D d).2, n'))) ∨
    ∃ a d' n', io.run (D.faulty e F) (d, n) = (a, (d', n')) ∧ Q a ∧ io.Cut D tear d d' := by
  intro io
  induction io with
  | ret a => exact fun {d n} _ => .inl ⟨n, rfl⟩
  | call o k ih =>
    intro d n h
    -- a call that does not fail: the rest decides
    have hgo : ∀ n', D.faulty e F (d, n) o = ((D d o).1, ((D d o).2, n')) →
        (∃ m, (Io.call o k).run (D.faulty e F) (d, n) =
          (((Io.call o k).run D d).1, (((Io.call o k).run D d).2, m))) ∨
        ∃ a d' m, (Io.call o k).run (D.faulty e F) (d, n) = (a, (d', m)) ∧ Q a ∧
          (Io.call o k).Cut D tear d d' := by
      intro n' hcall
      have hrest : (Io.call o k).run (D.faulty e F) (d, n) =
          (k (D d o).1).run (D.faulty e F) ((D d o).2, n') := by
        simp only [Io.run, hcall]
      rw [hrest]
      rcases ih (D d o).1 (d := (D d o).2) (n := n') (h.2 _) with ⟨m, hm⟩ | ⟨a, d', m, hm, ha, hcut⟩
      · exact .inl ⟨m, hm⟩
      · exact .inr ⟨a, d', m, hm, ha, .later hcut⟩
    cases o with
    | read b off m =>
      by_cases hF : F n = true
      · obtain ⟨a, n', hrun, ha⟩ := (h.1 rfl).run hD (F := F) (e := e) (d := d) (n := n + 1)
        refine .inr ⟨a, d, n', ?_, ha, .stop _ d⟩
        simp only [Io.run, Dev.faulty, if_pos hF]
        exact hrun
      · exact hgo (n + 1) (by simp only [Dev.faulty, if_neg hF])
    | init => exact hgo n rfl
    | write => exact hgo n rfl
    | flush => exact hgo n rfl
    | erase => exact hgo n rfl

/-- Where no read fails, the faulty device is the device. -/
theorem Io.run_faulty (hF : ∀ n, F n = false) : ∀ (io : Io ε α) (d : δ) (n : Nat),
    ∃ n', io.run (D.faulty e F) (d, n) = ((io.run D d).1, ((io.run D d).2, n')) := by
  intro io
  induction io with
  | ret a => exact fun d n => ⟨n, rfl⟩
  | call o k ih =>
    intro d n
    have hcall : ∃ n', D.faulty e F (d, n) o = ((D d o).1, ((D d o).2, n')) := by
      cases o with
      | read b off m => exact ⟨n + 1, by simp only [Dev.faulty, hF, Bool.false_eq_true, if_false]⟩
      | init | write | flush | erase => exact ⟨n, rfl⟩
    obtain ⟨n', hcall⟩ := hcall
    obtain ⟨m, hm⟩ := ih (D d o).1 (D d o).2 n'
    refine ⟨m, ?_⟩
    simp only [Io.run, hcall]
    exact hm

end Trees

/-! ## Programs with a context in RAM -/

section Progs

variable {ε σ α β : Type} {e : ε}

/-- Only reads, and then a result in `Q`. -/
def ReadsTo (Q : Except ε α → Prop) (m : Prog ε σ α) : Prop := ∀ c, (m c).Reads fun r => Q r.1

/-- After a read that answered `e`, only reads, and then a result in `Q`. -/
def StrictTo (e : ε) (Q : Except ε α → Prop) (m : Prog ε σ α) : Prop :=
  ∀ c, (m c).Strict e fun r => Q r.1

variable {Q : Except ε α → Prop} {P : Except ε β → Prop}

theorem ReadsTo.mono {R : Except ε α → Prop} {m : Prog ε σ α} (h : ReadsTo Q m)
    (hR : ∀ r, Q r → R r) : ReadsTo R m :=
  fun c => Io.Reads.mono (fun _ hr => hR _ hr) (h c)

theorem readsTo_pure {a : α} (h : Q (.ok a)) : ReadsTo Q (pure a : Prog ε σ α) := fun _ => h

theorem readsTo_throw {e' : ε} (h : Q (.error e')) : ReadsTo Q (throw e' : Prog ε σ α) :=
  fun _ => h

theorem readsTo_get {f : σ → Prog ε σ α} (h : ∀ c, ReadsTo Q (f c)) : ReadsTo Q (get >>= f) :=
  fun c => h c c

theorem readsTo_read {b off n : Nat} {Q : Except ε (List UInt8) → Prop} (h : ∀ r, Q r) :
    ReadsTo Q (call (.read b off n) : Prog ε σ (List UInt8)) := fun _ => ⟨rfl, h⟩

theorem readsTo_bind {m : Prog ε σ β} {f : β → Prog ε σ α} (hm : ReadsTo P m)
    (hok : ∀ b, P (.ok b) → ReadsTo Q (f b)) (herr : ∀ e', P (.error e') → Q (.error e')) :
    ReadsTo Q (m >>= f) := by
  intro c
  refine Io.Reads.bind ((hm c).mono fun r hr => ?_)
  obtain ⟨x, c'⟩ := r
  cases x with
  | ok b => exact hok b hr c'
  | error e' => exact herr e' hr

theorem readsTo_attempt {m : Prog ε σ β} {Q : Except ε (Except ε β) → Prop} (hm : ReadsTo P m)
    (h : ∀ r, P r → Q (.ok r)) : ReadsTo Q (attempt m) := by
  intro c
  refine Io.Reads.bind ((hm c).mono fun r hr => ?_)
  exact h r.1 hr

theorem StrictTo.mono {R : Except ε α → Prop} {m : Prog ε σ α} (h : StrictTo e Q m)
    (hR : ∀ r, Q r → R r) : StrictTo e R m :=
  fun c => Io.Strict.mono (fun _ hr => hR _ hr) (h c)

theorem strictTo_pure {a : α} : StrictTo e Q (pure a : Prog ε σ α) := fun _ => trivial

theorem strictTo_throw {e' : ε} : StrictTo e Q (throw e' : Prog ε σ α) := fun _ => trivial

theorem strictTo_get {f : σ → Prog ε σ α} (h : ∀ c, StrictTo e Q (f c)) :
    StrictTo e Q (get >>= f) := fun c => h c c

theorem strictTo_modify {g : σ → σ} {Q : Except ε Unit → Prop} :
    StrictTo e Q (modify g : Prog ε σ Unit) := fun _ => trivial

theorem strictTo_call {o : Op} {Q : Except ε (List UInt8) → Prop} (h : Q (.error e)) :
    StrictTo e Q (call o : Prog ε σ (List UInt8)) := fun _ => ⟨fun _ => h, fun _ => trivial⟩

theorem strictTo_bind {m : Prog ε σ β} {f : β → Prog ε σ α} (hm : StrictTo e P m)
    (hok : ∀ b, P (.ok b) → ReadsTo Q (f b)) (herr : ∀ e', P (.error e') → Q (.error e'))
    (hf : ∀ b, StrictTo e Q (f b)) : StrictTo e Q (m >>= f) := by
  intro c
  refine Io.Strict.bind (fun r => ?_) ((hm c).mono fun r hr => ?_)
  · obtain ⟨x, c'⟩ := r
    cases x with
    | ok b => exact hf b c'
    | error e' => trivial
  · obtain ⟨x, c'⟩ := r
    cases x with
    | ok b => exact hok b hr c'
    | error e' => exact herr e' hr

theorem strictTo_attempt {m : Prog ε σ β} {Q : Except ε (Except ε β) → Prop}
    (hm : StrictTo e P m) (h : ∀ r, P r → Q (.ok r)) : StrictTo e Q (attempt m) := by
  intro c
  show ((m c).bind fun r => Io.ret (Except.ok r.1, r.2)).Strict e _
  refine Io.Strict.bind ?_ ((hm c).mono fun r hr => ?_)
  · exact fun _ => trivial
  · exact h r.1 hr

theorem strictTo_recast {m : Prog ε σ α} {P : Except ε α → Prop} {e' : ε} (hm : StrictTo e P m)
    (h : ∀ r, P r → Q (r.mapError fun _ => e')) : StrictTo e Q (recast e' m) := by
  intro c
  show ((m c).bind fun r => Io.ret (r.1.mapError fun _ => e', r.2)).Strict e _
  refine Io.Strict.bind ?_ ((hm c).mono fun r hr => ?_)
  · exact fun _ => trivial
  · exact h r.1 hr

/-! ## Programs that fail -/

/-- It failed, with an error in `E`. -/
def Failed (E : ε → Prop) (r : Except ε α) : Prop := ∃ e', r = .error e' ∧ E e'

/-- After a read that answered `e`, the program only reads, and fails with an error
in `E`. -/
abbrev Strict (e : ε) (E : ε → Prop) (m : Prog ε σ α) : Prop := StrictTo e (Failed E) m

variable {E G : ε → Prop}

theorem Strict.weaken {m : Prog ε σ α} (h : Strict e E m) (hE : ∀ e', E e' → G e') :
    Strict e G m := h.mono fun _ hr => hr.imp fun e' he => ⟨he.1, hE e' he.2⟩

theorem strict_call (h : E e) (o : Op) : Strict e E (call o : Prog ε σ (List UInt8)) :=
  strictTo_call ⟨e, rfl, h⟩

theorem strict_bind {m : Prog ε σ β} {f : β → Prog ε σ α} (hm : Strict e E m)
    (hf : ∀ b, Strict e E (f b)) : Strict e E (m >>= f) := by
  refine strictTo_bind hm (fun b hb => ?_) (fun e' he => ?_) hf
  · obtain ⟨e', he, -⟩ := hb
    cases he
  · obtain ⟨e'', he, hE⟩ := he
    cases he
    exact ⟨e', rfl, hE⟩

theorem strict_recast {m : Prog ε σ α} {e' : ε} (hm : Strict e G m) (he : E e') :
    Strict e E (recast e' m) := by
  refine strictTo_recast hm fun r hr => ?_
  obtain ⟨e'', rfl, -⟩ := hr
  exact ⟨e', rfl, he⟩

/-- What runs after an attempt that failed only reads, and fails. -/
theorem strict_attempt {m : Prog ε σ β} {f : Except ε β → Prog ε σ α} (hm : Strict e G m)
    (hup : ∀ e', G e' → ReadsTo (Failed E) (f (.error e'))) (hf : ∀ r, Strict e E (f r)) :
    Strict e E (attempt m >>= f) := by
  refine strictTo_bind (P := fun r => ∃ e', r = .ok (.error e') ∧ G e')
    (strictTo_attempt hm fun r hr => ?_) (fun r hr => ?_) (fun e' he => ?_) hf
  · obtain ⟨e', rfl, he⟩ := hr
    exact ⟨e', rfl, he⟩
  · obtain ⟨e', he, hE⟩ := hr
    cases he
    exact hup e' hE
  · obtain ⟨e'', he, -⟩ := he
    cases he

theorem strict_ite {p : Prop} [Decidable p] {m m' : Prog ε σ α} (h : p → Strict e E m)
    (h' : ¬ p → Strict e E m') : Strict e E (if p then m else m') := by
  split
  · next hp => exact h hp
  · next hp => exact h' hp

end Progs

end Tfm.BlockDev
