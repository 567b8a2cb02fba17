import Tfm.Core.BlockDev

/-!
# Calls that a program makes

Which calls a program over a block device makes depends on what the device answers.
`Leads D P K m Q` says that from every state in `K`, `m` makes calls of `P` only and ends
in `Q`; the device and what it holds are not restricted. `Keeps D P K m R` is the case in
which it ends in `K` again, and returns what has `R`.

Results: one rule for each construct, `Leads.calls`, and `Leads.andThen` for a program
whose second half ends in other states.
-/
namespace Tfm.BlockDev

section Within

variable {ε σ δ α β : Type}

/-- Every call of `io` from `d` has `P`, and it ends in `Q`. -/
def Io.within (D : Dev ε δ) (P : Op → Prop) (Q : α → δ → Prop) : Io ε α → δ → Prop
  | .ret a, d => Q a d
  | .call o k, d => P o ∧ (k (D d o).1).within D P Q (D d o).2

variable {D : Dev ε δ} {P : Op → Prop}

theorem Io.within_iff {Q : α → δ → Prop} : ∀ (io : Io ε α) (d : δ),
    io.within D P Q d ↔ (∀ o ∈ io.calls D d, P o) ∧ Q (io.run D d).1 (io.run D d).2 := by
  intro io
  induction io with
  | ret a => exact fun d => ⟨fun h => ⟨nofun, h⟩, fun h => h.2⟩
  | call o k ih =>
    intro d
    simp only [Io.within, Io.calls, Io.run, List.forall_mem_cons, ih, and_assoc]

theorem Io.within_mono {Q Q' : α → δ → Prop} (hQ : ∀ a d, Q a d → Q' a d) : ∀ (io : Io ε α)
    (d : δ), io.within D P Q d → io.within D P Q' d := by
  intro io
  induction io with
  | ret a => exact fun d h => hQ a d h
  | call o k ih => exact fun d h => ⟨h.1, ih _ _ h.2⟩

theorem Io.within_bind {Q : β → δ → Prop} {f : α → Io ε β} : ∀ (io : Io ε α) (d : δ),
    io.within D P (fun a d' => (f a).within D P Q d') d → (io.bind f).within D P Q d := by
  intro io
  induction io with
  | ret a => exact fun d h => h
  | call o k ih => exact fun d h => ⟨h.1, ih _ _ h.2⟩

end Within

theorem Io.bind_ret {ε α : Type} : ∀ io : Io ε α, io.bind Io.ret = io := by
  intro io
  induction io with
  | ret a => rfl
  | call o k ih => exact congrArg (Io.call o) (funext ih)

theorem Io.bind_assoc {ε α β γ : Type} (f : α → Io ε β) (g : β → Io ε γ) : ∀ io : Io ε α,
    (io.bind f).bind g = io.bind fun a => (f a).bind g := by
  intro io
  induction io with
  | ret a => rfl
  | call o k ih => exact congrArg (Io.call o) (funext ih)

instance {ε σ : Type} : LawfulMonad (Prog ε σ) := by
  refine LawfulMonad.mk' (Prog ε σ) (fun m => ?_) (fun _ _ => rfl) fun m f g => ?_
  · funext x
    refine Eq.trans (congrArg (Io.bind (m x)) (funext fun r => ?_)) (Io.bind_ret (m x))
    obtain ⟨r, x'⟩ := r
    cases r <;> rfl
  · funext x
    refine (Io.bind_assoc _ _ (m x)).trans (congrArg (Io.bind (m x)) (funext fun r => ?_))
    obtain ⟨r, x'⟩ := r
    cases r <;> rfl

/-! ## Programs with a context -/

section Leads

variable {ε σ δ α β : Type}

/-- From every state in `K`, `m` makes calls of `P` only, and ends in `Q`. -/
def Leads (D : Dev ε δ) (P : Op → Prop) (K : σ → δ → Prop) (m : Prog ε σ α)
    (Q : Except ε α → σ → δ → Prop) : Prop :=
  ∀ x d, K x d → (m x).within D P (fun r d' => Q r.1 r.2 d') d

/-- The end is in `K`, and what is returned has `R`. -/
def Ends (K : σ → δ → Prop) (R : α → Prop) (r : Except ε α) (x : σ) (d : δ) : Prop :=
  K x d ∧ ∀ a, r = .ok a → R a

/-- From every state in `K`, `m` makes calls of `P` only, ends in `K`, and returns
what has `R`. -/
abbrev Keeps (D : Dev ε δ) (P : Op → Prop) (K : σ → δ → Prop) (m : Prog ε σ α)
    (R : α → Prop) : Prop := Leads D P K m (Ends K R)

variable {D : Dev ε δ} {P : Op → Prop} {K J : σ → δ → Prop} {Q : Except ε α → σ → δ → Prop}

theorem Leads.calls {m : Prog ε σ α} (h : Leads D P K m Q) {x : σ} {d : δ} (hK : K x d) :
    ∀ o ∈ (m x).calls D d, P o := ((Io.within_iff (m x) d).mp (h x d hK)).1

theorem Leads.ends {m : Prog ε σ α} (h : Leads D P K m Q) {x : σ} {d : δ} (hK : K x d) :
    Q ((m x).run D d).1.1 ((m x).run D d).1.2 ((m x).run D d).2 :=
  ((Io.within_iff (m x) d).mp (h x d hK)).2

/-- From one state, the end is that of the run. -/
theorem Leads.exactly {m : Prog ε σ α} (h : Leads D P K m Q) {x : σ} {d : δ} (hK : K x d) :
    Leads D P (fun x' d' => x' = x ∧ d' = d) m fun r x' d' =>
      Q r x' d' ∧ ((r, x'), d') = (m x).run D d := by
  intro x' d' hx
  obtain ⟨rfl, rfl⟩ := hx
  exact (Io.within_iff (m x') d').mpr ⟨h.calls hK, h.ends hK, rfl⟩

theorem Leads.mono {m : Prog ε σ α} {Q' : Except ε α → σ → δ → Prop} (h : Leads D P K m Q)
    (hQ : ∀ r x d, Q r x d → Q' r x d) : Leads D P K m Q' := fun x d hK =>
  Io.within_mono (fun _ _ => hQ _ _ _) _ _ (h x d hK)

theorem Leads.from {m : Prog ε σ α} (h : Leads D P K m Q) (hJ : ∀ x d, J x d → K x d) :
    Leads D P J m Q := fun x d hK => h x d (hJ x d hK)

/-- What all of `K` have can be assumed. -/
theorem leads_assume {A : Prop} {m : Prog ε σ α} (hA : ∀ x d, K x d → A)
    (h : A → Leads D P K m Q) : Leads D P K m Q := fun x d hK => h (hA x d hK) x d hK

theorem leads_pure {a : α} (h : ∀ x d, K x d → Q (.ok a) x d) : Leads D P K (pure a) Q := h

theorem leads_throw {e : ε} (h : ∀ x d, K x d → Q (.error e) x d) : Leads D P K (throw e) Q := h

theorem leads_modify {g : σ → σ} {Q : Except ε Unit → σ → δ → Prop}
    (h : ∀ x d, K x d → Q (.ok ()) (g x) d) : Leads D P K (modify g) Q := h

theorem leads_call {o : Op} {Q : Except ε (List UInt8) → σ → δ → Prop} (hP : P o)
    (h : ∀ x d, K x d → Q (D d o).1 x (D d o).2) : Leads D P K (call o) Q :=
  fun x d hK => ⟨hP, h x d hK⟩

theorem Leads.bind {S : Except ε β → σ → δ → Prop} {m : Prog ε σ β} {f : β → Prog ε σ α}
    (h : Leads D P K m S) (he : ∀ e x d, S (.error e) x d → Q (.error e) x d)
    (hf : ∀ b, Leads D P (S (.ok b)) (f b) Q) : Leads D P K (m >>= f) Q := by
  intro x d hK
  apply Io.within_bind
  refine Io.within_mono ?_ _ _ (h x d hK)
  intro r d' hS
  obtain ⟨r, x'⟩ := r
  cases r with
  | ok b => exact hf b x' d' hS
  | error e => exact he e x' d' hS

/-- The context that is read is that of a state in `K`. -/
theorem leads_get {f : σ → Prog ε σ α} (hf : ∀ x, Leads D P (fun x' d => x' = x ∧ K x' d) (f x) Q) :
    Leads D P K (get >>= f) Q := fun x d hK => hf x x d ⟨rfl, hK⟩

theorem leads_attempt {m : Prog ε σ α} {Q : Except ε (Except ε α) → σ → δ → Prop}
    (h : Leads D P K m fun r => Q (.ok r)) : Leads D P K (attempt m) Q := by
  intro x d hK
  apply Io.within_bind
  exact h x d hK

theorem leads_recast {m : Prog ε σ α} {e : ε}
    (h : Leads D P K m fun r => Q (r.mapError fun _ => e)) : Leads D P K (recast e m) Q := by
  intro x d hK
  apply Io.within_bind
  exact h x d hK

theorem leads_ite {p : Prop} [Decidable p] {m m' : Prog ε σ α} (h : p → Leads D P K m Q)
    (h' : ¬ p → Leads D P K m' Q) : Leads D P K (if p then m else m') Q := by
  split
  · next hp => exact h hp
  · next hp => exact h' hp

/-! ## Programs that keep a set of states -/

variable {R : α → Prop} {S : β → Prop}

theorem keeps_pure {a : α} (h : R a) : Leads D P K (pure a) (Ends K R) :=
  leads_pure fun _ _ hK => ⟨hK, fun _ ha => Except.ok.inj ha ▸ h⟩

theorem keeps_throw {e : ε} : Leads D P K (throw e) (Ends K R) := leads_throw fun _ _ hK => by
  refine ⟨hK, fun a ha => ?_⟩
  cases ha

theorem keeps_modify {g : σ → σ} (h : ∀ x d, K x d → J (g x) d) :
    Leads D P K (modify g) (Ends J fun _ => True) :=
  leads_modify fun x d hK => ⟨h x d hK, fun _ _ => trivial⟩

theorem keeps_call {o : Op} {R : List UInt8 → Prop} (hP : P o)
    (h : ∀ x d, K x d → J x (D d o).2 ∧ ∀ l, (D d o).1 = .ok l → R l) :
    Leads D P K (call o) (Ends J R) := leads_call hP h

/-- The second half can end in other states. -/
theorem Leads.andThen {K' : σ → δ → Prop} {m : Prog ε σ β} {f : β → Prog ε σ α}
    (h : Leads D P K m (Ends K' S)) (hJ : ∀ x d, K' x d → J x d)
    (hf : ∀ b, S b → Leads D P K' (f b) (Ends J R)) : Leads D P K (m >>= f) (Ends J R) := by
  refine Leads.bind h (fun e x d hS => ⟨hJ x d hS.1, fun a ha => ?_⟩) fun b x d hS => ?_
  · cases ha
  · exact hf b (hS.2 b rfl) x d hS.1

theorem keeps_bind {m : Prog ε σ β} {f : β → Prog ε σ α} (h : Keeps D P K m S)
    (hf : ∀ b, S b → Keeps D P K (f b) R) : Keeps D P K (m >>= f) R :=
  h.andThen (fun _ _ => id) hf

theorem keeps_attempt {m : Prog ε σ α} (h : Leads D P K m (Ends J R)) :
    Leads D P K (attempt m) (Ends J fun r => ∀ a, r = .ok a → R a) := by
  refine leads_attempt (h.mono fun r x d hr => ⟨hr.1, fun r' hr' => ?_⟩)
  cases hr'
  exact hr.2

theorem keeps_recast {m : Prog ε σ α} {e : ε} (h : Leads D P K m (Ends J R)) :
    Leads D P K (recast e m) (Ends J R) := by
  refine leads_recast (h.mono fun r x d hr => ⟨hr.1, fun a ha => ?_⟩)
  cases r with
  | ok b =>
    cases ha
    exact hr.2 _ rfl
  | error e' => cases ha

theorem Leads.weaken {m : Prog ε σ α} {R' : α → Prop} (h : Leads D P K m (Ends J R))
    (hR : ∀ a, R a → R' a) : Leads D P K m (Ends J R') :=
  h.mono fun _ _ _ hr => ⟨hr.1, fun a ha => hR a (hr.2 a ha)⟩

/-! ## Programs that succeed -/

/-- If nothing went wrong, the end is in `J`. -/
def OnOk (J : σ → δ → Prop) (r : Except ε α) (x : σ) (d : δ) : Prop := ∀ a, r = .ok a → J x d

theorem Ends.onOk {r : Except ε α} {x : σ} {d : δ} (h : Ends J R r x d) : OnOk J r x d :=
  fun _ _ => h.1

theorem leads_onOk_bind {K' : σ → δ → Prop} {m : Prog ε σ β} {f : β → Prog ε σ α}
    (h : Leads D P K m (OnOk K')) (hf : ∀ b, Leads D P K' (f b) (OnOk J)) :
    Leads D P K (m >>= f) (OnOk J) := by
  refine Leads.bind h (fun e x d _ a ha => ?_) fun b => (hf b).from fun x d hS => hS b rfl
  cases ha

end Leads

end Tfm.BlockDev
