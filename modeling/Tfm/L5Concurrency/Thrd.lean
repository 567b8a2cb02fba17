import Mathlib.Data.List.Sort
import Mathlib.Data.Fintype.Card
import Tfm.Core.Chain
import Tfm.Core.Index
import Tfm.Core.LTS

/-!
# Threads of the SPM

The threads that were started are a singly linked list, by priority; a lower value is a
higher priority. `RNBL_HEAD` points into the list, and the scheduler searches from there.
Setting a thread's state moves it to this thread or back to the head of the list.

Threads are named by their number, and have any priorities. The pointers of a thread that
was not started are not used, and may be anything. A loop over the list gets as much fuel as
there are threads, and `none` is a loop that does not end.

Results:
* `start_list`: `tfm_core_thrd_start` inserts by priority.
* `setState_fits`: nothing before `RNBL_HEAD` is runnable, after any change of a state.
* `inv_inductive`: the invariant of every run.
* `get_next_first`: in every run, the scheduler finds the first runnable thread.
-/
namespace Tfm.L5.Thrd
open Tfm.Chain

variable {n : Nat}

/-- mirrors secure_fw/spm/cmsis_psa/tfm_thread.h:16-21 -/
inductive ThrdState
  | creating
  | runnable
  | block
  | detach
  deriving DecidableEq, Repr

/-- mirrors secure_fw/spm/cmsis_psa/tfm_thread.h:41-52 -/
structure Thread where
  /-- `pfn` is not null -/
  pfn : Bool
  stkBtm : Nat
  stkTop : Nat
  prior : Nat
  state : ThrdState
  deriving DecidableEq, Repr

structure St (n : Nat) where
  thrd : Fin n → Thread
  /-- `next` of each thread -/
  next : Fin n → Option (Fin n)
  listHead : Option (Fin n)
  rnblHead : Option (Fin n)
  /-- ghost -/
  started : List (Fin n)

def St.prior (s : St n) (t : Fin n) : Nat := (s.thrd t).prior

def St.runnable (s : St n) (t : Fin n) : Bool := (s.thrd t).state == .runnable

/-! ## The scheduler -/

/-- The first runnable thread from a pointer on. -/
def search (s : St n) (p : Option (Fin n)) : Option (Option (Fin n)) :=
  findFrom s.next s.runnable (n + 1) p

/-- mirrors secure_fw/spm/cmsis_psa/tfm_thread.c:26-39 -/
def getNext (s : St n) : Option (Option (Fin n)) := search s s.rnblHead

/-- mirrors secure_fw/spm/cmsis_psa/tfm_thread.c:48-63 -/
def insertByPrior (s : St n) (node : Fin n) : Option (St n) :=
  match s.listHead with
  | none => some { s with next := Function.update s.next node none, listHead := some node }
  | some h =>
    if s.prior node ≤ s.prior h then
      some { s with next := Function.update s.next node (some h), listHead := some node }
    else
      (lastWhile s.next (fun t => decide (s.prior t < s.prior node)) (n + 1) h).map fun iter =>
        { s with next := insertAfter s.next iter node }

/-- mirrors secure_fw/spm/cmsis_psa/tfm_thread.c:101-117 -/
def setState (s : St n) (t : Fin n) (newState : ThrdState) : St n :=
  { s with
    thrd := Function.update s.thrd t { s.thrd t with state := newState }
    rnblHead :=
      if newState = .runnable ∧ s.rnblHead.all (fun a => decide (s.prior t < s.prior a)) then some t
      else s.listHead }

inductive Err
  | success
  | invalidParam
  deriving DecidableEq, Repr

/-- mirrors secure_fw/spm/cmsis_psa/tfm_thread.c:78-99 -/
def start (s : St n) (t : Fin n) : Option (Err × St n) :=
  if (s.thrd t).state ≠ .creating ∨ (s.thrd t).pfn = false ∨ (s.thrd t).stkBtm = 0 ∨
      (s.thrd t).stkTop = 0 then some (.invalidParam, s)
  else
    (insertByPrior s t).map fun s₁ =>
      (.success, { setState s₁ t .runnable with started := t :: s.started })

/-! ## Transition system -/

inductive Lbl (n : Nat)
  | start (t : Fin n)
  | setState (t : Fin n) (newState : ThrdState)
  deriving DecidableEq, Repr

/-- The state of a thread is set only when it was started, and not back to
`THRD_STATE_CREATING`. -/
def step (s : St n) : Lbl n → Option (St n)
  | .start t => (start s t).map Prod.snd
  | .setState t newState =>
    if t ∈ s.started ∧ newState ≠ .creating then some (setState s t newState) else none

/-- After `tfm_core_thrd_init` of every thread. -/
def Init (s : St n) : Prop :=
  (∀ t, (s.thrd t).state = .creating) ∧ s.listHead = none ∧ s.rnblHead = none ∧ s.started = []

def lts (n : Nat) : LTS (St n) (Lbl n) := LTS.ofFn Init step

/-! ## The list -/

/-- The threads of the list are `l`, by priority. -/
structure ThreadList (s : St n) (l : List (Fin n)) : Prop where
  path : Path s.next s.listHead l none
  nodup : l.Nodup
  sorted : l.Pairwise fun a b => s.prior a ≤ s.prior b

theorem ThreadList.length_lt {s : St n} {l : List (Fin n)} (h : ThreadList s l) :
    l.length < n + 1 := by
  have hcard := List.Nodup.length_le_card h.nodup
  rw [Fintype.card_fin] at hcard
  omega

/-- The list depends on the pointers and the priorities only. -/
theorem ThreadList.congr {s s' : St n} {l : List (Fin n)} (h : ThreadList s l)
    (hn : s'.next = s.next) (hh : s'.listHead = s.listHead) (hp : ∀ t, s'.prior t = s.prior t) :
    ThreadList s' l := by
  refine ⟨?_, h.nodup, ?_⟩
  · rw [hn, hh]
    exact h.path
  · simp only [hp]
    exact h.sorted

instance (s : St n) : Std.Total fun a b => s.prior a ≤ s.prior b := ⟨fun _ _ => Nat.le_total _ _⟩

instance (s : St n) : IsTrans (Fin n) fun a b => s.prior a ≤ s.prior b :=
  ⟨fun _ _ _ => Nat.le_trans⟩

theorem insertByPrior_path {s : St n} {l : List (Fin n)} {t : Fin n} (h : ThreadList s l)
    (ht : t ∉ l) : ∃ next head, insertByPrior s t = some { s with next := next, listHead := head } ∧
      Path next head (l.orderedInsert (fun a b => s.prior a ≤ s.prior b) t) none := by
  have hpath := h.path
  cases l with
  | nil =>
    have hh : s.listHead = none := hpath
    refine ⟨_, _, by simp only [insertByPrior, hh]; rfl, ?_⟩
    exact path_insertFirst (p := none) (List.not_mem_nil) rfl
  | cons a l =>
    have hh := path_head hpath
    by_cases hle : s.prior t ≤ s.prior a
    · refine ⟨_, _, by simp only [insertByPrior, hh, if_pos hle]; rfl, ?_⟩
      rw [List.orderedInsert_cons_of_le (fun a b => s.prior a ≤ s.prior b) l hle]
      rw [hh] at hpath
      exact path_insertFirst ht hpath
    · have hfuel : l.length < n + 1 := by
        have := h.length_lt
        rw [List.length_cons] at this
        omega
      have hloop := lastWhile_path (fun u => decide (s.prior u < s.prior t)) hpath.2 hfuel
      refine ⟨_, s.listHead, by simp only [insertByPrior, hh, if_neg hle, hloop]; rfl, ?_⟩
      have hins := path_insertWhile (fun u => decide (s.prior u < s.prior t)) h.nodup ht hpath
      rw [List.orderedInsert_of_not_le (fun a b => s.prior a ≤ s.prior b) l hle,
        List.orderedInsert_eq_take_drop]
      simp only [Nat.not_le]
      exact hins

/-- Inserting a thread keeps the order, and puts it before those of its priority. -/
theorem insertByPrior_list {s : St n} {l : List (Fin n)} {t : Fin n} (h : ThreadList s l)
    (ht : t ∉ l) : ∃ next head, insertByPrior s t = some { s with next := next, listHead := head } ∧
      ThreadList { s with next := next, listHead := head }
        (l.orderedInsert (fun a b => s.prior a ≤ s.prior b) t) := by
  obtain ⟨next, head, he, hpath⟩ := insertByPrior_path h ht
  have hperm := List.perm_orderedInsert (fun a b => s.prior a ≤ s.prior b) t l
  exact ⟨next, head, he, hpath, hperm.nodup_iff.2 (List.nodup_cons.2 ⟨ht, h.nodup⟩),
    h.sorted.orderedInsert t l⟩

/-! ## The first runnable thread -/

/-- Nothing before `RNBL_HEAD` is runnable. -/
def Fits (s : St n) (l : List (Fin n)) : Prop :=
  match s.rnblHead with
  | none => ∀ t ∈ l, s.runnable t = false
  | some a => ∃ l₁ l₂, l = l₁ ++ a :: l₂ ∧ ∀ t ∈ l₁, s.runnable t = false

/-- The search from `RNBL_HEAD` is the search of the whole list. -/
theorem getNext_of_fits {s : St n} {l : List (Fin n)} (h : ThreadList s l) (hf : Fits s l) :
    getNext s = some (l.find? s.runnable) := by
  unfold Fits at hf
  have hlen := h.length_lt
  have hpath := h.path
  cases hr : s.rnblHead with
  | none =>
    simp only [hr] at hf
    have hnone : l.find? s.runnable = none := by
      rw [List.find?_eq_none]
      intro t ht
      simp [hf t ht]
    simp only [getNext, search, hr, hnone, findFrom]
  | some a =>
    simp only [hr] at hf
    obtain ⟨l₁, l₂, rfl, hoff⟩ := hf
    obtain ⟨r, -, hrest⟩ := path_append.1 hpath
    have hra := path_head hrest
    rw [hra] at hrest
    have hlen₂ : (a :: l₂).length < n + 1 := by
      rw [List.length_append] at hlen
      omega
    have hskip : l₁.find? s.runnable = none := by
      rw [List.find?_eq_none]
      intro t ht
      simp [hoff t ht]
    rw [getNext, search, hr, findFrom_path s.runnable hrest hlen₂, List.find?_append, hskip,
      Option.none_or]

theorem orderedInsert_split (r : Fin n → Fin n → Prop) [DecidableRel r] (t a : Fin n)
    (l₂ : List (Fin n)) :
    ∀ l₁ : List (Fin n), ∃ m₁ m₂, (l₁ ++ a :: l₂).orderedInsert r t = m₁ ++ a :: m₂ ∧
      ∀ u ∈ m₁, u = t ∨ u ∈ l₁
  | [] => by
    by_cases h : r t a
    · exact ⟨[t], l₂, by simp [h], by simp⟩
    · exact ⟨[], l₂.orderedInsert r t, by simp [h], by simp⟩
  | b :: l₁ => by
    by_cases h : r t b
    · exact ⟨t :: b :: l₁, l₂, by simp [h], by simp⟩
    · obtain ⟨m₁, m₂, hm, hoff⟩ := orderedInsert_split r t a l₂ l₁
      refine ⟨b :: m₁, m₂, by simp [h, hm], ?_⟩
      intro u hu
      rcases List.mem_cons.1 hu with rfl | hu
      · exact .inr List.mem_cons_self
      · rcases hoff u hu with hu | hu
        · exact .inl hu
        · exact .inr (List.mem_cons_of_mem _ hu)

/-- A thread that does not run yet is inserted without harm. -/
theorem Fits.insert {s : St n} {l : List (Fin n)} {t : Fin n} {next : Fin n → Option (Fin n)}
    {head : Option (Fin n)} (hf : Fits s l) (ht : s.runnable t = false) :
    Fits { s with next := next, listHead := head }
      (l.orderedInsert (fun a b => s.prior a ≤ s.prior b) t) := by
  unfold Fits at *
  cases hr : s.rnblHead with
  | none =>
    simp only [hr] at hf ⊢
    intro u hu
    rcases (List.mem_orderedInsert _).1 hu with rfl | hu
    · exact ht
    · exact hf u hu
  | some a =>
    simp only [hr] at hf ⊢
    obtain ⟨l₁, l₂, rfl, hoff⟩ := hf
    obtain ⟨m₁, m₂, hm, hsub⟩ :=
      orderedInsert_split (fun a b => s.prior a ≤ s.prior b) t a l₂ l₁
    refine ⟨m₁, m₂, hm, ?_⟩
    intro u hu
    rcases hsub u hu with rfl | hu
    · exact ht
    · exact hoff u hu

/-! ## What `tfm_core_thrd_set_state` keeps -/

@[simp] theorem setState_prior (s : St n) (t u : Fin n) (state : ThrdState) :
    (setState s t state).prior u = s.prior u := by
  by_cases h : u = t
  · simp [setState, St.prior, h]
  · simp [setState, St.prior, h]

theorem setState_runnable_other {s : St n} {t u : Fin n} (state : ThrdState) (h : u ≠ t) :
    (setState s t state).runnable u = s.runnable u := by
  simp [setState, St.runnable, h]

theorem setState_list {s : St n} {l : List (Fin n)} (h : ThreadList s l) (t : Fin n)
    (state : ThrdState) : ThreadList (setState s t state) l :=
  h.congr rfl rfl fun _ => setState_prior s t _ state

/-- The case in which `RNBL_HEAD` is the head of the list. -/
theorem fits_of_head {s : St n} {l : List (Fin n)} (h : ThreadList s l)
    (hr : s.rnblHead = s.listHead) : Fits s l := by
  unfold Fits
  have hpath := h.path
  rw [hr]
  cases l with
  | nil =>
    have hh : s.listHead = none := hpath
    simp [hh]
  | cons a l =>
    have hh := path_head hpath
    simp only [hh]
    exact ⟨[], l, rfl, fun _ ht => absurd ht List.not_mem_nil⟩

/-- What comes before a thread of the list that gets `RNBL_HEAD`. -/
theorem before_new_head {s : St n} {l : List (Fin n)} {t : Fin n} (h : ThreadList s l)
    (hf : Fits s l) (ht : t ∈ l)
    (hnew : s.rnblHead.all (fun a => decide (s.prior t < s.prior a)) = true) :
    ∃ l₁ l₂, l = l₁ ++ t :: l₂ ∧ ∀ u ∈ l₁, s.runnable u = false := by
  unfold Fits at hf
  cases hr : s.rnblHead with
  | none =>
    simp only [hr] at hf
    obtain ⟨l₁, l₂, rfl⟩ := List.append_of_mem ht
    exact ⟨l₁, l₂, rfl, fun u hu => hf u (List.mem_append_left _ hu)⟩
  | some a =>
    simp only [hr, Option.all_some, decide_eq_true_eq] at hf hnew
    obtain ⟨m₁, m₂, rfl, hoff⟩ := hf
    -- the list is sorted, so a thread of a higher priority is before `a`
    have ht₁ : t ∈ m₁ := by
      have hsorted := (List.pairwise_append.1 h.sorted).2.1
      rcases List.mem_append.1 ht with ht | ht
      · exact ht
      · rcases List.mem_cons.1 ht with rfl | ht
        · omega
        · have := (List.pairwise_cons.1 hsorted).1 t ht
          omega
    obtain ⟨l₁, l₂, rfl⟩ := List.append_of_mem ht₁
    refine ⟨l₁, l₂ ++ a :: m₂, by simp, ?_⟩
    intro u hu
    exact hoff u (List.mem_append_left _ hu)

/-- Nothing before `RNBL_HEAD` is runnable after a change of the state of any thread of the
list. -/
theorem setState_fits {s : St n} {l : List (Fin n)} {t : Fin n} (state : ThrdState)
    (h : ThreadList s l) (hf : Fits s l) (ht : t ∈ l) : Fits (setState s t state) l := by
  by_cases hc : state = .runnable ∧ s.rnblHead.all (fun a => decide (s.prior t < s.prior a))
  · have hnew : (setState s t state).rnblHead = some t := by simp only [setState, if_pos hc]
    obtain ⟨l₁, l₂, rfl, hoff⟩ := before_new_head h hf ht hc.2
    unfold Fits
    rw [hnew]
    refine ⟨l₁, l₂, rfl, ?_⟩
    intro u hu
    have hut : u ≠ t := by
      intro hx
      subst hx
      exact (List.nodup_append.1 h.nodup).2.2 u hu u List.mem_cons_self rfl
    rw [setState_runnable_other state hut]
    exact hoff u hu
  · refine fits_of_head (setState_list h t state) ?_
    simp only [setState, if_neg hc]

/-! ## Runs -/

/-- The list has every thread that was started, once. -/
structure Inv (s : St n) (l : List (Fin n)) : Prop where
  list : ThreadList s l
  fits : Fits s l
  mem : ∀ t, t ∈ l ↔ t ∈ s.started
  creating : ∀ t, (s.thrd t).state = .creating ↔ t ∉ s.started

theorem inv_init {s : St n} (h : Init s) : Inv s [] := by
  obtain ⟨hc, hl, hr, hs⟩ := h
  refine ⟨⟨hl, List.nodup_nil, List.Pairwise.nil⟩, ?_, ?_, ?_⟩
  · simp [Fits, hr]
  · simp [hs]
  · simp [hs, hc]

theorem inv_setState {s : St n} {l : List (Fin n)} {t : Fin n} {state : ThrdState}
    (h : Inv s l) (ht : t ∈ s.started) (hs : state ≠ .creating) :
    Inv (setState s t state) l := by
  refine ⟨setState_list h.list t state, setState_fits state h.list h.fits ((h.mem t).2 ht),
    h.mem, ?_⟩
  intro u
  by_cases hu : u = t
  · subst hu
    simp [setState, ht, hs]
  · have hkeep := h.creating u
    simpa [setState, hu] using hkeep

theorem start_list {s : St n} {l : List (Fin n)} {t : Fin n} (h : Inv s l)
    (hcreating : (s.thrd t).state = .creating) (hpfn : (s.thrd t).pfn = true)
    (hbtm : (s.thrd t).stkBtm ≠ 0) (htop : (s.thrd t).stkTop ≠ 0) :
    ∃ s', start s t = some (.success, s') ∧ s'.started = t :: s.started ∧
      Inv s' (l.orderedInsert (fun a b => s.prior a ≤ s.prior b) t) := by
  have hfresh := (h.creating t).1 hcreating
  have ht : t ∉ l := fun hl => hfresh ((h.mem t).1 hl)
  obtain ⟨next, head, he, hlist⟩ := insertByPrior_list h.list ht
  have hfits : Fits { s with next := next, listHead := head }
      (l.orderedInsert (fun a b => s.prior a ≤ s.prior b) t) :=
    h.fits.insert (by simp [St.runnable, hcreating])
  have hin : t ∈ l.orderedInsert (fun a b => s.prior a ≤ s.prior b) t :=
    (List.mem_orderedInsert _).2 (.inl rfl)
  refine ⟨_, by simp [start, hcreating, hpfn, hbtm, htop, he]; rfl, rfl, ?_⟩
  have hlist' := setState_list hlist t .runnable
  have hfits' := setState_fits .runnable hlist hfits hin
  refine ⟨⟨hlist'.path, hlist'.nodup, hlist'.sorted⟩, hfits', ?_, ?_⟩
  · intro u
    rw [List.mem_orderedInsert, h.mem u]
    exact List.mem_cons.symm
  · intro u
    by_cases hu : u = t
    · subst hu
      simp [setState]
    · have hkeep := h.creating u
      simpa [setState, hu] using hkeep

theorem inv_step {s s' : St n} {lbl : Lbl n} {l : List (Fin n)} (h : Inv s l)
    (hs : step s lbl = some s') : ∃ l', Inv s' l' := by
  cases lbl with
  | start t =>
    by_cases hbad : (s.thrd t).state ≠ .creating ∨ (s.thrd t).pfn = false ∨
        (s.thrd t).stkBtm = 0 ∨ (s.thrd t).stkTop = 0
    · simp only [step, start, if_pos hbad, Option.map_some, Option.some.injEq] at hs
      exact ⟨l, hs ▸ h⟩
    · simp only [not_or, ne_eq, Decidable.not_not, Bool.not_eq_false] at hbad
      obtain ⟨hc, hpfn, hbtm, htop⟩ := hbad
      obtain ⟨s₁, he, -, hinv⟩ := start_list h hc hpfn hbtm htop
      simp only [step, he, Option.map_some, Option.some.injEq] at hs
      exact ⟨_, hs ▸ hinv⟩
  | setState t state =>
    by_cases hok : t ∈ s.started ∧ state ≠ .creating
    · simp only [step, if_pos hok, Option.some.injEq] at hs
      exact ⟨l, hs ▸ inv_setState h hok.1 hok.2⟩
    · simp only [step, if_neg hok, reduceCtorEq] at hs

theorem inv_inductive : (lts n).Inductive fun s => ∃ l, Inv s l where
  init _ h := ⟨[], inv_init h⟩
  step _ _ _ h hs := by
    obtain ⟨l, h⟩ := h
    exact inv_step h hs

/-- `tfm_core_thrd_start` always returns. -/
theorem start_returns {s : St n} {l : List (Fin n)} (h : Inv s l) (t : Fin n) :
    (start s t).isSome := by
  by_cases hbad : (s.thrd t).state ≠ .creating ∨ (s.thrd t).pfn = false ∨
      (s.thrd t).stkBtm = 0 ∨ (s.thrd t).stkTop = 0
  · simp only [start, if_pos hbad, Option.isSome_some]
  · simp only [not_or, ne_eq, Decidable.not_not, Bool.not_eq_false] at hbad
    obtain ⟨hc, hpfn, hbtm, htop⟩ := hbad
    obtain ⟨s₁, he, -, -⟩ := start_list h hc hpfn hbtm htop
    simp [he]

/-! ## The scheduler's law -/

/-- `t` is the thread to run: no runnable thread has a higher priority. -/
def Highest (s : St n) (t : Fin n) : Prop :=
  s.runnable t = true ∧ ∀ u, s.runnable u = true → s.prior t ≤ s.prior u

theorem find_highest {s : St n} {l : List (Fin n)} {t : Fin n} (h : ThreadList s l)
    (hall : ∀ u, s.runnable u = true → u ∈ l) (hfind : l.find? s.runnable = some t) :
    Highest s t := by
  obtain ⟨hrun, l₁, l₂, rfl, hbefore⟩ := List.find?_eq_some_iff_append.1 hfind
  refine ⟨hrun, ?_⟩
  intro u hu
  have hsorted := (List.pairwise_append.1 h.sorted).2.1
  rcases List.mem_append.1 (hall u hu) with hm | hm
  · have hoff := hbefore u hm
    simp [hu] at hoff
  · rcases List.mem_cons.1 hm with rfl | hm
    · exact Nat.le_refl _
    · exact (List.pairwise_cons.1 hsorted).1 u hm

theorem Inv.all {s : St n} {l : List (Fin n)} (h : Inv s l) {u : Fin n}
    (hu : s.runnable u = true) : u ∈ l := by
  by_contra hout
  have hstate := (h.creating u).2 fun hst => hout ((h.mem u).2 hst)
  simp [St.runnable, hstate] at hu

/-- What the scheduler does: the list holds every started thread once, by priority, and the
search from `RNBL_HEAD` finds what a search of the whole list finds, the first runnable thread,
of the highest priority. Starting a thread always ends. -/
def SchedLaw (s : St n) : Prop :=
  (∃ l, ThreadList s l ∧ (∀ t, t ∈ l ↔ t ∈ s.started) ∧
    getNext s = some (l.find? s.runnable) ∧ search s s.listHead = some (l.find? s.runnable)) ∧
  (∀ t, getNext s = some (some t) → Highest s t) ∧
  (getNext s = some none ↔ ∀ t, s.runnable t = false) ∧
  ∀ t, (start s t).isSome

/-- **In every run, the scheduler's search from `RNBL_HEAD` is the search of the whole list.** -/
theorem get_next_first (s : St n) (h : (lts n).Reachable s) : SchedLaw s := by
  obtain ⟨l, hinv⟩ := inv_inductive.reachable s h
  have hget := getNext_of_fits hinv.list hinv.fits
  have hsearch := findFrom_path s.runnable hinv.list.path hinv.list.length_lt
  refine ⟨⟨l, hinv.list, hinv.mem, hget, hsearch⟩, ?_, ?_, start_returns hinv⟩
  · intro t ht
    rw [hget, Option.some.injEq] at ht
    exact find_highest hinv.list (fun u hu => hinv.all hu) ht
  · rw [hget, Option.some.injEq, List.find?_eq_none]
    constructor
    · intro hnone t
      by_contra hrun
      rw [Bool.not_eq_false] at hrun
      exact hnone t (hinv.all hrun) hrun
    · intro hoff t _
      simp [hoff t]

/-- Three threads, of which the second has the highest priority. -/
def threeThreads : St 3 :=
  { thrd := fun t => ⟨true, 1, 1, if t = 1 then 0 else 0x7F, .creating⟩
    next := fun _ => none, listHead := none, rnblHead := none, started := [] }

/-- The last of the threads is woken while the second is blocked. -/
def wakeLast : List (Lbl 3) :=
  [.start 0, .start 1, .start 2, .setState 2 .block, .setState 1 .block, .setState 2 .runnable]

theorem get_next_wakeLast :
    ∃ s : St 3, LTS.exec step threeThreads wakeLast = some s ∧ getNext s = some (some 2) ∧
      SchedLaw s := by
  refine ⟨(LTS.exec step threeThreads wakeLast).get (by decide +kernel),
    (Option.some_get _).symm, by decide +kernel, ?_⟩
  refine get_next_first _ (LTS.reachable_exec wakeLast (.init ?_) (Option.some_get _).symm)
  exact ⟨by decide +kernel, rfl, rfl, rfl⟩

end Tfm.L5.Thrd
