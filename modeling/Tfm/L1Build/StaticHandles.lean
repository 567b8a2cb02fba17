import Mathlib.Data.List.Perm.Basic
import Tfm.Core.Rank
import Tfm.L1Build.ParseManifest

/-!
# Static handles: when the allocation is right

What the first loop of `process_stateless_services` does can be said of the list it goes
through (`seen`, `leftOver`): it places a service that asks for a value and passes over the
next, whatever that asks for. What it leaves is given to the free places in order, also
a service that asks for a value and was passed over.

Results:
* `fill_eq`: the first loop as a fold over the services it sees.
* `allocate_cases`: when the second loop raises, and what it gives to whom.
* `static_handles`: exactly when the handles are as the manifests ask.
* `static_handles_passed_over`: two services, the second without the handle it asks for.
-/
namespace Tfm.L1.Handles

open Tfm.Rank

variable {α : Type}

/-! ## The law and its condition -/

/-- The stateless services, in the order in which they are collected. -/
def stateless (ps : List (Partition α)) : List (Obj α) :=
  objects ((services ps).filter fun v => v.connectionBased == some false)

/-- The service has one place of the list, the one it asks for, and its handle decodes to
this place and its version. -/
structure Placed (n : Nat) (out : List (Option (Obj α)) × (Obj α → Field)) (x : Obj α) : Prop where
  once : ∃! i : Nat, out.1[i]? = some (some x)
  asked : ∀ z, x.service.statelessHandle = .value z →
    ∃ i : Nat, z = i + 1 ∧ out.1[i]? = some (some x)
  decoded : ∃ i : Nat, out.1[i]? = some (some x) ∧ ∃ w, (out.2 x).word = some w ∧
    isValidStaticHandle n w = true ∧ (getIndexFromStaticHandle w).toNat = i ∧
    (getVersionFromStaticHandle w).toNat = x.service.version

/-- No two services ask for one value. -/
def Distinct (l : List (Obj α)) : Prop :=
  ∀ x ∈ l, ∀ y ∈ l, ∀ z, x.service.statelessHandle = .value z →
    y.service.statelessHandle = .value z → x = y

/-- The explicit handles are distinct and in range. -/
structure Proper (l : List (Obj α)) (n : Nat) : Prop where
  distinct : Distinct l
  inRange : ∀ x ∈ l, ∀ z, x.service.statelessHandle = .value z → 1 ≤ z ∧ z ≤ n

structure HandleLaw [DecidableEq α] (ps : List (Partition α)) (n : Nat) : Prop where
  placed : ∀ out, processStatelessServices ps n = .ok out → ∀ x ∈ stateless ps, Placed n out x
  raises : n < (stateless ps).length ∨ ¬ Proper (stateless ps) n →
    ∃ e, processStatelessServices ps n = .error e

def Obj.explicit (x : Obj α) : Bool :=
  match x.service.statelessHandle with
  | .auto => false
  | .value _ => true

/-- Where a list of length `n` has the place that the service asks for. -/
def slotOf (n : Nat) (x : Obj α) : Option Nat :=
  match x.service.statelessHandle with
  | .auto => none
  | .value z => pyIndex n (z - 1)

/-- The services with a value that the first loop sees: not the one after one of them. -/
def seen : List (Obj α) → List (Obj α)
  | [] => []
  | [x] => if x.explicit then [x] else []
  | x :: y :: l => if x.explicit then x :: seen l else seen (y :: l)

/-- What is left in the list, `pre` before the loop's index. -/
def leftOver [DecidableEq α] : List (Obj α) → List (Obj α) → List (Obj α)
  | pre, [] => pre
  | pre, [x] => if x.explicit then removeEq x (pre ++ [x]) else pre ++ [x]
  | pre, x :: y :: l =>
    if x.explicit then leftOver (removeEq x (pre ++ [x]) ++ [y]) l
    else leftOver (pre ++ [x]) (y :: l)

/-- The first loop can place every service it sees. -/
def Placeable (n : Nat) (l : List (Obj α)) : Prop :=
  (∀ x ∈ seen l, (slotOf n x).isSome = true) ∧ ((seen l).map (slotOf n)).Nodup

/-- No service that the first loop sees has its place. -/
def unasked (n : Nat) (l : List (Obj α)) (j : Nat) : Bool :=
  decide (j ∉ (seen l).filterMap (slotOf n))

/-- The services left, each with a free place. -/
def given [DecidableEq α] (n : Nat) (l : List (Obj α)) : List (Obj α × Nat) :=
  (leftOver [] l).zip (free (unasked n l) n)

/-- A service that was placed is left in the list, for an equal one, and is given a place
before its own. -/
def GivenTwice [DecidableEq α] (n : Nat) (l : List (Obj α)) : Prop :=
  ∃ x f e, (x, f) ∈ given n l ∧ x ∈ seen l ∧ slotOf n x = some e ∧ f < e

/-- Who asks for a value and was passed over is given the place of that value. -/
def PassedOverFit [DecidableEq α] (n : Nat) (l : List (Obj α)) : Prop :=
  ∀ x f z, (x, f) ∈ given n l → x.service.statelessHandle = .value z → z = f + 1

/-- The script raises, or what the manifests ask for is proper and what the first loop passes
over fits. -/
def HandlesFit [DecidableEq α] (ps : List (Partition α)) (n : Nat) : Prop :=
  (∃ v ∈ services ps, v.connectionBased = none) ∨ n < (stateless ps).length ∨
    ¬ Placeable n (stateless ps) ∨ GivenTwice n (stateless ps) ∨
    Proper (stateless ps) n ∧ PassedOverFit n (stateless ps)

/-! ## Collection -/

theorem collect_ok {l : List (Service α)} (h : ∀ v ∈ l, v.connectionBased ≠ none) :
    collect l = .ok (l.filter fun v => v.connectionBased == some false) := by
  induction l with
  | nil => rfl
  | cons v l ih =>
    have hl := ih fun w hw => h w (List.mem_cons_of_mem _ hw)
    cases hb : v.connectionBased with
    | none => exact absurd hb (h v List.mem_cons_self)
    | some b =>
      simp only [collect, hb, hl, Except.map, List.filter_cons]
      cases b <;> rfl

theorem collect_error {l : List (Service α)} (h : ∃ v ∈ l, v.connectionBased = none) :
    ∃ e, collect l = .error e := by
  induction l with
  | nil =>
    obtain ⟨v, hv, -⟩ := h
    cases hv
  | cons w l ih =>
    cases hb : w.connectionBased with
    | none => exact ⟨.connectionBasedMandatory, by simp only [collect, hb]⟩
    | some b =>
      obtain ⟨v, hv, hn⟩ := h
      rcases List.mem_cons.1 hv with rfl | hv
      · rw [hb] at hn
        cases hn
      · obtain ⟨e, he⟩ := ih ⟨v, hv, hn⟩
        exact ⟨e, by simp only [collect, hb, he, Except.map]⟩

theorem nodup_objects (l : List (Service α)) : (objects l).Nodup := by
  refine List.Nodup.of_map Obj.ident ?_
  have hmap : (objects l).map Obj.ident = l.zipIdx.map Prod.snd := by
    simp [objects, Function.comp_def]
  rw [hmap, List.zipIdx_map_snd]
  exact List.nodup_range'

theorem length_objects (l : List (Service α)) : (objects l).length = l.length := by
  simp [objects]

/-! ## The first loop -/

section Turns

variable (x y : Obj α) (l : List (Obj α))

theorem seen_nil : seen ([] : List (Obj α)) = [] := rfl

theorem seen_single : seen [x] = if x.explicit then [x] else [] := rfl

theorem seen_cons : seen (x :: y :: l) = if x.explicit then x :: seen l else seen (y :: l) := rfl

variable [DecidableEq α] (pre : List (Obj α))

theorem leftOver_nil : leftOver pre [] = pre := by
  rw [leftOver.eq_def]

theorem leftOver_single :
    leftOver pre [x] = if x.explicit then removeEq x (pre ++ [x]) else pre ++ [x] := by
  rw [leftOver.eq_def]

theorem leftOver_cons :
    leftOver pre (x :: y :: l) =
      if x.explicit then leftOver (removeEq x (pre ++ [x]) ++ [y]) l
      else leftOver (pre ++ [x]) (y :: l) := by
  rw [leftOver.eq_def]

end Turns

theorem seen_sublist (l : List (Obj α)) : (seen l).Sublist l := by
  induction l using seen.induct with
  | case1 => exact .slnil
  | case2 x hx => simp [seen_single, hx]
  | case3 x hx => simp [seen_single, hx]
  | case4 x y l hx ih =>
    simp only [seen_cons, hx, if_true]
    exact (ih.cons y).cons_cons x
  | case5 x y l hx ih =>
    simp only [seen_cons, hx]
    exact ih.cons x

theorem seen_explicit {l : List (Obj α)} {x : Obj α} (h : x ∈ seen l) : x.explicit = true := by
  induction l using seen.induct with
  | case1 => cases h
  | case2 y hy =>
    simp only [seen_single, hy, if_true, List.mem_singleton] at h
    rw [h]
    exact hy
  | case3 y hy => simp [seen_single, hy] at h
  | case4 y w l hy ih =>
    simp only [seen_cons, hy, if_true, List.mem_cons] at h
    rcases h with rfl | h
    · exact hy
    · exact ih h
  | case5 y w l hy ih =>
    simp only [seen_cons, hy] at h
    exact ih h

theorem Obj.explicit_iff {x : Obj α} :
    x.explicit = true ↔ ∃ z, x.service.statelessHandle = .value z := by
  unfold Obj.explicit
  cases x.service.statelessHandle with
  | auto => simp
  | value z => simp

/-- A turn for a service that the loop sees. -/
def placeSeen (n : Nat) (slots : Nat → Option (Obj α)) (x : Obj α) :
    Except Raised (Nat → Option (Obj α)) :=
  match x.service.statelessHandle with
  | .auto => .ok slots
  | .value z => place n slots x z

/-- A turn succeeds if the service has a place and the place is free. -/
theorem placeSeen_ok {n : Nat} {slots s : Nat → Option (Obj α)} {x : Obj α}
    (hx : x.explicit = true) : placeSeen n slots x = .ok s ↔
      ∃ j, slotOf n x = some j ∧ slots j = none ∧ s = Function.update slots j (some x) := by
  obtain ⟨z, hz⟩ := Obj.explicit_iff.1 hx
  simp only [placeSeen, place, slotOf, hz]
  cases hj : pyIndex n (z - 1) with
  | none => simp
  | some j =>
    cases hs : slots j with
    | none => simp [hs, eq_comm]
    | some y => simp [hs]

theorem placeAll_ok {n : Nat} {l : List (Obj α)} (he : ∀ x ∈ l, x.explicit = true) :
    ∀ {slots s : Nat → Option (Obj α)}, l.foldlM (placeSeen n) slots = .ok s →
      (∀ x ∈ l, (slotOf n x).isSome = true) ∧ (l.map (slotOf n)).Nodup ∧
      (∀ x ∈ l, ∀ j, slotOf n x = some j → slots j = none) ∧
      ∀ j x, s j = some x ↔ (x ∈ l ∧ slotOf n x = some j) ∨ slots j = some x := by
  induction l with
  | nil =>
    intro slots s h
    cases h
    simp
  | cons x l ih =>
    intro slots s h
    rw [List.foldlM_cons] at h
    cases hp : placeSeen n slots x with
    | error e =>
      rw [hp] at h
      cases h
    | ok s₁ =>
      rw [hp] at h
      obtain ⟨j, hj, hfree, rfl⟩ := (placeSeen_ok (he x List.mem_cons_self)).1 hp
      obtain ⟨hsome, hnd, hout, hs⟩ := ih (fun y hy => he y (List.mem_cons_of_mem _ hy)) h
      have hne : ∀ y ∈ l, ∀ i, slotOf n y = some i → i ≠ j := by
        intro y hy i hi hij
        have hnone := hout y hy i hi
        rw [hij, Function.update_self] at hnone
        cases hnone
      refine ⟨fun y hy => ?_, ?_, fun y hy i hi => ?_, fun i y => ?_⟩
      · rcases List.mem_cons.1 hy with rfl | hy
        · rw [hj]
          rfl
        · exact hsome y hy
      · rw [List.map_cons, List.nodup_cons]
        refine ⟨fun hm => ?_, hnd⟩
        obtain ⟨y, hy, hyx⟩ := List.mem_map.1 hm
        exact hne y hy j (hyx.trans hj) rfl
      · rcases List.mem_cons.1 hy with rfl | hy
        · rw [hj] at hi
          cases hi
          exact hfree
        · have hnone := hout y hy i hi
          rw [Function.update_of_ne (hne y hy i hi)] at hnone
          exact hnone
      · rw [hs, List.mem_cons]
        by_cases hij : i = j
        · subst hij
          rw [Function.update_self, hfree]
          constructor
          · intro hor
            rcases hor with ⟨hy, hi⟩ | hxy
            · exact .inl ⟨.inr hy, hi⟩
            · cases hxy
              exact .inl ⟨.inl rfl, hj⟩
          · intro hor
            rcases hor with ⟨rfl | hy, hi⟩ | hnone
            · exact .inr rfl
            · exact .inl ⟨hy, hi⟩
            · cases hnone
        · rw [Function.update_of_ne hij]
          constructor
          · intro hor
            rcases hor with ⟨hy, hi⟩ | hold
            · exact .inl ⟨.inr hy, hi⟩
            · exact .inr hold
          · intro hor
            rcases hor with ⟨rfl | hy, hi⟩ | hold
            · rw [hj] at hi
              cases hi
              exact absurd rfl hij
            · exact .inl ⟨hy, hi⟩
            · exact .inr hold

theorem placeAll_exists {n : Nat} {l : List (Obj α)} (he : ∀ x ∈ l, x.explicit = true) :
    ∀ {slots : Nat → Option (Obj α)}, (∀ x ∈ l, (slotOf n x).isSome = true) →
      (l.map (slotOf n)).Nodup → (∀ x ∈ l, ∀ j, slotOf n x = some j → slots j = none) →
      ∃ s, l.foldlM (placeSeen n) slots = .ok s := by
  induction l with
  | nil =>
    intro slots _ _ _
    exact ⟨slots, rfl⟩
  | cons x l ih =>
    intro slots hsome hnd hfree
    obtain ⟨hx, hnd⟩ := List.nodup_cons.1 hnd
    obtain ⟨j, hj⟩ := Option.isSome_iff_exists.1 (hsome x List.mem_cons_self)
    have hp := (placeSeen_ok (he x List.mem_cons_self)).2
      ⟨j, hj, hfree x List.mem_cons_self j hj, rfl⟩
    rw [List.foldlM_cons, hp]
    refine ih (fun y hy => he y (List.mem_cons_of_mem _ hy))
      (fun y hy => hsome y (List.mem_cons_of_mem _ hy)) hnd fun y hy i hi => ?_
    have hij : i ≠ j := by
      intro hij
      refine hx (List.mem_map.2 ⟨y, hy, ?_⟩)
      rw [hi, hj, hij]
    rw [Function.update_of_ne hij]
    exact hfree y (List.mem_cons_of_mem _ hy) i hi

theorem Distinct.subset {l l' : List (Obj α)} (h : Distinct l) (hs : l' ⊆ l) : Distinct l' :=
  fun x hx y hy => h x (hs hx) y (hs hy)

section Loop

variable [DecidableEq α]

theorem fill_end (n : Nat) {fuel i : Nat} {l : List (Obj α)} (slots : Nat → Option (Obj α))
    (h : l.length ≤ i) : fill n fuel i l slots = .ok (l, slots) := by
  cases fuel with
  | zero => rfl
  | succ fuel => simp only [fill, List.getElem?_eq_none h]

theorem fill_auto {n fuel i : Nat} {l : List (Obj α)} {slots : Nat → Option (Obj α)} {x : Obj α}
    (hx : l[i]? = some x) (hh : x.service.statelessHandle = .auto) :
    fill n (fuel + 1) i l slots = fill n fuel (i + 1) l slots := by
  simp only [fill, hx, hh]

theorem fill_value {n fuel i : Nat} {l : List (Obj α)} {slots : Nat → Option (Obj α)} {x : Obj α}
    {z : Int} (hx : l[i]? = some x) (hh : x.service.statelessHandle = .value z) :
    fill n (fuel + 1) i l slots =
      (placeSeen n slots x).bind fun s => fill n fuel (i + 1) (removeEq x l) s := by
  simp only [fill, hx, placeSeen, hh]
  cases place n slots x z <;> rfl

theorem removeEq_append (x : Obj α) (pre l : List (Obj α)) :
    removeEq x (pre ++ x :: l) = removeEq x (pre ++ [x]) ++ l := by
  have he : pre ++ x :: l = (pre ++ [x]) ++ l := by simp
  rw [removeEq, he, List.eraseP_append_left (a := x) (by simp) l (by simp)]
  rfl

theorem length_removeEq (x : Obj α) (pre : List (Obj α)) :
    (removeEq x (pre ++ [x])).length = pre.length := by
  rw [removeEq, List.length_eraseP_of_mem (a := x) (by simp) (by simp)]
  simp

/-- The first loop places the services it sees, one after the other. -/
theorem fill_eq (n : Nat) : ∀ (fuel : Nat) (pre rest : List (Obj α))
    (slots : Nat → Option (Obj α)), rest.length ≤ fuel →
    fill n fuel pre.length (pre ++ rest) slots =
      ((seen rest).foldlM (placeSeen n) slots).map fun s => (leftOver pre rest, s) := by
  intro fuel
  induction fuel with
  | zero =>
    intro pre rest slots h
    have hnil : rest = [] := List.length_eq_zero_iff.1 (Nat.le_zero.1 h)
    subst hnil
    simp [fill, seen_nil, leftOver_nil, Except.map, pure, Except.pure]
  | succ fuel ih =>
    intro pre rest slots h
    match rest with
    | [] =>
      rw [fill_end n slots (by simp)]
      simp [seen_nil, leftOver_nil, Except.map, pure, Except.pure]
    | [x] =>
      have hx : (pre ++ [x])[pre.length]? = some x := by simp
      cases hh : x.service.statelessHandle with
      | auto =>
        have hexp : x.explicit = false := by rw [Obj.explicit, hh]
        rw [fill_auto hx hh, fill_end n slots (by simp)]
        simp only [seen_single, leftOver_single, hexp]
        rfl
      | value z =>
        have hexp : x.explicit = true := by rw [Obj.explicit, hh]
        rw [fill_value hx hh]
        simp only [seen_single, leftOver_single, hexp, if_true, List.foldlM_cons, List.foldlM_nil]
        cases placeSeen n slots x with
        | error e => rfl
        | ok slots' => exact fill_end n slots' (by rw [length_removeEq]; exact Nat.le_succ _)
    | x :: y :: l =>
      have hx : (pre ++ x :: y :: l)[pre.length]? = some x := by simp
      cases hh : x.service.statelessHandle with
      | auto =>
        have hexp : x.explicit = false := by rw [Obj.explicit, hh]
        have hih := ih (pre ++ [x]) (y :: l) slots (Nat.le_of_succ_le_succ h)
        rw [List.length_append, List.append_assoc] at hih
        rw [fill_auto hx hh]
        simp only [seen_cons, leftOver_cons, hexp]
        exact hih
      | value z =>
        -- the index moves on, and what was at it has moved back
        have hexp : x.explicit = true := by rw [Obj.explicit, hh]
        have hl : l.length ≤ fuel := by
          simp only [List.length_cons] at h
          omega
        rw [fill_value hx hh]
        simp only [seen_cons, leftOver_cons, hexp, if_true, List.foldlM_cons]
        cases placeSeen n slots x with
        | error e => rfl
        | ok slots' =>
          have hih := ih (removeEq x (pre ++ [x]) ++ [y]) l slots' hl
          rw [List.length_append, length_removeEq, List.append_assoc] at hih
          show fill n fuel (pre.length + 1) (removeEq x (pre ++ x :: y :: l)) slots' = _
          rw [removeEq_append]
          exact hih

theorem fill_placeable {n : Nat} {l : List (Obj α)} (h : Placeable n l) :
    ∃ s, fill n l.length 0 l (fun _ => none) = .ok (leftOver [] l, s) ∧
      ∀ j x, s j = some x ↔ x ∈ seen l ∧ slotOf n x = some j := by
  have he : ∀ x ∈ seen l, x.explicit = true := fun x hx => seen_explicit hx
  obtain ⟨s, hs⟩ : ∃ s, (seen l).foldlM (placeSeen n) (fun _ => none) = .ok s :=
    placeAll_exists he h.1 h.2 fun _ _ _ _ => rfl
  have hfill := fill_eq n l.length [] l (fun _ => none) (Nat.le_refl _)
  rw [hs] at hfill
  refine ⟨s, hfill, fun j x => ?_⟩
  rw [(placeAll_ok he hs).2.2.2]
  simp

theorem fill_error {n : Nat} {l : List (Obj α)} (h : ¬ Placeable n l) :
    ∃ e, fill n l.length 0 l (fun _ => none) = .error e := by
  have he : ∀ x ∈ seen l, x.explicit = true := fun x hx => seen_explicit hx
  have hfill := fill_eq n l.length [] l (fun _ => none) (Nat.le_refl _)
  cases hs : (seen l).foldlM (placeSeen n) (fun _ => none) with
  | error e =>
    rw [hs] at hfill
    exact ⟨e, hfill⟩
  | ok s =>
    obtain ⟨hsome, hnd, -, -⟩ := placeAll_ok he hs
    exact absurd ⟨hsome, hnd⟩ h

/-! ## What is left -/

theorem leftOver_sublist (pre l : List (Obj α)) : (leftOver pre l).Sublist (pre ++ l) := by
  induction pre, l using leftOver.induct with
  | case1 pre => simp [leftOver_nil]
  | case2 pre x hx =>
    simp only [leftOver_single, hx, if_true]
    exact List.eraseP_sublist
  | case3 pre x hx => simp [leftOver_single, hx]
  | case4 pre x y l hx ih =>
    simp only [leftOver_cons, hx, if_true]
    have hsub : (removeEq x (pre ++ [x]) ++ ([y] ++ l)).Sublist ((pre ++ [x]) ++ ([y] ++ l)) :=
      List.eraseP_sublist.append_right _
    simp only [List.append_assoc] at ih hsub
    exact ih.trans hsub
  | case5 pre x y l hx ih =>
    simp only [leftOver_cons, hx]
    rw [List.append_assoc] at ih
    exact ih

theorem length_leftOver (pre l : List (Obj α)) :
    (leftOver pre l).length + (seen l).length = pre.length + l.length := by
  induction pre, l using leftOver.induct with
  | case1 pre => simp [leftOver_nil, seen_nil]
  | case2 pre x hx => simp [leftOver_single, seen_single, hx, length_removeEq]
  | case3 pre x hx => simp [leftOver_single, seen_single, hx]
  | case4 pre x y l hx ih =>
    simp only [leftOver_cons, seen_cons, hx, if_true, List.length_cons]
    simp only [List.length_append, length_removeEq, List.length_singleton] at ih
    omega
  | case5 pre x y l hx ih =>
    simp only [leftOver_cons, seen_cons, hx, List.length_cons]
    rw [List.length_append, List.length_singleton, List.length_cons] at ih
    refine ih.trans ?_
    omega

theorem removeEq_distinct {pre l : List (Obj α)} {x : Obj α} (hx : x.explicit = true)
    (hd : Distinct (pre ++ x :: l)) (hnd : (pre ++ x :: l).Nodup) :
    removeEq x (pre ++ [x]) = pre := by
  obtain ⟨z, hz⟩ := Obj.explicit_iff.1 hx
  rw [removeEq, List.eraseP_append_right, List.eraseP_cons_of_pos (by simp), List.append_nil]
  intro y hy
  have hne : y ≠ x := (List.nodup_append.1 hnd).2.2 y hy x List.mem_cons_self
  simp only [decide_eq_true_eq]
  intro hs
  exact hne (hd y (by simp [hy]) x (by simp) z (by rw [hs]; exact hz) hz)

/-- If no two services ask for one value, those seen are removed and the others left. -/
theorem leftOver_perm (pre l : List (Obj α)) (h : Distinct (pre ++ l)) (hnd : (pre ++ l).Nodup) :
    (leftOver pre l ++ seen l).Perm (pre ++ l) := by
  induction pre, l using leftOver.induct with
  | case1 pre => simp [leftOver_nil, seen_nil]
  | case2 pre x hx =>
    simp only [leftOver_single, seen_single, hx, if_true]
    rw [removeEq_distinct hx h hnd]
  | case3 pre x hx => simp [leftOver_single, seen_single, hx]
  | case4 pre x y l hx ih =>
    simp only [leftOver_cons, seen_cons, hx, if_true]
    rw [removeEq_distinct hx h hnd] at ih ⊢
    have hsub : (pre ++ [y] ++ l).Sublist (pre ++ x :: y :: l) := by
      rw [List.append_assoc]
      exact ((List.Sublist.refl _).cons x).append_left pre
    refine List.perm_middle.trans ?_
    refine ((ih (h.subset hsub.subset) (hsub.nodup hnd)).cons x).trans ?_
    rw [List.append_assoc]
    exact List.perm_middle.symm
  | case5 pre x y l hx ih =>
    simp only [leftOver_cons, seen_cons, hx]
    have he : pre ++ [x] ++ y :: l = pre ++ x :: y :: l := by simp
    rw [he] at ih
    exact ih h hnd

end Loop

/-! ## The second loop -/

/-- Who is given the free place `j`. -/
def givenAt (slots : Nat → Option (Obj α)) (left : List (Obj α)) (j : Nat) : Option (Obj α) :=
  if (slots j).isNone then left[rank (fun j => (slots j).isNone) j]? else none

/-- The state of the second loop before turn `i`; `slots` and `left` are from the first. -/
structure Half (slots : Nat → Option (Obj α)) (left : List (Obj α)) (i : Nat) (s : Alloc α) :
    Prop where
  rest : s.left = left.drop (rank (fun j => (slots j).isNone) i)
  list : ∀ j, s.slots j = if j < i then (slots j).or (givenAt slots left j) else slots j
  given : ∀ j x, j < i → givenAt slots left j = some x →
    s.field x = .text (encode x.service.version (j + 1))
  /-- placed by the first loop, and only by it -/
  placed : ∀ j x z, j < i → slots j = some x → x.service.statelessHandle = .value z →
    (∀ f < i, givenAt slots left f ≠ some x) → s.field x = .text (encode x.service.version z)
  untouched : ∀ x, (∀ j < i, slots j ≠ some x ∧ givenAt slots left j ≠ some x) →
    s.field x = asked x

/-- A service was placed and is given a place before its own. -/
def Clash (slots : Nat → Option (Obj α)) (left : List (Obj α)) (e : Nat) : Prop :=
  ∃ f x, f < e ∧ slots e = some x ∧ givenAt slots left f = some x

section Turn

variable {slots : Nat → Option (Obj α)} {left : List (Obj α)} {i : Nat} {s : Alloc α}

theorem givenAt_some {j : Nat} {x : Obj α} : givenAt slots left j = some x ↔
    slots j = none ∧ left[rank (fun j => (slots j).isNone) j]? = some x := by
  unfold givenAt
  split
  · rename_i hn
    simp [Option.isNone_iff_eq_none.1 hn]
  · rename_i hn
    simp only [Option.isNone_iff_eq_none] at hn
    simp [hn]

/-- A service is given one place. -/
theorem givenAt_inj (hnd : left.Nodup) {j k : Nat} {x : Obj α}
    (hj : givenAt slots left j = some x) (hk : givenAt slots left k = some x) : j = k := by
  obtain ⟨hfj, hxj⟩ := givenAt_some.1 hj
  obtain ⟨hfk, hxk⟩ := givenAt_some.1 hk
  have hlt := (List.getElem?_eq_some_iff.1 hxj).1
  have hr := (List.getElem?_inj hlt hnd).1 (hxj.trans hxk.symm)
  rcases Nat.lt_trichotomy j k with hjk | hjk | hjk
  · have hlt := rank_lt (p := fun j => (slots j).isNone) hjk (by simp [hfj])
    exact absurd hr (Nat.ne_of_lt hlt)
  · exact hjk
  · have hlt := rank_lt (p := fun j => (slots j).isNone) hjk (by simp [hfk])
    exact absurd hr (Nat.ne_of_gt hlt)

variable [DecidableEq α]

omit [DecidableEq α] in
theorem half_zero : Half slots left 0 ⟨left, slots, asked⟩ := by
  refine ⟨rfl, fun j => rfl, fun j x hj => ?_, fun j x z hj => ?_, fun _ _ => rfl⟩
  · exact absurd hj (Nat.not_lt_zero j)
  · exact absurd hj (Nat.not_lt_zero j)

/-- A turn at a free place. -/
theorem half_free (hnd : left.Nodup) (h : Half slots left i s) (hi : slots i = none) :
    ∃ s', stamp i (pop i s) = .ok s' ∧ Half slots left (i + 1) s' := by
  have hsi : s.slots i = none := by rw [h.list, if_neg (Nat.lt_irrefl i), hi]
  have hrank : rank (fun j => (slots j).isNone) (i + 1) =
      rank (fun j => (slots j).isNone) i + 1 := by rw [rank_succ, if_pos (by simp [hi])]
  have hrest := h.rest
  cases hx : givenAt slots left i with
  | none =>
    have hge : left[rank (fun j => (slots j).isNone) i]? = none := by
      cases hg : left[rank (fun j => (slots j).isNone) i]? with
      | none => rfl
      | some x => rw [givenAt_some.2 ⟨hi, hg⟩] at hx; cases hx
    have hlen := List.getElem?_eq_none_iff.1 hge
    have hnil : s.left = [] := by rw [hrest, List.drop_eq_nil_of_le hlen]
    refine ⟨s, by simp only [pop, stamp, hsi, hnil], ?_, fun j => ?_, fun j x hj hg => ?_,
      fun j x z hj hs hz hf => ?_, fun x hno => ?_⟩
    · rw [hnil, hrank, List.drop_eq_nil_of_le (Nat.le_succ_of_le hlen)]
    · rw [h.list]
      by_cases hj : j < i
      · rw [if_pos hj, if_pos (Nat.lt_succ_of_lt hj)]
      · rw [if_neg hj]
        split
        · have hji : j = i := by omega
          rw [hji, hi, hx]
          rfl
        · rfl
    · have hji : j ≠ i := by
        intro he
        rw [he, hx] at hg
        cases hg
      exact h.given j x (by omega) hg
    · have hji : j ≠ i := by
        intro he
        rw [he, hi] at hs
        cases hs
      exact h.placed j x z (by omega) hs hz fun f hfi => hf f (Nat.lt_succ_of_lt hfi)
    · exact h.untouched x fun j hj => hno j (Nat.lt_succ_of_lt hj)
  | some x =>
    obtain ⟨-, hget⟩ := givenAt_some.1 hx
    obtain ⟨hlt, rfl⟩ := List.getElem?_eq_some_iff.1 hget
    have hcons := List.drop_eq_getElem_cons hlt
    rw [← hrest] at hcons
    generalize left[rank (fun j => (slots j).isNone) i] = x at hx hcons
    have hother : ∀ j y, j < i → givenAt slots left j = some y → y ≠ x := by
      intro j y hj hy he
      rw [he] at hy
      exact absurd (givenAt_inj hnd hy hx) (Nat.ne_of_lt hj)
    have hpop : pop i s = ⟨left.drop (rank (fun j => (slots j).isNone) i + 1),
        Function.update s.slots i (some x),
        Function.update s.field x (.asked (.value (i + 1)))⟩ := by
      simp only [pop, hsi, hcons]
    refine ⟨_, by simp only [stamp, hpop, Function.update_self]; rfl, ?_, fun j => ?_,
      fun j y hj hg => ?_, fun j y z hj hs hz hf => ?_, fun y hno => ?_⟩
    · rw [hrank]
    · by_cases hji : j = i
      · subst hji
        show Function.update s.slots j (some x) j = _
        rw [Function.update_self, if_pos (Nat.lt_succ_self j), hi, hx]
        rfl
      · show Function.update s.slots i (some x) j = _
        rw [Function.update_of_ne hji, h.list]
        by_cases hj : j < i
        · rw [if_pos hj, if_pos (Nat.lt_succ_of_lt hj)]
        · rw [if_neg hj, if_neg (by omega)]
    · by_cases hji : j = i
      · subst hji
        rw [hx] at hg
        cases hg
        exact Function.update_self ..
      · have hj : j < i := by omega
        have hy := hother j y hj hg
        show Function.update (Function.update s.field x _) x _ y = _
        rw [Function.update_of_ne hy, Function.update_of_ne hy]
        exact h.given j y hj hg
    · have hji : j ≠ i := by
        intro he
        rw [he, hi] at hs
        cases hs
      have hy : y ≠ x := by
        intro he
        rw [he] at hf
        exact hf i (Nat.lt_succ_self i) hx
      show Function.update (Function.update s.field x _) x _ y = _
      rw [Function.update_of_ne hy, Function.update_of_ne hy]
      exact h.placed j y z (by omega) hs hz fun f hfi => hf f (Nat.lt_succ_of_lt hfi)
    · have hy : y ≠ x := by
        intro he
        rw [he] at hno
        exact (hno i (Nat.lt_succ_self i)).2 hx
      show Function.update (Function.update s.field x _) x _ y = _
      rw [Function.update_of_ne hy, Function.update_of_ne hy]
      exact h.untouched y fun j hj => hno j (Nat.lt_succ_of_lt hj)

/-- A turn at a place that the first loop filled. -/
theorem half_filled (hinj : ∀ j k x, slots j = some x → slots k = some x → j = k)
    (h : Half slots left i s) {x : Obj α} {z : Int} (hi : slots i = some x)
    (hz : x.service.statelessHandle = .value z) (hc : ¬ Clash slots left i) :
    ∃ s', stamp i (pop i s) = .ok s' ∧ Half slots left (i + 1) s' := by
  have hsi : s.slots i = some x := by rw [h.list, if_neg (Nat.lt_irrefl i), hi]
  have hpop : pop i s = s := by simp only [pop, hsi]
  have hgi : givenAt slots left i = none := by simp [givenAt, hi]
  have hg : ∀ j, j < i → givenAt slots left j ≠ some x := fun j hj hg => hc ⟨j, x, hj, hi, hg⟩
  have hfield : s.field x = .asked (.value z) := by
    rw [h.untouched x fun j hj => ⟨fun hs => ?_, hg j hj⟩, asked, hz]
    exact absurd (hinj j i x hs hi) (Nat.ne_of_lt hj)
  refine ⟨_, by simp only [stamp, hpop, hsi, hfield]; rfl, ?_, fun j => ?_,
    fun j y hj hy => ?_, fun j y w hj hs hw hf => ?_, fun y hno => ?_⟩
  · rw [rank_succ, if_neg (by simp [hi])]
    exact h.rest
  · show s.slots j = _
    rw [h.list]
    by_cases hj : j < i
    · rw [if_pos hj, if_pos (Nat.lt_succ_of_lt hj)]
    · rw [if_neg hj]
      split
      · have hji : j = i := by omega
        rw [hji, hi]
        rfl
      · rfl
  · have hji : j ≠ i := by
      intro he
      rw [he, hgi] at hy
      cases hy
    have hyx : y ≠ x := by
      intro he
      rw [he] at hy
      exact hg j (by omega) hy
    show Function.update s.field x _ y = _
    rw [Function.update_of_ne hyx]
    exact h.given j y (by omega) hy
  · by_cases hji : j = i
    · subst hji
      rw [hi] at hs
      cases hs
      rw [hz] at hw
      cases hw
      exact Function.update_self ..
    · have hyx : y ≠ x := by
        intro he
        rw [he] at hs
        exact hji (hinj j i x hs hi)
      show Function.update s.field x _ y = _
      rw [Function.update_of_ne hyx]
      exact h.placed j y w (by omega) hs hw fun f hfi => hf f (Nat.lt_succ_of_lt hfi)
  · have hyx : y ≠ x := by
      intro he
      rw [he] at hno
      exact (hno i (Nat.lt_succ_self i)).1 hi
    show Function.update s.field x _ y = _
    rw [Function.update_of_ne hyx]
    exact h.untouched y fun j hj => hno j (Nat.lt_succ_of_lt hj)

theorem half_clash (h : Half slots left i s) (hc : Clash slots left i) :
    stamp i (pop i s) = .error .typeError := by
  obtain ⟨f, x, hf, hx, hg⟩ := hc
  have hsi : s.slots i = some x := by rw [h.list, if_neg (Nat.lt_irrefl i), hx]
  have hpop : pop i s = s := by simp only [pop, hsi]
  simp only [stamp, hpop, hsi, h.given f x hf hg]

/-- The second loop raises at the first place of a service that was given a place before. -/
theorem allocate_cases (hnd : left.Nodup)
    (hinj : ∀ j k x, slots j = some x → slots k = some x → j = k)
    (hexp : ∀ j x, slots j = some x → x.explicit = true) (n : Nat) :
    ((∃ e < n, Clash slots left e) → ∃ e, allocate n ⟨left, slots, asked⟩ = .error e) ∧
    ((∀ e < n, ¬ Clash slots left e) →
      ∃ s, allocate n ⟨left, slots, asked⟩ = .ok s ∧ Half slots left n s) := by
  unfold allocate
  induction n with
  | zero =>
    refine ⟨fun ⟨e, he, _⟩ => absurd he (Nat.not_lt_zero e), fun _ => ⟨_, rfl, half_zero⟩⟩
  | succ n ih =>
    rw [List.range_succ, List.foldlM_append]
    refine ⟨fun ⟨e, he, hc⟩ => ?_, fun hno => ?_⟩
    · by_cases hlt : ∃ e < n, Clash slots left e
      · obtain ⟨r, hr⟩ := ih.1 hlt
        exact ⟨r, by rw [hr]; rfl⟩
      · have hen : e = n := by
          by_contra hne
          exact hlt ⟨e, by omega, hc⟩
        subst hen
        obtain ⟨s, hs, hh⟩ := ih.2 fun f hf hcf => hlt ⟨f, hf, hcf⟩
        refine ⟨.typeError, ?_⟩
        rw [hs]
        simp only [bind, Except.bind, List.foldlM_cons, half_clash hh hc]
    · obtain ⟨s, hs, hh⟩ := ih.2 fun f hf => hno f (Nat.lt_succ_of_lt hf)
      have hturn : ∃ s', stamp n (pop n s) = .ok s' ∧ Half slots left (n + 1) s' := by
        cases hn : slots n with
        | none => exact half_free hnd hh hn
        | some x =>
          obtain ⟨z, hz⟩ := Obj.explicit_iff.1 (hexp n x hn)
          exact half_filled hinj hh hn hz (hno n (Nat.lt_succ_self n))
      obtain ⟨s', hs', hh'⟩ := hturn
      refine ⟨s', ?_, hh'⟩
      rw [hs]
      simp only [bind, Except.bind, List.foldlM_cons, hs', List.foldlM_nil, pure, Except.pure]

end Turn

/-! ## Results -/

theorem pyIndex_lt {n j : Nat} {z : Int} (h : pyIndex n z = some j) : j < n := by
  unfold pyIndex at h
  split at h
  · split at h
    · cases h
      omega
    · cases h
  · split at h
    · cases h
      omega
    · cases h

theorem slotOf_lt {n j : Nat} {x : Obj α} (h : slotOf n x = some j) : j < n := by
  unfold slotOf at h
  split at h
  · cases h
  · exact pyIndex_lt h

theorem slotOf_value {n : Nat} {x : Obj α} {z : Int} (hx : x.service.statelessHandle = .value z)
    (hz : 1 ≤ z ∧ z ≤ n) : slotOf n x = some (z - 1).toNat := by
  simp only [slotOf, hx, pyIndex]
  rw [if_pos (by omega), if_pos (by omega)]

/-- A proper list can be placed. -/
theorem Proper.placeable {n : Nat} {l : List (Obj α)} (h : Proper l n) (hnd : l.Nodup) :
    Placeable n l := by
  have hsub := seen_sublist l
  refine ⟨fun x hx => ?_, List.Nodup.map_on (fun x hx y hy he => ?_) (hsub.nodup hnd)⟩
  · obtain ⟨z, hz⟩ := Obj.explicit_iff.1 (seen_explicit hx)
    rw [slotOf_value hz (h.inRange x (hsub.subset hx) z hz)]
    rfl
  · obtain ⟨z, hz⟩ := Obj.explicit_iff.1 (seen_explicit hx)
    obtain ⟨w, hw⟩ := Obj.explicit_iff.1 (seen_explicit hy)
    have hrz := h.inRange x (hsub.subset hx) z hz
    have hrw := h.inRange y (hsub.subset hy) w hw
    rw [slotOf_value hz hrz, slotOf_value hw hrw, Option.some.injEq] at he
    have hzw : z = w := by omega
    rw [← hzw] at hw
    exact h.distinct x (hsub.subset hx) y (hsub.subset hy) z hz hw

section Result

variable [DecidableEq α] {n : Nat} {l : List (Obj α)}

omit [DecidableEq α] in
theorem unasked_iff {s : Nat → Option (Obj α)}
    (hs : ∀ j x, s j = some x ↔ x ∈ seen l ∧ slotOf n x = some j) (j : Nat) :
    unasked n l j = (s j).isNone := by
  rw [unasked, Bool.eq_iff_iff, decide_eq_true_eq, Option.isNone_iff_eq_none, List.mem_filterMap]
  constructor
  · intro h
    cases hj : s j with
    | none => rfl
    | some x => exact absurd ⟨x, (hs j x).1 hj⟩ h
  · intro h ⟨x, hx⟩
    rw [(hs j x).2 hx] at h
    cases h

/-- The places the second loop gives are those of `given`. -/
theorem givenAt_iff {s : Nat → Option (Obj α)}
    (hs : ∀ j x, s j = some x ↔ x ∈ seen l ∧ slotOf n x = some j) (f : Nat) (x : Obj α) :
    f < n ∧ givenAt s (leftOver [] l) f = some x ↔ (x, f) ∈ given n l := by
  have hp : unasked n l = fun j => (s j).isNone := funext (unasked_iff hs)
  rw [given, hp, mem_zip_free, givenAt_some, Option.isNone_iff_eq_none]

theorem clash_iff {s : Nat → Option (Obj α)}
    (hs : ∀ j x, s j = some x ↔ x ∈ seen l ∧ slotOf n x = some j) :
    (∃ e < n, Clash s (leftOver [] l) e) ↔ GivenTwice n l := by
  constructor
  · intro ⟨e, he, f, x, hf, hx, hg⟩
    obtain ⟨hseen, hslot⟩ := (hs e x).1 hx
    exact ⟨x, f, e, (givenAt_iff hs f x).1 ⟨Nat.lt_trans hf he, hg⟩, hseen, hslot, hf⟩
  · intro ⟨x, f, e, hg, hseen, hslot, hf⟩
    exact ⟨e, slotOf_lt hslot, f, x, hf, (hs e x).2 ⟨hseen, hslot⟩,
      ((givenAt_iff hs f x).2 hg).2⟩

/-- There is a free place for every service left. -/
theorem exists_given (hlen : l.length ≤ n) {x : Obj α} (hx : x ∈ leftOver [] l) :
    ∃ f, (x, f) ∈ given n l := by
  refine exists_mem_zip ?_ hx
  have hleft := length_leftOver [] l
  have hfree := le_length_free ((seen l).filterMap (slotOf n)) n
  have hseen : ((seen l).filterMap (slotOf n)).length ≤ (seen l).length :=
    List.length_filterMap_le _ _
  have hun : free (unasked n l) n =
      free (fun j => decide (j ∉ (seen l).filterMap (slotOf n))) n := rfl
  rw [hun]
  simp only [List.length_nil, Nat.zero_add] at hleft
  omega

omit [DecidableEq α] in
/-- A service with one place, and the handle of this place. -/
theorem Placed.at {e : Nat} {x : Obj α} {out : List (Option (Obj α)) × (Obj α → Field)}
    (hn : n ≤ 255) (hv : x.service.version < 256) (he : e < n)
    (hat : ∀ i, out.1[i]? = some (some x) ↔ i = e)
    (hf : out.2 x = .text (encode x.service.version (e + 1)))
    (hz : ∀ z, x.service.statelessHandle = .value z → z = e + 1) : Placed n out x := by
  refine ⟨⟨e, (hat e).2 rfl, fun i hi => (hat i).1 hi⟩, fun z hxz => ⟨e, hz z hxz, (hat e).2 rfl⟩,
    e, (hat e).2 rfl, ?_⟩
  rw [hf]
  exact word_encode hn hv he

omit [DecidableEq α] in
theorem Half.getElem {slots : Nat → Option (Obj α)} {left : List (Obj α)} {s : Alloc α}
    (h : Half slots left n s) (i : Nat) (x : Obj α) :
    ((List.range n).map s.slots)[i]? = some (some x) ↔
      i < n ∧ (slots i = some x ∨ givenAt slots left i = some x) := by
  rw [List.getElem?_map, Option.map_eq_some_iff]
  constructor
  · intro ⟨j, hj, hs⟩
    obtain ⟨hlt, rfl⟩ := List.getElem?_eq_some_iff.1 hj
    rw [List.length_range] at hlt
    rw [List.getElem_range, h.list, if_pos hlt, Option.or_eq_some_iff] at hs
    refine ⟨hlt, ?_⟩
    rcases hs with hs | ⟨-, hs⟩
    · exact .inl hs
    · exact .inr hs
  · intro ⟨hlt, hor⟩
    refine ⟨i, List.getElem?_range hlt, ?_⟩
    rw [h.list, if_pos hlt, Option.or_eq_some_iff]
    rcases hor with hs | hs
    · exact .inl hs
    · exact .inr ⟨(givenAt_some.1 hs).1, hs⟩

/-- What is proper and fits is given as it is asked for. -/
theorem Half.placed_all {slots : Nat → Option (Obj α)} {s : Alloc α}
    (h : Half slots (leftOver [] l) n s) (hn : n ≤ 255)
    (hv : ∀ x ∈ l, x.service.version < 256) (hnd : l.Nodup) (hlen : l.length ≤ n)
    (hs : ∀ j x, slots j = some x ↔ x ∈ seen l ∧ slotOf n x = some j) (hp : Proper l n)
    (hfit : PassedOverFit n l) {x : Obj α} (hx : x ∈ l) :
    Placed n ((List.range n).map s.slots, s.field) x := by
  have hperm := leftOver_perm [] l hp.distinct hnd
  have hdis := List.nodup_append.1 (hperm.nodup_iff.2 hnd)
  have hapart : ∀ y, y ∈ seen l → ∀ f, givenAt slots (leftOver [] l) f ≠ some y := by
    intro y hy f hg
    exact hdis.2.2 y (List.mem_of_getElem? (givenAt_some.1 hg).2) y hy rfl
  rcases List.mem_append.1 (hperm.mem_iff.2 hx) with hleft | hseen
  · obtain ⟨f, hf⟩ := exists_given hlen hleft
    obtain ⟨hfn, hg⟩ := (givenAt_iff hs f x).2 hf
    refine Placed.at hn (hv x hx) hfn (fun i => ?_) (h.given f x hfn hg)
      fun z hz => hfit x f z hf hz
    rw [h.getElem]
    constructor
    · intro ⟨hi, hor⟩
      rcases hor with hsi | hgi
      · exact absurd hg (hapart x ((hs i x).1 hsi).1 f)
      · exact givenAt_inj hdis.1 hgi hg
    · intro hi
      rw [hi]
      exact ⟨hfn, .inr hg⟩
  · obtain ⟨z, hz⟩ := Obj.explicit_iff.1 (seen_explicit hseen)
    have hr := hp.inRange x hx z hz
    have hslot := slotOf_value hz hr
    have hse := (hs _ x).2 ⟨hseen, hslot⟩
    have he : z = ((z - 1).toNat : Int) + 1 := by omega
    have hfield := h.placed _ x z (slotOf_lt hslot) hse hz fun f _ => hapart x hseen f
    refine Placed.at hn (hv x hx) (slotOf_lt hslot) (fun i => ?_) ?_ fun w hw => ?_
    · rw [h.getElem]
      constructor
      · intro ⟨hi, hor⟩
        rcases hor with hsi | hgi
        · have hi' := ((hs i x).1 hsi).2
          rw [hslot, Option.some.injEq] at hi'
          exact hi'.symm
        · exact absurd hgi (hapart x hseen i)
      · intro hi
        rw [hi]
        exact ⟨slotOf_lt hslot, .inl hse⟩
    · rw [← he]
      exact hfield
    · rw [hz] at hw
      cases hw
      exact he

/-! ### The script -/

variable {ps : List (Partition α)}

theorem process_missing (h : ∃ v ∈ services ps, v.connectionBased = none) :
    ∃ e, processStatelessServices ps n = .error e := by
  obtain ⟨e, he⟩ := collect_error h
  exact ⟨e, by simp only [processStatelessServices, he]⟩

theorem process_eq (h : ¬ ∃ v ∈ services ps, v.connectionBased = none) (hne : stateless ps ≠ []) :
    processStatelessServices ps n =
      if n < (stateless ps).length then .error .numbersRangeExceed
      else (fill n (stateless ps).length 0 (stateless ps) fun _ => none).bind fun x =>
        (allocate n ⟨x.1, x.2, asked⟩).map fun s => ((List.range n).map s.slots, s.field) := by
  have hc := collect_ok fun v hv hn => h ⟨v, hv, hn⟩
  have hl := length_objects ((services ps).filter fun v => v.connectionBased == some false)
  have hpos : ((services ps).filter fun v => v.connectionBased == some false).length ≠ 0 := by
    rw [← hl]
    exact fun h0 => hne (List.length_eq_zero_iff.1 h0)
  simp only [processStatelessServices, hc, if_neg hpos, stateless, hl]
  split
  · rfl
  · split
    · rename_i he
      rw [he]
      rfl
    · rename_i he
      rw [he]
      split
      · rename_i he'
        simp only [Except.bind, he', Except.map]
      · rename_i he'
        simp only [Except.bind, he', Except.map]

/-- A list that can be placed: the second loop raises, or the list is as `Half` says. -/
theorem process_placed (h : ¬ ∃ v ∈ services ps, v.connectionBased = none)
    (hne : stateless ps ≠ []) (hlen : ¬ n < (stateless ps).length)
    (hp : Placeable n (stateless ps)) :
    (GivenTwice n (stateless ps) → ∃ e, processStatelessServices ps n = .error e) ∧
    (¬ GivenTwice n (stateless ps) → ∃ slots s,
      processStatelessServices ps n = .ok ((List.range n).map s.slots, s.field) ∧
      (∀ j x, slots j = some x ↔ x ∈ seen (stateless ps) ∧ slotOf n x = some j) ∧
      Half slots (leftOver [] (stateless ps)) n s) := by
  obtain ⟨slots, hfill, hs⟩ := fill_placeable hp
  have hnd : (leftOver [] (stateless ps)).Nodup :=
    (leftOver_sublist [] (stateless ps)).nodup (nodup_objects _)
  have hinj : ∀ j k x, slots j = some x → slots k = some x → j = k := by
    intro j k x hj hk
    have he := ((hs j x).1 hj).2.symm.trans ((hs k x).1 hk).2
    exact Option.some.inj he
  have hexp : ∀ j x, slots j = some x → x.explicit = true :=
    fun j x hx => seen_explicit ((hs j x).1 hx).1
  obtain ⟨herr, hok⟩ := allocate_cases hnd hinj hexp n
  rw [process_eq h hne, if_neg hlen, hfill]
  refine ⟨fun hg => ?_, fun hg => ?_⟩
  · obtain ⟨e, he⟩ := herr ((clash_iff hs).2 hg)
    exact ⟨e, by simp only [Except.bind, he, Except.map]⟩
  · obtain ⟨s, hs', hh⟩ := hok fun e he hc => hg ((clash_iff hs).1 ⟨e, he, hc⟩)
    exact ⟨slots, s, by simp only [Except.bind, hs', Except.map], hs, hh⟩

theorem HandleLaw.of_error (h : ∃ e, processStatelessServices ps n = .error e) :
    HandleLaw ps n := by
  refine ⟨fun out ho => ?_, fun _ => h⟩
  obtain ⟨e, he⟩ := h
  rw [he] at ho
  cases ho

/-- **Static handles.** For every list of partitions and every limit of at most 255, the
script gives every stateless service one place, the one it asks for, with a handle that
decodes to this place and to its version, and raises for what is not proper, if and only if
it raises anyway, or what is asked for is proper and the services that ask for a value and
that the first loop passes over are left just the places of these values. -/
theorem static_handles (ps : List (Partition α)) (n : Nat) (hn : n ≤ 255)
    (hv : ∀ x ∈ stateless ps, x.service.version < 256) : HandleLaw ps n ↔ HandlesFit ps n := by
  by_cases hm : ∃ v ∈ services ps, v.connectionBased = none
  · exact ⟨fun _ => .inl hm, fun _ => .of_error (process_missing hm)⟩
  by_cases hne : stateless ps = []
  · -- nothing to place
    have hp : Proper (stateless ps) n := by
      rw [hne]
      exact ⟨nofun, nofun⟩
    have hfit : PassedOverFit n (stateless ps) := by
      rw [hne]
      exact nofun
    refine ⟨fun _ => .inr (.inr (.inr (.inr ⟨hp, hfit⟩))),
      fun _ => ⟨fun out _ x hx => ?_, fun h => ?_⟩⟩
    · rw [hne] at hx
      cases hx
    · rcases h with h | h
      · rw [hne] at h
        exact absurd h (Nat.not_lt_zero n)
      · exact absurd hp h
  by_cases hlen : n < (stateless ps).length
  · refine ⟨fun _ => .inr (.inl hlen), fun _ => .of_error ⟨.numbersRangeExceed, ?_⟩⟩
    rw [process_eq hm hne, if_pos hlen]
  by_cases hpl : Placeable n (stateless ps)
  · obtain ⟨herr, hok⟩ := process_placed hm hne hlen hpl
    by_cases hg : GivenTwice n (stateless ps)
    · exact ⟨fun _ => .inr (.inr (.inr (.inl hg))), fun _ => .of_error (herr hg)⟩
    obtain ⟨slots, s, hout, hs, hh⟩ := hok hg
    constructor
    · intro hlaw
      have hp : Proper (stateless ps) n := by
        by_contra hp
        obtain ⟨e, he⟩ := hlaw.raises (.inr hp)
        rw [hout] at he
        cases he
      refine .inr (.inr (.inr (.inr ⟨hp, fun x f z hf hz => ?_⟩)))
      obtain ⟨hfn, hgf⟩ := (givenAt_iff hs f x).2 hf
      have hx : x ∈ stateless ps :=
        (leftOver_sublist [] _).subset (List.mem_of_getElem? (givenAt_some.1 hgf).2)
      obtain ⟨⟨e, -, huniq⟩, hask, -⟩ := hlaw.placed _ hout x hx
      obtain ⟨i, hzi, hi⟩ := hask z hz
      have hif := (huniq i hi).trans (huniq f ((hh.getElem f x).2 ⟨hfn, .inr hgf⟩)).symm
      rw [hzi, hif]
    · intro hfit
      rcases hfit with h | h | h | h | ⟨hp, hfit⟩
      · exact absurd h hm
      · exact absurd h hlen
      · exact absurd hpl h
      · exact absurd h hg
      refine ⟨fun out ho x hx => ?_, fun h => ?_⟩
      · rw [hout] at ho
        cases ho
        exact hh.placed_all hn hv (nodup_objects _) (Nat.not_lt.1 hlen) hs hp hfit hx
      · rcases h with h | h
        · exact absurd h hlen
        · exact absurd hp h
  · refine ⟨fun _ => .inr (.inr (.inl hpl)), fun _ => .of_error ?_⟩
    obtain ⟨e, he⟩ := fill_error hpl
    exact ⟨e, by rw [process_eq hm hne, if_neg hlen, he]; rfl⟩

end Result

def exService (a : Asked) (i : Nat) : Obj Nat := ⟨i, some false, a, 1, i⟩

/-- A partition with a stateless service for each handle that is asked for. -/
def exPartitions (l : List Asked) : List (Partition Nat) :=
  [⟨11, true, (l.zipIdx.map fun a => exService a.1 a.2).map Obj.service⟩]

/-- The handles of the test partition of the source: 4, "auto" and 3. -/
theorem static_handles_test : HandleLaw (exPartitions [.value 4, .auto, .value 3]) 32 := by
  refine (static_handles _ 32 (by decide) (by decide)).2 (.inr (.inr (.inr (.inr ⟨?_, ?_⟩))))
  · have hl : stateless (exPartitions [.value 4, .auto, .value 3]) =
        [exService (.value 4) 0, exService .auto 1, exService (.value 3) 2] := by decide
    rw [hl]
    constructor
    · intro x hx y hy z hxz hyz
      simp only [List.mem_cons, List.not_mem_nil, or_false] at hx hy
      rcases hx with rfl | rfl | rfl <;> rcases hy with rfl | rfl | rfl <;>
        cases hxz <;> cases hyz <;> rfl
    · intro x hx z hxz
      simp only [List.mem_cons, List.not_mem_nil, or_false] at hx
      rcases hx with rfl | rfl | rfl <;> cases hxz <;> decide
  · have hg : given 32 (stateless (exPartitions [.value 4, .auto, .value 3])) =
        [(exService .auto 1, 0)] := by decide
    intro x f z hf hz
    rw [hg, List.mem_singleton] at hf
    cases hf
    cases hz

/-- **Counterexample**: with the handles 4 and 3 the first loop passes over the second
service, which then gets the handle 1. -/
theorem static_handles_passed_over : ¬ HandleLaw (exPartitions [.value 4, .value 3]) 32 := by
  intro h
  have hrun : (processStatelessServices (exPartitions [.value 4, .value 3]) 32).map
      (fun out => (out.1[0]?, out.2 (exService (.value 3) 1))) =
      .ok (some (some (exService (.value 3) 1)), .text 0x40000101) := by decide
  cases hp : processStatelessServices (exPartitions [.value 4, .value 3]) 32 with
  | error e =>
    rw [hp] at hrun
    cases hrun
  | ok out =>
    rw [hp] at hrun
    simp only [Except.map, Except.ok.injEq, Prod.mk.injEq] at hrun
    obtain ⟨⟨i, -, huniq⟩, hask, -⟩ := h.placed out hp (exService (.value 3) 1) (by decide)
    obtain ⟨j, hj, hat⟩ := hask 3 rfl
    have h0 : j = 0 := (huniq j hat).trans (huniq 0 hrun.1).symm
    rw [h0] at hj
    cases hj

end Tfm.L1.Handles
