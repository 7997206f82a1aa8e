import Mathlib

/-!
# While loops with a bound

`iterWhile cond f fuel x` runs `while cond x: x = f x` for at most `fuel` turns. `for` loops whose
body can fail are `foldlM` over `Except`.
-/

namespace Mp2bs.Lib

variable {α : Type} {cond : α → Bool} {f : α → α}

def iterWhile (cond : α → Bool) (f : α → α) : ℕ → α → α
  | 0, x => x
  | fuel + 1, x => if cond x then iterWhile cond f fuel (f x) else x

theorem iterWhile_eq {fuel n : ℕ} {x : α} (hn : n ≤ fuel) (hstop : cond (f^[n] x) = false)
    (hrun : ∀ k < n, cond (f^[k] x) = true) : iterWhile cond f fuel x = f^[n] x := by
  induction n generalizing fuel x with
  | zero =>
    cases fuel with
    | zero => rfl
    | succ fuel =>
      have hx : cond x = false := hstop
      rw [iterWhile, hx]
      rfl
  | succ n ih =>
    cases fuel with
    | zero => omega
    | succ fuel =>
      have hx : cond x = true := hrun 0 (Nat.succ_pos n)
      rw [iterWhile, if_pos hx]
      refine ih (by omega) hstop ?_
      intro k hk
      exact hrun (k + 1) (by omega)

theorem iterWhile_spec (cond : α → Bool) (fuel : ℕ) {n : ℕ} {x : α} (hn : n ≤ fuel) (hstop : cond (f^[n] x) = false) :
    ∃ k ≤ n, iterWhile cond f fuel x = f^[k] x ∧ cond (f^[k] x) = false ∧
      ∀ j < k, cond (f^[j] x) = true := by
  classical
  have hex : ∃ k, cond (f^[k] x) = false := ⟨n, hstop⟩
  have hmin : ∀ j < Nat.find hex, cond (f^[j] x) = true := by
    intro j hj
    exact Bool.not_eq_false _ ▸ Nat.find_min hex hj
  have hle : Nat.find hex ≤ n := Nat.find_min' hex hstop
  exact ⟨_, hle, iterWhile_eq (hle.trans hn) (Nat.find_spec hex) hmin, Nat.find_spec hex, hmin⟩

theorem iterate_succ_eq (n x : ℕ) : (· + 1)^[n] x = x + n := by
  induction n generalizing x with
  | zero => rfl
  | succ n ih =>
    rw [Function.iterate_succ_apply, ih]
    omega

theorem le_count (cond : ℕ → Bool) (fuel x : ℕ) : x ≤ iterWhile cond (· + 1) fuel x := by
  induction fuel generalizing x with
  | zero => exact le_rfl
  | succ fuel ih =>
    rw [iterWhile]
    split_ifs
    · exact (Nat.le_succ x).trans (ih (x + 1))
    · exact le_rfl

theorem count_spec (cond : ℕ → Bool) (fuel : ℕ) {x y : ℕ} (hxy : x ≤ y) (hfuel : y ≤ x + fuel)
    (hstop : cond y = false) :
    ∃ z, iterWhile cond (· + 1) fuel x = z ∧ x ≤ z ∧ z ≤ y ∧ cond z = false ∧
      ∀ w, x ≤ w → w < z → cond w = true := by
  have hy : cond ((· + 1)^[y - x] x) = false := by
    rw [iterate_succ_eq, Nat.add_sub_cancel' hxy]
    exact hstop
  obtain ⟨k, hk, heq, hend, hrun⟩ := iterWhile_spec cond fuel (by omega) hy
  rw [iterate_succ_eq] at heq hend
  refine ⟨x + k, heq, by omega, by omega, hend, ?_⟩
  intro w hxw hwz
  have hw := hrun (w - x) (by omega)
  rwa [iterate_succ_eq, Nat.add_sub_cancel' hxw] at hw

/-- What every turn of a `for` loop that can fail keeps, holds at its end. -/
theorem foldlM_invariant {ε β γ : Type} {body : β → γ → Except ε β} {l : List γ} {b b' : β} (I : β → Prop)
    (hstep : ∀ x ∈ l, ∀ b b', I b → body b x = .ok b' → I b') (hb : I b) (h : l.foldlM body b = .ok b') :
    I b' := by
  induction l generalizing b with
  | nil => exact Except.ok.inj h ▸ hb
  | cons x l ih =>
    rw [List.foldlM_cons] at h
    cases hx : body b x with
    | error e =>
      rw [hx] at h
      cases h
    | ok b₁ =>
      rw [hx] at h
      exact ih (fun y hy => hstep y (List.mem_cons_of_mem _ hy)) (hstep x (List.mem_cons_self ..) b b₁ hb hx) h

theorem foldlM_ok_of_mem {ε β γ : Type} {body : β → γ → Except ε β} {l : List γ} {b b' : β}
    (h : l.foldlM body b = .ok b') {x : γ} (hx : x ∈ l) : ∃ b₁ b₂, body b₁ x = .ok b₂ := by
  induction l generalizing b with
  | nil => cases hx
  | cons y l ih =>
    rw [List.foldlM_cons] at h
    cases hy : body b y with
    | error e =>
      rw [hy] at h
      cases h
    | ok b₁ =>
      rw [hy] at h
      rcases List.mem_cons.1 hx with rfl | hx
      · exact ⟨b, b₁, hy⟩
      · exact ih h hx

theorem exists_iterate_lt {f : ℕ → ℕ} {n r x m : ℕ} (hf : ∀ y < n, f y < n) (hx : x < n)
    (h : f^[m] x = r) : ∃ k < n, f^[k] x = r := by
  have hmaps : ∀ k, f^[k] x < n := by
    intro k
    induction k with
    | zero => exact hx
    | succ k ih =>
      rw [Function.iterate_succ_apply']
      exact hf _ ih
  induction m using Nat.strong_induction_on with
  | _ m ih =>
    by_cases hm : m < n
    · exact ⟨m, hm, h⟩
    · -- among the first `n + 1` points one comes twice
      obtain ⟨a, ha, b, hb, hab, heq⟩ := Finset.exists_ne_map_eq_of_card_lt_of_maps_to
        (s := Finset.range (n + 1)) (t := Finset.range n) (by simp) (f := fun k => f^[k] x)
        (fun k _ => by simpa using hmaps k)
      have hcut : ∀ a b, a < b → b ≤ n → f^[a] x = f^[b] x → ∃ k < n, f^[k] x = r := by
        intro a b hab hb heq
        refine ih (m - b + a) (by omega) ?_
        rw [Function.iterate_add_apply, heq, ← Function.iterate_add_apply, Nat.sub_add_cancel (by omega)]
        exact h
      rw [Finset.mem_range] at ha hb
      rcases Nat.lt_or_gt_of_ne hab with hlt | hlt
      · exact hcut a b hlt (by omega) heq
      · exact hcut b a hlt (by omega) heq.symm

theorem bind_eq_ok {α β ε : Type} {x : Except ε α} {f : α → Except ε β} {r : β} :
    x >>= f = .ok r ↔ ∃ a, x = .ok a ∧ f a = .ok r := by
  cases x with
  | error e =>
    refine iff_of_false (fun h => nomatch h) ?_
    rintro ⟨_, h, _⟩
    cases h
  | ok a =>
    refine ⟨fun h => ⟨a, rfl, h⟩, ?_⟩
    rintro ⟨_, h, hf⟩
    cases h
    exact hf

theorem foldlM_range_sum {ε β : Type} [AddCommMonoid β] {body : β → ℕ → Except ε β} {g : ℕ → β}
    {n : ℕ} {a b : β} (hbody : ∀ s i s', i < n → body s i = .ok s' → s' = s + g i)
    (h : (List.range n).foldlM body a = .ok b) : b = a + ∑ i ∈ Finset.range n, g i := by
  induction n generalizing b with
  | zero =>
    cases h
    simp
  | succ n ih =>
    rw [List.range_succ, List.foldlM_append] at h
    obtain ⟨c, hinit, h⟩ := bind_eq_ok.mp h
    rw [List.foldlM_cons] at h
    obtain ⟨b', hlast, h⟩ := bind_eq_ok.mp h
    cases h
    have hc := ih (fun s i s' hi => hbody s i s' (Nat.lt_succ_of_lt hi)) hinit
    rw [hbody c n b (Nat.lt_succ_self n) hlast, hc, Finset.sum_range_succ, add_assoc]

theorem foldlM_range_ok {ε β : Type} [AddCommMonoid β] {body : β → ℕ → Except ε β} {g : ℕ → β}
    {n : ℕ} {a : β} (hbody : ∀ s i, i < n → body s i = .ok (s + g i)) :
    (List.range n).foldlM body a = .ok (a + ∑ i ∈ Finset.range n, g i) := by
  induction n with
  | zero =>
    rw [Finset.sum_range_zero, add_zero]
    rfl
  | succ n ih =>
    rw [List.range_succ, List.foldlM_append, ih fun s i hi => hbody s i (Nat.lt_succ_of_lt hi),
      Finset.sum_range_succ, ← add_assoc, ← hbody _ n (Nat.lt_succ_self n)]
    show (body (a + ∑ i ∈ Finset.range n, g i) n >>= pure) = _
    exact bind_pure _

theorem forall₂_of_mapM {α β ε : Type} {f : α → Except ε β} {as : List α} {bs : List β}
    (h : as.mapM f = .ok bs) : List.Forall₂ (fun a b => f a = .ok b) as bs := by
  induction as generalizing bs with
  | nil =>
    cases h
    exact .nil
  | cons a as ih =>
    rw [List.mapM_cons] at h
    obtain ⟨b, ha, h⟩ := bind_eq_ok.mp h
    obtain ⟨bs', has, h⟩ := bind_eq_ok.mp h
    cases h
    exact .cons ha (ih has)

end Mp2bs.Lib
