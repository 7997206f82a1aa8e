import Mathlib

/-!
# Arithmetic progressions modulo a prime

The walk `b, b + a, b + 2 a, …` modulo a prime `m` with `0 < a < m` visits every residue once
in `m` steps. What permutes a range is counted by `card_filter_comp`; `filter_range'_skip` cuts
a filtered range of times at the first time that passes.
-/

namespace Mp2bs.Lib

theorem card_filter_comp {n : ℕ} {f : ℕ → ℕ} (hmaps : ∀ k < n, f k < n)
    (hinj : Set.InjOn f (Finset.range n)) (P : ℕ → Prop) [DecidablePred P] :
    ((Finset.range n).filter fun k => P (f k)).card = ((Finset.range n).filter P).card := by
  have himage : (Finset.range n).image f = Finset.range n := by
    refine Finset.eq_of_subset_of_card_le ?_ ?_
    · intro x hx
      obtain ⟨k, hk, rfl⟩ := Finset.mem_image.mp hx
      exact Finset.mem_range.mpr (hmaps k (Finset.mem_range.mp hk))
    · rw [Finset.card_image_of_injOn hinj]
  have hsub : ((Finset.range n).filter fun k => P (f k)) ⊆ Finset.range n :=
    Finset.filter_subset _ _
  calc ((Finset.range n).filter fun k => P (f k)).card
      = (((Finset.range n).filter fun k => P (f k)).image f).card :=
        (Finset.card_image_of_injOn (hinj.mono (Finset.coe_subset.mpr hsub))).symm
    _ = (((Finset.range n).image f).filter P).card := by rw [Finset.filter_image]
    _ = ((Finset.range n).filter P).card := by rw [himage]

theorem iterate_add_mod {m a b : ℕ} (hb : b < m) (k : ℕ) :
    (fun b => (b + a) % m)^[k] b = (b + k * a) % m := by
  induction k with
  | zero => simp [Nat.mod_eq_of_lt hb]
  | succ k ih =>
    rw [Function.iterate_succ_apply', ih, Nat.mod_add_mod, Nat.succ_mul, Nat.add_assoc]

section Prime

variable {m a : ℕ}

theorem exists_step_zero (hm : m.Prime) (ha : 0 < a) (ham : a < m) (b : ℕ) :
    ∃ k < m, (b + k * a) % m = 0 := by
  have hcop : a.Coprime m := (Nat.coprime_of_lt_prime ha.ne' ham hm).symm
  obtain ⟨c, -, hc⟩ := Nat.exists_mul_mod_eq_one_of_coprime hcop hm.one_lt
  have hinv : a * c ≡ 1 [MOD m] := by
    rw [Nat.ModEq, hc, Nat.mod_eq_of_lt hm.one_lt]
  have hlt : b % m < m := Nat.mod_lt b hm.pos
  refine ⟨c * (m - b % m) % m, Nat.mod_lt _ hm.pos, ?_⟩
  have hmod : b + c * (m - b % m) % m * a ≡ 0 [MOD m] :=
    calc b + c * (m - b % m) % m * a
        ≡ b + c * (m - b % m) * a [MOD m] :=
          ((Nat.mod_modEq _ _).mul_right a).add_left b
      _ = b + a * c * (m - b % m) := by ring
      _ ≡ b % m + 1 * (m - b % m) [MOD m] :=
          (Nat.mod_modEq b m).symm.add (hinv.mul_right _)
      _ = m := by omega
      _ ≡ 0 [MOD m] := Nat.mod_self m
  exact hmod

theorem progression_injOn (hm : m.Prime) (ha : 0 < a) (ham : a < m) (b : ℕ) :
    Set.InjOn (fun k => (b + k * a) % m) (Finset.range m) := by
  intro k hk l hl hkl
  have hcop : m.Coprime a := Nat.coprime_of_lt_prime ha.ne' ham hm
  have hsum : b + k * a ≡ b + l * a [MOD m] := hkl
  have hmul : k * a ≡ l * a [MOD m] := Nat.ModEq.add_left_cancel' b hsum
  have heq : k ≡ l [MOD m] := Nat.ModEq.cancel_right_of_coprime hcop hmul
  exact heq.eq_of_lt_of_lt (Finset.mem_range.mp hk) (Finset.mem_range.mp hl)

theorem card_progression_lt (hm : m.Prime) (ha : 0 < a) (ham : a < m) (b : ℕ) {n : ℕ}
    (hn : n ≤ m) :
    ((Finset.range m).filter fun k => (b + k * a) % m < n).card = n := by
  have hbelow : (Finset.range m).filter (fun x => x < n) = Finset.range n := by
    ext x
    simp only [Finset.mem_filter, Finset.mem_range]
    omega
  rw [card_filter_comp (fun k _ => Nat.mod_lt _ hm.pos) (progression_injOn hm ha ham b)
    (fun x => x < n), hbelow, Finset.card_range]

end Prime

theorem filter_range'_skip {P : ℕ → Bool} {s k n : ℕ} (hk : k ≤ n)
    (hrun : ∀ j < k, P (s + j) = false) :
    (List.range' s n).filter P = (List.range' (s + k) (n - k)).filter P := by
  induction k generalizing s n with
  | zero => rfl
  | succ k ih =>
    obtain ⟨n, rfl⟩ := Nat.exists_eq_add_of_lt (Nat.lt_of_lt_of_le (Nat.succ_pos k) hk)
    have hfirst : P s = false := hrun 0 (Nat.succ_pos k)
    have hrest : ∀ j < k, P (s + 1 + j) = false := by
      intro j hj
      have hnext := hrun (j + 1) (by omega)
      rwa [show s + (j + 1) = s + 1 + j by omega] at hnext
    rw [show 0 + n + 1 = n + 1 by omega, List.range'_succ, List.filter_cons_of_neg (by simp [hfirst]),
      ih (by omega) hrest]
    congr 2 <;> omega

end Mp2bs.Lib
