import Mathlib

/-!
# Gauss-Jordan elimination with Boolean coefficients

Column after column a row with coefficient one is brought to the diagonal, by a swap or by adding it to
the row there, and is then added to all other rows with that coefficient. Every step keeps the solutions,
for every notion of solution that addition respects.
-/

namespace Mp2bs.Lib.Elimination

structure Ops (E : Type) where
  coeff : E → ℕ → Bool
  add : E → E → E

/-- How a pivot row found below the diagonal reaches it. -/
inductive Pivoting where
  | swap
  | add
  deriving Repr, DecidableEq

variable {E : Type} (o : Ops E) (mode : Pivoting)

def findPivot (eqs : List E) (j : ℕ) : Option ℕ :=
  (List.range' j (eqs.length - j)).find? fun i => (eqs[i]?).any (o.coeff · j)

def bring (eqs : List E) (i j : ℕ) : List E :=
  match eqs[i]?, eqs[j]? with
  | some a, some b => match mode with
    | .swap => (eqs.set j a).set i b
    | .add => if i = j then eqs else eqs.set j (o.add b a)
  | _, _ => eqs

def clear (eqs : List E) (j : ℕ) : List E :=
  match eqs[j]? with
  | none => eqs
  | some p => eqs.mapIdx fun i e => if o.coeff e j && i != j then o.add e p else e

def column (eqs : List E) (j : ℕ) : Option (List E) :=
  (findPivot o eqs j).map fun i => clear o (bring o mode eqs i j) j

def eliminate (eqs : List E) : ℕ → Option (List E)
  | 0 => some eqs
  | j + 1 => (eliminate eqs j).bind (column o mode · j)

def Lawful (K : ℕ) : Prop :=
  ∀ a b t, t < K → o.coeff (o.add a b) t = Bool.xor (o.coeff a t) (o.coeff b t)

def Respects (Sat : E → Prop) : Prop := ∀ a b, Sat b → (Sat (o.add a b) ↔ Sat a)

def All (Sat : E → Prop) (eqs : List E) : Prop := ∀ (i : ℕ) e, eqs[i]? = some e → Sat e

def Reduced (eqs : List E) (j : ℕ) : Prop :=
  ∀ (i : ℕ) e, eqs[i]? = some e → ∀ t < j, o.coeff e t = decide (i = t)

variable {o} {mode} {eqs eqs' : List E} {i j K : ℕ}

theorem findPivot_some (h : findPivot o eqs j = some i) :
    j ≤ i ∧ (∃ e, eqs[i]? = some e ∧ o.coeff e j = true) ∧
      ∀ k e, j ≤ k → k < i → eqs[k]? = some e → o.coeff e j = false := by
  rw [findPivot, List.find?_range'_eq_some] at h
  obtain ⟨hany, hmem, hfirst⟩ := h
  rw [List.mem_range'_1] at hmem
  refine ⟨hmem.1, (Option.any_eq_true ..).mp hany, ?_⟩
  intro k e hjk hki hk
  have hnot := hfirst k hjk hki
  rw [hk] at hnot
  simpa using hnot

theorem findPivot_none (h : findPivot o eqs j = none) {e : E} (hi : eqs[i]? = some e)
    (hj : j ≤ i) : o.coeff e j = false := by
  have hlt : i < eqs.length := (List.getElem?_eq_some_iff.mp hi).1
  have hnot := List.find?_eq_none.mp h i (List.mem_range'_1.mpr ⟨hj, by omega⟩)
  rw [hi] at hnot
  simpa using hnot

variable {p a b : E} {Sat : E → Prop}

theorem clear_getElem? (hp : eqs[j]? = some p) (k : ℕ) :
    (clear o eqs j)[k]? =
      eqs[k]?.map fun e => if o.coeff e j && k != j then o.add e p else e := by
  rw [clear, hp]
  exact List.getElem?_mapIdx

theorem swap_getElem? (ha : eqs[i]? = some a) (hb : eqs[j]? = some b) (k : ℕ) :
    (bring o .swap eqs i j)[k]? =
      if k = i then some b else if k = j then some a else eqs[k]? := by
  have hi := (List.getElem?_eq_some_iff.mp ha).1
  have hj := (List.getElem?_eq_some_iff.mp hb).1
  simp only [bring, ha, hb]
  rw [List.getElem?_set, List.getElem?_set, List.length_set]
  by_cases hki : k = i
  · rw [if_pos hki.symm, if_pos hki, if_pos hi]
  · rw [if_neg (Ne.symm hki), if_neg hki]
    by_cases hkj : k = j
    · rw [if_pos hkj.symm, if_pos hkj, if_pos hj]
    · rw [if_neg (Ne.symm hkj), if_neg hkj]

theorem add_getElem? (ha : eqs[i]? = some a) (hb : eqs[j]? = some b) (hij : i ≠ j) (k : ℕ) :
    (bring o .add eqs i j)[k]? = if k = j then some (o.add b a) else eqs[k]? := by
  have hj := (List.getElem?_eq_some_iff.mp hb).1
  simp only [bring, ha, hb, if_neg hij]
  rw [List.getElem?_set]
  by_cases hkj : k = j
  · rw [if_pos hkj.symm, if_pos hkj, if_pos hj]
  · rw [if_neg (Ne.symm hkj), if_neg hkj]

theorem bring_self (mode : Pivoting) : bring o mode eqs i i = eqs := by
  simp only [bring]
  cases ha : eqs[i]? with
  | none => rfl
  | some a =>
    cases mode with
    | swap =>
      obtain ⟨hlt, heq⟩ := List.getElem?_eq_some_iff.mp ha
      simp [← heq]
    | add => simp

theorem bring_length : (bring o mode eqs i j).length = eqs.length := by
  unfold bring
  cases eqs[i]? <;> cases eqs[j]? <;> cases mode <;> simp
  split_ifs <;> simp

theorem clear_length : (clear o eqs j).length = eqs.length := by
  unfold clear
  cases eqs[j]? <;> simp

/-! ### One column -/

theorem reduced_bring (mode : Pivoting) (hl : Lawful o K) (hjK : j < K) (hred : Reduced o eqs j)
    (h : findPivot o eqs j = some i) :
    Reduced o (bring o mode eqs i j) j ∧
      ∃ p, (bring o mode eqs i j)[j]? = some p ∧ o.coeff p j = true := by
  obtain ⟨hji, ⟨a, ha, haj⟩, hfirst⟩ := findPivot_some h
  by_cases hij : i = j
  · subst hij
    rw [bring_self]
    exact ⟨hred, a, ha, haj⟩
  · have hlt : j < eqs.length := by
      have := (List.getElem?_eq_some_iff.mp ha).1
      omega
    obtain ⟨b, hb⟩ : ∃ b, eqs[j]? = some b := ⟨_, List.getElem?_eq_getElem hlt⟩
    -- both rows have only zeros in the columns that are done
    have hrow : ∀ k e, eqs[k]? = some e → j ≤ k → ∀ t < j, o.coeff e t = false := by
      intro k e hk hjk t ht
      rw [hred k e hk t ht]
      exact decide_eq_false (by omega)
    cases mode with
    | swap =>
      constructor
      · intro k e hk t ht
        rw [swap_getElem? ha hb] at hk
        split_ifs at hk with hki hkj
        · cases hk
          rw [hrow j _ hb le_rfl t ht]
          exact (decide_eq_false (by omega)).symm
        · cases hk
          rw [hrow i _ ha hji t ht]
          exact (decide_eq_false (by omega)).symm
        · exact hred k e hk t ht
      · refine ⟨a, ?_, haj⟩
        rw [swap_getElem? ha hb, if_neg (Ne.symm hij), if_pos rfl]
    | add =>
      constructor
      · intro k e hk t ht
        rw [add_getElem? ha hb hij] at hk
        split_ifs at hk with hkj
        · cases hk
          rw [hl _ _ _ (by omega), hrow j _ hb le_rfl t ht, hrow i _ ha hji t ht]
          exact (decide_eq_false (by omega)).symm
        · exact hred k e hk t ht
      · refine ⟨o.add b a, ?_, ?_⟩
        · rw [add_getElem? ha hb hij, if_pos rfl]
        · rw [hl _ _ _ hjK, haj, hfirst j b le_rfl (by omega) hb]
          rfl

theorem reduced_clear (hl : Lawful o K) (hjK : j < K) (hred : Reduced o eqs j)
    (hp : eqs[j]? = some p) (hpj : o.coeff p j = true) : Reduced o (clear o eqs j) (j + 1) := by
  intro k e hk t ht
  rw [clear_getElem? hp, Option.map_eq_some_iff] at hk
  obtain ⟨e₀, he₀, rfl⟩ := hk
  by_cases hadd : (o.coeff e₀ j && k != j) = true
  · rw [if_pos hadd]
    obtain ⟨he₀j, hkj⟩ := Bool.and_eq_true_iff.mp hadd
    rw [hl _ _ _ (by omega)]
    rcases Nat.lt_succ_iff_lt_or_eq.mp ht with hlt | heq
    · rw [hred k e₀ he₀ t hlt, hred j p hp t hlt]
      have hjt : decide (j = t) = false := decide_eq_false (by omega)
      rw [hjt, Bool.xor_false]
    · rw [heq, he₀j, hpj]
      exact (decide_eq_false (by simpa using hkj)).symm
  · rw [if_neg hadd]
    rcases Nat.lt_succ_iff_lt_or_eq.mp ht with hlt | heq
    · exact hred k e₀ he₀ t hlt
    · subst heq
      by_cases hkj : k = t
      · subst hkj
        rw [hp] at he₀
        cases he₀
        rw [hpj]
        exact (decide_eq_true rfl).symm
      · rw [decide_eq_false hkj]
        simpa [hkj] using hadd

theorem all_swap (ha : eqs[i]? = some a) (hb : eqs[j]? = some b) :
    All Sat (bring o .swap eqs i j) ↔ All Sat eqs := by
  constructor
  · intro h k e hk
    by_cases hki : k = i
    · subst hki
      rw [ha] at hk
      cases hk
      by_cases hkj : k = j
      · subst hkj
        rw [bring_self] at h
        exact h k _ ha
      · exact h j a (by rw [swap_getElem? ha hb, if_neg (Ne.symm hkj), if_pos rfl])
    · by_cases hkj : k = j
      · subst hkj
        rw [hb] at hk
        cases hk
        exact h i b (by rw [swap_getElem? ha hb, if_pos rfl])
      · exact h k e (by rw [swap_getElem? ha hb, if_neg hki, if_neg hkj, hk])
  · intro h k e hk
    rw [swap_getElem? ha hb] at hk
    split_ifs at hk
    · exact h j e (hk ▸ hb)
    · exact h i e (hk ▸ ha)
    · exact h k e hk

theorem all_add (hsat : Respects o Sat) (ha : eqs[i]? = some a) (hb : eqs[j]? = some b)
    (hij : i ≠ j) : All Sat (bring o .add eqs i j) ↔ All Sat eqs := by
  constructor
  · intro h k e hk
    have hsa : Sat a := h i a (by rw [add_getElem? ha hb hij, if_neg hij, ha])
    by_cases hkj : k = j
    · subst hkj
      rw [hb] at hk
      cases hk
      exact (hsat b a hsa).mp (h k _ (by rw [add_getElem? ha hb hij, if_pos rfl]))
    · exact h k e (by rw [add_getElem? ha hb hij, if_neg hkj, hk])
  · intro h k e hk
    rw [add_getElem? ha hb hij] at hk
    split_ifs at hk
    · cases hk
      exact (hsat b a (h i a ha)).mpr (h j b hb)
    · exact h k e hk

theorem all_clear (hsat : Respects o Sat) (hp : eqs[j]? = some p) :
    All Sat (clear o eqs j) ↔ All Sat eqs := by
  have hself : (clear o eqs j)[j]? = some p := by
    rw [clear_getElem? hp, hp]
    simp
  constructor
  · intro h k e hk
    have hk' : (clear o eqs j)[k]? = some (if o.coeff e j && k != j then o.add e p else e) := by
      rw [clear_getElem? hp, hk]
      rfl
    have hke := h k _ hk'
    split_ifs at hke
    · exact (hsat e p (h j p hself)).mp hke
    · exact hke
  · intro h k e hk
    rw [clear_getElem? hp, Option.map_eq_some_iff] at hk
    obtain ⟨e₀, he₀, rfl⟩ := hk
    split_ifs
    · exact (hsat e₀ p (h j p hp)).mpr (h k e₀ he₀)
    · exact h k e₀ he₀

theorem column_some (hl : Lawful o K) (hjK : j < K) (hred : Reduced o eqs j)
    (h : column o mode eqs j = some eqs') :
    eqs'.length = eqs.length ∧ Reduced o eqs' (j + 1) ∧
      ∀ Sat, Respects o Sat → (All Sat eqs' ↔ All Sat eqs) := by
  rw [column, Option.map_eq_some_iff] at h
  obtain ⟨i, hi, rfl⟩ := h
  obtain ⟨hred', p, hp, hpj⟩ := reduced_bring mode hl hjK hred hi
  obtain ⟨hji, ⟨a, ha, -⟩, -⟩ := findPivot_some hi
  refine ⟨clear_length.trans bring_length, reduced_clear hl hjK hred' hp hpj, ?_⟩
  intro Sat hsat
  rw [all_clear hsat hp]
  by_cases hij : i = j
  · rw [hij, bring_self]
  · have hlt : j < eqs.length := by
      have := (List.getElem?_eq_some_iff.mp ha).1
      omega
    have hb := List.getElem?_eq_getElem hlt
    cases mode with
    | swap => exact all_swap ha hb
    | add => exact all_add hsat ha hb hij

/-! ### The whole elimination -/

theorem eliminate_some (hl : Lawful o K) (hjK : j ≤ K) (h : eliminate o mode eqs j = some eqs') :
    eqs'.length = eqs.length ∧ Reduced o eqs' j ∧
      ∀ Sat, Respects o Sat → (All Sat eqs' ↔ All Sat eqs) := by
  induction j generalizing eqs' with
  | zero =>
    cases h
    exact ⟨rfl, fun _ _ _ t ht => absurd ht (Nat.not_lt_zero t), fun _ _ => Iff.rfl⟩
  | succ j ih =>
    rw [eliminate, Option.bind_eq_some_iff] at h
    obtain ⟨eqs₁, h₁, h₂⟩ := h
    obtain ⟨hlen₁, hred₁, hall₁⟩ := ih (by omega) h₁
    obtain ⟨hlen₂, hred₂, hall₂⟩ := column_some hl hjK hred₁ h₂
    exact ⟨hlen₂.trans hlen₁, hred₂, fun Sat hsat => (hall₂ Sat hsat).trans (hall₁ Sat hsat)⟩

theorem eliminate_none (h : eliminate o mode eqs K = none) :
    ∃ j < K, ∃ eqs', eliminate o mode eqs j = some eqs' ∧ findPivot o eqs' j = none := by
  induction K with
  | zero => cases h
  | succ K ih =>
    rw [eliminate, Option.bind_eq_none_iff] at h
    cases hK : eliminate o mode eqs K with
    | none =>
      obtain ⟨j, hj, hstop⟩ := ih hK
      exact ⟨j, by omega, hstop⟩
    | some eqs' =>
      have hnone := h eqs' hK
      rw [column, Option.map_eq_none_iff] at hnone
      exact ⟨K, by omega, eqs', hK, hnone⟩

/-! ### A last equation that repeats the coefficients of another -/

/-- Equation `n` has no coefficients, or those of an equation before it that has not been
brought to the diagonal yet. -/
def Spare (o : Ops E) (K n : ℕ) (eqs : List E) (j : ℕ) : Prop :=
  ∃ z, eqs[n]? = some z ∧ ((∀ t < K, o.coeff z t = false) ∨
    ∃ p e, j ≤ p ∧ p < n ∧ eqs[p]? = some e ∧ ∀ t < K, o.coeff z t = o.coeff e t)

variable {n : ℕ}

theorem Spare.pivot_lt (hsp : Spare o K n eqs j) (hlen : eqs.length = n + 1) (hjK : j < K)
    (h : findPivot o eqs j = some i) : i < n := by
  obtain ⟨_, ⟨a, ha, haj⟩, hfirst⟩ := findPivot_some h
  obtain ⟨z, hz, hcase⟩ := hsp
  by_contra hge
  have hin : i = n := by
    have := (List.getElem?_eq_some_iff.mp ha).1
    omega
  subst hin
  rw [hz] at ha
  cases ha
  rcases hcase with hzero | ⟨p, e, hjp, hpn, he, hsame⟩
  · rw [hzero j hjK] at haj
    cases haj
  · rw [hsame j hjK, hfirst p e hjp hpn he] at haj
    cases haj

theorem Spare.column (hl : Lawful o K) (hjK : j < K) (hjn : j < n) (hlen : eqs.length = n + 1)
    (hsp : Spare o K n eqs j) (h : column o .swap eqs j = some eqs') :
    Spare o K n eqs' (j + 1) ∧ ∀ Sat, Respects o Sat →
      (∀ k e, k < n → eqs[k]? = some e → Sat e) → ∀ k e, k < n → eqs'[k]? = some e → Sat e := by
  rw [Elimination.column, Option.map_eq_some_iff] at h
  obtain ⟨i, hi, rfl⟩ := h
  have hin := hsp.pivot_lt hlen hjK hi
  obtain ⟨hji, ⟨a, ha, haj⟩, _⟩ := findPivot_some hi
  have hb := List.getElem?_eq_getElem (show j < eqs.length by omega)
  have hget := swap_getElem? (o := o) ha hb
  have hp : (bring o .swap eqs i j)[j]? = some a := by
    rw [hget]
    by_cases hij : j = i
    · rw [if_pos hij, ← hb, hij, ha]
    · rw [if_neg hij, if_pos rfl]
  have hclear := clear_getElem? (o := o) hp
  constructor
  · obtain ⟨z, hz, hcase⟩ := hsp
    have hz' : (bring o .swap eqs i j)[n]? = some z := by
      rw [hget, if_neg (by omega), if_neg (by omega), hz]
    refine ⟨_, by rw [hclear, hz', Option.map_some], ?_⟩
    have hnj : (n != j) = true := bne_iff_ne.mpr (by omega)
    rw [hnj, Bool.and_true]
    rcases hcase with hzero | ⟨p, e, hjp, hpn, he, hsame⟩
    · left
      rw [hzero j hjK]
      exact hzero
    · by_cases hpi : p = i
      · -- its own equation is the pivot: nothing is left of the coefficients
        subst hpi
        rw [ha] at he
        cases he
        left
        intro t ht
        rw [hsame j hjK, haj, if_pos rfl, hl _ _ _ ht, hsame t ht, Bool.xor_self]
      · right
        have hp' : ∃ p', j + 1 ≤ p' ∧ p' < n ∧ (bring o .swap eqs i j)[p']? = some e := by
          by_cases hpj : p = j
          · subst hpj
            refine ⟨i, by omega, hin, ?_⟩
            rw [hget, if_pos rfl, ← hb, he]
          · refine ⟨p, by omega, hpn, ?_⟩
            rw [hget, if_neg hpi, if_neg hpj, he]
        obtain ⟨p', hjp', hpn', he'⟩ := hp'
        refine ⟨p', _, hjp', hpn', by rw [hclear, he', Option.map_some], ?_⟩
        have hpj : (p' != j) = true := bne_iff_ne.mpr (by omega)
        intro t ht
        rw [hpj, Bool.and_true, ← hsame j hjK]
        by_cases hz : o.coeff z j = true
        · rw [if_pos hz, if_pos hz, hl _ _ _ ht, hl _ _ _ ht, hsame t ht]
        · rw [if_neg hz, if_neg hz, hsame t ht]
  · intro Sat hsat hall k e hk he
    rw [hclear, Option.map_eq_some_iff] at he
    obtain ⟨e₀, he₀, rfl⟩ := he
    have hs₀ : Sat e₀ := by
      rw [hget] at he₀
      split_ifs at he₀
      · exact hall j e₀ hjn (he₀ ▸ hb)
      · exact hall i e₀ hin (he₀ ▸ ha)
      · exact hall k e₀ hk he₀
    split_ifs
    · exact (hsat e₀ a (hall i a hin ha)).mpr hs₀
    · exact hs₀

theorem Spare.eliminate (hl : Lawful o K) (hjK : j ≤ K) (hKn : K ≤ n) (hlen : eqs.length = n + 1)
    (hsp : Spare o K n eqs 0) (h : eliminate o .swap eqs j = some eqs') :
    Spare o K n eqs' j ∧ ∀ Sat, Respects o Sat →
      (∀ k e, k < n → eqs[k]? = some e → Sat e) → ∀ k e, k < n → eqs'[k]? = some e → Sat e := by
  induction j generalizing eqs' with
  | zero =>
    cases h
    exact ⟨hsp, fun Sat _ hall => hall⟩
  | succ j ih =>
    rw [Elimination.eliminate, Option.bind_eq_some_iff] at h
    obtain ⟨eqs₁, h₁, h₂⟩ := h
    obtain ⟨hsp₁, hall₁⟩ := ih (by omega) h₁
    have hlen₁ := (eliminate_some hl (by omega) h₁).1
    obtain ⟨hsp₂, hall₂⟩ := hsp₁.column hl hjK (by omega) (hlen₁.trans hlen) h₂
    exact ⟨hsp₂, fun Sat hsat hall => hall₂ Sat hsat (hall₁ Sat hsat hall)⟩

end Mp2bs.Lib.Elimination
