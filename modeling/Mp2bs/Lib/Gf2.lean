import Mp2bs.Lib.Elimination

/-!
# Linear systems over the two-element field

The unknowns are elements of a group in which every element is its own inverse, such
as bit vectors under exclusive or. `dot K r x` is the sum of the first `K` unknowns
whose coefficient in `r` is set.
-/

namespace Mp2bs.Lib.Gf2
open Mp2bs.Lib.Elimination

variable {V : Type} [AddCommGroup V] {K : ℕ} {r a b : ℕ → Bool} {x : ℕ → V}

def dot (K : ℕ) (r : ℕ → Bool) (x : ℕ → V) : V :=
  ∑ i ∈ Finset.range K, if r i then x i else 0

theorem dot_congr {r' : ℕ → Bool} {x' : ℕ → V} (hr : ∀ i < K, r i = r' i)
    (hx : ∀ i < K, x i = x' i) : dot K r x = dot K r' x' := by
  refine Finset.sum_congr rfl fun i hi => ?_
  rw [hr i (Finset.mem_range.mp hi), hx i (Finset.mem_range.mp hi)]

theorem dot_zero (h : ∀ i < K, r i = false) (x : ℕ → V) : dot K r x = 0 := by
  refine Finset.sum_eq_zero fun i hi => ?_
  rw [h i (Finset.mem_range.mp hi)]
  rfl

theorem dot_unit {i : ℕ} (hi : i < K) (h : ∀ t < K, r t = decide (i = t)) (x : ℕ → V) :
    dot K r x = x i := by
  rw [dot, Finset.sum_eq_single_of_mem i (Finset.mem_range.mpr hi)]
  · rw [h i hi, decide_eq_true rfl]
    rfl
  · intro t ht hne
    rw [h t (Finset.mem_range.mp ht), decide_eq_false (Ne.symm hne)]
    rfl

theorem dot_of_unknowns_zero (h : ∀ i < K, r i = true → x i = 0) : dot K r x = 0 := by
  refine Finset.sum_eq_zero fun i hi => ?_
  cases hr : r i with
  | false => rfl
  | true => exact h i (Finset.mem_range.mp hi) hr

theorem dot_of_le {n : ℕ} (hKn : K ≤ n) (hx : ∀ i < n, K ≤ i → x i = 0) :
    dot n r x = dot K r x := by
  refine (Finset.sum_subset (Finset.range_subset_range.mpr hKn) ?_).symm
  intro i hi hiK
  rw [hx i (Finset.mem_range.mp hi) (Nat.not_lt.mp fun h => hiK (Finset.mem_range.mpr h)), ite_self]

theorem dot_sub (r : ℕ → Bool) (x y : ℕ → V) :
    dot K r (fun i => x i - y i) = dot K r x - dot K r y := by
  rw [dot, dot, dot, ← Finset.sum_sub_distrib]
  refine Finset.sum_congr rfl fun i _ => ?_
  cases r i <;> simp

theorem dot_single {i : ℕ} (hi : i < K) (hx : ∀ t < K, t ≠ i → x t = 0) :
    dot K r x = if r i then x i else 0 := by
  refine Finset.sum_eq_single_of_mem i (Finset.mem_range.mpr hi) ?_
  intro t ht hne
  rw [hx t (Finset.mem_range.mp ht) hne, ite_self]

variable [Module (ZMod 2) V]

theorem dot_smul (r : ℕ → Bool) (y : ℕ → ZMod 2) (v : V) :
    dot K r (fun i => y i • v) = dot K r y • v := by
  rw [dot, dot, Finset.sum_smul]
  refine Finset.sum_congr rfl fun i _ => ?_
  cases r i <;> simp

theorem dot_xor (h : ∀ i < K, r i = Bool.xor (a i) (b i)) (x : ℕ → V) :
    dot K r x = dot K a x + dot K b x := by
  rw [dot, dot, dot, ← Finset.sum_add_distrib]
  refine Finset.sum_congr rfl fun i hi => ?_
  rw [h i (Finset.mem_range.mp hi)]
  cases a i <;> cases b i <;> simp [ZModModule.add_self]

variable {E : Type} {o : Ops E} {mode : Pivoting} {eqs eqs' : List E}

def Solves (o : Ops E) (K : ℕ) (rhs : E → V) (x : ℕ → V) (e : E) : Prop :=
  dot K (o.coeff e) x = rhs e

theorem respects_solves (hl : Lawful o K) (rhs : E → V)
    (hrhs : ∀ a b, rhs (o.add a b) = rhs a + rhs b) : Respects o (Solves o K rhs x) := by
  intro a b hb
  rw [Solves] at hb
  rw [Solves, Solves, dot_xor (hl a b), hrhs, hb]
  exact add_left_inj _

theorem solves_iff (hl : Lawful o K) (rhs : E → V)
    (hrhs : ∀ a b, rhs (o.add a b) = rhs a + rhs b) (hlen : eqs.length = K)
    (h : eliminate o mode eqs K = some eqs') :
    All (Solves o K rhs x) eqs ↔ ∀ i e, eqs'[i]? = some e → x i = rhs e := by
  obtain ⟨hlen', hred, hall⟩ := eliminate_some hl le_rfl h
  rw [← hall _ (respects_solves hl rhs hrhs)]
  have hiff : ∀ i e, eqs'[i]? = some e → (Solves o K rhs x e ↔ x i = rhs e) := by
    intro i e hi
    have hlt := (List.getElem?_eq_some_iff.mp hi).1
    rw [Solves, dot_unit (by omega) (hred i e hi)]
  exact ⟨fun hs i e hi => (hiff i e hi).mp (hs i e hi), fun hs i e hi => (hiff i e hi).mpr (hs i e hi)⟩

theorem unknown_of_eliminate (hl : Lawful o K) (rhs : E → V)
    (hrhs : ∀ a b, rhs (o.add a b) = rhs a + rhs b) (h : eliminate o mode eqs K = some eqs')
    (hsol : All (Solves o K rhs x) eqs) {i : ℕ} (hi : i < K) {e : E} (he : eqs'[i]? = some e) :
    rhs e = x i := by
  obtain ⟨-, hred, hall⟩ := eliminate_some hl le_rfl h
  have hs := (hall _ (respects_solves hl rhs hrhs)).mpr hsol i e he
  rw [Solves, dot_unit hi (hred i e he)] at hs
  exact hs.symm

theorem unknown_of_spare (hl : Lawful o K) (rhs : E → V)
    (hrhs : ∀ a b, rhs (o.add a b) = rhs a + rhs b) {n : ℕ} (hKn : K ≤ n)
    (hlen : eqs.length = n + 1) (hsp : Spare o K n eqs 0)
    (h : eliminate o .swap eqs K = some eqs')
    (hsol : ∀ k e, k < n → eqs[k]? = some e → Solves o K rhs x e) {i : ℕ} (hi : i < K) {e : E}
    (he : eqs'[i]? = some e) : rhs e = x i := by
  obtain ⟨-, hred, -⟩ := eliminate_some hl le_rfl h
  have hall := (hsp.eliminate hl le_rfl hKn hlen h).2
  have hs := hall _ (respects_solves hl rhs hrhs) hsol i e (by omega) he
  rw [Solves, dot_unit hi (hred i e he)] at hs
  exact hs.symm

/-! ### Rank -/

def freeSolution (o : Ops E) (eqs : List E) (j t : ℕ) : ZMod 2 :=
  if t = j then 1 else if t < j ∧ (eqs[t]?).any (o.coeff · j) then 1 else 0

theorem freeSolution_solves {j : ℕ} (hj : j < K) (hred : Reduced o eqs j)
    (hnone : findPivot o eqs j = none) :
    All (Solves o K (fun _ => (0 : ZMod 2)) (freeSolution o eqs j)) eqs := by
  intro i e he
  rw [Solves]
  by_cases hij : i < j
  · -- the equation of a column that is done: its own unknown and the free one
    have hterm : ∀ t ∈ Finset.range K,
        (if o.coeff e t then freeSolution o eqs j t else 0) =
          (if t = i then (if o.coeff e j then 1 else 0 : ZMod 2) else 0) +
            (if t = j then (if o.coeff e j then 1 else 0) else 0) := by
      intro t _
      rcases Nat.lt_trichotomy t j with hlt | heq | hgt
      · rw [hred i e he t hlt]
        by_cases hti : t = i
        · subst hti
          simp [freeSolution, hlt, hlt.ne, he]
        · simp [hti, hlt.ne, Ne.symm hti]
      · subst heq
        simp [freeSolution, Ne.symm hij.ne]
      · have hti : t ≠ i := by omega
        simp [freeSolution, hti, hgt.ne', Nat.not_lt.mpr hgt.le]
    rw [dot, Finset.sum_congr rfl hterm, Finset.sum_add_distrib, Finset.sum_ite_eq',
      Finset.sum_ite_eq', if_pos (Finset.mem_range.mpr hj),
      if_pos (Finset.mem_range.mpr (by omega))]
    exact CharTwo.add_self_eq_zero _
  · refine dot_of_unknowns_zero ?_
    intro t _ ht
    rcases Nat.lt_trichotomy t j with hlt | heq | hgt
    · rw [hred i e he t hlt, decide_eq_true_eq] at ht
      omega
    · rw [heq, findPivot_none hnone he (by omega)] at ht
      cases ht
    · simp [freeSolution, hgt.ne', Nat.not_lt.mpr hgt.le]

theorem exists_kernel_of_none (hl : Lawful o K) (h : eliminate o mode eqs K = none) :
    ∃ x : ℕ → ZMod 2, (∃ j < K, x j ≠ 0) ∧ All (Solves o K (fun _ => (0 : ZMod 2)) x) eqs := by
  obtain ⟨j, hj, eqs', heqs', hnone⟩ := eliminate_none h
  obtain ⟨-, hred, hall⟩ := eliminate_some hl hj.le heqs'
  refine ⟨freeSolution o eqs' j, ⟨j, hj, ?_⟩, ?_⟩
  · rw [freeSolution, if_pos rfl]
    exact one_ne_zero
  · refine (hall _ (respects_solves hl _ ?_)).mp (freeSolution_solves hj hred hnone)
    intro a b
    exact (add_zero 0).symm

theorem rank_lt_iff_exists_kernel {N : ℕ} (A : Matrix (Fin N) (Fin K) (ZMod 2)) :
    A.rank < K ↔ ∃ x : Fin K → ZMod 2, x ≠ 0 ∧ A.mulVec x = 0 := by
  have hsum := LinearMap.finrank_range_add_finrank_ker A.mulVecLin
  rw [Module.finrank_fin_fun] at hsum
  have hrank : A.rank = Module.finrank (ZMod 2) (LinearMap.range A.mulVecLin) := rfl
  constructor
  · intro hlt
    have hker : LinearMap.ker A.mulVecLin ≠ ⊥ := by
      intro hbot
      rw [hbot, finrank_bot] at hsum
      omega
    obtain ⟨x, hx, hne⟩ := Submodule.exists_mem_ne_zero_of_ne_bot hker
    exact ⟨x, hne, hx⟩
  · rintro ⟨x, hne, hx⟩
    have hpos : 0 < Module.finrank (ZMod 2) (LinearMap.ker A.mulVecLin) := by
      rw [Nat.pos_iff_ne_zero]
      intro hzero
      have hmem : x ∈ LinearMap.ker A.mulVecLin := hx
      rw [Submodule.finrank_eq_zero.mp hzero] at hmem
      exact hne hmem
    omega

/-- The elimination fails exactly when the matrix of the first `K` columns does not have
full column rank. -/
theorem eliminate_eq_none_iff (hl : Lawful o K) {N : ℕ} (hlen : eqs.length = N) (hKN : K ≤ N)
    (A : Matrix (Fin N) (Fin K) (ZMod 2))
    (hA : ∀ (i : Fin N) (j : Fin K) e, eqs[(i : ℕ)]? = some e →
      A i j = if o.coeff e j then 1 else 0) :
    eliminate o mode eqs K = none ↔ A.rank < K := by
  have hmul : ∀ (x : ℕ → ZMod 2) (i : Fin N) e, eqs[(i : ℕ)]? = some e →
      A.mulVec (fun j => x j) i = dot K (o.coeff e) x := by
    intro x i e he
    rw [Matrix.mulVec, dotProduct, dot, ← Fin.sum_univ_eq_sum_range]
    refine Finset.sum_congr rfl fun j _ => ?_
    rw [hA i j e he]
    cases o.coeff e j <;> simp
  rw [rank_lt_iff_exists_kernel]
  constructor
  · intro h
    obtain ⟨x, ⟨j, hj, hxj⟩, hsol⟩ := exists_kernel_of_none hl h
    refine ⟨fun j => x j, fun hzero => hxj (congrFun hzero ⟨j, hj⟩), ?_⟩
    funext i
    have hi : (i : ℕ) < eqs.length := by omega
    rw [hmul x i _ (List.getElem?_eq_getElem hi)]
    exact hsol i _ (List.getElem?_eq_getElem hi)
  · rintro ⟨x, hne, hx⟩
    by_contra hsome
    obtain ⟨eqs', heqs'⟩ := Option.ne_none_iff_exists'.mp hsome
    refine hne (funext fun j => ?_)
    let y : ℕ → ZMod 2 := fun t => if ht : t < K then x ⟨t, ht⟩ else 0
    have hy : (fun j : Fin K => y j) = x := by
      funext t
      simp [y]
    have hsol : All (Solves o K (fun _ => (0 : ZMod 2)) y) eqs := by
      intro i e he
      have hi := (List.getElem?_eq_some_iff.mp he).1
      have hrow := congrFun hx ⟨i, by omega⟩
      rw [← hy, hmul y ⟨i, by omega⟩ e he] at hrow
      exact hrow
    obtain ⟨hlen', -, -⟩ := eliminate_some hl le_rfl heqs'
    have hj' : (j : ℕ) < eqs'.length := by omega
    have hval := unknown_of_eliminate hl _ (fun _ _ => (add_zero 0).symm) heqs' hsol j.isLt
      (List.getElem?_eq_getElem hj')
    rw [← hy]
    exact hval.symm

theorem rank_le_card {ι : Type} {N : ℕ} (A : Matrix (Fin N) (Fin K) (ZMod 2))
    (row : ι → Fin K → ZMod 2) (ids : Finset ι) (h : ∀ i, ∃ k ∈ ids, A i = row k) :
    A.rank ≤ ids.card := by
  classical
  rw [Matrix.rank_eq_finrank_span_row]
  have hsub : Set.range A.row ⊆ ↑(ids.image row) := by
    rintro _ ⟨i, rfl⟩
    obtain ⟨k, hk, hi⟩ := h i
    exact Finset.mem_coe.mpr (Finset.mem_image.mpr ⟨k, hk, hi.symm⟩)
  calc Module.finrank (ZMod 2) (Submodule.span (ZMod 2) (Set.range A.row))
      ≤ Module.finrank (ZMod 2) (Submodule.span (ZMod 2) (↑(ids.image row) :
          Set (Fin K → ZMod 2))) := Submodule.finrank_mono (Submodule.span_mono hsub)
    _ ≤ (ids.image row).card := finrank_span_finset_le_card _
    _ ≤ ids.card := Finset.card_image_le

end Mp2bs.Lib.Gf2
