import Mp2bs.Peer.AxisNode
import Mp2bs.Validator.Machine

/-!
# Distances of an axis node, over the real numbers

`implement_axis_node` over exact arithmetic. The sum of the forward substitution is set to zero for each
combination of signs but not for each reference point (`peer_utils_ndim_coord.go:125, 142-152`), so the
coordinate before is added to the equation. The validator changes the
signs again (`validator/utils/validator_utils_network.go:86-97`).
-/

namespace Mp2bs.Peer
open Mp2bs.Lib
open Mp2bs.Validator (changeSigns)

/-- Exact arithmetic; the root of a negative number is NaN. -/
noncomputable def exactArith : Arith ℝ :=
  ⟨id, fun x => if x < 0 then none else some (Real.sqrt x)⟩

def coord (refPoints : List (List ℝ)) (i j : ℕ) : ℝ := (refPoints.getD i []).getD j 0

def distSq (ndim : ℕ) (x y : List ℝ) : ℝ :=
  ∑ k ∈ Finset.range ndim, (x.getD k 0 - y.getD k 0) ^ 2

def normSq (ndim : ℕ) (x : List ℝ) : ℝ := ∑ k ∈ Finset.range ndim, x.getD k 0 ^ 2

def Placed (refPoints : List (List ℝ)) : Prop := ∀ i j, i ≤ j → coord refPoints i j = 0

structure AxisForm (refPoints : List (List ℝ)) : Prop where
  placed : Placed refPoints
  ne_zero : ∀ i, 1 ≤ i → i < refPoints.length → coord refPoints i (i - 1) ≠ 0

noncomputable def nextCoord (refPoints : List (List ℝ)) (cost xs : List ℝ) (m : ℕ) : ℝ :=
  let r := coord refPoints (m + 1) m
  let sum := xs.getLastD 0 + ∑ j ∈ Finset.range m,
      (coord refPoints (m + 1) j ^ 2 - 2 * coord refPoints (m + 1) j * xs.getD j 0) +
    (cost.getD 0 0 ^ 2 - cost.getD (m + 1) 0 ^ 2)
  if r = 0 then sum else (sum + r ^ 2) / (2 * r)

noncomputable def axisCoords (refPoints : List (List ℝ)) (cost : List ℝ) : ℕ → List ℝ
  | 0 => []
  | m + 1 => axisCoords refPoints cost m ++
      [nextCoord refPoints cost (axisCoords refPoints cost m) m]

noncomputable def rootArg (refPoints : List (List ℝ)) (cost : List ℝ) (n : ℕ) : ℝ :=
  cost.getD 0 0 ^ 2 - ∑ j ∈ Finset.range n, (axisCoords refPoints cost n).getD j 0 ^ 2

/-! ### What a run computes -/

variable {refPoints : List (List ℝ)} {cost : List ℝ} {ndim nodeId : ℕ}

variable {i j m k n : ℕ} {x term : ℝ} {result : List ℝ} {acc : ℝ × List ℝ} {sign s : List Bool}
  {after : List (List ℝ)}

theorem coordAt_eq_ok (h : coordAt refPoints i j = .ok x) : x = coord refPoints i j := by
  unfold coordAt at h
  cases hi : refPoints[i]? with
  | none =>
    rw [hi] at h
    cases h
  | some v =>
    rw [hi] at h
    cases hj : v[j]? with
    | none =>
      simp only [hj] at h
      cases h
    | some y =>
      simp only [hj] at h
      cases h
      simp [coord, hi, hj]

theorem valueAt_eq_ok {a : List ℝ} (h : valueAt a i = .ok x) : x = a.getD i 0 := by
  unfold valueAt at h
  cases hi : a[i]? with
  | none =>
    rw [hi] at h
    cases h
  | some y =>
    rw [hi] at h
    cases h
    simp [hi]

theorem addEarlier_eq_ok {sum s : ℝ} (h : addEarlier exactArith refPoints result (m + 1) sum = .ok s) :
    s = sum + ∑ j ∈ Finset.range m,
      (coord refPoints (m + 1) j ^ 2 - 2 * coord refPoints (m + 1) j * result.getD j 0) := by
  refine foldlM_range_sum ?_ h
  intro s j s' _ hbody
  obtain ⟨c, hc, hbody⟩ := bind_eq_ok.mp hbody
  obtain ⟨x, hx, hbody⟩ := bind_eq_ok.mp hbody
  cases hbody
  rw [coordAt_eq_ok hc, valueAt_eq_ok hx]
  simp only [exactArith, id]
  ring

theorem length_axisCoords (m : ℕ) : (axisCoords refPoints cost m).length = m := by
  induction m with
  | zero => rfl
  | succ m ih => rw [axisCoords, List.length_append, ih, List.length_singleton]

theorem substitute_eq_ok
    (h : substitute exactArith refPoints cost ((axisCoords refPoints cost m).getLastD 0, axisCoords refPoints cost m ++ List.replicate k 0) (m + 1) = .ok acc)
    :
    0 < k ∧ acc = ((axisCoords refPoints cost (m + 1)).getLastD 0,
      axisCoords refPoints cost (m + 1) ++ List.replicate (k - 1) 0) := by
  have hlen : (axisCoords refPoints cost m).length = m := length_axisCoords m
  unfold substitute at h
  obtain ⟨sum, hsum, h⟩ := bind_eq_ok.mp h
  obtain ⟨cost₀, hcost₀, h⟩ := bind_eq_ok.mp h
  obtain ⟨costᵢ, hcostᵢ, h⟩ := bind_eq_ok.mp h
  obtain ⟨r, hr, h⟩ := bind_eq_ok.mp h
  have hsum := addEarlier_eq_ok hsum
  have hread : ∀ j ∈ Finset.range m,
      (axisCoords refPoints cost m ++ List.replicate k 0).getD j 0 =
        (axisCoords refPoints cost m).getD j 0 := by
    intro j hj
    have hlt : j < (axisCoords refPoints cost m).length := by
      rw [hlen]
      exact Finset.mem_range.mp hj
    rw [List.getD_eq_getElem?_getD, List.getElem?_append_left hlt, ← List.getD_eq_getElem?_getD]
  have hvalue : (if r = 0 then sum + (cost₀ * cost₀ - costᵢ * costᵢ)
      else (sum + (cost₀ * cost₀ - costᵢ * costᵢ) + r * r) / (2 * r)) =
      nextCoord refPoints cost (axisCoords refPoints cost m) m := by
    rw [hsum, valueAt_eq_ok hcost₀, valueAt_eq_ok hcostᵢ, coordAt_eq_ok hr, nextCoord,
      Finset.sum_congr rfl fun j hj => by rw [hread j hj]]
    simp only [Nat.add_sub_cancel, pow_two]
  simp only [Nat.add_sub_cancel] at h
  rw [hvalue] at h
  split_ifs at h with hroom
  cases h
  rw [List.length_append, hlen, List.length_replicate] at hroom
  obtain ⟨k, rfl⟩ := Nat.exists_eq_succ_of_ne_zero (show k ≠ 0 by omega)
  refine ⟨Nat.succ_pos k, ?_⟩
  rw [axisCoords, List.getLastD_concat, List.set_append_right _ _ (by omega), hlen, Nat.sub_self]
  simp [List.replicate_succ, exactArith]

theorem substituted
    (h : (List.range' 1 m).foldlM (substitute exactArith refPoints cost) (0, List.replicate ndim 0) = .ok acc) :
    m ≤ ndim ∧ acc = ((axisCoords refPoints cost m).getLastD 0,
      axisCoords refPoints cost m ++ List.replicate (ndim - m) 0) := by
  induction m generalizing acc with
  | zero =>
    cases h
    exact ⟨Nat.zero_le _, rfl⟩
  | succ m ih =>
    rw [List.range'_1_concat, List.foldlM_append] at h
    obtain ⟨acc₁, hinit, h⟩ := bind_eq_ok.mp h
    rw [List.foldlM_cons] at h
    obtain ⟨acc₂, hlast, h⟩ := bind_eq_ok.mp h
    cases h
    obtain ⟨hle, rfl⟩ := ih hinit
    rw [Nat.add_comm 1 m] at hlast
    obtain ⟨hpos, rfl⟩ := substitute_eq_ok hlast
    exact ⟨by omega, by rw [Nat.sub_sub]⟩

theorem radicand_eq_ok {xs : List ℝ} (hxs : xs.length = n)
    (h : radicand (xs ++ List.replicate k 0) (n + 1) cost = .ok term) :
    term = cost.getD 0 0 ^ 2 - ∑ j ∈ Finset.range n, xs.getD j 0 ^ 2 := by
  unfold radicand at h
  obtain ⟨t, ht, h⟩ := bind_eq_ok.mp h
  obtain ⟨cost₀, hcost₀, h⟩ := bind_eq_ok.mp h
  rw [Nat.add_sub_cancel] at ht
  have hsum := foldlM_range_sum (g := fun j => -xs.getD j 0 ^ 2) (fun s j s' hj hbody => by
    obtain ⟨x, hx, hbody⟩ := bind_eq_ok.mp hbody
    cases hbody
    have hlt : j < xs.length := by
      rw [hxs]
      exact hj
    have hxj := valueAt_eq_ok hx
    rw [List.getD_eq_getElem?_getD, List.getElem?_append_left hlt, ← List.getD_eq_getElem?_getD]
      at hxj
    rw [← hxj]
    split_ifs with hzero
    · rw [hzero]
      ring
    · ring) ht
  cases h
  rw [hsum, valueAt_eq_ok hcost₀, Finset.sum_neg_distrib]
  split_ifs with hzero
  · rw [hzero]
    ring
  · ring

theorem place_eq_ok {placed : Option (List ℝ)}
    (h : place exactArith refPoints ndim (n + 1) cost = .ok (term, placed)) :
    n < ndim ∧ term = rootArg refPoints cost n ∧
      placed = if term < 0 then none else some (axisCoords refPoints cost n ++
        Real.sqrt term :: List.replicate (ndim - n - 1) 0) := by
  unfold place at h
  obtain ⟨acc, hacc, h⟩ := bind_eq_ok.mp h
  obtain ⟨t, hterm, h⟩ := bind_eq_ok.mp h
  rw [Nat.add_sub_cancel] at hacc
  obtain ⟨hle, rfl⟩ := substituted hacc
  have ht := radicand_eq_ok (length_axisCoords n) hterm
  simp only [Nat.add_sub_cancel, List.length_append, length_axisCoords, List.length_replicate] at h
  split_ifs at h with hroom hzero
  · cases h
    have hsplit : ndim - n = ndim - n - 1 + 1 := by omega
    refine ⟨by omega, ht, ?_⟩
    rw [if_neg (by rw [hzero]; exact lt_irrefl 0), hzero, Real.sqrt_zero, hsplit,
      List.replicate_succ]
    rfl
  · cases h
    have hsplit : ndim - n = ndim - n - 1 + 1 := by omega
    refine ⟨by omega, ht, ?_⟩
    simp only [exactArith, id]
    by_cases hneg : term < 0
    · rw [if_pos hneg, if_pos hneg]
      rfl
    · rw [if_neg hneg, if_neg hneg, Option.map_some, List.set_append_right _ _
        (by rw [length_axisCoords]), length_axisCoords, Nat.sub_self, hsplit, List.replicate_succ]
      rfl

/-- The first combination, in the order of `make_sign_comb`, with a root that exists. -/
noncomputable def chosenSigns (refPoints : List (List ℝ)) (cost : List ℝ) (n : ℕ) :
    Option (List Bool) :=
  (signVectors n).find? fun s => 0 ≤ rootArg (flippedPoints 0 s refPoints) cost n

structure Success (refPoints : List (List ℝ)) (cost : List ℝ) (ndim n : ℕ) (result : List ℝ)
    (sign : List Bool) (after : List (List ℝ)) (s : List Bool) : Prop where
  chosen : chosenSigns refPoints cost n = some s
  fits : FlipFits 0 s refPoints
  after_eq : after = flippedPoints 0 s refPoints
  reported : sign = s ∨ sign = [] ∧ s = List.replicate n true
  dim : n < ndim
  root_nonneg : 0 ≤ rootArg after cost n
  result_eq : result = axisCoords after cost n ++
    Real.sqrt (rootArg after cost n) :: List.replicate (ndim - n - 1) 0

theorem exists_success {test : Option ℝ × ℝ}
    (h : implementAxisNode exactArith refPoints ndim (n + 1) cost = .ok (.placed result sign test, after)) :
    ∃ s, Success refPoints cost ndim n result sign after s := by
  rw [implementAxisNode, Nat.add_sub_cancel, signComb_eq] at h
  obtain ⟨before, s, rest, hsigns, hbefore, ⟨term, hplace⟩, hfits, rfl, hsign⟩ :=
    trySigns_placed exactArith h
  obtain ⟨hdim, hterm, hresult⟩ := place_eq_ok hplace
  have hnonneg : 0 ≤ term := by
    by_contra hneg
    rw [if_pos (not_le.mp hneg)] at hresult
    cases hresult
  rw [if_neg (not_lt.mpr hnonneg), hterm] at hresult
  rw [hterm] at hnonneg
  refine ⟨s, ⟨?_, hfits, rfl, ?_, hdim, hnonneg, Option.some.inj hresult⟩⟩
  · refine List.find?_eq_some_iff_append.mpr ⟨by simpa using hnonneg, before, rest, hsigns, ?_⟩
    intro t ht
    obtain ⟨term', hfail⟩ := hbefore t ht
    obtain ⟨-, hterm', hnone⟩ := place_eq_ok hfail
    have hneg : term' < 0 := by
      by_contra hpos
      rw [if_neg hpos] at hnone
      cases hnone
    rw [hterm'] at hneg
    simpa using hneg
  · cases before with
    | nil =>
      have hhead := head_signVectors n
      rw [hsigns] at hhead
      exact .inr ⟨hsign, Option.some.inj hhead⟩
    | cons t before =>
      rw [if_neg (by simp)] at hsign
      exact .inl hsign

/-! ### The equations -/

theorem axisCoords_take (h : m ≤ n) : (axisCoords refPoints cost n).take m = axisCoords refPoints cost m := by
  induction n with
  | zero =>
    rw [Nat.le_zero.mp h]
    rfl
  | succ n ih =>
    rcases Nat.lt_or_ge n m with hlt | hle
    · rw [Nat.le_antisymm h hlt, List.take_of_length_le (length_axisCoords _).le]
    · rw [axisCoords, List.take_append_of_le_length (by rw [length_axisCoords]; exact hle), ih hle]

theorem axisCoords_getD (h : m < n) (j : ℕ) (hj : j < m) :
    (axisCoords refPoints cost m).getD j 0 = (axisCoords refPoints cost n).getD j 0 := by
  rw [← axisCoords_take h.le, List.getD_eq_getElem?_getD, List.getElem?_take_of_lt hj,
    ← List.getD_eq_getElem?_getD]

theorem axisCoords_last (h : m < n) :
    (axisCoords refPoints cost n).getD m 0 =
      nextCoord refPoints cost (axisCoords refPoints cost m) m := by
  have hread : (axisCoords refPoints cost (m + 1)).getD m 0 =
      nextCoord refPoints cost (axisCoords refPoints cost m) m := by
    rw [axisCoords, List.getD_eq_getElem?_getD, List.getElem?_append_right
      (by rw [length_axisCoords]), length_axisCoords, Nat.sub_self]
    rfl
  rcases Nat.lt_or_ge (m + 1) n with hlt | hge
  · rw [← axisCoords_getD hlt m (Nat.lt_succ_self m), hread]
  · rw [show n = m + 1 by omega, hread]

theorem getLastD_axisCoords (m : ℕ) :
    (axisCoords refPoints cost m).getLastD 0 =
      if m = 0 then 0 else (axisCoords refPoints cost m).getD (m - 1) 0 := by
  cases m with
  | zero => rfl
  | succ m =>
    rw [if_neg (Nat.succ_ne_zero m), Nat.add_sub_cancel, axisCoords_last (Nat.lt_succ_self m),
      axisCoords, List.getLastD_concat]

theorem nextCoord_eq (cost xs : List ℝ) (hr : coord refPoints (m + 1) m ≠ 0) :
    2 * coord refPoints (m + 1) m * nextCoord refPoints cost xs m =
      xs.getLastD 0 + ∑ j ∈ Finset.range m,
        (coord refPoints (m + 1) j ^ 2 - 2 * coord refPoints (m + 1) j * xs.getD j 0) +
      (cost.getD 0 0 ^ 2 - cost.getD (m + 1) 0 ^ 2) + coord refPoints (m + 1) m ^ 2 := by
  simp only [nextCoord]
  rw [if_neg hr]
  field_simp

theorem normSq_eq (hp : Placed refPoints) (hi : i ≤ ndim) :
    normSq ndim (refPoints.getD i []) = ∑ k ∈ Finset.range i, coord refPoints i k ^ 2 := by
  refine (Finset.sum_subset (Finset.range_subset_range.mpr hi) ?_).symm
  intro k _ hk
  have hzero := hp i k (by simpa using hk)
  rw [coord] at hzero
  rw [hzero]
  ring

theorem distSq_eq (x : List ℝ) (i : ℕ) : distSq ndim x (refPoints.getD i []) =
    ∑ k ∈ Finset.range ndim, (x.getD k 0 - coord refPoints i k) ^ 2 := rfl

section Result

variable {n : ℕ} {result : List ℝ} {y : ℝ} {sign s : List Bool} {after : List (List ℝ)}

theorem sum_result (hdim : n < ndim) (g : ℕ → ℝ → ℝ) (hg : ∀ k, n < k → g k 0 = 0) :
    ∑ k ∈ Finset.range ndim, g k ((axisCoords refPoints cost n ++
        y :: List.replicate (ndim - n - 1) 0).getD k 0) =
      ∑ k ∈ Finset.range n, g k ((axisCoords refPoints cost n).getD k 0) + g n y := by
  have hlen : (axisCoords refPoints cost n).length = n := length_axisCoords n
  have hlow : ∀ k < n, (axisCoords refPoints cost n ++
      y :: List.replicate (ndim - n - 1) 0).getD k 0 = (axisCoords refPoints cost n).getD k 0 := by
    intro k hk
    rw [List.getD_eq_getElem?_getD, List.getElem?_append_left (by omega),
      ← List.getD_eq_getElem?_getD]
  have hhigh : ∀ k, n ≤ k → (axisCoords refPoints cost n ++
      y :: List.replicate (ndim - n - 1) 0).getD k 0 =
        (y :: List.replicate (ndim - n - 1) 0).getD (k - n) 0 := by
    intro k hk
    rw [List.getD_eq_getElem?_getD, List.getElem?_append_right (by omega), hlen,
      ← List.getD_eq_getElem?_getD]
  have hzero : ∀ k, n < k → (axisCoords refPoints cost n ++
      y :: List.replicate (ndim - n - 1) 0).getD k 0 = 0 := by
    intro k hk
    obtain ⟨d, hd⟩ := Nat.exists_eq_add_of_lt hk
    rw [hhigh k hk.le, hd, show n + d + 1 - n = d + 1 by omega, List.getD_cons_succ]
    simp [List.getElem?_replicate]
    split_ifs <;> rfl
  have hcut : Finset.range (n + 1) ⊆ Finset.range ndim := Finset.range_subset_range.mpr hdim
  rw [← Finset.sum_subset hcut, Finset.sum_range_succ, hhigh n le_rfl, Nat.sub_self,
    Finset.sum_congr rfl fun k hk => by rw [hlow k (Finset.mem_range.mp hk)]]
  · rfl
  · intro k _ hk
    have hlt : n < k := by simpa using hk
    rw [hzero k hlt, hg k hlt]

theorem normSq_result (hn : Success refPoints cost ndim n result sign after s) :
    normSq ndim result = cost.getD 0 0 ^ 2 := by
  rw [hn.result_eq, normSq, sum_result hn.dim (fun _ x => x ^ 2) (by simp),
    Real.sq_sqrt hn.root_nonneg, rootArg]
  ring

theorem distSq_result (hn : Success refPoints cost ndim n result sign after s)
    (hform : AxisForm after) {m : ℕ} (hm : m < n) (hlen : m + 1 < after.length) :
    distSq ndim result (after.getD (m + 1) []) =
      cost.getD (m + 1) 0 ^ 2 - (axisCoords after cost m).getLastD 0 := by
  have hzero : ∀ k, m + 1 ≤ k → coord after (m + 1) k = 0 := fun k hk => hform.placed (m + 1) k hk
  have hsum : distSq ndim result (after.getD (m + 1) []) =
      ∑ k ∈ Finset.range n, ((axisCoords after cost n).getD k 0 - coord after (m + 1) k) ^ 2 +
        rootArg after cost n := by
    rw [hn.result_eq, distSq_eq, sum_result hn.dim (fun k x => (x - coord after (m + 1) k) ^ 2)
      (fun k hk => by rw [hzero k (by omega)]; ring), hzero n hm, sub_zero,
      Real.sq_sqrt hn.root_nonneg]
  have hcut : ∑ k ∈ Finset.range n,
      (coord after (m + 1) k ^ 2 - 2 * coord after (m + 1) k * (axisCoords after cost n).getD k 0) =
      ∑ k ∈ Finset.range (m + 1),
      (coord after (m + 1) k ^ 2 - 2 * coord after (m + 1) k * (axisCoords after cost n).getD k 0) := by
    refine (Finset.sum_subset (Finset.range_subset_range.mpr hm) ?_).symm
    intro k _ hk
    rw [hzero k (by simpa using hk)]
    ring
  have hexpand : ∑ k ∈ Finset.range n,
      ((axisCoords after cost n).getD k 0 - coord after (m + 1) k) ^ 2 =
      ∑ k ∈ Finset.range n, (axisCoords after cost n).getD k 0 ^ 2 + ∑ k ∈ Finset.range n,
        (coord after (m + 1) k ^ 2 -
          2 * coord after (m + 1) k * (axisCoords after cost n).getD k 0) := by
    rw [← Finset.sum_add_distrib]
    exact Finset.sum_congr rfl fun k _ => by ring
  have hturn := nextCoord_eq cost (axisCoords after cost m)
    (hform.ne_zero (m + 1) (by omega) hlen)
  rw [Finset.sum_congr rfl fun j hj => by rw [axisCoords_getD hm j (Finset.mem_range.mp hj)],
    ← axisCoords_last hm] at hturn
  rw [hsum, hexpand, hcut, Finset.sum_range_succ, rootArg]
  linarith

theorem coords_eq_zero_iff (cost : List ℝ) (hform : AxisForm after) (hndim : n < ndim) (hlen : after.length = n + 1)
    {k : ℕ} (hk : k ≤ n) :
    (∀ j < k, (axisCoords after cost n).getD j 0 = 0) ↔
      ∀ j < k, cost.getD (j + 1) 0 ^ 2 = cost.getD 0 0 ^ 2 + normSq ndim (after.getD (j + 1) []) := by
  induction k with
  | zero => simp
  | succ k ih =>
    rw [Nat.forall_lt_succ_right, Nat.forall_lt_succ_right, ih (by omega)]
    refine and_congr_right fun hbefore => ?_
    have hzero := (ih (by omega)).mpr hbefore
    have hr : coord after (k + 1) k ≠ 0 := hform.ne_zero (k + 1) (by omega) (by omega)
    have hlast : (axisCoords after cost k).getLastD 0 = 0 := by
      rw [getLastD_axisCoords]
      split_ifs with hk0
      · rfl
      · rw [axisCoords_getD (show k < n by omega) (k - 1) (by omega)]
        exact hzero (k - 1) (by omega)
    have hturn := nextCoord_eq cost (axisCoords after cost k) hr
    rw [hlast, Finset.sum_congr rfl fun j hj => by
      rw [axisCoords_getD (show k < n by omega) j (Finset.mem_range.mp hj),
        hzero j (Finset.mem_range.mp hj), mul_zero, sub_zero], ← axisCoords_last (show k < n by omega)]
      at hturn
    rw [normSq_eq hform.placed (show k + 1 ≤ ndim by omega), Finset.sum_range_succ]
    constructor
    · intro h
      rw [h] at hturn
      linarith
    · intro h
      have hprod : 2 * coord after (k + 1) k * (axisCoords after cost n).getD k 0 = 0 := by linarith
      rcases mul_eq_zero.mp hprod with h2 | h2
      · exact absurd h2 (mul_ne_zero two_ne_zero hr)
      · exact h2

end Result

/-! ### Signs -/

theorem coord_flippedPoints (refPoints : List (List ℝ)) (s : List Bool) (i j : ℕ) :
    coord (flippedPoints 0 s refPoints) i j =
      if FlipsNode 0 s i ∧ j = i - 1 then -coord refPoints i j else coord refPoints i j := by
  simp only [coord, List.getD_eq_getElem?_getD, getElem?_flippedPoints]
  cases hi : refPoints[i]? with
  | none => simp
  | some v =>
    simp only [Option.map_some, Option.getD_some]
    by_cases hflip : FlipsNode 0 s i
    · rw [if_pos hflip, List.getElem?_modify]
      by_cases hj : j = i - 1
      · subst hj
        rw [if_pos ⟨hflip, rfl⟩]
        cases hv : v[i - 1]? <;> simp
      · rw [if_neg fun h => hj h.2]
        simp [Ne.symm hj]
    · rw [if_neg hflip, if_neg fun h => hflip h.1]

theorem normSq_flippedPoints (s : List Bool) (i : ℕ) :
    normSq ndim ((flippedPoints 0 s refPoints).getD i []) = normSq ndim (refPoints.getD i []) := by
  refine Finset.sum_congr rfl fun j _ => ?_
  have hcoord := coord_flippedPoints refPoints s i j
  unfold coord at hcoord
  rw [hcoord]
  split_ifs
  · rw [neg_sq]
  · rfl

theorem Placed.flipped (h : Placed refPoints) (s : List Bool) :
    Placed (flippedPoints 0 s refPoints) := by
  intro i j hij
  rw [coord_flippedPoints, h i j hij]
  simp

theorem length_flippedPoints (s : List Bool) :
    (flippedPoints 0 s refPoints).length = refPoints.length := by
  rw [flippedPoints, List.length_mapIdx]

theorem AxisForm.flipped (h : AxisForm refPoints) (s : List Bool) :
    AxisForm (flippedPoints 0 s refPoints) := by
  refine ⟨h.placed.flipped s, ?_⟩
  intro i hi hlt
  rw [length_flippedPoints] at hlt
  rw [coord_flippedPoints]
  split_ifs
  · exact neg_ne_zero.mpr (h.ne_zero i hi hlt)
  · exact h.ne_zero i hi hlt

/-- The placement solves its equations exactly if every earlier node but the last is seen at a
right angle from the origin. -/
theorem axis_distances_iff {nodeId : ℕ} {result : List ℝ} {sign : List Bool} {test : Option ℝ × ℝ}
    {after : List (List ℝ)} (hid : 2 ≤ nodeId) (hform : AxisForm refPoints)
    (hlen : refPoints.length = nodeId)
    (h : implementAxisNode exactArith refPoints ndim nodeId cost =
      .ok (.placed result sign test, after)) :
    (normSq ndim result = cost.getD 0 0 ^ 2 ∧ ∀ i, 1 ≤ i → i < nodeId →
        distSq ndim result (after.getD i []) = cost.getD i 0 ^ 2) ↔
      ∀ i, 1 ≤ i → i + 1 < nodeId →
        cost.getD i 0 ^ 2 = cost.getD 0 0 ^ 2 + normSq ndim (refPoints.getD i []) := by
  obtain ⟨n, rfl⟩ := Nat.exists_eq_add_of_le' (show 1 ≤ nodeId by omega)
  obtain ⟨s, hn⟩ := exists_success h
  have hafter : AxisForm after := hn.after_eq ▸ hform.flipped s
  have hlen' : after.length = n + 1 := by rw [hn.after_eq, length_flippedPoints, hlen]
  have hdist : ∀ m < n, (distSq ndim result (after.getD (m + 1) []) = cost.getD (m + 1) 0 ^ 2 ↔
      (axisCoords after cost m).getLastD 0 = 0) := by
    intro m hm
    rw [distSq_result hn hafter hm (by omega)]
    constructor <;> intro h0 <;> linarith
  have hcoords := coords_eq_zero_iff cost hafter hn.dim hlen' (Nat.sub_le n 1)
  constructor
  · rintro ⟨-, hall⟩ i hi hlt
    have hzero : ∀ j < n - 1, (axisCoords after cost n).getD j 0 = 0 := by
      intro j hj
      have hlast := (hdist (j + 1) (by omega)).mp (hall (j + 2) (by omega) (by omega))
      rw [getLastD_axisCoords, if_neg (Nat.succ_ne_zero j), Nat.add_sub_cancel,
        axisCoords_getD (show j + 1 < n by omega) j (Nat.lt_succ_self j)] at hlast
      exact hlast
    obtain ⟨j, rfl⟩ := Nat.exists_eq_add_of_le' hi
    rw [hcoords.mp hzero j (by omega), hn.after_eq, normSq_flippedPoints]
  · intro hcost
    have hzero := hcoords.mpr fun j hj => by
      rw [hcost (j + 1) (by omega) (by omega), hn.after_eq, normSq_flippedPoints]
    refine ⟨normSq_result hn, ?_⟩
    intro i hi hlt
    obtain ⟨m, rfl⟩ := Nat.exists_eq_add_of_le' hi
    refine (hdist m (by omega)).mpr ?_
    rw [getLastD_axisCoords]
    split_ifs with hm
    · rfl
    · rw [axisCoords_getD (show m < n by omega) (m - 1) (by omega)]
      exact hzero (m - 1) (by omega)

theorem axis_distances_right_angle :
    implementAxisNode exactArith [[0, 0, 0], [4, 0, 0], [0, 4, 0]] 3 3 [3, 5, 5] =
        .ok (.placed [0, 0, 3] [] (some 3, 3), [[0, 0, 0], [4, 0, 0], [0, 4, 0]]) ∧
      ∀ i, 1 ≤ i → i < 3 → distSq 3 [0, 0, 3] ([[0, 0, 0], [4, 0, 0], [0, 4, 0]].getD i []) =
        ([3, 5, 5] : List ℝ).getD i 0 ^ 2 := by
  have h9 : Real.sqrt 9 = 3 :=
    (Real.sqrt_eq_iff_mul_self_eq_of_pos (by norm_num)).mpr (by norm_num)
  have hrun : implementAxisNode exactArith [[0, 0, 0], [4, 0, 0], [0, 4, 0]] 3 3 [3, 5, 5] =
      .ok (.placed [0, 0, 3] [] (some 3, 3), [[0, 0, 0], [4, 0, 0], [0, 4, 0]]) := by
    rw [implementAxisNode, signComb_eq]
    simp [signVectors, trySigns, flipSigns, place, List.range'_succ, substitute, addEarlier, coordAt,
      valueAt, radicand, List.range_succ, checkTestPerformance, exactArith, bind, Except.bind, pure,
      Except.pure]
    norm_num [h9]
  have hform : AxisForm [[0, 0, 0], [4, 0, 0], [0, 4, 0]] := by
    constructor
    · intro i j hij
      rcases i with _ | _ | _ | i <;> rcases j with _ | _ | _ | j <;> simp [coord] <;> omega
    · intro i hi hlt
      have hcases : i = 1 ∨ i = 2 := by
        simp only [List.length_cons, List.length_nil] at hlt
        omega
      rcases hcases with rfl | rfl <;> norm_num [coord]
  refine ⟨hrun, ((axis_distances_iff (by norm_num) hform rfl hrun).mpr ?_).2⟩
  intro i hi hlt
  have hlt : i + 1 < 3 := hlt
  obtain rfl : i = 1 := by omega
  norm_num [normSq, Finset.sum_range_succ]

theorem axis_distance_missed :
    ∃ result after, implementAxisNode exactArith [[0, 0, 0], [2, 0, 0], [0, 1, 0]] 3 3
        [3 / 2, 3 / 2, 3 / 2] = .ok (.placed result [] (some (3 / 2), 3 / 2), after) ∧
      distSq 3 result (after.getD 2 []) ≠ (3 / 2) ^ 2 := by
  have h4 : Real.sqrt (1 / 4) = 1 / 2 :=
    (Real.sqrt_eq_iff_mul_self_eq_of_pos (by norm_num)).mpr (by norm_num)
  have h9 : Real.sqrt (9 / 4) = 3 / 2 :=
    (Real.sqrt_eq_iff_mul_self_eq_of_pos (by norm_num)).mpr (by norm_num)
  refine ⟨[1, 1, 1 / 2], [[0, 0, 0], [2, 0, 0], [0, 1, 0]], ?_, ?_⟩
  · rw [implementAxisNode, signComb_eq]
    simp [signVectors, trySigns, flipSigns, place, List.range'_succ, substitute, addEarlier, coordAt,
      valueAt, radicand, List.range_succ, checkTestPerformance, exactArith, bind, Except.bind, pure,
      Except.pure]
    norm_num [h4, h9]
  · norm_num [distSq, Finset.sum_range_succ]

/-! ### The validator's signs -/

theorem changeSigns_eq {total p : ℕ} {stored : ℕ → List ℝ} (htotal : sign ≠ [] → p + sign.length < total)
    (hfits : ∀ i, FlipsNode p sign i → i - 1 < (stored i).length) :
    changeSigns total p sign stored = .ok fun i =>
      if FlipsNode p sign i then (stored i).modify (i - 1) Neg.neg else stored i := by
  induction sign generalizing p stored with
  | nil => simp [changeSigns, FlipsNode]
  | cons s sign ih =>
    have hroom : p + (sign.length + 1) < total := htotal (List.cons_ne_nil s sign)
    rw [changeSigns, if_neg (by omega)]
    cases s with
    | true =>
      rw [if_pos rfl, ih (fun _ => by omega) fun i hi => hfits i (flipsNode_cons.mpr (.inr hi))]
      simp [flipsNode_cons]
    | false =>
      have hfirst : FlipsNode p (false :: sign) (p + 1) := flipsNode_cons.mpr (.inl ⟨rfl, rfl⟩)
      rw [if_neg Bool.false_ne_true, if_pos ⟨by omega, hfits (p + 1) hfirst⟩,
        ih (fun _ => by omega)]
      · congr 1
        funext i
        by_cases hi : i = p + 1
        · subst hi
          have hlater : ¬ FlipsNode (p + 1) sign (p + 1) := fun h => Nat.lt_irrefl _ h.1
          rw [if_neg hlater, if_pos hfirst, Function.update_self, Nat.add_sub_cancel]
        · simp only [flipsNode_cons, hi, false_and, false_or, Function.update_of_ne hi]
      · intro i hi
        rw [Function.update_of_ne (Nat.ne_of_gt hi.1)]
        exact hfits i (flipsNode_cons.mpr (.inr hi))

theorem distSq_flippedPoints (hp : Placed refPoints) (s : List Bool) (hij : i < j) (hi : i ≤ ndim) :
    distSq ndim ((flippedPoints 0 s refPoints).getD i []) ((flippedPoints 0 s refPoints).getD j []) =
      distSq ndim (refPoints.getD i []) (refPoints.getD j []) +
        if FlipsNode 0 s i then 4 * coord refPoints i (i - 1) * coord refPoints j (i - 1) else 0 := by
  have hterm : ∀ k, (coord (flippedPoints 0 s refPoints) i k -
      coord (flippedPoints 0 s refPoints) j k) ^ 2 = (coord refPoints i k - coord refPoints j k) ^ 2 +
        if k = i - 1 then
          (if FlipsNode 0 s i then 4 * coord refPoints i k * coord refPoints j k else 0) else 0 := by
    intro k
    rw [coord_flippedPoints, coord_flippedPoints]
    by_cases hj : FlipsNode 0 s j ∧ k = j - 1
    · have hzero : coord refPoints i k = 0 := hp i k (by omega)
      rw [if_pos hj, hzero]
      split_ifs <;> ring
    · rw [if_neg hj]
      by_cases hk : k = i - 1
      · by_cases hflip : FlipsNode 0 s i
        · rw [if_pos ⟨hflip, hk⟩, if_pos hk, if_pos hflip]
          ring
        · rw [if_neg fun h => hflip h.1, if_pos hk, if_neg hflip, add_zero]
      · rw [if_neg fun h => hk h.2, if_neg hk, add_zero]
  have hsum : distSq ndim ((flippedPoints 0 s refPoints).getD i [])
      ((flippedPoints 0 s refPoints).getD j []) = ∑ k ∈ Finset.range ndim,
        (coord (flippedPoints 0 s refPoints) i k - coord (flippedPoints 0 s refPoints) j k) ^ 2 := rfl
  rw [hsum, Finset.sum_congr rfl fun k _ => hterm k, Finset.sum_add_distrib]
  congr 1
  rw [Finset.sum_ite_eq' (Finset.range ndim) (i - 1)
    fun k => if FlipsNode 0 s i then 4 * coord refPoints i k * coord refPoints j k else 0]
  by_cases hflip : FlipsNode 0 s i
  · rw [if_pos (Finset.mem_range.mpr (by have := hflip.1; omega))]
  · rw [if_neg hflip, ite_self]

theorem distSq_comm (x y : List ℝ) : distSq ndim x y = distSq ndim y x :=
  Finset.sum_congr rfl fun k _ => by ring

theorem Success.flipsNode_iff (hn : Success refPoints cost ndim n result sign after s) (i : ℕ) :
    FlipsNode 0 sign i ↔ FlipsNode 0 s i := by
  rcases hn.reported with rfl | ⟨rfl, rfl⟩
  · exact Iff.rfl
  · exact iff_of_false (by simp [FlipsNode]) flipsNode_trues

theorem Success.length_sign (hn : Success refPoints cost ndim n result sign after s) : sign.length ≤ n := by
  have hs : s.length = n := mem_signVectors.mp (List.mem_of_find?_eq_some hn.chosen)
  rcases hn.reported with rfl | ⟨rfl, -⟩
  · exact hs.le
  · exact Nat.zero_le n

/-- The validator has the coordinates that the peer used. All distances between placed nodes are kept
exactly if no changed sign is that of a coordinate which a later node has too. -/
theorem signs_consistent_iff {nodeId total : ℕ} {result : List ℝ} {sign : List Bool}
    {test : Option ℝ × ℝ} {after : List (List ℝ)} {stored : ℕ → List ℝ} (hid : 1 ≤ nodeId)
    (hplaced : Placed refPoints) (hlen : refPoints.length = nodeId) (htotal : nodeId < total)
    (hstored : ∀ i < nodeId, refPoints[i]? = some (stored i))
    (h : implementAxisNode exactArith refPoints ndim nodeId cost =
      .ok (.placed result sign test, after)) :
    (∃ stored', changeSigns total 0 sign stored = .ok stored' ∧
        ∀ i < nodeId, after[i]? = some (stored' i)) ∧
      ((∀ i j, i < nodeId → j < nodeId → distSq ndim (after.getD i []) (after.getD j []) =
          distSq ndim (refPoints.getD i []) (refPoints.getD j [])) ↔
        ∀ s ∈ chosenSigns refPoints cost (nodeId - 1), ∀ i j, FlipsNode 0 s i → i < j → j < nodeId →
          coord refPoints i (i - 1) = 0 ∨ coord refPoints j (i - 1) = 0) := by
  obtain ⟨n, rfl⟩ := Nat.exists_eq_add_of_le' hid
  obtain ⟨s, hn⟩ := exists_success h
  refine ⟨?_, ?_⟩
  · have hfits : ∀ i, FlipsNode 0 sign i → i - 1 < (stored i).length := by
      intro i hi
      obtain ⟨v, hv, hroom⟩ := hn.fits i ((hn.flipsNode_iff i).mp hi)
      have hlt : i < n + 1 := hlen ▸ (List.getElem?_eq_some_iff.mp hv).1
      rw [hstored i hlt] at hv
      rwa [Option.some.inj hv]
    refine ⟨_, changeSigns_eq (fun _ => by have := hn.length_sign; omega) hfits, ?_⟩
    intro i hi
    rw [hn.after_eq, getElem?_flippedPoints, hstored i hi]
    simp only [hn.flipsNode_iff, Option.map_some]
  · rw [Nat.add_sub_cancel, hn.chosen]
    have hpair : ∀ i j, i < j → j < n + 1 →
        (distSq ndim (after.getD i []) (after.getD j []) =
            distSq ndim (refPoints.getD i []) (refPoints.getD j []) ↔
          (FlipsNode 0 s i → coord refPoints i (i - 1) = 0 ∨ coord refPoints j (i - 1) = 0)) := by
      intro i j hij hj
      rw [hn.after_eq, distSq_flippedPoints hplaced s hij (by have := hn.dim; omega), add_eq_left]
      by_cases hflip : FlipsNode 0 s i
      · rw [if_pos hflip]
        simp [hflip]
      · simp [hflip]
    constructor
    · intro hall s' hs' i j hflip hij hj
      obtain rfl := Option.mem_some_iff.mp hs'
      exact (hpair i j hij hj).mp (hall i j (by omega) hj) hflip
    · intro hcond i j hi hj
      rcases Nat.lt_trichotomy i j with hij | rfl | hij
      · exact (hpair i j hij hj).mpr fun hflip => hcond s rfl i j hflip hij hj
      · simp [distSq]
      · rw [distSq_comm, distSq_comm (refPoints.getD i [])]
        exact (hpair j i hij hi).mpr fun hflip => hcond s rfl j i hflip hij hi

theorem signs_consistent_flip :
    implementAxisNode exactArith [[0, 0, 0], [8 / 5, 0, 0], [0, 1, 0]] 3 3 [5 / 2, 39 / 10, 7 / 2] =
        .ok (.placed [2, -3 / 2, 0] [false, true] (some (5 / 2), 5 / 2),
          [[0, 0, 0], [-8 / 5, 0, 0], [0, 1, 0]]) ∧
      (∃ stored', changeSigns 4 0 [false, true]
          (fun i => ([[0, 0, 0], [8 / 5, 0, 0], [0, 1, 0]] : List (List ℝ)).getD i []) = .ok stored' ∧
        ∀ i < 3, ([[0, 0, 0], [-8 / 5, 0, 0], [0, 1, 0]] : List (List ℝ))[i]? = some (stored' i)) ∧
      ∀ i j, i < 3 → j < 3 → distSq 3 ([[0, 0, 0], [-8 / 5, 0, 0], [0, 1, 0]].getD i [])
          ([[0, 0, 0], [-8 / 5, 0, 0], [0, 1, 0]].getD j []) =
        distSq 3 ([[0, 0, 0], [8 / 5, 0, 0], [0, 1, 0]].getD i [])
          ([[0, 0, 0], [8 / 5, 0, 0], [0, 1, 0]].getD j []) := by
  have h25 : Real.sqrt (25 / 4) = 5 / 2 :=
    (Real.sqrt_eq_iff_mul_self_eq_of_pos (by norm_num)).mpr (by norm_num)
  have hrun : implementAxisNode exactArith [[0, 0, 0], [8 / 5, 0, 0], [0, 1, 0]] 3 3
      [5 / 2, 39 / 10, 7 / 2] = .ok (.placed [2, -3 / 2, 0] [false, true] (some (5 / 2), 5 / 2),
        [[0, 0, 0], [-8 / 5, 0, 0], [0, 1, 0]]) := by
    rw [implementAxisNode, signComb_eq]
    simp [signVectors, trySigns, flipSigns, place, List.range'_succ, substitute, addEarlier, coordAt,
      valueAt, radicand, List.range_succ, checkTestPerformance, exactArith, bind, Except.bind, pure,
      Except.pure]
    norm_num [h25]
  have hplaced : Placed [[0, 0, 0], [8 / 5, 0, 0], [0, 1, 0]] := by
    intro i j hij
    rcases i with _ | _ | _ | i <;> rcases j with _ | _ | _ | j <;> simp [coord] <;> omega
  have htotal : 3 < 4 := by norm_num
  have hstored : ∀ i < 3, ([[0, 0, 0], [8 / 5, 0, 0], [0, 1, 0]] : List (List ℝ))[i]? =
      some (([[0, 0, 0], [8 / 5, 0, 0], [0, 1, 0]] : List (List ℝ)).getD i []) := by
    intro i hi
    interval_cases i <;> rfl
  have hboth := signs_consistent_iff (by norm_num) hplaced rfl htotal hstored hrun
  refine ⟨hrun, hboth.1, hboth.2.mpr ?_⟩
  intro s _ i j hflip hij hj
  have hj : j < 3 := hj
  have hpos := hflip.1
  obtain rfl : i = 1 := by omega
  obtain rfl : j = 2 := by omega
  exact .inr rfl

theorem sign_moves_later_node :
    ∃ result test after,
      implementAxisNode exactArith [[0, 0, 0], [8 / 5, 0, 0], [1, 1, 0]] 3 3 [5 / 2, 39 / 10, 5 / 2] =
        .ok (.placed result [false, true] test, after) ∧
      distSq 3 (after.getD 1 []) (after.getD 2 []) ≠
        distSq 3 ([[0, 0, 0], [8 / 5, 0, 0], [1, 1, 0]].getD 1 [])
          ([[0, 0, 0], [8 / 5, 0, 0], [1, 1, 0]].getD 2 []) := by
  have h9 : Real.sqrt (9 / 4) = 3 / 2 :=
    (Real.sqrt_eq_iff_mul_self_eq_of_pos (by norm_num)).mpr (by norm_num)
  have h25 : Real.sqrt (25 / 4) = 5 / 2 :=
    (Real.sqrt_eq_iff_mul_self_eq_of_pos (by norm_num)).mpr (by norm_num)
  refine ⟨[2, 0, 3 / 2], (some (5 / 2), 5 / 2), [[0, 0, 0], [-8 / 5, 0, 0], [1, 1, 0]], ?_, ?_⟩
  · rw [implementAxisNode, signComb_eq]
    simp [signVectors, trySigns, flipSigns, place, List.range'_succ, substitute, addEarlier, coordAt,
      valueAt, radicand, List.range_succ, checkTestPerformance, exactArith, bind, Except.bind, pure,
      Except.pure]
    norm_num [h9, h25]
  · norm_num [distSq, Finset.sum_range_succ]

end Mp2bs.Peer

/-!
## The least-squares system of a peer (`ver_v4/peer/utils/peer_utils_ndim_coord.go:29-105`)

`GetMyCoord` collects the delays to the reference points, after a zero in a self-cross-check
(`peer_utils.go:56-79`). When the axes are there, `get_node_ndim_coord` builds a system `A x = b`. In
a self-cross-check the row of the last reference point is written before the loop (71), and the loop
sets the right-hand sides of the others only. A `mat.Dense` is the list of its rows, and solving the
system is a parameter. The log is left out.
-/

namespace Mp2bs.Peer
open Mp2bs.Lib

/-! ### `get_node_ndim_coord` -/

section Model

variable {F : Type} [Field F] [DecidableEq F]

abbrev Dense (F : Type) := List (List F)

/-- `mat.NewDense(r, c, nil)`, which panics without rows or columns. -/
def newDense (r c : ℕ) : Except Stop (Dense F) :=
  if r = 0 ∨ c = 0 then .error .panic else .ok (List.replicate r (List.replicate c 0))

/-- `m.SetRow(i, row)`, which panics for a row out of range or of another length. -/
def setRow (m : Dense F) (i : ℕ) (row : List F) : Except Stop (Dense F) :=
  match m[i]? with
  | none => .error .panic
  | some old => if row.length = old.length then .ok (m.set i row) else .error .panic

/-- `tmp` for one reference point (`75-83`). -/
def rightSide (point : List F) (ndim : ℕ) (cost₀ costᵢ : F) : Except Stop F :=
  (List.range ndim).foldlM (fun tmp j => do
    let x ← valueAt point j
    return if x = 0 then tmp else tmp + x * x)
    (if cost₀ = 0 then -(costᵢ * costᵢ) else -(costᵢ * costᵢ) + cost₀ * cost₀)

/-- Turn `i` of the loop (`73-87`) with `m`, `b` and `k`. -/
def systemTurn (refPoints : List (List F)) (ndim : ℕ) (cost : List F) (acc : Dense F × Dense F × ℕ)
    (i : ℕ) : Except Stop (Dense F × Dense F × ℕ) := do
  let point ← valueAt refPoints acc.2.2
  let m ← setRow acc.1 (i - 1) point
  let costᵢ ← valueAt cost i
  let cost₀ ← valueAt cost 0
  let tmp ← rightSide point ndim cost₀ costᵢ
  let b ← setRow acc.2.1 (i - 1) [tmp / 2]
  return (m, b, acc.2.2 + 1)

/-- `m` and `b` after the loop (`55-87`), `none` for the error of line 65. -/
def leastSquaresSystem (eventSig : ℤ) (refPoints : List (List F)) (ndim : ℕ) (cost : List F) :
    Except Stop (Option (Dense F × Dense F)) := do
  let m ← newDense (cost.length - 1) ndim
  let b ← newDense (cost.length - 1) 1
  if refPoints.length < ndim then return none
  let m ← if eventSig = 2 then do
      let point ← valueAt refPoints (refPoints.length - 1)
      setRow m (refPoints.length - 1) point
    else pure m
  let (m, b, _) ← (List.range' 1 (refPoints.length - 1)).foldlM (systemTurn refPoints ndim cost)
    (m, b, if eventSig = 1 then 1 else 0)
  return some (m, b)

/-- `get_node_ndim_coord` (`30-105`) with the reference points after it. `solve` is `none` where
`Inverse` fails (`88-96`). -/
def getNodeNdimCoord (A : Arith F) (solve : Dense F → Dense F → Option (List F)) (eventSig : ℤ)
    (refPoints : List (List F)) (ndim nodeId : ℤ) (cost : List F) :
    Except Stop (Outcome F × List (List F)) :=
  if ndim < 0 ∨ nodeId < 0 then
    .ok (.failed "get_node_ndim_coord() : ndim or nodeId parameter cannot have negative value" 0,
      refPoints)
  else if eventSig = 1 ∧ nodeId ≤ ndim then
    if nodeId < refPoints.length then
      .ok (.failed "get_node_ndim_coord() : not enough reference nodes given" 0, refPoints)
    else if 1 < nodeId then implementAxisNode A refPoints ndim.toNat nodeId.toNat cost
    else if nodeId = 1 then do
      let cost₀ ← valueAt cost 0
      let result := (List.replicate ndim.toNat 0).set 0 (A.round cost₀)
      return (.placed result [] (checkTestPerformance A result cost₀), refPoints)
    else .ok (.placed (List.replicate ndim.toNat 0) [] (some 0, 0), refPoints)
  else do
    match ← leastSquaresSystem eventSig refPoints ndim.toNat cost with
    | none => return (.failed "get_node_ndim_coord() : not enough reference nodes given" 0, refPoints)
    | some (m, b) =>
      match solve m b with
      | none => return (.failed "Error generated while inversing a matrix.\n" 0, refPoints)
      | some set =>
        let cost₀ ← valueAt cost 0
        let result := set.map A.round
        return (.placed result [] (checkTestPerformance A result cost₀), refPoints)

/-! ### `GetMyCoord` -/

def rttChanged : List F := [32, 18, 10, 40, 38, 60, 1 / 2]

/-- The delay to reference point `i` (`peer_utils.go:66-74`) after `GetAvgRTT`, which is `none` for an
error. -/
def delay (myId : ℤ) (i : ℕ) (ping : Option F) : Except Stop (Option F) :=
  if myId = 0 then do
    let rtt ← valueAt rttChanged i
    return ping.map fun _ => rtt
  else .ok ping

/-- The loop over the reference points from number `i` on (`65-77`). -/
def addDelays (myId : ℤ) : ℕ → List (Option F) → List F → Except Stop (Option (List F))
  | _, [], cost => .ok (some cost)
  | i, ping :: pings, cost => do
    match ← delay myId i ping with
    | none => return none
    | some rtt => addDelays myId (i + 1) pings (cost ++ [rtt])

/-- `cost` (`58-77`). -/
def assembleCost (isSck : Bool) (myId : ℤ) (pings : List (Option F)) :
    Except Stop (Option (List F)) :=
  addDelays myId 0 pings (if isSck then [0] else [])

/-- `GetMyCoord` (`peer_utils.go:56-79`), with what the pings to the reference points give. -/
def getMyCoord (A : Arith F) (solve : Dense F → Dense F → Option (List F)) (isSck : Bool)
    (eventSig ndim myId : ℤ) (refPoints : List (List F)) (pings : List (Option F)) :
    Except Stop (Outcome F × List (List F)) := do
  match ← assembleCost isSck myId pings with
  | none =>
    return (.failed "[error] Error generated while calculating ping -- Can't get avgRtt!" 0, refPoints)
  | some cost => getNodeNdimCoord A solve eventSig refPoints ndim myId cost

omit [DecidableEq F] in
theorem addDelays_ok {myId : ℤ} {i : ℕ} {pings : List (Option F)} {cost cost' : List F}
    (h : addDelays myId i pings cost = .ok (some cost')) :
    cost'.length = cost.length + pings.length ∧ cost <+: cost' ∧
      ∀ j < pings.length, delay myId (i + j) (pings.getD j none) =
        .ok (some (cost'.getD (cost.length + j) 0)) := by
  induction pings generalizing i cost with
  | nil =>
    cases h
    exact ⟨rfl, List.prefix_rfl, fun j hj => absurd hj (Nat.not_lt_zero j)⟩
  | cons ping pings ih =>
    rw [addDelays] at h
    obtain ⟨r, hdelay, h⟩ := bind_eq_ok.mp h
    cases r with
    | none => cases h
    | some rtt =>
      obtain ⟨hlen, hprefix, hall⟩ := ih h
      rw [List.length_append, List.length_singleton] at hlen hall
      have hcons : cost <+: cost' := (List.prefix_append cost [rtt]).trans hprefix
      refine ⟨by rw [hlen, List.length_cons]; omega, hcons, ?_⟩
      intro j hj
      cases j with
      | zero =>
        obtain ⟨rest, rfl⟩ := hprefix
        rw [Nat.add_zero, Nat.add_zero, List.getD_cons_zero, hdelay, List.append_assoc]
        simp
      | succ j =>
        rw [List.getD_cons_succ, ← Nat.add_assoc, ← Nat.add_assoc, Nat.add_right_comm i j 1,
          Nat.add_right_comm cost.length j 1]
        exact hall j (by simpa using hj)

end Model

/-! ### The rows -/

variable {refPoints : List (List ℝ)} {cost : List ℝ} {ndim : ℕ}

/-- The delay to reference point `i` in a cost vector of `GetMyCoord`. -/
def costOf (isSck : Bool) (cost : List ℝ) (i : ℕ) : ℝ := cost.getD (if isSck then i + 1 else i) 0

/-- The equations of the reference points: all of them in a self-cross-check, where the node itself is
at the origin, and otherwise all but reference point 0. -/
noncomputable def equations (isSck : Bool) (ndim : ℕ) (refPoints : List (List ℝ)) (cost : List ℝ) :
    List (List ℝ × List ℝ) :=
  let start := if isSck then 0 else 1
  (List.range' start (refPoints.length - start)).map fun i =>
    (refPoints.getD i [], [(cost.getD 0 0 ^ 2 - costOf isSck cost i ^ 2 +
      normSq ndim (refPoints.getD i [])) / 2])

/-- The right-hand side that the loop writes into row `i` for reference point `k + i`. -/
noncomputable def rowSide (ndim : ℕ) (refPoints : List (List ℝ)) (cost : List ℝ) (k i : ℕ) : List ℝ :=
  [(cost.getD 0 0 ^ 2 - cost.getD (i + 1) 0 ^ 2 + normSq ndim (refPoints.getD (k + i) [])) / 2]

variable {k r c i t : ℕ} {m b : Dense ℝ}

theorem length_getD {l : List (List ℝ)} (hk : k < l.length) (hl : ∀ v ∈ l, v.length = ndim) :
    (l.getD k []).length = ndim := by
  rw [List.getD_eq_getElem?_getD, List.getElem?_eq_getElem hk]
  exact hl _ (List.getElem_mem hk)

theorem length_of_mem_replicate {v : List ℝ} (hv : v ∈ List.replicate r (List.replicate c 0)) :
    v.length = c := by
  rw [List.eq_of_mem_replicate hv, List.length_replicate]

theorem newDense_eq (hr : 0 < r) (hc : 0 < c) :
    newDense r c = .ok (List.replicate r (List.replicate c (0 : ℝ))) := by
  rw [newDense, if_neg (by omega)]

theorem setRow_eq {row : List ℝ} (hi : i < m.length) (hm : ∀ old ∈ m, old.length = row.length) :
    setRow m i row = .ok (m.set i row) := by
  unfold setRow
  rw [List.getElem?_eq_getElem hi]
  exact if_pos (hm _ (List.getElem_mem hi)).symm

theorem valueAt_eq {F : Type} {a : List F} (hi : i < a.length) (d : F) :
    valueAt a i = .ok (a.getD i d) := by
  simp only [valueAt, List.getElem?_eq_getElem hi, List.getD_eq_getElem?_getD, Option.getD_some]

theorem rightSide_eq {point : List ℝ} (hpoint : point.length = ndim) (cost₀ costᵢ : ℝ) :
    rightSide point ndim cost₀ costᵢ = .ok (cost₀ ^ 2 - costᵢ ^ 2 + normSq ndim point) := by
  unfold rightSide
  rw [foldlM_range_ok (g := fun j => point.getD j 0 ^ 2)]
  · congr 2
    split_ifs with hzero
    · rw [hzero]
      ring
    · ring
  · intro s j hj
    rw [valueAt_eq (show j < point.length by omega) 0]
    show Except.ok (if point.getD j 0 = 0 then s else s + point.getD j 0 * point.getD j 0) = _
    split_ifs with hzero
    · rw [hzero]
      simp
    · rw [pow_two]

theorem systemTurn_eq (hk : k + t < refPoints.length) (hpoint : ∀ v ∈ refPoints, v.length = ndim)
    (hcost : t + 1 < cost.length) (hm : t < m.length) (hb : t < b.length) (hrows : ∀ v ∈ m, v.length = ndim)
    (hsides : ∀ v ∈ b, v.length = 1) :
    systemTurn refPoints ndim cost (m, b, k + t) (t + 1) =
      .ok (m.set t (refPoints.getD (k + t) []), b.set t (rowSide ndim refPoints cost k t),
        k + t + 1) := by
  have hlen := length_getD hk hpoint
  have hside : ∀ x : ℝ, setRow b t [x] = .ok (b.set t [x]) := fun x => setRow_eq hb hsides
  unfold systemTurn
  simp only [valueAt_eq hk [], Nat.add_sub_cancel, bind, Except.bind,
    setRow_eq hm (fun old hold => (hrows old hold).trans hlen.symm), valueAt_eq hcost 0,
    valueAt_eq (show 0 < cost.length by omega) 0, rightSide_eq hlen, hside]
  rfl

theorem set_append_drop {α : Type} {l m : List α} (hl : l.length = t) (ht : t < m.length) (x : α) :
    (l ++ m.drop t).set t x = (l ++ [x]) ++ m.drop (t + 1) := by
  rw [List.set_append_right _ _ hl.le, hl, Nat.sub_self, List.drop_eq_getElem_cons ht,
    List.set_cons_zero, List.append_assoc]
  rfl

theorem systemLoop_eq (hk : k + t ≤ refPoints.length) (hpoint : ∀ v ∈ refPoints, v.length = ndim)
    (hcost : t < cost.length) (hm : t ≤ m.length) (hb : t ≤ b.length) (hrows : ∀ v ∈ m, v.length = ndim)
    (hsides : ∀ v ∈ b, v.length = 1) :
    (List.range' 1 t).foldlM (systemTurn refPoints ndim cost) (m, b, k) =
      .ok ((List.range t).map (fun i => refPoints.getD (k + i) []) ++ m.drop t,
        (List.range t).map (rowSide ndim refPoints cost k) ++ b.drop t, k + t) := by
  induction t with
  | zero => rfl
  | succ t ih =>
    rw [List.range'_1_concat, List.foldlM_append, ih (by omega) (by omega) (by omega) (by omega)]
    have hwritten : ∀ v ∈ (List.range t).map (fun i => refPoints.getD (k + i) []) ++ m.drop t,
        v.length = ndim := by
      intro v hv
      rcases List.mem_append.mp hv with hv | hv
      · obtain ⟨i, hi, rfl⟩ := List.mem_map.mp hv
        have := List.mem_range.mp hi
        exact length_getD (by omega) hpoint
      · exact hrows v (List.mem_of_mem_drop hv)
    have hset : ∀ v ∈ (List.range t).map (rowSide ndim refPoints cost k) ++ b.drop t,
        v.length = 1 := by
      intro v hv
      rcases List.mem_append.mp hv with hv | hv
      · obtain ⟨i, -, rfl⟩ := List.mem_map.mp hv
        rfl
      · exact hsides v (List.mem_of_mem_drop hv)
    have hturn := systemTurn_eq (t := t) (show k + t < refPoints.length by omega) hpoint hcost
      (by simp; omega) (by simp; omega) hwritten hset
    rw [set_append_drop (by simp) hm, set_append_drop (by simp) hb] at hturn
    rw [Nat.add_comm 1 t]
    simp only [bind, Except.bind, List.foldlM_cons, List.foldlM_nil, hturn, List.range_succ,
      List.map_append, List.map_singleton]
    rfl

theorem leastSquaresSystem_zero (eventSig : ℤ) :
    leastSquaresSystem eventSig refPoints 0 cost = .error .panic := by
  rw [leastSquaresSystem, newDense, if_pos (.inr rfl)]
  rfl

theorem leastSquaresSystem_normal (hlen : 2 ≤ refPoints.length) (hdim : ndim ≤ refPoints.length)
    (hpos : 0 < ndim) (hpoint : ∀ v ∈ refPoints, v.length = ndim)
    (hcost : cost.length = refPoints.length) :
    leastSquaresSystem 1 refPoints ndim cost =
      .ok (some ((List.range (refPoints.length - 1)).map (fun i => refPoints.getD (1 + i) []),
        (List.range (refPoints.length - 1)).map (rowSide ndim refPoints cost 1))) := by
  have hrows : 0 < refPoints.length - 1 := by omega
  have hloop := systemLoop_eq (k := 1) (t := refPoints.length - 1) (by omega) hpoint
    (show refPoints.length - 1 < cost.length by omega)
    (show _ ≤ (List.replicate (refPoints.length - 1) (List.replicate ndim (0 : ℝ))).length by simp)
    (show _ ≤ (List.replicate (refPoints.length - 1) (List.replicate 1 (0 : ℝ))).length by simp)
    (fun _ => length_of_mem_replicate) (fun _ => length_of_mem_replicate)
  rw [List.drop_of_length_le (by simp), List.drop_of_length_le (by simp), List.append_nil,
    List.append_nil] at hloop
  unfold leastSquaresSystem
  simp only [hcost, newDense_eq hrows hpos, newDense_eq hrows Nat.one_pos, bind, Except.bind,
    if_neg (Nat.not_lt.mpr hdim), if_neg (show ¬ (1 : ℤ) = 2 by norm_num), if_pos, pure, Except.pure,
    hloop]

theorem leastSquaresSystem_sck (hlen : 2 ≤ refPoints.length) (hdim : ndim ≤ refPoints.length)
    (hpos : 0 < ndim) (hpoint : ∀ v ∈ refPoints, v.length = ndim)
    (hcost : cost.length = refPoints.length + 1) :
    leastSquaresSystem 2 refPoints ndim cost =
      .ok (some ((List.range (refPoints.length - 1)).map (fun i => refPoints.getD (0 + i) []) ++
          [refPoints.getD (refPoints.length - 1) []],
        (List.range (refPoints.length - 1)).map (rowSide ndim refPoints cost 0) ++ [[0]])) := by
  obtain ⟨n, hn⟩ := Nat.exists_eq_add_of_le' (show 1 ≤ refPoints.length by omega)
  have hlast := length_getD (show n < refPoints.length by omega) hpoint
  have hrow : setRow (List.replicate (n + 1) (List.replicate ndim (0 : ℝ))) n (refPoints.getD n []) =
      .ok ((List.replicate (n + 1) (List.replicate ndim 0)).set n (refPoints.getD n [])) := by
    exact setRow_eq (by simp) fun _ hold => (length_of_mem_replicate hold).trans hlast.symm
  have hloop := systemLoop_eq (k := 0) (t := n) (by omega) hpoint
    (show n < cost.length by omega)
    (show n ≤ ((List.replicate (n + 1) (List.replicate ndim (0 : ℝ))).set n
      (refPoints.getD n [])).length by simp)
    (show n ≤ (List.replicate (n + 1) (List.replicate 1 (0 : ℝ))).length by simp)
    (fun v hv => by
      rcases List.mem_or_eq_of_mem_set hv with hv | rfl
      · exact length_of_mem_replicate hv
      · exact hlast)
    (fun _ => length_of_mem_replicate)
  have hdrop : ((List.replicate (n + 1) (List.replicate ndim (0 : ℝ))).set n
      (refPoints.getD n [])).drop n = [refPoints.getD n []] := by
    rw [List.drop_set, if_neg (Nat.lt_irrefl n), List.drop_replicate, Nat.add_sub_cancel_left,
      Nat.sub_self]
    rfl
  rw [hdrop, List.drop_replicate, Nat.add_sub_cancel_left] at hloop
  unfold leastSquaresSystem
  simp only [hcost, hn, Nat.add_sub_cancel, newDense_eq (Nat.succ_pos n) hpos,
    newDense_eq (Nat.succ_pos n) Nat.one_pos, bind, Except.bind,
    if_neg (Nat.not_lt.mpr (hn ▸ hdim)), if_pos, valueAt_eq (show n < refPoints.length by omega) [],
    hrow, if_neg (show ¬ (2 : ℤ) = 1 by norm_num), pure, Except.pure, hloop]
  rfl

theorem equations_sck {n : ℕ} (hn : refPoints.length = n + 1) :
    equations true ndim refPoints cost = (List.range n).map (fun i =>
        (refPoints.getD (0 + i) [], rowSide ndim refPoints cost 0 i)) ++
      [(refPoints.getD n [], rowSide ndim refPoints cost 0 n)] := by
  simp only [equations, if_true, Nat.sub_zero, hn, ← List.range_eq_range', List.range_succ,
    List.map_append, List.map_singleton, Nat.zero_add, costOf, rowSide]

/-- The costs are those of the reference points, and the system consists of their equations exactly
if, in a self-cross-check, the missing right-hand side of the last one is zero. -/
theorem least_squares_rows_iff {isSck : Bool} {myId : ℤ} {pings : List (Option ℝ)}
    (hlen : 2 ≤ refPoints.length) (hdim : ndim ≤ refPoints.length)
    (hpoint : ∀ v ∈ refPoints, v.length = ndim) (hpings : pings.length = refPoints.length)
    (hcost : assembleCost isSck myId pings = .ok (some cost)) :
    (∀ i < refPoints.length,
        delay myId i (pings.getD i none) = .ok (some (costOf isSck cost i))) ∧
      ((∃ m b, leastSquaresSystem (if isSck then 2 else 1) refPoints ndim cost = .ok (some (m, b)) ∧
          m.length = b.length ∧ (m.zip b).Perm (equations isSck ndim refPoints cost)) ↔
        0 < ndim ∧ (isSck = true → costOf isSck cost (refPoints.length - 1) ^ 2 =
          normSq ndim (refPoints.getD (refPoints.length - 1) []))) := by
  obtain ⟨hlength, hstart, hdelay⟩ := addDelays_ok hcost
  have hposs : ∀ {sig : ℤ} {m b : Dense ℝ},
      leastSquaresSystem sig refPoints ndim cost = .ok (some (m, b)) → 0 < ndim := by
    intro sig m b h
    rcases Nat.eq_zero_or_pos ndim with rfl | hpos
    · rw [leastSquaresSystem_zero] at h
      cases h
    · exact hpos
  cases isSck with
  | false =>
    have hcount : cost.length = refPoints.length := by simpa [hpings] using hlength
    refine ⟨fun i hi => by simpa [costOf] using hdelay i (by omega), ?_⟩
    constructor
    · rintro ⟨m, b, h, -⟩
      exact ⟨hposs h, fun hfalse => by cases hfalse⟩
    · rintro ⟨hpos, -⟩
      refine ⟨_, _, leastSquaresSystem_normal hlen hdim hpos hpoint hcount, by simp, ?_⟩
      rw [List.zip_map', equations, if_neg Bool.false_ne_true, List.range'_eq_map_range, List.map_map]
      refine List.Perm.of_eq (List.map_congr_left fun i _ => ?_)
      simp [costOf, rowSide, Nat.add_comm]
  | true =>
    have hcount : cost.length = refPoints.length + 1 := by
      rw [hlength, hpings, Nat.add_comm]
      rfl
    refine ⟨fun i hi => by simpa [costOf, Nat.add_comm] using hdelay i (by omega), ?_⟩
    have hzero : cost.getD 0 0 = 0 := by
      obtain ⟨rest, rfl⟩ := hstart
      rfl
    obtain ⟨n, hn⟩ := Nat.exists_eq_add_of_le' (show 1 ≤ refPoints.length by omega)
    have hperm : 0 < ndim → ((∃ m b,
        leastSquaresSystem 2 refPoints ndim cost = .ok (some (m, b)) ∧
          m.length = b.length ∧ (m.zip b).Perm (equations true ndim refPoints cost)) ↔
        costOf true cost n ^ 2 = normSq ndim (refPoints.getD n [])) := by
      intro hpos
      have hsystem := leastSquaresSystem_sck hlen hdim hpos hpoint hcount
      rw [hn, Nat.add_sub_cancel] at hsystem
      have hrows : ∀ m b, leastSquaresSystem 2 refPoints ndim cost = .ok (some (m, b)) →
          ((m.zip b).Perm (equations true ndim refPoints cost) ↔
            costOf true cost n ^ 2 = normSq ndim (refPoints.getD n [])) := by
        intro m b h
        rw [hsystem] at h
        cases h
        rw [List.zip_append (by simp), List.zip_map', equations_sck hn, List.perm_append_left_iff]
        simp only [List.zip_cons_cons, List.zip_nil_right, List.singleton_perm_singleton,
          Prod.mk.injEq, true_and, List.cons.injEq, and_true, hzero, costOf, rowSide, Nat.zero_add, if_true]
        constructor <;> intro h <;> linarith
      constructor
      · rintro ⟨m, b, h, -, hrow⟩
        exact (hrows m b h).mp hrow
      · intro h
        exact ⟨_, _, hsystem, by simp, (hrows _ _ hsystem).mpr h⟩
    constructor
    · rintro ⟨m, b, h, hrest⟩
      rw [hn, Nat.add_sub_cancel]
      exact ⟨hposs h, fun _ => (hperm (hposs h)).mp ⟨m, b, h, hrest⟩⟩
    · rintro ⟨hpos, h⟩
      rw [hn, Nat.add_sub_cancel] at h
      exact (hperm hpos).mpr (h rfl)

theorem least_squares_rows_two :
    assembleCost true 0 [some (1 : ℝ), some 1] = .ok (some [0, 32, 18]) ∧
      ∃ m b, leastSquaresSystem 2 [[32, 0], [0, 18]] 2 ([0, 32, 18] : List ℝ) = .ok (some (m, b)) ∧
        m.length = b.length ∧ (m.zip b).Perm (equations true 2 [[32, 0], [0, 18]] [0, 32, 18]) := by
  have hcost : assembleCost true 0 [some (1 : ℝ), some 1] = .ok (some [0, 32, 18]) := by
    simp [assembleCost, addDelays, delay, valueAt, rttChanged, bind, Except.bind, pure, Except.pure]
  have hpoint : ∀ v ∈ ([[32, 0], [0, 18]] : List (List ℝ)), v.length = 2 := by simp
  refine ⟨hcost, ((least_squares_rows_iff le_rfl le_rfl hpoint rfl hcost).2.mpr ⟨by norm_num, ?_⟩)⟩
  intro _
  norm_num [costOf, normSq, Finset.sum_range_succ]

theorem self_check_row_without_cost :
    assembleCost true 0 [some (1 : ℝ), some 1] = .ok (some [0, 32, 18]) ∧
      leastSquaresSystem 2 [[32, 0], [0, 20]] 2 ([0, 32, 18] : List ℝ) =
        .ok (some ([[32, 0], [0, 20]], [[0], [0]])) ∧
      ([0, 20], [38]) ∈ equations true 2 [[32, 0], [0, 20]] [0, 32, 18] ∧
      ¬ (([[32, 0], [0, 20]] : List (List ℝ)).zip [[0], [0]]).Perm
        (equations true 2 [[32, 0], [0, 20]] [0, 32, 18]) := by
  have hequations : equations true 2 [[32, 0], [0, 20]] [0, 32, 18] =
      [([32, 0], [0]), ([0, 20], [38])] := by
    rw [equations_sck rfl]
    norm_num [rowSide, normSq, Finset.sum_range_succ, List.range_succ]
  refine ⟨?_, ?_, ?_, ?_⟩
  · simp [assembleCost, addDelays, delay, valueAt, rttChanged, bind, Except.bind, pure, Except.pure]
  · have hpoint : ∀ v ∈ ([[32, 0], [0, 20]] : List (List ℝ)), v.length = 2 := by simp
    have hdim : 2 ≤ ([[32, 0], [0, 20]] : List (List ℝ)).length := le_rfl
    rw [leastSquaresSystem_sck hdim hdim Nat.two_pos hpoint rfl]
    norm_num [rowSide, normSq, Finset.sum_range_succ, List.range_succ]
  · rw [hequations]
    exact List.mem_cons_of_mem _ (List.mem_singleton_self _)
  · rw [hequations]
    intro h
    have hmem := h.mem_iff.mpr (List.mem_cons_of_mem _ (List.mem_singleton_self _))
    norm_num at hmem

end Mp2bs.Peer
