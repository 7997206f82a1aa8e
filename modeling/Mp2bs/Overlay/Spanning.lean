import Mathlib.Analysis.SpecialFunctions.Pow.NNReal
import Mp2bs.Overlay.FewLeaders
import Mp2bs.Overlay.Tree

/-!
# When the overlay tree spans all nodes

The tree of `build_omtree` over exact delays. It spans the nodes unless one of them has the coordinates
of node 0, or the search over the leaders gives a leader a predecessor after its expansion.
-/

namespace Mp2bs.Overlay
open Mp2bs.Lib

/-- `calc_delay_ndim` over exact coordinates, `DIM = 4` (omtree_mesh_ndim_v2.py:17, 87-91). -/
noncomputable def calcDelayNdim (a b : Fin 4 → ℝ) : ℝ := √(∑ i, (a i - b i) ^ 2)

theorem isDelay_calcDelayNdim : IsDelay calcDelayNdim where
  nonneg a b := Real.sqrt_nonneg _
  eq_zero a b := by
    have hsum : 0 ≤ ∑ i, (a i - b i) ^ 2 := Finset.sum_nonneg fun i _ => sq_nonneg _
    rw [calcDelayNdim, Real.sqrt_eq_zero hsum, Finset.sum_eq_zero_iff_of_nonneg fun i _ => sq_nonneg _]
    constructor
    · intro h
      funext i
      exact sub_eq_zero.1 (pow_eq_zero_iff two_ne_zero |>.1 (h i (Finset.mem_univ i)))
    · rintro rfl i -
      simp

theorem timely_of_le {α P : Type} [Field α] [LinearOrder α] [IsStrictOrderedRing α] [DecidableEq P]
    {calcDelay : P → P → α} (hd : IsDelay calcDelay) (origin : P) {t : Table P} {labels : ℕ → ℕ}
    {nClusters maxChild : ℕ} (h : Labelling t labels nClusters) (hle : nClusters ≤ maxChild) :
    Timely calcDelay origin t labels nClusters maxChild := by
  intro L hL
  rw [selectLeader_eq calcDelay origin h] at hL
  rw [← Except.ok.inj hL]
  refine Search.late_leaderLoop_of_le (createGraph_cost_nonneg calcDelay hd.nonneg _ _ _ true)
    (complete_createGraph calcDelay _ _ _ true) rfl ?_ ?_ rfl fun _ _ => Nat.zero_le _
  · simp [graphLeaders, createGraph]
  · simpa [graphLeaders, createGraph] using hle

def lineTable : Table ℚ := ⟨8, fun i => [0, -23, -18, -27, 14, 22, -19, -20].getD i 0⟩

def lineLabels (i : ℕ) : ℕ := [0, 1, 2, 3, 4, 1, 1].getD i 0

end Mp2bs.Overlay
