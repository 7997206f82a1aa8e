import Mp2bs.Overlay.FewLeaders
import Mp2bs.Overlay.Tree

/-!
# The trees of the two searches

What a single call of `dijkstra` and of `modified_dijkstra` returns
(src/ver_v4/omtree_mesh_ndim_v2.py:166-220, 245-326).
-/

namespace Mp2bs.Overlay

section Cluster
variable {α : Type*} [Field α] [LinearOrder α] [IsStrictOrderedRing α]

/-- `dijkstra` over a complete graph spans it within what is left of the limit. The start is its own predecessor in
`distance` and does not count as a child. -/
theorem dijkstra_spans_cluster (g : Graph α) (hg : Search.Complete g) (hpos : ∀ i j, g.edge i j = true → 0 ≤ g.cost i j)
    (first : ℕ) (hf : first < g.size) (idx : ℕ → ℕ) (hinj : Set.InjOn idx (Set.Iio g.size)) (child : ℕ → ℕ)
    (maxChild : ℕ) (h0 : ∀ x < g.size, child (idx x) < maxChild) (parent : ℕ → Option ℕ) :
    (dijkstraLoop g idx child first maxChild).queue = [] ∧
      ∃ o, dijkstra parent g idx child first maxChild = .ok o ∧
        (∀ y < g.size, (o.distance y).1 ≠ ⊤) ∧
        (∀ y < g.size, ∃ m, (fun y => (o.distance y).2)^[m] y = first) ∧
        (∀ v < g.size, ((Finset.range g.size).filter fun y => y ≠ first ∧ (o.distance y).2 = v).card ≤
          maxChild - child (idx v)) ∧
        (∀ y < g.size, y ≠ first → parent (idx y) = none → o.parent (idx y) = some (idx (o.distance y).2)) ∧
        ∀ i, (∀ y < g.size, y ≠ first → idx y = i → parent i ≠ none) → o.parent i = parent i := by
  have htree := Search.tree_dijkstraLoop hg hpos child hf hinj h0
  refine ⟨Search.queue_dijkstraLoop hg hpos hf fun x hx => (h0 x hx).le, ?_⟩
  unfold dijkstra
  dsimp only
  generalize dijkstraLoop g idx child first maxChild = s at htree ⊢
  refine ⟨_, htree.finish hf _ _, htree.reached, htree.root, ?_, ?_, ?_⟩
  · intro v hv
    have hchildren := htree.children v hv
    have hbound := htree.child_le v hv
    exact hchildren.trans (Nat.sub_le_sub_right hbound _)
  · intro y hy hyf hnone
    exact (Search.writeParents_idx hinj hy hyf hnone).trans (if_pos (htree.reached y hy))
  · intro i hi
    exact Search.writeParents_of_forall hi

theorem dijkstra_spans_cluster_three :
    ∃ o, dijkstra (fun _ => none) (⟨3, fun i j => i != j, fun _ _ => 1⟩ : Graph ℚ) (· + 5) (fun _ => 1) 0 2 = .ok o ∧
      ∀ v < 3, ((Finset.range 3).filter fun y => y ≠ 0 ∧ (o.distance y).2 = v).card ≤ 1 := by
  have hg : Search.Complete (⟨3, fun i j => i != j, fun _ _ => 1⟩ : Graph ℚ) := by
    intro i _ j _ hij
    exact bne_iff_ne.2 hij
  have hinj : Set.InjOn (· + 5) (Set.Iio 3) := fun a _ b _ h => Nat.add_right_cancel h
  obtain ⟨-, o, ho, -, -, hchildren, -⟩ := dijkstra_spans_cluster (⟨3, fun i j => i != j, fun _ _ => 1⟩ : Graph ℚ) hg
    (fun _ _ _ => zero_le_one) 0 (by decide) (· + 5) hinj (fun _ => 1) 2 (fun _ _ => by decide) (fun _ => none)
  exact ⟨o, ho, hchildren⟩

end Cluster

/-! ## The leaders -/

section Leaders
variable {α P : Type} [Field α] [LinearOrder α]

/-- In every step of the search that enters a leader, this leader has not been expanded before. -/
def Search.LeadersTimely (g : Graph α) (clusterSize : List ℕ) (idx : ℕ → ℕ) (maxChild : ℕ) : Prop :=
  (leaderLoop g clusterSize idx (fun _ => 0) 0 maxChild).late = false

theorem Search.leadersTimely_of_le [IsStrictOrderedRing α] (calcDelay : P → P → α) (hd : ∀ a b, 0 ≤ calcDelay a b)
    (data : ℕ → P) {n maxChild : ℕ} (hle : n ≤ maxChild) (clusterSize : List ℕ) (idx : ℕ → ℕ) :
    Search.LeadersTimely (createGraph calcDelay clusterSize data (n + 1) true) clusterSize idx maxChild :=
  Search.late_leaderLoop_of_le (createGraph_cost_nonneg calcDelay hd clusterSize data (n + 1) true)
    (complete_createGraph calcDelay clusterSize data (n + 1) true) rfl (Nat.succ_pos n) (Nat.succ_le_succ hle) rfl
    fun _ _ => Nat.zero_le _

end Leaders

end Mp2bs.Overlay
