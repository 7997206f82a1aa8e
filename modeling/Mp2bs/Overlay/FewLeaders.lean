import Mp2bs.Overlay.Search

/-!
# The search over few leaders

With no more leaders than the limit allows the root to have children, the first turn of
`modified_dijkstra` enters every leader once. From then on the search goes on like `dijkstra`.
-/

namespace Mp2bs.Overlay.Search
open Mp2bs.Lib

variable {α : Type*} [Field α] [LinearOrder α] {g : Graph α} {clusterSize : List ℕ} {idx : ℕ → ℕ}
  {maxChild : ℕ}

structure FirstTurn (g : Graph α) (idx : ℕ → ℕ) (rest : List ℕ) (s : Search α) : Prop where
  taken : s.taken = [0]
  late : s.late = false
  zero : (s.distance 0).1 = 0
  entered : ∀ y, (s.distance y).1 ≠ ⊤ ↔ y ∈ s.S
  ahead : ∀ y ∈ rest, y ∈ s.S → y ≠ 0 → (s.distance y).1 = (g.cost 0 y : WithTop α)
  keys : ∀ e ∈ s.queue, (s.distance (ofLex e).2).1 ≤ ((ofLex e).1 : WithTop α) ∧ 0 ≤ (ofLex e).1
  nodup : s.S.Nodup
  lt : ∀ y ∈ s.S, y < g.size
  count : s.S.length = s.child (idx 0) + 1

variable {rest : List ℕ} {s : Search α} {current : ℕ} {d : α} {e : ℕ × α} {child : ℕ → ℕ}

theorem FirstTurn.enter (h : FirstTurn g idx rest s) {y : ℕ} {total : α} (hy : y ∉ s.S) (hpos : 0 < y)
    (hlt : y < g.size) (h0 : 0 ≤ total) (hrest : y ∈ rest → total = g.cost 0 y) :
    FirstTurn g idx rest (s.assign idx 0 total y) := by
  have hdist : ∀ z, z ≠ y → (s.assign idx 0 total y).distance z = s.distance z :=
    fun z hz => Function.update_of_ne hz ..
  have hnew : (s.assign idx 0 total y).distance y = ((total : WithTop α), 0) := Function.update_self ..
  have hmem : ∀ z, z ∈ (s.assign idx 0 total y).S ↔ z ∈ s.S ∨ z = y := by
    intro z
    simp [assign]
  refine ⟨h.taken, ?_, ?_, ?_, ?_, ?_, ?_, ?_, ?_⟩
  · have hne : y ≠ 0 := hpos.ne'
    simp [assign, h.late, h.taken, hne]
  · rw [hdist 0 hpos.ne]
    exact h.zero
  · intro z
    rw [hmem]
    by_cases hz : z = y
    · rw [hz, hnew]
      simp
    · rw [hdist z hz, h.entered z]
      simp [hz]
  · intro z hz hzS hz0
    by_cases hzy : z = y
    · subst hzy
      rw [hnew, hrest hz]
    · rw [hdist z hzy]
      exact h.ahead z hz (((hmem z).1 hzS).resolve_right hzy) hz0
  · intro e he
    rcases List.mem_cons.1 he with rfl | he
    · rw [ofLex_toLex, hnew]
      exact ⟨le_rfl, h0⟩
    · obtain ⟨hkey, hge⟩ := h.keys e he
      -- the node of an entry was entered, so it is not `y`
      have hey : (ofLex e).2 ≠ y := by
        intro hey
        rw [hey] at hkey
        exact hy ((h.entered y).1 (ne_top_of_le_ne_top WithTop.coe_ne_top hkey))
      rw [hdist _ hey]
      exact ⟨hkey, hge⟩
  · refine List.nodup_append.2 ⟨h.nodup, List.nodup_singleton y, ?_⟩
    intro a ha b hb hab
    rw [List.mem_singleton.1 hb] at hab
    exact hy (hab ▸ ha)
  · intro z hz
    rcases (hmem z).1 hz with hz | rfl
    · exact h.lt z hz
    · exact hlt
  · have hcount := h.count
    simp [assign, hcount]

theorem FirstTurn.visit (hpos : ∀ i j, 0 ≤ g.cost i j) {j : ℕ} (h : FirstTurn g idx (j :: rest) s) (hj : j ∉ rest)
    (hlt : j < g.size) : FirstTurn g idx rest (s.relaxLeader g clusterSize 0 idx maxChild 0 0 (j, g.cost 0 j)) := by
  have hrest : FirstTurn g idx rest s :=
    ⟨h.taken, h.late, h.zero, h.entered, fun y hy => h.ahead y (List.mem_cons_of_mem _ hy), h.keys,
      h.nodup, h.lt, h.count⟩
  unfold relaxLeader
  dsimp only
  rw [zero_add]
  split
  next hif =>
    have hj0 : j ≠ 0 := by
      rintro rfl
      rw [h.zero] at hif
      exact absurd (WithTop.coe_lt_coe.1 hif.1) (not_lt.2 (hpos 0 0))
    have hjS : j ∉ s.S := by
      intro hmem
      rw [h.ahead j (List.mem_cons_self ..) hmem hj0] at hif
      exact lt_irrefl _ hif.1
    generalize hnew : getBetterNode g clusterSize 0 j s.S = new
    by_cases hkeep : new = j
    · simp only [hkeep, ne_eq, not_true, if_false]
      exact hrest.enter hjS (Nat.pos_of_ne_zero hj0) hlt (hpos 0 j) fun hmem => absurd hmem hj
    · simp only [hkeep, ne_eq, not_false_eq_true, if_true]
      obtain ⟨hnew0, hnewn, hnewS⟩ : 0 < new ∧ new < g.size ∧ new ∉ s.S := by
        have hcases := getBetterNode_cases g clusterSize 0 j s.S
        rw [hnew] at hcases
        exact hcases.resolve_left hkeep
      have hcost : 0 + getCost g 0 new = g.cost 0 new := by
        rw [zero_add, getCost, if_pos hnew0]
      rw [hcost]
      have h₁ := hrest.enter hnewS hnew0 hnewn (hpos 0 new) fun _ => rfl
      split
      next =>
        refine h₁.enter ?_ (Nat.pos_of_ne_zero hj0) hlt (hpos 0 new) fun hmem => absurd hmem hj
        simp only [assign, List.mem_append, List.mem_singleton, not_or]
        exact ⟨hjS, fun he => hkeep he.symm⟩
      next => exact h₁
  next => exact hrest

theorem getBetterNode_of_forall {first next : ℕ} {S : List ℕ} (h : ∀ k, 0 < k → k < g.size → k ∈ S) :
    getBetterNode g clusterSize first next S = next := by
  rcases getBetterNode_cases g clusterSize first next S with hnext | ⟨h0, hn, hS⟩
  · exact hnext
  · exact absurd (h _ h0 hn) hS

theorem relaxLeader_eq_relax (h : ∀ k, 0 < k → k < g.size → k ∈ s.S) :
    s.relaxLeader g clusterSize 0 idx maxChild current d e =
      s.relax idx (maxChild - min current 1) current d e := by
  unfold relaxLeader relax
  split
  next =>
    rw [getBetterNode_of_forall h]
    simp
  next => rfl

theorem mem_S_relax {k : ℕ} (hk : k ∈ s.S) : k ∈ (s.relax idx maxChild current d e).S := by
  unfold relax
  split
  · exact List.mem_append_left _ hk
  · exact hk

variable [IsStrictOrderedRing α]

theorem turn_start (clusterSize : List ℕ) (hpos : ∀ i j, 0 ≤ g.cost i j) (hg : Complete g)
    (hzero : g.edge 0 0 = true) (hsize : 0 < g.size) (hle : g.size ≤ maxChild + 1) (hchild : child (idx 0) = 0)
    (hbound : ∀ x < g.size, child (idx x) ≤ maxChild - min x 1) :
    Ordered 0 ((Search.start 0 child).turn (relaxLeader g clusterSize 0 idx maxChild) g) ∧
      ∀ k, 0 < k → k < g.size →
        k ∈ ((Search.start 0 child).turn (relaxLeader g clusterSize 0 idx maxChild) g).S := by
  have hitems : g.items 0 = (List.range g.size).map fun j => (j, g.cost 0 j) := by
    unfold Graph.items
    rw [List.filter_eq_self.2]
    intro j hj
    by_cases hj0 : j = 0
    · rw [hj0]
      exact hzero
    · exact hg 0 hsize j (List.mem_range.1 hj) (Ne.symm hj0)
  have hturn : (Search.start 0 child).turn (relaxLeader g clusterSize 0 idx maxChild) g =
      (g.items 0).foldl (relaxLeader g clusterSize 0 idx maxChild 0 0)
        ((Search.start (α := α) 0 child).take 0 []) := by
    simp [turn, Search.start, heappop]
  have hfold : ∀ (l : List ℕ) (t : Search α), l.Nodup → (∀ j ∈ l, j < g.size) → FirstTurn g idx l t →
      FirstTurn g idx []
        ((l.map fun j => (j, g.cost 0 j)).foldl (relaxLeader g clusterSize 0 idx maxChild 0 0) t) := by
    intro l
    induction l with
    | nil => exact fun t _ _ ht => ht
    | cons j l ih =>
      intro t hnd hlt ht
      obtain ⟨hj, hnd'⟩ := List.nodup_cons.1 hnd
      exact ih _ hnd' (fun i hi => hlt i (List.mem_cons_of_mem _ hi))
        (ht.visit hpos hj (hlt j (List.mem_cons_self ..)))
  have hstart : FirstTurn g idx (List.range g.size) ((Search.start (α := α) 0 child).take 0 []) := by
    refine ⟨by simp [Search.take, Search.start, takeNode], rfl, by simp [Search.take, Search.start], ?_, ?_,
      by simp [Search.take], List.nodup_singleton 0, ?_, ?_⟩
    · intro y
      by_cases hy : y = 0
      · simp [Search.take, Search.start, hy]
      · simp [Search.take, Search.start, hy]
    · intro y _ hyS hy0
      exact absurd (List.mem_singleton.1 hyS) hy0
    · intro y hyS
      rw [List.mem_singleton.1 hyS]
      exact hsize
    · simp [Search.take, Search.start, hchild]
  have hend := hfold _ _ List.nodup_range (fun j hj => List.mem_range.1 hj) hstart
  rw [← hitems, ← hturn] at hend
  refine ⟨⟨hend.late, hend.keys, ?_⟩, ?_⟩
  · intro x hx
    rw [hend.taken, List.mem_singleton] at hx
    rw [hx, hend.zero]
    exact le_rfl
  · -- a leader was reached, or the root spent its budget on as many different nodes
    intro k hk0 hk
    have hpop : heappop (Search.start (α := α) 0 child).queue = some (toLex (0, 0), []) := by
      simp [Search.start, heappop]
    have hsound : Sound g.size 0 idx child (fun x => maxChild - min x 1) (Search.start (α := α) 0 child) :=
      Sound.start hsize hbound
    have htake : Sound g.size 0 idx child (fun x => maxChild - min x 1)
        ((Search.start (α := α) 0 child).take 0 []) := hsound.take hpop
    have hmem : 0 ∈ ((Search.start (α := α) 0 child).take 0 []).taken := by
      simp [Search.take, Search.start, takeNode]
    obtain ⟨-, -, hedges⟩ := (relaxLeader_spec clusterSize idx child maxChild hpos).foldl (le_refl 0)
      (g.items 0) (fun _ he => he) _ htake hmem
    rw [← hturn] at hedges
    have hk' := hedges (k, g.cost 0 k) (Graph.mem_items.2 ⟨hk, hg 0 hsize k hk hk0.ne, rfl⟩)
    rcases hk' with hreached | hspent
    · exact (hend.entered k).1 hreached
    · have hsub : ((Search.start 0 child).turn (relaxLeader g clusterSize 0 idx maxChild) g).S.toFinset ⊆
          Finset.range g.size :=
        fun y hy => Finset.mem_range.2 (hend.lt y (List.mem_toFinset.1 hy))
      have hcard : (Finset.range g.size).card ≤
          ((Search.start 0 child).turn (relaxLeader g clusterSize 0 idx maxChild) g).S.toFinset.card := by
        rw [List.toFinset_card_of_nodup hend.nodup, hend.count, Finset.card_range]
        have hspent' : maxChild ≤
            ((Search.start 0 child).turn (relaxLeader g clusterSize 0 idx maxChild) g).child (idx 0) := hspent
        omega
      have heq := Finset.eq_of_subset_of_card_le hsub hcard
      exact List.mem_toFinset.1 (heq ▸ Finset.mem_range.2 hk)

theorem late_leaderLoop_of_le (hpos : ∀ i j, 0 ≤ g.cost i j) (hg : Complete g) (hzero : g.edge 0 0 = true)
    (hsize : 0 < g.size) (hle : g.size ≤ maxChild + 1) (hchild : child (idx 0) = 0)
    (hbound : ∀ x < g.size, child (idx x) ≤ maxChild - min x 1) :
    (leaderLoop g clusterSize idx child 0 maxChild).late = false := by
  obtain ⟨hord, hfull⟩ := turn_start clusterSize hpos hg hzero hsize hle hchild hbound
  have hrun : ∀ m, ∃ L, Ordered L ((Search.turn (relaxLeader g clusterSize 0 idx maxChild) g)^[m]
        ((Search.start 0 child).turn (relaxLeader g clusterSize 0 idx maxChild) g)) ∧
      ∀ k, 0 < k → k < g.size → k ∈ ((Search.turn (relaxLeader g clusterSize 0 idx maxChild) g)^[m]
        ((Search.start 0 child).turn (relaxLeader g clusterSize 0 idx maxChild) g)).S := by
    intro m
    induction m with
    | zero => exact ⟨0, hord, hfull⟩
    | succ m ih =>
      obtain ⟨L, hL, hS⟩ := ih
      rw [Function.iterate_succ_apply']
      refine hL.turn (Q := fun S => ∀ k, 0 < k → k < g.size → k ∈ S) ?_ hS
      intro current d t e he ht htS
      rw [relaxLeader_eq_relax htS]
      exact ⟨ht.relax (cost_nonneg_of_mem_items (fun i j _ => hpos i j) he),
        fun k hk0 hk => mem_S_relax (htS k hk0 hk)⟩
  obtain ⟨L, hL, -⟩ := hrun (g.size * maxChild)
  unfold leaderLoop
  rw [Nat.add_comm, Function.iterate_succ_apply]
  exact hL.late

end Mp2bs.Overlay.Search
