import Mp2bs.Overlay.Spanning

/-!
# A full rebuild and the module state

`build_omtree` with `opt = 0` (src/ver_v4/omtree_mesh_ndim_v2.py:631-698): nine clusterings are tried,
the tree with the least average delay is kept. The labels and the probabilities of each clustering are
inputs. `find_path_in_allclusters` reads the module-level `prev_leaders`
(239-243), which the main loop sets to the last leaders after every build
(848).
-/

namespace Mp2bs.Overlay
open Mp2bs.Lib

/-- `PrevPathInfo` (21-34). -/
structure PrevPathInfo where
  parent : Option (ℕ → Option ℕ)
  idxIndata : Option (List (List ℕ))
  child : Option (ℕ → ℕ)
  clusterSize : Option (List ℕ)
  gmmLabels : Option (ℕ → ℕ)

structure ModuleState where
  prevLeaders : Option (List ℕ)
  prevPathInfo : PrevPathInfo

structure Best (α π : Type) where
  avgE2eDelay : α
  maxE2eDelay : α
  minE2eDelay : α
  nClusters : ℕ
  gmmLabels : ℕ → ℕ
  prob : π
  parent : ℕ → Option ℕ
  clusterSize : List ℕ
  child : ℕ → ℕ
  idxIndata : List (List ℕ)

section Definitions
variable {α P π : Type} [Field α] [LinearOrder α] [DecidableEq P] (calcDelay calcDelayIdx : P → P → α)
  (origin : P)

/-- The entry that the index `i` stands for; `-1` is the last one. -/
def nodeAt (n : ℕ) (i : ℤ) : ℕ := if i < 0 then n - 1 else i.toNat

def parentAt (n : ℕ) (parent : ℕ → Option ℕ) (i : ℤ) : ℤ :=
  match parent (nodeAt n i) with
  | none => -1
  | some p => p

/-- The `while` of `calc_e2e_delay` (340-342). -/
def e2eLoop (t : Table P) (parent : ℕ → Option ℕ) : ℕ → ℤ → α → Except Failure α
  | 0, _, _ => .error .noReturn
  | fuel + 1, i, delaySum =>
    if parentAt t.n parent i = i then .ok delaySum
    else e2eLoop t parent fuel (parentAt t.n parent i)
      (delaySum + calcDelayIdx (t.row (nodeAt t.n i)) (t.row (nodeAt t.n (parentAt t.n parent i))))

/-- `calc_e2e_delay` (337-344). There are `n + 1` values that `i` can take, so
that a loop of more turns never ends. -/
def calcE2eDelay (t : Table P) (parent : ℕ → Option ℕ) (dst : ℕ) : Except Failure α :=
  e2eLoop calcDelayIdx t parent (t.n + 3) dst 0

/-- `calc_avg_e2e_delay` (346-362). -/
def calcAvgE2eDelay (t : Table P) (parent : ℕ → Option ℕ) : Except Failure (α × α × α) := do
  let r ← (List.range t.n).foldlM
    (fun (acc : α × α × α) i => do
      let d ← calcE2eDelay calcDelayIdx t parent i
      return (acc.1 + d, if d > acc.2.1 then d else acc.2.1, if d < acc.2.2 then d else acc.2.2))
    (0, -1, 10000)
  return (r.1 / (t.n : α), r.2)

/-- The body of the loop of `build_omtree` (654-686). -/
def buildStep (t : Table P) (gmm : ℕ → (ℕ → ℕ) × π) (maxChild : ℕ) (prevLeaders : Option (List ℕ))
    (best : Option (Best α π)) (nClusters : ℕ) : Except Failure (Option (Best α π)) := do
  let r ← buildTree calcDelay origin t (gmm nClusters).1 nClusters maxChild prevLeaders
  let e ← calcAvgE2eDelay calcDelayIdx t r.2.parent
  let bestAvg := match best with
    | none => 99999999
    | some b => b.avgE2eDelay
  if e.1 < bestAvg then
    return some {
      avgE2eDelay := e.1
      maxE2eDelay := e.2.1
      minE2eDelay := e.2.2
      nClusters := nClusters
      gmmLabels := (gmm nClusters).1
      prob := (gmm nClusters).2
      parent := r.2.parent
      clusterSize := r.1.size
      child := r.2.child
      idxIndata := r.1.idx :: (List.range nClusters).map (members t.n (gmm nClusters).1) }
  else return best

/-- `build_omtree` with `opt = 0` (631-638, 653-698). Without a best tree the
print after the loop reads an unbound name. -/
def buildOmtree (t : Table P) (gmm : ℕ → (ℕ → ℕ) × π) (maxChild : ℕ) (st : ModuleState) :
    Except Failure (Best α π × ModuleState) := do
  let best ← (List.range' 2 9).foldlM
    (buildStep calcDelay calcDelayIdx origin t gmm maxChild st.prevLeaders) none
  match best with
  | none => .error .unboundLocalError
  | some b =>
    return (b, { st with
      prevPathInfo := { st.prevPathInfo with child := some b.child, clusterSize := some b.clusterSize } })

end Definitions

/-! ## Trees for every uplink limit -/

structure Settled (n : ℕ) (parent : ℕ → Option ℕ) : Prop where
  root : parent 0 = some 0
  parent_lt : ∀ i p, parent i = some p → p = 0 ∨ p < n
  leads : ∀ i < n, parent i = none ∨ Leads parent i 0

section Settle
variable {α P : Type} [Field α] [LinearOrder α] [DecidableEq P] (calcDelay : P → P → α)
  {t : Table P} {labels : ℕ → ℕ} {nClusters maxChild : ℕ}

omit [DecidableEq P] in
theorem modifiedDijkstra_flat (h : Labelling t labels nClusters) (hmax : maxChild ≤ 1) (g : Graph α)
    (hg : g.size = nClusters + 1) (clusterSize : List ℕ) :
    ∃ o, modifiedDijkstra (fun _ => none) g (fun i => (leaderIdx calcDelay t labels nClusters).getD i 0)
        (fun _ => 0) 0 clusterSize 0 maxChild = .ok o ∧
      o.parent 0 = some 0 ∧ (∀ k < nClusters, o.parent (leader calcDelay t labels k) = some 0) ∧
      (∀ i p, o.parent i = some p → p = 0) ∧
      (∀ i, i ≠ 0 → (∀ k < nClusters, leader calcDelay t labels k ≠ i) → o.parent i = none) ∧
      ∀ i, i ≠ 0 → o.child i = 0 := by
  obtain ⟨hvia, hchild⟩ := Search.leaderLoop_flat g clusterSize
    (fun i => (leaderIdx calcDelay t labels nClusters).getD i 0) (fun _ => 0) hmax
  have hpos : ∀ k < nClusters, 0 < leader calcDelay t labels k := fun k hk =>
    (mem_members.1 (leader_mem calcDelay h hk)).1
  unfold modifiedDijkstra
  dsimp only
  generalize leaderLoop g clusterSize (fun i => (leaderIdx calcDelay t labels nClusters).getD i 0)
    (fun _ => 0) 0 maxChild = s at hvia hchild ⊢
  have hends : ∀ last < nClusters + 1, last ≠ 0 →
      pathEnds (fun y => (s.distance y).2) 0 (nClusters + 1) last = true := by
    intro last _ _
    simp [pathEnds, hvia]
  unfold Search.finish
  rw [hg, if_neg (by omega), if_pos hends]
  refine ⟨_, rfl, Search.writeParents_mono (Function.update_self ..), ?_, ?_, ?_, hchild⟩
  · intro k hk
    have hfresh : Function.update (fun _ => none) 0 (some 0)
        ((leaderIdx calcDelay t labels nClusters).getD (k + 1) 0) = (none : Option ℕ) := by
      rw [leaderIdx_succ calcDelay hk, Function.update_of_ne (hpos k hk).ne']
    have hwrite : writeParents (fun i => (leaderIdx calcDelay t labels nClusters).getD i 0) 0 (nClusters + 1)
        (fun last => if (s.distance last).2 = 0 ∧ 0 = 0 then some 0
          else some ((leaderIdx calcDelay t labels nClusters).getD (s.distance last).2 0))
        (Function.update (fun _ => none) 0 (some 0))
        ((leaderIdx calcDelay t labels nClusters).getD (k + 1) 0) = some 0 := by
      refine (Search.writeParents_idx (injOn_leaderIdx calcDelay h) (by omega) (Nat.succ_ne_zero k)
        hfresh).trans ?_
      simp [hvia]
    rw [leaderIdx_succ calcDelay hk] at hwrite
    exact hwrite
  · intro i p hp
    rcases Search.writeParents_eq_some hp with hold | ⟨y, -, -, hnew⟩
    · by_cases hi0 : i = 0
      · rw [hi0, Function.update_self] at hold
        exact (Option.some.inj hold).symm
      · rw [Function.update_of_ne hi0] at hold
        cases hold
    · simp only [hvia, and_self, if_true] at hnew
      exact (Option.some.inj hnew).symm
  · intro i hi0 hi
    change writeParents _ _ _ _ _ i = none
    rw [Search.writeParents_of_forall, Function.update_of_ne hi0]
    intro y hy hy0 he
    obtain ⟨k, rfl⟩ := Nat.exists_eq_succ_of_ne_zero hy0
    rw [Nat.succ_eq_add_one, leaderIdx_succ calcDelay (by omega)] at he
    exact absurd he (hi k (by omega))

omit [DecidableEq P] in
theorem findPathInCluster_zero (h : Labelling t labels nClusters) (clusterSize : List ℕ) {k : ℕ}
    (hk : k < nClusters) (a : Arrays) :
    findPathInCluster calcDelay (t.row 0) t labels clusterSize 0 none a k = .ok a := by
  obtain ⟨hindex, hlt⟩ := indexMin_leaderPos calcDelay h hk
  obtain ⟨hdist, hchild⟩ := Search.dijkstraLoop_zero
    (createGraph calcDelay clusterSize (fun i => t.row ((members t.n labels k).getD i 0))
      (members t.n labels k).length false)
    (fun i => (members t.n labels k).getD i 0) a.child (leaderPos calcDelay t labels k)
  simp only [findPathInCluster, hindex, bind, Except.bind, dijkstra]
  generalize dijkstraLoop (createGraph calcDelay clusterSize (fun i => t.row ((members t.n labels k).getD i 0))
    (members t.n labels k).length false) (fun i => (members t.n labels k).getD i 0) a.child
    (leaderPos calcDelay t labels k) 0 = s at hdist hchild ⊢
  have hsize : (createGraph calcDelay clusterSize (fun i => t.row ((members t.n labels k).getD i 0))
    (members t.n labels k).length false).size = (members t.n labels k).length := rfl
  have hvia : ∀ y, (s.distance y).2 = leaderPos calcDelay t labels k := by
    intro y
    rw [hdist]
    by_cases hy : y = leaderPos calcDelay t labels k
    · simp [Search.start, hy]
    · simp [Search.start, hy]
  have hends : ∀ last < (members t.n labels k).length, last ≠ leaderPos calcDelay t labels k →
      pathEnds (fun y => (s.distance y).2) (leaderPos calcDelay t labels k) (members t.n labels k).length last =
        true := by
    intro last hlast _
    obtain ⟨m, hm⟩ := Nat.exists_eq_succ_of_ne_zero (show (members t.n labels k).length ≠ 0 by omega)
    rw [hm]
    simp [pathEnds, hvia]
  have hnone : ∀ y < (members t.n labels k).length, y ≠ leaderPos calcDelay t labels k →
      (if (s.distance y).1 ≠ ⊤ then some ((members t.n labels k).getD (s.distance y).2 0) else none) = none := by
    intro y _ hy
    rw [hdist]
    simp [Search.start, hy]
  unfold Search.finish
  rw [hsize, if_neg (by omega), if_pos hends, Search.writeParents_of_none a.parent hnone, hchild]
  rfl

variable [IsStrictOrderedRing α]

omit [DecidableEq P] [Field α] [IsStrictOrderedRing α] in
theorem Glued.settled (h : Labelling t labels nClusters) {a : Arrays}
    (ha : Glued calcDelay t labels nClusters maxChild nClusters a) : Settled t.n a.parent :=
  ⟨ha.root, ha.parent_lt, fun i hi => Or.inr (ha.leads calcDelay h i hi)⟩

theorem buildTree_settled (hd : IsDelay calcDelay) (h : Labelling t labels nClusters)
    (htimely : Timely calcDelay (t.row 0) t labels nClusters maxChild)
    (hno : ∀ i, 0 < i → i < t.n → t.row i ≠ t.row 0) :
    ∃ r, buildTree calcDelay (t.row 0) t labels nClusters maxChild none = .ok r ∧ Settled t.n r.2.parent := by
  have hselect := selectLeader_eq_of_ne calcDelay h hno
  by_cases hmax : 2 ≤ maxChild
  · have hlate := htimely _ hselect
    simp only [graphLeaders, List.length_cons, List.length_map, List.length_range] at hlate
    obtain ⟨o, ho, hglued, -⟩ := modifiedDijkstra_glued calcDelay hd h hmax _ _ hlate
    obtain ⟨r, hr, hglued', -⟩ := buildTree_of_glued calcDelay hd h hno ho hglued
    exact ⟨r, hr, hglued'.settled calcDelay h⟩
  · have hgraph : (createGraph calcDelay ((List.range nClusters).map fun k => (members t.n labels k).length)
        (fun i => (t.row 0 :: (List.range nClusters).map fun k =>
          t.row (leader calcDelay t labels k)).getD i (t.row 0)) (nClusters + 1) true).size =
        nClusters + 1 := rfl
    obtain ⟨o, ho, hroot, hleader, hzero, hfresh, hchild⟩ := modifiedDijkstra_flat calcDelay h
      (show maxChild ≤ 1 by omega) _ hgraph ((List.range nClusters).map fun k => (members t.n labels k).length)
    by_cases hone : maxChild = 1
    · subst hone
      have hglued : Glued calcDelay t labels nClusters 1 0 ⟨o.parent, o.child⟩ := by
        refine ⟨hroot, fun i p hp => Or.inl (hzero i p hp),
          fun j hj => Relation.ReflTransGen.single (hleader j hj), by simp, ?_, ?_⟩
        · intro j _ hj i hi hne
          refine hfresh i (mem_members.1 hi).1.ne' ?_
          rintro k hk rfl
          have hlk := (mem_members.1 (leader_mem calcDelay h hk)).2.2
          rw [(mem_members.1 hi).2.2] at hlk
          exact hne (by rw [hlk])
        · intro j _ _ i hi
          change o.child i < 1
          rw [hchild i (mem_members.1 hi).1.ne']
          exact Nat.one_pos
      obtain ⟨r, hr, hglued', -⟩ := buildTree_of_glued calcDelay hd h hno ho hglued
      exact ⟨r, hr, hglued'.settled calcDelay h⟩
    · have hmax0 : maxChild = 0 := by omega
      subst hmax0
      have hall : findPathInAllclusters calcDelay (t.row 0) t labels nClusters
          ((List.range nClusters).map fun k => (members t.n labels k).length) 0 none ⟨o.parent, o.child⟩ =
            .ok ⟨o.parent, o.child⟩ := by
        have hloop : ∀ l : List ℕ, (∀ k ∈ l, k < nClusters) → l.foldlM
            (findPathInCluster calcDelay (t.row 0) t labels
              ((List.range nClusters).map fun k => (members t.n labels k).length) 0 none)
            ⟨o.parent, o.child⟩ = .ok ⟨o.parent, o.child⟩ := by
          intro l
          induction l with
          | nil => exact fun _ => rfl
          | cons k l ih =>
            intro hl
            rw [List.foldlM_cons, findPathInCluster_zero calcDelay h _ (hl k (List.mem_cons_self ..))]
            exact ih fun j hj => hl j (List.mem_cons_of_mem _ hj)
        exact hloop _ fun k hk => List.mem_range.1 hk
      refine ⟨(⟨leaderIdx calcDelay t labels nClusters,
        t.row 0 :: (List.range nClusters).map fun k => t.row (leader calcDelay t labels k),
        (List.range nClusters).map fun k => (members t.n labels k).length⟩, ⟨o.parent, o.child⟩), ?_, ?_⟩
      · simp only [buildTree, bind, Except.bind, hselect, graphLeaders, List.length_cons, List.length_map,
          List.length_range, ho, hall, pure, Except.pure]
      · refine ⟨hroot, fun i p hp => Or.inl (hzero i p hp), fun i _ => ?_⟩
        cases hp : o.parent i with
        | none => exact Or.inl hp
        | some p =>
          have hp0 : o.parent i = some 0 := by rw [hp, hzero i p hp]
          exact Or.inr (Relation.ReflTransGen.single hp0)

end Settle

/-! ## The average delay is computed -/

section E2e
variable {α P : Type} [Field α] [LinearOrder α] (calcDelayIdx : P → P → α) {t : Table P} {parent : ℕ → Option ℕ}

theorem nodeAt_natCast (n i : ℕ) : nodeAt n (i : ℤ) = i := by
  have hi : ¬ ((i : ℤ) < 0) := by omega
  rw [nodeAt, if_neg hi, Int.toNat_natCast]

theorem Settled.step (h : Settled t.n parent) {i : ℕ} (hi : Leads parent i 0) :
    ∃ p, parent i = some p ∧ Leads parent p 0 := by
  rcases Relation.ReflTransGen.cases_head hi with rfl | ⟨p, hp, hleads⟩
  · exact ⟨0, h.root, Relation.ReflTransGen.refl⟩
  · exact ⟨p, hp, hleads⟩

omit [LinearOrder α] in
theorem e2eLoop_of_iterate (h : Settled t.n parent) {k : ℕ} : ∀ {fuel i : ℕ} (delaySum : α),
    Leads parent i 0 → (fun j => (parent j).getD 0)^[k] i = 0 → k < fuel →
    ∃ d, e2eLoop calcDelayIdx t parent fuel i delaySum = .ok d := by
  induction k with
  | zero =>
    intro fuel i delaySum _ hk hfuel
    obtain ⟨f, rfl⟩ := Nat.exists_eq_succ_of_ne_zero (show fuel ≠ 0 by omega)
    have hi : i = 0 := hk
    have hroot : parentAt t.n parent ((0 : ℕ) : ℤ) = (0 : ℕ) := by
      rw [parentAt, nodeAt_natCast, h.root]
    exact ⟨delaySum, by rw [hi, e2eLoop, if_pos hroot]⟩
  | succ k ih =>
    intro fuel i delaySum hleads hk hfuel
    obtain ⟨f, rfl⟩ := Nat.exists_eq_succ_of_ne_zero (show fuel ≠ 0 by omega)
    obtain ⟨p, hp, hleads'⟩ := h.step hleads
    have hat : parentAt t.n parent (i : ℤ) = p := by rw [parentAt, nodeAt_natCast, hp]
    rw [Function.iterate_succ_apply] at hk
    simp only [hp, Option.getD_some] at hk
    rw [e2eLoop, hat]
    split
    · exact ⟨delaySum, rfl⟩
    · exact ih _ hleads' hk (by omega)

omit [LinearOrder α] in
theorem e2eLoop_of_leads (h : Settled t.n parent) {i fuel : ℕ} (hi : i < t.n) (hleads : Leads parent i 0)
    (hfuel : t.n < fuel) (delaySum : α) : ∃ d, e2eLoop calcDelayIdx t parent fuel i delaySum = .ok d := by
  have hstep : ∀ j < t.n, (parent j).getD 0 < t.n := by
    intro j _
    cases hj : parent j with
    | none => exact Nat.zero_lt_of_lt hi
    | some p =>
      rcases h.parent_lt j p hj with rfl | hp
      · exact Nat.zero_lt_of_lt hi
      · exact hp
  have hreach : ∃ m, (fun j => (parent j).getD 0)^[m] i = 0 := by
    refine Relation.ReflTransGen.head_induction_on hleads ⟨0, rfl⟩ ?_
    rintro a b hab - ⟨m, hm⟩
    refine ⟨m + 1, ?_⟩
    rw [Function.iterate_succ_apply]
    simp only [hab, Option.getD_some]
    exact hm
  obtain ⟨m, hm⟩ := hreach
  obtain ⟨k, hk, hk'⟩ := exists_iterate_lt hstep hi hm
  exact e2eLoop_of_iterate calcDelayIdx h delaySum hleads hk' (by omega)

omit [LinearOrder α] in
theorem calcE2eDelay_ok (h : Settled t.n parent) {i : ℕ} (hi : i < t.n) :
    ∃ d, calcE2eDelay calcDelayIdx t parent i = .ok d := by
  unfold calcE2eDelay
  rcases h.leads i hi with hnone | hleads
  · -- over the entry `-1` the walk goes on from the last node
    have hat : parentAt t.n parent (i : ℤ) = -1 := by rw [parentAt, nodeAt_natCast, hnone]
    have hne : (-1 : ℤ) ≠ (i : ℤ) := by omega
    rw [show t.n + 3 = t.n + 1 + 1 + 1 from rfl, e2eLoop, hat, if_neg hne, e2eLoop]
    have hlast : nodeAt t.n (-1) = t.n - 1 := by simp [nodeAt]
    cases hp : parent (t.n - 1) with
    | none =>
      have hstop : parentAt t.n parent (-1) = -1 := by simp [parentAt, hlast, hp]
      rw [if_pos hstop]
      exact ⟨_, rfl⟩
    | some p =>
      have hgo : parentAt t.n parent (-1) = p := by simp [parentAt, hlast, hp]
      rw [hgo, if_neg (by omega)]
      have hleads' : Leads parent p 0 := by
        rcases h.leads (t.n - 1) (by omega) with hnone' | hleads
        · rw [hp] at hnone'
          cases hnone'
        · obtain ⟨q, hq, hqleads⟩ := h.step hleads
          rw [hp] at hq
          exact Option.some.inj hq ▸ hqleads
      have hpn : p < t.n := by
        rcases h.parent_lt _ _ hp with rfl | hlt
        · omega
        · exact hlt
      exact e2eLoop_of_leads calcDelayIdx h hpn hleads' (by omega) _
  · exact e2eLoop_of_leads calcDelayIdx h hi hleads (by omega) _

theorem calcAvgE2eDelay_ok (h : Settled t.n parent) : ∃ e, calcAvgE2eDelay calcDelayIdx t parent = .ok e := by
  have hloop : ∀ (l : List ℕ) (acc : α × α × α), (∀ i ∈ l, i < t.n) → ∃ r, l.foldlM
      (fun (acc : α × α × α) i => do
        let d ← calcE2eDelay calcDelayIdx t parent i
        return (acc.1 + d, if d > acc.2.1 then d else acc.2.1, if d < acc.2.2 then d else acc.2.2)) acc =
      (.ok r : Except Failure (α × α × α)) := by
    intro l
    induction l with
    | nil => exact fun acc _ => ⟨acc, rfl⟩
    | cons i l ih =>
      intro acc hl
      obtain ⟨d, hd⟩ := calcE2eDelay_ok calcDelayIdx h (hl i (List.mem_cons_self ..))
      rw [List.foldlM_cons, hd]
      exact ih _ fun j hj => hl j (List.mem_cons_of_mem _ hj)
  obtain ⟨r, hr⟩ := hloop (List.range t.n) (0, -1, 10000) fun i hi => List.mem_range.1 hi
  exact ⟨(r.1 / (t.n : α), r.2), by rw [calcAvgE2eDelay, hr]; rfl⟩

theorem e2eLoop_le [IsStrictOrderedRing α] {D : α} (h0 : 0 ≤ D)
    (hD : ∀ i j, calcDelayIdx (t.row i) (t.row j) ≤ D) {fuel : ℕ} {i : ℤ} {delaySum d : α}
    (h : e2eLoop calcDelayIdx t parent fuel i delaySum = .ok d) : d ≤ delaySum + fuel * D := by
  induction fuel generalizing i delaySum with
  | zero => cases h
  | succ fuel ih =>
    rw [e2eLoop] at h
    have hpos : 0 ≤ (fuel : α) * D := mul_nonneg (Nat.cast_nonneg _) h0
    have hmul : ((fuel + 1 : ℕ) : α) * D = fuel * D + D := by
      rw [Nat.cast_add, Nat.cast_one, add_mul, one_mul]
    split at h
    · rw [← Except.ok.inj h]
      linarith
    · have hrec := ih h
      have hstep := hD (nodeAt t.n i) (nodeAt t.n (parentAt t.n parent i))
      linarith

theorem calcAvgE2eDelay_le [IsStrictOrderedRing α] {D : α} (h0 : 0 ≤ D)
    (hD : ∀ i j, calcDelayIdx (t.row i) (t.row j) ≤ D) {e : α × α × α}
    (h : calcAvgE2eDelay calcDelayIdx t parent = .ok e) : e.1 ≤ ((t.n + 3 : ℕ) : α) * D := by
  have hC : 0 ≤ ((t.n + 3 : ℕ) : α) * D := mul_nonneg (Nat.cast_nonneg _) h0
  have hloop : ∀ (l : List ℕ) (acc r : α × α × α), l.foldlM
      (fun (acc : α × α × α) i => do
        let d ← calcE2eDelay calcDelayIdx t parent i
        return (acc.1 + d, if d > acc.2.1 then d else acc.2.1, if d < acc.2.2 then d else acc.2.2)) acc =
      (.ok r : Except Failure (α × α × α)) → r.1 ≤ acc.1 + l.length * (((t.n + 3 : ℕ) : α) * D) := by
    intro l
    induction l with
    | nil =>
      intro acc r hr
      rw [← Except.ok.inj hr]
      simp
    | cons i l ih =>
      intro acc r hr
      rw [List.foldlM_cons] at hr
      cases hd : calcE2eDelay calcDelayIdx t parent i with
      | error _ =>
        rw [hd] at hr
        cases hr
      | ok d =>
        rw [hd] at hr
        have hrec := ih _ _ hr
        have hstep := e2eLoop_le calcDelayIdx h0 hD hd
        rw [List.length_cons, Nat.cast_add, Nat.cast_one, add_mul, one_mul]
        linarith
  cases hr : (List.range t.n).foldlM
      (fun (acc : α × α × α) i => do
        let d ← calcE2eDelay calcDelayIdx t parent i
        return (acc.1 + d, if d > acc.2.1 then d else acc.2.1, if d < acc.2.2 then d else acc.2.2))
      ((0, -1, 10000) : α × α × α) with
  | error _ =>
    rw [calcAvgE2eDelay, hr] at h
    cases h
  | ok r =>
    rw [calcAvgE2eDelay, hr] at h
    have hsum := hloop _ _ _ hr
    rw [List.length_range, zero_add] at hsum
    rw [← Except.ok.inj h]
    by_cases hn : t.n = 0
    · simp only [hn, Nat.cast_zero, div_zero]
      exact hn ▸ hC
    · exact (div_le_iff₀ (Nat.cast_pos.2 (Nat.pos_of_ne_zero hn))).2 (by rw [mul_comm]; exact hsum)

end E2e

/-! ## Two builds -/

/-- The value counts as false in Python. -/
def Falsy (prevLeaders : Option (List ℕ)) : Prop := prevLeaders = none ∨ prevLeaders = some []

section Builds
variable {α P π : Type} [Field α] [LinearOrder α] [DecidableEq P] (calcDelay calcDelayIdx : P → P → α)
  (origin : P) {t : Table P} {gmm : ℕ → (ℕ → ℕ) × π} {maxChild : ℕ}

theorem buildStep_of_falsy {prevLeaders : Option (List ℕ)} (h : Falsy prevLeaders) :
    buildStep calcDelay calcDelayIdx origin t gmm maxChild prevLeaders =
      buildStep calcDelay calcDelayIdx origin t gmm maxChild none := by
  rcases h with rfl | rfl
  · rfl
  · rfl

def Measured (t : Table P) (gmm : ℕ → (ℕ → ℕ) × π) (maxChild n : ℕ) : Prop :=
  ∃ r e, buildTree calcDelay origin t (gmm n).1 n maxChild none = .ok r ∧
    calcAvgE2eDelay calcDelayIdx t r.2.parent = .ok e ∧ e.1 < 99999999

theorem foldlM_buildStep (l : List ℕ)
    (hl : ∀ n ∈ l, ∃ r e, buildTree calcDelay origin t (gmm n).1 n maxChild none = .ok r ∧
      calcAvgE2eDelay calcDelayIdx t r.2.parent = .ok e) (best : Option (Best α π)) :
    ∃ best', l.foldlM (buildStep calcDelay calcDelayIdx origin t gmm maxChild none) best = .ok best' ∧
      (best'.isSome ↔ best.isSome ∨ ∃ n ∈ l, Measured calcDelay calcDelayIdx origin t gmm maxChild n) := by
  induction l generalizing best with
  | nil => exact ⟨best, rfl, by simp⟩
  | cons n l ih =>
    obtain ⟨r, e, hr, he⟩ := hl n (List.mem_cons_self ..)
    have hmeasured : Measured calcDelay calcDelayIdx origin t gmm maxChild n ↔ e.1 < 99999999 := by
      constructor
      · rintro ⟨r', e', hr', he', hlt⟩
        rw [hr] at hr'
        cases hr'
        rw [he] at he'
        cases he'
        exact hlt
      · exact fun hlt => ⟨r, e, hr, he, hlt⟩
    obtain ⟨b₁, hb₁, hsome₁⟩ : ∃ b₁,
        buildStep calcDelay calcDelayIdx origin t gmm maxChild none best n = .ok b₁ ∧
          (b₁.isSome ↔ best.isSome ∨ e.1 < 99999999) := by
      simp only [buildStep, bind, Except.bind, hr, he, pure, Except.pure]
      cases best with
      | none =>
        by_cases hlt : e.1 < 99999999
        · exact ⟨_, if_pos hlt, by simp [hlt]⟩
        · exact ⟨none, if_neg hlt, by simp [hlt]⟩
      | some b =>
        by_cases hlt : e.1 < b.avgE2eDelay
        · exact ⟨_, if_pos hlt, by simp⟩
        · exact ⟨some b, if_neg hlt, by simp⟩
    obtain ⟨b₂, hb₂, hsome₂⟩ := ih (fun m hm => hl m (List.mem_cons_of_mem _ hm)) b₁
    refine ⟨b₂, ?_, ?_⟩
    · rw [List.foldlM_cons, hb₁]
      exact hb₂
    · rw [hsome₂, hsome₁, ← hmeasured, or_assoc]
      simp

theorem buildTree_short {labels : ℕ → ℕ} {nClusters : ℕ} {l : List ℕ} (hne : l ≠ [])
    (hlen : l.length < nClusters) (r : Leaders P × Arrays) :
    buildTree calcDelay origin t labels nClusters maxChild (some l) ≠ .ok r := by
  intro hr
  simp only [buildTree, bind, Except.bind] at hr
  split at hr
  next => cases hr
  next L _ =>
    split at hr
    next => cases hr
    next o _ =>
      split at hr
      next => cases hr
      next a ha =>
        obtain ⟨a₁, a₂, hstep⟩ := foldlM_ok_of_mem ha (List.mem_range.2 hlen)
        obtain ⟨x, xs, rfl⟩ := List.exists_cons_of_ne_nil hne
        have hnone : (x :: xs)[(x :: xs).length]? = none := List.getElem?_eq_none le_rfl
        simp only [findPathInCluster, hnone, bind, Except.bind] at hstep
        cases hstep

theorem buildOmtree_short {st : ModuleState} {l : List ℕ} (hst : st.prevLeaders = some l) (hne : l ≠ [])
    (hlen : l.length < 10) (r : Best α π × ModuleState) :
    buildOmtree calcDelay calcDelayIdx origin t gmm maxChild st ≠ .ok r := by
  intro hr
  simp only [buildOmtree, bind, Except.bind] at hr
  split at hr
  next => cases hr
  next best hbest =>
    obtain ⟨b₁, b₂, hstep⟩ := foldlM_ok_of_mem hbest (show 10 ∈ List.range' 2 9 by decide)
    rw [hst] at hstep
    simp only [buildStep, bind, Except.bind] at hstep
    split at hstep
    next => cases hstep
    next r' hr' => exact buildTree_short calcDelay origin hne hlen r' hr'

theorem buildOmtree_of_falsy
    (hgmm : ∀ n ∈ List.range' 2 9, ∃ r e, buildTree calcDelay origin t (gmm n).1 n maxChild none = .ok r ∧
      calcAvgE2eDelay calcDelayIdx t r.2.parent = .ok e)
    {st₁ st₂ : ModuleState} (h₁ : Falsy st₁.prevLeaders) (h₂ : Falsy st₂.prevLeaders) :
    (∃ best st₁' st₂', buildOmtree calcDelay calcDelayIdx origin t gmm maxChild st₁ = .ok (best, st₁') ∧
        buildOmtree calcDelay calcDelayIdx origin t gmm maxChild st₂ = .ok (best, st₂')) ↔
      ∃ n ∈ List.range' 2 9, Measured calcDelay calcDelayIdx origin t gmm maxChild n := by
  obtain ⟨best, hbest, hsome⟩ := foldlM_buildStep calcDelay calcDelayIdx origin (List.range' 2 9) hgmm none
  simp only [buildOmtree, buildStep_of_falsy calcDelay calcDelayIdx origin h₁,
    buildStep_of_falsy calcDelay calcDelayIdx origin h₂, hbest, bind, Except.bind, pure, Except.pure]
  rw [Option.isSome_none, Bool.false_eq_true, false_or] at hsome
  rw [← hsome]
  cases best with
  | none => simp
  | some b => simp

end Builds

/-! ## Exact delays -/

/-- `calc_delay_idx`, which takes the first three coordinates (84-85, 334-335). -/
noncomputable def calcDelayIdx (a b : Fin 4 → ℝ) : ℝ :=
  √((a 0 - b 0) ^ 2 + (a 1 - b 1) ^ 2 + (a 2 - b 2) ^ 2)

noncomputable def diagonal : Table (Fin 4 → ℝ) := ⟨11, fun i _ => ((min i 10 : ℕ) : ℝ)⟩

def modLabels (n : ℕ) : (ℕ → ℕ) × Unit := (fun i => i % n, ())

theorem labelling_diagonal {n : ℕ} (h2 : 2 ≤ n) (h10 : n ≤ 10) : Labelling diagonal (modLabels n).1 n := by
  refine ⟨fun i _ => Nat.mod_lt i (by omega), fun k hk => ⟨k, ?_, Nat.mod_eq_of_lt hk⟩, ?_⟩
  · change k + 1 < 11
    omega
  · intro i j hi hj hrow
    have hi' : i + 1 < 11 := hi
    have hj' : j + 1 < 11 := hj
    have hcast : (min (i + 1) 10 : ℕ) = min (j + 1) 10 := Nat.cast_injective (congrFun hrow 0)
    have hij : i = j := by omega
    rw [hij]

theorem diagonal_row_ne {i : ℕ} (hi : 0 < i) : diagonal.row i ≠ 0 := by
  intro hrow
  have hcast : ((min i 10 : ℕ) : ℝ) = ((0 : ℕ) : ℝ) := by
    rw [Nat.cast_zero]
    exact congrFun hrow 0
  have hmin : min i 10 = 0 := Nat.cast_injective hcast
  omega

theorem calcDelayIdx_diagonal_le (i j : ℕ) : calcDelayIdx (diagonal.row i) (diagonal.row j) ≤ 20 := by
  have hbound : ∀ k, 0 ≤ ((min k 10 : ℕ) : ℝ) ∧ ((min k 10 : ℕ) : ℝ) ≤ 10 := by
    intro k
    refine ⟨Nat.cast_nonneg _, ?_⟩
    have hle : min k 10 ≤ 10 := Nat.min_le_right k 10
    exact_mod_cast hle
  obtain ⟨hi0, hi⟩ := hbound i
  obtain ⟨hj0, hj⟩ := hbound j
  refine Real.sqrt_le_iff.2 ⟨by norm_num, ?_⟩
  change (((min i 10 : ℕ) : ℝ) - ((min j 10 : ℕ) : ℝ)) ^ 2 + (((min i 10 : ℕ) : ℝ) - ((min j 10 : ℕ) : ℝ)) ^ 2 +
    (((min i 10 : ℕ) : ℝ) - ((min j 10 : ℕ) : ℝ)) ^ 2 ≤ 20 ^ 2
  have hsq : (((min i 10 : ℕ) : ℝ) - ((min j 10 : ℕ) : ℝ)) ^ 2 ≤ 10 ^ 2 := by
    refine sq_le_sq' ?_ ?_
    · linarith
    · linarith
  linarith

def freshInfo : PrevPathInfo := ⟨none, none, none, none, none⟩

end Mp2bs.Overlay
