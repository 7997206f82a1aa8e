import Mathlib.Data.Finset.Image
import Mathlib.Data.List.GetD
import Mathlib.Logic.Relation
import Mp2bs.Lib.Loop
import Mp2bs.Overlay.Search

/-!
# The overlay tree for one clustering

`select_leader`, `create_graph`, `find_path_in_cluster`, `find_path_in_allclusters` and the body of the
loop of `build_omtree` up to the parent array (src/ver_v4/omtree_mesh_ndim_v2.py:122-164, 222-243,
654-670). The labels come from the Gaussian mixture library and are an input here. `calcDelay` is
`calc_delay_ndim` and `origin` is `[0 for j in range(DIM)]`.

The leader of a cluster is found twice: `select_leader` searches the table for the coordinates of the
member nearest to node 0, `find_path_in_cluster` takes the position of the member nearest to the origin.
The tree is one piece only if both are the same node.
-/

namespace Mp2bs.Overlay
open Mp2bs.Lib

structure Table (P : Type*) where
  n : ℕ
  row : ℕ → P

/-- `idxIndata[k+1]`: the nodes with label `k`. The label of node `i + 1` is `gmm_labels[i]`. -/
def members (n : ℕ) (labels : ℕ → ℕ) (k : ℕ) : List ℕ :=
  ((List.range (n - 1)).filter fun i => labels i = k).map (· + 1)

/-- What `select_leader` returns: `idxIndata[0]`, `cluster_leaders` and `cluster_size`. -/
structure Leaders (P : Type*) where
  idx : List ℕ
  coords : List P
  size : List ℕ

structure Arrays where
  parent : ℕ → Option ℕ
  child : ℕ → ℕ

section Definitions
variable {α P : Type} [Field α] [LinearOrder α] [DecidableEq P] (calcDelay : P → P → α) (origin : P)

/-- `delay.index(min(delay))`. -/
def indexMin (delay : List α) : Except Failure ℕ :=
  match delay.argmin id with
  | none => .error .valueError
  | some m => .ok (delay.idxOf m)

/-- The body of the loop of `select_leader` (130-147). -/
def selectStep (t : Table P) (labels : ℕ → ℕ) (L : Leaders P) (k : ℕ) : Except Failure (Leaders P) := do
  let kCluster := members t.n labels k
  let p ← indexMin (kCluster.map fun i => calcDelay (t.row 0) (t.row i))
  let leader := t.row (kCluster.getD p 0)
  return {
    idx := L.idx ++ ((List.range t.n).find? fun i => t.row i = leader).toList
    coords := L.coords ++ [leader]
    size := L.size ++ [kCluster.length] }

/-- `select_leader` (122-151). -/
def selectLeader (t : Table P) (labels : ℕ → ℕ) (clusterNum : ℕ) : Except Failure (Leaders P) :=
  (List.range clusterNum).foldlM (selectStep calcDelay t labels) ⟨[0], [origin], []⟩

/-- `create_graph` (153-164). -/
def createGraph (clusterSize : List ℕ) (data : ℕ → P) (nData : ℕ) (weighted : Bool) : Graph α where
  size := nData
  edge i j := (weighted && i * j == 0) || i != j
  cost i j :=
    if weighted = true ∧ i * j = 0 then calcDelay (data i) (data j) / (sizeBefore clusterSize j : α)
    else calcDelay (data i) (data j)

/-- `find_path_in_cluster` (222-237). An empty `prev_leaders` counts as none. -/
def findPathInCluster (t : Table P) (labels : ℕ → ℕ) (clusterSize : List ℕ) (maxChild : ℕ)
    (prevLeaders : Option (List ℕ)) (arrays : Arrays) (clusterIdx : ℕ) : Except Failure Arrays := do
  let nodes := members t.n labels clusterIdx
  let leaderIdx ←
    match prevLeaders with
    | some (l :: ls) =>
      match (l :: ls)[clusterIdx]? with
      | some p => Except.ok p
      | none => .error .indexError
    | _ => indexMin (nodes.map fun i => calcDelay origin (t.row i))
  let graph := createGraph calcDelay clusterSize (fun i => t.row (nodes.getD i 0)) nodes.length false
  let o ← dijkstra arrays.parent graph (fun i => nodes.getD i 0) arrays.child leaderIdx maxChild
  return ⟨o.parent, o.child⟩

/-- `find_path_in_allclusters` (239-243). -/
def findPathInAllclusters (t : Table P) (labels : ℕ → ℕ) (clusterNum : ℕ) (clusterSize : List ℕ)
    (maxChild : ℕ) (prevLeaders : Option (List ℕ)) (arrays : Arrays) : Except Failure Arrays :=
  (List.range clusterNum).foldlM
    (findPathInCluster calcDelay origin t labels clusterSize maxChild prevLeaders) arrays

/-- The graph over the leaders (665). -/
def graphLeaders (L : Leaders P) : Graph α :=
  createGraph calcDelay L.size (fun i => L.coords.getD i origin) L.coords.length true

/-- One clustering in `build_omtree` (655-671). -/
def buildTree (t : Table P) (labels : ℕ → ℕ) (nClusters maxChild : ℕ) (prevLeaders : Option (List ℕ)) :
    Except Failure (Leaders P × Arrays) := do
  let L ← selectLeader calcDelay origin t labels nClusters
  let o ← modifiedDijkstra (fun _ => none) (graphLeaders calcDelay origin L) (fun i => L.idx.getD i 0)
    (fun _ => 0) 0 L.size 0 maxChild
  let arrays ← findPathInAllclusters calcDelay origin t labels nClusters L.size maxChild prevLeaders
    ⟨o.parent, o.child⟩
  return (L, arrays)

end Definitions

/-! ## What the tree should be -/

/-- The other nodes whose parent is `v`. -/
def degree (n : ℕ) (parent : ℕ → Option ℕ) (v : ℕ) : ℕ :=
  ((Finset.range n).filter fun y => y ≠ v ∧ parent y = some v).card

def Leads (parent : ℕ → Option ℕ) : ℕ → ℕ → Prop :=
  Relation.ReflTransGen fun a b => parent a = some b

structure SpanningTree (n maxChild : ℕ) (parent : ℕ → Option ℕ) : Prop where
  root : parent 0 = some 0
  leads : ∀ i < n, Leads parent i 0
  degree_le : ∀ v < n, degree n parent v ≤ maxChild

/-- Labels with no empty cluster, equal for nodes with equal coordinates. -/
structure Labelling {P : Type*} (t : Table P) (labels : ℕ → ℕ) (nClusters : ℕ) : Prop where
  lt : ∀ i, i + 1 < t.n → labels i < nClusters
  nonempty : ∀ k < nClusters, ∃ i, i + 1 < t.n ∧ labels i = k
  equal : ∀ i j, i + 1 < t.n → j + 1 < t.n → t.row (i + 1) = t.row (j + 1) → labels i = labels j

/-- Exact delays: not negative, and zero between equal coordinates only. -/
structure IsDelay {α P : Type*} [Zero α] [LE α] (calcDelay : P → P → α) : Prop where
  nonneg : ∀ a b, 0 ≤ calcDelay a b
  eq_zero : ∀ a b, calcDelay a b = 0 ↔ a = b

theorem Leads.mono {parent parent' : ℕ → Option ℕ} (h : ∀ i p, parent i = some p → parent' i = some p)
    {a b : ℕ} (hab : Leads parent a b) : Leads parent' a b :=
  Relation.ReflTransGen.mono h _ _ hab

/-! ## Writing a search's tree into the arrays -/

namespace Search
variable {α : Type*} {n first N : ℕ} {idx child₀ bound : ℕ → ℕ} {s : Search α}
  {value parent : ℕ → Option ℕ}

theorem writeParents_mono {i p : ℕ} (h : parent i = some p) :
    writeParents idx first n value parent i = some p := by
  rw [writeParents_of_forall, h]
  intro _ _ _ _ hnone
  rw [h] at hnone
  cases hnone

theorem Tree.leads (h : Tree n first idx child₀ bound s) (hinj : Set.InjOn idx (Set.Iio n))
    (hvalue : ∀ y < n, y ≠ first → value y = some (idx (s.distance y).2))
    (hfresh : ∀ y < n, y ≠ first → parent (idx y) = none) {y : ℕ} (hy : y < n) :
    Leads (writeParents idx first n value parent) (idx y) (idx first) := by
  obtain ⟨m, hm⟩ := h.root y hy
  induction m generalizing y with
  | zero =>
    rw [show y = first from hm]
    exact Relation.ReflTransGen.refl
  | succ m ih =>
    by_cases hyf : y = first
    · rw [hyf]
      exact Relation.ReflTransGen.refl
    · have hparent : writeParents idx first n value parent (idx y) = some (idx (s.distance y).2) := by
        rw [writeParents_idx hinj hy hyf (hfresh y hy hyf), hvalue y hy hyf]
      exact Relation.ReflTransGen.head hparent (ih (h.via_lt y hy) hm)

theorem Tree.degree_le (h : Tree n first idx child₀ bound s) (hinj : Set.InjOn idx (Set.Iio n))
    (hvalue : ∀ y < n, y ≠ first → value y = some (idx (s.distance y).2))
    (hfresh : ∀ y < n, y ≠ first → parent (idx y) = none) (hdeg : ∀ v, degree N parent v ≤ child₀ v)
    (v : ℕ) : degree N (writeParents idx first n value parent) v ≤ s.child v := by
  -- a child of `v` was one before, or the search gave it a predecessor that stands for `v`
  have hsub : ((Finset.range N).filter fun y => y ≠ v ∧ writeParents idx first n value parent y = some v) ⊆
      ((Finset.range N).filter fun y => y ≠ v ∧ parent y = some v) ∪
        ((Finset.range n).filter fun y => y ≠ first ∧ idx (s.distance y).2 = v).image idx := by
    intro z hz
    obtain ⟨hzN, hzv, hpz⟩ := Finset.mem_filter.1 hz
    by_cases hin : ∃ y < n, y ≠ first ∧ idx y = z
    · obtain ⟨y, hy, hyf, rfl⟩ := hin
      rw [writeParents_idx hinj hy hyf (hfresh y hy hyf), hvalue y hy hyf] at hpz
      exact Finset.mem_union_right _ (Finset.mem_image.2
        ⟨y, Finset.mem_filter.2 ⟨Finset.mem_range.2 hy, hyf, Option.some.inj hpz⟩, rfl⟩)
    · rw [writeParents_of_forall fun y hy hyf he => absurd ⟨y, hy, hyf, he⟩ hin] at hpz
      exact Finset.mem_union_left _ (Finset.mem_filter.2 ⟨hzN, hzv, hpz⟩)
  have hcard := (Finset.card_le_card hsub).trans (Finset.card_union_le _ _)
  have hold := hdeg v
  have hchild := h.le_child v
  by_cases hv : ∃ x < n, idx x = v
  · obtain ⟨x, hx, rfl⟩ := hv
    have hnew : (((Finset.range n).filter fun y => y ≠ first ∧ idx (s.distance y).2 = idx x).image idx).card ≤
        s.child (idx x) - child₀ (idx x) := by
      refine Finset.card_image_le.trans ((Finset.card_le_card ?_).trans (h.children x hx))
      intro y hy
      obtain ⟨hyn, hyf, hyx⟩ := Finset.mem_filter.1 hy
      exact Finset.mem_filter.2 ⟨hyn, hyf, hinj (h.via_lt y (Finset.mem_range.1 hyn)) hx hyx⟩
    unfold degree at hold ⊢
    omega
  · have hnone : ((Finset.range n).filter fun y => y ≠ first ∧ idx (s.distance y).2 = v) = ∅ := by
      refine Finset.filter_eq_empty_iff.2 ?_
      intro y hy hyv
      exact hv ⟨(s.distance y).2, h.via_lt y (Finset.mem_range.1 hy), hyv.2⟩
    rw [hnone, Finset.image_empty, Finset.card_empty] at hcard
    unfold degree at hold ⊢
    omega

end Search

/-! ## Clusters and their leaders -/

theorem mem_members {n : ℕ} {labels : ℕ → ℕ} {k i : ℕ} :
    i ∈ members n labels k ↔ 0 < i ∧ i < n ∧ labels (i - 1) = k := by
  simp only [members, List.mem_map, List.mem_filter, List.mem_range, decide_eq_true_eq]
  constructor
  · rintro ⟨j, ⟨hj, hl⟩, rfl⟩
    exact ⟨Nat.succ_pos j, by omega, hl⟩
  · rintro ⟨h0, hn, hl⟩
    exact ⟨i - 1, ⟨by omega, hl⟩, by omega⟩

theorem sorted_members (n : ℕ) (labels : ℕ → ℕ) (k : ℕ) : (members n labels k).Pairwise (· < ·) := by
  unfold members
  rw [List.pairwise_map]
  refine (List.Pairwise.filter _ List.pairwise_lt_range).imp ?_
  intro a b hab
  omega

theorem nodup_members (n : ℕ) (labels : ℕ → ℕ) (k : ℕ) : (members n labels k).Nodup :=
  (sorted_members n labels k).imp fun hab => Nat.ne_of_lt hab

theorem getD_members_mem {n : ℕ} {labels : ℕ → ℕ} {k p : ℕ} (hp : p < (members n labels k).length) :
    (members n labels k).getD p 0 ∈ members n labels k := by
  rw [List.getD_eq_getElem _ _ hp]
  exact List.getElem_mem hp

theorem injOn_members (n : ℕ) (labels : ℕ → ℕ) (k : ℕ) :
    Set.InjOn (fun i => (members n labels k).getD i 0) (Set.Iio (members n labels k).length) := by
  intro a ha b hb hab
  have ha' : a < (members n labels k).length := ha
  have hb' : b < (members n labels k).length := hb
  simp only [List.getD_eq_getElem _ _ ha', List.getD_eq_getElem _ _ hb'] at hab
  exact (nodup_members n labels k).getElem_inj_iff.1 hab

section Leader
variable {α P : Type} [LinearOrder α] (calcDelay : P → P → α)

theorem indexMin_eq_ok {delay : List α} (h : delay ≠ []) :
    ∃ p, indexMin delay = .ok p ∧ ∃ hp : p < delay.length, (∀ d ∈ delay, delay[p] ≤ d) ∧
      ∀ j (hj : j < delay.length), delay[j] = delay[p] → p ≤ j := by
  unfold indexMin
  cases hmin : delay.argmin id with
  | none => exact absurd (List.argmin_eq_none.1 hmin) h
  | some m =>
    have hm : m ∈ delay := List.argmin_mem hmin
    have hlt := List.idxOf_lt_length_of_mem hm
    have hget : delay[delay.idxOf m] = m := List.getElem_idxOf hlt
    refine ⟨delay.idxOf m, rfl, hlt, ?_, ?_⟩
    · intro d hd
      rw [hget]
      exact List.le_of_mem_argmin hd hmin
    · intro j hj heq
      rw [hget] at heq
      have htake : m ∈ delay.take (j + 1) := List.mem_take_iff_getElem.2 ⟨j, by omega, heq⟩
      have hlt' := (List.mem_take_iff_idxOf_lt hm).1 htake
      omega

theorem exists_leader {t : Table P} {labels : ℕ → ℕ} {nClusters k : ℕ} (h : Labelling t labels nClusters)
    (hk : k < nClusters) (c : P) :
    ∃ p, indexMin ((members t.n labels k).map fun i => calcDelay c (t.row i)) = .ok p ∧
      p < (members t.n labels k).length ∧
      ∀ i ∈ members t.n labels k,
        calcDelay c (t.row ((members t.n labels k).getD p 0)) ≤ calcDelay c (t.row i) ∧
        (calcDelay c (t.row i) = calcDelay c (t.row ((members t.n labels k).getD p 0)) →
          (members t.n labels k).getD p 0 ≤ i) := by
  obtain ⟨i₀, hi₀, hl₀⟩ := h.nonempty k hk
  have hmem₀ : i₀ + 1 ∈ members t.n labels k := mem_members.2 ⟨Nat.succ_pos i₀, hi₀, hl₀⟩
  have hne : ((members t.n labels k).map fun i => calcDelay c (t.row i)) ≠ [] := by
    intro hnil
    rw [List.map_eq_nil_iff.1 hnil] at hmem₀
    cases hmem₀
  obtain ⟨p, hp, hlt, hmin, hfirst⟩ := indexMin_eq_ok hne
  have hlt' : p < (members t.n labels k).length := by
    rw [List.length_map] at hlt
    exact hlt
  refine ⟨p, hp, hlt', ?_⟩
  intro i hi
  rw [List.getD_eq_getElem _ _ hlt']
  have hle := hmin _ (List.mem_map_of_mem hi)
  rw [List.getElem_map] at hle
  refine ⟨hle, fun heq => ?_⟩
  obtain ⟨j, hj, rfl⟩ := List.getElem_of_mem hi
  have hpj := hfirst j (by rw [List.length_map]; exact hj) (by simpa using heq)
  rcases Nat.eq_or_lt_of_le hpj with rfl | hlt
  · exact le_rfl
  · exact (List.pairwise_iff_getElem.1 (sorted_members t.n labels k) p j hlt' hj hlt).le

end Leader

section Select
variable {α P : Type} [LinearOrder α] [DecidableEq P]

def leaderPos (calcDelay : P → P → α) (t : Table P) (labels : ℕ → ℕ) (k : ℕ) : ℕ :=
  match indexMin ((members t.n labels k).map fun i => calcDelay (t.row 0) (t.row i)) with
  | .ok p => p
  | .error _ => 0

def leader (calcDelay : P → P → α) (t : Table P) (labels : ℕ → ℕ) (k : ℕ) : ℕ :=
  (members t.n labels k).getD (leaderPos calcDelay t labels k) 0

def place (t : Table P) (c : P) : ℕ := ((List.range t.n).find? fun i => t.row i = c).getD 0

variable (calcDelay : P → P → α) {t : Table P} {labels : ℕ → ℕ} {nClusters : ℕ}

omit [DecidableEq P] in
theorem indexMin_leaderPos (h : Labelling t labels nClusters) {k : ℕ} (hk : k < nClusters) :
    indexMin ((members t.n labels k).map fun i => calcDelay (t.row 0) (t.row i)) =
        .ok (leaderPos calcDelay t labels k) ∧
      leaderPos calcDelay t labels k < (members t.n labels k).length := by
  obtain ⟨p, hp, hlt, -⟩ := exists_leader calcDelay h hk (t.row 0)
  have hpos : leaderPos calcDelay t labels k = p := by
    unfold leaderPos
    rw [hp]
  rw [hpos]
  exact ⟨hp, hlt⟩

omit [DecidableEq P] in
theorem leader_mem (h : Labelling t labels nClusters) {k : ℕ} (hk : k < nClusters) :
    leader calcDelay t labels k ∈ members t.n labels k :=
  getD_members_mem (indexMin_leaderPos calcDelay h hk).2

omit [DecidableEq P] in
theorem leader_nearest (h : Labelling t labels nClusters) {k : ℕ} (hk : k < nClusters) {i : ℕ}
    (hi : i ∈ members t.n labels k) :
    calcDelay (t.row 0) (t.row (leader calcDelay t labels k)) ≤ calcDelay (t.row 0) (t.row i) ∧
      (calcDelay (t.row 0) (t.row i) = calcDelay (t.row 0) (t.row (leader calcDelay t labels k)) →
        leader calcDelay t labels k ≤ i) := by
  obtain ⟨p, hp, -, hmin⟩ := exists_leader calcDelay h hk (t.row 0)
  have hpos : leaderPos calcDelay t labels k = p := by
    unfold leaderPos
    rw [hp]
  unfold leader
  rw [hpos]
  exact hmin i hi

theorem find_place {i : ℕ} (hi : i < t.n) :
    ((List.range t.n).find? fun j => t.row j = t.row i) = some (place t (t.row i)) ∧
      place t (t.row i) ≤ i ∧ t.row (place t (t.row i)) = t.row i := by
  cases hfind : (List.range t.n).find? fun j => decide (t.row j = t.row i) with
  | none =>
    have hnone := List.find?_eq_none.1 hfind i (List.mem_range.2 hi)
    simp at hnone
  | some j =>
    have hplace : place t (t.row i) = j := by
      unfold place
      rw [hfind]
      rfl
    obtain ⟨hj, -, hbefore⟩ := List.find?_range_eq_some.1 hfind
    rw [hplace]
    refine ⟨rfl, ?_, of_decide_eq_true hj⟩
    by_contra hlt
    have hi' := hbefore i (by omega)
    simp at hi'

theorem selectLeader_eq (origin : P) (h : Labelling t labels nClusters) :
    selectLeader calcDelay origin t labels nClusters =
      .ok ⟨0 :: (List.range nClusters).map fun k => place t (t.row (leader calcDelay t labels k)),
        origin :: (List.range nClusters).map fun k => t.row (leader calcDelay t labels k),
        (List.range nClusters).map fun k => (members t.n labels k).length⟩ := by
  have hloop : ∀ m ≤ nClusters,
      (List.range m).foldlM (selectStep calcDelay t labels) ⟨[0], [origin], []⟩ =
        .ok ⟨0 :: (List.range m).map fun k => place t (t.row (leader calcDelay t labels k)),
          origin :: (List.range m).map fun k => t.row (leader calcDelay t labels k),
          (List.range m).map fun k => (members t.n labels k).length⟩ := by
    intro m hm
    induction m with
    | zero => rfl
    | succ m ih =>
      have hmem := leader_mem calcDelay h (show m < nClusters by omega)
      have hfind := (find_place (t := t) (mem_members.1 hmem).2.1).1
      have hleader : (members t.n labels m).getD (leaderPos calcDelay t labels m) 0 =
          leader calcDelay t labels m := rfl
      rw [List.range_succ, List.foldlM_append, ih (by omega)]
      simp only [List.foldlM_cons, List.foldlM_nil, selectStep, Except.bind, bind, pure, Except.pure,
        (indexMin_leaderPos calcDelay h (show m < nClusters by omega)).1, hleader, hfind, List.map_append,
        List.map_cons, List.map_nil, Option.toList_some, List.cons_append]
  exact hloop nClusters le_rfl

theorem place_leader (h : Labelling t labels nClusters) (hno : ∀ i, 0 < i → i < t.n → t.row i ≠ t.row 0)
    {k : ℕ} (hk : k < nClusters) :
    place t (t.row (leader calcDelay t labels k)) = leader calcDelay t labels k := by
  obtain ⟨h0, hn, hl⟩ := mem_members.1 (leader_mem calcDelay h hk)
  obtain ⟨-, hle, hrow⟩ := find_place (t := t) hn
  refine le_antisymm hle ?_
  have hpos : 0 < place t (t.row (leader calcDelay t labels k)) := by
    by_contra hzero
    have hz : place t (t.row (leader calcDelay t labels k)) = 0 := by omega
    rw [hz] at hrow
    exact hno _ h0 hn hrow.symm
  have hlabel : labels (place t (t.row (leader calcDelay t labels k)) - 1) = k := by
    refine (h.equal (place t (t.row (leader calcDelay t labels k)) - 1) (leader calcDelay t labels k - 1)
      (by omega) (by omega) ?_).trans hl
    rw [Nat.sub_add_cancel hpos, Nat.sub_add_cancel h0]
    exact hrow
  have hmem : place t (t.row (leader calcDelay t labels k)) ∈ members t.n labels k :=
    mem_members.2 ⟨hpos, by omega, hlabel⟩
  exact (leader_nearest calcDelay h hk hmem).2 (by rw [hrow])

end Select

/-! ## The graphs -/

section Graphs
variable {α P : Type} [Field α] [LinearOrder α] (calcDelay : P → P → α)

omit [LinearOrder α] in
theorem complete_createGraph (clusterSize : List ℕ) (data : ℕ → P) (n : ℕ) (weighted : Bool) :
    Search.Complete (createGraph calcDelay clusterSize data n weighted) := by
  intro i _ j _ hij
  simp [createGraph, hij]

theorem createGraph_cost_nonneg [IsStrictOrderedRing α] (hd : ∀ a b, 0 ≤ calcDelay a b)
    (clusterSize : List ℕ) (data : ℕ → P) (n : ℕ) (weighted : Bool) (i j : ℕ) :
    0 ≤ (createGraph calcDelay clusterSize data n weighted).cost i j := by
  simp only [createGraph]
  split
  · exact div_nonneg (hd _ _) (Nat.cast_nonneg _)
  · exact hd _ _

end Graphs

/-! ## The tree over all clusters -/

section Glue
variable {α P : Type} [Field α] [LinearOrder α] [DecidableEq P] (calcDelay : P → P → α)

def Timely (origin : P) (t : Table P) (labels : ℕ → ℕ) (nClusters maxChild : ℕ) : Prop :=
  ∀ L, selectLeader calcDelay origin t labels nClusters = .ok L →
    (leaderLoop (graphLeaders calcDelay origin L) L.size (fun i => L.idx.getD i 0) (fun _ => 0) 0
      maxChild).late = false

structure Glued (t : Table P) (labels : ℕ → ℕ) (nClusters maxChild k : ℕ) (a : Arrays) : Prop where
  root : a.parent 0 = some 0
  parent_lt : ∀ i p, a.parent i = some p → p = 0 ∨ p < t.n
  leader_leads : ∀ j < nClusters, Leads a.parent (leader calcDelay t labels j) 0
  member_leads : ∀ j < k, ∀ i ∈ members t.n labels j, Leads a.parent i 0
  fresh : ∀ j, k ≤ j → j < nClusters → ∀ i ∈ members t.n labels j, i ≠ leader calcDelay t labels j →
    a.parent i = none
  room : ∀ j, k ≤ j → j < nClusters → ∀ i ∈ members t.n labels j, a.child i < maxChild

structure Counted (n maxChild : ℕ) (a : Arrays) : Prop where
  degree_le : ∀ v, degree n a.parent v ≤ a.child v
  child_le : ∀ v, a.child v ≤ maxChild

variable {t : Table P} {labels : ℕ → ℕ} {nClusters maxChild : ℕ}

/-- The list `idxIndata[0]` of a table in which no other node is at the coordinates of node 0. -/
def leaderIdx (t : Table P) (labels : ℕ → ℕ) (nClusters : ℕ) : List ℕ :=
  0 :: (List.range nClusters).map (leader calcDelay t labels)

variable {k : ℕ} {a : Arrays}

omit [Field α] [DecidableEq P] in
theorem leaderIdx_succ (hk : k < nClusters) :
    (leaderIdx calcDelay t labels nClusters).getD (k + 1) 0 = leader calcDelay t labels k := by
  rw [leaderIdx, List.getD_cons_succ, List.getD_eq_getElem _ _ (by simpa using hk)]
  simp

omit [Field α] [DecidableEq P] in
theorem injOn_leaderIdx (h : Labelling t labels nClusters) :
    Set.InjOn (fun i => (leaderIdx calcDelay t labels nClusters).getD i 0) (Set.Iio (nClusters + 1)) := by
  have hpos : ∀ k < nClusters, 0 < leader calcDelay t labels k := fun k hk =>
    (mem_members.1 (leader_mem calcDelay h hk)).1
  intro a ha b hb hab
  have ha' : a < nClusters + 1 := ha
  have hb' : b < nClusters + 1 := hb
  dsimp only at hab
  cases a with
  | zero =>
    cases b with
    | zero => rfl
    | succ b =>
      rw [leaderIdx_succ calcDelay (by omega)] at hab
      have hb0 := hpos b (by omega)
      have hzero : (leaderIdx calcDelay t labels nClusters).getD 0 0 = 0 := rfl
      omega
  | succ a =>
    rw [leaderIdx_succ calcDelay (by omega)] at hab
    cases b with
    | zero =>
      have ha0 := hpos a (by omega)
      have hzero : (leaderIdx calcDelay t labels nClusters).getD 0 0 = 0 := rfl
      omega
    | succ b =>
      rw [leaderIdx_succ calcDelay (by omega)] at hab
      have hla := (mem_members.1 (leader_mem calcDelay h (show a < nClusters by omega))).2.2
      have hlb := (mem_members.1 (leader_mem calcDelay h (show b < nClusters by omega))).2.2
      rw [hab, hlb] at hla
      rw [hla]

variable [IsStrictOrderedRing α]

omit [DecidableEq P] in
theorem modifiedDijkstra_glued (hd : IsDelay calcDelay) (h : Labelling t labels nClusters)
    (hmax : 2 ≤ maxChild) (clusterSize : List ℕ) (data : ℕ → P)
    (hlate : (leaderLoop (createGraph calcDelay clusterSize data (nClusters + 1) true) clusterSize
      (fun i => (leaderIdx calcDelay t labels nClusters).getD i 0) (fun _ => 0) 0 maxChild).late = false) :
    ∃ o, modifiedDijkstra (fun _ => none) (createGraph calcDelay clusterSize data (nClusters + 1) true)
        (fun i => (leaderIdx calcDelay t labels nClusters).getD i 0) (fun _ => 0) 0 clusterSize 0 maxChild =
          .ok o ∧
      Glued calcDelay t labels nClusters maxChild 0 ⟨o.parent, o.child⟩ ∧
      Counted t.n maxChild ⟨o.parent, o.child⟩ := by
  have hinj := injOn_leaderIdx calcDelay h
  have hpos : ∀ k < nClusters, 0 < leader calcDelay t labels k := fun k hk =>
    (mem_members.1 (leader_mem calcDelay h hk)).1
  have htree := Search.tree_leaderLoop (complete_createGraph calcDelay clusterSize data (nClusters + 1) true)
    (createGraph_cost_nonneg calcDelay hd.nonneg clusterSize data (nClusters + 1) true) (Nat.succ_pos nClusters) hinj
    (fun x _ => show 0 < maxChild - min x 1 by omega) hlate
  unfold modifiedDijkstra
  dsimp only
  generalize leaderLoop (createGraph calcDelay clusterSize data (nClusters + 1) true) clusterSize
    (fun i => (leaderIdx calcDelay t labels nClusters).getD i 0) (fun _ => 0) 0 maxChild = s at htree ⊢
  have hsize : (createGraph calcDelay clusterSize data (nClusters + 1) true).size = nClusters + 1 := rfl
  rw [hsize] at htree ⊢
  refine ⟨_, htree.finish (Nat.succ_pos nClusters) _ _, ?_⟩
  have hvalue : ∀ y < nClusters + 1, y ≠ 0 →
      (if (s.distance y).2 = 0 ∧ 0 = 0 then some 0
        else some ((leaderIdx calcDelay t labels nClusters).getD (s.distance y).2 0)) =
      some ((leaderIdx calcDelay t labels nClusters).getD (s.distance y).2 0) := by
    intro y _ _
    split
    next hy =>
      rw [hy.1]
      rfl
    next => rfl
  have hfresh : ∀ y < nClusters + 1, y ≠ 0 →
      Function.update (fun _ => none) 0 (some 0) ((leaderIdx calcDelay t labels nClusters).getD y 0) =
        (none : Option ℕ) := by
    intro y hy hy0
    obtain ⟨k, rfl⟩ := Nat.exists_eq_succ_of_ne_zero hy0
    rw [Nat.succ_eq_add_one, leaderIdx_succ calcDelay (by omega),
      Function.update_of_ne (hpos k (by omega)).ne']
  have hdeg : ∀ v, degree t.n (Function.update (fun _ => none) 0 (some 0)) v ≤ 0 := by
    intro v
    rw [degree, Nat.le_zero, Finset.card_eq_zero, Finset.filter_eq_empty_iff]
    rintro y - ⟨hyv, hy⟩
    by_cases hy0 : y = 0
    · subst hy0
      rw [Function.update_self] at hy
      exact hyv (Option.some.inj hy)
    · rw [Function.update_of_ne hy0] at hy
      cases hy
  have hother : ∀ i, i ≠ 0 → (∀ k < nClusters, leader calcDelay t labels k ≠ i) →
      ∀ x < nClusters + 1, (leaderIdx calcDelay t labels nClusters).getD x 0 ≠ i := by
    intro i hi0 hi x hx
    cases x with
    | zero => exact hi0.symm
    | succ k =>
      rw [leaderIdx_succ calcDelay (by omega)]
      exact hi k (by omega)
  refine ⟨⟨Search.writeParents_mono (Function.update_self ..), ?_, ?_, by simp, ?_, ?_⟩,
    htree.degree_le hinj hvalue hfresh hdeg, ?_⟩
  · intro i p hp
    rcases Search.writeParents_eq_some hp with hold | ⟨y, hy, hy0, hnew⟩
    · by_cases hi0 : i = 0
      · rw [hi0, Function.update_self] at hold
        exact Or.inl (Option.some.inj hold).symm
      · rw [Function.update_of_ne hi0] at hold
        cases hold
    · rw [hvalue y hy hy0] at hnew
      rw [← Option.some.inj hnew]
      have hvia := htree.via_lt y hy
      cases hx : (s.distance y).2 with
      | zero => exact Or.inl rfl
      | succ k =>
        rw [leaderIdx_succ calcDelay (by omega)]
        exact Or.inr (mem_members.1 (leader_mem calcDelay h (by omega))).2.1
  · intro j hj
    have hleads := htree.leads hinj hvalue hfresh (show j + 1 < nClusters + 1 by omega)
    rw [leaderIdx_succ calcDelay hj] at hleads
    exact hleads
  · intro j _ hj i hi hne
    have hi0 := (mem_members.1 hi).1
    have hnot : ∀ k < nClusters, leader calcDelay t labels k ≠ i := by
      rintro k hk rfl
      have hlk := (mem_members.1 (leader_mem calcDelay h hk)).2.2
      rw [(mem_members.1 hi).2.2] at hlk
      exact hne (by rw [hlk])
    change writeParents _ _ _ _ _ i = none
    rw [Search.writeParents_of_forall fun x hx _ he => absurd he (hother i hi0.ne' hnot x hx),
      Function.update_of_ne hi0.ne']
  · intro j _ hj i hi
    change s.child i < maxChild
    by_cases hlead : ∃ k < nClusters, leader calcDelay t labels k = i
    · obtain ⟨k, hk, rfl⟩ := hlead
      have hle := htree.child_le (k + 1) (by omega)
      rw [leaderIdx_succ calcDelay hk] at hle
      have hmin : min (k + 1) 1 = 1 := by omega
      rw [hmin] at hle
      omega
    · have hnot : ∀ k < nClusters, leader calcDelay t labels k ≠ i := fun k hk he => hlead ⟨k, hk, he⟩
      rw [htree.child_eq i (hother i (mem_members.1 hi).1.ne' hnot)]
      omega
  · intro v
    change s.child v ≤ maxChild
    by_cases hv : ∃ x < nClusters + 1, (leaderIdx calcDelay t labels nClusters).getD x 0 = v
    · obtain ⟨x, hx, rfl⟩ := hv
      exact (htree.child_le x hx).trans (Nat.sub_le _ _)
    · rw [htree.child_eq v fun x hx he => hv ⟨x, hx, he⟩]
      omega

omit [DecidableEq P] in
theorem findPathInCluster_glued (hd : IsDelay calcDelay) (h : Labelling t labels nClusters) (clusterSize : List ℕ)
    (hk : k < nClusters) (ha : Glued calcDelay t labels nClusters maxChild k a) :
    ∃ a', findPathInCluster calcDelay (t.row 0) t labels clusterSize maxChild none a k = .ok a' ∧
      Glued calcDelay t labels nClusters maxChild (k + 1) a' ∧
      (Counted t.n maxChild a → Counted t.n maxChild a') := by
  obtain ⟨hindex, hlt⟩ := indexMin_leaderPos calcDelay h hk
  have hinj := injOn_members t.n labels k
  have hmem : ∀ x < (members t.n labels k).length, (members t.n labels k).getD x 0 ∈ members t.n labels k :=
    fun x hx => getD_members_mem hx
  have htree := Search.tree_dijkstraLoop
    (complete_createGraph calcDelay clusterSize (fun i => t.row ((members t.n labels k).getD i 0))
      (members t.n labels k).length false)
    (fun i j _ => createGraph_cost_nonneg calcDelay hd.nonneg clusterSize
      (fun i => t.row ((members t.n labels k).getD i 0)) (members t.n labels k).length false i j)
    a.child hlt hinj (fun x hx => ha.room k le_rfl hk _ (hmem x hx))
  simp only [findPathInCluster, hindex, bind, Except.bind, dijkstra]
  generalize dijkstraLoop (createGraph calcDelay clusterSize (fun i => t.row ((members t.n labels k).getD i 0))
    (members t.n labels k).length false) (fun i => (members t.n labels k).getD i 0) a.child
    (leaderPos calcDelay t labels k) maxChild = s at htree ⊢
  have hsize : (createGraph calcDelay clusterSize (fun i => t.row ((members t.n labels k).getD i 0))
    (members t.n labels k).length false).size = (members t.n labels k).length := rfl
  rw [hsize] at htree ⊢
  rw [htree.finish hlt]
  refine ⟨_, rfl, ?_⟩
  have hvalue : ∀ y < (members t.n labels k).length, y ≠ leaderPos calcDelay t labels k →
      (if (s.distance y).1 ≠ ⊤ then some ((members t.n labels k).getD (s.distance y).2 0) else none) =
        some ((members t.n labels k).getD (s.distance y).2 0) :=
    fun y hy _ => if_pos (htree.reached y hy)
  have hfresh : ∀ y < (members t.n labels k).length, y ≠ leaderPos calcDelay t labels k →
      a.parent ((members t.n labels k).getD y 0) = none := by
    intro y hy hne
    refine ha.fresh k le_rfl hk _ (hmem y hy) fun he => ?_
    exact hne (hinj hy hlt he)
  have hother : ∀ j, j ≠ k → ∀ i ∈ members t.n labels j,
      ∀ x < (members t.n labels k).length, (members t.n labels k).getD x 0 ≠ i := by
    rintro j hj i hi x hx rfl
    have hlabel := (mem_members.1 hi).2.2
    rw [(mem_members.1 (hmem x hx)).2.2] at hlabel
    exact hj hlabel.symm
  have hmono : ∀ i p, a.parent i = some p →
      writeParents (fun i => (members t.n labels k).getD i 0) (leaderPos calcDelay t labels k)
        (members t.n labels k).length
        (fun last => if (s.distance last).1 ≠ ⊤ then some ((members t.n labels k).getD (s.distance last).2 0)
          else none) a.parent i = some p :=
    fun i p hp => Search.writeParents_mono hp
  refine ⟨⟨hmono 0 0 ha.root, ?_, fun j hj => (ha.leader_leads j hj).mono hmono, ?_, ?_, ?_⟩,
    fun hc => ⟨htree.degree_le hinj hvalue hfresh hc.degree_le, ?_⟩⟩
  · intro i p hp
    rcases Search.writeParents_eq_some hp with hold | ⟨y, hy, hyf, hnew⟩
    · exact ha.parent_lt i p hold
    · rw [hvalue y hy hyf] at hnew
      rw [← Option.some.inj hnew]
      exact Or.inr (mem_members.1 (hmem _ (htree.via_lt y hy))).2.1
  · intro j hj i hi
    by_cases hjk : j = k
    · subst hjk
      obtain ⟨x, hx, rfl⟩ := List.getElem_of_mem hi
      have hleads := htree.leads hinj hvalue hfresh hx
      rw [List.getD_eq_getElem _ _ hx] at hleads
      exact hleads.trans ((ha.leader_leads j hk).mono hmono)
    · exact (ha.member_leads j (by omega) i hi).mono hmono
  · intro j hj hjn i hi hne
    change writeParents _ _ _ _ _ i = none
    rw [Search.writeParents_of_forall fun x hx _ he => absurd he (hother j (by omega) i hi x hx)]
    exact ha.fresh j (by omega) hjn i hi hne
  · intro j hj hjn i hi
    change s.child i < maxChild
    rw [htree.child_eq i (hother j (by omega) i hi)]
    exact ha.room j (by omega) hjn i hi
  · intro v
    change s.child v ≤ maxChild
    by_cases hv : ∃ x < (members t.n labels k).length, (members t.n labels k).getD x 0 = v
    · obtain ⟨x, hx, rfl⟩ := hv
      exact htree.child_le x hx
    · rw [htree.child_eq v fun x hx he => hv ⟨x, hx, he⟩]
      exact hc.child_le v

omit [DecidableEq P] in
theorem findPathInAllclusters_glued (hd : IsDelay calcDelay) (h : Labelling t labels nClusters)
    (clusterSize : List ℕ) (ha : Glued calcDelay t labels nClusters maxChild 0 a) :
    ∃ a', findPathInAllclusters calcDelay (t.row 0) t labels nClusters clusterSize maxChild none a = .ok a' ∧
      Glued calcDelay t labels nClusters maxChild nClusters a' ∧
      (Counted t.n maxChild a → Counted t.n maxChild a') := by
  have hloop : ∀ m ≤ nClusters, ∃ a', (List.range m).foldlM
        (findPathInCluster calcDelay (t.row 0) t labels clusterSize maxChild none) a = .ok a' ∧
      Glued calcDelay t labels nClusters maxChild m a' ∧
      (Counted t.n maxChild a → Counted t.n maxChild a') := by
    intro m hm
    induction m with
    | zero => exact ⟨a, rfl, ha, id⟩
    | succ m ih =>
      obtain ⟨a₁, hrun, ha₁, hc₁⟩ := ih (by omega)
      obtain ⟨a₂, hstep, ha₂, hc₂⟩ := findPathInCluster_glued calcDelay hd h clusterSize (by omega) ha₁
      refine ⟨a₂, ?_, ha₂, fun hc => hc₂ (hc₁ hc)⟩
      rw [List.range_succ, List.foldlM_append, hrun]
      simp only [bind, Except.bind, List.foldlM_cons, List.foldlM_nil, hstep, pure, Except.pure]
  exact hloop nClusters le_rfl

omit [Field α] [DecidableEq P] [IsStrictOrderedRing α] in
theorem Glued.leads (h : Labelling t labels nClusters)
    (ha : Glued calcDelay t labels nClusters maxChild nClusters a) (i : ℕ) (hi : i < t.n) : Leads a.parent i 0 := by
  by_cases hi0 : i = 0
  · rw [hi0]
    exact Relation.ReflTransGen.refl
  · have hl := h.lt (i - 1) (by omega)
    exact ha.member_leads _ hl i (mem_members.2 ⟨Nat.pos_of_ne_zero hi0, hi, rfl⟩)

omit [Field α] [IsStrictOrderedRing α] in
theorem selectLeader_eq_of_ne (h : Labelling t labels nClusters)
    (hno : ∀ i, 0 < i → i < t.n → t.row i ≠ t.row 0) :
    selectLeader calcDelay (t.row 0) t labels nClusters =
      .ok ⟨leaderIdx calcDelay t labels nClusters,
        t.row 0 :: (List.range nClusters).map fun k => t.row (leader calcDelay t labels k),
        (List.range nClusters).map fun k => (members t.n labels k).length⟩ := by
  have hidx : (0 :: (List.range nClusters).map fun k => place t (t.row (leader calcDelay t labels k))) =
      leaderIdx calcDelay t labels nClusters := by
    unfold leaderIdx
    congr 1
    refine List.map_congr_left fun k hk => ?_
    exact place_leader calcDelay h hno (List.mem_range.1 hk)
  rw [selectLeader_eq calcDelay (t.row 0) h, hidx]

theorem buildTree_of_glued (hd : IsDelay calcDelay) (h : Labelling t labels nClusters)
    (hno : ∀ i, 0 < i → i < t.n → t.row i ≠ t.row 0) {o : Outcome α}
    (ho : modifiedDijkstra (fun _ => none)
      (createGraph calcDelay ((List.range nClusters).map fun k => (members t.n labels k).length)
        (fun i => (t.row 0 :: (List.range nClusters).map fun k =>
          t.row (leader calcDelay t labels k)).getD i (t.row 0)) (nClusters + 1) true)
      (fun i => (leaderIdx calcDelay t labels nClusters).getD i 0) (fun _ => 0) 0
      ((List.range nClusters).map fun k => (members t.n labels k).length) 0 maxChild = .ok o)
    (hglued : Glued calcDelay t labels nClusters maxChild 0 ⟨o.parent, o.child⟩) :
    ∃ r, buildTree calcDelay (t.row 0) t labels nClusters maxChild none = .ok r ∧
      Glued calcDelay t labels nClusters maxChild nClusters r.2 ∧
      (Counted t.n maxChild ⟨o.parent, o.child⟩ → Counted t.n maxChild r.2) := by
  obtain ⟨a, ha, hglued', hc⟩ := findPathInAllclusters_glued calcDelay hd h
    ((List.range nClusters).map fun k => (members t.n labels k).length) hglued
  refine ⟨(⟨leaderIdx calcDelay t labels nClusters,
    t.row 0 :: (List.range nClusters).map fun k => t.row (leader calcDelay t labels k),
    (List.range nClusters).map fun k => (members t.n labels k).length⟩, a), ?_, hglued', hc⟩
  simp only [buildTree, bind, Except.bind, selectLeader_eq_of_ne calcDelay h hno, graphLeaders,
    List.length_cons, List.length_map, List.length_range, ho, ha, pure, Except.pure]

omit [Field α] [DecidableEq P] [IsStrictOrderedRing α] in
theorem Glued.spanningTree (h : Labelling t labels nClusters)
    (ha : Glued calcDelay t labels nClusters maxChild nClusters a) (hc : Counted t.n maxChild a) :
    SpanningTree t.n maxChild a.parent :=
  ⟨ha.root, ha.leads calcDelay h, fun v _ => (hc.degree_le v).trans (hc.child_le v)⟩

theorem buildTree_spanning (hd : IsDelay calcDelay) (h : Labelling t labels nClusters) (hmax : 2 ≤ maxChild)
    (htimely : Timely calcDelay (t.row 0) t labels nClusters maxChild)
    (hno : ∀ i, 0 < i → i < t.n → t.row i ≠ t.row 0) :
    ∃ r, buildTree calcDelay (t.row 0) t labels nClusters maxChild none = .ok r ∧
      SpanningTree t.n maxChild r.2.parent := by
  have hlate := htimely _ (selectLeader_eq_of_ne calcDelay h hno)
  simp only [graphLeaders, List.length_cons, List.length_map, List.length_range] at hlate
  obtain ⟨o, ho, hglued, hc⟩ := modifiedDijkstra_glued calcDelay hd h hmax _ _ hlate
  obtain ⟨r, hr, hglued', hc'⟩ := buildTree_of_glued calcDelay hd h hno ho hglued
  exact ⟨r, hr, hglued'.spanningTree calcDelay h (hc' hc)⟩

end Glue

/-! ## A node at the coordinates of node 0 -/

section Origin
variable {α P : Type} [Field α] [LinearOrder α] [DecidableEq P] (calcDelay : P → P → α)
  {t : Table P} {labels : ℕ → ℕ} {nClusters maxChild : ℕ}

omit [DecidableEq P] in
theorem row_leader_eq (hd : IsDelay calcDelay) (h : Labelling t labels nClusters) {i : ℕ} (hi0 : 0 < i)
    (hin : i < t.n) (hrow : t.row i = t.row 0) :
    t.row (leader calcDelay t labels (labels (i - 1))) = t.row 0 := by
  have hk := h.lt (i - 1) (by omega)
  have hle := (leader_nearest calcDelay h hk (mem_members.2 ⟨hi0, hin, rfl⟩)).1
  rw [hrow, (hd.eq_zero _ _).2 rfl] at hle
  exact ((hd.eq_zero _ _).1 (le_antisymm hle (hd.nonneg _ _))).symm

omit [DecidableEq P] in
theorem findPathInCluster_leader (h : Labelling t labels nClusters) {clusterSize : List ℕ} {j k : ℕ}
    (hk : k < nClusters) {a a' : Arrays}
    (ha : findPathInCluster calcDelay (t.row 0) t labels clusterSize maxChild none a j = .ok a') :
    a'.parent (leader calcDelay t labels k) = a.parent (leader calcDelay t labels k) := by
  obtain ⟨_, hlt⟩ := indexMin_leaderPos calcDelay h hk
  simp only [findPathInCluster, bind, Except.bind] at ha
  cases hindex : indexMin ((members t.n labels j).map fun i => calcDelay (t.row 0) (t.row i)) with
  | error e =>
    rw [hindex] at ha
    cases ha
  | ok p =>
    rw [hindex] at ha
    dsimp only at ha
    split at ha
    next => cases ha
    next o ho =>
      rw [← Except.ok.inj ha]
      refine dijkstra_parent_of_ne ho ?_
      intro y hy hyp he
      have hy' : y < (members t.n labels j).length := hy
      have hmem := getD_members_mem hy'
      have hjk : j = k := by
        rw [← (mem_members.1 hmem).2.2, ← (mem_members.1 (leader_mem calcDelay h hk)).2.2, ← he]
      subst hjk
      have hpos : leaderPos calcDelay t labels j = p := by
        unfold leaderPos
        rw [hindex]
      exact hyp ((injOn_members t.n labels j hy' hlt he).trans hpos)

theorem buildTree_leader_none (hd : IsDelay calcDelay) (h : Labelling t labels nClusters) {i : ℕ}
    (hi0 : 0 < i) (hin : i < t.n) (hrow : t.row i = t.row 0) {r : Leaders P × Arrays}
    (hr : buildTree calcDelay (t.row 0) t labels nClusters maxChild none = .ok r) :
    r.2.parent (leader calcDelay t labels (labels (i - 1))) = none := by
  have hk := h.lt (i - 1) (by omega)
  have hat := row_leader_eq calcDelay hd h hi0 hin hrow
  obtain ⟨hpos, hlt, -⟩ := mem_members.1 (leader_mem calcDelay h hk)
  have hselect := selectLeader_eq calcDelay (t.row 0) h
  -- no entry of `idxIndata[0]` is the leader
  have hidx : ∀ y, (0 :: (List.range nClusters).map fun k =>
      place t (t.row (leader calcDelay t labels k))).getD y 0 ≠ leader calcDelay t labels (labels (i - 1)) := by
    intro y he
    have hmem : leader calcDelay t labels (labels (i - 1)) = 0 ∨
        leader calcDelay t labels (labels (i - 1)) ∈ (List.range nClusters).map fun k =>
          place t (t.row (leader calcDelay t labels k)) := by
      rw [← he, List.getD_eq_getElem?_getD]
      cases hget : (0 :: (List.range nClusters).map fun k =>
          place t (t.row (leader calcDelay t labels k)))[y]? with
      | none => exact Or.inl rfl
      | some x => exact List.mem_cons.1 (List.mem_of_getElem? hget)
    rcases hmem with hzero | hmem
    · omega
    · obtain ⟨k, hk', hplace⟩ := List.mem_map.1 hmem
      have hn := (mem_members.1 (leader_mem calcDelay h (List.mem_range.1 hk'))).2.1
      obtain ⟨hfind, -, hrow'⟩ := find_place (t := t) hn
      rw [hplace, hat] at hrow'
      rw [← hrow'] at hplace
      have hzero := (find_place (t := t) (show 0 < t.n by omega)).2.1
      omega
  simp only [buildTree, bind, Except.bind, hselect] at hr
  split at hr
  next => cases hr
  next o ho =>
    have hbase : o.parent (leader calcDelay t labels (labels (i - 1))) = none :=
      modifiedDijkstra_parent_of_ne ho hpos.ne' fun y _ _ => hidx y
    split at hr
    next => cases hr
    next a ha =>
      rw [← Except.ok.inj hr]
      exact foldlM_invariant (fun a => a.parent (leader calcDelay t labels (labels (i - 1))) = none)
        (fun j _ b b' hb hstep => (findPathInCluster_leader calcDelay h hk hstep).trans hb) hbase ha

theorem not_spanning_of_origin (hd : IsDelay calcDelay) (h : Labelling t labels nClusters) {i : ℕ}
    (hi0 : 0 < i) (hin : i < t.n) (hrow : t.row i = t.row 0) :
    ¬ ∃ r, buildTree calcDelay (t.row 0) t labels nClusters maxChild none = .ok r ∧
      SpanningTree t.n maxChild r.2.parent := by
  rintro ⟨r, hr, htree⟩
  have hk := h.lt (i - 1) (by omega)
  obtain ⟨hpos, hlt, -⟩ := mem_members.1 (leader_mem calcDelay h hk)
  have hnone := buildTree_leader_none calcDelay hd h hi0 hin hrow hr
  rcases Relation.ReflTransGen.cases_head (htree.leads _ hlt) with hzero | ⟨b, hb, -⟩
  · omega
  · rw [hnone] at hb
    cases hb

end Origin

end Mp2bs.Overlay
