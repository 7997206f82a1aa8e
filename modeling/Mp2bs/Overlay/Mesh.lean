import Mathlib.Data.List.GetD
import Mathlib.Data.List.Sort
import Mathlib.Data.Rat.Lemmas
import Mathlib.Algebra.Order.Ring.Rat
import Mathlib.Algebra.Field.Rat
import Mp2bs.Overlay.Search

/-!
# The mesh links

`build_mesh` with its helpers (src/ver_v4/omtree_mesh_ndim_v2.py:426-468, 700-742). In the order of
their second largest cluster probability the nodes are linked with the nearest node of their second
cluster. A node has one slot for a link, and a new link is written over an old one.

An entry `-1` is `none`. `best_prob.argsort()` sorts the at most ten clusters by insertion. The final
check of the minimum, which only prints, is left out.
-/

namespace Mp2bs.Overlay

/-- The arguments of `build_mesh` with the globals `idxIndata` and `MAX_M`. Row `i` of `prob` belongs to
node `i + 1`; `members k` is `idxIndata[k+1]`. -/
structure MeshInput (α P : Type) where
  data : ℕ → P
  n : ℕ
  prob : ℕ → ℕ → α
  nClusters : ℕ
  members : ℕ → List ℕ
  parent : ℕ → Option ℕ
  maxM : ℕ

structure Mesh (α : Type) where
  secondLargestProb : List α
  meshNum : ℕ → ℕ
  meshDstCluster : ℕ → ℕ → Option ℕ
  meshConn : ℕ → Option ℕ

section Definitions
variable {α P : Type} [Field α] [LinearOrder α]

/-- Row `i` of `best_prob.argsort()`. -/
def MeshInput.argsort (x : MeshInput α P) (i : ℕ) : List ℕ :=
  (List.range x.nClusters).insertionSort fun a b => x.prob i a ≤ x.prob i b

def MeshInput.clusterIdx (x : MeshInput α P) (i : ℕ) : ℕ := (x.argsort (i - 1)).getD (x.nClusters - 1) 0

def MeshInput.secondClusterIdx (x : MeshInput α P) (i : ℕ) : ℕ :=
  (x.argsort (i - 1)).getD (x.nClusters - 2) 0

/-- `find_nearestIncluster` (426-435): node 0 if no member is nearer than
9999. -/
def findNearestIncluster (calcDelayIdx : P → P → α) (x : MeshInput α P) (src inclusterIdx : ℕ) : ℕ :=
  ((x.members inclusterIdx).foldl
    (fun (acc : α × ℕ) dst =>
      if calcDelayIdx (x.data src) (x.data dst) < acc.1 then (calcDelayIdx (x.data src) (x.data dst), dst)
      else acc)
    (9999, 0)).2

/-- `check_mesh_max` (437-445). -/
def checkMeshMax (x : MeshInput α P) (meshNum : ℕ → ℕ) : Bool :=
  !(List.range x.nClusters).all fun k => meshNum k == x.maxM

/-- `check_redundant_mesh` (458-462). -/
def checkRedundantMesh (x : MeshInput α P) (meshDstCluster : ℕ → ℕ → Option ℕ) (k l : ℕ) : Bool :=
  !((List.range x.maxM).any (fun m => meshDstCluster k m == some l) ||
    (List.range x.maxM).any fun m => meshDstCluster l m == some k)

/-- `is_connected` (464-468). -/
def isConnected (parent : ℕ → Option ℕ) (a b : ℕ) : Bool := parent a == some b || parent b == some a

/-- The conditions for a link of `candi` with `dst` (721). -/
def Mesh.Accepts (x : MeshInput α P) (s : Mesh α) (candi dst : ℕ) : Prop :=
  s.meshNum (x.clusterIdx candi) < x.maxM ∧ s.meshNum (x.secondClusterIdx candi) < x.maxM ∧
    isConnected x.parent candi dst = false ∧
    checkRedundantMesh x s.meshDstCluster (x.clusterIdx candi) (x.secondClusterIdx candi) = true

instance (x : MeshInput α P) (s : Mesh α) (candi dst : ℕ) : Decidable (s.Accepts x candi dst) :=
  inferInstanceAs (Decidable (_ ∧ _ ∧ _ ∧ _))

/-- The slot of row `k` that is written next. -/
def writeSlot (meshDstCluster : ℕ → ℕ → Option ℕ) (k m l : ℕ) : ℕ → ℕ → Option ℕ :=
  Function.update meshDstCluster k (Function.update (meshDstCluster k) m (some l))

/-- The statements for an accepted link (724-731); `k` and `l` are the two
clusters. -/
def Mesh.link (s : Mesh α) (candi dst k l : ℕ) : Mesh α :=
  let meshNum := Function.update s.meshNum k (s.meshNum k + 1)
  { s with
    meshDstCluster := writeSlot (writeSlot s.meshDstCluster k (s.meshNum k) l) l (s.meshNum l) k
    meshNum := Function.update meshNum l (meshNum l + 1)
    meshConn := Function.update (Function.update s.meshConn candi (some dst)) dst (some candi) }

/-- One turn of the `while` (714-734). -/
def Mesh.turn (calcDelayIdx : P → P → α) (x : MeshInput α P) (s : Mesh α) : Except Failure (Mesh α) :=
  match s.secondLargestProb.argmax id with
  | none => .error .valueError
  | some m =>
    let candi := s.secondLargestProb.idxOf m
    let dst := findNearestIncluster calcDelayIdx x candi (x.secondClusterIdx candi)
    if candi = 0 then .error .assertionError
    else
      let s' := if s.Accepts x candi dst then
          s.link candi dst (x.clusterIdx candi) (x.secondClusterIdx candi)
        else s
      .ok { s' with secondLargestProb := s'.secondLargestProb.set candi (-1) }

/-- The `while`, with `j` turns left. -/
def Mesh.loop (calcDelayIdx : P → P → α) (x : MeshInput α P) : ℕ → Mesh α → Except Failure (Mesh α)
  | 0, s => .ok s
  | j + 1, s =>
    if checkMeshMax x s.meshNum then do
      let s' ← s.turn calcDelayIdx x
      Mesh.loop calcDelayIdx x j s'
    else .ok s

/-- The variables before the `while` (701-712). -/
def Mesh.start (x : MeshInput α P) : Mesh α where
  secondLargestProb := -1 :: (List.range (x.n - 1)).map fun i => x.prob i (x.secondClusterIdx (i + 1))
  meshNum := fun _ => 0
  meshDstCluster := fun _ _ => none
  meshConn := fun _ => none

/-- `build_mesh` (700-742). -/
def buildMesh (calcDelayIdx : P → P → α) (x : MeshInput α P) : Except Failure (ℕ → Option ℕ) := do
  let s ← Mesh.loop calcDelayIdx x (x.n - 1) (Mesh.start x)
  return s.meshConn

end Definitions

/-! ## What the links should be -/

/-- Links in both directions, between different clusters and besides the tree, at most one for two
clusters and `MAX_M` for one. -/
structure MeshOk {α P : Type} (x : MeshInput α P) (conn : ℕ → Option ℕ) : Prop where
  symm : ∀ a b, conn a = some b → conn b = some a
  apart : ∀ a b, conn a = some b → ∀ k < x.nClusters, a ∈ x.members k → b ∉ x.members k
  tree : ∀ a b, conn a = some b → x.parent a ≠ some b ∧ x.parent b ≠ some a
  pair : ∀ k l, k < x.nClusters → l < x.nClusters → ∀ a b c d, conn a = some b → conn c = some d →
    a ∈ x.members k → b ∈ x.members l → c ∈ x.members k → d ∈ x.members l → a = c ∧ b = d
  count : ∀ k < x.nClusters,
    ((Finset.range x.n).filter fun a => a ∈ x.members k ∧ (conn a).isSome).card ≤ x.maxM

/-- The member lists are those of the most probable clusters. -/
structure MeshInput.Agree {α P : Type} [LinearOrder α] (x : MeshInput α P) : Prop where
  members_iff : ∀ k < x.nClusters, ∀ i, i ∈ x.members k ↔ 0 < i ∧ i < x.n ∧ x.clusterIdx i = k

section Turns
variable {α P : Type} [Field α] [LinearOrder α] (calcDelayIdx : P → P → α) (x : MeshInput α P)

/-- Before the turn: if its link is accepted, neither end has a link so far. -/
def Mesh.Free (s : Mesh α) : Prop :=
  ∀ m, s.secondLargestProb.argmax id = some m →
    s.Accepts x (s.secondLargestProb.idxOf m) (findNearestIncluster calcDelayIdx x
      (s.secondLargestProb.idxOf m) (x.secondClusterIdx (s.secondLargestProb.idxOf m))) →
    s.meshConn (s.secondLargestProb.idxOf m) = none ∧
      s.meshConn (findNearestIncluster calcDelayIdx x (s.secondLargestProb.idxOf m)
        (x.secondClusterIdx (s.secondLargestProb.idxOf m))) = none

/-- So before every turn of the loop. -/
def Mesh.Clean : ℕ → Mesh α → Prop
  | 0, _ => True
  | j + 1, s => checkMeshMax x s.meshNum = true →
      s.Free calcDelayIdx x ∧ ∀ s', s.turn calcDelayIdx x = .ok s' → Mesh.Clean j s'

end Turns

/-! ## Clusters of a node -/

section Clusters
variable {α P : Type} [LinearOrder α] {x : MeshInput α P}

theorem perm_argsort (x : MeshInput α P) (i : ℕ) : (x.argsort i).Perm (List.range x.nClusters) :=
  List.perm_insertionSort _ _

theorem getD_argsort_lt {i p : ℕ} (hp : p < x.nClusters) : (x.argsort i).getD p 0 < x.nClusters := by
  have hperm := perm_argsort x i
  have hlen : p < (x.argsort i).length := by
    rw [hperm.length_eq, List.length_range]
    exact hp
  rw [List.getD_eq_getElem _ _ hlen]
  exact List.mem_range.1 (hperm.mem_iff.1 (List.getElem_mem hlen))

theorem clusterIdx_ne_secondClusterIdx (h2 : 2 ≤ x.nClusters) (i : ℕ) :
    x.clusterIdx i ≠ x.secondClusterIdx i := by
  have hperm := perm_argsort x (i - 1)
  have hlen : (x.argsort (i - 1)).length = x.nClusters := by rw [hperm.length_eq, List.length_range]
  have hnodup : (x.argsort (i - 1)).Nodup := hperm.nodup_iff.2 List.nodup_range
  unfold MeshInput.clusterIdx MeshInput.secondClusterIdx
  rw [List.getD_eq_getElem _ _ (by omega), List.getD_eq_getElem _ _ (by omega)]
  intro heq
  have hidx := hnodup.getElem_inj_iff.1 heq
  omega

end Clusters

theorem findNearestIncluster_cases {α P : Type} [Field α] [LinearOrder α] (calcDelayIdx : P → P → α)
    (x : MeshInput α P) (src k : ℕ) :
    findNearestIncluster calcDelayIdx x src k = 0 ∨ findNearestIncluster calcDelayIdx x src k ∈ x.members k := by
  have hfold : ∀ (l : List ℕ) (acc : α × ℕ), (acc.2 = 0 ∨ acc.2 ∈ x.members k) → (∀ d ∈ l, d ∈ x.members k) →
      (l.foldl (fun (acc : α × ℕ) dst =>
          if calcDelayIdx (x.data src) (x.data dst) < acc.1 then (calcDelayIdx (x.data src) (x.data dst), dst)
          else acc) acc).2 = 0 ∨
        (l.foldl (fun (acc : α × ℕ) dst =>
          if calcDelayIdx (x.data src) (x.data dst) < acc.1 then (calcDelayIdx (x.data src) (x.data dst), dst)
          else acc) acc).2 ∈ x.members k := by
    intro l
    induction l with
    | nil => exact fun acc hacc _ => hacc
    | cons d l ih =>
      intro acc hacc hl
      rw [List.foldl_cons]
      refine ih _ ?_ fun e he => hl e (List.mem_cons_of_mem _ he)
      split
      · exact Or.inr (hl d (List.mem_cons_self ..))
      · exact hacc
  exact hfold _ _ (Or.inl rfl) fun _ hd => hd

/-! ## The links along the loop -/

namespace Mesh

section Link
variable {α P : Type}

variable {s : Mesh α} {c d k l a b : ℕ}

theorem link_meshConn (hne : c ≠ d) :
    (s.link c d k l).meshConn a = some b ↔
      (a = c ∧ b = d) ∨ (a = d ∧ b = c) ∨ (a ≠ c ∧ a ≠ d ∧ s.meshConn a = some b) := by
  by_cases had : a = d
  · subst had
    simp [link, Ne.symm hne, eq_comm]
  · by_cases hac : a = c
    · subst hac
      simp [link, hne, eq_comm]
    · simp [link, had, hac]

theorem link_meshNum (hkl : k ≠ l) (j : ℕ) :
    (s.link c d k l).meshNum j = if j = k ∨ j = l then s.meshNum j + 1 else s.meshNum j := by
  by_cases hl : j = l
  · subst hl
    simp [link, Ne.symm hkl]
  · by_cases hk : j = k
    · subst hk
      simp [link, hkl]
    · simp [link, hl, hk]

theorem link_meshDstCluster (hkl : k ≠ l) (j m : ℕ) :
    (s.link c d k l).meshDstCluster j m =
      if j = k ∧ m = s.meshNum k then some l
      else if j = l ∧ m = s.meshNum l then some k
      else s.meshDstCluster j m := by
  by_cases hl : j = l
  · subst hl
    have hjk : j ≠ k := Ne.symm hkl
    by_cases hm : m = s.meshNum j
    · simp [link, writeSlot, hjk, hm]
    · simp [link, writeSlot, hjk, hm]
  · by_cases hk : j = k
    · subst hk
      by_cases hm : m = s.meshNum j
      · simp [link, writeSlot, hl, hm]
      · simp [link, writeSlot, hl, hm]
    · simp [link, writeSlot, hl, hk]

theorem link_forall (hcd : c ≠ d) {Q : ℕ → ℕ → Prop} (hnew : Q c d) (hback : Q d c)
    (hold : ∀ a b, s.meshConn a = some b → Q a b) : ∀ a b, (s.link c d k l).meshConn a = some b → Q a b := by
  intro a b hab
  rcases (link_meshConn hcd).1 hab with ⟨rfl, rfl⟩ | ⟨rfl, rfl⟩ | ⟨-, -, hab⟩
  · exact hnew
  · exact hback
  · exact hold a b hab

theorem checkRedundantMesh_eq_true {x : MeshInput α P} {dst : ℕ → ℕ → Option ℕ}
    (h : checkRedundantMesh x dst k l = true) :
    (∀ m < x.maxM, dst k m ≠ some l) ∧ ∀ m < x.maxM, dst l m ≠ some k := by
  simpa [checkRedundantMesh] using h

theorem isConnected_eq_false {parent : ℕ → Option ℕ} (h : isConnected parent a b = false) :
    parent a ≠ some b ∧ parent b ≠ some a := by
  simpa [isConnected] using h

end Link

variable {α P : Type} [Field α] [LinearOrder α]

structure Linked (x : MeshInput α P) (s : Mesh α) : Prop where
  lt : ∀ a b, s.meshConn a = some b → a < x.n
  symm : ∀ a b, s.meshConn a = some b → s.meshConn b = some a
  apart : ∀ a b, s.meshConn a = some b → a ≠ 0 → b ≠ 0 → x.clusterIdx a ≠ x.clusterIdx b
  tree : ∀ a b, s.meshConn a = some b → x.parent a ≠ some b ∧ x.parent b ≠ some a
  recorded : ∀ a b, s.meshConn a = some b → a ≠ 0 → b ≠ 0 →
    ∃ m < x.maxM, s.meshDstCluster (x.clusterIdx a) m = some (x.clusterIdx b)
  pair : ∀ a b c d, s.meshConn a = some b → s.meshConn c = some d → a ≠ 0 → b ≠ 0 → c ≠ 0 → d ≠ 0 →
    x.clusterIdx a = x.clusterIdx c → x.clusterIdx b = x.clusterIdx d → a = c ∧ b = d
  count : ∀ k, ((Finset.range x.n).filter fun a => (a ≠ 0 ∧ x.clusterIdx a = k) ∧ (s.meshConn a).isSome).card ≤
    s.meshNum k
  num_le : ∀ k, s.meshNum k ≤ x.maxM
  slots : ∀ k m, s.meshNum k ≤ m → s.meshDstCluster k m = none

theorem Linked.start (x : MeshInput α P) : Linked x (Mesh.start x) :=
  ⟨by simp [Mesh.start], by simp [Mesh.start], by simp [Mesh.start], by simp [Mesh.start], by simp [Mesh.start],
    by simp [Mesh.start], by simp [Mesh.start], by simp [Mesh.start], by simp [Mesh.start]⟩

section NewLink
variable {x : MeshInput α P} {s : Mesh α} {c d : ℕ}

omit [Field α] in
theorem Linked.keeps_slot (h : Linked x s) (hkl : x.clusterIdx c ≠ x.secondClusterIdx c) {j m l : ℕ}
    (hjm : s.meshDstCluster j m = some l) :
    (s.link c d (x.clusterIdx c) (x.secondClusterIdx c)).meshDstCluster j m = some l := by
  have hlt : m < s.meshNum j := by
    by_contra hge
    rw [h.slots j m (by omega)] at hjm
    cases hjm
  rw [link_meshDstCluster hkl, if_neg, if_neg]
  · exact hjm
  · rintro ⟨rfl, rfl⟩
    omega
  · rintro ⟨rfl, rfl⟩
    omega

omit [Field α] in
theorem Linked.not_between (h : Linked x s) {k l : ℕ} (hred : ∀ m < x.maxM, s.meshDstCluster k m ≠ some l)
    {a b : ℕ} (hab : s.meshConn a = some b) (ha0 : a ≠ 0) (hb0 : b ≠ 0) (ha : x.clusterIdx a = k) :
    x.clusterIdx b ≠ l := by
  intro hb
  obtain ⟨m, hm, hrec⟩ := h.recorded a b hab ha0 hb0
  rw [ha, hb] at hrec
  exact hred m hm hrec

omit [Field α] in
theorem Linked.count_link (h : Linked x s) (hcd : c ≠ d) (hkl : x.clusterIdx c ≠ x.secondClusterIdx c)
    (hdl : d ≠ 0 → x.clusterIdx d = x.secondClusterIdx c) (j : ℕ) :
    ((Finset.range x.n).filter fun a => (a ≠ 0 ∧ x.clusterIdx a = j) ∧
        ((s.link c d (x.clusterIdx c) (x.secondClusterIdx c)).meshConn a).isSome).card ≤
      (s.link c d (x.clusterIdx c) (x.secondClusterIdx c)).meshNum j := by
  have hcases : ∀ a, ((a ≠ 0 ∧ x.clusterIdx a = j) ∧
      ((s.link c d (x.clusterIdx c) (x.secondClusterIdx c)).meshConn a).isSome) →
      (a = c ∧ j = x.clusterIdx c) ∨ (a = d ∧ j = x.secondClusterIdx c) ∨
        ((a ≠ 0 ∧ x.clusterIdx a = j) ∧ (s.meshConn a).isSome) := by
    rintro a ⟨⟨ha0, haj⟩, hsome⟩
    obtain ⟨b, hb⟩ := Option.isSome_iff_exists.1 hsome
    rcases (link_meshConn hcd).1 hb with ⟨rfl, -⟩ | ⟨rfl, -⟩ | ⟨-, -, hb⟩
    · exact Or.inl ⟨rfl, haj.symm⟩
    · exact Or.inr (Or.inl ⟨rfl, haj.symm.trans (hdl ha0)⟩)
    · exact Or.inr (Or.inr ⟨⟨ha0, haj⟩, by rw [hb]; rfl⟩)
  have hcount := h.count j
  rw [link_meshNum hkl]
  split
  next hj =>
    -- one end of the new link is in the cluster
    refine (Finset.card_le_card fun a ha => ?_).trans
      ((Finset.card_insert_le (if j = x.clusterIdx c then c else d) _).trans (Nat.succ_le_succ hcount))
    obtain ⟨han, ha⟩ := Finset.mem_filter.1 ha
    rcases hcases a ha with ⟨rfl, hj⟩ | ⟨rfl, hj⟩ | ha
    · rw [if_pos hj]
      exact Finset.mem_insert_self ..
    · rw [if_neg (hj ▸ hkl.symm)]
      exact Finset.mem_insert_self ..
    · exact Finset.mem_insert_of_mem (Finset.mem_filter.2 ⟨han, ha⟩)
  next hj =>
    refine (Finset.card_le_card fun a ha => ?_).trans hcount
    obtain ⟨han, ha⟩ := Finset.mem_filter.1 ha
    rcases hcases a ha with ⟨-, he⟩ | ⟨-, he⟩ | ha
    · exact absurd (Or.inl he) hj
    · exact absurd (Or.inr he) hj
    · exact Finset.mem_filter.2 ⟨han, ha⟩

omit [Field α] in
theorem Linked.link (h : Linked x s) (hc0 : c ≠ 0) (hc : c < x.n)
    (hd : d = 0 ∨ d < x.n ∧ x.clusterIdx d = x.secondClusterIdx c)
    (hkl : x.clusterIdx c ≠ x.secondClusterIdx c) (hacc : s.Accepts x c d)
    (hfc : s.meshConn c = none) (hfd : s.meshConn d = none) :
    Linked x (s.link c d (x.clusterIdx c) (x.secondClusterIdx c)) := by
  obtain ⟨hnumk, hnuml, htree, hred⟩ := hacc
  obtain ⟨htree, htree'⟩ := isConnected_eq_false htree
  obtain ⟨hredk, hredl⟩ := checkRedundantMesh_eq_true hred
  have hcd : c ≠ d := by
    rintro rfl
    rcases hd with hd | ⟨-, hd⟩
    · exact hc0 hd
    · exact hkl hd
  have hdn : d < x.n := by
    rcases hd with rfl | ⟨hd, -⟩
    · omega
    · exact hd
  have hdl : d ≠ 0 → x.clusterIdx d = x.secondClusterIdx c := fun h0 => (hd.resolve_left h0).2
  have hfree : ∀ {a b}, s.meshConn a = some b → a ≠ c ∧ a ≠ d := by
    intro a b hab
    constructor
    · rintro rfl
      cases hfc.symm.trans hab
    · rintro rfl
      cases hfd.symm.trans hab
  have hpair : ∀ a b, (s.link c d (x.clusterIdx c) (x.secondClusterIdx c)).meshConn a = some b →
      ∀ a' b', (s.link c d (x.clusterIdx c) (x.secondClusterIdx c)).meshConn a' = some b' →
        a ≠ 0 → b ≠ 0 → a' ≠ 0 → b' ≠ 0 → x.clusterIdx a = x.clusterIdx a' →
        x.clusterIdx b = x.clusterIdx b' → a = a' ∧ b = b' := by
    refine link_forall hcd (link_forall hcd ?_ ?_ ?_) (link_forall hcd ?_ ?_ ?_) fun a b hab =>
      link_forall hcd ?_ ?_ fun a' b' hab' => h.pair a b a' b' hab hab'
    · exact fun _ _ _ _ _ _ => ⟨rfl, rfl⟩
    · exact fun _ h0 _ _ hka _ => absurd (hka.trans (hdl h0)) hkl
    · exact fun a' b' hab' _ h0 ha0' hb0' hka hkb =>
        absurd (hkb.symm.trans (hdl h0)) (h.not_between hredk hab' ha0' hb0' hka.symm)
    · exact fun h0 _ _ _ hka _ => absurd (hka.symm.trans (hdl h0)) hkl
    · exact fun _ _ _ _ _ _ => ⟨rfl, rfl⟩
    · exact fun a' b' hab' h0 _ ha0' hb0' hka hkb =>
        absurd hkb.symm (h.not_between hredl hab' ha0' hb0' (hka.symm.trans (hdl h0)))
    · exact fun ha0 hb0 _ h0 hka hkb => absurd (hkb.trans (hdl h0)) (h.not_between hredk hab ha0 hb0 hka)
    · exact fun ha0 hb0 h0 _ hka hkb => absurd hkb (h.not_between hredl hab ha0 hb0 (hka.trans (hdl h0)))
  refine ⟨?_, ?_, ?_, ?_, ?_, ?_, h.count_link hcd hkl hdl, ?_, ?_⟩
  · exact link_forall hcd hc hdn h.lt
  · refine link_forall hcd ((link_meshConn hcd).2 (.inr (.inl ⟨rfl, rfl⟩)))
      ((link_meshConn hcd).2 (.inl ⟨rfl, rfl⟩)) fun a b hab => ?_
    have hba := h.symm a b hab
    exact (link_meshConn hcd).2 (.inr (.inr ⟨(hfree hba).1, (hfree hba).2, hba⟩))
  · exact link_forall hcd (fun _ h0 => (hdl h0).symm ▸ hkl) (fun h0 _ => (hdl h0).symm ▸ hkl.symm) h.apart
  · exact link_forall hcd ⟨htree, htree'⟩ ⟨htree', htree⟩ h.tree
  · refine link_forall hcd (fun _ h0 => ⟨_, hnumk, ?_⟩) (fun h0 _ => ⟨_, hnuml, ?_⟩) fun a b hab ha0 hb0 => ?_
    · rw [link_meshDstCluster hkl, if_pos ⟨rfl, rfl⟩, hdl h0]
    · rw [hdl h0, link_meshDstCluster hkl, if_neg fun he => hkl he.1.symm, if_pos ⟨rfl, rfl⟩]
    · obtain ⟨m, hm, hrec⟩ := h.recorded a b hab ha0 hb0
      exact ⟨m, hm, h.keeps_slot hkl hrec⟩
  · exact fun a b a' b' hab hab' => hpair a b hab a' b' hab'
  · intro j
    have hj := h.num_le j
    rw [link_meshNum hkl]
    split
    next hor =>
      rcases hor with rfl | rfl
      · omega
      · omega
    next => exact hj
  · intro j m hm
    rw [link_meshNum hkl] at hm
    rw [link_meshDstCluster hkl]
    split
    next he =>
      obtain ⟨rfl, rfl⟩ := he
      simp at hm
    next =>
      split
      next he =>
        obtain ⟨rfl, rfl⟩ := he
        simp at hm
      next =>
        refine h.slots j m ?_
        split at hm
        · omega
        · exact hm

end NewLink

/-! ## The order of the candidates -/

structure Queued (x : MeshInput α P) (j : ℕ) (s : Mesh α) : Prop where
  length : s.secondLargestProb.length = x.n - 1 + 1
  zero : s.secondLargestProb[0]? = some (-1 : α)
  left : j ≤ s.secondLargestProb.countP fun p => 0 ≤ p

variable {x : MeshInput α P} {j : ℕ} {s : Mesh α}

theorem Queued.start [IsStrictOrderedRing α] (hprob : ∀ i k, 0 ≤ x.prob i k) :
    Queued x (x.n - 1) (Mesh.start x) := by
  refine ⟨by simp [Mesh.start], rfl, ?_⟩
  have hall : ((List.range (x.n - 1)).map fun i => x.prob i (x.secondClusterIdx (i + 1))).countP
      (fun p => decide (0 ≤ p)) = x.n - 1 := by
    rw [List.countP_eq_length.2]
    · simp
    · intro p hp
      obtain ⟨i, -, rfl⟩ := List.mem_map.1 hp
      simpa using hprob i _
  have hneg : ¬ (0 : α) ≤ -1 := by simp
  simp only [Mesh.start, List.countP_cons, hall, hneg]
  omega

theorem Queued.candidate [IsStrictOrderedRing α] (h : Queued x (j + 1) s) :
    ∃ m, s.secondLargestProb.argmax id = some m ∧
      s.secondLargestProb.idxOf m ≠ 0 ∧ s.secondLargestProb.idxOf m < x.n ∧
      Queued x j { s with secondLargestProb := s.secondLargestProb.set (s.secondLargestProb.idxOf m) (-1) } := by
  have hpos : 0 < s.secondLargestProb.countP fun p => 0 ≤ p := Nat.lt_of_lt_of_le (Nat.succ_pos j) h.left
  obtain ⟨p, hp, hp0⟩ := List.countP_pos_iff.1 hpos
  cases hmax : s.secondLargestProb.argmax id with
  | none =>
    rw [List.argmax_eq_none.1 hmax] at hp
    cases hp
  | some m =>
    have hm : m ∈ s.secondLargestProb := List.argmax_mem hmax
    have hm0 : 0 ≤ m := (of_decide_eq_true hp0).trans (List.le_of_mem_argmax hp hmax)
    have hlt := List.idxOf_lt_length_of_mem hm
    have hget : s.secondLargestProb[s.secondLargestProb.idxOf m] = m := List.getElem_idxOf hlt
    have hne : s.secondLargestProb.idxOf m ≠ 0 := by
      intro hzero
      have hz := h.zero
      rw [List.getElem?_eq_getElem (by omega)] at hz
      simp only [hzero] at hget
      rw [hget, Option.some.injEq] at hz
      rw [hz] at hm0
      exact absurd hm0 (by simp)
    have hlen := h.length
    refine ⟨m, rfl, hne, by omega, ?_, ?_, ?_⟩
    · simpa using hlen
    · simp only [List.getElem?_set]
      rw [if_neg hne]
      exact h.zero
    · have hleft := h.left
      have hneg : ¬ (0 : α) ≤ -1 := by simp
      simp only [List.countP_set hlt, hget, hm0, hneg]
      simp
      omega

omit [Field α] in
theorem Linked.setProb (h : Linked x s) (l : List α) : Linked x { s with secondLargestProb := l } :=
  ⟨h.lt, h.symm, h.apart, h.tree, h.recorded, h.pair, h.count, h.num_le, h.slots⟩

theorem turn_ok [IsStrictOrderedRing α] (calcDelayIdx : P → P → α) (h2 : 2 ≤ x.nClusters) (hagree : x.Agree)
    (hs : Linked x s) (hq : Queued x (j + 1) s) (hfree : s.Free calcDelayIdx x) :
    ∃ s', s.turn calcDelayIdx x = .ok s' ∧ Linked x s' ∧ Queued x j s' := by
  obtain ⟨m, hmax, hne, hlt, hq'⟩ := hq.candidate
  have hfree' := hfree m hmax
  generalize hc : s.secondLargestProb.idxOf m = c at hne hlt hq' hfree'
  generalize hd : findNearestIncluster calcDelayIdx x c (x.secondClusterIdx c) = d at hfree'
  have hsecond : x.secondClusterIdx c < x.nClusters := getD_argsort_lt (by omega)
  have hdst : d = 0 ∨ d < x.n ∧ x.clusterIdx d = x.secondClusterIdx c := by
    rcases findNearestIncluster_cases calcDelayIdx x c (x.secondClusterIdx c) with hzero | hmem
    · exact Or.inl (hd ▸ hzero)
    · rw [hd] at hmem
      exact Or.inr ((hagree.members_iff _ hsecond d).1 hmem).2
  simp only [turn, hmax, hc, hd, hne, if_false]
  by_cases hacc : s.Accepts x c d
  · obtain ⟨hfc, hfd⟩ := hfree' hacc
    have hlinked := hs.link hne hlt hdst (clusterIdx_ne_secondClusterIdx h2 c) hacc hfc hfd
    simp only [hacc, if_true]
    exact ⟨_, rfl, hlinked.setProb _, hq'.length, hq'.zero, hq'.left⟩
  · simp only [hacc, if_false]
    exact ⟨_, rfl, hs.setProb _, hq'⟩

theorem loop_ok [IsStrictOrderedRing α] (calcDelayIdx : P → P → α) (h2 : 2 ≤ x.nClusters) (hagree : x.Agree)
    (hs : Linked x s) (hq : Queued x j s) (hclean : Clean calcDelayIdx x j s) :
    ∃ s', loop calcDelayIdx x j s = .ok s' ∧ Linked x s' := by
  induction j generalizing s with
  | zero => exact ⟨s, rfl, hs⟩
  | succ j ih =>
    unfold loop
    split
    next hcheck =>
      obtain ⟨hfree, hnext⟩ := hclean hcheck
      obtain ⟨s', hturn, hs', hq'⟩ := turn_ok calcDelayIdx h2 hagree hs hq hfree
      rw [hturn]
      exact ih hs' hq' (hnext s' hturn)
    next => exact ⟨s, rfl, hs⟩

omit [Field α] in
theorem Linked.meshOk (hagree : x.Agree) (h : Linked x s) : MeshOk x s.meshConn := by
  refine ⟨h.symm, ?_, h.tree, ?_, ?_⟩
  · intro a b hab k hk ha hb
    obtain ⟨ha0, -, hka⟩ := (hagree.members_iff k hk a).1 ha
    obtain ⟨hb0, -, hkb⟩ := (hagree.members_iff k hk b).1 hb
    exact h.apart a b hab ha0.ne' hb0.ne' (hka.trans hkb.symm)
  · intro k l hk hl a b c d hab hcd ha hb hc hd
    obtain ⟨ha0, -, hka⟩ := (hagree.members_iff k hk a).1 ha
    obtain ⟨hb0, -, hkb⟩ := (hagree.members_iff l hl b).1 hb
    obtain ⟨hc0, -, hkc⟩ := (hagree.members_iff k hk c).1 hc
    obtain ⟨hd0, -, hkd⟩ := (hagree.members_iff l hl d).1 hd
    exact h.pair a b c d hab hcd ha0.ne' hb0.ne' hc0.ne' hd0.ne' (hka.trans hkc.symm) (hkb.trans hkd.symm)
  · intro k hk
    refine (Finset.card_le_card fun a ha => ?_).trans ((h.count k).trans (h.num_le k))
    obtain ⟨han, hmem, hsome⟩ := Finset.mem_filter.1 ha
    obtain ⟨ha0, -, hka⟩ := (hagree.members_iff k hk a).1 hmem
    exact Finset.mem_filter.2 ⟨han, ⟨ha0.ne', hka⟩, hsome⟩

end Mesh

theorem agree_of_lt {α P : Type} [LinearOrder α] {x : MeshInput α P}
    (hlt : ∀ k < x.nClusters, ∀ i ∈ x.members k, i < x.n)
    (h : ∀ k < x.nClusters, ∀ i < x.n, i ∈ x.members k ↔ 0 < i ∧ x.clusterIdx i = k) : x.Agree where
  members_iff k hk i := by
    constructor
    · intro hi
      obtain ⟨h0, hki⟩ := (h k hk i (hlt k hk i hi)).1 hi
      exact ⟨h0, hlt k hk i hi, hki⟩
    · rintro ⟨h0, hi, hki⟩
      exact (h k hk i hi).2 ⟨h0, hki⟩

def twoClusters : MeshInput ℚ ℚ where
  data := fun i => i
  n := 3
  prob := fun i k => if i = k then 3 / 4 else 1 / 4
  nClusters := 2
  members := fun k => [k + 1]
  parent := fun _ => some 0
  maxM := 1

def threeClusters : MeshInput ℚ ℚ where
  data := fun i => i
  n := 4
  prob := fun i k => ([[6 / 10, 1 / 10, 3 / 10], [1 / 10, 6 / 10, 3 / 10], [1 / 10, 2 / 10, 7 / 10]].getD i []).getD k 0
  nClusters := 3
  members := fun k => [k + 1]
  parent := fun _ => some 0
  maxM := 2

end Mp2bs.Overlay
