import Mathlib.Algebra.Order.Field.Basic
import Mathlib.Algebra.Order.Monoid.WithTop
import Mathlib.Algebra.BigOperators.Group.Finset.Basic
import Mathlib.Algebra.Order.BigOperators.Group.Finset
import Mathlib.Data.Prod.Lex
import Mp2bs.Lib.SearchTree

/-!
# The budgeted searches of the overlay tree

`dijkstra` and `modified_dijkstra` (src/ver_v4/omtree_mesh_ndim_v2.py:166-220, 245-326). Both run
Dijkstra's algorithm over a dense graph, charge every assignment of a predecessor to the `child` count
of the node it comes from, and assign no more once that count has reached a limit. `modified_dijkstra`
may enter the next node with the distance of another leader, so that an entry can also grow.

Distances are elements of an ordered field and `inf` is `⊤`. A node of the graph is its key; `idx` is
the row `idxIndata[cluster_num]`, the node's index in the table of all nodes. The fields `taken` and
`late` are not in the source: they record the order of expansion, and whether a node got a predecessor
after its own. `S` of `dijkstra`, which is only written, is left out.
-/

namespace Mp2bs.Overlay
open Mp2bs.Lib

/-- How a call of the script ends without a result. -/
inductive Failure
  | indexError
  | keyError
  | valueError
  | unboundLocalError
  | assertionError
  | noReturn
  deriving DecidableEq, Repr

/-- A graph of `create_graph`: a dictionary of dictionaries over the keys `0 … size - 1`, whose inner
keys are in increasing order. -/
structure Graph (α : Type*) where
  size : ℕ
  edge : ℕ → ℕ → Bool
  cost : ℕ → ℕ → α

def Graph.items {α : Type*} (g : Graph α) (i : ℕ) : List (ℕ × α) :=
  ((List.range g.size).filter (g.edge i)).map fun j => (j, g.cost i j)

theorem Graph.mem_items {α : Type*} {g : Graph α} {i : ℕ} {e : ℕ × α} :
    e ∈ g.items i ↔ e.1 < g.size ∧ g.edge i e.1 = true ∧ e.2 = g.cost i e.1 := by
  obtain ⟨j, w⟩ := e
  simp only [Graph.items, List.mem_map, List.mem_filter, List.mem_range, Prod.mk.injEq]
  constructor
  · rintro ⟨j', ⟨hj, he⟩, rfl, rfl⟩
    exact ⟨hj, he, rfl⟩
  · rintro ⟨hj, he, rfl⟩
    exact ⟨j, ⟨hj, he⟩, rfl, rfl⟩

/-- The local variables of the two searches and the array `child`. -/
structure Search (α : Type*) where
  distance : ℕ → WithTop α × ℕ
  queue : List (α ×ₗ ℕ)
  child : ℕ → ℕ
  S : List ℕ
  taken : List ℕ
  late : Bool

section Definitions
variable {α : Type*} [Field α] [LinearOrder α]

/-- The state before the `while` (170-176, 262-269). -/
def Search.start (first : ℕ) (child : ℕ → ℕ) : Search α where
  distance := Function.update (fun _ => (⊤, first)) first (0, first)
  queue := [toLex (0, first)]
  child := child
  S := [0]
  taken := []
  late := false

/-- The four statements that enter a node (190-193, 290-293, 298-301). -/
def Search.assign (idx : ℕ → ℕ) (current : ℕ) (total : α) (next : ℕ) (s : Search α) : Search α where
  distance := Function.update s.distance next (total, current)
  queue := toLex (total, next) :: s.queue
  child := Function.update s.child (idx current) (s.child (idx current) + 1)
  S := s.S ++ [next]
  taken := s.taken
  late := s.late || decide (next ∈ s.taken)

/-- The body of the `for` of `dijkstra` (185-193). -/
def Search.relax (idx : ℕ → ℕ) (maxChild current : ℕ) (currentDistance : α) (s : Search α)
    (e : ℕ × α) : Search α :=
  if ((currentDistance + e.2 : α) : WithTop α) < (s.distance e.1).1 ∧ s.child (idx current) < maxChild then
    s.assign idx current (currentDistance + e.2) e.1
  else s

/-- `get_cost` (245-249). -/
def getCost (g : Graph α) (a b : ℕ) : α := if a < b then g.cost a b else g.cost b a

/-- `cluster_size[j-1]`, which is the last entry for `j = 0`. -/
def sizeBefore (clusterSize : List ℕ) (j : ℕ) : ℕ :=
  if j = 0 then clusterSize.getLastD 0 else clusterSize.getD (j - 1) 0

/-- The comparison of the two orders `first → next → k` and `first → k → next`
(256). -/
def Better (g : Graph α) (clusterSize : List ℕ) (first next k : ℕ) : Prop :=
  (sizeBefore clusterSize next : α) * getCost g first next +
      (sizeBefore clusterSize k : α) * (getCost g first next + getCost g next k) >
    (sizeBefore clusterSize k : α) * getCost g first k +
      (sizeBefore clusterSize next : α) * (getCost g first k + getCost g k next)

instance (g : Graph α) (clusterSize : List ℕ) (first next k : ℕ) :
    Decidable (Better g clusterSize first next k) :=
  inferInstanceAs (Decidable (_ > _))

/-- `get_better_node` (251-259). -/
def getBetterNode (g : Graph α) (clusterSize : List ℕ) (first next : ℕ) (S : List ℕ) : ℕ :=
  (List.range' 1 (g.size - 1)).foldl
    (fun new k => if k ≠ next ∧ k ∉ S ∧ Better g clusterSize first next k then k else new) next

/-- The body of the `for` of `modified_dijkstra` (277-301). -/
def Search.relaxLeader (g : Graph α) (clusterSize : List ℕ) (first : ℕ) (idx : ℕ → ℕ)
    (maxChild current : ℕ) (currentDistance : α) (s : Search α) (e : ℕ × α) : Search α :=
  if ((currentDistance + e.2 : α) : WithTop α) < (s.distance e.1).1 ∧
      s.child (idx current) < maxChild - min current 1 then
    let new := getBetterNode g clusterSize first e.1 s.S
    if new ≠ e.1 then
      let total := currentDistance + getCost g current new
      let s' := s.assign idx current total new
      if s'.child (idx current) < maxChild - min current 1 then s'.assign idx current total e.1 else s'
    else s.assign idx current (currentDistance + e.2) e.1
  else s

def Search.take (current : ℕ) (queue : List (α ×ₗ ℕ)) (s : Search α) : Search α :=
  { s with queue := queue, taken := takeNode current s.taken }

/-- One turn of the `while` (178-193, 271-301). -/
def Search.turn (body : ℕ → α → Search α → ℕ × α → Search α) (g : Graph α) (s : Search α) : Search α :=
  match heappop s.queue with
  | none => s
  | some (e, queue) =>
    if (s.distance (ofLex e).2).1 < ((ofLex e).1 : WithTop α) then { s with queue := queue }
    else (g.items (ofLex e).2).foldl (body (ofLex e).2 (ofLex e).1) (s.take (ofLex e).2 queue)

/-- The `while` of `dijkstra`. As many turns are enough, see `queue_dijkstraLoop`. -/
def dijkstraLoop (g : Graph α) (idx child : ℕ → ℕ) (first maxChild : ℕ) : Search α :=
  (Search.turn (Search.relax idx maxChild) g)^[1 + g.size * maxChild] (Search.start first child)

/-- The `while` of `modified_dijkstra`. As many turns are enough, see `queue_leaderLoop`. -/
def leaderLoop (g : Graph α) (clusterSize : List ℕ) (idx child : ℕ → ℕ) (first maxChild : ℕ) : Search α :=
  (Search.turn (Search.relaxLeader g clusterSize first idx maxChild) g)^[1 + g.size * maxChild]
    (Search.start first child)

/-- Whether the path of the inner `while` (210-215, 315-320) comes to a node
whose predecessor is `first` in at most so many turns. -/
def pathEnds (via : ℕ → ℕ) (first : ℕ) : ℕ → ℕ → Bool
  | 0, path => via path == first
  | n + 1, path => via path == first || pathEnds via first n (via path)

/-- The assignments to `parent` behind the search: `value last` is what is written for `last`. -/
def writeParents (idx : ℕ → ℕ) (first size : ℕ) (value : ℕ → Option ℕ) (parent : ℕ → Option ℕ) :
    ℕ → Option ℕ :=
  (List.range size).foldl
    (fun parent last =>
      if last ≠ first ∧ parent (idx last) = none ∧ (value last).isSome then
        Function.update parent (idx last) (value last)
      else parent)
    parent

/-- What a search returns and leaves in the arrays that it is given. An entry `-1` of `parent` is
`none`. -/
structure Outcome (α : Type*) where
  distance : ℕ → WithTop α × ℕ
  parent : ℕ → Option ℕ
  child : ℕ → ℕ

/-- The part of both functions behind the `while`. A path that does not come to `first` within `size`
turns visits a node twice and never ends. -/
def Search.finish (s : Search α) (idx : ℕ → ℕ) (first size : ℕ) (value : ℕ → Option ℕ)
    (parent : ℕ → Option ℕ) : Except Failure (Outcome α) :=
  if size ≤ first then .error .keyError
  else if ∀ last < size, last ≠ first → pathEnds (fun y => (s.distance y).2) first size last = true then
    .ok ⟨s.distance, writeParents idx first size value parent, s.child⟩
  else .error .noReturn

/-- `dijkstra` (166-220). -/
def dijkstra (parent : ℕ → Option ℕ) (g : Graph α) (idx child : ℕ → ℕ) (first maxChild : ℕ) :
    Except Failure (Outcome α) :=
  let s := dijkstraLoop g idx child first maxChild
  s.finish idx first g.size
    (fun last => if (s.distance last).1 ≠ ⊤ then some (idx (s.distance last).2) else none) parent

/-- `modified_dijkstra` (261-326). -/
def modifiedDijkstra (parent : ℕ → Option ℕ) (g : Graph α) (idx child : ℕ → ℕ) (first : ℕ)
    (clusterSize : List ℕ) (clusterNum maxChild : ℕ) : Except Failure (Outcome α) :=
  let s := leaderLoop g clusterSize idx child first maxChild
  s.finish idx first g.size
    (fun last =>
      if (s.distance last).2 = 0 ∧ clusterNum = 0 then some 0 else some (idx (s.distance last).2))
    (Function.update parent 0 (some 0))

end Definitions

/-! ## What both searches keep -/

namespace Search

section Reached
variable {α : Type*} [LinearOrder α]

def pred (first : ℕ) (s : Search α) (y : ℕ) : Option ℕ :=
  if y = first ∨ (s.distance y).1 = ⊤ then none else some (s.distance y).2

variable {first y : ℕ} {s : Search α}

theorem pred_isSome : (s.pred first y).isSome ↔ y ≠ first ∧ (s.distance y).1 ≠ ⊤ := by
  unfold pred
  split
  next h => simpa [imp_iff_not_or] using h
  next h => simpa using not_or.1 h

theorem pred_eq_some {x : ℕ} (h : s.pred first y = some x) : (s.distance y).2 = x := by
  unfold pred at h
  split at h
  · cases h
  · exact Option.some.inj h

theorem pred_assign {idx : ℕ → ℕ} {current next : ℕ} {total : α} (hf : next ≠ first) :
    (s.assign idx current total next).pred first =
      Function.update (s.pred first) next (some current) := by
  funext y
  by_cases hy : y = next
  · subst hy
    simp [pred, assign, hf]
  · simp [pred, assign, hy]

end Reached

section Extends
variable {α : Type*}

def potential (n : ℕ) (idx bound : ℕ → ℕ) (s : Search α) : ℕ :=
  s.queue.length + ∑ x ∈ Finset.range n, (bound x - s.child (idx x))

structure Extends (n : ℕ) (idx bound : ℕ → ℕ) (s t : Search α) : Prop where
  taken : t.taken = s.taken
  reached : ∀ y, (s.distance y).1 ≠ ⊤ → (t.distance y).1 ≠ ⊤
  child : ∀ i, s.child i ≤ t.child i
  potential : t.potential n idx bound ≤ s.potential n idx bound

variable {n : ℕ} {idx bound : ℕ → ℕ} {s t : Search α}

theorem Extends.refl (s : Search α) : Extends n idx bound s s :=
  ⟨rfl, fun _ h => h, fun _ => le_rfl, le_rfl⟩

theorem Extends.trans {u : Search α} (h : Extends n idx bound s t) (h' : Extends n idx bound t u) :
    Extends n idx bound s u :=
  ⟨h'.taken.trans h.taken, fun y hy => h'.reached y (h.reached y hy),
    fun i => (h.child i).trans (h'.child i), h'.potential.trans h.potential⟩

theorem child_le_assign (idx : ℕ → ℕ) (current : ℕ) (total : α) (next : ℕ) (s : Search α) (i : ℕ) :
    s.child i ≤ (s.assign idx current total next).child i := by
  by_cases hi : i = idx current
  · subst hi
    simp [assign]
  · simp [assign, hi]

theorem Extends.assign {current next : ℕ} {total : α} (hc : current < n)
    (hb : s.child (idx current) < bound current) :
    Extends n idx bound s (s.assign idx current total next) where
  taken := rfl
  reached := by
    intro y hy
    by_cases hyn : y = next
    · simp [Search.assign, hyn]
    · simpa [Search.assign, hyn] using hy
  child := child_le_assign idx current total next s
  potential := by
    have hsum : ∑ x ∈ Finset.range n, (bound x - (s.assign idx current total next).child (idx x)) <
        ∑ x ∈ Finset.range n, (bound x - s.child (idx x)) := by
      refine Finset.sum_lt_sum (fun x _ => ?_) ⟨current, Finset.mem_range.2 hc, ?_⟩
      · have hle := child_le_assign idx current total next s (idx x)
        omega
      · have hnew : (s.assign idx current total next).child (idx current) = s.child (idx current) + 1 := by
          simp [Search.assign]
        omega
    have hlen : (s.assign idx current total next).queue.length = s.queue.length + 1 := rfl
    unfold Search.potential
    omega

def Spent (n : ℕ) (idx bound : ℕ → ℕ) (s : Search α) (x : ℕ) : Prop :=
  (∀ y < n, (s.distance y).1 ≠ ⊤) ∨ bound x ≤ s.child (idx x)

theorem Spent.mono {x : ℕ} (h : Extends n idx bound s t) (hs : s.Spent n idx bound x) : t.Spent n idx bound x :=
  hs.imp (fun hall y hy => h.reached y (hall y hy)) fun hb => hb.trans (h.child (idx x))

end Extends

theorem potential_pop {α : Type*} [LinearOrder α] (n : ℕ) (idx bound : ℕ → ℕ) {s : Search α} (t : Search α)
    {e : α ×ₗ ℕ} {queue : List (α ×ₗ ℕ)} (hpop : heappop s.queue = some (e, queue)) (hq : t.queue = queue)
    (hc : t.child = s.child) : t.potential n idx bound + 1 = s.potential n idx bound := by
  have hlen := length_heappop hpop
  unfold potential
  rw [hq, hc]
  omega

variable {n first size i : ℕ} {idx child₀ bound : ℕ → ℕ} {value parent : ℕ → Option ℕ}

theorem potential_start_le {α : Type*} [Field α] {maxChild : ℕ} (h : ∀ x, bound x ≤ maxChild) :
    (Search.start (α := α) first child₀).potential n idx bound ≤ 1 + n * maxChild := by
  have hsum : ∑ x ∈ Finset.range n, (bound x - child₀ (idx x)) ≤ n * maxChild := by
    have hle := Finset.sum_le_card_nsmul (Finset.range n) (fun x => bound x - child₀ (idx x)) maxChild
      fun x _ => (Nat.sub_le _ _).trans (h x)
    simpa using hle
  exact Nat.add_le_add_left hsum 1

variable {α : Type*} [Field α] [LinearOrder α]

/-- The invariant of a search over the nodes below `n` that started at `first` with the counts
`child₀`, where `bound` is the limit for each node. -/
structure Sound (n first : ℕ) (idx child₀ bound : ℕ → ℕ) (s : Search α) : Prop where
  first_distance : s.distance first = (0, first)
  outside : ∀ y, n ≤ y → (s.distance y).1 = ⊤
  queued : ∀ e ∈ s.queue, (ofLex e).2 < n ∧ 0 ≤ (ofLex e).1 ∧ (s.distance (ofLex e).2).1 ≠ ⊤
  pending : ∀ y, (s.distance y).1 ≠ ⊤ → y ∉ s.taken →
    ∃ d : α, (s.distance y).1 = d ∧ toLex (d, y) ∈ s.queue
  taken_lt : ∀ x ∈ s.taken, x < n
  le_child : ∀ i, child₀ i ≤ s.child i
  child_eq : ∀ i, (∀ x < n, idx x ≠ i) → s.child i = child₀ i
  child_le : Set.InjOn idx (Set.Iio n) → ∀ x < n, s.child (idx x) ≤ bound x
  grown : Set.InjOn idx (Set.Iio n) → s.late = false →
    Grown (Finset.range n) first s.taken (s.pred first) (fun x => s.child (idx x) - child₀ (idx x))

section Sound
variable {n first : ℕ} {idx child₀ bound : ℕ → ℕ} {s : Search α}

theorem Sound.start (hf : first < n) (h0 : ∀ x < n, child₀ (idx x) ≤ bound x) :
    Sound n first idx child₀ bound (Search.start (α := α) first child₀) := by
  have hdist : ∀ y, y ≠ first → ((Search.start (α := α) first child₀).distance y).1 = ⊤ := by
    intro y hy
    simp [Search.start, hy]
  have hpred : (Search.start (α := α) first child₀).pred first = fun _ => none := by
    funext y
    by_cases hy : y = first
    · simp [pred, hy]
    · simp [pred, hdist y hy]
  refine ⟨by simp [Search.start], fun y hy => hdist y (by omega), ?_, ?_, by simp [Search.start],
    fun _ => le_rfl, fun _ _ => rfl, fun _ => h0, fun _ _ => ?_⟩
  · intro e he
    rw [List.mem_singleton.1 he]
    exact ⟨hf, le_rfl, by simp [Search.start]⟩
  · intro y hy _
    have hyf : y = first := by_contra fun hne => hy (hdist y hne)
    subst hyf
    exact ⟨0, by simp [Search.start], List.mem_singleton.2 rfl⟩
  · rw [hpred]
    exact Grown.start fun x _ => Nat.sub_self _

theorem Sound.assign (h : Sound n first idx child₀ bound s) {current next : ℕ} {total : α}
    (hcur : current ∈ s.taken) (hn : next < n) (hf : next ≠ first) (h0 : 0 ≤ total)
    (hb : s.child (idx current) < bound current) :
    Sound n first idx child₀ bound (s.assign idx current total next) := by
  have hc := h.taken_lt current hcur
  have hdist : ∀ y, y ≠ next → (s.assign idx current total next).distance y = s.distance y :=
    fun y hy => Function.update_of_ne hy ..
  have hnew : (s.assign idx current total next).distance next = ((total : WithTop α), current) :=
    Function.update_self ..
  have hchild : ∀ i, i ≠ idx current → (s.assign idx current total next).child i = s.child i :=
    fun i hi => Function.update_of_ne hi ..
  have hcurrent : (s.assign idx current total next).child (idx current) = s.child (idx current) + 1 :=
    Function.update_self ..
  refine ⟨?_, ?_, ?_, ?_, h.taken_lt, ?_, ?_, ?_, ?_⟩
  · rw [hdist first hf.symm]
    exact h.first_distance
  · intro y hy
    rw [hdist y (by omega)]
    exact h.outside y hy
  · intro e he
    rcases List.mem_cons.1 he with rfl | he
    · exact ⟨hn, h0, by rw [ofLex_toLex, hnew]; exact WithTop.coe_ne_top⟩
    · obtain ⟨hen, he0, hd⟩ := h.queued e he
      exact ⟨hen, he0, (Extends.assign hc hb).reached _ hd⟩
  · intro y hy hyt
    by_cases hyn : y = next
    · subst hyn
      exact ⟨total, by rw [hnew], List.mem_cons_self ..⟩
    · rw [hdist y hyn] at hy ⊢
      obtain ⟨d, hd, hq⟩ := h.pending y hy hyt
      exact ⟨d, hd, List.mem_cons_of_mem _ hq⟩
  · exact fun i => (h.le_child i).trans (child_le_assign ..)
  · intro i hi
    rw [hchild i (hi current hc).symm]
    exact h.child_eq i hi
  · intro hinj x hx
    by_cases hxc : x = current
    · subst hxc
      rw [hcurrent]
      exact hb
    · rw [hchild (idx x) fun he => hxc (hinj hx hc he)]
      exact h.child_le hinj x hx
  · intro hinj hlate
    obtain ⟨hlate, htaken⟩ := Bool.or_eq_false_iff.1 hlate
    rw [pred_assign hf]
    refine (h.grown hinj hlate).reach hcur (of_decide_eq_false htaken) hf ?_
    intro z hz
    have hle := h.le_child (idx z)
    by_cases hzc : z = current
    · subst hzc
      rw [if_pos rfl, hcurrent]
      omega
    · rw [if_neg hzc, hchild (idx z) fun he => hzc (hinj (Finset.mem_range.1 hz) hc he)]

theorem Sound.skip (h : Sound n first idx child₀ bound s) {e : α ×ₗ ℕ} {queue : List (α ×ₗ ℕ)}
    (hpop : heappop s.queue = some (e, queue))
    (hlt : (s.distance (ofLex e).2).1 < ((ofLex e).1 : WithTop α)) :
    Sound n first idx child₀ bound { s with queue := queue } := by
  refine ⟨h.first_distance, h.outside, fun f hf => h.queued f (mem_of_mem_heappop hpop hf), ?_, h.taken_lt,
    h.le_child, h.child_eq, h.child_le, h.grown⟩
  intro y hy hyt
  obtain ⟨d, hd, hq⟩ := h.pending y hy hyt
  have hne : toLex (d, y) ≠ e := by
    rintro rfl
    rw [ofLex_toLex, hd] at hlt
    exact lt_irrefl _ hlt
  exact ⟨d, hd, mem_heappop_of_ne hpop hq hne⟩

theorem Sound.take (h : Sound n first idx child₀ bound s) {e : α ×ₗ ℕ} {queue : List (α ×ₗ ℕ)}
    (hpop : heappop s.queue = some (e, queue)) :
    Sound n first idx child₀ bound (s.take (ofLex e).2 queue) := by
  obtain ⟨hn, _, hd⟩ := h.queued e (heappop_eq_some hpop).1
  refine ⟨h.first_distance, h.outside, fun f hf => h.queued f (mem_of_mem_heappop hpop hf), ?_, ?_,
    h.le_child, h.child_eq, h.child_le, fun hinj hlate => ?_⟩
  · intro y hy hyt
    obtain ⟨hyt, hye⟩ := not_or.1 fun hor => hyt (mem_takeNode.2 hor)
    obtain ⟨d, hd, hq⟩ := h.pending y hy hyt
    have hne : toLex (d, y) ≠ e := by
      rintro rfl
      exact hye rfl
    exact ⟨d, hd, mem_heappop_of_ne hpop hq hne⟩
  · intro x hx
    rcases mem_takeNode.1 hx with hx | rfl
    · exact h.taken_lt x hx
    · exact hn
  · refine (h.grown hinj hlate).take (Finset.mem_range.2 hn) ?_
    by_cases hf : (ofLex e).2 = first
    · exact Or.inl hf
    · exact Or.inr (pred_isSome.2 ⟨hf, hd⟩)

end Sound

/-- What the body of the inner loop owes: the invariant, and that the edge's end is reached unless the
budget is spent. -/
def BodySpec (g : Graph α) (first : ℕ) (idx child₀ bound : ℕ → ℕ)
    (body : ℕ → α → Search α → ℕ × α → Search α) : Prop :=
  ∀ (current : ℕ) (d : α) (s : Search α) (e : ℕ × α), 0 ≤ d → e ∈ g.items current →
    Sound g.size first idx child₀ bound s → current ∈ s.taken →
    Sound g.size first idx child₀ bound (body current d s e) ∧
      Extends g.size idx bound s (body current d s e) ∧
      (((body current d s e).distance e.1).1 ≠ ⊤ ∨ bound current ≤ (body current d s e).child (idx current))

section Run
variable {g : Graph α} {first : ℕ} {idx child₀ bound : ℕ → ℕ}
  {body : ℕ → α → Search α → ℕ × α → Search α}

theorem BodySpec.foldl (hbody : BodySpec g first idx child₀ bound body) {current : ℕ} {d : α} (hd : 0 ≤ d)
    (l : List (ℕ × α)) (hl : ∀ e ∈ l, e ∈ g.items current) (s : Search α)
    (h : Sound g.size first idx child₀ bound s) (hcur : current ∈ s.taken) :
    Sound g.size first idx child₀ bound (l.foldl (body current d) s) ∧
      Extends g.size idx bound s (l.foldl (body current d) s) ∧
      ∀ e ∈ l, ((l.foldl (body current d) s).distance e.1).1 ≠ ⊤ ∨
        bound current ≤ (l.foldl (body current d) s).child (idx current) := by
  induction l generalizing s with
  | nil => exact ⟨h, Extends.refl s, by simp⟩
  | cons e l ih =>
    obtain ⟨h₁, hext₁, he⟩ := hbody current d s e hd (hl e (List.mem_cons_self ..)) h hcur
    obtain ⟨h₂, hext₂, hrest⟩ := ih (fun f hf => hl f (List.mem_cons_of_mem _ hf)) _ h₁
      (hext₁.taken ▸ hcur)
    refine ⟨h₂, hext₁.trans hext₂, ?_⟩
    intro f hf
    rcases List.mem_cons.1 hf with rfl | hf
    · exact he.imp (hext₂.reached _) fun hb => hb.trans (hext₂.child _)
    · exact hrest f hf

/-- A graph in which every node has an edge to every other one. -/
def Complete (g : Graph α) : Prop := ∀ i < g.size, ∀ j < g.size, i ≠ j → g.edge i j = true

theorem BodySpec.turn_sound (hbody : BodySpec g first idx child₀ bound body) (hg : Complete g) {s : Search α}
    (h : Sound g.size first idx child₀ bound s) (hspent : ∀ x ∈ s.taken, s.Spent g.size idx bound x) :
    Sound g.size first idx child₀ bound (s.turn body g) ∧
      (∀ x ∈ (s.turn body g).taken, (s.turn body g).Spent g.size idx bound x) ∧
      (s.queue ≠ [] → (s.turn body g).potential g.size idx bound < s.potential g.size idx bound) := by
  unfold turn
  cases hpop : heappop s.queue with
  | none => exact ⟨h, hspent, fun hne => absurd (heappop_eq_none.1 hpop) hne⟩
  | some r =>
    obtain ⟨e, queue⟩ := r
    by_cases hlt : (s.distance (ofLex e).2).1 < ((ofLex e).1 : WithTop α)
    · simp only [hlt, if_true]
      have hpot := potential_pop g.size idx bound { s with queue := queue } hpop rfl rfl
      exact ⟨h.skip hpop hlt, hspent, fun _ => by omega⟩
    · simp only [hlt, if_false]
      obtain ⟨hn, h0, hd⟩ := h.queued e (heappop_eq_some hpop).1
      have hcur : (ofLex e).2 ∈ (s.take (ofLex e).2 queue).taken := mem_takeNode.2 (Or.inr rfl)
      obtain ⟨h', hext, hedges⟩ := hbody.foldl h0 (g.items (ofLex e).2) (fun _ hf => hf) _ (h.take hpop) hcur
      have hpot := potential_pop g.size idx bound (s.take (ofLex e).2 queue) hpop rfl rfl
      have hle := hext.potential
      refine ⟨h', ?_, fun _ => by omega⟩
      intro x hx
      rw [hext.taken] at hx
      by_cases hxe : x = (ofLex e).2
      · subst hxe
        by_cases hb : bound (ofLex e).2 ≤
            ((g.items (ofLex e).2).foldl (body (ofLex e).2 (ofLex e).1)
              (s.take (ofLex e).2 queue)).child (idx (ofLex e).2)
        · exact Or.inr hb
        · refine Or.inl fun y hy => ?_
          by_cases hye : y = (ofLex e).2
          · exact hye ▸ hext.reached _ hd
          · have hedge := hg _ hn y hy (Ne.symm hye)
            exact (hedges (y, g.cost (ofLex e).2 y) (Graph.mem_items.2 ⟨hy, hedge, rfl⟩)).resolve_right hb
      · have hx' : x ∈ s.taken := (mem_takeNode.1 hx).resolve_right hxe
        exact (show (s.take (ofLex e).2 queue).Spent g.size idx bound x from hspent x hx').mono hext

theorem BodySpec.run_sound (hbody : BodySpec g first idx child₀ bound body) (hg : Complete g)
    (hf : first < g.size) (h0 : ∀ x < g.size, child₀ (idx x) ≤ bound x) {fuel : ℕ}
    (hfuel : (Search.start (α := α) first child₀).potential g.size idx bound ≤ fuel) :
    Sound g.size first idx child₀ bound ((turn body g)^[fuel] (Search.start first child₀)) ∧
      (∀ x ∈ ((turn body g)^[fuel] (Search.start first child₀)).taken,
        ((turn body g)^[fuel] (Search.start first child₀)).Spent g.size idx bound x) ∧
      ((turn body g)^[fuel] (Search.start first child₀)).queue = [] := by
  have hloop : ∀ k, Sound g.size first idx child₀ bound ((turn body g)^[k] (Search.start first child₀)) ∧
      (∀ x ∈ ((turn body g)^[k] (Search.start first child₀)).taken,
        ((turn body g)^[k] (Search.start first child₀)).Spent g.size idx bound x) ∧
      (((turn body g)^[k] (Search.start first child₀)).queue = [] ∨
        ((turn body g)^[k] (Search.start first child₀)).potential g.size idx bound + k ≤ fuel) := by
    intro k
    induction k with
    | zero => exact ⟨Sound.start hf h0, by simp [Search.start], Or.inr hfuel⟩
    | succ k ih =>
      obtain ⟨hs, hspent, hq⟩ := ih
      rw [Function.iterate_succ_apply']
      obtain ⟨hs', hspent', hpot⟩ := hbody.turn_sound hg hs hspent
      refine ⟨hs', hspent', ?_⟩
      by_cases hne : ((turn body g)^[k] (Search.start first child₀)).queue = []
      · refine Or.inl ?_
        rw [turn, heappop_eq_none.2 hne]
        exact hne
      · have hlt := hpot hne
        have hle := hq.resolve_left hne
        exact Or.inr (by omega)
  obtain ⟨hs, hspent, hq⟩ := hloop fuel
  refine ⟨hs, hspent, hq.elim id fun hle => ?_⟩
  have hzero : ((turn body g)^[fuel] (Search.start first child₀)).potential g.size idx bound = 0 := by
    omega
  unfold potential at hzero
  exact List.length_eq_zero_iff.1 (by omega)

end Run

/-! ## The tree of a finished search -/

structure Tree (n first : ℕ) (idx child₀ bound : ℕ → ℕ) (s : Search α) : Prop where
  reached : ∀ y < n, (s.distance y).1 ≠ ⊤
  via_lt : ∀ y < n, (s.distance y).2 < n
  root : ∀ y < n, ∃ m, (fun y => (s.distance y).2)^[m] y = first
  ends : ∀ y < n, pathEnds (fun y => (s.distance y).2) first n y = true
  children : ∀ x < n, ((Finset.range n).filter fun y => y ≠ first ∧ (s.distance y).2 = x).card ≤
    s.child (idx x) - child₀ (idx x)
  le_child : ∀ i, child₀ i ≤ s.child i
  child_eq : ∀ i, (∀ x < n, idx x ≠ i) → s.child i = child₀ i
  child_le : ∀ x < n, s.child (idx x) ≤ bound x

theorem Sound.tree {n first : ℕ} {idx child₀ bound : ℕ → ℕ} {s : Search α}
    (h : Sound n first idx child₀ bound s) (hf : first < n) (hinj : Set.InjOn idx (Set.Iio n))
    (h0 : ∀ x < n, child₀ (idx x) < bound x) (hspent : ∀ x ∈ s.taken, s.Spent n idx bound x)
    (hqueue : s.queue = []) (hlate : s.late = false) : Tree n first idx child₀ bound s := by
  have hgrown := h.grown hinj hlate
  have htaken : ∀ y, (s.distance y).1 ≠ ⊤ → y ∈ s.taken := by
    intro y hy
    by_contra hyt
    obtain ⟨d, _, hq⟩ := h.pending y hy hyt
    rw [hqueue] at hq
    cases hq
  have hfirst : first ∈ s.taken := htaken first (by rw [h.first_distance]; exact WithTop.zero_ne_top)
  have hspan : ∀ y ∈ Finset.range n, y = first ∨ (s.pred first y).isSome := by
    refine hgrown.spans (fun x => bound x - child₀ (idx x))
      (fun y hy => htaken y (pred_isSome.1 hy).2) hfirst ?_ ?_
    · intro x hx
      have hlt := h0 x (Finset.mem_range.1 hx)
      omega
    · intro x hx
      rcases hspent x hx with hall | hb
      · refine Or.inl fun y hy => ?_
        by_cases hyf : y = first
        · exact Or.inl hyf
        · exact Or.inr (pred_isSome.2 ⟨hyf, hall y (Finset.mem_range.1 hy)⟩)
      · exact Or.inr (Nat.sub_le_sub_right hb _)
  have hreached : ∀ y < n, (s.distance y).1 ≠ ⊤ := by
    intro y hy
    rcases hspan y (Finset.mem_range.2 hy) with rfl | hp
    · rw [h.first_distance]
      exact WithTop.zero_ne_top
    · exact (pred_isSome.1 hp).2
  have hpred : ∀ y < n, y ≠ first → s.pred first y = some (s.distance y).2 := by
    intro y hy hyf
    exact if_neg (not_or.2 ⟨hyf, hreached y hy⟩)
  have hvia : ∀ y < n, (s.distance y).2 < n := by
    intro y hy
    by_cases hyf : y = first
    · rw [hyf, h.first_distance]
      exact hf
    · exact h.taken_lt _ (hgrown.earlier y _ (hpred y hy hyf)).1
  refine ⟨hreached, hvia, ?_, ?_, ?_, h.le_child, h.child_eq, h.child_le hinj⟩
  · intro y hy
    rcases hspan y (Finset.mem_range.2 hy) with rfl | hp
    · exact ⟨0, rfl⟩
    · exact hgrown.exists_iterate (fun y x hx => pred_eq_some hx) hp
  · -- the place in `taken` gets smaller along the path, and it is at most `n` at its start
    have hrank : ∀ r y, y < n → s.taken.idxOf y ≤ r →
        pathEnds (fun y => (s.distance y).2) first r y = true := by
      intro r
      induction r with
      | zero =>
        intro y hy hr
        by_cases hyf : y = first
        · simp [pathEnds, hyf, h.first_distance]
        · have hlt := (hgrown.earlier y _ (hpred y hy hyf)).2
          omega
      | succ r ih =>
        intro y hy hr
        simp only [pathEnds, Bool.or_eq_true, beq_iff_eq]
        by_cases hyf : y = first
        · exact Or.inl (by rw [hyf, h.first_distance])
        · have hlt := (hgrown.earlier y _ (hpred y hy hyf)).2
          exact Or.inr (ih _ (hvia y hy) (by omega))
    intro y hy
    have hlen := hgrown.length_le
    rw [Finset.card_range] at hlen
    exact hrank n y hy (List.idxOf_le_length.trans hlen)
  · intro x hx
    refine le_trans (Finset.card_le_card ?_) (hgrown.children x (Finset.mem_range.2 hx))
    intro y hy
    obtain ⟨hy, hyf, hyx⟩ := Finset.mem_filter.1 hy
    exact Finset.mem_filter.2 ⟨hy, by rw [hpred y (Finset.mem_range.1 hy) hyf, hyx]⟩

/-! ## The bodies of the two inner loops -/

section Bodies
variable [IsStrictOrderedRing α] {g : Graph α} {idx child₀ : ℕ → ℕ} {maxChild : ℕ}

variable {first current : ℕ} {s : Search α} {e : ℕ × α} {child : ℕ → ℕ}

omit [IsStrictOrderedRing α] in
theorem Sound.ne_first {n : ℕ} {bound : ℕ → ℕ} {next : ℕ} {total : α} (h : Sound n first idx child₀ bound s)
    (h0 : 0 ≤ total) (hlt : (total : WithTop α) < (s.distance next).1) : next ≠ first := by
  rintro rfl
  rw [h.first_distance] at hlt
  exact absurd (WithTop.coe_lt_coe.1 hlt) (not_lt.2 h0)

theorem relax_spec (idx child₀ : ℕ → ℕ) (first maxChild : ℕ) (hpos : ∀ i j, g.edge i j = true → 0 ≤ g.cost i j) :
    BodySpec g first idx child₀ (fun _ => maxChild) (relax idx maxChild) := by
  intro current d s e hd he h hcur
  obtain ⟨hn, hedge, hw⟩ := Graph.mem_items.1 he
  have htotal : 0 ≤ d + e.2 := by
    rw [hw]
    exact add_nonneg hd (hpos current e.1 hedge)
  have hc := h.taken_lt current hcur
  unfold relax
  split
  next hif =>
    refine ⟨h.assign hcur hn (h.ne_first htotal hif.1) htotal hif.2, Extends.assign hc hif.2, Or.inl ?_⟩
    simp [assign]
  next hif =>
    refine ⟨h, Extends.refl s, ?_⟩
    by_cases hlt : ((d + e.2 : α) : WithTop α) < (s.distance e.1).1
    · exact Or.inr (not_lt.1 fun hb => hif ⟨hlt, hb⟩)
    · exact Or.inl (ne_top_of_le_ne_top WithTop.coe_ne_top (not_lt.1 hlt))

omit [IsStrictOrderedRing α] in
theorem getBetterNode_cases (g : Graph α) (clusterSize : List ℕ) (first next : ℕ) (S : List ℕ) :
    getBetterNode g clusterSize first next S = next ∨
      0 < getBetterNode g clusterSize first next S ∧
        getBetterNode g clusterSize first next S < g.size ∧
        getBetterNode g clusterSize first next S ∉ S := by
  have hfold : ∀ (l : List ℕ) (new : ℕ), (∀ k ∈ l, 0 < k ∧ k < g.size) →
      (new = next ∨ 0 < new ∧ new < g.size ∧ new ∉ S) →
      l.foldl (fun new k => if k ≠ next ∧ k ∉ S ∧ Better g clusterSize first next k then k else new) new =
          next ∨
        0 < l.foldl (fun new k => if k ≠ next ∧ k ∉ S ∧ Better g clusterSize first next k then k else new) new ∧
        l.foldl (fun new k => if k ≠ next ∧ k ∉ S ∧ Better g clusterSize first next k then k else new) new <
          g.size ∧
        l.foldl (fun new k => if k ≠ next ∧ k ∉ S ∧ Better g clusterSize first next k then k else new) new ∉
          S := by
    intro l
    induction l with
    | nil => exact fun new _ hnew => hnew
    | cons k l ih =>
      intro new hl hnew
      rw [List.foldl_cons]
      refine ih _ (fun j hj => hl j (List.mem_cons_of_mem _ hj)) ?_
      split
      next hk =>
        obtain ⟨hk0, hkn⟩ := hl k (List.mem_cons_self ..)
        exact Or.inr ⟨hk0, hkn, hk.2.1⟩
      next => exact hnew
  refine hfold _ next ?_ (Or.inl rfl)
  intro k hk
  rw [List.mem_range'_1] at hk
  omega

omit [IsStrictOrderedRing α] in
theorem getCost_nonneg (hpos : ∀ i j, 0 ≤ g.cost i j) (a b : ℕ) : 0 ≤ getCost g a b := by
  unfold getCost
  split
  · exact hpos a b
  · exact hpos b a

theorem relaxLeader_spec (clusterSize : List ℕ) (idx child₀ : ℕ → ℕ) (maxChild : ℕ)
    (hpos : ∀ i j, 0 ≤ g.cost i j) :
    BodySpec g 0 idx child₀ (fun x => maxChild - min x 1) (relaxLeader g clusterSize 0 idx maxChild) := by
  intro current d s e hd he h hcur
  obtain ⟨hn, _, hw⟩ := Graph.mem_items.1 he
  have htotal : 0 ≤ d + e.2 := by
    rw [hw]
    exact add_nonneg hd (hpos current e.1)
  have hc := h.taken_lt current hcur
  unfold relaxLeader
  split
  next hif =>
    have hne : e.1 ≠ 0 := h.ne_first htotal hif.1
    generalize hnew : getBetterNode g clusterSize 0 e.1 s.S = new
    by_cases hkeep : new = e.1
    · simp only [hkeep, ne_eq, not_true, if_false]
      exact ⟨h.assign hcur hn hne htotal hif.2, Extends.assign hc hif.2, Or.inl (by simp [assign])⟩
    · simp only [hkeep, ne_eq, not_false_eq_true, if_true]
      obtain ⟨hnew0, hnewn, _⟩ : 0 < new ∧ new < g.size ∧ new ∉ s.S := by
        have hcases := getBetterNode_cases g clusterSize 0 e.1 s.S
        rw [hnew] at hcases
        exact hcases.resolve_left hkeep
      have hcost : 0 ≤ d + getCost g current new := add_nonneg hd (getCost_nonneg hpos current new)
      have h₁ := h.assign hcur hnewn hnew0.ne' hcost hif.2
      have hext₁ : Extends g.size idx (fun x => maxChild - min x 1) s
          (s.assign idx current (d + getCost g current new) new) := Extends.assign hc hif.2
      by_cases hb : (s.assign idx current (d + getCost g current new) new).child (idx current) <
          maxChild - min current 1
      · rw [if_pos hb]
        exact ⟨h₁.assign hcur hn hne hcost hb, hext₁.trans (Extends.assign hc hb),
          Or.inl (by simp [assign])⟩
      · rw [if_neg hb]
        exact ⟨h₁, hext₁, Or.inr (not_lt.1 hb)⟩
  next hif =>
    refine ⟨h, Extends.refl s, ?_⟩
    by_cases hlt : ((d + e.2 : α) : WithTop α) < (s.distance e.1).1
    · exact Or.inr (not_lt.1 fun hb => hif ⟨hlt, hb⟩)
    · exact Or.inl (ne_top_of_le_ne_top WithTop.coe_ne_top (not_lt.1 hlt))

/-! ## The plain search is never late -/

structure Ordered (L : α) (s : Search α) : Prop where
  late : s.late = false
  queue_ge : ∀ e ∈ s.queue, (s.distance (ofLex e).2).1 ≤ ((ofLex e).1 : WithTop α) ∧ L ≤ (ofLex e).1
  taken_le : ∀ x ∈ s.taken, (s.distance x).1 ≤ (L : WithTop α)

theorem Ordered.relax {d : α} (h : Ordered d s) (hw : 0 ≤ e.2) : Ordered d (s.relax idx maxChild current d e) := by
  unfold Search.relax
  split
  next hif =>
    have hle : d ≤ d + e.2 := le_add_of_nonneg_right hw
    have hfresh : ∀ x ∈ s.taken, x ≠ e.1 := by
      intro x hx hxe
      have hlt := hif.1.trans_le (h.taken_le e.1 (hxe ▸ hx))
      exact absurd (WithTop.coe_lt_coe.1 hlt) (not_lt.2 hle)
    have hdist : ∀ y, y ≠ e.1 → (s.assign idx current (d + e.2) e.1).distance y = s.distance y :=
      fun y hy => Function.update_of_ne hy ..
    have hnew : (s.assign idx current (d + e.2) e.1).distance e.1 = (((d + e.2 : α) : WithTop α), current) :=
      Function.update_self ..
    refine ⟨?_, ?_, ?_⟩
    · have hnot : e.1 ∉ s.taken := fun hmem => hfresh _ hmem rfl
      simp [assign, h.late, hnot]
    · intro f hf
      rcases List.mem_cons.1 hf with rfl | hf
      · rw [ofLex_toLex, hnew]
        exact ⟨le_rfl, hle⟩
      · obtain ⟨hkey, hge⟩ := h.queue_ge f hf
        refine ⟨?_, hge⟩
        by_cases hfe : (ofLex f).2 = e.1
        · rw [hfe] at hkey ⊢
          rw [hnew]
          exact hif.1.le.trans hkey
        · rw [hdist _ hfe]
          exact hkey
    · intro x hx
      rw [hdist x (hfresh x hx)]
      exact h.taken_le x hx
  next => exact h

omit [Field α] [IsStrictOrderedRing α] in
theorem fst_le_of_lex_le {e f : α ×ₗ ℕ} (h : e ≤ f) : (ofLex e).1 ≤ (ofLex f).1 := by
  rcases Prod.Lex.le_iff.1 h with hlt | heq
  · exact hlt.le
  · exact heq.1.le

omit [Field α] [IsStrictOrderedRing α] in
theorem Ordered.turn {body : ℕ → α → Search α → ℕ × α → Search α} {Q : List ℕ → Prop}
    (hbody : ∀ current d t e, e ∈ g.items current → Ordered d t → Q t.S → Ordered d (body current d t e) ∧ Q (body current d t e).S)
    {L : α} (h : Ordered L s) (hQ : Q s.S) : ∃ L', Ordered L' (s.turn body g) ∧ Q (s.turn body g).S := by
  unfold Search.turn
  cases hpop : heappop s.queue with
  | none => exact ⟨L, h, hQ⟩
  | some r =>
    obtain ⟨e, queue⟩ := r
    obtain ⟨he, -, hmin⟩ := heappop_eq_some hpop
    obtain ⟨hkey, hL⟩ := h.queue_ge e he
    dsimp only
    split
    next =>
      exact ⟨L, ⟨h.late, fun f hf => h.queue_ge f (mem_of_mem_heappop hpop hf), h.taken_le⟩, hQ⟩
    next =>
      refine ⟨(ofLex e).1, ?_⟩
      have htake : Ordered (ofLex e).1 (s.take (ofLex e).2 queue) := by
        refine ⟨h.late, ?_, ?_⟩
        · intro f hf
          have hf' := mem_of_mem_heappop hpop hf
          exact ⟨(h.queue_ge f hf').1, fst_le_of_lex_le (hmin f hf')⟩
        · intro x hx
          rcases mem_takeNode.1 hx with hx | rfl
          · exact (h.taken_le x hx).trans (WithTop.coe_le_coe.2 hL)
          · exact hkey
      have hfold : ∀ (l : List (ℕ × α)) (t : Search α), (∀ f ∈ l, f ∈ g.items (ofLex e).2) →
          Ordered (ofLex e).1 t → Q t.S →
          Ordered (ofLex e).1 (l.foldl (body (ofLex e).2 (ofLex e).1) t) ∧
            Q (l.foldl (body (ofLex e).2 (ofLex e).1) t).S := by
        intro l
        induction l with
        | nil => exact fun t _ ht hq => ⟨ht, hq⟩
        | cons f l ih =>
          intro t hl ht hq
          obtain ⟨ht', hq'⟩ := hbody _ _ t f (hl f (List.mem_cons_self ..)) ht hq
          exact ih _ (fun f' hf' => hl f' (List.mem_cons_of_mem _ hf')) ht' hq'
      exact hfold _ _ (fun _ hf => hf) htake hQ

omit [IsStrictOrderedRing α] in
theorem cost_nonneg_of_mem_items (hpos : ∀ i j, g.edge i j = true → 0 ≤ g.cost i j) (he : e ∈ g.items current) :
    0 ≤ e.2 := by
  obtain ⟨_, hedge, hw⟩ := Graph.mem_items.1 he
  rw [hw]
  exact hpos _ _ hedge

theorem late_dijkstraLoop (hpos : ∀ i j, g.edge i j = true → 0 ≤ g.cost i j) (child : ℕ → ℕ) (first : ℕ) :
    (dijkstraLoop g idx child first maxChild).late = false := by
  have hrun : ∀ k, ∃ L, Ordered L ((Search.turn (Search.relax idx maxChild) g)^[k]
      (Search.start (α := α) first child)) := by
    intro k
    induction k with
    | zero =>
      refine ⟨0, rfl, ?_, by simp [Search.start]⟩
      intro e he
      rw [List.mem_singleton.1 he]
      simp [Search.start]
    | succ k ih =>
      obtain ⟨L, hL⟩ := ih
      rw [Function.iterate_succ_apply']
      obtain ⟨L', hL', -⟩ := hL.turn (Q := fun _ => True)
        (fun _ _ _ _ he ht _ => ⟨ht.relax (cost_nonneg_of_mem_items hpos he), trivial⟩) trivial
      exact ⟨L', hL'⟩
  obtain ⟨L, hL⟩ := hrun (1 + g.size * maxChild)
  exact hL.late

/-! ## The loops as a whole -/

theorem queue_dijkstraLoop (hg : Complete g) (hpos : ∀ i j, g.edge i j = true → 0 ≤ g.cost i j)
    (hf : first < g.size) (h0 : ∀ x < g.size, child (idx x) ≤ maxChild) :
    (dijkstraLoop g idx child first maxChild).queue = [] :=
  ((relax_spec idx child first maxChild hpos).run_sound hg hf h0 (potential_start_le fun _ => le_rfl)).2.2

theorem tree_dijkstraLoop (hg : Complete g) (hpos : ∀ i j, g.edge i j = true → 0 ≤ g.cost i j)
    (child : ℕ → ℕ) {first : ℕ} (hf : first < g.size) (hinj : Set.InjOn idx (Set.Iio g.size))
    (h0 : ∀ x < g.size, child (idx x) < maxChild) :
    Tree g.size first idx child (fun _ => maxChild) (dijkstraLoop g idx child first maxChild) := by
  obtain ⟨hs, hspent, hq⟩ := (relax_spec idx child first maxChild hpos).run_sound hg hf (fun x hx => (h0 x hx).le) (potential_start_le fun _ => le_rfl)
  exact hs.tree hf hinj h0 hspent hq (late_dijkstraLoop hpos child first)

theorem queue_leaderLoop (hg : Complete g) (hpos : ∀ i j, 0 ≤ g.cost i j) {clusterSize : List ℕ} (hf : 0 < g.size)
    (h0 : ∀ x < g.size, child (idx x) ≤ maxChild - min x 1) :
    (leaderLoop g clusterSize idx child 0 maxChild).queue = [] :=
  ((relaxLeader_spec clusterSize idx child maxChild hpos).run_sound hg hf h0 (potential_start_le fun _ => Nat.sub_le _ _)).2.2

theorem tree_leaderLoop (hg : Complete g) (hpos : ∀ i j, 0 ≤ g.cost i j) {clusterSize : List ℕ}
    {child : ℕ → ℕ} (hf : 0 < g.size) (hinj : Set.InjOn idx (Set.Iio g.size))
    (h0 : ∀ x < g.size, child (idx x) < maxChild - min x 1)
    (hlate : (leaderLoop g clusterSize idx child 0 maxChild).late = false) :
    Tree g.size 0 idx child (fun x => maxChild - min x 1)
      (leaderLoop g clusterSize idx child 0 maxChild) := by
  obtain ⟨hs, hspent, hq⟩ := (relaxLeader_spec clusterSize idx child maxChild hpos).run_sound hg hf (fun x hx => (h0 x hx).le)
    (potential_start_le fun _ => Nat.sub_le _ _)
  exact hs.tree hf hinj h0 hspent hq hlate

end Bodies

omit [Field α] in
theorem iterate_turn {I : Search α → Prop} {g : Graph α} {body : ℕ → α → Search α → ℕ × α → Search α}
    (hqueue : ∀ s queue, I s → I { s with queue := queue }) (htake : ∀ s current queue, I s → I (s.take current queue))
    (hbody : ∀ current d s e, I s → I (body current d s e)) (k : ℕ) {s : Search α} (h : I s) :
    I ((Search.turn body g)^[k] s) := by
  have hfold : ∀ (l : List (ℕ × α)) (current : ℕ) (d : α) (t : Search α), I t → I (l.foldl (body current d) t) := by
    intro l current d
    induction l with
    | nil => exact fun t ht => ht
    | cons e l ih => exact fun t ht => ih _ (hbody current d t e ht)
  induction k with
  | zero => exact h
  | succ k ih =>
    rw [Function.iterate_succ_apply', Search.turn]
    split
    next => exact ih
    next e queue _ =>
      split
      next => exact hqueue _ _ ih
      next => exact hfold _ _ _ _ (htake _ _ _ ih)

theorem leaderLoop_flat (g : Graph α) (clusterSize : List ℕ) (idx child : ℕ → ℕ) {maxChild : ℕ}
    (hmax : maxChild ≤ 1) :
    (∀ y, ((leaderLoop g clusterSize idx child 0 maxChild).distance y).2 = 0) ∧
      ∀ i, i ≠ idx 0 → (leaderLoop g clusterSize idx child 0 maxChild).child i = child i := by
  have hassign : ∀ (current : ℕ) (total : α) (next : ℕ) (s : Search α),
      s.child (idx current) < maxChild - min current 1 →
      ((∀ y, (s.distance y).2 = 0) ∧ ∀ i, i ≠ idx 0 → s.child i = child i) →
      (∀ y, ((s.assign idx current total next).distance y).2 = 0) ∧
        ∀ i, i ≠ idx 0 → (s.assign idx current total next).child i = child i := by
    intro current total next s hlt hs
    have hcur : current = 0 := by omega
    subst hcur
    refine ⟨fun y => ?_, fun i hi => ?_⟩
    · by_cases hy : y = next
      · simp [Search.assign, hy]
      · simp [Search.assign, hy, hs.1 y]
    · simp [Search.assign, hi, hs.2 i hi]
  refine iterate_turn (I := fun s => (∀ y, (s.distance y).2 = 0) ∧ ∀ i, i ≠ idx 0 → s.child i = child i)
    (fun _ _ hs => hs) (fun _ _ _ hs => hs) ?_ _ ?_
  · intro current d s e hs
    unfold relaxLeader
    split
    next hif =>
      dsimp only
      split
      next =>
        have hs' := hassign current (d + getCost g current (getBetterNode g clusterSize 0 e.1 s.S))
          (getBetterNode g clusterSize 0 e.1 s.S) s hif.2 hs
        split
        next hif' => exact hassign current _ e.1 _ hif' hs'
        next => exact hs'
      next => exact hassign current _ e.1 s hif.2 hs
    next => exact hs
  · refine ⟨fun y => ?_, fun _ _ => rfl⟩
    by_cases hy : y = 0
    · simp [Search.start, hy]
    · simp [Search.start, hy]

theorem dijkstraLoop_zero (g : Graph α) (idx child : ℕ → ℕ) (first : ℕ) :
    (dijkstraLoop g idx child first 0).distance = (Search.start (α := α) first child).distance ∧
      (dijkstraLoop g idx child first 0).child = child := by
  refine iterate_turn (I := fun s => s.distance = (Search.start (α := α) first child).distance ∧ s.child = child)
    (fun _ _ hs => hs) (fun _ _ _ hs => hs) ?_ _ ⟨rfl, rfl⟩
  intro current d s e hs
  unfold relax
  rw [if_neg fun hif => Nat.not_lt_zero _ hif.2]
  exact hs

/-! ## The arrays behind the searches -/

theorem writeParents_succ (idx : ℕ → ℕ) (first n : ℕ) (value parent : ℕ → Option ℕ) :
    writeParents idx first (n + 1) value parent =
      if n ≠ first ∧ writeParents idx first n value parent (idx n) = none ∧ (value n).isSome then
        Function.update (writeParents idx first n value parent) (idx n) (value n)
      else writeParents idx first n value parent := by
  rw [writeParents, List.range_succ, List.foldl_append]
  rfl

theorem writeParents_of_forall (h : ∀ y < size, y ≠ first → idx y = i → parent i ≠ none) :
    writeParents idx first size value parent i = parent i := by
  induction size with
  | zero => rfl
  | succ n ih =>
    have hrec := ih fun y hy => h y (by omega)
    rw [writeParents_succ]
    split
    next hif =>
      by_cases hi : i = idx n
      · subst hi
        rw [hrec] at hif
        exact absurd hif.2.1 (h n (by omega) hif.1 rfl)
      · rw [Function.update_of_ne hi]
        exact hrec
    next => exact hrec

theorem writeParents_idx (hinj : Set.InjOn idx (Set.Iio size)) {y : ℕ} (hy : y < size) (hyf : y ≠ first)
    (hnone : parent (idx y) = none) : writeParents idx first size value parent (idx y) = value y := by
  induction size with
  | zero => omega
  | succ n ih =>
    have hinj' : Set.InjOn idx (Set.Iio n) :=
      hinj.mono fun x hx => Set.mem_Iio.2 (Nat.lt_succ_of_lt (Set.mem_Iio.1 hx))
    rw [writeParents_succ]
    by_cases hyn : y = n
    · subst hyn
      have hold : writeParents idx first y value parent (idx y) = none := by
        rw [writeParents_of_forall]
        · exact hnone
        · intro z hz _ he
          have hzy : z = y := hinj (Set.mem_Iio.2 (by omega)) (Set.mem_Iio.2 hy) he
          omega
      split
      next => exact Function.update_self ..
      next hif =>
        rw [hold]
        cases hv : value y with
        | none => rfl
        | some v => exact absurd ⟨hyf, hold, by rw [hv]; rfl⟩ hif
    · have hlt : y < n := by omega
      have hne : idx y ≠ idx n := fun he =>
        hyn (hinj (Set.mem_Iio.2 hy) (Set.mem_Iio.2 (Nat.lt_succ_self n)) he)
      split
      next =>
        rw [Function.update_of_ne hne]
        exact ih hinj' hlt
      next => exact ih hinj' hlt

theorem writeParents_of_none (parent : ℕ → Option ℕ) (h : ∀ y < size, y ≠ first → value y = none) :
    writeParents idx first size value parent = parent := by
  induction size with
  | zero => rfl
  | succ n ih =>
    rw [writeParents_succ, if_neg, ih fun y hy => h y (by omega)]
    rintro ⟨hn, -, hsome⟩
    rw [h n (by omega) hn] at hsome
    cases hsome

theorem writeParents_eq_some {p : ℕ} (h : writeParents idx first size value parent i = some p) :
    parent i = some p ∨ ∃ y < size, y ≠ first ∧ value y = some p := by
  induction size with
  | zero => exact Or.inl h
  | succ n ih =>
    have hrec : writeParents idx first n value parent i = some p →
        parent i = some p ∨ ∃ y < n + 1, y ≠ first ∧ value y = some p :=
      fun h => (ih h).imp id fun ⟨y, hy, hyf, he⟩ => ⟨y, by omega, hyf, he⟩
    rw [writeParents_succ] at h
    split at h
    next hif =>
      by_cases hi : i = idx n
      · rw [hi, Function.update_self] at h
        exact Or.inr ⟨n, Nat.lt_succ_self n, hif.1, h⟩
      · rw [Function.update_of_ne hi] at h
        exact hrec h
    next => exact hrec h

omit [Field α] [LinearOrder α] in
theorem Tree.finish {s : Search α} (h : Tree n first idx child₀ bound s) (hf : first < n)
    (value parent : ℕ → Option ℕ) :
    s.finish idx first n value parent = .ok ⟨s.distance, writeParents idx first n value parent, s.child⟩ := by
  unfold Search.finish
  rw [if_neg (by omega), if_pos fun y hy _ => h.ends y hy]

omit [Field α] [LinearOrder α] in
theorem finish_parent {s : Search α} {idx : ℕ → ℕ} {first size : ℕ} {value parent : ℕ → Option ℕ}
    {o : Outcome α} (h : s.finish idx first size value parent = .ok o) :
    o.parent = writeParents idx first size value parent := by
  unfold Search.finish at h
  split at h
  · cases h
  · split at h
    · exact (Except.ok.inj h) ▸ rfl
    · cases h

end Search

section Frame
variable {α : Type*} [Field α] [LinearOrder α] {g : Graph α} {parent : ℕ → Option ℕ} {idx child : ℕ → ℕ}
  {first maxChild v : ℕ} {o : Outcome α}

theorem dijkstra_parent_of_ne (h : dijkstra parent g idx child first maxChild = .ok o)
    (hv : ∀ y < g.size, y ≠ first → idx y ≠ v) : o.parent v = parent v := by
  rw [Search.finish_parent h]
  exact Search.writeParents_of_forall fun y hy hyf he => absurd he (hv y hy hyf)

theorem modifiedDijkstra_parent_of_ne {clusterSize : List ℕ} {clusterNum : ℕ}
    (h : modifiedDijkstra parent g idx child first clusterSize clusterNum maxChild = .ok o) (hv0 : v ≠ 0)
    (hv : ∀ y < g.size, y ≠ first → idx y ≠ v) : o.parent v = parent v := by
  rw [Search.finish_parent h, Search.writeParents_of_forall fun y hy hyf he => absurd he (hv y hy hyf)]
  exact Function.update_of_ne hv0 ..

end Frame
end Mp2bs.Overlay
