import Mathlib.Data.List.MinMax
import Mathlib.Data.Finset.Card
import Mathlib.Data.Finset.Range
import Mathlib.Logic.Function.Iterate

/-!
# Trees grown by a budgeted search

A search takes nodes from a priority queue and gives a node that it reaches a predecessor, at the cost of
one unit of the predecessor's budget. A node may be reached again before it is taken. `Grown` collects
what such a search keeps as long as no node gets a predecessor after it was taken.
-/

namespace Mp2bs.Lib

section Heap
variable {β : Type*} [LinearOrder β]

def heappop (q : List β) : Option (β × List β) :=
  (q.argmin id).map fun x => (x, q.erase x)

variable {q r : List β} {x y : β}

theorem heappop_eq_none : heappop q = none ↔ q = [] := by
  simp [heappop, List.argmin_eq_none]

theorem heappop_eq_some (h : heappop q = some (x, r)) : x ∈ q ∧ r = q.erase x ∧ ∀ y ∈ q, x ≤ y := by
  obtain ⟨z, hz, he⟩ := Option.map_eq_some_iff.1 h
  obtain ⟨rfl, rfl⟩ := Prod.mk.inj he
  exact ⟨List.argmin_mem hz, rfl, fun y hy => List.le_of_mem_argmin hy hz⟩

theorem mem_of_mem_heappop (h : heappop q = some (x, r)) (hy : y ∈ r) : y ∈ q := by
  obtain ⟨_, rfl, _⟩ := heappop_eq_some h
  exact List.mem_of_mem_erase hy

theorem mem_heappop_of_ne (h : heappop q = some (x, r)) (hy : y ∈ q) (hne : y ≠ x) : y ∈ r := by
  obtain ⟨_, rfl, _⟩ := heappop_eq_some h
  exact (List.mem_erase_of_ne hne).2 hy

theorem length_heappop (h : heappop q = some (x, r)) : r.length + 1 = q.length := by
  obtain ⟨hx, rfl, _⟩ := heappop_eq_some h
  have hpos := List.length_pos_of_mem hx
  rw [List.length_erase_of_mem hx]
  omega

end Heap

section Taken
variable {ν : Type*} [DecidableEq ν]

def takeNode (x : ν) (taken : List ν) : List ν := if x ∈ taken then taken else taken ++ [x]

variable {x z : ν} {taken : List ν}

theorem mem_takeNode : z ∈ takeNode x taken ↔ z ∈ taken ∨ z = x := by
  unfold takeNode
  split
  next hx => exact ⟨Or.inl, fun h => h.elim id fun hz => hz ▸ hx⟩
  next => simp

theorem nodup_takeNode (h : taken.Nodup) : (takeNode x taken).Nodup := by
  unfold takeNode
  split
  next => exact h
  next hx => exact List.nodup_append.2 ⟨h, List.nodup_singleton x, by
    intro a ha b hb
    rw [List.mem_singleton.1 hb]
    exact fun hab => hx (hab ▸ ha)⟩

theorem idxOf_takeNode_lt {y : ν} (hy : y ∈ taken) (h : taken.idxOf y < taken.idxOf z) :
    (takeNode x taken).idxOf y < (takeNode x taken).idxOf z := by
  unfold takeNode
  split
  next => exact h
  next =>
    rw [List.idxOf_append_of_mem hy]
    by_cases hz : z ∈ taken
    · rw [List.idxOf_append_of_mem hz]
      exact h
    · rw [List.idxOf_append_of_notMem hz]
      have hlt := List.idxOf_lt_length_of_mem hy
      omega

end Taken

variable {ν : Type*} [DecidableEq ν]

/-- What a search has built: `taken` in order, the predecessors `pred` of the nodes reached beside the
root, and how much of each node's budget is used. -/
structure Grown (nodes : Finset ν) (root : ν) (taken : List ν) (pred : ν → Option ν)
    (used : ν → ℕ) : Prop where
  nodup : taken.Nodup
  taken_mem : ∀ x ∈ taken, x ∈ nodes
  root_pred : pred root = none
  taken_reached : ∀ x ∈ taken, x = root ∨ (pred x).isSome
  earlier : ∀ y x, pred y = some x → x ∈ taken ∧ taken.idxOf x < taken.idxOf y
  children : ∀ x ∈ nodes, (nodes.filter fun y => pred y = some x).card ≤ used x
  later : ∀ x ∈ taken, 0 < used x → ∃ y, (pred y).isSome ∧ taken.idxOf x < taken.idxOf y
  idle : ∀ x ∈ nodes, x ∉ taken → used x = 0

namespace Grown
variable {nodes : Finset ν} {root : ν} {taken : List ν} {pred : ν → Option ν} {used used' : ν → ℕ}

theorem start (h : ∀ x ∈ nodes, used x = 0) : Grown nodes root [] (fun _ => none) used where
  nodup := List.nodup_nil
  taken_mem := by simp
  root_pred := rfl
  taken_reached := by simp
  earlier := by simp
  children := by simp
  later := by simp
  idle := fun x hx _ => h x hx

theorem take (h : Grown nodes root taken pred used) {x : ν} (hx : x ∈ nodes)
    (hr : x = root ∨ (pred x).isSome) : Grown nodes root (takeNode x taken) pred used where
  nodup := nodup_takeNode h.nodup
  taken_mem := by
    intro z hz
    rcases mem_takeNode.1 hz with hz | rfl
    · exact h.taken_mem z hz
    · exact hx
  root_pred := h.root_pred
  taken_reached := by
    intro z hz
    rcases mem_takeNode.1 hz with hz | rfl
    · exact h.taken_reached z hz
    · exact hr
  earlier := by
    intro y z hp
    obtain ⟨hz, hlt⟩ := h.earlier y z hp
    exact ⟨mem_takeNode.2 (Or.inl hz), idxOf_takeNode_lt hz hlt⟩
  children := h.children
  later := by
    intro z hz hpos
    by_cases hzt : z ∈ taken
    · obtain ⟨y, hy, hlt⟩ := h.later z hzt hpos
      exact ⟨y, hy, idxOf_takeNode_lt hzt hlt⟩
    · have hzx : z = x := (mem_takeNode.1 hz).resolve_left hzt
      have h0 := h.idle z (hzx ▸ hx) hzt
      omega
  idle := fun z hz hzt => h.idle z hz fun hm => hzt (mem_takeNode.2 (Or.inl hm))

theorem reach (h : Grown nodes root taken pred used) {x y : ν} (hx : x ∈ taken)
    (hy : y ∉ taken) (hroot : y ≠ root)
    (hused : ∀ z ∈ nodes, used' z = if z = x then used z + 1 else used z) :
    Grown nodes root taken (Function.update pred y (some x)) used' := by
  have hxy : taken.idxOf x < taken.idxOf y := by
    rw [List.idxOf_of_notMem hy]
    exact List.idxOf_lt_length_of_mem hx
  have hkeep : ∀ z, (pred z).isSome → (Function.update pred y (some x) z).isSome := by
    intro z hz
    by_cases hzy : z = y
    · simp [hzy]
    · rw [Function.update_of_ne hzy]
      exact hz
  refine ⟨h.nodup, h.taken_mem, ?_, fun z hz => (h.taken_reached z hz).imp id (hkeep z), ?_, ?_, ?_, ?_⟩
  · rw [Function.update_of_ne hroot.symm]
    exact h.root_pred
  · intro z w hp
    by_cases hzy : z = y
    · subst hzy
      rw [Function.update_self] at hp
      rw [← Option.some.inj hp]
      exact ⟨hx, hxy⟩
    · rw [Function.update_of_ne hzy] at hp
      exact h.earlier z w hp
  · intro z hz
    have hold := h.children z hz
    have hu := hused z hz
    by_cases hzx : z = x
    · -- the one node that may gain a successor
      have hsub : (nodes.filter fun w => Function.update pred y (some x) w = some z) ⊆
          insert y (nodes.filter fun w => pred w = some z) := by
        intro w hw
        by_cases hwy : w = y
        · exact hwy ▸ Finset.mem_insert_self ..
        · rw [Finset.mem_filter, Function.update_of_ne hwy] at hw
          exact Finset.mem_insert_of_mem (Finset.mem_filter.2 hw)
      have hcard := (Finset.card_le_card hsub).trans (Finset.card_insert_le _ _)
      rw [if_pos hzx] at hu
      omega
    · have hsub : (nodes.filter fun w => Function.update pred y (some x) w = some z) ⊆
          nodes.filter fun w => pred w = some z := by
        intro w hw
        by_cases hwy : w = y
        · rw [Finset.mem_filter, hwy, Function.update_self] at hw
          exact absurd (Option.some.inj hw.2).symm hzx
        · rw [Finset.mem_filter, Function.update_of_ne hwy] at hw
          exact Finset.mem_filter.2 hw
      have hcard := Finset.card_le_card hsub
      rw [if_neg hzx] at hu
      omega
  · intro z hz hpos
    have hu := hused z (h.taken_mem z hz)
    by_cases hzx : z = x
    · exact ⟨y, by simp, hzx ▸ hxy⟩
    · rw [if_neg hzx] at hu
      obtain ⟨w, hw, hlt⟩ := h.later z hz (hu ▸ hpos)
      exact ⟨w, hkeep w hw, hlt⟩
  · intro z hz hzt
    have hu := hused z hz
    have hzx : z ≠ x := fun he => hzt (he ▸ hx)
    rw [if_neg hzx] at hu
    exact hu.trans (h.idle z hz hzt)

theorem length_le (h : Grown nodes root taken pred used) : taken.length ≤ nodes.card := by
  rw [← List.toFinset_card_of_nodup h.nodup]
  exact Finset.card_le_card fun x hx => h.taken_mem x (List.mem_toFinset.1 hx)

theorem exists_iterate (h : Grown nodes root taken pred used) {via : ν → ν}
    (hvia : ∀ y x, pred y = some x → via y = x) {y : ν} (hy : (pred y).isSome) :
    ∃ m, via^[m] y = root := by
  induction hr : taken.idxOf y using Nat.strong_induction_on generalizing y with
  | _ r ih =>
    obtain ⟨x, hx⟩ := Option.isSome_iff_exists.1 hy
    obtain ⟨hxt, hlt⟩ := h.earlier y x hx
    rcases h.taken_reached x hxt with rfl | hxs
    · exact ⟨1, hvia y x hx⟩
    · obtain ⟨m, hm⟩ := ih _ (hr ▸ hlt) hxs rfl
      exact ⟨m + 1, by rw [Function.iterate_succ_apply, hvia y x hx, hm]⟩

theorem spans (h : Grown nodes root taken pred used) (limit : ν → ℕ)
    (hclosed : ∀ y, (pred y).isSome → y ∈ taken) (hroot : root ∈ taken)
    (hlimit : ∀ x ∈ nodes, 0 < limit x)
    (hspent : ∀ x ∈ taken, (∀ y ∈ nodes, y = root ∨ (pred y).isSome) ∨ limit x ≤ used x) :
    ∀ y ∈ nodes, y = root ∨ (pred y).isSome := by
  have hne : taken ≠ [] := List.ne_nil_of_mem hroot
  have hlast := List.getLast_mem hne
  rcases hspent _ hlast with hall | hfull
  · exact hall
  · exfalso
    have hpos := hlimit _ (h.taken_mem _ hlast)
    obtain ⟨y, hy, hlt⟩ := h.later _ hlast (by omega)
    have hy' := List.idxOf_lt_length_of_mem (hclosed y hy)
    have hidx : taken.idxOf (taken.getLast hne) = taken.length - 1 := by
      rw [List.getLast_eq_getElem]
      exact h.nodup.idxOf_getElem _ _
    omega

end Grown
end Mp2bs.Lib
