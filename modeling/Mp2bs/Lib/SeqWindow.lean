import Mathlib

/-!
# Sequence numbers that wrap

`numbered M l e` are the elements of `l` from position `e` on, each with its
position modulo `M`. As long as there are at most `M` of them the number alone
tells which element it is.
-/

namespace Mp2bs.Lib.SeqWindow

variable {α : Type} {M : ℕ} {l : List α} {e : ℕ}

def numbered (M : ℕ) (l : List α) (e : ℕ) : List (ℕ × α) :=
  ((l.drop e).zipIdx e).map fun x => (x.2 % M, x.1)

theorem numbered_length (M : ℕ) (l : List α) (e : ℕ) : (numbered M l e).length = l.length - e := by
  simp [numbered]

theorem numbered_cons (M : ℕ) (h : e < l.length) :
    numbered M l e = (e % M, l[e]) :: numbered M l (e + 1) := by
  simp only [numbered]
  rw [List.drop_eq_getElem_cons h, List.zipIdx_cons, List.map_cons]

theorem numbered_nil (M : ℕ) (h : l.length ≤ e) : numbered M l e = [] := by
  rw [numbered, List.drop_eq_nil_of_le h]
  rfl

theorem numbered_append (M : ℕ) (h : e ≤ l.length) (x : α) :
    numbered M (l ++ [x]) e = numbered M l e ++ [(l.length % M, x)] := by
  simp only [numbered]
  rw [List.drop_append_of_le_length h, List.zipIdx_append, List.map_append, List.length_drop]
  have hpos : e + (l.length - e) = l.length := by omega
  rw [hpos]
  rfl

theorem map_fst_numbered (M : ℕ) (l : List α) (e : ℕ) :
    (numbered M l e).map (·.1) = (List.range' e (l.length - e)).map (· % M) := by
  rw [numbered, List.map_map, ← List.length_drop, ← List.zipIdx_map_snd e (l.drop e), List.map_map]
  rfl

variable {i k : ℕ} {flight m : List (ℕ × α)} {x : α} {qs : List (List α)}

theorem mod_inj_of_window {j n : ℕ} (hn : n ≤ M) (hi : e ≤ i ∧ i < e + n) (hj : e ≤ j ∧ j < e + n)
    (h : i % M = j % M) : i = j := by
  rcases Nat.lt_trichotomy i j with hlt | heq | hgt
  · have hd := (Nat.modEq_iff_dvd' hlt.le).mp h
    have := Nat.le_of_dvd (by omega) hd
    omega
  · exact heq
  · have hd := (Nat.modEq_iff_dvd' hgt.le).mp h.symm
    have := Nat.le_of_dvd (by omega) hd
    omega

theorem keys_nodup (hp : flight.Perm (numbered M l e)) (hn : l.length - e ≤ M) :
    (flight.map (·.1)).Nodup := by
  have hperm := hp.map (·.1)
  rw [map_fst_numbered] at hperm
  refine (hperm.nodup_iff).mpr (List.Nodup.map_on ?_ (List.nodup_range' ..))
  intro i hi j hj h
  rw [List.mem_range'_1] at hi hj
  exact mod_inj_of_window hn hi hj h

theorem perm_next (hp : ((e % M, x) :: flight).Perm (numbered M l e)) (hn : l.length - e ≤ M) :
    l[e]? = some x ∧ flight.Perm (numbered M l (e + 1)) := by
  have hlt : e < l.length := by
    by_contra hge
    rw [numbered_nil M (by omega)] at hp
    exact absurd hp.eq_nil (List.cons_ne_nil _ _)
  have hnodup := keys_nodup (List.Perm.refl (numbered M l e)) hn
  rw [numbered_cons M hlt] at hp hnodup
  have hx : x = l[e] := by
    have hmem : (e % M, x) ∈ (e % M, l[e]) :: numbered M l (e + 1) :=
      hp.subset (List.mem_cons_self ..)
    rcases List.mem_cons.mp hmem with heq | hin
    · exact (Prod.mk.inj heq).2
    · rw [List.map_cons, List.nodup_cons] at hnodup
      exact absurd (List.mem_map.mpr ⟨_, hin, rfl⟩) hnodup.1
  subst hx
  exact ⟨List.getElem?_eq_getElem hlt, hp.cons_inv⟩

theorem next_mem (hp : flight.Perm (numbered M l e)) (he : e < l.length) :
    e % M ∈ flight.map (·.1) := by
  rw [(hp.map (·.1)).mem_iff, numbered_cons M he]
  exact List.mem_cons_self ..

theorem filter_of_not_mem (h : k ∉ m.map (·.1)) : m.filter (·.1 != k) = m := by
  rw [List.filter_eq_self]
  intro z hz
  rw [bne_iff_ne]
  intro heq
  exact h (heq ▸ List.mem_map_of_mem hz)

theorem perm_of_lookup (hm : (m.map (·.1)).Nodup) (h : m.lookup k = some x) :
    m.Perm ((k, x) :: m.filter (·.1 != k)) := by
  induction m with
  | nil => cases h
  | cons y m ih =>
    rw [List.map_cons, List.nodup_cons] at hm
    by_cases hy : y.1 = k
    · have hx : y.2 = x := by
        rw [← hy, List.lookup_cons_self] at h
        exact Option.some.inj h
      have hrest : m.filter (·.1 != k) = m := filter_of_not_mem (hy ▸ hm.1)
      rw [List.filter_cons_of_neg (by simp [hy]), hrest, ← hy, ← hx]
    · have hne : (k == y.1) = false := beq_eq_false_iff_ne.mpr (Ne.symm hy)
      rw [List.lookup_cons, hne] at h
      rw [List.filter_cons_of_pos (by simpa using hy)]
      exact ((ih hm.2 h).cons y).trans (List.Perm.swap ..)

/-! ### Families of queues -/

def push (qs : List (List α)) (i : ℕ) (x : α) : List (List α) := qs.modify i (· ++ [x])

def pop (qs : List (List α)) (i : ℕ) : Option (α × List (List α)) :=
  match qs[i]? with
  | some (x :: q) => some (x, qs.set i q)
  | _ => none

theorem flatten_push (hi : i < qs.length) (x : α) :
    (push qs i x).flatten.Perm (x :: qs.flatten) := by
  induction qs generalizing i with
  | nil => cases hi
  | cons q qs ih =>
    cases i with
    | zero =>
      show (q ++ [x] ++ qs.flatten).Perm (x :: (q ++ qs.flatten))
      rw [List.append_assoc]
      exact List.perm_middle
    | succ i =>
      have hrest := ih (Nat.lt_of_succ_lt_succ hi)
      exact (hrest.append_left q).trans List.perm_middle

theorem flatten_pop {qs' : List (List α)} (h : pop qs i = some (x, qs')) :
    qs.flatten.Perm (x :: qs'.flatten) := by
  induction qs generalizing i qs' with
  | nil => cases h
  | cons q qs ih =>
    cases i with
    | zero =>
      cases q with
      | nil => cases h
      | cons y q =>
        cases h
        exact List.Perm.refl _
    | succ i =>
      unfold pop at h
      rw [List.getElem?_cons_succ] at h
      split at h
      · rename_i y rest hq
        cases h
        have hrest := ih (show pop qs i = some (x, qs.set i rest) by rw [pop, hq])
        exact (hrest.append_left q).trans List.perm_middle
      · cases h

end Mp2bs.Lib.SeqWindow
