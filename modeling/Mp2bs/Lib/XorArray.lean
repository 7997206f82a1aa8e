import Mp2bs.Lib.Gf2

/-!
# Arrays under exclusive or

A `XorArray β n` is an array of `n` entries that can be combined entry by entry with
exclusive or: bytes for symbols, bits for rows of coefficients.
-/

namespace Mp2bs.Lib

class XorGroup (β : Type) where
  xor : β → β → β
  zero : β
  xor_assoc : ∀ a b c, xor (xor a b) c = xor a (xor b c)
  xor_comm : ∀ a b, xor a b = xor b a
  xor_zero : ∀ a, xor a zero = a
  xor_self : ∀ a, xor a a = zero

instance : XorGroup Bool where
  xor := Bool.xor
  zero := false
  xor_assoc := Bool.xor_assoc
  xor_comm := Bool.xor_comm
  xor_zero := Bool.xor_false
  xor_self := Bool.xor_self

instance : XorGroup UInt8 where
  xor := fun a b => a ^^^ b
  zero := 0
  xor_assoc := UInt8.xor_assoc
  xor_comm := UInt8.xor_comm
  xor_zero := fun _ => UInt8.xor_zero
  xor_self := fun _ => UInt8.xor_self

structure XorArray (β : Type) (n : ℕ) where
  entries : List β
  length_eq : entries.length = n
  deriving Repr, DecidableEq

namespace XorArray

variable {β : Type} [XorGroup β] {n : ℕ}

def get (a : XorArray β n) (i : ℕ) : β := a.entries.getD i XorGroup.zero

theorem get_of_le (a : XorArray β n) {i : ℕ} (h : n ≤ i) : a.get i = XorGroup.zero := by
  rw [get, List.getD_eq_getElem?_getD, List.getElem?_eq_none (by rw [a.length_eq]; exact h)]
  rfl

theorem ext_get {a b : XorArray β n} (h : ∀ i < n, a.get i = b.get i) : a = b := by
  obtain ⟨as, ha⟩ := a
  obtain ⟨bs, hb⟩ := b
  have heq : as = bs := by
    refine List.ext_getElem (ha.trans hb.symm) ?_
    intro i hia hib
    have hi := h i (by omega)
    rwa [get, get, List.getD_eq_getElem as _ hia, List.getD_eq_getElem bs _ hib] at hi
  subst heq
  rfl

/- An array as `malloc` and a loop of zeros leave it. -/
def zeros (β : Type) [XorGroup β] (n : ℕ) : XorArray β n :=
  ⟨List.replicate n XorGroup.zero, List.length_replicate⟩

/- Exclusive or of the entries below `m`, the others kept. -/
def xorBelow (m : ℕ) (a b : XorArray β n) : XorArray β n where
  entries := (a.entries.zip b.entries).mapIdx fun i x =>
    if i < m then XorGroup.xor x.1 x.2 else x.1
  length_eq := by
    rw [List.length_mapIdx, List.length_zip, a.length_eq, b.length_eq, Nat.min_self]

def modify (a : XorArray β n) (i : ℕ) (f : β → β) : XorArray β n :=
  ⟨a.entries.modify i f, by rw [List.length_modify, a.length_eq]⟩

@[simp] theorem get_zeros (i : ℕ) : (zeros β n).get i = XorGroup.zero := by
  simp only [get, zeros, List.getD_eq_getElem?_getD, List.getElem?_replicate]
  split_ifs <;> rfl

def ofFn (n : ℕ) (f : ℕ → β) : XorArray β n :=
  ⟨(List.range n).map f, by rw [List.length_map, List.length_range]⟩

theorem get_ofFn (f : ℕ → β) {i : ℕ} (hi : i < n) : (ofFn n f).get i = f i := by
  simp only [get, ofFn, List.getD_eq_getElem?_getD, List.getElem?_map, List.getElem?_range hi,
    Option.map_some, Option.getD_some]

theorem get_xorBelow {i : ℕ} (hi : i < n) (m : ℕ) (a b : XorArray β n) :
    (xorBelow m a b).get i = if i < m then XorGroup.xor (a.get i) (b.get i) else a.get i := by
  have ha : i < a.entries.length := by rw [a.length_eq]; exact hi
  have hb : i < b.entries.length := by rw [b.length_eq]; exact hi
  have hz : i < (a.entries.zip b.entries).length := by
    rw [List.length_zip]
    omega
  simp only [get, xorBelow, List.getD_eq_getElem?_getD, List.getElem?_mapIdx,
    List.getElem?_eq_getElem hz, List.getElem?_eq_getElem ha, List.getElem?_eq_getElem hb,
    List.getElem_zip, Option.map_some, Option.getD_some]

theorem get_modify (a : XorArray β n) (i j : ℕ) (f : β → β) :
    (a.modify i f).get j = if i = j ∧ j < n then f (a.get j) else a.get j := by
  by_cases hj : j < n
  · have ha : j < a.entries.length := by rw [a.length_eq]; exact hj
    simp only [get, modify, List.getD_eq_getElem?_getD, List.getElem?_modify,
      List.getElem?_eq_getElem ha, Option.map_eq_map, Option.map_some, Option.getD_some, hj,
      and_true]
  · rw [get_of_le _ (by omega), get_of_le _ (by omega)]
    simp [hj]

instance : Add (XorArray β n) := ⟨xorBelow n⟩
instance : Zero (XorArray β n) := ⟨zeros β n⟩
instance : Neg (XorArray β n) := ⟨id⟩

@[simp] theorem get_zero (i : ℕ) : (0 : XorArray β n).get i = XorGroup.zero := get_zeros i

theorem get_add {i : ℕ} (hi : i < n) (a b : XorArray β n) :
    (a + b).get i = XorGroup.xor (a.get i) (b.get i) := by
  have h := get_xorBelow hi n a b
  rwa [if_pos hi] at h

theorem xorBelow_of_le {m : ℕ} (h : n ≤ m) (a b : XorArray β n) : xorBelow m a b = a + b := by
  refine ext_get fun i hi => ?_
  rw [get_xorBelow hi, get_add hi, if_pos (by omega)]

instance : AddCommGroup (XorArray β n) where
  add_assoc a b c := ext_get fun i hi => by
    rw [get_add hi, get_add hi, get_add hi, get_add hi, XorGroup.xor_assoc]
  zero_add a := ext_get fun i hi => by
    rw [get_add hi, get_zero, XorGroup.xor_comm, XorGroup.xor_zero]
  add_zero a := ext_get fun i hi => by
    rw [get_add hi, get_zero, XorGroup.xor_zero]
  add_comm a b := ext_get fun i hi => by
    rw [get_add hi, get_add hi, XorGroup.xor_comm]
  neg_add_cancel a := ext_get fun i hi => by
    rw [get_add hi, get_zero]
    exact XorGroup.xor_self _
  nsmul := nsmulRec
  zsmul := zsmulRec

instance : Module (ZMod 2) (XorArray β n) :=
  AddCommGroup.zmodModule fun a => ext_get fun i hi => by
    rw [two_nsmul, get_add hi, get_zero, XorGroup.xor_self]

end XorArray

/-! ### Transposition

A step `(s, t)` on a list of values adds the value at place `s` to the one at place `t`.
The transposed step on a row of coefficients adds the coefficient at `t` to the one at
`s`. A program of such steps whose sources and targets do not overlap can be moved from
the values to the coefficients, in any order. -/

section
variable {V : Type} [AddCommGroup V] {n m : ℕ}

def value (c : List V) (i : ℕ) : V := c.getD i 0

def scatter (c : List V) (p : ℕ × ℕ) : List V := c.modify p.2 (· + value c p.1)

def gather (r : XorArray Bool n) (p : ℕ × ℕ) : XorArray Bool n :=
  if r.get p.2 then r.modify p.1 not else r

variable {c : List V} {p : ℕ × ℕ} {ps qs : List (ℕ × ℕ)} {i : ℕ} {r : XorArray Bool n}

theorem value_scatter (ht : p.2 < c.length) (i : ℕ) :
    value (scatter c p) i = value c i + if i = p.2 then value c p.1 else 0 := by
  simp only [value, scatter, List.getD_eq_getElem?_getD, List.getElem?_modify]
  by_cases hi : i = p.2
  · subst hi
    simp [List.getElem?_eq_getElem ht]
  · simp [hi, Ne.symm hi]

theorem length_scatter (c : List V) (ps : List (ℕ × ℕ)) :
    (ps.foldl scatter c).length = c.length := by
  induction ps generalizing c with
  | nil => rfl
  | cons p ps ih =>
    rw [List.foldl_cons, ih, scatter, List.length_modify]

theorem getElem?_foldl_scatter (cs : List V) (hi : ∀ p ∈ ps, p.2 ≠ i) :
    (ps.foldl scatter cs)[i]? = cs[i]? := by
  induction ps generalizing cs with
  | nil => rfl
  | cons p ps ih =>
    have hp : p.2 ≠ i := hi p (List.mem_cons_self ..)
    rw [List.foldl_cons, ih _ fun q hq => hi q (List.mem_cons_of_mem _ hq), scatter,
      List.getElem?_modify_ne _ _ hp]

theorem get_gather (i : ℕ) (hi : i < n) :
    (gather r p).get i = Bool.xor (r.get i) (decide (i = p.1) && r.get p.2) := by
  rw [gather]
  cases ht : r.get p.2 with
  | false => simp
  | true =>
    rw [if_pos rfl, XorArray.get_modify]
    by_cases his : i = p.1
    · simp [his, his ▸ hi]
    · simp [his, Ne.symm his]

theorem gather_comm (r : XorArray Bool n) {q : ℕ × ℕ} (hp : p.1 < m ∧ m ≤ p.2 ∧ p.2 < n)
    (hq : q.1 < m ∧ m ≤ q.2 ∧ q.2 < n) : gather (gather r p) q = gather (gather r q) p := by
  refine XorArray.ext_get fun i hi => ?_
  have hpq : decide (q.2 = p.1) = false := decide_eq_false (by omega)
  have hqp : decide (p.2 = q.1) = false := decide_eq_false (by omega)
  rw [get_gather i hi, get_gather i hi, get_gather i hi, get_gather i hi, get_gather _ hq.2.2,
    get_gather _ hp.2.2, hpq, hqp, Bool.false_and, Bool.false_and, Bool.xor_false, Bool.xor_false,
    Bool.xor_assoc, Bool.xor_assoc,
    Bool.xor_comm (decide (i = p.1) && r.get p.2)]

theorem foldl_gather_perm (r : XorArray Bool n) (hperm : ps.Perm qs)
    (hcut : ∀ p ∈ ps, p.1 < m ∧ m ≤ p.2 ∧ p.2 < n) : ps.foldl gather r = qs.foldl gather r := by
  refine List.Perm.foldl_eq' hperm ?_ r
  intro p hp q hq r
  exact gather_comm r (hcut p hp) (hcut q hq)

theorem get_foldl_gather (r : XorArray Bool n) {s t : ℕ} (js : List ℕ) (hst : s < t) (hi : i < n) :
    ((js.map fun j => (s, t + j)).foldl gather r).get i =
      if i = s then js.foldl (fun v j => Bool.xor v (r.get (t + j))) (r.get i) else r.get i := by
  induction js generalizing r with
  | nil => simp
  | cons j js ih =>
    have hkeep : ∀ k, s < k → (gather r (s, t + j)).get k = r.get k := by
      intro k hk
      by_cases hkn : k < n
      · rw [get_gather k hkn, decide_eq_false (by omega), Bool.false_and, Bool.xor_false]
      · rw [XorArray.get_of_le _ (by omega), XorArray.get_of_le _ (by omega)]
    have hreads : ∀ k, (gather r (s, t + j)).get (t + k) = r.get (t + k) :=
      fun k => hkeep (t + k) (by omega)
    rw [List.map_cons, List.foldl_cons, ih]
    simp only [hreads, get_gather i hi, List.foldl_cons]
    by_cases his : i = s <;> simp [his]

variable [Module (ZMod 2) V]
open Gf2

theorem dot_gather (hc : c.length = n) (hs : p.1 < n) (ht : p.2 < n) :
    dot n r.get (value (scatter c p)) = dot n (gather r p).get (value c) := by
  have hleft : dot n r.get (value (scatter c p)) =
      dot n r.get (value c) + if r.get p.2 then value c p.1 else 0 := by
    have hterm : ∀ i ∈ Finset.range n, (if r.get i then value (scatter c p) i else 0) =
        (if r.get i then value c i else 0) +
          (if i = p.2 then (if r.get p.2 then value c p.1 else 0) else 0) := by
      intro i _
      rw [value_scatter (by omega)]
      by_cases hi : i = p.2
      · subst hi
        cases r.get p.2 <;> simp
      · cases r.get i <;> simp [hi]
    rw [dot, Finset.sum_congr rfl hterm, Finset.sum_add_distrib, Finset.sum_ite_eq',
      if_pos (Finset.mem_range.mpr ht)]
    rfl
  have hright : dot n (fun i => decide (i = p.1) && r.get p.2) (value c) =
      if r.get p.2 then value c p.1 else 0 := by
    cases r.get p.2 with
    | false => exact dot_zero (fun i _ => Bool.and_false _) _
    | true =>
      refine dot_unit hs (fun t _ => ?_) _
      rw [Bool.and_true]
      exact decide_eq_decide.mpr eq_comm
  rw [hleft, dot_xor (fun i hi => get_gather i hi), hright]

theorem dot_foldl_scatter (r : XorArray Bool n) (hc : c.length = n)
    (hps : ∀ p ∈ ps, p.1 < n ∧ p.2 < n) :
    dot n r.get (value (ps.foldl scatter c)) = dot n (ps.reverse.foldl gather r).get (value c) := by
  induction ps generalizing c with
  | nil => rfl
  | cons p ps ih =>
    obtain ⟨hs, ht⟩ := hps p (List.mem_cons_self ..)
    have hlen : (scatter c p).length = n := (List.length_modify ..).trans hc
    rw [List.foldl_cons, ih hlen fun q hq => hps q (List.mem_cons_of_mem _ hq),
      List.reverse_cons, List.foldl_append]
    exact dot_gather hc hs ht

theorem dot_transpose (r : XorArray Bool n) (hc : c.length = n) (hperm : ps.Perm qs)
    (hcut : ∀ p ∈ ps, p.1 < m ∧ m ≤ p.2 ∧ p.2 < n) :
    dot n r.get (value (ps.foldl scatter c)) = dot n (qs.foldl gather r).get (value c) := by
  rw [dot_foldl_scatter r hc fun p hp => ⟨by have := hcut p hp; omega, (hcut p hp).2.2⟩]
  have hrev : ps.reverse.foldl gather r = qs.foldl gather r :=
    foldl_gather_perm r ((List.reverse_perm ps).trans hperm)
      fun p hp => hcut p (List.mem_reverse.mp hp)
  rw [hrev]

end

end Mp2bs.Lib
