import Mp2bs.Raptor.Codec

/-!
# The symbols that the LT and Half stages touch

An encoding symbol is a sum over its walk, an arithmetic progression modulo the prime `Lp` with
the places from `L` on left out (`raptor.go:427-489`, `725-771`). A Half symbol is a sum over the
masks that have its bit (`raptor.go:492-566`, `912-948`).
-/

namespace Mp2bs.Raptor
open Mp2bs.Lib Mp2bs.Lib.Gf2

namespace Precode

variable {p : Precode} {z : ℕ}

def turnsBelow (p : Precode) (a b s n : ℕ) : List ℕ :=
  (List.range' s n).filter fun k => (b + k * a) % p.Lp < p.L

section Progression

variable (hLp : p.Lp.Prime) (hL : 0 < p.L) {a b : ℕ} (ha : 0 < a) (haLp : a < p.Lp)

theorem turnsBelow_succ {s n : ℕ} (hs : (b + s * a) % p.Lp < p.L) :
    p.turnsBelow a b s (n + 1) = s :: p.turnsBelow a b (s + 1) n := by
  rw [turnsBelow, List.range'_succ, List.filter_cons_of_pos (by simpa using hs)]
  rfl

include hLp hL ha haLp

theorem skip_turn {s n : ℕ} (hn : 0 < (p.turnsBelow a b s n).length) :
    ∃ k, p.skip a ((b + s * a) % p.Lp) = (b + (s + k) * a) % p.Lp ∧
      (b + (s + k) * a) % p.Lp < p.L ∧
      p.turnsBelow a b s n = p.turnsBelow a b (s + k) (n - k) := by
  have hshift : ∀ j, ((b + s * a) % p.Lp + j * a) % p.Lp = (b + (s + j) * a) % p.Lp := by
    intro j
    rw [Nat.mod_add_mod, Nat.add_mul, Nat.add_assoc]
  obtain ⟨k, -, heq, hlt, hrun⟩ := skip_spec hLp hL ha haLp (Nat.mod_lt (b + s * a) hLp.pos)
  simp only [hshift] at heq hlt hrun
  have hfail : ∀ j < k, decide ((b + (s + j) * a) % p.Lp < p.L) = false := by
    intro j hj
    exact decide_eq_false (Nat.not_lt.mpr (hrun j hj))
  have hkn : k ≤ n := by
    obtain ⟨t, ht⟩ := List.exists_mem_of_length_pos hn
    obtain ⟨hmem, hbelow⟩ := List.mem_filter.mp ht
    have hrange := List.mem_range'_1.mp hmem
    by_contra hnk
    have hfalse := hfail (t - s) (by omega)
    rw [show s + (t - s) = t by omega, hbelow] at hfalse
    cases hfalse
  exact ⟨k, heq, hlt, filter_range'_skip hkn hfail⟩

theorem walkFrom_eq (steps : ℕ) {s n : ℕ} (hs : (b + s * a) % p.Lp < p.L)
    (hsteps : steps < (p.turnsBelow a b s n).length) :
    p.walkFrom a steps ((b + s * a) % p.Lp) =
      ((p.turnsBelow a b s n).take (steps + 1)).map fun k => (b + k * a) % p.Lp := by
  induction steps generalizing s n with
  | zero =>
    cases n with
    | zero => cases hsteps
    | succ n =>
      rw [turnsBelow_succ hs]
      rfl
  | succ steps ih =>
    cases n with
    | zero => cases hsteps
    | succ n =>
      rw [turnsBelow_succ hs, List.length_cons] at hsteps
      have hnext : ((b + s * a) % p.Lp + a) % p.Lp = (b + (s + 1) * a) % p.Lp := by
        rw [Nat.mod_add_mod, Nat.succ_mul, Nat.add_assoc]
      obtain ⟨k, hskip, hbelow, hturns⟩ :=
        skip_turn hLp hL ha haLp (show 0 < (p.turnsBelow a b (s + 1) n).length by omega)
      have hrest : steps < (p.turnsBelow a b (s + 1 + k) (n - k)).length := by
        rw [← hturns]
        omega
      rw [walkFrom, hnext, hskip, ih hbelow hrest, ← hturns, turnsBelow_succ hs,
        List.take_succ_cons, List.map_cons]

omit hL in
theorem length_turnsBelow (hLLp : p.L ≤ p.Lp) : (p.turnsBelow a b 0 p.Lp).length = p.L := by
  have hcard := card_progression_lt hLp ha haLp b hLLp
  rw [turnsBelow, ← List.range_eq_range']
  exact hcard

end Progression

structure Walkable (p : Precode) (t : Triple) : Prop where
  prime : p.Lp.Prime
  L_pos : 0 < p.L
  L_le : p.L ≤ p.Lp
  d_pos : 0 < t.d
  a_pos : 0 < t.a
  a_lt : t.a < p.Lp
  b_lt : t.b < p.Lp

variable {t : Triple}

theorem walk_eq (hw : p.Walkable t) :
    p.walk t = ((p.turnsBelow t.a t.b 0 p.Lp).take (min t.d p.L)).map
      fun k => (t.b + k * t.a) % p.Lp := by
  have hlen : (p.turnsBelow t.a t.b 0 p.Lp).length = p.L :=
    length_turnsBelow hw.prime hw.a_pos hw.a_lt hw.L_le
  have hL := hw.L_pos
  have hd := hw.d_pos
  obtain ⟨k, hskip, hbelow, hturns⟩ := skip_turn hw.prime hw.L_pos hw.a_pos hw.a_lt
    (show 0 < (p.turnsBelow t.a t.b 0 p.Lp).length by omega)
  have hstart : (t.b + 0 * t.a) % p.Lp = t.b := by
    rw [Nat.zero_mul, Nat.add_zero, Nat.mod_eq_of_lt hw.b_lt]
  have hsteps : min (t.d - 1) (p.L - 1) + 1 = min t.d p.L := by omega
  have hrest : min (t.d - 1) (p.L - 1) < (p.turnsBelow t.a t.b (0 + k) (p.Lp - k)).length := by
    rw [← hturns, hlen]
    omega
  rw [hstart] at hskip
  rw [walk, hskip, walkFrom_eq hw.prime hw.L_pos hw.a_pos hw.a_lt _ hbelow hrest, ← hturns, hsteps]

theorem length_walk (hw : p.Walkable t) : (p.walk t).length = min t.d p.L := by
  rw [walk_eq hw, List.length_map, List.length_take,
    length_turnsBelow hw.prime hw.a_pos hw.a_lt hw.L_le]
  exact Nat.min_eq_left (Nat.min_le_right _ _)

theorem nodup_walk (hw : p.Walkable t) : (p.walk t).Nodup := by
  have hinj := progression_injOn hw.prime hw.a_pos hw.a_lt t.b
  have hrange : ∀ k ∈ (p.turnsBelow t.a t.b 0 p.Lp).take (min t.d p.L),
      k ∈ (Finset.range p.Lp : Set ℕ) := by
    intro k hk
    have hmem := List.mem_range'_1.mp (List.mem_filter.mp (List.mem_of_mem_take hk)).1
    exact Finset.mem_coe.mpr (Finset.mem_range.mpr (by omega))
  rw [walk_eq hw]
  refine List.Nodup.map_on ?_ ?_
  · intro k hk l hl hkl
    exact hinj (hrange k hk) (hrange l hl) hkl
  · have hturns : (List.range' 0 p.Lp).Nodup := List.nodup_range'
    exact (hturns.filter _).sublist (List.take_sublist _ _)

theorem walk_lt (hw : p.Walkable t) : ∀ x ∈ p.walk t, x < p.L := by
  intro x hx
  rw [walk_eq hw] at hx
  obtain ⟨k, hk, rfl⟩ := List.mem_map.mp hx
  have hbelow := (List.mem_filter.mp (List.mem_of_mem_take hk)).2
  simpa using hbelow

theorem get_flips {n : ℕ} (r : Row n) {bs : List ℕ} (hbs : bs.Nodup) {x : ℕ} (hx : x < n) :
    (bs.foldl (fun r b => r.modify b not) r).get x = Bool.xor (decide (x ∈ bs)) (r.get x) := by
  induction bs generalizing r with
  | nil => simp
  | cons b bs ih =>
    obtain ⟨hb, hbs⟩ := List.nodup_cons.mp hbs
    rw [List.foldl_cons, ih _ hbs, XorArray.get_modify]
    by_cases hxb : b = x
    · subst hxb
      simp [hb, hx]
    · simp [hxb, Ne.symm hxb]

theorem matrixRow_get (hw : p.Walkable t) {x : ℕ} (hx : x < p.L) :
    (p.matrixRow t).get x = true ↔ x ∈ p.walk t := by
  have hzero : (XorArray.zeros Bool p.L).get x = false := XorArray.get_zeros x
  rw [matrixRow, get_flips _ (nodup_walk hw) hx, hzero, Bool.xor_false, decide_eq_true_eq]

/-! ### Half symbols -/

theorem inverseHALF_eq_halfSteps (hv : p.Valid) (r : Row p.L) :
    p.inverseHALF r = p.halfSteps.foldl gather r := by
  rw [inverseHALF_eq]
  exact (foldl_gather_perm r (halfSteps_perm hv) (halfSteps_cut hv)).symm

theorem get_inverseHALF (hv : p.Valid) (r : Row p.L) {i : ℕ} (hi : i < p.K + p.S) :
    (p.inverseHALF r).get i =
      (oneBits (p.m.getD i 0)).foldl (fun v j => Bool.xor v (r.get (p.K + p.S + j))) (r.get i) := by
  have hL := hv.L_eq
  have hprefix : ∀ n ≤ p.K + p.S, ∀ x < p.L,
      (((List.range n).flatMap fun i =>
          (oneBits (p.m.getD i 0)).map fun j => (i, p.K + p.S + j)).foldl gather r).get x =
        if x < n then
          (oneBits (p.m.getD x 0)).foldl (fun v j => Bool.xor v (r.get (p.K + p.S + j))) (r.get x)
        else r.get x := by
    intro n hn
    induction n with
    | zero => simp
    | succ n ih =>
      intro x hx
      have hrows := ih (by omega)
      have hreads : ∀ j, (((List.range n).flatMap fun i =>
          (oneBits (p.m.getD i 0)).map fun j => (i, p.K + p.S + j)).foldl gather r).get
            (p.K + p.S + j) = r.get (p.K + p.S + j) := by
        intro j
        by_cases hj : p.K + p.S + j < p.L
        · rw [hrows _ hj, if_neg (by omega)]
        · rw [XorArray.get_of_le _ (by omega), XorArray.get_of_le _ (by omega)]
      rw [List.range_succ, List.flatMap_append, List.flatMap_singleton, List.foldl_append,
        get_foldl_gather _ _ (by omega) hx]
      simp only [hreads, hrows x hx]
      by_cases hxn : x = n
      · subst hxn
        simp
      · rw [if_neg hxn]
        exact if_congr (by omega) rfl rfl
  rw [inverseHALF_eq_halfSteps hv, halfSteps, hprefix _ le_rfl i (by omega), if_pos hi]

end Precode

theorem rg_pos {v : ℕ} (hv : v < 1048576) : 0 < rg v := by
  have hfound : [10241, 491582, 712794, 831695, 948446, 1032189, 1048576].findIdx (v < ·) < 7 :=
    List.findIdx_lt_length_of_exists ⟨1048576, by simp, by simpa using hv⟩
  rw [rg]
  generalize [10241, 491582, 712794, 831695, 948446, 1032189, 1048576].findIdx (v < ·) = j at hfound
  interval_cases j <;> decide

section Initialization

variable (Jk : ℕ) {K : ℕ} (N : ℕ) {M i : ℕ}

theorem precode_tripleOf (hi : i < M) :
    (precode Jk K N M).tripleOf i = triple Jk (precode Jk K N M).Lp i := by
  rw [Precode.tripleOf, List.getD_eq_getElem?_getD]
  show (((List.range M).map (triple Jk (precode Jk K N M).Lp))[i]?).getD _ = _
  rw [List.getElem?_map, List.getElem?_range hi]
  rfl

theorem precode_walkable (hK : 0 < K) (M i : ℕ) :
    (precode Jk K N M).Walkable (triple Jk (precode Jk K N M).Lp i) := by
  have hS := (findS_spec hK).2
  have hL : 2 ≤ (precode Jk K N M).L := by
    show 2 ≤ K + findS K + _
    omega
  have hLp : (precode Jk K N M).Lp.Prime := nextPrime_prime hL
  obtain ⟨ha, haLp, hb⟩ := triple_bounds hLp.two_le Jk i
  exact ⟨hLp, by omega, le_nextPrime _, rg_pos (rd_lt (by decide) _ _), ha, haLp, hb⟩

end Initialization

/-- The LT walk of the encoding symbol `i` with the triple `t`: the rows of `FindMatrixA` and
`FindMatrixAUsingSymbols` and the sums of `LTCode` are made of exactly the places of the walk. -/
structure Precode.LtWalk (p : Precode) (i : ℕ) (t : Triple) : Prop where
  triple_eq : p.tripleOf i = t
  skip_ends : ∀ b < p.Lp, ∃ k < p.Lp, p.skip t.a b = (fun b => (b + t.a) % p.Lp)^[k] b ∧
    p.skip t.a b < p.L ∧ ∀ j < k, p.L ≤ (fun b => (b + t.a) % p.Lp)^[j] b
  length_eq : (p.walk t).length = min t.d p.L
  nodup : (p.walk t).Nodup
  below : ∀ x ∈ p.walk t, x < p.L
  matrixA : i < p.K → ∃ r, p.findMatrixA[i]? = some r ∧ ∀ x < p.L, r.get x = true ↔ x ∈ p.walk t
  matrixAUsingSymbols : ∀ (ESIs : List ℕ) (n : ℕ), n < p.N → ESIs[n]? = some i →
    ∃ r, (p.findMatrixAUsingSymbols ESIs)[n]? = some r ∧
      ∀ x < p.L, r.get x = true ↔ x ∈ p.walk t
  ltCode_eq : ∀ (z : ℕ) (c : List (Symbol z)) (symNum : ℕ), i < symNum →
    (p.ltCode c symNum)[i]? = some ((p.walk t).map (value c)).sum

/-- For the triples of the initialization every inner loop ends within `Lp` turns at the first place
below `L`, and the walk visits `min d L` places, all different and below `L`. -/
theorem lt_walk (Jk K N M : ℕ) (hK : 0 < K) {i : ℕ} (hi : i < M) :
    (precode Jk K N M).LtWalk i (triple Jk (precode Jk K N M).Lp i) := by
  have htriple := precode_tripleOf Jk (K := K) N hi
  have hw := precode_walkable Jk N hK M i
  generalize precode Jk K N M = p at *
  generalize triple Jk p.Lp i = t at *
  have hrow : ∀ x < p.L, (p.matrixRow t).get x = true ↔ x ∈ p.walk t :=
    fun x hx => Precode.matrixRow_get hw hx
  refine ⟨htriple, ?_, Precode.length_walk hw, Precode.nodup_walk hw, Precode.walk_lt hw,
    ?_, ?_, ?_⟩
  · intro b hb
    obtain ⟨k, hk, heq, hlt, hrun⟩ := Precode.skip_spec hw.prime hw.L_pos hw.a_pos hw.a_lt hb
    refine ⟨k, hk, ?_, heq ▸ hlt, ?_⟩
    · rw [iterate_add_mod hb, heq]
    · intro j hj
      rw [iterate_add_mod hb]
      exact hrun j hj
  · intro hiK
    refine ⟨p.matrixRow t, ?_, hrow⟩
    rw [Precode.findMatrixA, List.getElem?_map, List.getElem?_range hiK, ← htriple]
    rfl
  · intro ESIs n hn hESI
    refine ⟨p.matrixRow t, ?_, hrow⟩
    rw [Precode.findMatrixAUsingSymbols, List.getElem?_map, List.getElem?_range hn, ← htriple]
    simp [List.getD_eq_getElem?_getD, hESI]
  · intro z c symNum hsym
    rw [Precode.ltCode, List.getElem?_map, List.getElem?_range hsym, Option.map_some, htriple,
      Precode.ltSymbol_eq]

theorem lt_walk_sixteen :
    0 < 16 ∧ 19 < 29 ∧
    (precode 43 16 17 29).LtWalk 19 (triple 43 (precode 43 16 17 29).Lp 19) :=
  ⟨by decide, by decide, lt_walk 43 16 17 29 (by decide) (by decide)⟩

theorem card_testBit {H v : ℕ} (hv : v < 2 ^ H) :
    ((Finset.range H).filter fun k => v.testBit k = true).card = (oneBits v).length := by
  have hset : (Finset.range H).filter (fun k => v.testBit k = true) = (oneBits v).toFinset := by
    ext k
    simp only [Finset.mem_filter, Finset.mem_range, List.mem_toFinset, ← mem_oneBits_iff]
    exact and_iff_right_of_imp (mem_oneBits_lt hv)
  have hnodup : (oneBits v).Nodup := nodup_oneBitsFrom _ _ _
  rw [hset, List.toFinset_card_of_nodup hnodup]

/-- The loop of `MakeGraySequence` has ended after `2 ^ H` turns with `K + S` different masks of `H` bits
and `⌈H / 2⌉` ones, the Half stage of the encoder and the decoder changes only the symbols `K + S`, …,
`K + S + H - 1`, and `InverseHALF` adds for every one of a mask. -/
structure Precode.HalfMasks (p : Precode) : Prop where
  loop_ends : ∀ fuel, 2 ^ p.H ≤ fuel → grayLoop ((p.H + 1) / 2) fuel 0 (p.K + p.S) = p.m
  length_eq : p.m.length = p.K + p.S
  nodup : p.m.Nodup
  bits : ∀ v ∈ p.m, v < 2 ^ p.H ∧
    ((Finset.range p.H).filter fun k => v.testBit k = true).card = (p.H + 1) / 2
  steps_bounds : ∀ x ∈ p.halfSteps,
    x.1 < p.K + p.S ∧ p.K + p.S ≤ x.2 ∧ x.2 < p.K + p.S + p.H
  half_steps : ∀ (z : ℕ) (cs : List (Symbol z)),
    p.half cs = p.halfSteps.foldl (fun cs x => Precode.xorInto cs x.2 x.1) cs
  half_frame : ∀ (z : ℕ) (cs : List (Symbol z)) (k : ℕ),
    k < p.K + p.S ∨ p.K + p.S + p.H ≤ k → (p.half cs)[k]? = cs[k]?
  inverseHALF_get : ∀ (r : Row p.L) (i v : ℕ), p.m[i]? = some v →
    (p.inverseHALF r).get i =
      (oneBits v).foldl (fun b j => Bool.xor b (r.get (p.K + p.S + j))) (r.get i)

theorem half_masks (Jk K N M : ℕ) :
    (precode Jk K N M).S = findS K ∧ (precode Jk K N M).H = findH (K + findS K) ∧
    (precode Jk K N M).HalfMasks := by
  refine ⟨rfl, rfl, ?_⟩
  have hv : (precode Jk K N M).Valid := precode_valid Jk N M
  have hcount : K + findS K ≤ (findH (K + findS K)).choose ((findH (K + findS K) + 1) / 2) :=
    findH_spec (Nat.add_pos_right K (findS_pos K))
  have hmasks := makeGraySequence_spec hcount
  have hcut := Precode.halfSteps_cut hv
  have hL := hv.L_eq
  refine ⟨fun fuel hfuel => grayLoop_of_le hcount hfuel, hmasks.1, nodup_makeGraySequence _ _,
    ?_, hcut, ?_, ?_, ?_⟩
  · intro v hmem
    have hlt := hmasks.2 v hmem
    exact ⟨hlt, (card_testBit hlt).trans (length_oneBits_of_mem hmem)⟩
  · intro z cs
    rw [Precode.half_eq]
    simp only [Precode.xorInto_eq]
  · intro z cs k hk
    rw [Precode.half_eq]
    refine getElem?_foldl_scatter cs ?_
    intro x hx
    have hbounds := hcut x hx
    omega
  · intro r i v hi
    have hlt : i < K + findS K :=
      Nat.lt_of_lt_of_eq (List.getElem?_eq_some_iff.mp hi).1 hmasks.1
    have hget : (precode Jk K N M).m.getD i 0 = v := by
      rw [List.getD_eq_getElem?_getD, hi]
      rfl
    rw [Precode.get_inverseHALF hv r hlt, hget]

end Mp2bs.Raptor
