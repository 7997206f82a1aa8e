import Mp2bs.Lib.XorArray
import Mp2bs.Raptor.Params

/-!
# The stages of the Raptor code

Each stage exists twice in the source. On symbols it computes the LDPC symbols, the Half symbols and the
LT sums; on rows of coefficients `FindMatrixA`, `InverseHALF` and `InverseLDPC` do the same backwards. `vector_xor` works in lanes of 16 entries; the part of the last lane behind the end of an array
is not part of the model.
-/

namespace Mp2bs.Raptor
open Mp2bs.Lib Mp2bs.Lib.Gf2

abbrev Row (n : ℕ) := XorArray Bool n
abbrev Symbol (z : ℕ) := XorArray UInt8 z

-- vector_xor, raptor.go:1281-1306, with dst = src1 as in all calls
def vectorXor {β : Type} [XorGroup β] {n : ℕ} (dst src : XorArray β n) (iterNum : ℕ) :
    XorArray β n :=
  XorArray.xorBelow ((iterNum + 15) / 16 * 16) dst src

/- The fields of `raptor_params_t` that the stages read. -/
structure Precode where
  K : ℕ
  S : ℕ
  H : ℕ
  L : ℕ
  Lp : ℕ
  N : ℕ
  M : ℕ
  U : List Triple
  m : List ℕ
  deriving Repr, DecidableEq

namespace Precode

variable (p : Precode) {z : ℕ}

-- the column i of U
def tripleOf (i : ℕ) : Triple := p.U.getD i ⟨0, 0, 0⟩

/- `while (b >= L) b = (b+a) % Lp`. -/
def skip (a b : ℕ) : ℕ := iterWhile (fun b => decide (p.L ≤ b)) (fun b => (b + a) % p.Lp) p.Lp b

def walkFrom (a : ℕ) : ℕ → ℕ → List ℕ
  | 0, b => [b]
  | steps + 1, b => b :: walkFrom a steps (p.skip a ((b + a) % p.Lp))

/- The places that `FindMatrixA`, `FindMatrixAUsingSymbols` and `LTCode` visit for a triple. -/
def walk (t : Triple) : List ℕ := p.walkFrom t.a (min (t.d - 1) (p.L - 1)) (p.skip t.a t.b)

def matrixRow (t : Triple) : Row p.L :=
  (p.walk t).foldl (fun r b => r.modify b not) (XorArray.zeros Bool p.L)

-- FindMatrixA, raptor.go:427-455
def findMatrixA : List (Row p.L) := (List.range p.K).map fun i => p.matrixRow (p.tripleOf i)

-- FindMatrixAUsingSymbols, raptor.go:459-489
def findMatrixAUsingSymbols (ESIs : List ℕ) : List (Row p.L) :=
  (List.range p.N).map fun i => p.matrixRow (p.tripleOf (ESIs.getD i 0))

/- A row of `InverseHALF` (`raptor.go:534-566`). -/
def inverseHALF (r : Row p.L) : Row p.L :=
  (List.range p.H).foldl (fun r h =>
    if r.get (p.K + p.S + h) then
      (List.range (p.K + p.S)).foldl (fun r i =>
        if h ∈ oneBits (p.m.getD i 0) then r.modify i not else r) r
    else r) r

/- The three LDPC symbols of an intermediate symbol (`raptor.go:580-590`). -/
def ldpcTargets (i : ℕ) : List ℕ :=
  let a := 1 + (i / p.S) % (p.S - 1)
  let b := i % p.S
  [b, (b + a) % p.S, ((b + a) % p.S + a) % p.S]

/- A row of `InverseLDPC` (`raptor.go:569-593`). -/
def inverseLDPC (r : Row p.L) : Row p.L :=
  (List.range p.K).foldl (fun r i =>
    (p.ldpcTargets i).foldl (fun r b => if r.get (p.K + b) then r.modify i not else r) r) r

def xorInto (c : List (Symbol z)) (t s : ℕ) : List (Symbol z) :=
  c.modify t fun v => vectorXor v (c.getD s 0) z

-- the LDPC loop of the encoder and the decoder, raptor.go:882-910
def ldpc (c : List (Symbol z)) : List (Symbol z) :=
  (List.range p.K).foldl (fun c i =>
    (p.ldpcTargets i).foldl (fun c b => xorInto c (p.K + b) i) c) c

-- the HALF loop of the encoder and the decoder, raptor.go:912-947
def half (c : List (Symbol z)) : List (Symbol z) :=
  (List.range (p.K + p.S)).foldl (fun c i =>
    (oneBits (p.m.getD i 0)).foldl (fun c j => xorInto c (p.K + p.S + j) i) c) c

/- A symbol of `LTCode`: copy the first symbol of the walk, add the others. -/
def ltSymbol (c : List (Symbol z)) (t : Triple) : Symbol z :=
  match p.walk t with
  | [] => 0
  | b :: bs => bs.foldl (fun e b => vectorXor e (c.getD b 0) z) (c.getD b 0)

-- LTCode, raptor.go:725-771
def ltCode (c : List (Symbol z)) (symNum : ℕ) : List (Symbol z) :=
  (List.range symNum).map fun i => p.ltSymbol c (p.tripleOf i)

/-! ### Stages as programs of additions -/

def ldpcSteps : List (ℕ × ℕ) :=
  (List.range p.K).flatMap fun i => (p.ldpcTargets i).map fun b => (i, p.K + b)

def halfSteps : List (ℕ × ℕ) :=
  (List.range (p.K + p.S)).flatMap fun i =>
    (oneBits (p.m.getD i 0)).map fun j => (i, p.K + p.S + j)

def inverseHalfSteps : List (ℕ × ℕ) :=
  (List.range p.H).flatMap fun h =>
    ((List.range (p.K + p.S)).filter fun i => h ∈ oneBits (p.m.getD i 0)).map
      fun i => (i, p.K + p.S + h)

variable {p}

@[simp] theorem vectorXor_symbol (a b : Symbol z) : vectorXor a b z = a + b :=
  XorArray.xorBelow_of_le (by omega) a b

theorem xorInto_eq (c : List (Symbol z)) (t s : ℕ) : xorInto c t s = scatter c (s, t) := by
  simp only [xorInto, vectorXor_symbol]
  rfl

theorem ldpc_eq (c : List (Symbol z)) : p.ldpc c = p.ldpcSteps.foldl scatter c := by
  simp only [ldpc, ldpcSteps, List.foldl_flatMap, List.foldl_map, xorInto_eq]

theorem half_eq (c : List (Symbol z)) : p.half c = p.halfSteps.foldl scatter c := by
  simp only [half, halfSteps, List.foldl_flatMap, List.foldl_map, xorInto_eq]

theorem inverseLDPC_eq (r : Row p.L) : p.inverseLDPC r = p.ldpcSteps.foldl gather r := by
  simp only [inverseLDPC, ldpcSteps, List.foldl_flatMap, List.foldl_map]
  rfl

variable {n b : ℕ} {c x : List (Symbol z)}

theorem foldl_flips {t : ℕ} (r : Row n) (is : List ℕ) (his : ∀ i ∈ is, i < t) :
    (if r.get t then is.foldl (fun r i => r.modify i not) r else r) =
      is.foldl (fun r i => gather r (i, t)) r := by
  induction is generalizing r with
  | nil => simp
  | cons i is ih =>
    have hi := his i (List.mem_cons_self ..)
    have hrest := ih (gather r (i, t)) fun k hk => his k (List.mem_cons_of_mem _ hk)
    rw [List.foldl_cons, List.foldl_cons, ← hrest]
    cases hr : r.get t with
    | false => simp [gather, hr]
    | true =>
      have hkeep : (r.modify i not).get t = true := by
        rw [XorArray.get_modify, if_neg (by omega), hr]
      simp [gather, hr, hkeep]

theorem inverseHALF_eq (r : Row p.L) : p.inverseHALF r = p.inverseHalfSteps.foldl gather r := by
  simp only [inverseHALF, inverseHalfSteps, List.foldl_flatMap, List.foldl_map]
  congr 1
  funext r h
  rw [← foldl_flips r _ fun i hi => ?_, List.foldl_filter]
  · simp only [decide_eq_true_eq]
  · have hlt := List.mem_range.mp (List.mem_filter.mp hi).1
    omega

/- What `RaptorInitialization` establishes of its parameters. -/
structure Valid (p : Precode) : Prop where
  L_eq : p.L = p.K + p.S + p.H
  S_pos : 0 < p.S
  masks : ∀ i, p.m.getD i 0 < 2 ^ p.H

theorem ldpcTargets_lt (hv : p.Valid) {i : ℕ} (h : b ∈ p.ldpcTargets i) : b < p.S := by
  have hS := hv.S_pos
  simp only [ldpcTargets, List.mem_cons, List.not_mem_nil, or_false] at h
  rcases h with rfl | rfl | rfl <;> exact Nat.mod_lt _ hS

theorem ldpcSteps_cut (hv : p.Valid) : ∀ x ∈ p.ldpcSteps, x.1 < p.K ∧ p.K ≤ x.2 ∧ x.2 < p.L := by
  intro x hx
  obtain ⟨i, hi, hx⟩ := List.mem_flatMap.mp hx
  obtain ⟨b, hb, rfl⟩ := List.mem_map.mp hx
  have hlt := ldpcTargets_lt hv hb
  have hL := hv.L_eq
  exact ⟨List.mem_range.mp hi, by omega, by omega⟩

theorem halfSteps_cut (hv : p.Valid) :
    ∀ x ∈ p.halfSteps, x.1 < p.K + p.S ∧ p.K + p.S ≤ x.2 ∧ x.2 < p.L := by
  intro x hx
  obtain ⟨i, hi, hx⟩ := List.mem_flatMap.mp hx
  obtain ⟨j, hj, rfl⟩ := List.mem_map.mp hx
  have hlt := mem_oneBits_lt (hv.masks i) hj
  have hL := hv.L_eq
  exact ⟨List.mem_range.mp hi, by omega, by omega⟩

theorem halfSteps_perm (hv : p.Valid) : p.halfSteps.Perm p.inverseHalfSteps := by
  have hinj : ∀ i : ℕ, Function.Injective fun j : ℕ => (i, p.K + p.S + j) := by
    intro i j k h
    simpa using h
  have hinj' : ∀ h, Function.Injective fun i : ℕ => (i, p.K + p.S + h) := by
    intro h i k hik
    simpa using hik
  refine (List.perm_ext_iff_of_nodup ?_ ?_).mpr ?_
  · refine List.nodup_flatMap.mpr ⟨fun i _ => (nodup_oneBitsFrom _ _ _).map (hinj i), ?_⟩
    refine (List.nodup_range).imp fun {i k} hik x hxi hxk => ?_
    obtain ⟨_, _, rfl⟩ := List.mem_map.mp hxi
    obtain ⟨_, _, heq⟩ := List.mem_map.mp hxk
    exact hik (congrArg Prod.fst heq).symm
  · refine List.nodup_flatMap.mpr
      ⟨fun h _ => (List.nodup_range.filter _).map (hinj' h), ?_⟩
    refine (List.nodup_range).imp fun {h k} hhk x hxh hxk => ?_
    obtain ⟨_, _, rfl⟩ := List.mem_map.mp hxh
    obtain ⟨_, _, heq⟩ := List.mem_map.mp hxk
    have := congrArg Prod.snd heq
    exact hhk (by simpa using this.symm)
  · rintro ⟨i, t⟩
    simp only [halfSteps, inverseHalfSteps, List.mem_flatMap, List.mem_map, List.mem_filter,
      List.mem_range, Prod.mk.injEq, decide_eq_true_eq]
    constructor
    · rintro ⟨i, hi, j, hj, rfl, rfl⟩
      exact ⟨j, mem_oneBits_lt (hv.masks i) hj, i, ⟨hi, hj⟩, rfl, rfl⟩
    · rintro ⟨h, -, i, ⟨hi, hj⟩, rfl, rfl⟩
      exact ⟨i, hi, h, hj, rfl, rfl⟩

theorem length_ldpc (c : List (Symbol z)) : (p.ldpc c).length = c.length := by
  rw [ldpc_eq, length_scatter]

theorem length_half (c : List (Symbol z)) : (p.half c).length = c.length := by
  rw [half_eq, length_scatter]

theorem dot_half_ldpc (hv : p.Valid) (r : Row p.L) (hc : c.length = p.L) :
    dot p.L r.get (value (p.half (p.ldpc c))) =
      dot p.L (p.inverseLDPC (p.inverseHALF r)).get (value c) := by
  rw [half_eq, dot_transpose r ((length_ldpc c).trans hc) (halfSteps_perm hv) (halfSteps_cut hv),
    ← inverseHALF_eq, ldpc_eq, dot_transpose _ hc (List.Perm.refl _) (ldpcSteps_cut hv),
    ← inverseLDPC_eq]

/-! ### LT sums -/

theorem skip_spec (hLp : p.Lp.Prime) (hL : 0 < p.L) {a : ℕ} (ha : 0 < a) (haLp : a < p.Lp)
    (hb : b < p.Lp) :
    ∃ k < p.Lp, p.skip a b = (b + k * a) % p.Lp ∧ (b + k * a) % p.Lp < p.L ∧
      ∀ j < k, p.L ≤ (b + j * a) % p.Lp := by
  obtain ⟨n, hn, hzero⟩ := exists_step_zero hLp ha haLp b
  have hstop : decide (p.L ≤ (fun b => (b + a) % p.Lp)^[n] b) = false := by
    rw [iterate_add_mod hb, hzero]
    exact decide_eq_false (by omega)
  obtain ⟨k, hk, heq, hend, hrun⟩ :=
    iterWhile_spec (fun b => decide (p.L ≤ b)) p.Lp hn.le hstop
  simp only [iterate_add_mod hb, decide_eq_true_eq, decide_eq_false_iff_not, Nat.not_le]
    at heq hend hrun
  exact ⟨k, hk.trans_lt hn, heq, hend, hrun⟩

theorem foldl_add (c : List (Symbol z)) (bs : List ℕ) (e : Symbol z) :
    bs.foldl (fun e b => vectorXor e (c.getD b 0) z) e = e + (bs.map (value c)).sum := by
  induction bs generalizing e with
  | nil => exact (add_zero e).symm
  | cons b bs ih =>
    rw [List.foldl_cons, ih, vectorXor_symbol, List.map_cons, List.sum_cons, add_assoc]
    rfl

theorem ltSymbol_eq (c : List (Symbol z)) (t : Triple) :
    p.ltSymbol c t = ((p.walk t).map (value c)).sum := by
  unfold ltSymbol
  cases p.walk t with
  | nil => rfl
  | cons b bs => exact foldl_add c bs (value c b)

theorem dot_flips (r : Row n) (hc : c.length = n) (bs : List ℕ) :
    dot n (bs.foldl (fun r b => r.modify b not) r).get (value c) =
      dot n r.get (value c) + (bs.map (value c)).sum := by
  induction bs generalizing r with
  | nil => exact (add_zero _).symm
  | cons b bs ih =>
    have hflip : dot n (r.modify b not).get (value c) = dot n r.get (value c) + value c b := by
      by_cases hb : b < n
      · rw [dot_xor (a := r.get) (b := fun i => decide (b = i)), dot_unit hb fun t _ => rfl]
        intro i hi
        rw [XorArray.get_modify]
        by_cases hbi : b = i <;> simp [hbi, hi]
      · have hkeep : r.modify b not = r := by
          refine XorArray.ext_get fun i hi => ?_
          rw [XorArray.get_modify, if_neg (by omega)]
        have hzero : value c b = 0 := by
          rw [value, List.getD_eq_getElem?_getD, List.getElem?_eq_none (by omega)]
          rfl
        rw [hkeep, hzero, add_zero]
    rw [List.foldl_cons, ih, hflip, List.map_cons, List.sum_cons, add_assoc]

theorem ltSymbol_eq_dot (hc : c.length = p.L) (t : Triple) :
    p.ltSymbol c t = dot p.L (p.matrixRow t).get (value c) := by
  rw [ltSymbol_eq, matrixRow, dot_flips _ hc, dot_zero (fun i _ => XorArray.get_zeros i), zero_add]

/- The coefficients of an encoding symbol over the first `K` intermediate symbols. -/
def coefficients (p : Precode) (t : Triple) : Row p.L :=
  p.inverseLDPC (p.inverseHALF (p.matrixRow t))

def padded (p : Precode) (x : List (Symbol z)) : List (Symbol z) :=
  x ++ List.replicate (p.L - p.K) 0

theorem value_padded (hx : x.length = p.K) (i : ℕ) :
    value (p.padded x) i = if i < p.K then value x i else 0 := by
  simp only [value, padded, List.getD_eq_getElem?_getD]
  split_ifs with hi
  · rw [List.getElem?_append_left (by omega)]
  · rw [List.getElem?_append_right (by omega), List.getElem?_replicate]
    split_ifs <;> rfl

theorem dot_padded (hv : p.Valid) (r : Row p.L) (hx : x.length = p.K) :
    dot p.L r.get (value (p.padded x)) = dot p.K r.get (value x) := by
  have hL := hv.L_eq
  rw [dot_of_le (K := p.K) (by omega) fun i _ hi => (value_padded hx i).trans (if_neg (by omega))]
  exact dot_congr (fun _ _ => rfl) fun i hi => (value_padded hx i).trans (if_pos hi)

theorem ltSymbol_precode (hv : p.Valid) (hx : x.length = p.K) (t : Triple) :
    p.ltSymbol (p.half (p.ldpc (p.padded x))) t = dot p.K (p.coefficients t).get (value x) := by
  have hlen : (p.padded x).length = p.L := by
    have := hv.L_eq
    rw [padded, List.length_append, List.length_replicate]
    omega
  rw [ltSymbol_eq_dot ((length_half _).trans ((length_ldpc _).trans hlen)),
    dot_half_ldpc hv _ hlen, ← coefficients, dot_padded hv _ hx]

end Precode

end Mp2bs.Raptor
