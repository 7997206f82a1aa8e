import Mp2bs.Lib.Loop
import Mp2bs.Lib.Progression
import Mp2bs.Raptor.Tables

/-!
# Parameters of the Raptor code (`raptor.go:336-455`, `492-531`, `774-807`)

The two copies of `raptor.go` (`mp2session` and `enhanced-quic/fec`) differ only in the
suffix of the C names. The rates `minCR` and `CR` enter only through `N` and `M`, which
are inputs here. The double computations of the source are on small integers: for `K` in
the table `J` the ceiling and the factorials are exact.
-/

namespace Mp2bs.Raptor
open Mp2bs.Lib

-- Isp, 336-346
def isp (x : ℕ) : Bool := (List.range' 2 (x - 2)).all fun i => x % i != 0

-- Factor, 348-357
def factor (n : ℕ) : ℕ := (List.range n).foldl (fun v i => v * (i + 1)) 1

def nextPrime (x : ℕ) : ℕ := iterWhile (fun s => !isp s) (· + 1) x x

/- The loops of `RaptorInitialization` (778-795). -/
def findX (K : ℕ) : ℕ := iterWhile (fun X => decide (X * (X - 1) < 2 * K)) (· + 1) (2 * K) 1

def findS (K : ℕ) : ℕ :=
  nextPrime (iterWhile (fun S => decide (S < (K + 99) / 100 + findX K)) (· + 1)
    ((K + 99) / 100 + findX K) 1)

def halfChoices (H : ℕ) : ℕ := factor H / (factor ((H + 1) / 2) * factor (H - (H + 1) / 2))

def findH (n : ℕ) : ℕ := iterWhile (fun H => decide (halfChoices H < n)) (· + 1) n 1

structure Triple where
  d : ℕ
  a : ℕ
  b : ℕ
  deriving Repr, DecidableEq

-- rg, 360-370
def rg (v : ℕ) : ℕ :=
  let d := [1, 2, 3, 4, 10, 11, 40]
  let f := [10241, 491582, 712794, 831695, 948446, 1032189, 1048576]
  d.getD (f.findIdx (v < ·)) 0

-- rd, 373-383
def rd (X i m : ℕ) : ℕ := (V0.getD ((X + i) % 256) 0 ^^^ V1.getD ((X / 256 + i) % 256) 0) % m

-- triple, 386-406
def triple (Jk Lp i : ℕ) : Triple :=
  let Q := 65521
  let A := (53591 + Jk * 997) % Q
  let B := 10267 * (Jk + 1) % Q
  let Y := (B + i * A) % Q
  ⟨rg (rd Y 0 1048576), 1 + rd Y 1 (Lp - 1), rd Y 2 Lp⟩

/- The loop over the binary digits of `count` that the Half stages share: the places of the
ones. -/
def oneBitsFrom : ℕ → ℕ → ℕ → List ℕ
  | 0, _, _ => []
  | fuel + 1, j, count =>
    let rest := if count / 2 = 0 then [] else oneBitsFrom fuel (j + 1) (count / 2)
    if count % 2 = 1 then j :: rest else rest

def oneBits (count : ℕ) : List ℕ := oneBitsFrom (count + 1) 0 count

def gray (i : ℕ) : ℕ := i ^^^ (i / 2)

/- The loop of `MakeGraySequence` (506-530), which still needs `need` values. -/
def grayLoop (Hp : ℕ) : ℕ → ℕ → ℕ → List ℕ
  | 0, _, _ => []
  | fuel + 1, i, need =>
    if need = 0 then []
    else if (oneBits (gray i)).length = Hp then gray i :: grayLoop Hp fuel (i + 1) (need - 1)
    else grayLoop Hp fuel (i + 1) need

def makeGraySequence (H n : ℕ) : List ℕ := grayLoop ((H + 1) / 2) (2 ^ H) 0 n

/-! ### The loops of the initialization end -/

variable {x n j H fuel k : ℕ}

theorem isp_iff (hx : 2 ≤ x) : isp x = true ↔ x.Prime := by
  rw [isp, List.all_eq_true, Nat.prime_def_lt']
  constructor
  · intro h
    refine ⟨hx, fun m hm hlt hdvd => ?_⟩
    have hmem := h m (List.mem_range'_1.mpr ⟨hm, by omega⟩)
    rw [Nat.mod_eq_zero_of_dvd hdvd] at hmem
    cases hmem
  · rintro ⟨-, h⟩ m hm
    rw [List.mem_range'_1] at hm
    rw [bne_iff_ne]
    exact fun hmod => h m hm.1 (by omega) (Nat.dvd_of_mod_eq_zero hmod)

theorem le_nextPrime (x : ℕ) : x ≤ nextPrime x := le_count _ _ _

theorem nextPrime_prime (hx : 2 ≤ x) : (nextPrime x).Prime := by
  obtain ⟨y, hy, hxy, hy2⟩ := Nat.exists_prime_lt_and_le_two_mul x (by omega)
  have hstop : (!isp y) = false := by
    rw [(isp_iff (by omega)).mpr hy]
    rfl
  obtain ⟨z, hz, hxz, -, hend, -⟩ :=
    count_spec (fun s => !isp s) x hxy.le (by omega) hstop
  rw [nextPrime, hz]
  refine (isp_iff (by omega)).mp ?_
  simpa using hend

theorem findX_spec (K : ℕ) : 2 * K ≤ findX K * (findX K - 1) := by
  have hstop : decide ((2 * K + 1) * (2 * K + 1 - 1) < 2 * K) = false := by
    rw [decide_eq_false_iff_not, Nat.add_sub_cancel, Nat.not_lt]
    exact Nat.le_mul_of_pos_left _ (Nat.succ_pos _)
  obtain ⟨z, hz, -, -, hend, -⟩ :=
    count_spec (fun X => decide (X * (X - 1) < 2 * K)) (2 * K)
      (show 1 ≤ 2 * K + 1 by omega) (by omega) hstop
  rw [findX, hz]
  exact Nat.not_lt.mp (of_decide_eq_false hend)

theorem findS_pos (K : ℕ) : 0 < findS K :=
  (le_count _ _ 1).trans (le_nextPrime _)

theorem findS_spec {K : ℕ} (hK : 0 < K) : (findS K).Prime ∧ 3 ≤ findS K := by
  have hX : 2 ≤ findX K := by
    have h := findX_spec K
    by_contra hlt
    have hzero : findX K * (findX K - 1) = 0 := by
      have : findX K - 1 = 0 := by omega
      rw [this, Nat.mul_zero]
    omega
  have hstop : decide ((K + 99) / 100 + findX K < (K + 99) / 100 + findX K) = false :=
    decide_eq_false (Nat.lt_irrefl _)
  obtain ⟨z, hz, -, -, hend, -⟩ :=
    count_spec (fun S => decide (S < (K + 99) / 100 + findX K))
      ((K + 99) / 100 + findX K) (show 1 ≤ (K + 99) / 100 + findX K by omega)
      (by omega) hstop
  have hz3 : 3 ≤ z := by
    have := of_decide_eq_false hend
    omega
  rw [findS, hz]
  exact ⟨nextPrime_prime (by omega), hz3.trans (le_nextPrime z)⟩

theorem factor_eq (n : ℕ) : factor n = n.factorial := by
  induction n with
  | zero => rfl
  | succ n ih =>
    rw [factor, List.range_succ, List.foldl_append, List.foldl_cons, List.foldl_nil, ← factor, ih,
      Nat.factorial_succ, Nat.mul_comm]

theorem halfChoices_eq (H : ℕ) : halfChoices H = H.choose ((H + 1) / 2) := by
  rw [halfChoices, factor_eq, factor_eq, factor_eq, Nat.choose_eq_factorial_div_factorial (by omega)]

theorem findH_spec (hn : 0 < n) : n ≤ (findH n).choose ((findH n + 1) / 2) := by
  have hmid : n ≤ n.choose ((n + 1) / 2) := by
    have hle := Nat.choose_le_middle 1 n
    rw [Nat.choose_one_right, ← Nat.choose_symm (Nat.div_le_self n 2)] at hle
    have hsub : n - n / 2 = (n + 1) / 2 := by omega
    rwa [hsub] at hle
  have hstop : decide (halfChoices n < n) = false := by
    rw [halfChoices_eq]
    exact decide_eq_false (Nat.not_lt.mpr hmid)
  obtain ⟨z, hz, -, -, hend, -⟩ :=
    count_spec (fun H => decide (halfChoices H < n)) n (show 1 ≤ n by omega)
      (by omega) hstop
  rw [findH, hz, ← halfChoices_eq]
  exact Nat.not_lt.mp (of_decide_eq_false hend)

theorem rd_lt {m : ℕ} (hm : 0 < m) (X i : ℕ) : rd X i m < m := Nat.mod_lt _ hm

theorem triple_bounds {Lp : ℕ} (hLp : 2 ≤ Lp) (Jk i : ℕ) :
    0 < (triple Jk Lp i).a ∧ (triple Jk Lp i).a < Lp ∧ (triple Jk Lp i).b < Lp := by
  simp only [triple]
  have ha := rd_lt (show 0 < Lp - 1 by omega)
    ((10267 * (Jk + 1) % 65521 + i * ((53591 + Jk * 997) % 65521)) % 65521) 1
  exact ⟨by omega, by omega, rd_lt (by omega) _ _⟩

/-! ### The Gray sequence -/

theorem two_mul_add_div_two (w : ℕ) (b : Bool) : (2 * w + b.toNat) / 2 = w := by
  have hb := b.toNat_lt
  omega

theorem oneBitsFrom_two_mul (fuel j w : ℕ) (b : Bool) :
    oneBitsFrom (fuel + 1) j (2 * w + b.toNat) =
      (if b then [j] else []) ++ oneBitsFrom fuel (j + 1) w := by
  have hrest : (if w = 0 then [] else oneBitsFrom fuel (j + 1) w) = oneBitsFrom fuel (j + 1) w := by
    split_ifs with hw
    · subst hw
      cases fuel <;> simp [oneBitsFrom]
    · rfl
  rw [oneBitsFrom, two_mul_add_div_two, hrest]
  cases b
  · rw [if_neg (by simp)]
    rfl
  · rw [if_pos (by simp)]
    rfl

theorem eq_two_mul_add (n : ℕ) : ∃ w, ∃ b : Bool, n = 2 * w + b.toNat := by
  refine ⟨n / 2, n % 2 == 1, ?_⟩
  rcases Nat.mod_two_eq_zero_or_one n with h | h <;> simp [h] <;> omega

theorem oneBitsFrom_fuel {f g : ℕ} (hf : n < 2 ^ f) (hg : n < 2 ^ g) :
    oneBitsFrom f j n = oneBitsFrom g j n := by
  have hzero : ∀ f j, oneBitsFrom f j 0 = [] := by
    intro f j
    cases f <;> simp [oneBitsFrom]
  induction f generalizing g j n with
  | zero =>
    have hn : n = 0 := by simpa using hf
    rw [hn, hzero, hzero]
  | succ f ih =>
    cases g with
    | zero =>
      have hn : n = 0 := by simpa using hg
      rw [hn, hzero, hzero]
    | succ g =>
      obtain ⟨w, b, rfl⟩ := eq_two_mul_add n
      rw [Nat.pow_succ] at hf hg
      rw [oneBitsFrom_two_mul, oneBitsFrom_two_mul, ih (g := g) (by omega) (by omega)]

theorem oneBits_eq (h : n < 2 ^ H) : oneBits n = oneBitsFrom H 0 n :=
  oneBitsFrom_fuel (Nat.lt_of_succ_lt (Nat.lt_two_pow_self (n := n + 1))) h

theorem mem_oneBitsFrom (h : k ∈ oneBitsFrom fuel j n) : j ≤ k ∧ k < j + fuel := by
  induction fuel generalizing j n with
  | zero => cases h
  | succ fuel ih =>
    obtain ⟨w, b, rfl⟩ := eq_two_mul_add n
    rw [oneBitsFrom_two_mul, List.mem_append] at h
    rcases h with h | h
    · cases b
      · cases h
      · have hk := List.mem_singleton.mp h
        omega
    · have hk := ih h
      omega

theorem nodup_oneBitsFrom (fuel j n : ℕ) : (oneBitsFrom fuel j n).Nodup := by
  induction fuel generalizing j n with
  | zero => exact List.nodup_nil
  | succ fuel ih =>
    obtain ⟨w, b, rfl⟩ := eq_two_mul_add n
    rw [oneBitsFrom_two_mul]
    cases b
    · exact ih (j + 1) w
    · refine List.nodup_cons.mpr ⟨fun hmem => ?_, ih (j + 1) w⟩
      have := mem_oneBitsFrom hmem
      omega

theorem mem_oneBitsFrom_iff (hn : n < 2 ^ fuel) :
    j + k ∈ oneBitsFrom fuel j n ↔ n.testBit k = true := by
  induction fuel generalizing j k n with
  | zero =>
    have hzero : n = 0 := by simpa using hn
    simp [hzero, oneBitsFrom]
  | succ fuel ih =>
    obtain ⟨w, b, rfl⟩ := eq_two_mul_add n
    rw [Nat.pow_succ] at hn
    rw [oneBitsFrom_two_mul, List.mem_append]
    cases k with
    | zero =>
      have hrest : j ∉ oneBitsFrom fuel (j + 1) w := by
        intro hmem
        have := mem_oneBitsFrom hmem
        omega
      cases b <;> simp [hrest, Nat.testBit_zero]
    | succ k =>
      have hplace : j + (k + 1) = j + 1 + k := by omega
      have hfirst : j + 1 + k ∉ (if b then [j] else []) := by
        cases b <;> simp
        omega
      rw [Nat.testBit_succ, two_mul_add_div_two, ← ih (j := j + 1) (by omega), hplace]
      exact or_iff_right hfirst

theorem mem_oneBits_iff : k ∈ oneBits n ↔ n.testBit k = true := by
  have hmem : 0 + k ∈ oneBits n ↔ n.testBit k = true :=
    mem_oneBitsFrom_iff (Nat.lt_of_succ_lt Nat.lt_two_pow_self)
  rwa [Nat.zero_add] at hmem

theorem mem_oneBits_lt (h : n < 2 ^ H) (hk : k ∈ oneBits n) : k < H := by
  rw [oneBits_eq h] at hk
  have := mem_oneBitsFrom hk
  omega

theorem card_ones (H j p : ℕ) :
    ∑ w ∈ Finset.range (2 ^ H), (if (oneBitsFrom H j w).length = p then 1 else 0) = H.choose p := by
  have hsplit : ∀ (n : ℕ) (f : ℕ → ℕ), ∑ w ∈ Finset.range (2 * n), f w =
      ∑ w ∈ Finset.range n, (f (2 * w) + f (2 * w + 1)) := by
    intro n f
    induction n with
    | zero => rfl
    | succ n ih =>
      rw [Nat.mul_succ, Finset.sum_range_succ, Finset.sum_range_succ, ih, Finset.sum_range_succ,
        Nat.add_assoc]
  induction H generalizing j p with
  | zero => cases p <;> simp [oneBitsFrom]
  | succ H ih =>
    have heven : ∀ w, (oneBitsFrom (H + 1) j (2 * w)).length = (oneBitsFrom H (j + 1) w).length :=
      fun w => congrArg List.length (oneBitsFrom_two_mul H j w false)
    have hodd : ∀ w, (oneBitsFrom (H + 1) j (2 * w + 1)).length =
        (oneBitsFrom H (j + 1) w).length + 1 :=
      fun w => congrArg List.length (oneBitsFrom_two_mul H j w true)
    rw [Nat.pow_succ, Nat.mul_comm, hsplit]
    simp only [heven, hodd]
    rw [Finset.sum_add_distrib, ih]
    cases p with
    | zero => simp
    | succ p =>
      simp only [Nat.add_right_cancel_iff]
      rw [ih, Nat.choose_succ_succ, Nat.add_comm]

theorem gray_div_two (i : ℕ) : gray i / 2 = gray (i / 2) := by
  rw [gray, gray, Nat.xor_div_two]

theorem gray_injective : Function.Injective gray := by
  intro i
  induction i using Nat.strong_induction_on with
  | _ i ih =>
    intro k h
    have hhalf : gray (i / 2) = gray (k / 2) := by rw [← gray_div_two, h, gray_div_two]
    by_cases hi : i = 0
    · subst hi
      -- gray k = 0 means that k equals its half
      have hk : k ^^^ (k / 2) = 0 := h.symm
      have := Nat.xor_eq_zero_iff.mp hk
      omega
    · have heq := ih (i / 2) (by omega) hhalf
      rw [gray, gray, heq] at h
      exact Nat.xor_left_injective h

theorem gray_lt {i : ℕ} (h : i < 2 ^ H) : gray i < 2 ^ H :=
  Nat.xor_lt_two_pow h ((Nat.div_le_self i 2).trans_lt h)

theorem card_gray_ones (H p : ℕ) :
    ((Finset.range (2 ^ H)).filter fun i => (oneBits (gray i)).length = p).card = H.choose p := by
  calc ((Finset.range (2 ^ H)).filter fun i => (oneBits (gray i)).length = p).card
      = ((Finset.range (2 ^ H)).filter fun w => (oneBits w).length = p).card :=
        card_filter_comp (fun _ => gray_lt) gray_injective.injOn fun w => (oneBits w).length = p
    _ = ∑ w ∈ Finset.range (2 ^ H), (if (oneBitsFrom H 0 w).length = p then 1 else 0) := by
        rw [Finset.card_filter]
        refine Finset.sum_congr rfl fun w hw => ?_
        rw [oneBits_eq (Finset.mem_range.mp hw)]
    _ = H.choose p := card_ones H 0 p

theorem grayLoop_eq (Hp fuel i need : ℕ) :
    grayLoop Hp fuel i need =
      (((List.range' i fuel).filter fun i => (oneBits (gray i)).length = Hp).map gray).take need := by
  induction fuel generalizing i need with
  | zero => simp [grayLoop]
  | succ fuel ih =>
    rw [grayLoop, List.range'_succ]
    by_cases hneed : need = 0
    · simp [hneed]
    · rw [if_neg hneed]
      obtain ⟨k, rfl⟩ := Nat.exists_eq_succ_of_ne_zero hneed
      by_cases hones : (oneBits (gray i)).length = Hp
      · rw [if_pos hones, List.filter_cons_of_pos (by simpa using hones), List.map_cons,
          List.take_succ_cons, ih]
        rfl
      · rw [if_neg hones, List.filter_cons_of_neg (by simpa using hones), ih]

theorem length_grayMasks (H p : ℕ) :
    ((List.range' 0 (2 ^ H)).filter fun i => (oneBits (gray i)).length = p).length = H.choose p := by
  rw [← card_gray_ones H p, ← List.range_eq_range']
  rfl

theorem makeGraySequence_spec (h : n ≤ H.choose ((H + 1) / 2)) :
    (makeGraySequence H n).length = n ∧ ∀ m ∈ makeGraySequence H n, m < 2 ^ H := by
  rw [makeGraySequence, grayLoop_eq]
  constructor
  · rw [List.length_take, List.length_map, length_grayMasks]
    exact Nat.min_eq_left h
  · intro m hm
    obtain ⟨i, hi, rfl⟩ := List.mem_map.mp (List.mem_of_mem_take hm)
    have hlt := List.mem_range'_1.mp (List.mem_filter.mp hi).1
    exact gray_lt (by omega)

theorem grayLoop_of_le (h : n ≤ H.choose ((H + 1) / 2)) (hfuel : 2 ^ H ≤ fuel) :
    grayLoop ((H + 1) / 2) fuel 0 n = makeGraySequence H n := by
  have hsplit : List.range' 0 fuel = List.range' 0 (2 ^ H) ++ List.range' (2 ^ H) (fuel - 2 ^ H) := by
    have happend := List.range'_append_1 (s := 0) (m := 2 ^ H) (n := fuel - 2 ^ H)
    rw [Nat.zero_add, Nat.add_sub_cancel' hfuel] at happend
    exact happend.symm
  rw [makeGraySequence, grayLoop_eq, grayLoop_eq, hsplit, List.filter_append, List.map_append,
    List.take_append_of_le_length]
  rw [List.length_map, length_grayMasks]
  exact h

theorem nodup_makeGraySequence (H n : ℕ) : (makeGraySequence H n).Nodup := by
  have hturns : (List.range' 0 (2 ^ H)).Nodup := List.nodup_range'
  rw [makeGraySequence, grayLoop_eq]
  exact ((hturns.filter _).map gray_injective).sublist (List.take_sublist _ _)

theorem length_oneBits_of_mem {v : ℕ} (h : v ∈ makeGraySequence H n) :
    (oneBits v).length = (H + 1) / 2 := by
  rw [makeGraySequence, grayLoop_eq] at h
  obtain ⟨i, hi, rfl⟩ := List.mem_map.mp (List.mem_of_mem_take h)
  simpa using (List.mem_filter.mp hi).2

end Mp2bs.Raptor
