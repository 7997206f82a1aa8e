import Mp2bs.Raptor.Precode

/-!
# Encoder and decoder of the Raptor code (`raptor.go:596-722`, `774-1195`)

The counters `XORENC` and `XORDEC`, which nothing reads, are left out. `NULL` is `none`.
-/

namespace Mp2bs.Raptor
open Mp2bs.Lib Mp2bs.Lib.Gf2 Mp2bs.Lib.Elimination

/- `raptor_params_t` with `SYMBOL_SIZE = z` after a successful initialization. -/
structure RaptorParams (z : ℕ) extends Precode where
  A : List (Row L)
  AI : List (Row K)

/- The rows of `AA` and `AI` in `FindInverseMatrix`. -/
def inverseOps (K : ℕ) : Ops (Row K × Row K) where
  coeff e := e.1.get
  add a b := (a.1 + b.1, a.2 + b.2)

-- FindInverseMatrix, 596-650
def Precode.findInverseMatrix (p : Precode) (A : List (Row p.L)) : Option (List (Row p.K)) :=
  let rows := (List.range p.K).map fun i =>
    (XorArray.ofFn p.K (A.getD i 0).get, (XorArray.zeros Bool p.K).modify i fun _ => true)
  (eliminate (inverseOps p.K) .add rows p.K).map fun rows => rows.map (·.2)

/- The rows of `AA` and `d` in `IntermediateKSymbols`. -/
def symbolOps (p : Precode) (z : ℕ) : Ops (Row p.L × Symbol z) where
  coeff e := e.1.get
  add a b := (vectorXor a.1 b.1 p.K, vectorXor a.2 b.2 z)

-- IntermediateKSymbols, 653-722
def Precode.intermediateKSymbols {z : ℕ} (p : Precode) (A : List (Row p.L))
    (e : List (Symbol z)) : Option (List (Symbol z)) :=
  let rows := (List.range p.N).map fun i => (A.getD i 0, e.getD i 0)
  (eliminate (symbolOps p z) .swap rows p.K).map fun rows => p.padded ((rows.take p.K).map (·.2))

/- The parameters that `RaptorInitialization` computes before the matrices
(778-811). -/
def precode (Jk K N M : ℕ) : Precode :=
  let S := findS K
  let H := findH (K + S)
  let L := K + S + H
  let Lp := nextPrime L
  ⟨K, S, H, L, Lp, N, M, (List.range M).map (triple Jk Lp), makeGraySequence H (K + S)⟩

/- `RaptorInitialization` (774-831). Outside the table `J` the source reads past
the end of an array; there are no parameters then. -/
def raptorInitialization (K z N M : ℕ) : Option (RaptorParams z) :=
  match J[K]? with
  | none => none
  | some Jk =>
    let p := precode Jk K N M
    let A := p.findMatrixA.map fun r => p.inverseLDPC (p.inverseHALF r)
    (p.findInverseMatrix A).map fun AI => { p with A, AI }

namespace RaptorParams
variable {z : ℕ} (p : RaptorParams z)

-- intermediate symbols 0 .. K-1 of the encoder, 983-1003
def intermediate (data : List (Symbol z)) : List (Symbol z) :=
  (List.range p.K).map fun j =>
    (List.range p.K).foldl (fun c i =>
      if (p.AI.getD j 0).get i then vectorXor c (data.getD i 0) z else c) 0

-- RaptorEncoder2, 965-1085
def raptorEncoder2 (data : List (Symbol z)) (numSymsPerEncBlk : ℕ) : List (Symbol z) :=
  p.ltCode (p.half (p.ldpc (p.padded (p.intermediate data)))) numSymsPerEncBlk

-- RaptorEncoder, 842-962: the same body with params->M symbols
def raptorEncoder (data : List (Symbol z)) : List (Symbol z) := p.raptorEncoder2 data p.M

/- `Anew` of `RaptorDecoder` after `InverseHALF` and `InverseLDPC`. -/
def decodeRows (dataMap : List ℕ) : List (Row p.L) :=
  (p.findMatrixAUsingSymbols dataMap).map fun r => p.inverseLDPC (p.inverseHALF r)

-- RaptorDecoder, 1088-1195
def raptorDecoder (data : List (Symbol z)) (dataMap : List ℕ) : Option (List (Symbol z)) :=
  (p.intermediateKSymbols (p.decodeRows dataMap) data).map fun c =>
    p.ltCode (p.half (p.ldpc c)) p.K

end RaptorParams

/-! ### The inverse matrix -/

theorem lawful_inverseOps (K : ℕ) : Lawful (inverseOps K) K :=
  fun a b _ ht => XorArray.get_add ht a.1 b.1

section
variable {V : Type} [AddCommGroup V] [Module (ZMod 2) V]

theorem findInverseMatrix_solves {p : Precode} {A : List (Row p.L)} {AI : List (Row p.K)}
    (h : p.findInverseMatrix A = some AI) (y : ℕ → V) {i : ℕ} (hi : i < p.K) :
    dot p.K (A.getD i 0).get (fun j => dot p.K (AI.getD j 0).get y) = y i := by
  rw [Precode.findInverseMatrix, Option.map_eq_some_iff] at h
  obtain ⟨rows, hrows, rfl⟩ := h
  have hrhs : ∀ a b : Row p.K × Row p.K,
      dot p.K ((inverseOps p.K).add a b).2.get y = dot p.K a.2.get y + dot p.K b.2.get y :=
    fun a b => dot_xor (fun t ht => XorArray.get_add ht a.2 b.2) y
  have hsol := (solves_iff (x := fun j => dot p.K ((rows.map Prod.snd).getD j 0).get y)
    (lawful_inverseOps p.K) (fun e => dot p.K e.2.get y) hrhs
    (by rw [List.length_map, List.length_range]) hrows).mpr ?_
  · have hrow := hsol i _ (by rw [List.getElem?_map, List.getElem?_range hi, Option.map_some])
    have hunit : dot p.K ((XorArray.zeros Bool p.K).modify i fun _ => true).get y = y i := by
      refine dot_unit hi (fun t ht => ?_) y
      rw [XorArray.get_modify, XorArray.get_zeros]
      by_cases hit : i = t
      · simp [hit, ht]
      · simp [hit]
        rfl
    rw [Solves, hunit] at hrow
    rw [← hrow]
    exact dot_congr (fun t ht => (XorArray.get_ofFn _ ht).symm) fun _ _ => rfl
  · intro j e he
    rw [List.getD_eq_getElem?_getD, List.getElem?_map, he]
    rfl

end

/-! ### The initialization -/

theorem precode_valid (Jk : ℕ) {K : ℕ} (N M : ℕ) : (precode Jk K N M).Valid := by
  have hS := findS_pos K
  refine ⟨rfl, hS, fun i => ?_⟩
  have hspec := makeGraySequence_spec (findH_spec (n := K + findS K) (by omega))
  show (makeGraySequence (findH (K + findS K)) (K + findS K)).getD i 0 < 2 ^ findH (K + findS K)
  rw [List.getD_eq_getElem?_getD]
  cases hm : (makeGraySequence (findH (K + findS K)) (K + findS K))[i]? with
  | none => exact Nat.two_pow_pos _
  | some m => exact hspec.2 m (List.mem_of_getElem? hm)

/- What the encoder and the decoder use of their parameters. -/
structure RaptorParams.Valid {z : ℕ} (p : RaptorParams z) : Prop where
  precode : p.toPrecode.Valid
  A_eq : p.A = p.findMatrixA.map fun r => p.inverseLDPC (p.inverseHALF r)
  inverse : p.findInverseMatrix p.A = some p.AI

theorem raptorInitialization_valid {K z N M : ℕ} {p : RaptorParams z}
    (h : raptorInitialization K z N M = some p) : p.Valid ∧ p.K = K ∧ p.N = N ∧ p.M = M := by
  rw [raptorInitialization] at h
  cases hJ : J[K]? with
  | none =>
    rw [hJ] at h
    cases h
  | some Jk =>
    rw [hJ] at h
    simp only [Option.map_eq_some_iff] at h
    obtain ⟨AI, hAI, rfl⟩ := h
    exact ⟨⟨precode_valid Jk N M, rfl, hAI⟩, rfl, rfl, rfl⟩

namespace RaptorParams
variable {z : ℕ} {p : RaptorParams z}

variable {i num : ℕ} {data source : List (Symbol z)} {dataMap : List ℕ}

theorem A_getD (hv : p.Valid) (hi : i < p.K) : p.A.getD i 0 = p.coefficients (p.tripleOf i) := by
  rw [hv.A_eq, Precode.findMatrixA, List.map_map, List.getD_eq_getElem?_getD, List.getElem?_map,
    List.getElem?_range hi]
  rfl

theorem length_intermediate (data : List (Symbol z)) : (p.intermediate data).length = p.K := by
  rw [intermediate, List.length_map, List.length_range]

theorem foldl_select (r : Row p.K) (data : List (Symbol z)) (n : ℕ) :
    (List.range n).foldl (fun c i => if r.get i then vectorXor c (data.getD i 0) z else c) 0 =
      dot n r.get (value data) := by
  induction n with
  | zero => rfl
  | succ n ih =>
    rw [List.range_succ, List.foldl_append, ih, dot, dot, Finset.sum_range_succ]
    simp only [List.foldl_cons, List.foldl_nil, Precode.vectorXor_symbol]
    split_ifs
    · rfl
    · exact (add_zero _).symm

theorem value_intermediate (data : List (Symbol z)) {j : ℕ} (hj : j < p.K) :
    value (p.intermediate data) j = dot p.K (p.AI.getD j 0).get (value data) := by
  rw [value, intermediate, List.getD_eq_getElem?_getD, List.getElem?_map, List.getElem?_range hj,
    ← foldl_select]
  rfl

theorem raptorEncoder2_getElem? (hv : p.Valid) (data : List (Symbol z)) (hi : i < num) :
    (p.raptorEncoder2 data num)[i]? =
      some (dot p.K (p.coefficients (p.tripleOf i)).get (value (p.intermediate data))) := by
  rw [raptorEncoder2, Precode.ltCode, List.getElem?_map, List.getElem?_range hi, Option.map_some,
    Precode.ltSymbol_precode hv.precode (length_intermediate data)]

theorem raptorEncoder2_source (hv : p.Valid) (data : List (Symbol z)) (hi : i < num)
    (hK : i < p.K) : (p.raptorEncoder2 data num)[i]? = some (value data i) := by
  have hsolve := findInverseMatrix_solves hv.inverse (value data) hK
  rw [raptorEncoder2_getElem? hv data hi, ← A_getD hv hK, ← hsolve]
  exact congrArg some (dot_congr (fun _ _ => rfl) fun j hj => value_intermediate data hj)

theorem length_raptorEncoder2 (data : List (Symbol z)) (num : ℕ) :
    (p.raptorEncoder2 data num).length = num := by
  rw [raptorEncoder2, Precode.ltCode, List.length_map, List.length_range]

theorem take_raptorEncoder2 (hv : p.Valid) (hdata : data.length = p.K) (num : ℕ) :
    (p.raptorEncoder2 data num).take p.K = data.take num := by
  refine List.ext_getElem? fun i => ?_
  rw [List.getElem?_take, List.getElem?_take]
  by_cases hi : i < p.K ∧ i < num
  · rw [if_pos hi.1, if_pos hi.2, raptorEncoder2_source hv data hi.2 hi.1, value,
      List.getD_eq_getElem?_getD, List.getElem?_eq_getElem (by omega)]
    rfl
  · have hleft : (if i < p.K then (p.raptorEncoder2 data num)[i]? else none) = none := by
      split_ifs with hK
      · exact List.getElem?_eq_none (by rw [length_raptorEncoder2]; omega)
      · rfl
    have hright : (if i < num then data[i]? else none) = none := by
      split_ifs with hnum
      · exact List.getElem?_eq_none (by omega)
      · rfl
    rw [hleft, hright]

/-! ### The decoder -/

theorem lawful_symbolOps (hv : p.Valid) : Lawful (symbolOps p.toPrecode z) p.K := by
  intro a b t ht
  have hL := hv.precode.L_eq
  have hget := XorArray.get_xorBelow (show t < p.L by omega) ((p.K + 15) / 16 * 16) a.1 b.1
  rwa [if_pos (by omega)] at hget

/- The rows of `IntermediateKSymbols` for a list of received symbols. -/
def decodeSystem (p : RaptorParams z) (data : List (Symbol z)) (dataMap : List ℕ) :
    List (Row p.L × Symbol z) :=
  (List.range p.N).map fun i => ((p.decodeRows dataMap).getD i 0, data.getD i 0)

/-- The matrix that `RaptorDecoder` eliminates. -/
def reducedMatrix (p : RaptorParams z) (dataMap : List ℕ) : Matrix (Fin p.N) (Fin p.K) (ZMod 2) :=
  fun i j => if ((p.decodeRows dataMap).getD i 0).get j then 1 else 0

theorem decodeRows_getD (p : RaptorParams z) (dataMap : List ℕ) (hi : i < p.N) :
    (p.decodeRows dataMap).getD i 0 = p.coefficients (p.tripleOf (dataMap.getD i 0)) := by
  rw [decodeRows, Precode.findMatrixAUsingSymbols, List.map_map, List.getD_eq_getElem?_getD,
    List.getElem?_map, List.getElem?_range hi]
  rfl

theorem length_decodeSystem (data : List (Symbol z)) (dataMap : List ℕ) :
    (p.decodeSystem data dataMap).length = p.N := by
  rw [decodeSystem, List.length_map, List.length_range]

theorem raptorDecoder_eq (data : List (Symbol z)) (dataMap : List ℕ) :
    p.raptorDecoder data dataMap =
      (eliminate (symbolOps p.toPrecode z) .swap (p.decodeSystem data dataMap) p.K).map fun rows =>
        p.ltCode (p.half (p.ldpc (p.padded ((rows.take p.K).map (·.2))))) p.K := by
  rw [raptorDecoder, Precode.intermediateKSymbols, decodeSystem, Option.map_map]
  rfl

theorem raptorDecoder_eq_none_iff (hv : p.Valid) (hKN : p.K ≤ p.N) (data : List (Symbol z))
    (dataMap : List ℕ) :
    p.raptorDecoder data dataMap = none ↔ (p.reducedMatrix dataMap).rank < p.K := by
  rw [raptorDecoder_eq, Option.map_eq_none_iff]
  refine eliminate_eq_none_iff (lawful_symbolOps hv) (length_decodeSystem data dataMap) hKN _ ?_
  intro i j e he
  rw [decodeSystem, List.getElem?_map, List.getElem?_range i.isLt, Option.map_some,
    Option.some.injEq] at he
  rw [← he]
  rfl

theorem decoded_of_unknowns (hv : p.Valid) (hKN : p.K ≤ p.N) (hsource : source.length = p.K)
    {rows : List (Row p.L × Symbol z)}
    (hrun : eliminate (symbolOps p.toPrecode z) .swap (p.decodeSystem data dataMap) p.K = some rows)
    (hval : ∀ i e, i < p.K → rows[i]? = some e → e.2 = value (p.intermediate source) i) :
    p.ltCode (p.half (p.ldpc (p.padded ((rows.take p.K).map (·.2))))) p.K = source := by
  have hlen := (eliminate_some (lawful_symbolOps hv) le_rfl hrun).1
  rw [length_decodeSystem] at hlen
  -- the first K right-hand sides are the intermediate symbols of the encoder
  have hinter : (rows.take p.K).map (·.2) = p.intermediate source := by
    refine List.ext_getElem ?_ ?_
    · rw [List.length_map, List.length_take, length_intermediate]
      omega
    · intro i hi hi'
      rw [length_intermediate] at hi'
      have hrow := List.getElem?_eq_getElem (show i < rows.length by omega)
      rw [List.getElem_map, List.getElem_take, hval i _ hi' hrow, value, List.getD_eq_getElem]
  rw [hinter, ← raptorEncoder2]
  have hall := take_raptorEncoder2 hv hsource p.K
  rw [List.take_of_length_le (by rw [length_raptorEncoder2]),
    List.take_of_length_le hsource.le] at hall
  exact hall

theorem raptorDecoder_of_encoded (hv : p.Valid) (hKN : p.K ≤ p.N) (hsource : source.length = p.K)
    (hdata : ∀ i < p.N, data.getD i 0 = dot p.K (p.coefficients (p.tripleOf (dataMap.getD i 0))).get (value (p.intermediate source)))
    : p.raptorDecoder data dataMap = none ∨ p.raptorDecoder data dataMap = some source := by
  rw [raptorDecoder_eq]
  cases hrun : eliminate (symbolOps p.toPrecode z) .swap (p.decodeSystem data dataMap) p.K with
  | none => exact .inl rfl
  | some rows =>
    right
    have hsol : All (Solves (symbolOps p.toPrecode z) p.K (·.2) (value (p.intermediate source)))
        (p.decodeSystem data dataMap) := by
      intro i e he
      have hi : i < p.N := by
        rw [← length_decodeSystem data dataMap]
        exact (List.getElem?_eq_some_iff.mp he).1
      rw [decodeSystem, List.getElem?_map, List.getElem?_range hi, Option.map_some,
        Option.some.injEq] at he
      rw [Solves, ← he]
      simp only [symbolOps]
      rw [decodeRows_getD p dataMap hi, hdata i hi]
    have hval : ∀ i e, i < p.K → rows[i]? = some e → e.2 = value (p.intermediate source) i :=
      fun i e hi he => unknown_of_eliminate (lawful_symbolOps hv) (·.2)
        (fun a b => Precode.vectorXor_symbol a.2 b.2) hrun hsol hi he
    rw [Option.map_some, decoded_of_unknowns hv hKN hsource hrun hval]

theorem raptorDecoder_of_repeated (hv : p.Valid) {n : ℕ} (hN : p.N = n + 1) (hKn : p.K ≤ n)
    (hsource : source.length = p.K)
    (hdata : ∀ i < n, data.getD i 0 = dot p.K (p.coefficients (p.tripleOf (dataMap.getD i 0))).get (value (p.intermediate source)))
    {m : ℕ} (hm : m < n) (hrep : dataMap.getD n 0 = dataMap.getD m 0) :
    p.raptorDecoder data dataMap = none ∨ p.raptorDecoder data dataMap = some source := by
  rw [raptorDecoder_eq]
  cases hrun : eliminate (symbolOps p.toPrecode z) .swap (p.decodeSystem data dataMap) p.K with
  | none => exact .inl rfl
  | some rows =>
    right
    have hget : ∀ i < n + 1, (p.decodeSystem data dataMap)[i]? =
        some (p.coefficients (p.tripleOf (dataMap.getD i 0)), data.getD i 0) := by
      intro i hi
      rw [decodeSystem, List.getElem?_map, List.getElem?_range (by omega), Option.map_some,
        decodeRows_getD p dataMap (by omega)]
    have hspare : Spare (symbolOps p.toPrecode z) p.K n (p.decodeSystem data dataMap) 0 := by
      refine ⟨_, hget n (by omega), Or.inr ⟨m, _, Nat.zero_le m, hm, hget m (by omega), ?_⟩⟩
      intro t _
      simp only [symbolOps, hrep]
    have hval : ∀ i e, i < p.K → rows[i]? = some e → e.2 = value (p.intermediate source) i := by
      intro i e hi he
      refine unknown_of_spare (lawful_symbolOps hv) (·.2)
        (fun a b => Precode.vectorXor_symbol a.2 b.2) hKn
        ((length_decodeSystem data dataMap).trans hN) hspare hrun ?_ hi he
      intro k e hk he
      rw [hget k (by omega), Option.some.injEq] at he
      rw [Solves, ← he]
      simp only [symbolOps]
      rw [hdata k hk]
    rw [Option.map_some, decoded_of_unknowns hv (by omega) hsource hrun hval]

theorem raptorDecoder_eq_none_of_few (hv : p.Valid) (hKN : p.K ≤ p.N) (data : List (Symbol z))
    {ESIs : Finset ℕ} (hESIs : ∀ i < p.N, dataMap.getD i 0 ∈ ESIs) (hfew : ESIs.card < p.K) :
    p.raptorDecoder data dataMap = none := by
  rw [raptorDecoder_eq_none_iff hv hKN]
  refine lt_of_le_of_lt (rank_le_card _ (fun esi j =>
    if (p.coefficients (p.tripleOf esi)).get j then 1 else 0) ESIs ?_) hfew
  intro i
  refine ⟨_, hESIs i i.isLt, ?_⟩
  funext j
  rw [reducedMatrix, decodeRows_getD p dataMap i.isLt]

end RaptorParams

/-- The code is systematic: the first `K` encoding symbols (of `num`, or of `M` in
`RaptorEncoder`) are the source symbols. -/
theorem raptorEncoder_systematic {K z N M : ℕ} {p : RaptorParams z}
    (h : raptorInitialization K z N M = some p) {data : List (Symbol z)}
    (hdata : data.length = K) :
    (∀ num, (p.raptorEncoder2 data num).take K = data.take num) ∧
      (p.raptorEncoder data).take K = data.take M := by
  obtain ⟨hv, rfl, -, rfl⟩ := raptorInitialization_valid h
  exact ⟨RaptorParams.take_raptorEncoder2 hv hdata, RaptorParams.take_raptorEncoder2 hv hdata p.M⟩

theorem raptorEncoder_systematic_one :
    ∃ p, raptorInitialization 1 1 1 2 = some p ∧
      (p.raptorEncoder [⟨[7], rfl⟩]).take 1 = [⟨[7], rfl⟩] := by
  obtain ⟨p, hp⟩ := Option.isSome_iff_exists.mp
    (show (raptorInitialization 1 1 1 2).isSome = true by decide +kernel)
  have hdata : [(⟨[7], rfl⟩ : Symbol 1)].length = 1 := rfl
  exact ⟨p, hp, (raptorEncoder_systematic hp hdata).2⟩

/-- Decoding `N` of the encoding symbols: the decoder fails exactly when its matrix does not
have full column rank, and otherwise returns the source symbols. -/
theorem raptorDecoder_inverts {K z N M : ℕ} {p : RaptorParams z}
    (h : raptorInitialization K z N M = some p) {data : List (Symbol z)}
    (hdata : data.length = K) (hKN : K ≤ N) {num : ℕ} {ESIs : List ℕ} (hN : ESIs.length = N)
    (hESIs : ∀ esi ∈ ESIs, esi < num) :
    let received := ESIs.map fun esi => (p.raptorEncoder2 data num).getD esi 0
    (p.raptorDecoder received ESIs = none ↔ (p.reducedMatrix ESIs).rank < K) ∧
      (¬ (p.reducedMatrix ESIs).rank < K → p.raptorDecoder received ESIs = some data) := by
  intro received
  obtain ⟨hv, rfl, rfl, -⟩ := raptorInitialization_valid h
  have hnone := RaptorParams.raptorDecoder_eq_none_iff hv hKN received ESIs
  refine ⟨hnone, fun hrank => ?_⟩
  have hencoded : ∀ i < p.N, received.getD i 0 =
      dot p.K (p.coefficients (p.tripleOf (ESIs.getD i 0))).get (value (p.intermediate data)) := by
    intro i hi
    have hESI : ESIs[i]? = some ESIs[i] := List.getElem?_eq_getElem (by omega)
    have hlt := hESIs _ (List.mem_of_getElem? hESI)
    simp only [received, List.getD_eq_getElem?_getD, List.getElem?_map, hESI, Option.map_some,
      Option.getD_some, RaptorParams.raptorEncoder2_getElem? hv data hlt]
  rcases RaptorParams.raptorDecoder_of_encoded hv hKN hdata hencoded with hfail | hok
  · exact absurd (hnone.mp hfail) hrank
  · exact hok

def repair (p : RaptorParams 1) : List (Symbol 1) :=
  [2].map fun esi => (p.raptorEncoder2 [⟨[7], rfl⟩] 3).getD esi 0

theorem raptorDecoder_inverts_one :
    ∃ p, raptorInitialization 1 1 1 3 = some p ∧ ¬ (p.reducedMatrix [2]).rank < 1 ∧
      p.raptorDecoder (repair p) [2] = some [⟨[7], rfl⟩] := by
  have hrun : (raptorInitialization 1 1 1 3).any
      (fun p => (p.raptorDecoder (repair p) [2]).isSome) = true := by decide +kernel
  obtain ⟨p, hp, hsome⟩ := (Option.any_eq_true ..).mp hrun
  have hdata : [(⟨[7], rfl⟩ : Symbol 1)].length = 1 := rfl
  have hlen : [2].length = 1 := rfl
  have hlt : ∀ esi ∈ [2], esi < 3 := by decide
  have h := raptorDecoder_inverts hp hdata le_rfl hlen hlt
  have hrank : ¬ (p.reducedMatrix [2]).rank < 1 := by
    rw [← h.1]
    intro hnone
    rw [repair, hnone] at hsome
    cases hsome
  exact ⟨p, hp, hrank, h.2 hrank⟩

end Mp2bs.Raptor
