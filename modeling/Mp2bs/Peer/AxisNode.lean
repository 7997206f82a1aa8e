import Mp2bs.Go
import Mp2bs.Lib.Loop

/-!
# Placing an axis node (`ver_v4/peer/utils/peer_utils_ndim_coord.go:107-211`)

`implement_axis_node` tries all signs for the last coordinates of the earlier axis nodes. For each
combination it flips the coordinates in place, computes its own coordinate by forward substitution,
and flips them back when a square root does not exist. The numbers are of any type `F`; `Arith` holds
the conversion to `float32` and the square root, which is `none` where Go has NaN. Printing and the
log are left out.
-/

namespace Mp2bs.Peer
open Mp2bs.Lib

/-! ### `make_sign_comb` -/

/-- The `[]bool` arrays that were made; a slice is the index of its array. -/
abbrev BoolHeap := List (List Bool)

/-- `newar := make([]bool, len(arr)); copy(newar, arr); newar[i] = b`. The new array gets the next
index. -/
def copyWith (heap : BoolHeap) (arr i : ℕ) (b : Bool) : Except Stop BoolHeap :=
  match heap[arr]? with
  | none => .error .panic
  | some v => if i < v.length then .ok (heap ++ [v.set i b]) else .error .panic

/-- `make_sign_comb(i + left, arr, i)` (`191-211`). -/
def makeSignComb : ℕ → BoolHeap → ℕ → ℕ → Except Stop (List ℕ × BoolHeap)
  | 0, heap, arr, _ => .ok ([arr], heap)
  | left + 1, heap, arr, i => do
    let heap₁ ← copyWith heap arr i true
    let (a, heap₂) ← makeSignComb left heap₁ heap.length (i + 1)
    let heap₃ ← copyWith heap₂ arr i false
    let (b, heap₄) ← makeSignComb left heap₃ heap₂.length (i + 1)
    return (a ++ b, heap₄)

def contents (heap : BoolHeap) (refs : List ℕ) : List (List Bool) := refs.map (heap.getD · [])

/-- `sign` in `implement_axis_node` (`114-115`). -/
def signComb (n : ℕ) : Except Stop (List (List Bool)) := do
  let (refs, heap) ← makeSignComb n [List.replicate n false] 0 0
  return contents heap refs

/-! ### `implement_axis_node` -/

structure Arith (F : Type) where
  round : F → F
  sqrt : F → Option F

section Model

variable {F : Type}

def coordAt (refPoints : List (List F)) (i j : ℕ) : Except Stop F :=
  match refPoints[i]? with
  | none => .error .panic
  | some coord =>
    match coord[j]? with
    | none => .error .panic
    | some x => .ok x

def valueAt (a : List F) (i : ℕ) : Except Stop F :=
  match a[i]? with
  | none => .error .panic
  | some x => .ok x

/-- The loops that change the signs, from index `p` on (`132-136` and `171-175`). -/
def flipSigns [Neg F] : ℕ → List Bool → List (List F) → Except Stop (List (List F))
  | _, [], refPoints => .ok refPoints
  | p, s :: sign, refPoints =>
    if s then flipSigns (p + 1) sign refPoints
    else match refPoints[p + 1]? with
      | none => .error .panic
      | some coord =>
        if p < coord.length then
          flipSigns (p + 1) sign (refPoints.modify (p + 1) fun coord => coord.modify p Neg.neg)
        else .error .panic

variable [Zero F] [Add F] [Sub F] [Mul F] [Div F] [OfNat F 2] [DecidableEq F]

/-- The loop over `j` (`143-145`). -/
def addEarlier (A : Arith F) (refPoints : List (List F)) (result : List F) (i : ℕ) (sum : F) :
    Except Stop F :=
  (List.range (i - 1)).foldlM (fun sum j => do
    let coord ← coordAt refPoints i j
    let x ← valueAt result j
    return sum + (coord * coord - A.round (2 * coord * x))) sum

/-- Turn `i` of the loop over the reference points (`142-152`) with `sum` and `result`. -/
def substitute (A : Arith F) (refPoints : List (List F)) (cost : List F) (acc : F × List F) (i : ℕ) :
    Except Stop (F × List F) := do
  let sum ← addEarlier A refPoints acc.2 i acc.1
  let cost₀ ← valueAt cost 0
  let costᵢ ← valueAt cost i
  let sum := sum + (cost₀ * cost₀ - costᵢ * costᵢ)
  let coord ← coordAt refPoints i (i - 1)
  let sum := if coord = 0 then sum else (sum + coord * coord) / (2 * coord)
  if i - 1 < acc.2.length then .ok (sum, acc.2.set (i - 1) (A.round sum)) else .error .panic

/-- `term` (`154-162`). -/
def radicand (result : List F) (nodeId : ℕ) (cost : List F) : Except Stop F := do
  let term ← (List.range (nodeId - 1)).foldlM (fun term i => do
    let x ← valueAt result i
    return if x = 0 then term else term - x * x) (0 : F)
  let cost₀ ← valueAt cost 0
  return if cost₀ = 0 then term else term + cost₀ * cost₀

/-- The coordinate for one combination of signs, `none` for NaN, and `term` (`141-167`). -/
def place (A : Arith F) (refPoints : List (List F)) (ndim nodeId : ℕ) (cost : List F) :
    Except Stop (F × Option (List F)) := do
  let acc ← (List.range' 1 (nodeId - 1)).foldlM (substitute A refPoints cost)
    (0, List.replicate ndim 0)
  let term ← radicand acc.2 nodeId cost
  if nodeId - 1 < acc.2.length then
    if term = 0 then .ok (term, some acc.2)
    else .ok (term, (A.sqrt term).map fun x => acc.2.set (nodeId - 1) (A.round x))
  else .error .panic

/-- `check_test_performance` (`226-240`); `none` is NaN. -/
def checkTestPerformance (A : Arith F) (dist : List F) (delay : F) : Option F × F :=
  let sum := dist.foldl (fun sum x => if x = 0 then sum else sum + x * x) 0
  (if sum = 0 then some 0 else (A.sqrt sum).map A.round, A.round delay)

/-- What `implement_axis_node` returns: an error, with `tmp` for the log, or a coordinate. -/
inductive Outcome (F : Type)
  | failed (message : String) (tmp : F)
  | placed (result : List F) (sign : List Bool) (test : Option F × F)
  deriving DecidableEq

/-- The text of the error (`184`). -/
def nanMessage (nodeId : ℕ) : String :=
  "NaN value in (" ++ toString nodeId ++ ")th coord of node[" ++ toString nodeId ++
    "] - there is neg-value under Sqrt"

variable [Neg F]

/-- The loop over the combinations from number `k` on (`124-183`), with the reference points after
it. -/
def trySigns (A : Arith F) (ndim nodeId : ℕ) (cost : List F) :
    ℕ → List (List Bool) → List (List F) → F → Except Stop (Outcome F × List (List F))
  | _, [], refPoints, tmp => .ok (.failed (nanMessage nodeId) tmp, refPoints)
  | k, sign :: signs, refPoints, _ => do
    let flipped ← flipSigns 0 sign refPoints
    let (term, placed) ← place A flipped ndim nodeId cost
    match placed with
    | none =>
      let recovered ← flipSigns 0 sign flipped
      trySigns A ndim nodeId cost (k + 1) signs recovered term
    | some result =>
      let cost₀ ← valueAt cost 0
      return (.placed result (if k = 0 then [] else sign) (checkTestPerformance A result cost₀),
        flipped)

/-- `implement_axis_node` (`108-186`). -/
def implementAxisNode (A : Arith F) (refPoints : List (List F)) (ndim nodeId : ℕ) (cost : List F) :
    Except Stop (Outcome F × List (List F)) := do
  let signs ← signComb (nodeId - 1)
  trySigns A ndim nodeId cost 0 signs refPoints 0

end Model

/-! ### The combinations -/

/-- All vectors of `n` signs, `true` before `false`. -/
def signVectors : ℕ → List (List Bool)
  | 0 => [[]]
  | n + 1 => (signVectors n).map (true :: ·) ++ (signVectors n).map (false :: ·)

theorem length_signVectors (n : ℕ) : (signVectors n).length = 2 ^ n := by
  induction n with
  | zero => rfl
  | succ n ih =>
    rw [signVectors, List.length_append, List.length_map, List.length_map, ih, Nat.pow_succ]
    omega

variable {n arr i p : ℕ} {heap : BoolHeap} {v : List Bool}

theorem mem_signVectors {s : List Bool} : s ∈ signVectors n ↔ s.length = n := by
  induction n generalizing s with
  | zero => simp [signVectors]
  | succ n ih =>
    cases s with
    | nil => simp [signVectors]
    | cons b s => cases b <;> simp [signVectors, ih]

theorem nodup_signVectors (n : ℕ) : (signVectors n).Nodup := by
  induction n with
  | zero => exact List.nodup_singleton []
  | succ n ih =>
    have hcons : ∀ b : Bool, ((signVectors n).map (b :: ·)).Nodup :=
      fun b => ih.map (List.cons_injective)
    refine (hcons true).append (hcons false) ?_
    intro s htrue hfalse
    obtain ⟨s₁, -, rfl⟩ := List.mem_map.mp htrue
    obtain ⟨s₂, -, heq⟩ := List.mem_map.mp hfalse
    cases heq

theorem head_signVectors (n : ℕ) : (signVectors n).head? = some (List.replicate n true) := by
  induction n with
  | zero => rfl
  | succ n ih =>
    rw [signVectors, List.head?_append, List.head?_map, ih]
    rfl

theorem copyWith_eq (hv : heap[arr]? = some v) (hi : i < v.length) (b : Bool) :
    copyWith heap arr i b = .ok (heap ++ [v.set i b]) := by
  simp only [copyWith, hv, if_pos hi]

theorem take_set_succ (hi : i < v.length) (b : Bool) :
    (v.set i b).take (i + 1) = v.take i ++ [b] := by
  rw [List.take_add_one, List.take_set_of_le le_rfl, List.getElem?_set_self hi]
  rfl

theorem contents_of_prefix {heap' : BoolHeap} (h : heap <+: heap') {refs : List ℕ}
    (hrefs : ∀ r ∈ refs, r < heap.length) : contents heap' refs = contents heap refs := by
  obtain ⟨rest, rfl⟩ := h
  refine List.map_congr_left ?_
  intro r hr
  rw [List.getD_eq_getElem?_getD, List.getD_eq_getElem?_getD,
    List.getElem?_append_left (hrefs r hr)]

theorem makeSignComb_spec (left : ℕ) (hv : heap[arr]? = some v) (hlen : v.length = i + left) :
    ∃ refs heap', makeSignComb left heap arr i = .ok (refs, heap') ∧ heap <+: heap' ∧
      (∀ r ∈ refs, r < heap'.length) ∧
      contents heap' refs = (signVectors left).map (v.take i ++ ·) := by
  induction left generalizing heap arr i v with
  | zero =>
    have harr : arr < heap.length := (List.getElem?_eq_some_iff.mp hv).1
    refine ⟨[arr], heap, rfl, List.prefix_rfl, ?_, ?_⟩
    · intro r hr
      rw [List.mem_singleton.mp hr]
      exact harr
    · have htake : v.take i = v := List.take_of_length_le (by omega)
      simp [contents, signVectors, hv, htake]
  | succ left ih =>
    have hi : i < v.length := by omega
    have hbranch : ∀ (heap : BoolHeap) (b : Bool),
        ∃ refs heap', makeSignComb left (heap ++ [v.set i b]) heap.length (i + 1) =
            .ok (refs, heap') ∧ heap ++ [v.set i b] <+: heap' ∧ (∀ r ∈ refs, r < heap'.length) ∧
          contents heap' refs = ((signVectors left).map (b :: ·)).map (v.take i ++ ·) := by
      intro heap b
      have hnew : (heap ++ [v.set i b])[heap.length]? = some (v.set i b) := by simp
      obtain ⟨refs, heap', hrun, hprefix, hlt, hread⟩ :=
        ih hnew (show (v.set i b).length = i + 1 + left by rw [List.length_set]; omega)
      refine ⟨refs, heap', hrun, hprefix, hlt, ?_⟩
      rw [hread, take_set_succ hi, List.map_map]
      refine List.map_congr_left fun s _ => ?_
      simp
    obtain ⟨a, heap₂, hrun₁, hprefix₁, hlt₁, hread₁⟩ := hbranch heap true
    have hheap₂ : heap <+: heap₂ := (List.prefix_append heap _).trans hprefix₁
    have hv₂ : heap₂[arr]? = some v := by
      obtain ⟨rest, rfl⟩ := hheap₂
      rw [List.getElem?_append_left (List.getElem?_eq_some_iff.mp hv).1]
      exact hv
    obtain ⟨b, heap₄, hrun₂, hprefix₂, hlt₂, hread₂⟩ := hbranch heap₂ false
    have hheap₄ : heap₂ <+: heap₄ := (List.prefix_append heap₂ _).trans hprefix₂
    refine ⟨a ++ b, heap₄, ?_, hheap₂.trans hheap₄, ?_, ?_⟩
    · rw [makeSignComb, copyWith_eq hv hi]
      simp only [bind, Except.bind, hrun₁, copyWith_eq hv₂ hi, hrun₂]
      rfl
    · intro r hr
      rcases List.mem_append.mp hr with hr | hr
      · exact (hlt₁ r hr).trans_le hheap₄.length_le
      · exact hlt₂ r hr
    · have ha := contents_of_prefix hheap₄ hlt₁
      simp only [contents, List.map_append] at ha hread₁ hread₂ ⊢
      rw [ha, hread₁, hread₂, signVectors, List.map_append]

theorem signComb_eq (n : ℕ) : signComb n = .ok (signVectors n) := by
  obtain ⟨refs, heap, hrun, -, -, hread⟩ := makeSignComb_spec n
    (show ([List.replicate n false] : BoolHeap)[0]? = some (List.replicate n false) from rfl)
    (show (List.replicate n false).length = 0 + n by simp)
  simp only [List.take_zero, List.nil_append, List.map_id'] at hread
  rw [signComb, hrun]
  exact congrArg Except.ok hread

/-! ### Changing signs -/

def FlipsNode (p : ℕ) (sign : List Bool) (i : ℕ) : Prop := p < i ∧ sign[i - 1 - p]? = some false

instance (p : ℕ) (sign : List Bool) (i : ℕ) : Decidable (FlipsNode p sign i) :=
  inferInstanceAs (Decidable (_ ∧ _))

theorem flipsNode_cons {s : Bool} {sign : List Bool} :
    FlipsNode p (s :: sign) i ↔ i = p + 1 ∧ s = false ∨ FlipsNode (p + 1) sign i := by
  unfold FlipsNode
  rcases Nat.lt_trichotomy i (p + 1) with hlt | rfl | hgt
  · exact iff_of_false (by omega) (by omega)
  · have hzero : p + 1 - 1 - p = 0 := by omega
    rw [hzero]
    simp
  · obtain ⟨k, rfl⟩ := Nat.exists_eq_add_of_lt hgt
    have hold : p + 1 + k + 1 - 1 - p = k + 1 := by omega
    have hnew : p + 1 + k + 1 - 1 - (p + 1) = k := by omega
    rw [hold, hnew, List.getElem?_cons_succ]
    constructor
    · intro h
      exact .inr ⟨hgt, h.2⟩
    · rintro (h | h)
      · omega
      · exact ⟨by omega, h.2⟩

theorem flipsNode_trues : ¬ FlipsNode p (List.replicate n true) i := by
  rintro ⟨-, h⟩
  rw [List.getElem?_replicate] at h
  split_ifs at h
  cases h

section Signs

variable {F : Type}

def FlipFits (p : ℕ) (sign : List Bool) (refPoints : List (List F)) : Prop :=
  ∀ i, FlipsNode p sign i → ∃ coord, refPoints[i]? = some coord ∧ i - 1 < coord.length

def flippedPoints [Neg F] (p : ℕ) (sign : List Bool) (refPoints : List (List F)) : List (List F) :=
  refPoints.mapIdx fun i coord =>
    if FlipsNode p sign i then coord.modify (i - 1) Neg.neg else coord

theorem getElem?_flippedPoints [Neg F] (p : ℕ) (sign : List Bool) (refPoints : List (List F))
    (i : ℕ) : (flippedPoints p sign refPoints)[i]? = refPoints[i]?.map fun coord =>
      if FlipsNode p sign i then coord.modify (i - 1) Neg.neg else coord := by
  rw [flippedPoints, List.getElem?_mapIdx]

theorem flippedPoints_true [Neg F] (p : ℕ) (sign : List Bool) (refPoints : List (List F)) :
    flippedPoints p (true :: sign) refPoints = flippedPoints (p + 1) sign refPoints := by
  refine List.ext_getElem? fun i => ?_
  rw [getElem?_flippedPoints, getElem?_flippedPoints]
  simp only [flipsNode_cons, Bool.true_eq_false, and_false, false_or]

theorem flippedPoints_false [Neg F] (p : ℕ) (sign : List Bool) (refPoints : List (List F)) :
    flippedPoints p (false :: sign) refPoints = flippedPoints (p + 1) sign
      (refPoints.modify (p + 1) fun coord => coord.modify p Neg.neg) := by
  refine List.ext_getElem? fun i => ?_
  rw [getElem?_flippedPoints, getElem?_flippedPoints, List.getElem?_modify]
  by_cases hi : p + 1 = i
  · subst hi
    have hlater : ¬ FlipsNode (p + 1) sign (p + 1) := fun h => Nat.lt_irrefl _ h.1
    simp [flipsNode_cons, hlater, Function.comp_def]
  · have hne : ¬ i = p + 1 := fun h => hi h.symm
    simp [flipsNode_cons, hi, hne]

variable {p ndim nodeId k : ℕ} {sign : List Bool} {refPoints flipped after : List (List F)}
  {cost : List F} {signs : List (List Bool)} {tmp : F}

theorem flipFits_true : FlipFits p (true :: sign) refPoints ↔ FlipFits (p + 1) sign refPoints := by
  simp only [FlipFits, flipsNode_cons, Bool.true_eq_false, and_false, false_or]

theorem flipFits_false [Neg F] :
    FlipFits p (false :: sign) refPoints ↔
      (∃ coord, refPoints[p + 1]? = some coord ∧ p < coord.length) ∧
      FlipFits (p + 1) sign (refPoints.modify (p + 1) fun coord => coord.modify p Neg.neg) := by
  have hlater : ∀ i, FlipsNode (p + 1) sign i →
      (refPoints.modify (p + 1) fun coord => coord.modify p Neg.neg)[i]? = refPoints[i]? := by
    intro i hi
    exact List.getElem?_modify_ne _ _ (Nat.ne_of_lt hi.1)
  constructor
  · intro h
    refine ⟨h (p + 1) (flipsNode_cons.mpr (.inl ⟨rfl, rfl⟩)), ?_⟩
    intro i hi
    rw [hlater i hi]
    exact h i (flipsNode_cons.mpr (.inr hi))
  · rintro ⟨hfirst, hrest⟩ i hi
    rcases flipsNode_cons.mp hi with ⟨rfl, -⟩ | hi
    · exact hfirst
    · have hread := hrest i hi
      rwa [hlater i hi] at hread

theorem flipSigns_eq_ok_iff [Neg F] :
    flipSigns p sign refPoints = .ok flipped ↔
      FlipFits p sign refPoints ∧ flipped = flippedPoints p sign refPoints := by
  induction sign generalizing p refPoints with
  | nil =>
    have hfits : FlipFits p [] refPoints := by
      rintro i ⟨-, h⟩
      cases h
    have hsame : flippedPoints p [] refPoints = refPoints := by
      refine List.ext_getElem? fun i => ?_
      simp [getElem?_flippedPoints, FlipsNode]
    rw [hsame, flipSigns]
    constructor
    · intro h
      exact ⟨hfits, (Except.ok.inj h).symm⟩
    · rintro ⟨-, rfl⟩
      rfl
  | cons s sign ih =>
    cases s with
    | true =>
      rw [flippedPoints_true, flipFits_true, ← ih]
      rfl
    | false =>
      rw [flippedPoints_false, flipFits_false, and_assoc, ← ih]
      simp only [flipSigns, Bool.false_eq_true, if_false]
      cases hcoord : refPoints[p + 1]? with
      | none => simp
      | some coord =>
        by_cases hp : p < coord.length
        · simp [hp]
        · simp [hp]

theorem flipSigns_trues [Neg F] (n : ℕ) (refPoints : List (List F)) :
    flipSigns 0 (List.replicate n true) refPoints = .ok refPoints := by
  refine flipSigns_eq_ok_iff.mpr ⟨fun i hi => absurd hi flipsNode_trues, ?_⟩
  refine List.ext_getElem? fun i => ?_
  simp [getElem?_flippedPoints, flipsNode_trues]

theorem flipSigns_undo [InvolutiveNeg F] {recovered : List (List F)}
    (h : flipSigns p sign refPoints = .ok flipped) (h' : flipSigns p sign flipped = .ok recovered) :
    recovered = refPoints := by
  obtain ⟨-, rfl⟩ := flipSigns_eq_ok_iff.mp h
  obtain ⟨-, rfl⟩ := flipSigns_eq_ok_iff.mp h'
  refine List.ext_getElem? fun i => ?_
  rw [getElem?_flippedPoints, getElem?_flippedPoints, Option.map_map]
  by_cases hi : FlipsNode p sign i
  · have htwice : ∀ coord : List F,
        (coord.modify (i - 1) Neg.neg).modify (i - 1) Neg.neg = coord := by
      intro coord
      refine List.ext_getElem? fun j => ?_
      rw [List.getElem?_modify, List.getElem?_modify]
      by_cases hj : i - 1 = j
      · simp [hj]
      · simp [hj]
    simp [hi, Function.comp_def, htwice]
  · simp [hi, Function.comp_def]

variable [Zero F] [Add F] [Sub F] [Mul F] [Div F] [OfNat F 2] [DecidableEq F] [InvolutiveNeg F]

theorem trySigns_failed (A : Arith F) {tmp' : F} {message : String}
    (h : trySigns A ndim nodeId cost k signs refPoints tmp = .ok (.failed message tmp', after)) :
    after = refPoints := by
  induction signs generalizing k refPoints tmp with
  | nil =>
    cases h
    rfl
  | cons sign signs ih =>
    rw [trySigns] at h
    obtain ⟨flipped, hflip, h⟩ := bind_eq_ok.mp h
    obtain ⟨⟨term, placed⟩, -, h⟩ := bind_eq_ok.mp h
    cases placed with
    | none =>
      obtain ⟨recovered, hrecover, h⟩ := bind_eq_ok.mp h
      rw [ih h, flipSigns_undo hflip hrecover]
    | some result =>
      obtain ⟨cost₀, -, h⟩ := bind_eq_ok.mp h
      cases h

theorem trySigns_placed (A : Arith F) {result : List F} {test : Option F × F}
    (h : trySigns A ndim nodeId cost k signs refPoints tmp = .ok (.placed result sign test, after))
    :
    ∃ before s rest, signs = before ++ s :: rest ∧
      (∀ t ∈ before, ∃ term,
        place A (flippedPoints 0 t refPoints) ndim nodeId cost = .ok (term, none)) ∧
      (∃ term, place A (flippedPoints 0 s refPoints) ndim nodeId cost = .ok (term, some result)) ∧
      FlipFits 0 s refPoints ∧ after = flippedPoints 0 s refPoints ∧
      sign = if k + before.length = 0 then [] else s := by
  induction signs generalizing k tmp with
  | nil => cases h
  | cons t signs ih =>
    rw [trySigns] at h
    obtain ⟨flipped, hflip, h⟩ := bind_eq_ok.mp h
    obtain ⟨⟨term, placed⟩, hplace, h⟩ := bind_eq_ok.mp h
    obtain ⟨hfits, rfl⟩ := flipSigns_eq_ok_iff.mp hflip
    cases placed with
    | none =>
      obtain ⟨recovered, hrecover, h⟩ := bind_eq_ok.mp h
      rw [flipSigns_undo hflip hrecover] at h
      obtain ⟨before, s, rest, rfl, hbefore, hs, hfits, hafter, hsign⟩ := ih h
      refine ⟨t :: before, s, rest, rfl, ?_, hs, hfits, hafter, ?_⟩
      · intro u hu
        rcases List.mem_cons.mp hu with rfl | hu
        · exact ⟨term, hplace⟩
        · exact hbefore u hu
      · rw [hsign, if_neg (by omega), if_neg (by simp)]
    | some result =>
      obtain ⟨cost₀, -, h⟩ := bind_eq_ok.mp h
      cases h
      refine ⟨[], t, signs, rfl, ?_, ⟨term, hplace⟩, hfits, rfl, rfl⟩
      intro u hu
      cases hu

/-- `make_sign_comb(n, arr, 0)` returns all the `2 ^ n` vectors of `n` signs once each, the one
that changes nothing first; and an `implement_axis_node` that fails for all of them leaves the
reference points as they were. -/
theorem signs_enumerated_and_undone (A : Arith F) :
    (∀ (n : ℕ) (heap : BoolHeap) (arr : ℕ) (v : List Bool), heap[arr]? = some v → v.length = n →
      ∃ refs heap', makeSignComb n heap arr 0 = .ok (refs, heap') ∧ heap <+: heap' ∧
        (contents heap' refs).length = 2 ^ n ∧ (∀ s ∈ contents heap' refs, s.length = n) ∧
        (contents heap' refs).Nodup ∧ (∀ s : List Bool, s.length = n → s ∈ contents heap' refs) ∧
        (contents heap' refs).head? = some (List.replicate n true)) ∧
    (∀ (n : ℕ) (refPoints : List (List F)),
      flipSigns 0 (List.replicate n true) refPoints = .ok refPoints) ∧
    ∀ (refPoints : List (List F)) (ndim nodeId : ℕ) (cost : List F) (message : String) (tmp : F)
      (after : List (List F)),
      implementAxisNode A refPoints ndim nodeId cost = .ok (.failed message tmp, after) →
      after = refPoints := by
  refine ⟨?_, flipSigns_trues, ?_⟩
  · intro n heap arr v hv hlen
    obtain ⟨refs, heap', hrun, hprefix, -, hread⟩ :=
      makeSignComb_spec n hv (show v.length = 0 + n by omega)
    simp only [List.take_zero, List.nil_append, List.map_id'] at hread
    refine ⟨refs, heap', hrun, hprefix, ?_⟩
    rw [hread]
    exact ⟨length_signVectors n, fun s hs => mem_signVectors.mp hs,
      nodup_signVectors n, fun s hs => mem_signVectors.mpr hs, head_signVectors n⟩
  · intro refPoints ndim nodeId cost message tmp after h
    obtain ⟨signs, -, h⟩ := bind_eq_ok.mp h
    exact trySigns_failed A h

end Signs

def intArith : Arith ℤ := ⟨id, fun x => if x < 0 then none else some (Int.sqrt x)⟩

theorem signs_enumerated_and_undone_two :
    (∃ refs heap', makeSignComb 2 [[false, false]] 0 0 = .ok (refs, heap') ∧
      (contents heap' refs).Nodup ∧ (contents heap' refs).head? = some [true, true]) ∧
    ∃ after, implementAxisNode intArith [[0, 0], [1, 0]] 2 2 [1, 3] =
      .ok (.failed (nanMessage 2) (-15), after) ∧ after = [[0, 0], [1, 0]] :=
  have hboth := signs_enumerated_and_undone intArith
  have hrun : implementAxisNode intArith [[0, 0], [1, 0]] 2 2 [1, 3] =
      .ok (.failed (nanMessage 2) (-15), [[0, 0], [1, 0]]) := by decide +kernel
  let ⟨refs, heap', hmake, _, _, _, hnodup, _, hhead⟩ :=
    hboth.1 2 [[false, false]] 0 [false, false] rfl rfl
  ⟨⟨refs, heap', hmake, hnodup, hhead⟩, _, hrun, hboth.2.2 _ _ _ _ _ _ _ hrun⟩

end Mp2bs.Peer
