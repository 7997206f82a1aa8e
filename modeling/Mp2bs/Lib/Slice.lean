import Mathlib

/-!
# Windows of a list

`window l p n` is the part of `l` of length `n` from position `p` on (shorter
at the end of `l`), and `writeAt l p src` overwrites the elements from `p` on
with `src`: Go's `l[p:p+n]` and `copy(l[p:p+n], src)`. `chunk c l i` is the
`i`-th of the pieces of length `c` that `l` is cut into.
-/

namespace Mp2bs.Lib.Slice

variable {α : Type}

def window (l : List α) (p n : ℕ) : List α := (l.drop p).take n

def writeAt (l : List α) (p : ℕ) (src : List α) : List α :=
  l.take p ++ src ++ l.drop (p + src.length)

def chunk (c : ℕ) (l : List α) (i : ℕ) : List α := window l (c * i) c

@[simp] theorem window_length (l : List α) (p n : ℕ) :
    (window l p n).length = min n (l.length - p) := by
  simp [window]

theorem chunk_length (c : ℕ) (l : List α) (i : ℕ) :
    (chunk c l i).length = min c (l.length - c * i) := by
  simp [chunk]

@[simp] theorem window_zero (l : List α) (p : ℕ) : window l p 0 = [] := by
  simp [window]

theorem take_append_window (l : List α) (p n : ℕ) :
    l.take p ++ window l p n = l.take (p + n) := by
  rw [window, List.take_add]

theorem window_window (l : List α) (p n a c : ℕ) :
    window (window l p n) a c = window l (p + a) (min c (n - a)) := by
  simp only [window, List.drop_take, List.take_take, List.drop_drop]

theorem window_append_of_le {a b : List α} {p n : ℕ} (h : p + n ≤ a.length) :
    window (a ++ b) p n = window a p n := by
  rw [window, window, List.drop_append_of_le_length (by omega),
    List.take_append_of_le_length (by rw [List.length_drop]; omega)]

theorem window_getElem? (l : List α) (p n i : ℕ) :
    (window l p n)[i]? = if i < n then l[p + i]? else none := by
  simp only [window, List.getElem?_take, List.getElem?_drop]

theorem take_eq_flatMap_chunk (c : ℕ) (l : List α) (n : ℕ) :
    l.take (c * n) = (List.range n).flatMap (chunk c l) := by
  induction n with
  | zero => simp
  | succ n ih =>
    rw [List.range_succ, List.flatMap_append, ← ih, Nat.mul_succ, ← take_append_window]
    simp [chunk]

theorem chunk_append_of_le (c i : ℕ) {a : List α} (b : List α) (h : c * (i + 1) ≤ a.length) :
    chunk c (a ++ b) i = chunk c a i :=
  window_append_of_le (by rw [Nat.mul_succ] at h; exact h)

theorem writeAt_length (l src : List α) (p : ℕ) (h : p + src.length ≤ l.length) :
    (writeAt l p src).length = l.length := by
  simp only [writeAt, List.length_append, List.length_take, List.length_drop]
  omega

theorem writeAt_getElem? (l src : List α) (p i : ℕ) (h : p + src.length ≤ l.length) :
    (writeAt l p src)[i]? = if p ≤ i ∧ i < p + src.length then src[i - p]? else l[i]? := by
  have hp : (l.take p).length = p := by
    rw [List.length_take]
    omega
  simp only [writeAt]
  by_cases h1 : i < p
  · rw [List.append_assoc, List.getElem?_append_left (by omega), if_neg (by omega),
      List.getElem?_take, if_pos h1]
  · by_cases h2 : i < p + src.length
    · rw [List.append_assoc, List.getElem?_append_right (by omega),
        List.getElem?_append_left (by omega), if_pos ⟨by omega, h2⟩, hp]
    · rw [List.getElem?_append_right (by rw [List.length_append]; omega), if_neg (by omega),
        List.getElem?_drop, List.length_append, hp]
      congr 1
      omega

theorem window_writeAt_self (l src : List α) (p : ℕ) (h : p + src.length ≤ l.length) :
    window (writeAt l p src) p src.length = src := by
  apply List.ext_getElem?
  intro i
  rw [window_getElem?, writeAt_getElem? l src p _ h]
  by_cases hi : i < src.length
  · rw [if_pos hi, if_pos ⟨by omega, by omega⟩]
    congr 1
    omega
  · rw [if_neg hi, List.getElem?_eq_none (by omega)]

theorem window_writeAt_of_disjoint (l src : List α) (p q n : ℕ) (h : p + src.length ≤ l.length)
    (hd : q + n ≤ p ∨ p + src.length ≤ q) : window (writeAt l p src) q n = window l q n := by
  apply List.ext_getElem?
  intro i
  rw [window_getElem?, window_getElem?, writeAt_getElem? l src p _ h]
  by_cases hi : i < n
  · rw [if_pos hi, if_pos hi, if_neg (by omega)]
  · rw [if_neg hi, if_neg hi]

end Mp2bs.Lib.Slice
