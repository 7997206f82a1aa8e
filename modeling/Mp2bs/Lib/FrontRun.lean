import Mathlib

/-!
# The run of set entries at the front of a list

`frontRun l` counts the positive entries before the first zero: what has arrived without a gap when `l`
holds the size that arrived at each place.
-/

namespace Mp2bs.Lib.FrontRun

def frontRun : List ℕ → ℕ
  | [] => 0
  | n :: rest => if 0 < n then frontRun rest + 1 else 0

theorem frontRun_le_length (l : List ℕ) : frontRun l ≤ l.length := by
  induction l with
  | nil => exact le_rfl
  | cons n rest ih =>
    simp only [frontRun, List.length_cons]
    split_ifs <;> omega

theorem pos_of_lt_frontRun (l : List ℕ) (i : ℕ) (h : i < frontRun l) :
    ∃ n, l[i]? = some n ∧ 0 < n := by
  induction l generalizing i with
  | nil => simp [frontRun] at h
  | cons n rest ih =>
    simp only [frontRun] at h
    split_ifs at h with hn
    · cases i with
      | zero => exact ⟨n, rfl, hn⟩
      | succ i =>
        obtain ⟨m, hm, hpos⟩ := ih i (by omega)
        exact ⟨m, by simpa using hm, hpos⟩
    · omega

theorem getElem?_frontRun (l : List ℕ) (h : frontRun l < l.length) :
    l[frontRun l]? = some 0 := by
  induction l with
  | nil => simp at h
  | cons n rest ih =>
    simp only [frontRun, List.length_cons] at h ⊢
    split_ifs at h ⊢ with hn
    · simpa using ih (by omega)
    · have hz : n = 0 := by omega
      simp [hz]

theorem frontRun_eq (l : List ℕ) (e : ℕ) (hpos : ∀ i < e, ∃ n, l[i]? = some n ∧ 0 < n)
    (hend : l.length ≤ e ∨ l[e]? = some 0) (hle : e ≤ l.length) : frontRun l = e := by
  rcases Nat.lt_trichotomy (frontRun l) e with h | h | h
  · obtain ⟨n, hn, hp⟩ := hpos _ h
    have hz := getElem?_frontRun l (by omega)
    rw [hz] at hn
    have hn0 : 0 = n := Option.some.inj hn
    omega
  · exact h
  · obtain ⟨n, hn, hp⟩ := pos_of_lt_frontRun l e h
    have hl := frontRun_le_length l
    rcases hend with he | he
    · omega
    · rw [he] at hn
      have hn0 : 0 = n := Option.some.inj hn
      omega

theorem frontRun_drop (l : List ℕ) (e : ℕ) (h : e ≤ frontRun l) :
    frontRun l = e + frontRun (l.drop e) := by
  induction e generalizing l with
  | zero => simp
  | succ e ih =>
    cases l with
    | nil => simp [frontRun] at h
    | cons n rest =>
      simp only [frontRun] at h
      split_ifs at h with hn
      · have hr := ih rest (by omega)
        simp only [frontRun, if_pos hn, List.drop_succ_cons]
        omega
      · omega

theorem frontRun_replicate_zero (n : ℕ) : frontRun (List.replicate n 0) = 0 := by
  cases n with
  | zero => rfl
  | succ n => simp [List.replicate_succ, frontRun]

theorem frontRun_set_of_ne (l : List ℕ) (i n : ℕ) (hn : 0 < n) (hi : i ≠ frontRun l) :
    frontRun (l.set i n) = frontRun l := by
  apply frontRun_eq
  · intro k hk
    obtain ⟨m, hm, hp⟩ := pos_of_lt_frontRun l k hk
    have hlen : k < l.length := lt_of_lt_of_le hk (frontRun_le_length l)
    by_cases hik : i = k
    · subst hik
      exact ⟨n, List.getElem?_set_self hlen, hn⟩
    · exact ⟨m, by rw [List.getElem?_set_ne hik]; exact hm, hp⟩
  · rw [List.length_set, List.getElem?_set_ne hi]
    rcases Nat.lt_or_ge (frontRun l) l.length with h | h
    · exact Or.inr (getElem?_frontRun l h)
    · exact Or.inl h
  · rw [List.length_set]
    exact frontRun_le_length l

theorem le_frontRun_set_self (l : List ℕ) (n : ℕ) (hn : 0 < n)
    (hlt : frontRun l < l.length) :
    frontRun l + 1 ≤ frontRun (l.set (frontRun l) n) := by
  by_contra hcon
  have hle : frontRun (l.set (frontRun l) n) ≤ frontRun l := by omega
  have hz := getElem?_frontRun (l.set (frontRun l) n) (by rw [List.length_set]; omega)
  rcases Nat.lt_or_ge (frontRun (l.set (frontRun l) n)) (frontRun l) with h | h
  · obtain ⟨m, hm, hp⟩ := pos_of_lt_frontRun l _ h
    rw [List.getElem?_set_ne (by omega), hm] at hz
    have hm0 : m = 0 := Option.some.inj hz
    omega
  · have he : frontRun (l.set (frontRun l) n) = frontRun l := by omega
    rw [he, List.getElem?_set_self hlt] at hz
    have hn0 : n = 0 := Option.some.inj hz
    omega

end Mp2bs.Lib.FrontRun
