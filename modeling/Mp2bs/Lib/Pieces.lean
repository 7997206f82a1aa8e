import Mathlib.Data.List.AList
import Mathlib.Order.Interval.Set.LinearOrder

/-!
# Pieces of a sequence and the holes between them

A partial map from positions to lists has the pieces of a sequence that are there. In a `Tiling` every
position from `lo` on is in a hole or in exactly one piece. Deleting a piece makes a hole of it, and a
hole can be filled with a piece.
-/

namespace Mp2bs.Lib

abbrev Pieces (α : Type) := AList fun _ : ℕ => List α

namespace Pieces
variable {α : Type} {q : Pieces α} {a b n pos lo : ℕ} {d : List α} {hole : Set ℕ} {P : ℕ → List α → Prop}

theorem length_keys_erase (h : q.lookup a = some d) : (q.erase a).keys.length + 1 = q.keys.length := by
  have hmem : a ∈ q.keys := AList.mem_keys.mp (AList.lookup_isSome.mp (by rw [h]; rfl))
  rw [AList.keys_erase, List.length_erase_of_mem hmem]
  have := List.length_pos_of_mem hmem
  omega

/-- A loop that deletes the piece at `pos` and goes on behind it; the first argument bounds its turns. -/
def deleteRun : ℕ → Pieces α → ℕ → Pieces α
  | 0, q, _ => q
  | n + 1, q, pos =>
    match q.lookup pos with
    | none => q
    | some d => deleteRun n (q.erase pos) (pos + d.length)

theorem deleteRun_of_none (h : q.lookup pos = none) : deleteRun n q pos = q := by
  cases n with
  | zero => rfl
  | succ n => simp only [deleteRun, h]

/-- From `lo` on, every position is in a hole or in exactly one piece, and all pieces meet `P`. -/
structure Tiling (hole : Set ℕ) (lo : ℕ) (P : ℕ → List α → Prop) (q : Pieces α) : Prop where
  covered : ∀ x, lo ≤ x → x ∉ hole → ∃ p d, q.lookup p = some d ∧ p ≤ x ∧ x < p + d.length
  piece : ∀ p d, q.lookup p = some d → P p d ∧ d ≠ [] ∧ lo ≤ p ∧ ∀ x, p ≤ x → x < p + d.length → x ∉ hole
  apart : ∀ p d p', q.lookup p = some d → p < p' → p' < p + d.length → q.lookup p' = none

namespace Tiling

theorem lookup_of_mem (h : Tiling hole lo P q) (ha : a ∈ hole) : q.lookup a = none := by
  cases hd : q.lookup a with
  | none => rfl
  | some d =>
    obtain ⟨-, hne, -, hout⟩ := h.piece a d hd
    have := List.length_pos_of_ne_nil hne
    exact absurd ha (hout a le_rfl (by omega))

theorem mem_of_none (h : Tiling hole lo P q) (hlo : lo ≤ a) (hnone : q.lookup a = none)
    (hprev : ∃ x ∈ hole, x + 1 = a) : a ∈ hole := by
  by_contra hout
  obtain ⟨p, d, hp, hle, hlt⟩ := h.covered a hlo hout
  obtain ⟨x, hx, rfl⟩ := hprev
  have hne : p ≠ x + 1 := by
    rintro rfl
    rw [hnone] at hp
    cases hp
  exact (h.piece p d hp).2.2.2 x (by omega) (by omega) hx

theorem erase (h : Tiling hole lo P q) (hd : q.lookup a = some d) :
    Tiling (hole ∪ Set.Ico a (a + d.length)) lo P (q.erase a) := by
  have hget : ∀ p, p ≠ a → (q.erase a).lookup p = q.lookup p := fun p hp => AList.lookup_erase_ne hp
  have hnone := AList.lookup_erase a q
  refine ⟨fun x hx hout => ?_, fun p d' hp => ?_, fun p d' p' hp hlt hin => ?_⟩
  · obtain ⟨p, d', hp, hle, hlt⟩ := h.covered x hx (by grind)
    exact ⟨p, d', by grind, hle, hlt⟩
  · have := h.piece p d'
    have := h.apart p d' a
    have := h.apart a d p hd
    grind
  · have := h.apart p d' p'
    grind

theorem fill (h : Tiling hole lo P q) (hlo : lo ≤ a) (hne : d ≠ []) (hP : P a d)
    (hin : ∀ x, a ≤ x → x < a + d.length → x ∈ hole) :
    Tiling (hole \ Set.Ico a (a + d.length)) lo P (q.insert a d) := by
  have hpos := List.length_pos_of_ne_nil hne
  have hnone := h.lookup_of_mem (hin a le_rfl (by omega))
  have hget : ∀ p, p ≠ a → (q.insert a d).lookup p = q.lookup p := fun p hp => AList.lookup_insert_ne hp
  have hnew : (q.insert a d).lookup a = some d := AList.lookup_insert q
  refine ⟨fun x hx hout => ?_, fun p d' hp => ?_, fun p d' p' hp hlt hlt' => ?_⟩
  · by_cases hxin : a ≤ x ∧ x < a + d.length
    · exact ⟨a, d, hnew, hxin⟩
    · obtain ⟨p, d', hp, hle, hlt⟩ := h.covered x hx (by grind)
      exact ⟨p, d', by grind, hle, hlt⟩
  · have := h.piece p d'
    grind
  · have := fun ha hb => h.lookup_of_mem (hin p' ha hb)
    have := h.piece p d'
    have := h.apart p d' p'
    grind

theorem pop (h : Tiling hole lo P q) (hd : q.lookup lo = some d) : Tiling hole (lo + d.length) P (q.erase lo) := by
  have h' := h.erase hd
  have hout := (h.piece lo d hd).2.2.2
  refine ⟨fun x hx hx' => h'.covered x (by omega) (by grind), fun p d' hp => ?_, h'.apart⟩
  obtain ⟨hP, hne, hle, hp'⟩ := h'.piece p d' hp
  have := hp' p le_rfl (by have := List.length_pos_of_ne_nil hne; omega)
  exact ⟨hP, hne, by grind, fun x hx hlt hmem => hp' x hx hlt (.inl hmem)⟩

/-- The loop stops at the next hole. -/
theorem deletes (h : Tiling hole lo P q) (hn : q.keys.length ≤ n) (hlo : lo ≤ pos)
    (hprev : ∃ x ∈ hole, x + 1 = pos) :
    ∃ b ∈ hole, pos ≤ b ∧ (∀ x, pos ≤ x → x < b → x ∉ hole) ∧
      Tiling (hole ∪ Set.Ico pos b) lo P (deleteRun n q pos) := by
  induction n generalizing q pos hole with
  | zero =>
    rw [deleteRun]
    cases hd : q.lookup pos with
    | none => exact ⟨pos, h.mem_of_none hlo hd hprev, le_rfl, by omega, by simpa using h⟩
    | some d =>
      have := length_keys_erase hd
      omega
  | succ n ih =>
    rw [deleteRun]
    cases hd : q.lookup pos with
    | none => exact ⟨pos, h.mem_of_none hlo hd hprev, le_rfl, by omega, by simpa using h⟩
    | some d =>
      have hlen := length_keys_erase hd
      obtain ⟨-, hne, -, hout⟩ := h.piece pos d hd
      have hpos := List.length_pos_of_ne_nil hne
      have hprev' : ∃ x ∈ hole ∪ Set.Ico pos (pos + d.length), x + 1 = pos + d.length :=
        ⟨pos + d.length - 1, .inr (Set.mem_Ico.mpr (by omega)), by omega⟩
      obtain ⟨b, hb, hle, hfree, htile⟩ := ih (h.erase hd) (by omega) (by omega) hprev'
      refine ⟨b, hb.resolve_right fun hb => ?_, by omega, ?_, ?_⟩
      · have := (Set.mem_Ico.mp hb).2
        omega
      · have := hout
        grind
      · rwa [Set.union_assoc, Set.Ico_union_Ico_eq_Ico (by omega) hle] at htile

end Tiling
end Pieces
end Mp2bs.Lib
