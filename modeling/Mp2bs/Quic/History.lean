import Mp2bs.Lib.Intervals
import Mp2bs.Lib.Machine

/-!
# The packet numbers to acknowledge

`receivedPacketHistory` (`enhanced-quic/internal/ackhandler/received_packet_history.go`) keeps
the received packet numbers of one packet number space as a list of intervals.
`GetAckRanges` puts the numbers of `fec.FecRecoveredPacketList` into the list first, without
the checks that `ReceivedPacket` makes.
-/

namespace Mp2bs.Quic
open Mp2bs.Lib.Intervals Mp2bs.Lib.Machine

-- internal/protocol/params.go:147
def maxNumAckRanges : ℕ := 32

/- `ranges` is the linked list from `Back()` to `Front()`. -/
structure History where
  ranges : List Interval
  deletedBelow : ℤ
  deriving Repr, DecidableEq

namespace History

def new : History := ⟨[], 0⟩

/- The interval up to `stop` gets the start `p` and is merged with the one before it in the
linked list if they touch (52-60). -/
def extendStart (p stop : ℤ) : List Interval → List Interval
  | [] => [⟨p, stop⟩]
  | prev :: rest =>
    if prev.stop + 1 = p then ⟨prev.start, stop⟩ :: rest else ⟨p, stop⟩ :: prev :: rest

/- The loop of `addToRanges` (36-71) from `Back()` on; the second
component is the result. -/
def addToRanges (p : ℤ) : List Interval → List Interval × Bool
  | [] => ([⟨p, p⟩], true)
  | el :: rest =>
    if el.start ≤ p ∧ p ≤ el.stop then (el :: rest, false)
    else if el.stop = p - 1 then (⟨el.start, p⟩ :: rest, true)
    else if el.start = p + 1 then (extendStart p el.stop rest, true)
    else if el.stop < p then (⟨p, p⟩ :: el :: rest, true)
    else (el :: (addToRanges p rest).1, (addToRanges p rest).2)

-- maybeDeleteOldRanges, 77-81
def maybeDeleteOldRanges (ranges : List Interval) : List Interval := ranges.take maxNumAckRanges

-- ReceivedPacket, 26-34
def receivedPacket (h : History) (p : ℤ) : History × Bool :=
  if p < h.deletedBelow then (h, false)
  else
    let (ranges, isNew) := addToRanges p h.ranges
    ({ h with ranges := maybeDeleteOldRanges ranges }, isNew)

/- The loop of `DeleteBelow` (90-102) from `Front()` on. -/
def deleteFront (p : ℤ) : List Interval → List Interval
  | [] => []
  | el :: rest =>
    if el.stop < p then deleteFront p rest
    else if el.start < p ∧ p ≤ el.stop then ⟨p, el.stop⟩ :: rest
    else el :: rest

-- DeleteBelow, 84-103
def deleteBelow (h : History) (p : ℤ) : History :=
  if p < h.deletedBelow then h
  else ⟨(deleteFront p h.ranges.reverse).reverse, p⟩

-- GetAckRanges, 106-126, with FecRecoveredPacketList
def getAckRanges (h : History) (recovered : List ℤ) : History × List Interval :=
  let ranges := recovered.foldl (fun ranges pn => (addToRanges pn ranges).1) h.ranges
  ({ h with ranges := ranges }, ranges)

end History

/-! ### One operation -/

theorem extendStart_spec {rest : List Interval} (h : Apart rest) {p stop : ℤ} (hstop : p ≤ stop)
    (hlow : ∀ n ∈ covered rest, n < p) :
    Apart (History.extendStart p stop rest) ∧
      covered (History.extendStart p stop rest) =
        (⟨p, stop⟩ : Interval).numbers ∪ covered rest := by
  cases rest with
  | nil => exact ⟨Apart.cons hstop h fun n hn => absurd hn (Finset.notMem_empty n), rfl⟩
  | cons prev rest =>
    obtain ⟨hprev, _, hrest⟩ := apart_cons.mp h
    have hlast := hlow prev.stop (mem_covered.mpr ⟨prev, List.mem_cons_self .., hprev, le_refl _⟩)
    rw [History.extendStart]
    by_cases hmerge : prev.stop + 1 = p
    · rw [if_pos hmerge]
      refine ⟨Apart.cons (by dsimp only; omega) hrest fun n hn => h.covered_lt hn, ?_⟩
      ext n
      simp only [covered, Finset.mem_union, Interval.mem_numbers]
      constructor
      · rintro (hn | hn)
        · omega
        · exact Or.inr (Or.inr hn)
      · rintro (hn | hn | hn)
        · omega
        · omega
        · exact Or.inr hn
    · rw [if_neg hmerge]
      refine ⟨Apart.cons hstop h ?_, rfl⟩
      intro n hn
      obtain ⟨q, hq, hn₁, hn₂⟩ := mem_covered.mp hn
      dsimp only
      rcases List.mem_cons.mp hq with rfl | hq
      · omega
      · have := h.covered_lt (mem_covered.mpr ⟨q, hq, hn₁, hn₂⟩)
        omega

theorem addToRanges_spec {ranges : List Interval} (h : Apart ranges) (p : ℤ) :
    Apart (History.addToRanges p ranges).1 ∧
      covered (History.addToRanges p ranges).1 = insert p (covered ranges) := by
  induction ranges with
  | nil =>
    refine ⟨Apart.cons (le_refl p) h fun n hn => absurd hn (Finset.notMem_empty n), ?_⟩
    ext n
    simp only [History.addToRanges, covered, Finset.mem_union, Interval.mem_numbers,
      Finset.mem_insert, Finset.notMem_empty, or_false]
    omega
  | cons el rest ih =>
    obtain ⟨hel, _, hrest⟩ := apart_cons.mp h
    have hlow : ∀ n ∈ covered rest, n + 1 < el.start := fun n hn => h.covered_lt hn
    obtain ⟨ihApart, ihCovered⟩ := ih hrest
    rw [History.addToRanges]
    by_cases hin : el.start ≤ p ∧ p ≤ el.stop
    · rw [if_pos hin]
      refine ⟨h, (Finset.insert_eq_of_mem ?_).symm⟩
      exact mem_covered.mpr ⟨el, List.mem_cons_self .., hin⟩
    rw [if_neg hin]
    by_cases hend : el.stop = p - 1
    · -- an interval above that begins with `p + 1` was looked at before
      rw [if_pos hend]
      refine ⟨Apart.cons (by dsimp only; omega) hrest hlow, ?_⟩
      ext n
      simp only [covered, Finset.mem_union, Interval.mem_numbers, Finset.mem_insert]
      constructor
      · rintro (hn | hn)
        · omega
        · exact Or.inr (Or.inr hn)
      · rintro (hn | hn | hn)
        · omega
        · omega
        · exact Or.inr hn
    rw [if_neg hend]
    by_cases hstart : el.start = p + 1
    · rw [if_pos hstart]
      obtain ⟨hapart, hcovered⟩ := extendStart_spec hrest (p := p) (show p ≤ el.stop by omega)
        fun n hn => by
          have := hlow n hn
          omega
      refine ⟨hapart, ?_⟩
      rw [hcovered]
      ext n
      simp only [covered, Finset.mem_union, Interval.mem_numbers, Finset.mem_insert]
      constructor
      · rintro (hn | hn)
        · omega
        · exact Or.inr (Or.inr hn)
      · rintro (hn | hn | hn)
        · omega
        · omega
        · exact Or.inr hn
    rw [if_neg hstart]
    by_cases hnew : el.stop < p
    · rw [if_pos hnew]
      refine ⟨Apart.cons (le_refl p) h ?_, ?_⟩
      · intro n hn
        obtain ⟨q, hq, hn₁, hn₂⟩ := mem_covered.mp hn
        dsimp only
        rcases List.mem_cons.mp hq with rfl | hq
        · omega
        · have := hlow n (mem_covered.mpr ⟨q, hq, hn₁, hn₂⟩)
          omega
      · ext n
        simp only [covered, Finset.mem_union, Interval.mem_numbers, Finset.mem_insert]
        constructor
        · rintro (hn | hn)
          · omega
          · exact Or.inr hn
        · rintro (hn | hn)
          · omega
          · exact Or.inr hn
    rw [if_neg hnew]
    refine ⟨Apart.cons hel ihApart ?_, ?_⟩
    · intro n hn
      rw [ihCovered, Finset.mem_insert] at hn
      rcases hn with rfl | hn
      · omega
      · exact hlow n hn
    · rw [covered, covered, ihCovered, Finset.union_insert]

theorem deleteFront_spec (p : ℤ) {l : List Interval} (hne : ∀ r ∈ l, r.start ≤ r.stop)
    (hup : l.Pairwise fun r q => r.stop + 1 < q.start) :
    (∀ r ∈ History.deleteFront p l, r.start ≤ r.stop) ∧
      (History.deleteFront p l).Pairwise (fun r q => r.stop + 1 < q.start) ∧
      covered (History.deleteFront p l) = (covered l).filter (p ≤ ·) := by
  induction l with
  | nil => exact ⟨hne, hup, rfl⟩
  | cons el rest ih =>
    obtain ⟨hel, hrest⟩ := List.forall_mem_cons.mp hne
    obtain ⟨habove, hup'⟩ := List.pairwise_cons.mp hup
    have hhigh : ∀ n ∈ covered rest, el.stop + 1 < n := by
      intro n hn
      obtain ⟨q, hq, hn₁, _⟩ := mem_covered.mp hn
      have := habove q hq
      omega
    rw [History.deleteFront]
    by_cases hwhole : el.stop < p
    · rw [if_pos hwhole]
      obtain ⟨ihne, ihup, ihcov⟩ := ih hrest hup'
      refine ⟨ihne, ihup, ?_⟩
      rw [ihcov, covered, Finset.filter_union]
      refine (Finset.union_eq_right.mpr ?_).symm
      intro n hn
      obtain ⟨hin, hle⟩ := Finset.mem_filter.mp hn
      have := (Interval.mem_numbers.mp hin).2
      omega
    rw [if_neg hwhole]
    have hkeep : (covered rest).filter (p ≤ ·) = covered rest := by
      refine Finset.filter_true_of_mem ?_
      intro n hn
      have := hhigh n hn
      omega
    by_cases hpart : el.start < p ∧ p ≤ el.stop
    · rw [if_pos hpart]
      refine ⟨List.forall_mem_cons.mpr ⟨hpart.2, hrest⟩, List.pairwise_cons.mpr ⟨habove, hup'⟩, ?_⟩
      rw [covered, covered, Finset.filter_union, hkeep]
      congr 1
      ext n
      rw [Finset.mem_filter, Interval.mem_numbers, Interval.mem_numbers]
      dsimp only
      omega
    · rw [if_neg hpart]
      refine ⟨hne, hup, ?_⟩
      rw [covered, Finset.filter_union, hkeep]
      congr 1
      refine (Finset.filter_true_of_mem ?_).symm
      intro n hn
      have := (Interval.mem_numbers.mp hn).1
      omega

theorem deleteFront_length (p : ℤ) (l : List Interval) :
    (History.deleteFront p l).length ≤ l.length := by
  induction l with
  | nil => exact le_refl _
  | cons el rest ih =>
    rw [History.deleteFront]
    split
    next => exact le_trans ih (Nat.le_succ _)
    next =>
      split
      next => exact le_refl _
      next => exact le_refl _

namespace History

variable {h : History} {p : ℤ}

theorem covered_deleteBelow (ha : Apart h.ranges) (hp : h.deletedBelow ≤ p) :
    Apart (h.deleteBelow p).ranges ∧ (h.deleteBelow p).deletedBelow = p ∧
      covered (h.deleteBelow p).ranges = (covered h.ranges).filter (p ≤ ·) := by
  obtain ⟨hne, hup, hcov⟩ := deleteFront_spec p (l := h.ranges.reverse)
    (fun r hr => ha.1 r (List.mem_reverse.mp hr)) (List.pairwise_reverse.mpr ha.2)
  rw [deleteBelow, if_neg (not_lt.mpr hp)]
  refine ⟨⟨fun r hr => hne r (List.mem_reverse.mp hr), List.pairwise_reverse.mpr hup⟩, rfl, ?_⟩
  rw [covered_reverse, hcov, covered_reverse]

theorem covered_receivedPacket (ha : Apart h.ranges) (hp : h.deletedBelow ≤ p) :
    Apart (h.receivedPacket p).1.ranges ∧ (h.receivedPacket p).1.deletedBelow = h.deletedBelow ∧
      (h.receivedPacket p).1.ranges.length ≤ maxNumAckRanges ∧
      covered (h.receivedPacket p).1.ranges =
        newest maxNumAckRanges (insert p (covered h.ranges)) := by
  obtain ⟨hapart, hcov⟩ := addToRanges_spec ha p
  rw [receivedPacket, if_neg (not_lt.mpr hp)]
  refine ⟨hapart.take _, rfl, List.length_take_le _ _, ?_⟩
  rw [← hcov]
  exact covered_take hapart _

theorem receivedPacket_subset (ha : Apart h.ranges) (p : ℤ) :
    Apart (h.receivedPacket p).1.ranges ∧
      ∀ n ∈ covered (h.receivedPacket p).1.ranges, n = p ∨ n ∈ covered h.ranges := by
  by_cases hp : p < h.deletedBelow
  · rw [receivedPacket, if_pos hp]
    exact ⟨ha, fun n hn => Or.inr hn⟩
  · obtain ⟨hapart, _, _, hcov⟩ := covered_receivedPacket ha (not_lt.mp hp)
    refine ⟨hapart, ?_⟩
    intro n hn
    rw [hcov] at hn
    exact Finset.mem_insert.mp (Finset.mem_filter.mp hn).1

theorem deleteBelow_subset (ha : Apart h.ranges) (p : ℤ) :
    Apart (h.deleteBelow p).ranges ∧
      ∀ n ∈ covered (h.deleteBelow p).ranges, n ∈ covered h.ranges := by
  by_cases hp : p < h.deletedBelow
  · rw [deleteBelow, if_pos hp]
    exact ⟨ha, fun n hn => hn⟩
  · obtain ⟨hapart, _, hcov⟩ := covered_deleteBelow ha (not_lt.mp hp)
    refine ⟨hapart, ?_⟩
    intro n hn
    rw [hcov] at hn
    exact (Finset.mem_filter.mp hn).1

theorem covered_getAckRanges (ha : Apart h.ranges) (recovered : List ℤ) :
    Apart (h.getAckRanges recovered).1.ranges ∧
      covered (h.getAckRanges recovered).1.ranges = covered h.ranges ∪ recovered.toFinset := by
  obtain ⟨ranges, below⟩ := h
  have ha' : Apart ranges := ha
  show Apart (recovered.foldl _ ranges) ∧ covered (recovered.foldl _ ranges) =
    covered ranges ∪ recovered.toFinset
  induction recovered generalizing ranges with
  | nil => exact ⟨ha', by simp⟩
  | cons pn recovered ih =>
    obtain ⟨hapart, hcov⟩ := addToRanges_spec ha' pn
    obtain ⟨hfold, hfcov⟩ := ih _ hapart hapart
    refine ⟨hfold, ?_⟩
    rw [List.foldl_cons, hfcov, hcov, List.toFinset_cons, Finset.insert_union, Finset.union_insert]

end History

/-! ### Sequences of calls -/

/- One history with the global list. `kept` is a history variable: the numbers that were
registered, without those that `DeleteBelow` or the limit on the ranges dropped. -/
structure Acks where
  history : History
  fecRecoveredPacketList : List ℤ
  kept : Finset ℤ

namespace Acks

inductive Label
  | receivedPacket (p : ℤ)
  | deleteBelow (p : ℤ)
  | recovered (p : ℤ)
  | getAckRanges
  deriving Repr, DecidableEq

def init : Acks := ⟨.new, [], ∅⟩

def step (s : Acks) : Label → Except Empty Acks
  | .receivedPacket p => .ok { s with
      history := (s.history.receivedPacket p).1
      kept := if p < s.history.deletedBelow then s.kept
        else newest maxNumAckRanges (insert p s.kept) }
  | .deleteBelow p => .ok { s with
      history := s.history.deleteBelow p
      kept := if p < s.history.deletedBelow then s.kept else s.kept.filter (p ≤ ·) }
  | .recovered p => .ok { s with fecRecoveredPacketList := s.fecRecoveredPacketList ++ [p] }
  | .getAckRanges => .ok
      { history := (s.history.getAckRanges s.fecRecoveredPacketList).1
        fecRecoveredPacketList := []
        kept := s.kept ∪ s.fecRecoveredPacketList.toFinset }

/- The numbers that `GetAckRanges` adds were not deleted, and they leave room in the list: the
numbers have no more runs than it can take. -/
def Fits (s : Acks) : Label → Prop
  | .getAckRanges => (∀ p ∈ s.fecRecoveredPacketList, s.history.deletedBelow ≤ p) ∧
      (starts (covered s.history.ranges ∪ s.fecRecoveredPacketList.toFinset)).card ≤
        maxNumAckRanges
  | _ => True

instance (s : Acks) : ∀ a, Decidable (s.Fits a)
  | .getAckRanges => inferInstanceAs (Decidable (_ ∧ _))
  | .receivedPacket _ | .deleteBelow _ | .recovered _ => .isTrue trivial

/- What holds in any run. -/
structure Tracks (s : Acks) : Prop where
  apart : Apart s.history.ranges
  covered : covered s.history.ranges = s.kept

theorem Tracks.step {s s' : Acks} (h : s.Tracks) {a : Label} (hs : s.step a = .ok s') :
    s'.Tracks := by
  cases a with
  | receivedPacket p =>
    cases hs
    by_cases hp : p < s.history.deletedBelow
    · simp only [History.receivedPacket, if_pos hp]
      exact h
    · obtain ⟨hapart, _, _, hcov⟩ := History.covered_receivedPacket h.apart (not_lt.mp hp)
      refine ⟨hapart, ?_⟩
      rw [if_neg hp, hcov, h.covered]
  | deleteBelow p =>
    cases hs
    by_cases hp : p < s.history.deletedBelow
    · simp only [History.deleteBelow, if_pos hp]
      exact h
    · obtain ⟨hapart, _, hcov⟩ := History.covered_deleteBelow h.apart (not_lt.mp hp)
      refine ⟨hapart, ?_⟩
      rw [if_neg hp, hcov, h.covered]
  | recovered p =>
    cases hs
    exact ⟨h.apart, h.covered⟩
  | getAckRanges =>
    cases hs
    obtain ⟨hapart, hcov⟩ := History.covered_getAckRanges h.apart s.fecRecoveredPacketList
    exact ⟨hapart, by rw [hcov, h.covered]⟩

/- What holds as long as the recovered numbers fit. -/
structure Limited (s : Acks) : Prop where
  tracks : s.Tracks
  above : ∀ n ∈ covered s.history.ranges, s.history.deletedBelow ≤ n
  length : s.history.ranges.length ≤ maxNumAckRanges

theorem Limited.step {s s' : Acks} (h : s.Limited) {a : Label} (hok : s.Fits a)
    (hs : s.step a = .ok s') : s'.Limited := by
  have htracks := h.tracks.step hs
  have hapart := h.tracks.apart
  cases a with
  | receivedPacket p =>
    cases hs
    by_cases hp : p < s.history.deletedBelow
    · refine ⟨htracks, ?_, ?_⟩
      · simp only [History.receivedPacket, if_pos hp]
        exact h.above
      · simp only [History.receivedPacket, if_pos hp]
        exact h.length
    · obtain ⟨_, hbelow, hlen, hcov⟩ := History.covered_receivedPacket hapart (not_lt.mp hp)
      refine ⟨htracks, ?_, hlen⟩
      intro n hn
      dsimp only at hn ⊢
      rw [hcov] at hn
      rw [hbelow]
      rcases Finset.mem_insert.mp (Finset.mem_filter.mp hn).1 with rfl | hn
      · exact not_lt.mp hp
      · exact h.above n hn
  | deleteBelow p =>
    cases hs
    by_cases hp : p < s.history.deletedBelow
    · refine ⟨htracks, ?_, ?_⟩
      · simp only [History.deleteBelow, if_pos hp]
        exact h.above
      · simp only [History.deleteBelow, if_pos hp]
        exact h.length
    · obtain ⟨hapart', hbelow, hcov⟩ := History.covered_deleteBelow hapart (not_lt.mp hp)
      refine ⟨htracks, ?_, ?_⟩
      · intro n hn
        dsimp only at hn ⊢
        rw [hcov] at hn
        rw [hbelow]
        exact (Finset.mem_filter.mp hn).2
      · refine le_trans ?_ h.length
        rw [History.deleteBelow, if_neg hp, List.length_reverse]
        exact le_trans (deleteFront_length p _) (List.length_reverse).le
  | recovered p =>
    cases hs
    exact ⟨htracks, h.above, h.length⟩
  | getAckRanges =>
    cases hs
    obtain ⟨hapart', hcov⟩ := History.covered_getAckRanges hapart s.fecRecoveredPacketList
    refine ⟨htracks, ?_, ?_⟩
    · intro n hn
      dsimp only at hn
      rw [hcov, Finset.mem_union, List.mem_toFinset] at hn
      rcases hn with hn | hn
      · exact h.above n hn
      · exact hok.1 n hn
    · rw [← card_starts hapart', hcov]
      exact hok.2

/- The intervals of any sequence of calls, as long as the numbers in `FecRecoveredPacketList` are
not below `deletedBelow` and do not open too many ranges. -/
theorem ranges_of_run {as : List Label} {s : Acks} (h : Run step Fits init as s) :
    Apart s.history.ranges ∧
    (∀ n ∈ covered s.history.ranges, s.history.deletedBelow ≤ n) ∧
    s.history.ranges.length ≤ maxNumAckRanges ∧
    covered s.history.ranges = s.kept := by
  have hinit : init.Limited :=
    ⟨⟨apart_nil, rfl⟩, fun n hn => absurd hn (Finset.notMem_empty n), Nat.zero_le _⟩
  have hi := Run.invariant Limited hinit
    (fun _ _ _ hi hok hs => hi.step hok hs) h
  exact ⟨hi.tracks.apart, hi.above, hi.length, hi.tracks.covered⟩

theorem ranges_of_run_gap : ∃ s, Run step Fits init
      [.receivedPacket 3, .receivedPacket 6, .deleteBelow 4, .receivedPacket 8, .recovered 7,
        .getAckRanges] s ∧
    s.history.ranges = [⟨6, 8⟩] ∧ covered s.history.ranges = s.kept := by
  obtain ⟨s, hrun, hs⟩ := Run.exists_of_exec step init
    [.receivedPacket 3, .receivedPacket 6, .deleteBelow 4, .receivedPacket 8, .recovered 7,
      .getAckRanges] (fun s => s.history.ranges = [⟨6, 8⟩])
    (show Guarded step Fits init _ by decide +kernel) (by decide +kernel)
  exact ⟨s, hrun, of_decide_eq_true hs, (ranges_of_run hrun).2.2.2⟩

/- A recovered number below `deletedBelow` is acknowledged, and 33 recovered numbers give 33
ranges. -/
theorem ranges_of_recovered :
    (∃ s, Run step always init
        [.receivedPacket 10, .deleteBelow 10, .recovered 3, .getAckRanges] s ∧
      3 ∈ covered s.history.ranges ∧ (3 : ℤ) < s.history.deletedBelow) ∧
    ∃ s, Run step always init
        (((List.range 33).map fun (i : ℕ) => .recovered (2 * (i : ℤ))) ++ [.getAckRanges]) s ∧
      maxNumAckRanges < s.history.ranges.length := by
  constructor
  · obtain ⟨s, hrun, hs⟩ := Run.exists_of_exec step init
      [.receivedPacket 10, .deleteBelow 10, .recovered 3, .getAckRanges]
      (fun s => 3 ∈ covered s.history.ranges ∧ (3 : ℤ) < s.history.deletedBelow)
      (Guarded.always _) (by decide +kernel)
    exact ⟨s, hrun, of_decide_eq_true hs⟩
  · obtain ⟨s, hrun, hs⟩ := Run.exists_of_exec step init
      (((List.range 33).map fun (i : ℕ) => .recovered (2 * (i : ℤ))) ++ [.getAckRanges])
      (fun s => maxNumAckRanges < s.history.ranges.length) (Guarded.always _) (by decide +kernel)
    exact ⟨s, hrun, of_decide_eq_true hs⟩

end Acks

end Mp2bs.Quic
