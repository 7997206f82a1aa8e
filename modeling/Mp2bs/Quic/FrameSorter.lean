import Mp2bs.Lib.Pieces
import Mp2bs.Quic.FecFrameCodec

/-!
# Putting the data of a stream in order (`enhanced-quic/frame_sorter.go`)

STREAM frames and the frames that the FEC decoder recovers come in any order and overlap. The sorter
keeps the data that was not read yet, and the gaps: the byte ranges that have not been received. The
callbacks that give back buffers are left out.
-/

namespace Mp2bs.Quic
open Mp2bs.Lib Mp2bs.Lib.Machine Mp2bs.Lib.Pieces Mp2bs.Lib.Slice

structure ByteInterval where
  start : ℕ
  stop : ℕ

structure FrameSorter where
  queue : Pieces UInt8
  readPos : ℕ
  gaps : List ByteInterval

/-- The results of `push`; the first two are no error of `Push`. -/
inductive PushResult
  | pushed
  | duplicate
  | tooManyGaps
  deriving DecidableEq

-- internal/protocol/params.go:84
def maxStreamFrameSorterGaps : ℕ := 1000

namespace FrameSorter

def newFrameSorter : FrameSorter := ⟨∅, 0, [⟨0, maxByteCount⟩]⟩

/-- `findStartGap` (170-180): the gaps before it, the gap, those behind it, and whether the offset is in it. -/
def findStartGap (offset : ℕ) : List ByteInterval →
    Except Stop (List ByteInterval × ByteInterval × List ByteInterval × Bool)
  | [] => .error .panic
  | gap :: gaps =>
    if gap.start ≤ offset ∧ offset ≤ gap.stop then .ok ([], gap, gaps, true)
    else if offset < gap.start then .ok ([], gap, gaps, false)
    else do
      let (before, found) ← findStartGap offset gaps
      return (gap :: before, found)

/-- `findEndGap` (182-192): the gaps from `startGap` to the one that it returns, none of them if that is
the one before `startGap`, and the gaps behind it. -/
def findEndGap (offset : ℕ) : List ByteInterval → Except Stop (List ByteInterval × List ByteInterval × Bool)
  | [] => .error .panic
  | gap :: gaps =>
    if gap.start ≤ offset ∧ offset < gap.stop then .ok ([gap], gaps, true)
    else if offset < gap.start then .ok ([], gap :: gaps, false)
    else do
      let (passed, after) ← findEndGap offset gaps
      return (gap :: passed, after)

/-- `deleteConsecutive` (195-208). -/
def deleteConsecutive (queue : Pieces UInt8) (pos : ℕ) : Pieces UInt8 := deleteRun queue.keys.length queue pos

/-- The loop over the old frames at the start of the new one (73-100): the queue, `end` and
`hasReplacedAtLeastOne`, or `none` for a duplicate. The first argument bounds its turns. -/
def replaceOld (stop : ℕ) : ℕ → Pieces UInt8 → ℕ → Bool → Option (Pieces UInt8 × ℕ × Bool)
  | 0, queue, _, replaced => some (queue, stop, replaced)
  | turns + 1, queue, pos, replaced =>
    match queue.lookup pos with
    | none => some (queue, stop, replaced)
    | some old =>
      if stop - pos > old.length ∨ replaced ∧ stop - pos = old.length then
        replaceOld stop turns (queue.erase pos) (pos + old.length) true
      else if replaced then some (queue, pos, true)
      else none

/-- The loop over the gaps between `startGap` and `endGap` (121-126): the gaps that stay, and the queue. -/
def deleteBetween (endGapStart : ℕ) : List ByteInterval → Pieces UInt8 → List ByteInterval × Pieces UInt8
  | [], queue => ([], queue)
  | gap :: gaps, queue =>
    if gap.stop < endGapStart then deleteBetween endGapStart gaps (deleteConsecutive queue gap.stop)
    else (gap :: gaps, queue)

/-- The end of `push` (155-166) with the data of `[start, stop)`, which are cut out of `data`. -/
def store (s : FrameSorter) (data : Bytes) (offset start stop : ℕ) (gaps : List ByteInterval)
    (queue : Pieces UInt8) : Except Stop (FrameSorter × PushResult) :=
  if offset ≤ start ∧ start ≤ stop ∧ stop ≤ offset + data.length then
    if gaps.length > maxStreamFrameSorterGaps then .ok (⟨queue, s.readPos, gaps⟩, .tooManyGaps)
    else .ok (⟨queue.insert start (window data (start - offset) (stop - start)), s.readPos, gaps⟩, .pushed)
  else .error .panic

/-- `push` from the loop over the old frames on (63-166); `endGap` is the last gap of `startGap :: others`. -/
def fillGaps (s : FrameSorter) (data : Bytes) (offset : ℕ) (before : List ByteInterval) (startGap : ByteInterval)
    (startsInGap : Bool) (others after : List ByteInterval) (endsInGap : Bool) :
    Except Stop (FrameSorter × PushResult) :=
  let endGap := others.getLastD startGap
  match replaceOld (offset + data.length) s.queue.keys.length s.queue offset false with
  | none => .ok (s, .duplicate)
  | some (queue, stop, replaced) =>
    let start := if startsInGap ∨ replaced then offset else startGap.start
    let startGaps :=
      if start ≤ startGap.start then if stop ≥ startGap.stop then [] else [⟨stop, startGap.stop⟩]
      else if replaced then [startGap] else [⟨startGap.start, start⟩]
    let (between, queue) :=
      if others = [] then ([], queue)
      else deleteBetween endGap.start others.dropLast (deleteConsecutive queue startGap.stop)
    let cut := if ¬endsInGap ∧ start ≠ endGap.stop ∧ stop > endGap.stop then endGap.stop else stop
    let endGaps :=
      if cut = endGap.stop then []
      else if others ≠ [] then [⟨cut, endGap.stop⟩]
      else if startGap.start < start ∧ ¬replaced then [⟨cut, startGap.stop⟩]
      else []
    s.store data offset start cut (before ++ startGaps ++ between ++ endGaps ++ after) queue

/-- `push` (45-167). -/
def push (s : FrameSorter) (data : Bytes) (offset : ℕ) : Except Stop (FrameSorter × PushResult) :=
  if data = [] then .ok (s, .duplicate)
  else match s.gaps with
    | [] => .error .panic
    | front :: _ =>
      if offset + data.length ≤ front.start then .ok (s, .duplicate)
      else do
        let (before, startGap, rest, startsInGap) ← findStartGap offset s.gaps
        let (passed, after, endsInGap) ← findEndGap (offset + data.length) (startGap :: rest)
        match passed with
        | [] =>
          -- `endGap` is the gap before `startGap`, and the frame ends before `startGap`
          match before.getLast? with
          | none => .error .panic
          | some endGap => if startGap.stop ≥ endGap.start then .ok (s, .duplicate) else .error .panic
        | _ :: others =>
          if offset + data.length ≤ startGap.start ∧
              (others = [] ∨ startGap.stop ≥ (others.getLastD startGap).start) then .ok (s, .duplicate)
          else s.fillGaps data offset before startGap startsInGap others after endsInGap

/-- `Pop` (210-222). -/
def pop (s : FrameSorter) : Except Stop (FrameSorter × Option Bytes) :=
  match s.queue.lookup s.readPos with
  | none => .ok (s, none)
  | some data =>
    match s.gaps with
    | [] => .error .panic
    | front :: _ =>
      if front.stop ≤ s.readPos + data.length then .error .panic
      else .ok (⟨s.queue.erase s.readPos, s.readPos + data.length, s.gaps⟩, some data)

/-! ### The gaps -/

variable {gaps before passed others after rest : List ByteInterval} {startGap endGap g : ByteInterval}
  {offset start stop n x : ℕ}

/-- The bytes that have not been received. -/
def holes (gaps : List ByteInterval) : Set ℕ :=
  {x | maxByteCount ≤ x ∨ ∃ g ∈ gaps, g.start ≤ x ∧ x < g.stop}

/-- The gaps are not empty, ascend without touching each other, and the last one is open. -/
structure Ascending (gaps : List ByteInterval) : Prop where
  lt : ∀ g ∈ gaps, g.start < g.stop
  pairwise : gaps.Pairwise fun g h => g.stop < h.start
  le : ∀ g ∈ gaps, g.stop ≤ maxByteCount
  last : ∃ g ∈ gaps, g.stop = maxByteCount

theorem Ascending.le_of_mem (h : Ascending (before ++ g :: rest)) (hx : x ∈ holes (before ++ g :: rest))
    (hbefore : ∀ g ∈ before, g.stop ≤ x) : g.start ≤ x := by
  have hg : g ∈ before ++ g :: rest := by simp
  have hlt := h.lt g hg
  rcases hx with hmax | ⟨g', hg', hstart, hstop⟩
  · have := h.le g hg
    omega
  · rcases List.mem_append.mp hg' with hmem | hmem
    · have := hbefore g' hmem
      omega
    · rcases List.mem_cons.mp hmem with rfl | hmem
      · exact hstart
      · have := (List.pairwise_cons.mp (List.pairwise_append.mp h.pairwise).2.1).1 g' hmem
        omega

theorem findStartGap_spec (hlt : ∀ g ∈ gaps, g.start < g.stop) (hex : ∃ g ∈ gaps, offset ≤ g.stop) :
    ∃ before g rest, findStartGap offset gaps = .ok (before, g, rest, decide (g.start ≤ offset)) ∧
      gaps = before ++ g :: rest ∧ (∀ h ∈ before, h.stop < offset) ∧ offset ≤ g.stop := by
  induction gaps with
  | nil => simp at hex
  | cons gap gaps ih =>
    rw [findStartGap]
    by_cases hin : gap.start ≤ offset ∧ offset ≤ gap.stop
    · exact ⟨[], gap, gaps, by rw [if_pos hin, decide_eq_true hin.1], rfl, by simp, hin.2⟩
    · rw [if_neg hin]
      have hgap := hlt gap (List.mem_cons_self ..)
      by_cases hbelow : offset < gap.start
      · exact ⟨[], gap, gaps, by rw [if_pos hbelow, decide_eq_false (by omega)], rfl, by simp, by omega⟩
      · rw [if_neg hbelow]
        rw [List.exists_mem_cons_iff, or_iff_right (by omega)] at hex
        obtain ⟨before, g, rest, hfind, rfl, hbefore, hle⟩ := ih (List.forall_mem_cons.mp hlt).2 hex
        refine ⟨gap :: before, g, rest, by rw [hfind]; rfl, rfl, ?_, hle⟩
        exact List.forall_mem_cons.mpr ⟨by omega, hbefore⟩

theorem findEndGap_spec (hlt : ∀ g ∈ gaps, g.start < g.stop) (hpair : gaps.Pairwise fun g h => g.stop < h.start)
    (hex : ∃ g ∈ gaps, stop < g.stop) :
    ∃ passed after b, findEndGap stop gaps = .ok (passed, after, b) ∧ gaps = passed ++ after ∧
      (∀ h ∈ passed, h.start ≤ stop) ∧ (∀ h ∈ after, stop < h.start) ∧
      (b = true → ∀ g, stop < (passed.getLastD g).stop) ∧ (b = false → ∀ h ∈ passed, h.stop ≤ stop) := by
  induction gaps with
  | nil => simp at hex
  | cons gap gaps ih =>
    obtain ⟨hgap, hpair⟩ := List.pairwise_cons.mp hpair
    obtain ⟨hlt₀, hlt⟩ := List.forall_mem_cons.mp hlt
    rw [findEndGap]
    by_cases hin : gap.start ≤ stop ∧ stop < gap.stop
    · refine ⟨[gap], gaps, true, if_pos hin, rfl, by simpa using hin.1, ?_, fun _ _ => hin.2, nofun⟩
      exact fun h hh => hin.2.trans (hgap h hh)
    · rw [if_neg hin]
      by_cases hbelow : stop < gap.start
      · refine ⟨[], gap :: gaps, false, if_pos hbelow, rfl, by simp, ?_, nofun, by simp⟩
        refine List.forall_mem_cons.mpr ⟨hbelow, fun h hh => ?_⟩
        have := hgap h hh
        omega
      · rw [if_neg hbelow]
        rw [List.exists_mem_cons_iff, or_iff_right (by omega)] at hex
        obtain ⟨passed, after, b, hfind, rfl, hpassed, hafter, htrue, hfalse⟩ := ih hlt hpair hex
        refine ⟨gap :: passed, after, b, by rw [hfind]; rfl, rfl, ?_, hafter, ?_, ?_⟩
        · exact List.forall_mem_cons.mpr ⟨by omega, hpassed⟩
        · intro hb g
          rw [List.getLastD_cons]
          exact htrue hb gap
        · exact fun hb => List.forall_mem_cons.mpr ⟨by omega, hfalse hb⟩

/-- What is left of the gaps from `startGap` to `endGap` when `[start, stop)` is filled. -/
def filled (startGap endGap : ByteInterval) (start stop : ℕ) : List ByteInterval :=
  (if startGap.start < start then [⟨startGap.start, start⟩] else []) ++
    if stop < endGap.stop then [⟨stop, endGap.stop⟩] else []

theorem mem_filled : g ∈ filled startGap endGap start stop ↔
    startGap.start < start ∧ g = ⟨startGap.start, start⟩ ∨ stop < endGap.stop ∧ g = ⟨stop, endGap.stop⟩ := by
  rw [filled, List.mem_append]
  split_ifs <;> simp_all

theorem getLastD_mem (others : List ByteInterval) (startGap : ByteInterval) :
    others.getLastD startGap ∈ startGap :: others := by
  induction others generalizing startGap with
  | nil => simp
  | cons o others ih => grind

theorem Ascending.lastGap (h : (startGap :: others).Pairwise fun g h => g.stop < h.start) :
    ∀ g ∈ startGap :: others, g = others.getLastD startGap ∨ g.stop < (others.getLastD startGap).start := by
  induction others generalizing startGap with
  | nil => simp
  | cons o others ih =>
    obtain ⟨hfirst, hpair⟩ := List.pairwise_cons.mp h
    have := getLastD_mem others o
    grind

theorem Ascending.fill (h : Ascending (before ++ (startGap :: others ++ after)))
    (hbefore : ∀ g ∈ before, g.stop < start) (hstart : start ≤ startGap.stop)
    (hend : (others.getLastD startGap).start ≤ stop) (hstop : stop ≤ (others.getLastD startGap).stop)
    (hlt : start < stop) (hmax : stop < maxByteCount) :
    Ascending (before ++ (filled startGap (others.getLastD startGap) start stop ++ after)) ∧
      holes (before ++ (filled startGap (others.getLastD startGap) start stop ++ after)) =
        holes (before ++ (startGap :: others ++ after)) \ Set.Ico start stop := by
  obtain ⟨hpb, hp, hcross⟩ := List.pairwise_append.mp h.pairwise
  obtain ⟨hpp, hpa, hpassed⟩ := List.pairwise_append.mp hp
  obtain ⟨hfirst, -⟩ := List.pairwise_cons.mp hpp
  have hmem := getLastD_mem others startGap
  have hlast := Ascending.lastGap hpp
  generalize others.getLastD startGap = endGap at *
  obtain ⟨hlt', -, hle, hex⟩ := h
  refine ⟨⟨?_, ?_, ?_, ?_⟩, ?_⟩
  · grind [mem_filled]
  · have : (filled startGap endGap start stop).Pairwise fun g h => g.stop < h.start := by
      rw [filled]
      split_ifs <;> simp [hlt]
    grind [mem_filled]
  · grind [mem_filled]
  · obtain ⟨g, hg, hgmax⟩ := hex
    by_cases hpass : g ∈ startGap :: others
    · have : endGap.stop = maxByteCount := by grind
      exact ⟨⟨stop, endGap.stop⟩, by grind [mem_filled], this⟩
    · exact ⟨g, by grind, hgmax⟩
  · ext x
    constructor
    · rintro (hx | ⟨g, hg, hgx⟩)
      · exact ⟨.inl hx, fun hin => absurd hin.2 (by omega)⟩
      · rw [List.mem_append, List.mem_append, mem_filled] at hg
        rcases hg with hg | (⟨_, rfl⟩ | ⟨_, rfl⟩) | hg
        · exact ⟨.inr ⟨g, by grind, hgx⟩, by grind⟩
        · exact ⟨.inr ⟨startGap, by grind, by grind⟩, by grind⟩
        · exact ⟨.inr ⟨endGap, by grind, by grind⟩, by grind⟩
        · exact ⟨.inr ⟨g, by grind, hgx⟩, by grind⟩
    · rintro ⟨hx | ⟨g, hg, hgx⟩, hout⟩
      · exact .inl hx
      · by_cases hpass : g ∈ startGap :: others
        · by_cases hlow : x < start
          · exact .inr ⟨⟨startGap.start, start⟩, by grind [mem_filled], by grind⟩
          · have hstop' : stop ≤ x := not_lt.mp fun h => hout ⟨not_lt.mp hlow, h⟩
            exact .inr ⟨⟨stop, endGap.stop⟩, by grind [mem_filled], by grind⟩
        · exact .inr ⟨g, by grind, hgx⟩

/-! ### What the sorter holds -/

variable {stream : Bytes} {s : FrameSorter} {queue : Pieces UInt8} {g' : ByteInterval} {l l' : List ByteInterval}
  {endsInGap replaced : Bool}

/-- The piece at `p` has the bytes of the stream. -/
def PartOf (stream : Bytes) (p : ℕ) (d : Bytes) : Prop := d = window stream p d.length

/-- The queue has the bytes of the stream that were received and not read. -/
structure Inv (stream : Bytes) (s : FrameSorter) : Prop where
  gaps : Ascending s.gaps
  tiling : Tiling (holes s.gaps) s.readPos (PartOf stream) s.queue
  read : ∀ x ∈ holes s.gaps, s.readPos ≤ x

/-- A queue in the middle of `push`: the frames from `a` to `b` are deleted. -/
def Cleared (stream : Bytes) (s : FrameSorter) (queue : Pieces UInt8) (a b : ℕ) : Prop :=
  Tiling (holes s.gaps ∪ Set.Ico a b) s.readPos (PartOf stream) queue

/-- What `push` does with the bytes of `[start, stop)`, unless it fails. -/
def Pushed (stream : Bytes) (s : FrameSorter) (start stop : ℕ) (r : FrameSorter × PushResult) : Prop :=
  r.2 ≠ .tooManyGaps →
    Inv stream r.1 ∧ r.1.readPos = s.readPos ∧ holes r.1.gaps = holes s.gaps \ Set.Ico start stop

theorem Inv.duplicate (h : Inv stream s) (hout : ∀ x ∈ holes s.gaps, start ≤ x → stop ≤ x) :
    Pushed stream s start stop (s, .duplicate) := by
  refine fun _ => ⟨h, rfl, Set.ext fun x => ⟨fun hx => ⟨hx, fun hin => ?_⟩, fun hx => hx.1⟩⟩
  exact absurd hin.2 (not_lt.mpr (hout x hx hin.1))

theorem Inv.store {m : ℕ} (h : Inv stream s) (hn : offset + n ≤ stream.length) (hoff : offset ≤ start)
    (hlt : start < stop) (hstop : stop ≤ offset + n) (hlo : s.readPos ≤ start) (hclr : Cleared stream s queue start m)
    (hm : m ≤ stop) (hin : ∀ x, start ≤ x → m ≤ x → x < stop → x ∈ holes s.gaps) (hasc : Ascending gaps)
    (hholes : holes gaps = holes s.gaps \ Set.Ico start stop)
    (hrest : ∀ x ∈ holes s.gaps, offset ≤ x → x < offset + n → start ≤ x ∧ x < stop) :
    ∃ r, s.store (window stream offset n) offset start stop gaps queue = .ok r ∧
      Pushed stream s offset (offset + n) r := by
  have hlen : (window stream start (stop - start)).length = stop - start := by
    rw [window_length]
    omega
  have hdata : window (window stream offset n) (start - offset) (stop - start) =
      window stream start (stop - start) := by
    rw [window_window]
    congr 1 <;> omega
  have hne : window stream start (stop - start) ≠ [] := List.ne_nil_of_length_pos (by omega)
  rw [FrameSorter.store, if_pos (by rw [window_length]; omega), hdata]
  split
  · exact ⟨_, rfl, fun hr => absurd rfl hr⟩
  · have hfill := hclr.fill hlo hne (by rw [PartOf, hlen]) fun x hx hlt => by
      have := hin x hx
      grind
    refine ⟨_, rfl, fun _ => ⟨⟨hasc, ?_, ?_⟩, rfl, ?_⟩⟩
    · rw [hholes]
      convert hfill using 1
      ext x
      grind
    · intro x hx
      rw [hholes] at hx
      exact h.read x hx.1
    · rw [hholes]
      ext x
      have := hrest x
      grind

theorem mem_holes (hg : g ∈ gaps) (hstart : g.start ≤ x) (hstop : x < g.stop) : x ∈ holes gaps :=
  .inr ⟨g, hg, hstart, hstop⟩

theorem Ascending.next (h : Ascending gaps) (hgaps : gaps = l ++ g :: g' :: l') :
    g.stop < g'.start ∧ ∀ x ∈ holes gaps, g.stop ≤ x → g'.start ≤ x := by
  have hpair := h.pairwise
  refine ⟨by grind, fun x hx hle => ?_⟩
  have hsplit : gaps = (l ++ [g]) ++ g' :: l' := by simp [hgaps]
  have hlt := h.lt
  rw [hsplit] at hx h
  exact h.le_of_mem hx (by grind)

theorem Inv.clear_next (h : Inv stream s) (hgaps : s.gaps = l ++ g :: g' :: l')
    (hclr : Cleared stream s queue start g.start) (hs : start ≤ g.stop) :
    Cleared stream s (deleteConsecutive queue g.stop) start g'.start := by
  obtain ⟨hapart, hnext⟩ := h.gaps.next hgaps
  have hg : g ∈ s.gaps := by simp [hgaps]
  have hg' : g' ∈ s.gaps := by simp [hgaps]
  have hlt := h.gaps.lt g hg
  have hin : ∀ x, g.start ≤ x → x < g.stop → x ∈ holes s.gaps := fun x hx hx' => mem_holes hg hx hx'
  have hmem' := mem_holes hg' le_rfl (h.gaps.lt g' hg')
  have hread := h.read _ (hin _ le_rfl hlt)
  obtain ⟨b, hb, hle, hfree, htile⟩ := hclr.deletes (n := queue.keys.length) le_rfl (show s.readPos ≤ g.stop by omega)
    ⟨g.stop - 1, .inl (hin _ (by omega) (by omega)), by omega⟩
  have hbeq : b = g'.start := by
    have := hnext b
    have := hfree g'.start
    grind
  subst hbeq
  have hset : holes s.gaps ∪ Set.Ico start g.start ∪ Set.Ico g.stop g'.start =
      holes s.gaps ∪ Set.Ico start g'.start := by
    ext x
    grind
  rwa [hset] at htile

theorem Inv.clear_between (h : Inv stream s) (hgaps : s.gaps = l ++ (g :: others ++ l'))
    (hclr : Cleared stream s queue start g.start) (hs : start ≤ g.start) :
    ∃ queue', deleteBetween (others.getLastD g).start (g :: others).dropLast queue = ([], queue') ∧
      Cleared stream s queue' start (others.getLastD g).start := by
  induction others generalizing l g queue with
  | nil => exact ⟨queue, rfl, hclr⟩
  | cons g' others ih =>
    have hsplit : s.gaps = l ++ g :: g' :: (others ++ l') := by simp [hgaps]
    have hlt := h.gaps.lt g (by simp [hgaps])
    have hnext := h.clear_next hsplit hclr (by omega)
    have hpair := h.gaps.pairwise
    rw [hgaps, List.pairwise_append, List.pairwise_append] at hpair
    have hfirst := (List.pairwise_cons.mp hpair.2.1.1).1
    have hg' := hfirst g' (List.mem_cons_self ..)
    rw [List.getLastD_cons, List.dropLast_cons_cons, deleteBetween, if_pos (hfirst _ (getLastD_mem others g'))]
    exact ih (l := l ++ [g]) (by simp [hgaps]) hnext (by omega)

theorem replaceOld_of_none (turns : ℕ) (h : queue.lookup offset = none) :
    replaceOld stop turns queue offset replaced = some (queue, stop, replaced) := by
  cases turns with
  | zero => rfl
  | succ turns => simp only [replaceOld, h]

theorem replaceOld_spec {hole : Set ℕ} {lo pos turns : ℕ} {P : ℕ → Bytes → Prop} (h : Tiling hole lo P queue)
    (hn : queue.keys.length ≤ turns) (hpos : pos ≤ stop) (replaced : Bool) :
    (replaceOld stop turns queue pos replaced = none ∧ replaced = false ∧ ∀ x ∈ hole, pos ≤ x → stop ≤ x) ∨
    ∃ queue' m stop' r, replaceOld stop turns queue pos replaced = some (queue', stop', r) ∧ pos ≤ m ∧ m ≤ stop ∧
      (r = true ↔ replaced = true ∨ pos < m) ∧ (pos < m → lo ≤ pos) ∧ (∀ x ∈ hole, pos ≤ x → m ≤ x) ∧
      Tiling (hole ∪ Set.Ico pos m) lo P queue' ∧
      (stop' = stop ∧ queue'.lookup m = none ∨ stop' = m ∧ r = true ∧ ∀ x ∈ hole, pos ≤ x → stop < x) := by
  induction turns generalizing queue pos replaced hole with
  | zero =>
    cases hd : queue.lookup pos with
    | none =>
      exact .inr ⟨queue, pos, stop, replaced, replaceOld_of_none 0 hd, le_rfl, hpos, by simp, by simp, by simp,
        by simpa using h, .inl ⟨rfl, hd⟩⟩
    | some d =>
      have := length_keys_erase hd
      omega
  | succ turns ih =>
    cases hd : queue.lookup pos with
    | none =>
      exact .inr ⟨queue, pos, stop, replaced, replaceOld_of_none _ hd, le_rfl, hpos, by simp, by simp, by simp,
        by simpa using h, .inl ⟨rfl, hd⟩⟩
    | some d =>
      have hlen := length_keys_erase hd
      obtain ⟨-, hne, hlo, hout⟩ := h.piece pos d hd
      have hdpos := List.length_pos_of_ne_nil hne
      have hfree : ∀ x ∈ hole, pos ≤ x → pos + d.length ≤ x := fun x hx hle => not_lt.mp fun hlt => hout x hle hlt hx
      simp only [replaceOld, hd]
      by_cases hshort : stop - pos > d.length ∨ replaced = true ∧ stop - pos = d.length
      · rw [if_pos hshort]
        rcases ih (h.erase hd) (by omega) (show pos + d.length ≤ stop by omega) true with
          ⟨_, hr, _⟩ | ⟨queue', m, stop', r, hrep, hle, hm, hr, -, hnext, htile, hend⟩
        · cases hr
        · rw [Set.union_assoc, Set.Ico_union_Ico_eq_Ico (by omega) hle] at htile
          refine .inr ⟨queue', m, stop', r, hrep, by omega, hm, ?_, fun _ => hlo, ?_, htile, ?_⟩
          · exact iff_of_true (hr.mpr (.inl rfl)) (.inr (by omega))
          · exact fun x hx hle => hnext x (.inl hx) (hfree x hx hle)
          · exact hend.imp_right fun ⟨hstop, hr, hout⟩ => ⟨hstop, hr, fun x hx hle => hout x (.inl hx) (hfree x hx hle)⟩
      · rw [if_neg hshort]
        cases replaced with
        | false => exact .inl ⟨rfl, rfl, fun x hx hle => by have := hfree x hx hle; omega⟩
        | true =>
          simp only [true_and] at hshort
          refine .inr ⟨queue, pos, pos, true, rfl, le_rfl, hpos, by simp, by simp, by simp, by simpa using h, .inr ?_⟩
          exact ⟨rfl, rfl, fun x hx hle => by have := hfree x hx hle; omega⟩

/-- What the two searches of `push` find for a frame of `[offset, stop)`. -/
structure Found (gaps before : List ByteInterval) (startGap : ByteInterval) (others after : List ByteInterval)
    (endsInGap : Bool) (offset stop : ℕ) : Prop where
  eq : gaps = before ++ (startGap :: others ++ after)
  before : ∀ g ∈ before, g.stop < offset
  start : offset ≤ startGap.stop
  lt : startGap.start < stop
  passed : ∀ g ∈ startGap :: others, g.start ≤ stop
  after : ∀ g ∈ after, stop < g.start
  inside : endsInGap = true → stop < (others.getLastD startGap).stop
  outside : endsInGap = false → ∀ g ∈ startGap :: others, g.stop ≤ stop

/-- The new frame begins at `start`: what lies before is there already. -/
structure Starts (stream : Bytes) (s : FrameSorter) (startGap : ByteInterval) (others : List ByteInterval)
    (offset : ℕ) (queue : Pieces UInt8) (replaced : Bool) (start : ℕ) : Prop where
  le : offset ≤ start
  read : s.readPos ≤ start
  rest : ∀ x ∈ holes s.gaps, offset ≤ x → start ≤ x
  replaced : replaced = true → start ≤ startGap.start ∨ start = startGap.stop
  cleared : start < startGap.stop ∧ Cleared stream s queue start startGap.start ∨
    start = startGap.stop ∧ ∃ g ∈ others.head?, Cleared stream s queue start g.start

theorem Inv.starts (h : Inv stream s) (f : Found s.gaps before startGap others after endsInGap offset stop)
    (hlt : offset < stop) (hmax : stop < maxByteCount) :
    let found := replaceOld stop s.queue.keys.length s.queue offset false
    (found = none ∧ ∀ x ∈ holes s.gaps, offset ≤ x → stop ≤ x) ∨
    (∃ queue r, found = some (queue, stop, r) ∧ Starts stream s startGap others offset queue r
      (if startGap.start ≤ offset ∨ r = true then offset else startGap.start)) ∨
    ∃ queue e, found = some (queue, e, true) ∧ others = [] ∧ offset = startGap.stop ∧ offset < e ∧ e ≤ stop ∧
      Cleared stream s queue offset e ∧ ∀ x ∈ holes s.gaps, offset ≤ x → stop ≤ x := by
  have hg : startGap ∈ s.gaps := by simp [f.eq]
  have hgap := h.gaps.lt _ hg
  have hin : ∀ x, startGap.start ≤ x → x < startGap.stop → x ∈ holes s.gaps := fun x hx hx' => mem_holes hg hx hx'
  have hread := h.read _ (hin _ le_rfl hgap)
  have hfirst : ∀ x ∈ holes s.gaps, offset ≤ x → startGap.start ≤ x := fun x hx hle => by
    have hasc := h.gaps
    rw [f.eq] at hasc hx
    exact hasc.le_of_mem hx fun g hg => (f.before g hg).le.trans hle
  -- behind `startGap` there is another gap, since the frame ends before the last byte
  have hbehind : offset = startGap.stop → ∃ g, g.start ∈ holes s.gaps ∧ startGap.stop < g.start ∧
      (∀ x ∈ holes s.gaps, startGap.stop ≤ x → g.start ≤ x) ∧ (g ∈ others.head? ∨ others = [] ∧ stop < g.start) := by
    intro hoff
    obtain ⟨k, hk, hkmax⟩ := h.gaps.last
    obtain ⟨g, rest, hrest⟩ := List.exists_cons_of_ne_nil (l := others ++ after) fun hnil => by
      have := f.before k
      have := f.eq
      grind
    have hsplit : s.gaps = before ++ startGap :: g :: rest := by rw [← hrest, f.eq]; simp
    have hg : g ∈ s.gaps := by simp [hsplit]
    obtain ⟨hapart, hnext⟩ := h.gaps.next hsplit
    refine ⟨g, mem_holes hg le_rfl (h.gaps.lt g hg), hapart, hnext, ?_⟩
    cases others with
    | nil => exact .inr ⟨rfl, f.after g (by simp_all)⟩
    | cons o others => exact .inl (congrArg List.head? hrest)
  rcases replaceOld_spec h.tiling le_rfl hlt.le false with
    ⟨hnone, -, hdup⟩ | ⟨queue, m, stop', r, hrep, hle, hm, hr, hlo, hnext, htile, ⟨rfl, hlook⟩ | ⟨rfl, rfl, hout⟩⟩
  · exact .inl ⟨hnone, hdup⟩
  · refine .inr (.inl ⟨queue, r, hrep, ?_⟩)
    by_cases hmo : offset < m
    · rw [if_pos (.inr (hr.mpr (.inr hmo)))]
      have hmem : m ∈ holes s.gaps := by
        have hprev : ∃ x ∈ holes s.gaps ∪ Set.Ico offset m, x + 1 = m := ⟨m - 1, .inr (Set.mem_Ico.mpr (by omega)), by omega⟩
        exact (htile.mem_of_none (by have := hlo hmo; omega) hlook hprev).resolve_right fun hm => absurd hm.2 (lt_irrefl _)
      by_cases hoff : offset < startGap.start
      · obtain rfl : m = startGap.start := le_antisymm (hnext _ (hin _ le_rfl hgap) hoff.le) (hfirst m hmem hle)
        exact ⟨le_rfl, hlo hmo, fun x _ hx => hx, fun _ => .inl hoff.le, .inl ⟨by omega, htile⟩⟩
      · have hoff' : offset = startGap.stop := by
          by_contra hne
          have := f.start
          have := hnext offset (hin _ (by omega) (by omega)) le_rfl
          omega
        obtain ⟨g, hg', hapart, hmin, hhead⟩ := hbehind hoff'
        obtain rfl : m = g.start := le_antisymm (hnext _ hg' (by omega)) (hmin m hmem (by omega))
        refine ⟨le_rfl, hlo hmo, fun x _ hx => hx, fun _ => .inr hoff', .inr ⟨hoff', g, hhead.resolve_right ?_, htile⟩⟩
        exact fun hc => absurd hc.2 (by omega)
    · obtain rfl : m = offset := by omega
      have hrf : r = false := by simpa using hr
      rw [Set.Ico_self, Set.union_empty] at htile
      have hclr : ∀ b, startGap.start ≤ b → Cleared stream s queue b startGap.start := fun b hb => by
        rwa [Cleared, Set.Ico_eq_empty (by omega), Set.union_empty]
      by_cases hoff : startGap.start ≤ m
      · have hlt' : m < startGap.stop := by
          refine lt_of_le_of_ne f.start fun heq => ?_
          obtain ⟨g, _, hapart, hmin, _⟩ := hbehind heq
          have hprev : ∃ x ∈ holes s.gaps, x + 1 = m := ⟨m - 1, hin _ (by omega) (by omega), by omega⟩
          have := hmin m (htile.mem_of_none (by omega) hlook hprev) heq.ge
          omega
        rw [if_pos (.inl hoff)]
        exact ⟨le_rfl, h.read _ (hin _ hoff hlt'), fun x _ hx => hx, by simp [hrf], .inl ⟨hlt', hclr m hoff⟩⟩
      · rw [if_neg (by simp [hoff, hrf])]
        exact ⟨by omega, hread, hfirst, by simp [hrf], .inl ⟨hgap, hclr _ le_rfl⟩⟩
  · have hlow := f.lt
    have hoff : offset = startGap.stop := by
      have := f.start
      have := hout startGap.start (hin _ le_rfl hgap)
      by_contra hne
      have := hout offset (hin _ (by omega) (by omega)) le_rfl
      omega
    obtain ⟨g, hg', hapart, hmin, hhead⟩ := hbehind hoff
    have hstop := hout g.start hg' (by omega)
    have hnil : others = [] := by
      rcases hhead with hhead | ⟨hnil, _⟩
      · have := f.passed g (List.mem_cons_of_mem _ (List.mem_of_head? hhead))
        omega
      · exact hnil
    exact .inr (.inr ⟨queue, _, hrep, hnil, hoff, by simpa using hr, hm, htile, fun x hx hle => (hout x hx hle).le⟩)

theorem fillGaps_eq (before after : List ByteInterval) {replaced : Bool} {e : ℕ}
    (hrep : replaced = true → start ≤ startGap.start ∨ start = startGap.stop)
    (hside : others = [] ∧ endGap = startGap ∨ others ≠ [] ∧ startGap.stop ≤ stop) (he : e = min stop endGap.stop)
    (hse : start < e) :
    before ++ (if start ≤ startGap.start then if stop ≥ startGap.stop then [] else [⟨stop, startGap.stop⟩]
        else if replaced = true then [startGap] else [⟨startGap.start, start⟩]) ++ [] ++
      (if e = endGap.stop then [] else if others ≠ [] then [⟨e, endGap.stop⟩]
        else if startGap.start < start ∧ ¬replaced = true then [⟨e, startGap.stop⟩] else []) ++ after =
      before ++ (filled startGap endGap start e ++ after) := by
  obtain ⟨low, high⟩ := startGap
  rw [filled]
  grind

theorem Inv.fillGaps (h : Inv stream s) (f : Found s.gaps before startGap others after endsInGap offset (offset + n))
    (hpos : 0 < n) (hn : offset + n ≤ stream.length) (hmax : stream.length < maxByteCount) :
    ∃ r, s.fillGaps (window stream offset n) offset before startGap (decide (startGap.start ≤ offset)) others after
      endsInGap = .ok r ∧ Pushed stream s offset (offset + n) r := by
  have hlen : (window stream offset n).length = n := by
    rw [window_length]
    omega
  have hgaps : ∀ g ∈ startGap :: others, g ∈ s.gaps := fun g hg => by
    rw [f.eq]
    exact List.mem_append_right _ (List.mem_append_left _ hg)
  have hgap := h.gaps.lt startGap (hgaps _ (List.mem_cons_self ..))
  simp only [FrameSorter.fillGaps, hlen]
  rcases h.starts f (by omega) (by omega) with ⟨hrep, hdup⟩ | ⟨queue, replaced, hrep, hst⟩ |
    ⟨queue, e, hrep, rfl, rfl, hlt, hle, hclr, hdup⟩
  · rw [hrep]
    exact ⟨_, rfl, h.duplicate hdup⟩
  · simp only [hrep, decide_eq_true_eq]
    generalize hs : (if startGap.start ≤ offset ∨ replaced = true then offset else startGap.start) = start at hst ⊢
    have hasc := h.gaps
    rw [f.eq] at hasc
    have hpassed := (List.pairwise_append.mp (List.pairwise_append.mp hasc.pairwise).2.1).1
    have hlastGap := Ascending.lastGap hpassed
    have hfill := fun e h (he : _ ≤ e) => hasc.fill (fun g hg => (f.before g hg).trans_le hst.le) h he
    have hmem := getLastD_mem others startGap
    obtain ⟨queue', hpair, hclr, hside⟩ : ∃ queue', (if others = [] then ([], queue) else
        deleteBetween (others.getLastD startGap).start others.dropLast (deleteConsecutive queue startGap.stop)) =
          ([], queue') ∧ Cleared stream s queue' start (others.getLastD startGap).start ∧
        (others = [] ∧ others.getLastD startGap = startGap ∧ start < startGap.stop ∨
          others ≠ [] ∧ start ≤ startGap.stop ∧ startGap.stop < (others.getLastD startGap).start) := by
      cases others with
      | nil =>
        obtain ⟨hlt, hclr⟩ | ⟨_, g, hg, _⟩ := hst.cleared
        · exact ⟨queue, rfl, hclr, .inl ⟨rfl, rfl, hlt⟩⟩
        · cases hg
      | cons g others =>
        have hfirst := (List.pairwise_cons.mp hpassed).1
        have hlt := hfirst g (List.mem_cons_self ..)
        have hsplit : s.gaps = before ++ startGap :: g :: (others ++ after) := by simp [f.eq]
        have hsplit' : s.gaps = (before ++ [startGap]) ++ (g :: others ++ after) := by simp [f.eq]
        obtain ⟨hle, hclr⟩ : start ≤ startGap.stop ∧ Cleared stream s (deleteConsecutive queue startGap.stop) start g.start := by
          rcases hst.cleared with ⟨hlt', hclr⟩ | ⟨heq, g', hg', hclr⟩
          · exact ⟨hlt'.le, h.clear_next hsplit hclr hlt'.le⟩
          · cases hg'
            rw [deleteConsecutive, deleteRun_of_none (hclr.lookup_of_mem (.inr (Set.mem_Ico.mpr (by omega))))]
            exact ⟨heq.le, hclr⟩
        obtain ⟨queue', hbet, hclr⟩ := h.clear_between hsplit' hclr (by omega)
        rw [List.getLastD_cons]
        exact ⟨queue', hbet, hclr, .inr ⟨List.cons_ne_nil _ _, hle, hfirst _ (getLastD_mem others g)⟩⟩
    generalize hlast : others.getLastD startGap = endGap at *
    have hg := hgaps endGap hmem
    have hgap' := h.gaps.lt _ hg
    have hstop := f.passed _ hmem
    obtain ⟨e, he⟩ : ∃ e, e = min (offset + n) endGap.stop := ⟨_, rfl⟩
    have hcut : (if ¬endsInGap = true ∧ start ≠ endGap.stop ∧ offset + n > endGap.stop then endGap.stop else offset + n) = e := by
      have := f.inside
      have := f.outside
      grind
    have hse : start < e := by
      have := f.lt
      grind
    have hlist := fillGaps_eq before after hst.replaced (hside.imp (fun h => ⟨h.1, h.2.1⟩) fun h => ⟨h.1, by omega⟩) he hse
    obtain ⟨hasc', hholes⟩ := hfill e (by omega) (by omega) (by omega) hse (by omega)
    simp only [hpair, hcut, hlist]
    refine h.store hn hst.le hse (by omega) hst.read hclr (by omega) ?_ hasc' (by rw [hholes, f.eq]) ?_
    · exact fun x _ hx hlt => mem_holes hg hx (by omega)
    · intro x hx hle hlt
      refine ⟨hst.rest x hx hle, not_le.mp fun hex => ?_⟩
      rcases hx with hx | ⟨g, hgm, hgx⟩
      · omega
      · rw [f.eq] at hgm
        have := f.before g
        have := f.after g
        have := hlastGap g
        grind
  · -- the gaps stay: old frames behind `startGap` are put together
    have hg := hgaps startGap (List.mem_cons_self ..)
    have hlist : before ++ [startGap] ++ [] ++ [] ++ after = s.gaps := by simp [f.eq]
    have hread := h.read _ (mem_holes hg le_rfl hgap)
    simp only [hrep, or_true, if_true, List.getLastD_nil, if_neg (not_le.mpr hgap), if_neg hlt.ne', ne_eq,
      not_true_eq_false, false_and, and_false, if_false, hlist]
    refine h.store hn le_rfl hlt hle (by omega) hclr le_rfl (by omega) h.gaps ?_ fun x hx hle' hlt' => ?_
    · ext x
      have := hdup x
      grind
    · have := hdup x hx hle'
      omega

theorem Inv.push (h : Inv stream s) (hn : n ≤ stream.length - offset) (hmax : stream.length < maxByteCount) :
    ∃ r, s.push (window stream offset n) offset = .ok r ∧ Pushed stream s offset (offset + n) r := by
  have hlen : (window stream offset n).length = n := by
    rw [window_length]
    omega
  rw [FrameSorter.push]
  by_cases hnil : window stream offset n = []
  · rw [if_pos hnil]
    rw [hnil] at hlen
    exact ⟨_, rfl, h.duplicate fun x _ hx => by simpa [← hlen] using hx⟩
  have hpos : 0 < n := hlen ▸ List.length_pos_of_ne_nil hnil
  rw [if_neg hnil, hlen]
  obtain ⟨last, hlast, hlastmax⟩ := h.gaps.last
  obtain ⟨front, tail, hfront⟩ := List.exists_cons_of_ne_nil (List.ne_nil_of_mem hlast)
  simp only [hfront]
  by_cases hbelow : offset + n ≤ front.start
  · rw [if_pos hbelow]
    refine ⟨_, rfl, h.duplicate fun x hx _ => hbelow.trans ?_⟩
    have hasc := h.gaps
    rw [hfront] at hasc hx
    exact Ascending.le_of_mem (show Ascending ([] ++ front :: tail) from hasc) hx (by simp)
  rw [if_neg hbelow, ← hfront]
  obtain ⟨before, startGap, rest, hfind, hsplit, hbefore, hstart⟩ :=
    findStartGap_spec h.gaps.lt ⟨last, hlast, show offset ≤ last.stop by omega⟩
  have hpair := h.gaps.pairwise
  rw [hsplit, List.pairwise_append] at hpair
  have hmem : ∀ g ∈ startGap :: rest, g ∈ s.gaps := fun g hg => hsplit ▸ List.mem_append_right _ hg
  have hex : ∃ g ∈ startGap :: rest, offset + n < g.stop := by
    refine ⟨last, ?_, by omega⟩
    rw [hsplit] at hlast
    refine (List.mem_append.mp hlast).resolve_left fun hin => ?_
    have := hbefore last hin
    omega
  obtain ⟨passed, after, endsInGap, hend, hsplit', hpassed, hafter, htrue, hfalse⟩ :=
    findEndGap_spec (fun g hg => h.gaps.lt g (hmem g hg)) hpair.2.1 hex
  have hdup : offset + n ≤ startGap.start → Pushed stream s offset (offset + n) (s, .duplicate) := by
    refine fun hle => h.duplicate fun x hx hox => hle.trans ?_
    have hasc := h.gaps
    rw [hsplit] at hasc hx
    exact hasc.le_of_mem hx fun g hg => (hbefore g hg).le.trans hox
  have hgap := h.gaps.lt startGap (hmem _ (List.mem_cons_self ..))
  simp only [hfind, hend, bind, Except.bind]
  cases passed with
  | nil =>
    cases hsplit'
    have hstop := hafter startGap (List.mem_cons_self ..)
    cases hprev : before.getLast? with
    | none =>
      rw [List.getLast?_eq_none_iff.mp hprev, List.nil_append] at hsplit
      cases hfront.symm.trans hsplit
      omega
    | some endGap =>
      have hin := List.mem_of_getLast? hprev
      have := hpair.2.2 endGap hin startGap (List.mem_cons_self ..)
      have := h.gaps.lt endGap (by simp [hsplit, hin])
      exact ⟨_, if_pos (by omega), hdup hstop.le⟩
  | cons g others =>
    cases hsplit'
    dsimp only
    by_cases hle : offset + n ≤ startGap.start
    · refine ⟨_, if_pos ⟨hle, .inl ?_⟩, hdup hle⟩
      refine List.eq_nil_iff_forall_not_mem.mpr fun g hg => ?_
      have := hpassed g (List.mem_cons_of_mem _ hg)
      have := (List.pairwise_cons.mp hpair.2.1).1 g (List.mem_append_left _ hg)
      omega
    · rw [if_neg fun hc => hle hc.1]
      refine h.fillGaps ⟨by simp [hsplit], hbefore, hstart, not_le.mp hle, hpassed, hafter, fun hb => ?_, hfalse⟩ hpos
        (by omega) hmax
      have := htrue hb startGap
      rwa [List.getLastD_cons] at this

/-! ### The reads of a stream -/

theorem holes_newFrameSorter : holes newFrameSorter.gaps = Set.univ := by
  refine Set.eq_univ_of_forall fun x => ?_
  rcases Nat.lt_or_ge x maxByteCount with hlt | hge
  · exact mem_holes (List.mem_singleton_self _) (Nat.zero_le x) hlt
  · exact .inl hge

theorem Inv.init (stream : Bytes) : Inv stream newFrameSorter := by
  refine ⟨⟨?_, ?_, ?_, ?_⟩, ⟨fun x _ hx => ?_, nofun, nofun⟩, fun x _ => Nat.zero_le x⟩
  case refine_5 => simp [holes_newFrameSorter] at hx
  all_goals simp [newFrameSorter, maxByteCount]

theorem Inv.pop (h : Inv stream s) :
    s.readPos ∈ holes s.gaps ∧ s.pop = .ok (s, none) ∨
    ∃ d s', s.pop = .ok (s', some d) ∧ d ≠ [] ∧ d = window stream s.readPos d.length ∧ Inv stream s' ∧
      s'.readPos = s.readPos + d.length ∧ s'.gaps = s.gaps := by
  rw [FrameSorter.pop]
  cases hd : s.queue.lookup s.readPos with
  | none =>
    refine .inl ⟨?_, rfl⟩
    by_contra hout
    obtain ⟨p, d, hp, hle, hlt⟩ := h.tiling.covered _ le_rfl hout
    have := (h.tiling.piece p d hp).2.2.1
    rw [show p = s.readPos by omega, hd] at hp
    cases hp
  | some d =>
    obtain ⟨hdata, hne, -, hout⟩ := h.tiling.piece _ d hd
    have hread : ∀ x ∈ holes s.gaps, s.readPos + d.length ≤ x := by
      intro x hx
      by_contra hlt
      exact hout x (h.read x hx) (by omega) hx
    obtain ⟨last, hlast, -⟩ := h.gaps.last
    obtain ⟨front, tail, hfront⟩ := List.exists_cons_of_ne_nil (List.ne_nil_of_mem hlast)
    have hg : front ∈ s.gaps := by simp [hfront]
    have := hread front.start (mem_holes hg le_rfl (h.gaps.lt _ hg))
    have := h.gaps.lt front hg
    simp only [hfront]
    rw [if_neg (by omega), ← hfront]
    exact .inr ⟨d, _, rfl, hne, hdata, ⟨h.gaps, h.tiling.pop hd, hread⟩, rfl, rfl⟩

inductive Label
  | push (offset n : ℕ)
  | pop

/-- A stream that is read frame by frame. -/
structure Reading where
  sorter : FrameSorter
  out : Bytes

/-- A frame has bytes of the stream, whether it was received or recovered. An error of `Push` ends the run. -/
def step (stream : Bytes) (s : Reading) : Label → Except Stop Reading
  | .push offset n =>
    match s.sorter.push (window stream offset n) offset with
    | .error e => .error e
    | .ok (sorter, result) => if result = .tooManyGaps then .error .blocked else .ok { s with sorter }
  | .pop => s.sorter.pop.map fun r => ⟨r.1, s.out ++ r.2.getD []⟩

def received (stream : Bytes) (as : List Label) : Set ℕ :=
  {x | x < stream.length ∧ ∃ offset n, .push offset n ∈ as ∧ offset ≤ x ∧ x < offset + n}

theorem window_min (stream : Bytes) (offset n : ℕ) :
    window stream offset (min n (stream.length - offset)) = window stream offset n := by
  simp [window, List.take_eq_take_iff]

theorem inv_of_run {as : List Label} {s : Reading} (hmax : stream.length < maxByteCount)
    (h : Run (step stream) always ⟨newFrameSorter, []⟩ as s) :
    Inv stream s.sorter ∧ s.out = stream.take s.sorter.readPos ∧ holes s.sorter.gaps = (received stream as)ᶜ := by
  induction h with
  | nil => exact ⟨.init stream, rfl, by simp [holes_newFrameSorter, received]⟩
  | @snoc as s s' a _ hok hs ih =>
    obtain ⟨hinv, hout, hholes⟩ := ih
    cases a with
    | push offset n =>
      obtain ⟨⟨sorter, result⟩, hpush, hpushed⟩ := hinv.push (min_le_right n (stream.length - offset)) hmax
      rw [window_min] at hpush
      simp only [step, hpush] at hs
      split at hs
      next => cases hs
      next hr =>
        cases hs
        obtain ⟨hinv', hread, hholes'⟩ := hpushed hr
        refine ⟨hinv', by rw [hread]; exact hout, ?_⟩
        have hadd : received stream (as ++ [.push offset n]) =
            received stream as ∪ Set.Ico offset (offset + min n (stream.length - offset)) := by
          ext x
          simp [received, or_and_right, exists_or, and_or_left]
          exact or_congr Iff.rfl (by omega)
        rw [hholes', hholes, hadd, Set.compl_union]
        rfl
    | pop =>
      have hsame : received stream (as ++ [.pop]) = received stream as := by
        ext x
        simp [received]
      rw [hsame]
      rcases hinv.pop with ⟨_, hpop⟩ | ⟨d, sorter, hpop, _, hd, hinv', hread, hgaps⟩
      · simp only [step, hpop] at hs
        cases hs
        exact ⟨hinv, by simpa using hout, hholes⟩
      · simp only [step, hpop] at hs
        cases hs
        refine ⟨hinv', ?_, by rw [hgaps]; exact hholes⟩
        show s.out ++ d = _
        rw [hread, hout, hd, take_append_window, ← hd]

/-- Whatever order the frames come in and however they overlap, the reader gets the stream from its
start up to the first byte that is missing, and the sorter does not panic. -/
theorem reads_received_bytes {as : List Label} {s : Reading} (hmax : stream.length < maxByteCount)
    (h : Run (step stream) always ⟨newFrameSorter, []⟩ as s) :
    s.out = stream.take s.sorter.readPos ∧ (∀ x < s.sorter.readPos, x ∈ received stream as) ∧
    (s.sorter.readPos ∉ received stream as → step stream s .pop = .ok s) ∧
    (s.sorter.readPos ∈ received stream as → ∃ s', step stream s .pop = .ok s' ∧ s.sorter.readPos < s'.sorter.readPos) ∧
    ∀ a, step stream s a ≠ .error .panic := by
  obtain ⟨hinv, hout, hholes⟩ := inv_of_run hmax h
  have hmem : ∀ x, x ∈ holes s.sorter.gaps ↔ x ∉ received stream as := fun x => by rw [hholes]; rfl
  refine ⟨hout, fun x hx => ?_, fun hx => ?_, fun hx => ?_, fun a => ?_⟩
  · by_contra hmiss
    have := hinv.read x ((hmem x).mpr hmiss)
    omega
  · rcases hinv.pop with ⟨_, hpop⟩ | ⟨d, sorter, hpop, hne, _, hinv', hread, hgaps⟩
    · simp [step, hpop, Except.map]
    · have := hinv'.read _ (by rw [hgaps]; exact (hmem _).mpr hx)
      have := List.length_pos_of_ne_nil hne
      omega
  · rcases hinv.pop with ⟨hin, _⟩ | ⟨d, sorter, hpop, hne, _, _, hread, _⟩
    · exact absurd hx ((hmem _).mp hin)
    · refine ⟨⟨sorter, s.out ++ d⟩, by simp [step, hpop, Except.map], ?_⟩
      have := List.length_pos_of_ne_nil hne
      show _ < sorter.readPos
      omega
  · cases a with
    | push offset n =>
      obtain ⟨r, hpush, -⟩ := hinv.push (min_le_right n (stream.length - offset)) hmax
      rw [window_min] at hpush
      simp only [step, hpush]
      split <;> simp
    | pop =>
      rcases hinv.pop with ⟨_, hpop⟩ | ⟨d, sorter, hpop, _⟩ <;> simp [step, hpop, Except.map]

/-- The second frame overlaps the first, which is behind a gap. -/
theorem reads_received_bytes_overlap :
    ∃ s, Run (step [1, 2, 3, 4]) always ⟨newFrameSorter, []⟩ [.push 2 2, .push 0 3, .pop, .pop] s ∧
      s.out = [1, 2, 3, 4] ∧ ∀ a, step [1, 2, 3, 4] s a ≠ .error .panic := by
  have hrun : Run (step [1, 2, 3, 4]) always ⟨newFrameSorter, []⟩ [.push 2 2, .push 0 3, .pop, .pop] _ :=
    Run.of_exec _ (Guarded.always _) rfl
  exact ⟨_, hrun, rfl, (reads_received_bytes (by decide) hrun).2.2.2.2⟩

end FrameSorter
end Mp2bs.Quic
