import Mp2bs.Lib.Machine
import Mp2bs.Lib.Wire
import Mp2bs.Peer.TreeInfo

/-!
# Relaying blocks

`handleClient` (`v0.6/parti_node/tcp_peer_servent.go:39-79`) reads from the connection to its parent
into one buffer, takes what a `Read` returns for a block and starts a goroutine for each child that
writes this part of the buffer to it (`tcp_peer_servent.go:23-37`). A step is a `Read`, or a goroutine
that writes.
-/

namespace Mp2bs.Peer
open Mp2bs.Lib.Machine Mp2bs.Lib.Wire

/-- A block with its header (`tcp_peer_servent.go:264-270`): the number takes 8 of 64 bytes. -/
def block (blkIdx : ℕ) (payload : Bytes) : Bytes :=
  writeUint64 (UInt64.ofNat blkIdx) ++ (List.replicate 56 0 ++ payload)

def genBlock (blkSize blkIdx : ℕ) : Bytes := block blkIdx (List.replicate blkSize 0)

def relayBufLen : ℕ := 1024 * 100

/-- The variables of `handleClient` and its goroutines. A job is a started `ForwardBlock` with its
child and the length of its slice; the slice begins at the start of `buffer`. `sent` has the writes to
each child. `lengths` are the values that `curBlkLength` has taken and `reads` counts the Reads. -/
structure Relay where
  curBlkLength : UInt64
  buffer : Bytes
  jobs : List (Text × ℕ)
  sent : Text → List Bytes
  lengths : List UInt64
  reads : ℕ

inductive RelayLabel
  | read (data : Bytes)
  | forward (j : ℕ)

namespace Relay

def init (curBlkLength : UInt64) : Relay where
  curBlkLength := curBlkLength
  buffer := List.replicate relayBufLen 0
  jobs := []
  sent := fun _ => []
  lengths := []
  reads := 0

/-- Lines 56-62 and 65-71, with `forwardBlockForAllChild`. -/
def accept (children : List Text) (s : Relay) (blkNum : UInt64) (n : ℕ) : Relay :=
  { s with
    curBlkLength := blkNum
    jobs := s.jobs ++ children.map fun child => (child, n)
    lengths := s.lengths ++ [blkNum] }

def read (children : List Text) (s : Relay) (data : Bytes) : Except Stop Relay :=
  if 0 < data.length ∧ data.length ≤ relayBufLen then
    let buffer := data ++ s.buffer.drop data.length
    match readUint64 buffer with
    | none => .error .panic
    | some (blkNum, _) =>
      let s := { s with buffer := buffer, reads := s.reads + 1 }
      if blkNum = 1 then .ok (s.accept children 1 data.length)
      else if blkNum = s.curBlkLength + 1 then .ok (s.accept children blkNum data.length)
      else .ok s
  else .error .blocked

def forward (s : Relay) (j : ℕ) : Except Stop Relay :=
  match s.jobs[j]? with
  | none => .error .blocked
  | some (child, n) => .ok { s with
      jobs := s.jobs.eraseIdx j
      sent := Function.update s.sent child (s.sent child ++ [s.buffer.take n]) }

def step (children : List Text) (s : Relay) : RelayLabel → Except Stop Relay
  | .read data => s.read children data
  | .forward j => s.forward j

def Whole (payload : ℕ → Bytes) (s : Relay) : RelayLabel → Prop
  | .read data => data = block (s.reads + 1) (payload (s.reads + 1)) ∧ s.jobs = []
  | .forward _ => True

def blocks (payload : ℕ → Bytes) (n : ℕ) : List Bytes :=
  (List.range' 1 n).map fun k => block k (payload k)

structure Inv (children : List Text) (payload : ℕ → Bytes) (s : Relay) : Prop where
  lengths : s.lengths = (List.range' 1 s.reads).map UInt64.ofNat
  current : 0 < s.reads → s.curBlkLength = UInt64.ofNat s.reads
  jobs : ∀ job ∈ s.jobs, 0 < s.reads ∧ s.buffer.take job.2 = block s.reads (payload s.reads)
  nodup : (s.jobs.map Prod.fst).Nodup
  pending : ∀ child ∈ s.jobs.map Prod.fst, s.sent child = blocks payload (s.reads - 1)
  done : ∀ child ∈ children, child ∉ s.jobs.map Prod.fst → s.sent child = blocks payload s.reads

theorem blocks_succ (payload : ℕ → Bytes) (n : ℕ) :
    blocks payload (n + 1) = blocks payload n ++ [block (n + 1) (payload (n + 1))] := by
  rw [blocks, List.range'_1_concat, List.map_append, Nat.add_comm 1 n]
  rfl

theorem lengths_succ (n : ℕ) :
    (List.range' 1 (n + 1)).map UInt64.ofNat =
      (List.range' 1 n).map UInt64.ofNat ++ [UInt64.ofNat (n + 1)] := by
  rw [List.range'_1_concat, List.map_append, Nat.add_comm 1 n]
  rfl

section Step

variable {children : List Text} {payload : ℕ → Bytes} {s s' : Relay}

theorem readUint64_block (k : ℕ) (payload rest : Bytes) :
    ∃ r, readUint64 (block k payload ++ rest) = some (UInt64.ofNat k, r) :=
  ⟨_, by rw [block, List.append_assoc, readUint64_write]⟩

theorem Inv.read_whole (h : Inv children payload s)
    (hs : s.read children (block (s.reads + 1) (payload (s.reads + 1))) = .ok s') :
    s' = { s with
      buffer := block (s.reads + 1) (payload (s.reads + 1)) ++
        s.buffer.drop (block (s.reads + 1) (payload (s.reads + 1))).length
      reads := s.reads + 1 }.accept children (UInt64.ofNat (s.reads + 1))
        (block (s.reads + 1) (payload (s.reads + 1))).length := by
  unfold Relay.read at hs
  split at hs
  · obtain ⟨r, hr⟩ := readUint64_block (s.reads + 1) (payload (s.reads + 1))
      (s.buffer.drop (block (s.reads + 1) (payload (s.reads + 1))).length)
    simp only [hr] at hs
    split at hs
    · rename_i hone
      rw [← hone] at hs
      exact (Except.ok.inj hs).symm
    · rename_i hne
      split at hs
      · exact (Except.ok.inj hs).symm
      · rename_i hnot
        exfalso
        by_cases hz : s.reads = 0
        · exact hne (by rw [hz]; rfl)
        · refine hnot ?_
          rw [h.current (Nat.pos_of_ne_zero hz), UInt64.ofNat_add]
          rfl
  · cases hs

theorem Inv.read (h : Inv children payload s) (hnodup : children.Nodup) {data : Bytes}
    (hwhole : Whole payload s (.read data)) (hs : s.read children data = .ok s') :
    Inv children payload s' := by
  obtain ⟨rfl, hjobs⟩ := hwhole
  have heq := h.read_whole hs
  have hfst : s'.jobs.map Prod.fst = children := by
    rw [heq, Relay.accept]
    dsimp only
    rw [hjobs, List.nil_append, List.map_map]
    exact List.map_id children
  have hreads : s'.reads = s.reads + 1 := by rw [heq]; rfl
  have hsent : s'.sent = s.sent := by rw [heq]; rfl
  refine ⟨?_, ?_, ?_, ?_, ?_, ?_⟩
  · rw [hreads, lengths_succ, ← h.lengths, heq]
    rfl
  · intro _
    rw [hreads, heq]
    rfl
  · intro job hjob
    rw [hreads]
    refine ⟨Nat.succ_pos _, ?_⟩
    have hlen : job.2 = (block (s.reads + 1) (payload (s.reads + 1))).length := by
      rw [heq, Relay.accept] at hjob
      dsimp only at hjob
      rw [hjobs, List.nil_append] at hjob
      obtain ⟨child, -, rfl⟩ := List.mem_map.mp hjob
      rfl
    rw [hlen, heq]
    exact List.take_left
  · rw [hfst]
    exact hnodup
  · rw [hfst, hreads, hsent, Nat.add_sub_cancel]
    intro child hchild
    exact h.done child hchild (by rw [hjobs]; exact List.not_mem_nil)
  · intro child hchild hnot
    rw [hfst] at hnot
    exact absurd hchild hnot

theorem Inv.forward (h : Inv children payload s) {j : ℕ} (hs : s.forward j = .ok s') :
    Inv children payload s' := by
  unfold Relay.forward at hs
  split at hs
  · cases hs
  rename_i child n hj
  cases hs
  have hmem : (child, n) ∈ s.jobs := List.mem_of_getElem? hj
  have hperm : (s.jobs.map Prod.fst).Perm (child :: (s.jobs.eraseIdx j).map Prod.fst) := by
    obtain ⟨hlt, hget⟩ := List.getElem?_eq_some_iff.mp hj
    have hp := (List.getElem_cons_eraseIdx_perm hlt).symm.map Prod.fst
    rwa [hget] at hp
  have hnodup := hperm.nodup_iff.mp h.nodup
  rw [List.nodup_cons] at hnodup
  obtain ⟨hpos, htake⟩ := h.jobs _ hmem
  have hsent : s.sent child ++ [s.buffer.take n] = blocks payload s.reads := by
    have hpred : s.reads = s.reads - 1 + 1 := by omega
    rw [h.pending child (List.mem_map_of_mem hmem), htake]
    conv_rhs => rw [hpred, blocks_succ, ← hpred]
  refine ⟨h.lengths, h.current, fun job hjob => h.jobs job (List.mem_of_mem_eraseIdx hjob),
    hnodup.2, ?_, ?_⟩
  · intro other hother
    have hne : other ≠ child := fun he => hnodup.1 (he ▸ hother)
    show Function.update s.sent child _ other = _
    rw [Function.update_of_ne hne]
    exact h.pending other (hperm.mem_iff.mpr (List.mem_cons_of_mem _ hother))
  · intro other hother hnot
    show Function.update s.sent child _ other = _
    by_cases hne : other = child
    · rw [hne, Function.update_self]
      exact hsent
    · rw [Function.update_of_ne hne]
      refine h.done other hother (fun hin => ?_)
      rcases List.mem_cons.mp (hperm.mem_iff.mp hin) with he | hin
      · exact hne he
      · exact hnot hin

theorem Inv.init (children : List Text) (payload : ℕ → Bytes) (curBlkLength : UInt64) :
    Inv children payload (init curBlkLength) where
  lengths := rfl
  current := fun hf => absurd hf (lt_irrefl 0)
  jobs := fun _ hj => nomatch hj
  nodup := .nil
  pending := fun _ hc => nomatch hc
  done := fun _ _ _ => rfl

/-- When every `Read` returns one block and finds all goroutines done, `curBlkLength` goes through
1, 2, 3, … and each child gets the blocks that were read, the last one from its running goroutine. -/
theorem relay_keeps_blocks (hnodup : children.Nodup) {curBlkLength : UInt64} {as : List RelayLabel}
    (h : Run (step children) (Whole payload) (Relay.init curBlkLength) as s) :
    s.lengths = (List.range' 1 s.reads).map UInt64.ofNat ∧
    ∀ child ∈ children,
      (child ∉ s.jobs.map Prod.fst → s.sent child = blocks payload s.reads) ∧
      (child ∈ s.jobs.map Prod.fst → s.sent child = blocks payload (s.reads - 1)) := by
  have hinv : Inv children payload s := by
    refine h.invariant (Inv children payload) (.init children payload curBlkLength) ?_
    intro s a s' hI hok hs
    cases a with
    | read data => exact hI.read hnodup hok hs
    | forward j => exact hI.forward hs
  exact ⟨hinv.lengths, fun child hchild => ⟨hinv.done child hchild, hinv.pending child⟩⟩

end Step

/-! ### Two blocks and one child -/

instance (payload : ℕ → Bytes) (s : Relay) (a : RelayLabel) : Decidable (Whole payload s a) :=
  match a with
  | .read data =>
    inferInstanceAs (Decidable (data = block (s.reads + 1) (payload (s.reads + 1)) ∧ s.jobs = []))
  | .forward _ => .isTrue trivial

def small : ℕ → Bytes := fun k => [UInt8.ofNat k]

def oneByOne : List RelayLabel :=
  [.read (block 1 (small 1)), .forward 0, .read (block 2 (small 2)), .forward 0]

theorem relay_keeps_two_blocks :
    ∃ s, Run (step [[]]) (Whole small) (Relay.init 8200) oneByOne s ∧
      s.lengths = [1, 2] ∧ s.sent [] = [block 1 (small 1), block 2 (small 2)] := by
  obtain ⟨s, hrun, hP⟩ := Run.exists_of_exec (step [[]]) (Relay.init 8200) oneByOne
    (fun s => decide (s.reads = 2 ∧ s.jobs = []))
    (show Guarded (step [[]]) (Whole small) (Relay.init 8200) oneByOne by decide +kernel)
    (by decide +kernel)
  obtain ⟨hreads, hjobs⟩ := of_decide_eq_true hP
  obtain ⟨hlengths, hsent⟩ := relay_keeps_blocks (List.nodup_singleton _) hrun
  have hone := (hsent [] (List.mem_singleton_self _)).1 (by rw [hjobs]; exact List.not_mem_nil)
  rw [hreads] at hlengths hone
  exact ⟨s, hrun, hlengths, hone⟩

def inTwoReads : List RelayLabel :=
  [.read ((block 1 (small 1)).take 10), .forward 0, .read ((block 1 (small 1)).drop 10)]

def inOneRead : List RelayLabel :=
  [.read (block 1 (small 1) ++ block 2 (small 2)), .forward 0, .read (block 3 (small 3))]

def beforeForward : List RelayLabel :=
  [.read (block 1 (small 1)), .read (block 2 (small 2)), .forward 0, .forward 0]

/-- Only ten bytes of a block that comes in two Reads are forwarded; after two blocks in one `Read`
the third is not accepted; and a goroutine that writes late sends the next block in place of its
own. -/
theorem relay_depends_on_reads :
    (∃ s, Run (step [[]]) always (Relay.init 8200) inTwoReads s ∧ s.jobs = [] ∧
      s.sent [] = [(block 1 (small 1)).take 10]) ∧
    (∃ s, Run (step [[]]) always (Relay.init 8200) inOneRead s ∧ s.jobs = [] ∧ s.lengths = [1] ∧
      s.sent [] = [block 1 (small 1) ++ block 2 (small 2)]) ∧
    ∃ s, Run (step [[]]) always (Relay.init 8200) beforeForward s ∧ s.jobs = [] ∧
      s.sent [] = [block 2 (small 2), block 2 (small 2)] := by
  refine ⟨?_, ?_, ?_⟩
  · obtain ⟨s, hrun, hP⟩ := Run.exists_of_exec (step [[]]) (Relay.init 8200) inTwoReads
      (fun s => decide (s.jobs = [] ∧ s.sent [] = [(block 1 (small 1)).take 10]))
      (Guarded.always _) (by decide +kernel)
    exact ⟨s, hrun, of_decide_eq_true hP⟩
  · obtain ⟨s, hrun, hP⟩ := Run.exists_of_exec (step [[]]) (Relay.init 8200) inOneRead
      (fun s => decide (s.jobs = [] ∧ s.lengths = [1] ∧
        s.sent [] = [block 1 (small 1) ++ block 2 (small 2)]))
      (Guarded.always _) (by decide +kernel)
    exact ⟨s, hrun, of_decide_eq_true hP⟩
  · obtain ⟨s, hrun, hP⟩ := Run.exists_of_exec (step [[]]) (Relay.init 8200) beforeForward
      (fun s => decide (s.jobs = [] ∧ s.sent [] = [block 2 (small 2), block 2 (small 2)]))
      (Guarded.always _) (by decide +kernel)
    exact ⟨s, hrun, of_decide_eq_true hP⟩

end Relay

end Mp2bs.Peer
