import Mp2bs.Peer.Relay

/-!
# Pull requests of a mesh node

A mesh node asks its neighbours for the lengths of their chains over UDP, then the neighbour with the
longest chain for the missing blocks over TCP, and reports to the verification node
(`v0.6/parti_node/mcn_module.go:92-237`, `tcp_peer_servent.go:161-250`). `chain` gives the
`curBlkLength` of the node at an address, which does not change during a round.
-/

namespace Mp2bs.Peer
open Mp2bs.Lib Mp2bs.Lib.Wire

/- Message types (21-26). -/
def typePullReq : UInt16 := 0
def typePullRes : UInt16 := 1

/-- What is reported to the verification node (34-37). -/
inductive Report
  | inFailure
  | outFailure
  deriving DecidableEq

/-! ### The neighbour -/

/-- `handleUDPConnection` (210-237): the answer to a datagram. -/
def handleUDPConnection (curBlkLength : UInt64) (buffer : Bytes) : Except Stop Bytes :=
  if buffer.length ≠ 10 then .error .panic
  else .ok (writeUint16 typePullRes ++ writeUint64 curBlkLength)

/-- `strconv.FormatUint(n, 10)`. -/
def formatUint (n : UInt64) : Text := Nat.toDigits 10 n.toNat

/-- `strconv.ParseUint(text, 10, 64)` without its error: 0 for a text that is no number, and the
largest number for one that is too large. -/
def parseUint (text : Text) : UInt64 :=
  if text ≠ [] ∧ text.all Char.isDigit then
    UInt64.ofNat (min (Nat.ofDigitChars 10 text 0) (2 ^ 64 - 1))
  else 0

/-- `handleMissingBlock` (`tcp_peer_servent.go:209-250`): the answer to a message, if there is one. -/
def handleMissingBlock (curBlkLength : UInt64) (data : Text) : Except Stop (Option Bytes) :=
  match data.splitOn '|' with
  | [] => .error .panic
  | first :: parts =>
    if first = "requestBlock".toList then
      match parts with
      | [] => .error .panic
      | number :: _ =>
        if parseUint number ≤ curBlkLength then
          .ok (some (genBlock 1024 (parseUint number).toNat))
        else .ok none
    else .ok none

/-! ### The asking node -/

structure Pull where
  curBlkLength : UInt64
  requests : List (Text × UInt64)
  reports : List Report
  deriving DecidableEq

/-- `requestAndReceiveMissingBlock` (`tcp_peer_servent.go:161-189`). Without an answer its `Read`
waits: the neighbour keeps the connection open. -/
def requestAndReceiveMissingBlock (chain : Text → UInt64) (s : Pull) (peer : Text)
    (blkNum : UInt64) : Except Stop Pull := do
  let s := { s with requests := s.requests ++ [(peer, blkNum)] }
  match ← handleMissingBlock (chain peer) ("requestBlock".toList ++ '|' :: formatUint blkNum) with
  | none => .error .blocked
  | some buffer => match readUint64 buffer with
    | none => .error .panic
    | some (recvBlkNum, _) =>
      if recvBlkNum = s.curBlkLength + 1 then .ok { s with curBlkLength := blkNum } else .ok s

/-- One turn of the loop over the neighbours (132-178), with the largest length so
far and its neighbour. -/
def askNeighbor (chain : Text → UInt64) (curBlkLength : UInt64)
    (best : UInt64 × MeshNeighbor) (nb : MeshNeighbor) :
    Except Stop (UInt64 × MeshNeighbor) := do
  let buf ← handleUDPConnection (chain nb.ipAddr)
    (writeUint16 typePullReq ++ writeUint64 curBlkLength)
  match readUint16 buf with
  | none => .error .panic
  | some (msgtype, rest) => match readUint64 rest with
    | none => .error .panic
    | some (recvBlkLength, _) =>
      let recvBlkLength := recvBlkLength + 1
      if msgtype = typePullRes ∧ recvBlkLength > curBlkLength ∧ best.1 < recvBlkLength then
        .ok (recvBlkLength, nb)
      else .ok best

/-- The loop over the missing blocks (195-198). The first argument bounds the
turns. -/
def requestLoop (chain : Text → UInt64) (peer : Text) (maxBlkLength : UInt64) :
    ℕ → UInt64 → Pull → Except Stop Pull
  | 0, _, _ => .error .blocked
  | fuel + 1, blkNum, s =>
    if blkNum ≤ maxBlkLength then do
      let s ← requestAndReceiveMissingBlock chain s peer blkNum
      requestLoop chain peer maxBlkLength fuel (blkNum + 1) s
    else .ok s

/-- `resPullReq` (184-194). -/
def NodeType.report : NodeType → Report
  | .clusterLeader => .inFailure
  | .mesh => .outFailure
  | .normal => .inFailure

def noNeighbor : MeshNeighbor := ⟨[], .clusterLeader⟩

/-- `sendPullRequest` (127-204). -/
def sendPullRequest (chain : Text → UInt64) (neighbors : List MeshNeighbor)
    (curBlkLength : UInt64) : Except Stop Pull := do
  let s : Pull := ⟨curBlkLength, [], []⟩
  let (maxBlkLength, nb) ← neighbors.foldlM (askNeighbor chain curBlkLength) (0, noNeighbor)
  if maxBlkLength > 0 then
    let s ← requestLoop chain nb.ipAddr maxBlkLength (maxBlkLength.toNat + 1) (curBlkLength + 1) s
    return { s with reports := s.reports ++ [nb.nodeType.report] }
  else return s

/-! ### Exactness -/

def maxLength (chain : Text → UInt64) (neighbors : List MeshNeighbor) : ℕ :=
  (neighbors.map fun nb => (chain nb.ipAddr).toNat).foldr max 0

/-- The round ends; it asked for the blocks up to the largest length, all from neighbours that have
them; the chain has the largest length; and a failure is reported exactly if the chain was shorter,
of the kind of a neighbour with that length. -/
def ExactRound (chain : Text → UInt64) (neighbors : List MeshNeighbor) (curBlkLength : UInt64) :
    Prop :=
  ∃ s, sendPullRequest chain neighbors curBlkLength = .ok s ∧
    s.requests.map (fun r => r.2.toNat) =
      List.range' (curBlkLength.toNat + 1) (maxLength chain neighbors - curBlkLength.toNat) ∧
    (∀ r ∈ s.requests, r.2 ≤ chain r.1 ∧ r.1 ∈ neighbors.map MeshNeighbor.ipAddr) ∧
    s.curBlkLength.toNat = max curBlkLength.toNat (maxLength chain neighbors) ∧
    (maxLength chain neighbors ≤ curBlkLength.toNat → s.reports = []) ∧
    (curBlkLength.toNat < maxLength chain neighbors →
      ∃ nb ∈ neighbors, (chain nb.ipAddr).toNat = maxLength chain neighbors ∧
        s.reports = [nb.nodeType.report])

def Behind (chain : Text → UInt64) (curBlkLength : UInt64) (nb : MeshNeighbor) : Prop :=
  chain nb.ipAddr < curBlkLength ∨
    (chain nb.ipAddr = curBlkLength ∧ curBlkLength.toNat = 2 ^ 64 - 1)

theorem parseUint_formatUint (n : UInt64) : parseUint (formatUint n) = n := by
  have hdigits : (formatUint n).all Char.isDigit = true :=
    List.all_eq_true.mpr fun c hc => Nat.isDigit_of_mem_toDigits (by decide) (by decide) hc
  have hne : formatUint n ≠ [] := Nat.toDigits_ne_nil
  have hval : Nat.ofDigitChars 10 (formatUint n) 0 = n.toNat :=
    Nat.ofDigitChars_toDigits (by decide) (by decide)
  have hlt := n.toNat_lt
  rw [parseUint, if_pos ⟨hne, hdigits⟩, hval, Nat.min_eq_left (by omega), UInt64.ofNat_toNat]

theorem splitOn_request (n : UInt64) :
    ("requestBlock".toList ++ '|' :: formatUint n).splitOn '|' =
      ["requestBlock".toList, formatUint n] := by
  have hinter : "requestBlock".toList ++ '|' :: formatUint n =
      ['|'].intercalate ["requestBlock".toList, formatUint n] := by
    rw [intercalate_cons, List.flatMap_cons, List.flatMap_nil, List.append_nil]
  have hclean : '|' ∉ formatUint n := by
    intro hmem
    have hdigit := Nat.isDigit_of_mem_toDigits (by decide) (by decide) hmem
    exact absurd hdigit (by decide)
  rw [hinter]
  refine List.splitOn_intercalate '|' ?_ (List.cons_ne_nil _ _)
  intro l hl
  rcases List.mem_cons.mp hl with rfl | hl
  · decide
  · rw [List.mem_singleton.mp hl]
    exact hclean

theorem handleMissingBlock_request (curBlkLength n : UInt64) :
    handleMissingBlock curBlkLength ("requestBlock".toList ++ '|' :: formatUint n) =
      .ok (if n ≤ curBlkLength then some (genBlock 1024 n.toNat) else none) := by
  rw [handleMissingBlock, splitOn_request]
  dsimp only
  rw [if_pos rfl, parseUint_formatUint]
  split <;> rfl

theorem askNeighbor_eq (chain : Text → UInt64) (curBlkLength : UInt64)
    (best : UInt64 × MeshNeighbor) (nb : MeshNeighbor) :
    askNeighbor chain curBlkLength best nb = .ok
      (if chain nb.ipAddr + 1 > curBlkLength ∧ best.1 < chain nb.ipAddr + 1 then
        (chain nb.ipAddr + 1, nb) else best) := by
  have hudp : handleUDPConnection (chain nb.ipAddr)
      (writeUint16 typePullReq ++ writeUint64 curBlkLength) =
      .ok (writeUint16 typePullRes ++ writeUint64 (chain nb.ipAddr)) := if_neg (by simp)
  have hread : readUint64 (writeUint64 (chain nb.ipAddr)) = some (chain nb.ipAddr, []) := by
    have h := readUint64_write (chain nb.ipAddr) []
    rwa [List.append_nil] at h
  unfold askNeighbor
  rw [hudp]
  simp only [bind, Except.bind, readUint16_write, hread, true_and]
  split <;> rfl

theorem foldlM_askNeighbor (chain : Text → UInt64) (curBlkLength : UInt64)
    (neighbors : List MeshNeighbor) (best : UInt64 × MeshNeighbor) :
    ∃ r, neighbors.foldlM (askNeighbor chain curBlkLength) best = .ok r ∧ best.1 ≤ r.1 ∧
      (r = best ∨ chain r.2.ipAddr + 1 = r.1) ∧
      (∀ nb ∈ neighbors, curBlkLength < chain nb.ipAddr + 1 → chain nb.ipAddr + 1 ≤ r.1) ∧
      ((∀ nb ∈ neighbors, ¬ curBlkLength < chain nb.ipAddr + 1) → r = best) := by
  induction neighbors generalizing best with
  | nil => exact ⟨best, rfl, UInt64.le_refl _, .inl rfl, by simp, fun _ => rfl⟩
  | cons nb neighbors ih =>
    by_cases htake : curBlkLength < chain nb.ipAddr + 1 ∧ best.1 < chain nb.ipAddr + 1
    · obtain ⟨r, hr, hle, hlast, hall, -⟩ := ih (chain nb.ipAddr + 1, nb)
      have hask : askNeighbor chain curBlkLength best nb = .ok (chain nb.ipAddr + 1, nb) := by
        rw [askNeighbor_eq]
        exact congrArg _ (if_pos htake)
      refine ⟨r, ?_, UInt64.le_trans (UInt64.le_of_lt htake.2) hle, .inr ?_, ?_, ?_⟩
      · rw [List.foldlM_cons, hask]
        exact hr
      · rcases hlast with rfl | hlast
        · rfl
        · exact hlast
      · exact List.forall_mem_cons.mpr ⟨fun _ => hle, hall⟩
      · exact fun hnone => absurd htake.1 (hnone nb (List.mem_cons_self ..))
    · obtain ⟨r, hr, hle, hlast, hall, hnone⟩ := ih best
      have hask : askNeighbor chain curBlkLength best nb = .ok best := by
        rw [askNeighbor_eq]
        exact congrArg _ (if_neg htake)
      refine ⟨r, ?_, hle, hlast, ?_, ?_⟩
      · rw [List.foldlM_cons, hask]
        exact hr
      · refine List.forall_mem_cons.mpr ⟨fun hgt => ?_, hall⟩
        exact UInt64.le_trans (UInt64.not_lt.mp fun hlt => htake ⟨hgt, hlt⟩) hle
      · exact fun h => hnone fun nb hnb => h nb (List.mem_cons_of_mem _ hnb)

variable {chain : Text → UInt64} {peer : Text} {blkNum curBlkLength : UInt64}
  {neighbors : List MeshNeighbor} {nb : MeshNeighbor}

theorem request_blocked (s : Pull) (h : ¬ blkNum ≤ chain peer) :
    requestAndReceiveMissingBlock chain s peer blkNum = .error .blocked := by
  rw [requestAndReceiveMissingBlock, handleMissingBlock_request, if_neg h]
  rfl

theorem request_answered (s : Pull) (h : blkNum ≤ chain peer) :
    ∃ s', requestAndReceiveMissingBlock chain s peer blkNum = .ok s' := by
  obtain ⟨r, hr⟩ := Relay.readUint64_block blkNum.toNat (List.replicate 1024 0) []
  rw [List.append_nil] at hr
  have hread : readUint64 (genBlock 1024 blkNum.toNat) = some (UInt64.ofNat blkNum.toNat, r) := hr
  rw [requestAndReceiveMissingBlock, handleMissingBlock_request, if_pos h]
  simp only [bind, Except.bind, hread]
  split
  · exact ⟨_, rfl⟩
  · exact ⟨_, rfl⟩

theorem requestLoop_blocked {maxBlkLength : UInt64}
    (hmax : (chain peer).toNat + 1 = maxBlkLength.toNat) {fuel : ℕ} (hle : blkNum ≤ maxBlkLength)
    (hfuel : maxBlkLength.toNat < blkNum.toNat + fuel) (s : Pull) :
    requestLoop chain peer maxBlkLength fuel blkNum s = .error .blocked := by
  induction fuel generalizing blkNum s with
  | zero => rfl
  | succ fuel ih =>
    rw [requestLoop, if_pos hle]
    by_cases hhas : blkNum ≤ chain peer
    · obtain ⟨s', hs'⟩ := request_answered s hhas
      have hlt := maxBlkLength.toNat_lt
      rw [UInt64.le_iff_toNat_le] at hhas
      have hnext : (blkNum + 1).toNat = blkNum.toNat + 1 := by
        rw [UInt64.toNat_add]
        exact Nat.mod_eq_of_lt (by show blkNum.toNat + 1 < 2 ^ 64; omega)
      rw [hs']
      refine ih ?_ ?_ s'
      · rw [UInt64.le_iff_toNat_le, hnext]
        omega
      · omega
    · rw [request_blocked s hhas]
      rfl

theorem sendPullRequest_blocked (hnb : nb ∈ neighbors)
    (hlonger : curBlkLength < chain nb.ipAddr + 1) :
    sendPullRequest chain neighbors curBlkLength = .error .blocked := by
  obtain ⟨r, hr, -, hlast, hall, -⟩ :=
    foldlM_askNeighbor chain curBlkLength neighbors (0, noNeighbor)
  have hrec := hall nb hnb hlonger
  have hcur : curBlkLength < r.1 := UInt64.lt_of_lt_of_le hlonger hrec
  have hpos : 0 < r.1 := UInt64.lt_of_le_of_lt UInt64.zero_le hcur
  have hne : r ≠ (0, noNeighbor) := fun he => by
    rw [he] at hpos
    exact UInt64.lt_irrefl _ hpos
  have hmax : (chain r.2.ipAddr).toNat + 1 = r.1.toNat := by
    have heq := hlast.resolve_left hne
    have hnat := congrArg UInt64.toNat heq
    rw [UInt64.toNat_add] at hnat
    have hlt := (chain r.2.ipAddr).toNat_lt
    have hpos' := UInt64.lt_iff_toNat_lt.mp hpos
    have hone : (1 : UInt64).toNat = 1 := rfl
    have hzero : (0 : UInt64).toNat = 0 := rfl
    omega
  have hfirst : (curBlkLength + 1).toNat = curBlkLength.toNat + 1 := by
    have hcur' := UInt64.lt_iff_toNat_lt.mp hcur
    have hlt := r.1.toNat_lt
    rw [UInt64.toNat_add]
    exact Nat.mod_eq_of_lt (by show curBlkLength.toNat + 1 < 2 ^ 64; omega)
  have hstart : curBlkLength + 1 ≤ r.1 := by
    rw [UInt64.le_iff_toNat_le, hfirst]
    exact UInt64.lt_iff_toNat_lt.mp hcur
  have hfuel : r.1.toNat < (curBlkLength + 1).toNat + (r.1.toNat + 1) := by omega
  have hloop := requestLoop_blocked hmax hstart hfuel ⟨curBlkLength, [], []⟩
  rw [sendPullRequest]
  simp only [hr, bind, Except.bind]
  rw [if_pos hpos, hloop]

theorem sendPullRequest_none (h : ∀ nb ∈ neighbors, ¬ curBlkLength < chain nb.ipAddr + 1) :
    sendPullRequest chain neighbors curBlkLength = .ok ⟨curBlkLength, [], []⟩ := by
  obtain ⟨r, hr, -, -, -, hnone⟩ :=
    foldlM_askNeighbor chain curBlkLength neighbors (0, noNeighbor)
  have hzero := hnone h
  rw [sendPullRequest]
  simp only [hr, hzero, bind, Except.bind]
  rfl

theorem le_maxLength (h : nb ∈ neighbors) :
    (chain nb.ipAddr).toNat ≤ maxLength chain neighbors := by
  induction neighbors with
  | nil => cases h
  | cons a neighbors ih =>
    have hcons : maxLength chain (a :: neighbors) =
        max (chain a.ipAddr).toNat (maxLength chain neighbors) := rfl
    rw [hcons]
    rcases List.mem_cons.mp h with rfl | h
    · exact le_max_left ..
    · exact (ih h).trans (le_max_right ..)

theorem maxLength_le {n : ℕ} (h : ∀ nb ∈ neighbors, (chain nb.ipAddr).toNat ≤ n) :
    maxLength chain neighbors ≤ n := by
  induction neighbors with
  | nil => exact Nat.zero_le n
  | cons a neighbors ih =>
    have hcons : maxLength chain (a :: neighbors) =
        max (chain a.ipAddr).toNat (maxLength chain neighbors) := rfl
    rw [hcons]
    exact max_le (h a (List.mem_cons_self ..)) (ih fun nb hnb => h nb (List.mem_cons_of_mem _ hnb))

theorem behind_iff :
    Behind chain curBlkLength nb ↔
      ¬ curBlkLength < chain nb.ipAddr + 1 ∧ (chain nb.ipAddr).toNat ≤ curBlkLength.toNat := by
  have hlt := (chain nb.ipAddr).toNat_lt
  have hcur := curBlkLength.toNat_lt
  have hone : (1 : UInt64).toNat = 1 := rfl
  rw [Behind, UInt64.lt_iff_toNat_lt, UInt64.lt_iff_toNat_lt, UInt64.toNat_add, hone,
    ← UInt64.toNat_inj]
  omega

/-- A round is exact if and only if all neighbours are behind: otherwise it waits for a block that
nobody has, or misses a chain whose length wraps. -/
theorem pull_exact_iff (chain : Text → UInt64) (neighbors : List MeshNeighbor)
    (curBlkLength : UInt64) :
    ExactRound chain neighbors curBlkLength ↔ ∀ nb ∈ neighbors, Behind chain curBlkLength nb := by
  constructor
  · rintro ⟨s, hs, -, -, hlen, -⟩ nb hnb
    have hnone : ∀ nb ∈ neighbors, ¬ curBlkLength < chain nb.ipAddr + 1 := by
      intro nb hnb hlonger
      rw [sendPullRequest_blocked hnb hlonger] at hs
      cases hs
    rw [sendPullRequest_none hnone] at hs
    cases hs
    have hlen' : curBlkLength.toNat = max curBlkLength.toNat (maxLength chain neighbors) := hlen
    have hmax : (chain nb.ipAddr).toNat ≤ maxLength chain neighbors := le_maxLength hnb
    exact behind_iff.mpr ⟨hnone nb hnb, hmax.trans ((le_max_right _ _).trans hlen'.ge)⟩
  · intro hall
    have hnone : ∀ nb ∈ neighbors, ¬ curBlkLength < chain nb.ipAddr + 1 :=
      fun nb hnb => (behind_iff.mp (hall nb hnb)).1
    have hmax : maxLength chain neighbors ≤ curBlkLength.toNat :=
      maxLength_le fun nb hnb => (behind_iff.mp (hall nb hnb)).2
    refine ⟨_, sendPullRequest_none hnone, ?_, by simp, (max_eq_left hmax).symm, fun _ => rfl, ?_⟩
    · rw [Nat.sub_eq_zero_of_le hmax]
      rfl
    · intro hgt
      omega

/-- A neighbour with a chain of the same length. -/
theorem pull_waits_for_healthy_neighbour :
    sendPullRequest (fun _ => 7) [⟨[], .clusterLeader⟩] 7 = .error .blocked ∧
      ¬ ExactRound (fun _ => 7) [⟨[], .clusterLeader⟩] 7 := by
  have hblocked : sendPullRequest (fun _ => 7) [⟨[], .clusterLeader⟩] 7 = .error .blocked := by
    decide +kernel
  refine ⟨hblocked, ?_⟩
  rintro ⟨s, hs, -⟩
  rw [hblocked] at hs
  cases hs

end Mp2bs.Peer
