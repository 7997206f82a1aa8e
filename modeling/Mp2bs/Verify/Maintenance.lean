import Mp2bs.Peer.Pull
import Mp2bs.Verify.PathInfo

/-!
# Failure reports and updates

A mesh node reports a failed pull with `sendResToVer` (`v0.6/parti_node/mcn_module.go:92-125`). The
verification node counts the reports of each cluster in `handleSelfMaintenance` and tells the
validator to update a cluster, or all coordinates, in `handlePullRequest`
(`v0.6/verify_node/tcpclient.go:47-176`).
-/

namespace Mp2bs.Verify
open Mp2bs.Lib Mp2bs.Lib.Wire Mp2bs.Peer

/- Constants of lines 26-45. -/
def numCluster : ℕ := 3
def thresInFailure : ℕ := 3
def thresOutFailure : ℕ := 3

/-- The code of a report (`mcn_module.go:34-37`, lines 37-40). -/
def code : Report → UInt16
  | .inFailure => 0
  | .outFailure => 1

def sendResToVer (report : Report) (clusterNum : UInt64) : Bytes :=
  writeUint16 (code report) ++ match report with
    | .inFailure => writeUint32 clusterNum.toUInt32
    | .outFailure => [0, 0, 0, 0]

inductive Halt
  | panic
  | fatal
  deriving DecidableEq

structure Ver where
  cntInFailure : List ℕ
  cntOutFailure : ℕ
  sent : List Bytes
  deriving DecidableEq

def Ver.init : Ver := ⟨List.replicate numCluster 0, 0, []⟩

/-- `handleSelfMaintenance` reads a datagram into six zero bytes, and the cluster with
`Uint16(buffer[2:6])`. -/
def handleSelfMaintenance (v : Ver) (datagram : Bytes) : Except Halt Ver :=
  match readUint16 (readData 6 datagram) with
  | none => .error .panic
  | some (meshPullResult, rest) =>
    if meshPullResult = code .inFailure then
      match readUint16 rest with
      | none => .error .panic
      | some (clusterNum, _) =>
        if clusterNum.toNat < v.cntInFailure.length then
          .ok { v with cntInFailure := v.cntInFailure.modify clusterNum.toNat (· + 1) }
        else .error .panic
    else .ok { v with cntOutFailure := v.cntOutFailure + 1 }

/-- `maxInFailure` and `maxClusterIdx` (106-113). -/
def maxInFailure (cntInFailure : List ℕ) : ℕ × ℕ :=
  (List.range cntInFailure.length).foldl
    (fun m i => if cntInFailure.getD i 0 > m.1 then (cntInFailure.getD i 0, i) else m) (0, 0)

def noNode : NodeConnInfo := ⟨0, 0, 0, 0, 0, [], .leaf⟩

/-- `localUpdateNode` (141-147); a missing key of the map has the zero value. -/
def localUpdateNode (nodeMap : NodeMap) (cluster : ℕ) : List UInt32 :=
  (List.range nodeMap.keys.length).filterMap fun i =>
    let node := (nodeMap.lookup i).getD noNode
    if node.clusterIdx = Int32.ofNat cluster then some node.nodeId else none

/- The datagrams of the two updates (127-128, 160-167). -/
def globalMessage : Bytes := writeUint16 1
def localMessage (nodes : List UInt32) : Bytes :=
  writeUint16 0 ++ (writeUint32 (UInt32.ofNat nodes.length) ++ writeWords nodes)

/-- `net.ResolveUDPAddr`: the address needs a port. -/
def resolveUDPAddr (address : Text) : Bool := address.contains ':'

/- The addresses of the validator (117, 150). -/
def globalUpdateAddr : Text := "172.17.0.3:8888".toList
def localUpdateAddr : Text := "172.17.0.3".toList

/-- Lines 106-174 of `handlePullRequest`. -/
def checkThresholds (nodeMap : NodeMap) (v : Ver) : Except Halt Ver :=
  if v.cntOutFailure ≥ thresOutFailure then
    if resolveUDPAddr globalUpdateAddr then
      .ok { v with
        sent := v.sent ++ [globalMessage]
        cntOutFailure := 0
        cntInFailure := v.cntInFailure.map fun _ => 0 }
    else .error .fatal
  else if (maxInFailure v.cntInFailure).1 ≥ thresInFailure then
    if resolveUDPAddr localUpdateAddr then
      .ok { v with
        sent := v.sent ++
          [localMessage (localUpdateNode nodeMap (maxInFailure v.cntInFailure).2)]
        cntInFailure := v.cntInFailure.set (maxInFailure v.cntInFailure).2 0 }
    else .error .fatal
  else .ok v

def handleReport (nodeMap : NodeMap) (v : Ver) (datagram : Bytes) : Except Halt Ver := do
  checkThresholds nodeMap (← handleSelfMaintenance v datagram)

/-- The reports arrive one after the other. -/
def handlePullRequest (nodeMap : NodeMap) (reports : List (Report × UInt64)) : Except Halt Ver :=
  reports.foldlM (fun v r => handleReport nodeMap v (sendResToVer r.1 r.2)) Ver.init

/-! ### What is expected -/

inductive Update
  | localUpdate (cluster : ℕ)
  | globalUpdate
  deriving DecidableEq

/-- The datagram says the update: a local one lists the nodes of the cluster, each once. -/
def Tells (nodeMap : NodeMap) : Update → Bytes → Prop
  | .globalUpdate, m => m = globalMessage
  | .localUpdate c, m => ∃ nodes : List UInt32, m = localMessage nodes ∧ nodes.Nodup ∧
      ∀ i, i ∈ nodes ↔ ∃ k node, nodeMap.lookup k = some node ∧ node.nodeId = i ∧
        node.clusterIdx.toInt = c

/-- The failures of each cluster since its last reset, those between clusters, and the updates. -/
structure Expected where
  count : ℕ → ℕ
  out : ℕ
  updates : List Update

def Expected.init : Expected := ⟨fun _ => 0, 0, []⟩

/-- A report counts for the cluster of its sender. A global update resets all counters, a local one
that of its cluster. -/
def Expected.report (e : Expected) : Report × UInt64 → Expected
  | (.outFailure, _) =>
    if e.out + 1 ≥ thresOutFailure then ⟨fun _ => 0, 0, e.updates ++ [.globalUpdate]⟩
    else { e with out := e.out + 1 }
  | (.inFailure, c) =>
    if e.count c.toNat + 1 ≥ thresInFailure then
      { e with
        count := Function.update e.count c.toNat 0
        updates := e.updates ++ [.localUpdate c.toNat] }
    else { e with count := Function.update e.count c.toNat (e.count c.toNat + 1) }

def expected (reports : List (Report × UInt64)) : Expected := reports.foldl Expected.report .init

/-- The counters and the datagrams are the expected ones. -/
structure Matches (nodeMap : NodeMap) (v : Ver) (e : Expected) : Prop where
  count : ∀ c, v.cntInFailure.getD c 0 = e.count c
  out : v.cntOutFailure = e.out
  sent : List.Forall₂ (Tells nodeMap) e.updates v.sent

def Handled (nodeMap : NodeMap) (reports : List (Report × UInt64)) : Prop :=
  ∀ pre, pre <+: reports →
    ∃ v, handlePullRequest nodeMap pre = .ok v ∧ Matches nodeMap v (expected pre)

/-- In-cluster failures come from cluster 0, and no local update falls due. -/
def Harmless (reports : List (Report × UInt64)) : Prop :=
  (∀ r ∈ reports, r.1 = .inFailure → r.2 = 0) ∧
    ∀ c, .localUpdate c ∉ (expected reports).updates

/-! ### The run -/

theorem readUint16_writeUint32 (i : UInt32) : ∃ u rest,
    readUint16 (writeUint32 i) = some (u, rest) ∧ u.toNat = i.toNat / 2 ^ 16 := by
  refine ⟨_, _, rfl, ?_⟩
  have := i.toNat_lt
  simp [Nat.shiftRight_eq_div_pow, Nat.shiftLeft_eq]
  omega

def attributed (clusterNum : UInt64) : ℕ := clusterNum.toNat % 2 ^ 32 / 2 ^ 16

variable {c : UInt64} {v' : Ver} {rs : List (Report × UInt64)}

theorem attributed_lt (hc : c ≠ 0) : attributed c < c.toNat := by
  have hpos : c.toNat ≠ 0 := fun h => hc (UInt64.toNat_inj.mp h)
  have hmod := Nat.mod_le c.toNat (2 ^ 32)
  unfold attributed
  omega

theorem handleSelfMaintenance_in (v : Ver) (c : UInt64) :
    handleSelfMaintenance v (sendResToVer .inFailure c) =
      if attributed c < v.cntInFailure.length then
        .ok { v with cntInFailure := v.cntInFailure.modify (attributed c) (· + 1) }
      else .error .panic := by
  obtain ⟨u, rest, hread, hu⟩ := readUint16_writeUint32 c.toUInt32
  have hdata : readData 6 (sendResToVer .inFailure c) =
      writeUint16 (code .inFailure) ++ writeUint32 c.toUInt32 := rfl
  have hattr : u.toNat = attributed c := by
    rw [hu, UInt64.toNat_toUInt32, attributed]
  simp only [handleSelfMaintenance, hdata, readUint16_write, hread, hattr, if_true]

theorem handleSelfMaintenance_out (v : Ver) (c : UInt64) :
    handleSelfMaintenance v (sendResToVer .outFailure c) =
      .ok { v with cntOutFailure := v.cntOutFailure + 1 } := by
  have hdata : readData 6 (sendResToVer .outFailure c) =
      writeUint16 (code .outFailure) ++ [0, 0, 0, 0] := rfl
  have hcode : code .outFailure ≠ code .inFailure := by decide
  simp only [handleSelfMaintenance, hdata, readUint16_write, hcode, if_false]

structure Quiet (nodeMap : NodeMap) (v : Ver) (e : Expected) : Prop where
  cnt : v.cntInFailure = [e.count 0, 0, 0]
  others : ∀ c ≠ 0, e.count c = 0
  below : e.count 0 < thresInFailure
  out : v.cntOutFailure = e.out
  outBelow : e.out < thresOutFailure
  sent : List.Forall₂ (Tells nodeMap) e.updates v.sent

variable {nodeMap : NodeMap} {v : Ver} {e : Expected}

theorem Quiet.init : Quiet nodeMap Ver.init Expected.init :=
  ⟨rfl, fun _ _ => rfl, by decide, rfl, by decide, .nil⟩

theorem Quiet.matches (h : Quiet nodeMap v e) : Matches nodeMap v e := by
  refine ⟨fun c => ?_, h.out, h.sent⟩
  rw [h.cnt]
  match c with
  | 0 => rfl
  | 1 => exact (h.others 1 (by decide)).symm
  | 2 => exact (h.others 2 (by decide)).symm
  | c + 3 => exact (h.others (c + 3) (by omega)).symm

theorem maxInFailure_first (a : ℕ) : maxInFailure [a, 0, 0] = (a, 0) := by
  rcases Nat.eq_zero_or_pos a with rfl | ha
  · rfl
  · simp [maxInFailure, List.range_succ, ha]

theorem Quiet.outFailure (h : Quiet nodeMap v e) (c : UInt64) :
    ∃ v', handleReport nodeMap v (sendResToVer .outFailure c) = .ok v' ∧
      Quiet nodeMap v' (e.report (.outFailure, c)) := by
  have hresolve : resolveUDPAddr globalUpdateAddr = true := by decide
  simp only [handleReport, handleSelfMaintenance_out, bind, Except.bind, checkThresholds, h.out,
    h.cnt, maxInFailure_first, hresolve, if_true, Expected.report]
  by_cases hdue : e.out + 1 ≥ thresOutFailure
  · rw [if_pos hdue, if_pos hdue]
    exact ⟨_, rfl, rfl, fun _ _ => rfl, Nat.succ_pos 2, rfl, Nat.succ_pos 2,
      List.rel_append h.sent (.cons rfl .nil)⟩
  · have hin : ¬ e.count 0 ≥ thresInFailure := Nat.not_le.mpr h.below
    rw [if_neg hdue, if_neg hin, if_neg hdue]
    exact ⟨_, rfl, rfl, h.others, h.below, rfl, Nat.not_le.mp hdue, h.sent⟩

theorem Quiet.inFailure (h : Quiet nodeMap v e) (hbelow : e.count 0 + 1 < thresInFailure) :
    ∃ v', handleReport nodeMap v (sendResToVer .inFailure 0) = .ok v' ∧
      Quiet nodeMap v' (e.report (.inFailure, 0)) := by
  have hattr : attributed 0 = 0 := by decide
  have hout : ¬ e.out ≥ thresOutFailure := Nat.not_le.mpr h.outBelow
  have hin : ¬ e.count 0 + 1 ≥ thresInFailure := Nat.not_le.mpr hbelow
  have hcnt : [e.count 0, 0, 0].modify 0 (· + 1) = [e.count 0 + 1, 0, 0] := rfl
  simp only [handleReport, handleSelfMaintenance_in, hattr, h.cnt, List.length_cons,
    Nat.zero_lt_succ, if_true, hcnt, bind, Except.bind, checkThresholds, h.out, hout, if_false,
    maxInFailure_first, hin, Expected.report, UInt64.toNat_zero]
  refine ⟨_, rfl, ?_, fun c hc => ?_, ?_, rfl, h.outBelow, h.sent⟩
  · simp
  · exact (Function.update_of_ne hc _ _).trans (h.others c hc)
  · simpa using hbelow

theorem Quiet.localUpdate_fatal (h : Quiet nodeMap v e) (hdue : e.count 0 + 1 ≥ thresInFailure) :
    handleReport nodeMap v (sendResToVer .inFailure 0) = .error .fatal := by
  have hattr : attributed 0 = 0 := by decide
  have hout : ¬ e.out ≥ thresOutFailure := Nat.not_le.mpr h.outBelow
  have hresolve : resolveUDPAddr localUpdateAddr = false := by decide
  have hcnt : [e.count 0, 0, 0].modify 0 (· + 1) = [e.count 0 + 1, 0, 0] := rfl
  simp only [handleReport, handleSelfMaintenance_in, hattr, h.cnt, List.length_cons,
    Nat.zero_lt_succ, if_true, hcnt, bind, Except.bind, checkThresholds, h.out, hout, if_false,
    maxInFailure_first, hdue, hresolve, Bool.false_eq_true]

theorem checkThresholds_eq (hout : v.cntOutFailure < thresOutFailure)
    (h : checkThresholds nodeMap v = .ok v') : v' = v := by
  have hresolve : resolveUDPAddr localUpdateAddr = false := by decide
  simp only [checkThresholds, Nat.not_le.mpr hout, ge_iff_le, if_false, hresolve,
    Bool.false_eq_true] at h
  split at h
  · cases h
  · exact (Except.ok.inj h).symm

theorem Quiet.misattributed (h : Quiet nodeMap v e) (hc : c ≠ 0)
    (hok : handleReport nodeMap v (sendResToVer .inFailure c) = .ok v') :
    ¬ Matches nodeMap v' (e.report (.inFailure, c)) := by
  intro hm
  have hpos : c.toNat ≠ 0 := fun h0 => hc (UInt64.toNat_inj.mp h0)
  obtain ⟨v₁, hself, hcheck⟩ := bind_eq_ok.mp hok
  rw [handleSelfMaintenance_in] at hself
  split at hself
  case isFalse => cases hself
  cases hself
  have hv' := checkThresholds_eq (by exact h.out.trans_lt h.outBelow) hcheck
  have hcount := hm.count c.toNat
  have hexp : (e.report (.inFailure, c)).count c.toNat = 1 := by
    have hnot : ¬ 0 + 1 ≥ thresInFailure := by decide
    simp only [Expected.report, h.others _ hpos, hnot, if_false, Function.update_self]
  have hgot : v'.cntInFailure.getD c.toNat 0 = 0 := by
    have hcnt : v'.cntInFailure = [e.count 0, 0, 0].modify (attributed c) (· + 1) := by
      rw [hv', ← h.cnt]
    rw [hcnt, List.getD_eq_getElem?_getD, List.getElem?_modify_ne _ _ (attributed_lt hc).ne]
    match c.toNat, hpos with
    | 1, _ => rfl
    | 2, _ => rfl
    | k + 3, _ => rfl
  omega

theorem handlePullRequest_append (rs : List (Report × UInt64)) (r : Report × UInt64) :
    handlePullRequest nodeMap (rs ++ [r]) =
      handlePullRequest nodeMap rs >>= fun v => handleReport nodeMap v (sendResToVer r.1 r.2) := by
  simp only [handlePullRequest, List.foldlM_append, List.foldlM_cons, List.foldlM_nil, bind_pure]

theorem expected_append (rs : List (Report × UInt64)) (r : Report × UInt64) :
    expected (rs ++ [r]) = (expected rs).report r := by
  simp only [expected, List.foldl_append, List.foldl_cons, List.foldl_nil]

theorem updates_subset_report (e : Expected) (r : Report × UInt64) :
    e.updates ⊆ (e.report r).updates := by
  intro u hu
  obtain ⟨report, c⟩ := r
  cases report <;> simp only [Expected.report] <;> split <;> simp [hu]

theorem Harmless.init {r : Report × UInt64} (h : Harmless (rs ++ [r])) : Harmless rs := by
  refine ⟨fun x hx => h.1 x (List.mem_append_left _ hx), fun c hc => h.2 c ?_⟩
  rw [expected_append]
  exact updates_subset_report _ r hc

theorem Harmless.below (h : Harmless (rs ++ [(.inFailure, 0)])) :
    (expected rs).count 0 + 1 < thresInFailure := by
  by_contra hdue
  have hge : (expected rs).count 0 + 1 ≥ thresInFailure := Nat.not_lt.mp hdue
  apply h.2 0
  rw [expected_append]
  simp [Expected.report, hge]

theorem Harmless.quiet (rs : List (Report × UInt64)) (h : Harmless rs) :
    ∃ v, handlePullRequest nodeMap rs = .ok v ∧ Quiet nodeMap v (expected rs) := by
  induction rs using List.reverseRecOn with
  | nil => exact ⟨_, rfl, Quiet.init⟩
  | append_singleton rs r ih =>
    obtain ⟨v, hv, hq⟩ := ih h.init
    rw [handlePullRequest_append, expected_append]
    obtain ⟨report, c⟩ := r
    cases report with
    | outFailure =>
      obtain ⟨v', hv', hq'⟩ := hq.outFailure c
      exact ⟨v', bind_eq_ok.mpr ⟨v, hv, hv'⟩, hq'⟩
    | inFailure =>
      have hlast : (.inFailure, c) ∈ rs ++ [(.inFailure, c)] :=
        List.mem_append_right _ (List.mem_singleton_self _)
      have hc : c = 0 := h.1 (.inFailure, c) hlast rfl
      subst hc
      obtain ⟨v', hv', hq'⟩ := hq.inFailure h.below
      exact ⟨v', bind_eq_ok.mpr ⟨v, hv, hv'⟩, hq'⟩

theorem Harmless.handled (h : Harmless rs) : Handled nodeMap rs := by
  induction rs using List.reverseRecOn with
  | nil =>
    intro pre hpre
    rw [List.prefix_nil.mp hpre]
    exact ⟨_, rfl, Quiet.init.matches⟩
  | append_singleton rs r ih =>
    intro pre hpre
    rcases List.prefix_concat_iff.mp hpre with rfl | hpre
    · obtain ⟨v, hv, hq⟩ := Harmless.quiet _ h
      exact ⟨v, hv, hq.matches⟩
    · exact ih h.init pre hpre

theorem Handled.harmless (h : Handled nodeMap rs) : Harmless rs := by
  induction rs using List.reverseRecOn with
  | nil => exact ⟨fun _ h => absurd h List.not_mem_nil, fun _ h => absurd h List.not_mem_nil⟩
  | append_singleton rs r ih =>
    have hrs : Harmless rs := ih fun pre hpre => h pre (hpre.trans (List.prefix_append _ _))
    obtain ⟨v, hv, hq⟩ : ∃ v, handlePullRequest nodeMap rs = .ok v ∧
        Quiet nodeMap v (expected rs) := Harmless.quiet rs hrs
    obtain ⟨v', hv', hm⟩ := h _ (List.prefix_refl _)
    rw [handlePullRequest_append, hv] at hv'
    rw [expected_append] at hm
    obtain ⟨report, c⟩ := r
    cases report with
    | outFailure =>
      refine ⟨fun x hx hin => ?_, fun k hk => ?_⟩
      · rcases List.mem_append.mp hx with hx | hx
        · exact hrs.1 x hx hin
        · rw [List.mem_singleton.mp hx] at hin
          cases hin
      · rw [expected_append, Expected.report] at hk
        split at hk
        · exact hrs.2 k (by simpa using hk)
        · exact hrs.2 k hk
    | inFailure =>
      have hc : c = 0 := by
        by_contra hc
        exact hq.misattributed hc hv' hm
      subst hc
      have hbelow : ¬ (expected rs).count 0 + 1 ≥ thresInFailure := fun hdue => by
        cases (hq.localUpdate_fatal hdue).symm.trans hv'
      refine ⟨fun x hx hin => ?_, fun k hk => ?_⟩
      · rcases List.mem_append.mp hx with hx | hx
        · exact hrs.1 x hx hin
        · rw [List.mem_singleton.mp hx]
      · rw [expected_append, Expected.report, UInt64.toNat_zero, if_neg hbelow] at hk
        exact hrs.2 k hk

/-- The updates are the right ones exactly for reports of cluster 0 that bring no local update. -/
theorem failure_reports_iff (nodeMap : NodeMap) (reports : List (Report × UInt64)) :
    Handled nodeMap reports ↔ Harmless reports :=
  ⟨Handled.harmless, Harmless.handled⟩

/-- A failure in cluster 1 is counted for cluster 0, and three failures in cluster 0 end the
program. -/
theorem failure_reports_misattributed :
    handlePullRequest ∅ [(.inFailure, 1)] = .ok ⟨[1, 0, 0], 0, []⟩ ∧
      (expected [(.inFailure, 1)]).count 1 = 1 ∧
      ¬ Handled ∅ [(.inFailure, 1)] ∧
      handlePullRequest ∅ [(.inFailure, 0), (.inFailure, 0), (.inFailure, 0)] = .error .fatal ∧
      (expected [(.inFailure, 0), (.inFailure, 0), (.inFailure, 0)]).updates = [.localUpdate 0] := by
  refine ⟨by decide +kernel, by decide +kernel, fun h => ?_, by decide +kernel, by decide +kernel⟩
  have hzero := (Handled.harmless h).1 (.inFailure, 1) (List.mem_singleton_self _) rfl
  exact absurd hzero (by decide)

end Mp2bs.Verify
