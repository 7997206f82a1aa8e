import Mp2bs.Block.Delivery
import Mp2bs.Block.Forwarding

/-!
# The tokens of the request loops

`sendBlockRequest` takes a session ID out of `sem` for every segment that it asks for
(`mp2session.go:440-441`), and `handleBlockDataPacket` puts it back when the segment is complete
(347-353). The token goes to the session that handles the last packet, whether or not it asked for the segment.
-/

namespace Mp2bs.Block
open Mp2bs.Lib.Slice Mp2bs.Lib.Machine

/-! ### When a packet completes a segment -/

namespace Segment

/- Packet `d` is the last one missing: the next expected one, with all later ones there. -/
def LastMissing (g : Segment) (d : ℕ) : Prop :=
  g.complete = false ∧ d = g.expectedDataNumber ∧
    ∀ i < g.endDataNumber - d, 0 < g.recvDataSize[d - g.startDataNumber + (i + 1)]?.getD 0

instance (g : Segment) (d : ℕ) : Decidable (g.LastMissing d) :=
  inferInstanceAs (Decidable (_ ∧ _ ∧ _))

def SameRequest (g g' : Segment) : Prop :=
  g'.sessionID = g.sessionID ∧ g'.fecFinish = g.fecFinish

theorem fill_sameRequest (g : Segment) (l : List ℕ) : g.SameRequest (g.fill l) := by
  induction l generalizing g with
  | nil => exact ⟨rfl, rfl⟩
  | cons size rest ih =>
    unfold fill
    split_ifs
    · exact ih _
    · exact ⟨rfl, rfl⟩

variable {g g' : Segment} {b d : ℕ} {data : Bytes} {r : Bool}

theorem fill_complete_of_complete (l : List ℕ) (hg : g.complete = true) :
    (g.fill l).complete = true := by
  induction l generalizing g with
  | nil => exact hg
  | cons size rest ih =>
    unfold fill
    split_ifs
    · apply ih
      simp [hg]
    · exact hg

theorem exists_of_fill_complete {l : List ℕ} (hg : g.complete = false)
    (hc : (g.fill l).complete = true) :
    ∃ j, g.endDataNumber ≤ g.expectedDataNumber + j ∧ ∀ i ≤ j, 0 < l[i]?.getD 0 := by
  induction l generalizing g with
  | nil => simp [fill, hg] at hc
  | cons size rest ih =>
    unfold fill at hc
    by_cases hpos : 0 < size
    · rw [if_pos hpos] at hc
      by_cases hend : g.expectedDataNumber = g.endDataNumber
      · refine ⟨0, by omega, ?_⟩
        intro i hi
        rw [Nat.le_zero.mp hi]
        simpa using hpos
      · obtain ⟨j, hj, hall⟩ := ih (by simp [hg, hend]) hc
        have hle : u32 (g.expectedDataNumber + 1) ≤ g.expectedDataNumber + 1 := Nat.mod_le _ _
        refine ⟨j + 1, by simp only at hj; omega, ?_⟩
        intro i hi
        cases i with
        | zero => simpa using hpos
        | succ i => simpa using hall i (by omega)
    · rw [if_neg hpos, hg] at hc
      cases hc

theorem pushData_sameRequest (h : g.pushData b d data = .ok (g', r)) :
    g.SameRequest g' ∧ (g'.complete = g.complete ∨ g.LastMissing d ∧ g'.complete = true) := by
  unfold pushData at h
  by_cases hin : b = g.blockNumber ∧ g.startDataNumber ≤ d ∧ d ≤ g.endDataNumber
  · rw [if_pos hin] at h
    dsimp only at h
    split_ifs at h with hfit hexp
    · simp only [Except.ok.injEq, Prod.mk.injEq] at h
      rw [← h.1]
      refine ⟨fill_sameRequest _ _, ?_⟩
      cases hg : g.complete with
      | true =>
        left
        exact fill_complete_of_complete _ rfl
      | false =>
        cases hc : (fill _ _).complete with
        | false => exact Or.inl rfl
        | true =>
          right
          obtain ⟨j, hj, hall⟩ := exists_of_fill_complete rfl hc
          refine ⟨⟨hg, hexp, ?_⟩, rfl⟩
          intro i hi
          have := hall (i + 1) (by simp only at hj; omega)
          rw [List.getElem?_drop, List.getElem?_set_ne (by omega)] at this
          exact this
    · simp only [Except.ok.injEq, Prod.mk.injEq] at h
      rw [← h.1]
      exact ⟨⟨rfl, rfl⟩, Or.inl rfl⟩
  · rw [if_neg hin] at h
    simp only [Except.ok.injEq, Prod.mk.injEq] at h
    rw [← h.1]
    exact ⟨⟨rfl, rfl⟩, Or.inl rfl⟩

theorem pushRedData_sameRequest (h : g.pushRedData b d data = .ok (g', r)) :
    g.SameRequest g' ∧ g'.complete = g.complete := by
  unfold pushRedData at h
  dsimp only at h
  split_ifs at h
  all_goals
    simp only [Except.ok.injEq, Prod.mk.injEq] at h
    rw [← h.1]
    exact ⟨⟨rfl, rfl⟩, rfl⟩

end Segment

namespace Mp2Session

theorem handleBlockDataPacket_cases {m m' : Manager} {s s' : Mp2Session} {bb : BlockBuffer}
    {packet : BlockDataPacket} (hm : m.recvBuffer s.blockNumber = some bb)
    (h : s.handleBlockDataPacket m packet = .ok (m', s')) :
    (m' = m ∧ s' = s) ∨
    ∃ i g g₁ g₂ bb', bb.buffer.findIdx? (·.takes packet) = some i ∧ bb.buffer[i]? = some g ∧
      g.SameRequest g₁ ∧
      (g₁.complete = g.complete ∨ g.LastMissing packet.dataNumber ∧ g₁.complete = true) ∧
      s.release g₁ = .ok (s', g₂) ∧ bb'.buffer = bb.buffer.set i g₂ ∧
      m'.recvBuffer = Function.update m.recvBuffer s.blockNumber (some bb') := by
  obtain ⟨bb', hbb, hcase⟩ := handleBlockDataPacket_ok h
  obtain rfl : bb' = bb := Option.some.inj (hbb.symm.trans hm)
  rcases hcase with ⟨_, hsame⟩ | ⟨i, g, g₁, r, g₂, hi, hg, _, hrelease, hstored⟩
  · exact Or.inl hsame
  · right
    rcases hstored with ⟨_, hpush, rfl⟩ | ⟨_, hpush, rfl⟩
    · obtain ⟨hsame, hcomp⟩ := Segment.pushData_sameRequest hpush
      exact ⟨i, g, g₁, g₂, _, hi, hg, hsame, hcomp, hrelease, rfl, rfl⟩
    · obtain ⟨hsame, hcomp⟩ := Segment.pushRedData_sameRequest hpush
      exact ⟨i, g, g₁, g₂, _, hi, hg, hsame, Or.inl hcomp, hrelease, rfl, rfl⟩

theorem sendBlockRequest_token {m m' : Manager} {s s' : Mp2Session} {job job' : RequestJob}
    {id : ℕ} {packet : BlockRequestPacket}
    (h : s.sendBlockRequest m job = .ok (m', s', job', id, packet)) :
    ∃ sem g, s.sem = id :: sem ∧ id ∈ s.sessionMap ∧
      s' = { s with sem := sem }.setOwner id .downloading ∧
      g.sessionID = id ∧ g.complete = false ∧ g.fecFinish = false ∧
      g.blockNumber = job.blockNumber ∧ m.addRecvBuffer g = .ok m' ∧
      job'.blockNumber = job.blockNumber := by
  obtain ⟨sem, _, hsem, hmem, hadd, hs, rfl, _⟩ := sendBlockRequest_eq_ok h
  exact ⟨sem, _, hsem, hmem, hs, rfl, rfl, rfl, rfl, hadd, rfl⟩

end Mp2Session

/-! ### The tokens that are out -/

def owed (sessions : List ℕ) (l : List Segment) : List ℕ :=
  (l.filter fun g => !g.complete && decide (g.sessionID ∈ sessions)).map (·.sessionID)

section Owed
variable {sessions : List ℕ} {l l' : List Segment} {g g' : Segment}

theorem owed_append (sessions : List ℕ) (l l' : List Segment) :
    owed sessions (l ++ l') = owed sessions l ++ owed sessions l' := by
  simp [owed]

theorem owed_perm (h : l.Perm l') : (owed sessions l).Perm (owed sessions l') :=
  (h.filter _).map _

theorem owed_singleton (hc : g.complete = false) (hg : g.sessionID ∈ sessions) :
    owed sessions [g] = [g.sessionID] := by
  simp [owed, hc, hg]

theorem owed_singleton_other (hg : g.sessionID ∉ sessions) : owed sessions [g] = [] := by
  simp [owed, hg]

theorem owed_of_not_mem (h : ∀ g ∈ l, g.sessionID ∉ sessions) : owed sessions l = [] := by
  simp only [owed, List.map_eq_nil_iff, List.filter_eq_nil_iff]
  intro g hg
  simp [h g hg]

theorem owed_set_same {i : ℕ} (hi : l[i]? = some g) (hid : g'.sessionID = g.sessionID)
    (hc : g'.complete = g.complete ∨ g.sessionID ∉ sessions) :
    owed sessions (l.set i g') = owed sessions l := by
  induction l generalizing i with
  | nil => simp at hi
  | cons a l ih =>
    cases i with
    | zero =>
      obtain rfl : a = g := by simpa using hi
      rcases hc with hc | hc
      · simp only [List.set_cons_zero, owed, List.filter_cons, hc, hid]
        split_ifs
        · simp only [List.map_cons, hid]
        · rfl
      · simp [owed, hid, hc]
    | succ i =>
      have := ih (by simpa using hi)
      simp only [owed] at this ⊢
      simp only [List.set_cons_succ, List.filter_cons]
      split_ifs
      · simp only [List.map_cons, this]
      · exact this

theorem owed_set_complete {i : ℕ} (hi : l[i]? = some g) (hid : g.sessionID ∈ sessions)
    (hc : g.complete = false) (hc' : g'.complete = true) :
    (owed sessions l).Perm (g.sessionID :: owed sessions (l.set i g')) := by
  induction l generalizing i with
  | nil => simp at hi
  | cons a l ih =>
    cases i with
    | zero =>
      obtain rfl : a = g := by simpa using hi
      simp [owed, hc, hc', hid]
    | succ i =>
      have := ih (by simpa using hi)
      simp only [owed] at this ⊢
      simp only [List.set_cons_succ, List.filter_cons]
      split_ifs
      · simp only [List.map_cons]
        exact (List.Perm.cons _ this).trans (List.Perm.swap ..)
      · exact this

end Owed

def completions (before after : List Segment) : List Segment :=
  ((before.zip after).filter fun p => !p.1.complete && p.2.complete).map (·.1)

theorem completions_self (l : List Segment) : completions l l = [] := by
  induction l with
  | nil => rfl
  | cons a l ih =>
    simp only [completions, List.map_eq_nil_iff] at ih ⊢
    simpa [List.filter_cons] using ih

theorem completions_set {l : List Segment} {i : ℕ} {g : Segment} (hi : l[i]? = some g)
    (g' : Segment) :
    completions l (l.set i g') = if g.complete = false ∧ g'.complete = true then [g] else [] := by
  induction l generalizing i with
  | nil => simp at hi
  | cons a l ih =>
    cases i with
    | zero =>
      obtain rfl : a = g := by simpa using hi
      have := completions_self l
      simp only [completions, List.map_eq_nil_iff] at this
      simp only [completions, List.set_cons_zero, List.zip_cons_cons, List.filter_cons, this]
      cases a.complete <;> cases g'.complete <;> rfl
    | succ i =>
      rw [← ih (by simpa using hi)]
      simp [completions]

/-! ### The node with the segments it has dropped -/

structure Ledger where
  node : Transfer
  flushed : List Segment

namespace Ledger
open Transfer

def init (b : ℕ) (block : Bytes) (sessions : List ℕ) : Ledger :=
  ⟨Transfer.init b block sessions, []⟩

/- The sessions of a new connection are none of those that the node has: an ID names one. -/
def Fresh (s : Ledger) (sessions : List ℕ) : Prop :=
  sessions.Nodup ∧ ∀ link ∈ s.node.links, ∀ id ∈ sessions, id ∉ link.session.sessionMap

instance (s : Ledger) (sessions : List ℕ) : Decidable (s.Fresh sessions) :=
  inferInstanceAs (Decidable (_ ∧ _))

def step (b : ℕ) (s : Ledger) (a : Label) : Except Stop Ledger :=
  match s.node.step b a with
  | .error e => .error e
  | .ok node => match a with
    | .timeout _ pullSessions =>
      if s.Fresh pullSessions then .ok ⟨node, s.flushed ++ s.node.buffer b⟩ else .error .blocked
    | _ => .ok ⟨node, s.flushed⟩

/- All segments asked for so far, each as it was when it was last in the buffer. -/
def requested (b : ℕ) (s : Ledger) : List Segment :=
  s.node.removed ++ s.flushed ++ s.node.buffer b

/- The last missing packet of a segment is handled by the session that asked for it. -/
def OwnLast (s : Ledger) : Label → Prop
  | .deliver k p => ∀ link ∈ s.node.links[k]?, ∀ packet ∈ (s.node.peers p).channel.head?,
      ∀ g ∈ (s.node.buffer link.session.blockNumber).find? (·.takes packet),
        g.LastMissing packet.dataNumber → g.sessionID ∈ link.session.sessionMap
  | _ => True

instance (s : Ledger) : ∀ a, Decidable (OwnLast s a)
  | .deliver k p => inferInstanceAs (Decidable (∀ link ∈ s.node.links[k]?,
      ∀ packet ∈ (s.node.peers p).channel.head?,
        ∀ g ∈ (s.node.buffer link.session.blockNumber).find? (·.takes packet),
          g.LastMissing packet.dataNumber → g.sessionID ∈ link.session.sessionMap))
  | .info _ _ | .request _ | .accept _ | .send _ _ | .env _ _ _ _ | .read _ | .timeout _ _ =>
    .isTrue trivial

/-! ### The law of one session -/

structure Balanced (b : ℕ) (all : List Segment) (l : Link) : Prop where
  nodup : l.session.sessionMap.Nodup
  owners : l.session.blockOwners.map (·.1) = l.session.sessionMap
  infos : ∀ x ∈ l.infos, x.1 ∈ l.session.sessionMap ∧ x.2.blockNumber = b
  waiting : l.job = none → l.session.sem = [] ∧
    (∀ g ∈ all, g.sessionID ∉ l.session.sessionMap) ∧
    l.session.blockOwners = answered l.session.sessionMap (l.infos.map (·.1))
  running : ∀ job ∈ l.job, job.blockNumber = b ∧ l.infos = [] ∧
    l.session.semCap = l.session.sessionMap.length ∧
    (l.session.sem ++ owed l.session.sessionMap all).Perm l.session.sessionMap

def Same (ids : List ℕ) (all all' : List Segment) : Prop :=
  (owed ids all').Perm (owed ids all) ∧
    ((∀ g ∈ all, g.sessionID ∉ ids) → ∀ g ∈ all', g.sessionID ∉ ids)

variable {b : ℕ} {all all' : List Segment} {ids sessions : List ℕ} {g : Segment}

theorem Balanced.of_same {l : Link} (h : Balanced b all l) (hs : Same l.session.sessionMap all all') :
    Balanced b all' l := by
  refine ⟨h.nodup, h.owners, h.infos, ?_, ?_⟩
  · intro hj
    obtain ⟨hsem, hall, hown⟩ := h.waiting hj
    exact ⟨hsem, hs.2 hall, hown⟩
  · intro job hj
    obtain ⟨hb, hi, hcap, hperm⟩ := h.running job hj
    exact ⟨hb, hi, hcap, (hs.1.append_left _).trans hperm⟩

theorem same_of_perm (h : all'.Perm all) : Same ids all all' :=
  ⟨owed_perm h, fun hall g hg => hall g (h.subset hg)⟩

theorem same_of_set {pre l : List Segment} {i : ℕ} {g' : Segment} (hi : l[i]? = some g)
    (hid : g'.sessionID = g.sessionID) (hc : g'.complete = g.complete ∨ g.sessionID ∉ ids) :
    Same ids (pre ++ l) (pre ++ l.set i g') := by
  refine ⟨?_, ?_⟩
  · rw [owed_append, owed_append, owed_set_same hi hid hc]
  · intro hall x hx
    rcases List.mem_append.mp hx with hx | hx
    · exact hall x (List.mem_append_left _ hx)
    · rcases List.mem_or_eq_of_mem_set hx with hx | rfl
      · exact hall x (List.mem_append_right _ hx)
      · rw [hid]
        exact hall g (List.mem_append_right _ (List.mem_of_getElem? hi))

theorem same_of_append (hg : g.sessionID ∉ ids) : Same ids all (all ++ [g]) := by
  refine ⟨?_, ?_⟩
  · rw [owed_append, owed_singleton_other hg, List.append_nil]
  · intro hall x hx
    rcases List.mem_append.mp hx with hx | hx
    · exact hall x hx
    · rw [List.mem_singleton.mp hx]
      exact hg

/-! ### The law of all sessions -/

structure Inv (b : ℕ) (s : Ledger) : Prop where
  segments : ∀ g ∈ s.node.buffer b, g.fecFinish = g.complete
  others : ∀ b' ≠ b, s.node.manager.recvBuffer b' = none
  disjoint : (s.node.links.map (·.session.sessionMap)).Pairwise List.Disjoint
  known : ∀ g ∈ s.requested b, ∃ ids ∈ s.node.links.map (·.session.sessionMap), g.sessionID ∈ ids
  links : ∀ l ∈ s.node.links, Balanced b (s.requested b) l

theorem buffer_of_some {s : Transfer} {bb : BlockBuffer} (h : s.manager.recvBuffer b = some bb) :
    s.buffer b = bb.buffer := by
  simp only [Transfer.buffer, h]

namespace Inv
variable {b : ℕ} {s : Ledger}

variable {i k id p bufLen : ℕ} {l l' : Link} {bb : BlockBuffer} {node : Transfer}
  {flushed : List Segment} {session : Mp2Session} {g : Segment} {ids : List ℕ} {a : Label}

theorem disjoint_of_ne (h : Inv b s) {j : ℕ} (hi : s.node.links[i]? = some l)
    (hj : s.node.links[j]? = some l') (hne : i ≠ j) :
    l.session.sessionMap.Disjoint l'.session.sessionMap := by
  obtain ⟨hil, rfl⟩ := List.getElem?_eq_some_iff.mp hi
  obtain ⟨hjl, rfl⟩ := List.getElem?_eq_some_iff.mp hj
  have hpair := List.pairwise_iff_getElem.mp (List.pairwise_map.mp h.disjoint)
  rcases Nat.lt_or_gt_of_ne hne with hlt | hlt
  · exact hpair i j hil hjl hlt
  · exact (hpair j i hjl hil hlt).symm

theorem block_of_some (h : Inv b s) {b' : ℕ} (hm : s.node.manager.recvBuffer b' = some bb) :
    b' = b := by
  by_contra hne
  rw [h.others b' hne] at hm
  cases hm

theorem set_link (h : Inv b s) (all : List Segment) (hk : s.node.links[k]? = some l)
    (hlinks : node.links = s.node.links.set k l') (hreq : requested b ⟨node, flushed⟩ = all)
    (hmap : l'.session.sessionMap = l.session.sessionMap)
    (hsegs : ∀ g ∈ node.buffer b, g.fecFinish = g.complete)
    (hothers : ∀ b' ≠ b, node.manager.recvBuffer b' = none)
    (hall : ∀ g ∈ all, (∃ g' ∈ s.requested b, g'.sessionID = g.sessionID) ∨ g.sessionID ∈ l.session.sessionMap)
    (hsame : ∀ j l₁, j ≠ k → s.node.links[j]? = some l₁ → Same l₁.session.sessionMap (s.requested b) all)
    (hl' : Balanced b all l') : Inv b ⟨node, flushed⟩ := by
  subst hreq
  have hmaps : node.links.map (·.session.sessionMap) = s.node.links.map (·.session.sessionMap) := by
    obtain ⟨hlt, rfl⟩ := List.getElem?_eq_some_iff.mp hk
    have hself := List.map_set (f := fun l : Link => l.session.sessionMap) (l := s.node.links)
      (i := k) (a := s.node.links[k])
    rw [List.set_getElem_self] at hself
    rw [hlinks, List.map_set, hmap, ← hself]
  refine ⟨hsegs, hothers, ?_, ?_, ?_⟩
  · show (node.links.map (·.session.sessionMap)).Pairwise List.Disjoint
    rw [hmaps]
    exact h.disjoint
  · intro g hg
    show ∃ ids ∈ node.links.map (·.session.sessionMap), _
    rw [hmaps]
    rcases hall g hg with ⟨g', hg', he⟩ | hin
    · rw [← he]
      exact h.known g' hg'
    · exact ⟨_, List.mem_map_of_mem (List.mem_of_getElem? hk), hin⟩
  · intro l₁ hl₁
    have hmem : l₁ ∈ s.node.links.set k l' := hlinks ▸ hl₁
    obtain ⟨j, hj⟩ := List.mem_iff_getElem?.mp hmem
    by_cases hjk : j = k
    · have hlt : k < s.node.links.length := (List.getElem?_eq_some_iff.mp hk).1
      rw [hjk, List.getElem?_set_self hlt] at hj
      rw [← Option.some.inj hj]
      exact hl'
    · rw [List.getElem?_set_ne (Ne.symm hjk)] at hj
      exact (h.links l₁ (List.mem_of_getElem? hj)).of_same (hsame j l₁ hjk hj)

theorem of_same (h : Inv b s) (all : List Segment) (hlinks : node.links = s.node.links)
    (hreq : requested b ⟨node, flushed⟩ = all) (hsegs : ∀ g ∈ node.buffer b, g.fecFinish = g.complete)
    (hothers : ∀ b' ≠ b, node.manager.recvBuffer b' = none)
    (hall : ∀ g ∈ all, ∃ g' ∈ s.requested b, g'.sessionID = g.sessionID)
    (hsame : ∀ ids, Same ids (s.requested b) all) : Inv b ⟨node, flushed⟩ := by
  subst hreq
  refine ⟨hsegs, hothers, ?_, ?_, ?_⟩
  · show (node.links.map (·.session.sessionMap)).Pairwise List.Disjoint
    rw [hlinks]
    exact h.disjoint
  · intro g hg
    show ∃ ids ∈ node.links.map (·.session.sessionMap), _
    obtain ⟨g', hg', he⟩ := hall g hg
    rw [hlinks, ← he]
    exact h.known g' hg'
  · intro l hl
    have hmem : l ∈ s.node.links := hlinks ▸ hl
    exact (h.links l hmem).of_same (hsame _)

theorem info (h : Inv b s) (hs : s.node.stepInfo k id = .ok node) : Inv b ⟨node, s.flushed⟩ := by
  obtain ⟨l, packet, m, session, job, hl, hin, hr, rfl⟩ := stepInfo_cases hs
  have hbal := h.links l (List.mem_of_getElem? hl)
  obtain ⟨hid, hpb⟩ := hbal.infos (id, packet) hin
  simp only at hid hpb
  -- an answer is under way, so the request loop has not started
  have hjob : l.job = none := by
    cases hj : l.job with
    | none => rfl
    | some job =>
      rw [(hbal.running job hj).2.1] at hin
      cases hin
  obtain ⟨hsem, hnone, hown⟩ := hbal.waiting hjob
  obtain ⟨pb, status, size⟩ := packet
  obtain rfl : pb = b := hpb
  obtain ⟨session', hmap, hbn, hown', hsem', heq⟩ := handleBlockInfoPacket_eq
    (m := s.node.manager) (b := pb) status size hown hid
  have hids : (l.infos.map (·.1)).filter (· != id) =
      (l.infos.filter (·.1 != id)).map (·.1) := by
    rw [List.filter_map]
    rfl
  have hkeys : session'.blockOwners.map (·.1) = session'.sessionMap := by
    rw [hown', hmap, answered, List.map_map]
    exact List.map_id _
  have hinfos : ∀ x ∈ l.infos.filter (·.1 != id), x.1 ∈ session'.sessionMap ∧
      x.2.blockNumber = pb := by
    intro x hx
    rw [hmap]
    exact hbal.infos x (List.mem_of_mem_filter hx)
  rw [heq] at hr
  by_cases hall : ∀ p ∈ l.session.sessionMap, p ∉ (l.infos.map (·.1)).filter (· != id)
  · rw [if_pos hall] at hr
    cases hr
    have hnil : l.infos.filter (·.1 != id) = [] := by
      rw [List.eq_nil_iff_forall_not_mem]
      intro x hx
      refine hall x.1 (hmap ▸ (hinfos x hx).1) ?_
      rw [hids]
      exact List.mem_map_of_mem hx
    have hbuf : ((s.node.manager.recvBuffer pb).getD createBlockBuffer).buffer =
        s.node.buffer pb := by
      unfold Transfer.buffer
      cases s.node.manager.recvBuffer pb <;> rfl
    refine h.set_link (s.requested pb) hl rfl ?_ hmap ?_ ?_
      (fun g hg => Or.inl ⟨g, hg, rfl⟩) ?_ ?_
    · simp only [requested]
      rw [buffer_of_some (Manager.setRecvBuffer_recvBuffer _ _ _), hbuf]
    · intro g hg
      rw [buffer_of_some (Manager.setRecvBuffer_recvBuffer _ _ _), hbuf] at hg
      exact h.segments g hg
    · intro b' hb'
      simp only [Manager.setRecvBuffer, Function.update_of_ne hb']
      exact h.others b' hb'
    · intro j l₁ _ _
      exact same_of_perm (List.Perm.refl _)
    · refine ⟨by rw [hmap]; exact hbal.nodup, hkeys, hinfos, fun hj => (by cases hj), ?_⟩
      intro job hj
      obtain rfl := Option.mem_some_iff.mp hj
      refine ⟨rfl, hnil, by rw [hmap], ?_⟩
      rw [hmap, owed_of_not_mem hnone, List.append_nil]
  · rw [if_neg hall] at hr
    cases hr
    rw [hjob]
    refine h.set_link _ hl rfl rfl hmap h.segments h.others (fun g hg => Or.inl ⟨g, hg, rfl⟩) ?_ ?_
    · intro j l₁ _ _
      exact same_of_perm (List.Perm.refl _)
    · refine ⟨by rw [hmap]; exact hbal.nodup, hkeys, hinfos, ?_, fun job hj => (by cases hj)⟩
      intro _
      refine ⟨hsem'.trans hsem, ?_, ?_⟩
      · rw [hmap]
        exact hnone
      · rw [hown', hids, hmap]

theorem setOwner_keys (status : PeerStatus) (h : session.blockOwners.map (·.1) = session.sessionMap)
    (hid : id ∈ session.sessionMap) :
    (session.setOwner id status).blockOwners.map (·.1) = session.sessionMap := by
  have hany : session.blockOwners.any (·.1 == id) = true := by
    rw [← h] at hid
    obtain ⟨o, ho, rfl⟩ := List.mem_map.mp hid
    exact List.any_eq_true.mpr ⟨o, ho, by simp⟩
  simp only [Mp2Session.setOwner, hany, if_true]
  rw [← h, List.map_map]
  apply List.map_congr_left
  intro o _
  by_cases ho : o.1 = id
  · simp [ho]
  · simp [ho]

theorem request (h : Inv b s) (hs : s.node.stepRequest k = .ok node) : Inv b ⟨node, s.flushed⟩ := by
  obtain ⟨l, job, m, session, job', id, packet, hl, hj, hr, rfl⟩ := stepRequest_cases hs
  have hbal := h.links l (List.mem_of_getElem? hl)
  obtain ⟨sem, g, hsem, hid, rfl, hgid, hgc, hgf, hgb, hadd, hjb⟩ :=
    Mp2Session.sendBlockRequest_token hr
  obtain ⟨hjobb, hinf, hcap, hperm⟩ := hbal.running job hj
  have hbb : g.blockNumber = b := hgb.trans hjobb
  obtain ⟨bb, hm, hm'⟩ : ∃ bb, s.node.manager.recvBuffer b = some bb ∧
      m = s.node.manager.setRecvBuffer b { bb with buffer := bb.buffer ++ [g] } := by
    unfold Manager.addRecvBuffer at hadd
    rw [hbb] at hadd
    cases hm : s.node.manager.recvBuffer b with
    | none => simp [hm] at hadd
    | some bb =>
      simp only [hm, Except.ok.injEq] at hadd
      exact ⟨bb, rfl, hadd.symm⟩
  subst hm'
  refine h.set_link (s.requested b ++ [g]) hl rfl ?_ rfl ?_ ?_ ?_ ?_ ?_
  · simp only [requested]
    rw [buffer_of_some (Manager.setRecvBuffer_recvBuffer _ _ _), buffer_of_some hm,
      List.append_assoc _ _ [g]]
  · intro g' hg'
    rw [buffer_of_some (Manager.setRecvBuffer_recvBuffer _ _ _)] at hg'
    rcases List.mem_append.mp hg' with hg' | hg'
    · exact h.segments g' (by rw [buffer_of_some hm]; exact hg')
    · rw [List.mem_singleton.mp hg', hgc, hgf]
  · intro b' hb'
    simp only [Manager.setRecvBuffer, Function.update_of_ne hb']
    exact h.others b' hb'
  · intro g' hg'
    rcases List.mem_append.mp hg' with hg' | hg'
    · exact Or.inl ⟨g', hg', rfl⟩
    · right
      rw [List.mem_singleton.mp hg', hgid]
      exact hid
  · intro j l₁ hjk hl₁
    apply same_of_append
    rw [hgid]
    exact h.disjoint_of_ne hl hl₁ (Ne.symm hjk) hid
  · refine ⟨hbal.nodup, setOwner_keys .downloading hbal.owners hid, hbal.infos,
      fun h => (by cases h), ?_⟩
    intro job₁ hj₁
    obtain rfl := Option.mem_some_iff.mp hj₁
    refine ⟨hjb.trans hjobb, hinf, hcap, ?_⟩
    rw [hsem] at hperm
    refine List.Perm.trans ?_ hperm
    show (sem ++ owed l.session.sessionMap (s.requested b ++ [g])).Perm _
    rw [owed_append, owed_singleton hgc (by rw [hgid]; exact hid), hgid, ← List.append_assoc]
    exact List.perm_append_singleton _ _

theorem find_of_findIdx {l : List Segment} {q : Segment → Bool} (hi : l.findIdx? q = some i)
    (hg : l[i]? = some g) : l.find? q = some g := by
  obtain ⟨hlt, hq, hbefore⟩ := List.findIdx?_eq_some_iff_getElem.mp hi
  rw [List.find?_eq_some_iff_getElem]
  obtain ⟨_, rfl⟩ := List.getElem?_eq_some_iff.mp hg
  exact ⟨hq, i, hlt, rfl, fun j hj => by simpa using hbefore j hj⟩

theorem own_of_done (h : Inv b s) {packet : BlockDataPacket} {g₁ : Segment}
    (hok : OwnLast s (.deliver k p)) (hl : s.node.links[k]? = some l)
    (hc : (s.node.peers p).channel.head? = some packet)
    (hbuf : s.node.manager.recvBuffer l.session.blockNumber = some bb)
    (hi : bb.buffer.findIdx? (·.takes packet) = some i) (hg : bb.buffer[i]? = some g)
    (hsame : g.SameRequest g₁)
    (hcomp : g₁.complete = g.complete ∨ g.LastMissing packet.dataNumber ∧ g₁.complete = true)
    (hdone : g₁.complete = true ∧ ¬g₁.fecFinish = true) :
    g.complete = false ∧ g.sessionID ∈ l.session.sessionMap := by
  have hbb : s.node.buffer l.session.blockNumber = bb.buffer := buffer_of_some hbuf
  have hgc : g.complete = false := by
    rw [← h.segments g, ← hsame.2]
    · simpa using hdone.2
    · rw [← h.block_of_some hbuf, hbb]
      exact List.mem_of_getElem? hg
  refine ⟨hgc, hok l hl packet hc g ?_ ?_⟩
  · rw [hbb]
    exact find_of_findIdx hi hg
  · rcases hcomp with hcomp | hcomp
    · rw [hcomp, hgc] at hdone
      simp at hdone
    · exact hcomp.1

theorem deliver_cases (h : Inv b s) (hok : OwnLast s (.deliver k p))
    (hs : s.node.stepDeliver k p = .ok node) :
    ∃ l session, s.node.links[k]? = some l ∧
      node.links = s.node.links.set k { l with session := session } ∧
      node.removed = s.node.removed ∧ (∀ b' ≠ b, node.manager.recvBuffer b' = none) ∧
      ((session = l.session ∧ node.buffer b = s.node.buffer b) ∨
        ∃ i g g', (s.node.buffer b)[i]? = some g ∧ node.buffer b = (s.node.buffer b).set i g' ∧
          g'.sessionID = g.sessionID ∧ g'.fecFinish = g'.complete ∧
          ((session = l.session ∧ g'.complete = g.complete) ∨
            (session = { l.session with sem := l.session.sem ++ [g.sessionID] } ∧
              g.complete = false ∧ g'.complete = true ∧ g.sessionID ∈ l.session.sessionMap))) := by
  obtain ⟨l, packet, rest, m, session, hl, hc, hr, rfl⟩ := stepDeliver_cases hs
  cases hbuf : s.node.manager.recvBuffer l.session.blockNumber with
  | none => simp [Mp2Session.handleBlockDataPacket, hbuf] at hr
  | some bb =>
    have hlb := h.block_of_some hbuf
    have hbb : s.node.buffer b = bb.buffer := buffer_of_some (hlb ▸ hbuf)
    refine ⟨l, session, hl, rfl, rfl, ?_⟩
    rcases Mp2Session.handleBlockDataPacket_cases hbuf hr with ⟨rfl, rfl⟩ | hstored
    · exact ⟨h.others, Or.inl ⟨rfl, rfl⟩⟩
    obtain ⟨i, g, g₁, g₂, bb', hi, hg, hsame, hcomp, hrel, hset, hupd⟩ := hstored
    rw [hlb] at hupd
    have hnode : (s.node.delivered k p l packet rest m session).buffer b = bb.buffer.set i g₂ := by
      rw [← hset]
      apply buffer_of_some
      show m.recvBuffer b = some bb'
      rw [hupd, Function.update_self]
    refine ⟨?_, Or.inr ⟨i, g, g₂, by rw [hbb]; exact hg, by rw [hbb]; exact hnode, ?_⟩⟩
    · intro b' hb'
      show m.recvBuffer b' = none
      rw [hupd, Function.update_of_ne hb']
      exact h.others b' hb'
    have hfin : g.fecFinish = g.complete := by
      apply h.segments g
      rw [hbb]
      exact List.mem_of_getElem? hg
    unfold Mp2Session.release at hrel
    by_cases hdone : g₁.complete = true ∧ ¬g₁.fecFinish = true
    · rw [if_pos hdone] at hrel
      split_ifs at hrel
      simp only [Except.ok.injEq, Prod.mk.injEq] at hrel
      obtain ⟨rfl, rfl⟩ := hrel
      obtain ⟨hgc, hmem⟩ := h.own_of_done hok hl (by rw [hc]; rfl) hbuf hi hg hsame hcomp hdone
      exact ⟨hsame.1, hdone.1.symm, Or.inr ⟨by rw [hsame.1], hgc, hdone.1, hmem⟩⟩
    · rw [if_neg hdone] at hrel
      simp only [Except.ok.injEq, Prod.mk.injEq] at hrel
      obtain ⟨rfl, rfl⟩ := hrel
      have hkeep : g₁.complete = g.complete := by
        rcases hcomp with hcomp | hcomp
        · exact hcomp
        · exfalso
          apply hdone
          refine ⟨hcomp.2, ?_⟩
          rw [hsame.2, hfin, hcomp.1.1]
          decide
      refine ⟨hsame.1, ?_, Or.inl ⟨rfl, hkeep⟩⟩
      rw [hsame.2, hfin, hkeep]

theorem deliver (h : Inv b s) (hok : OwnLast s (.deliver k p))
    (hs : s.node.stepDeliver k p = .ok node) : Inv b ⟨node, s.flushed⟩ := by
  obtain ⟨l, session, hl, hlinks, hrem, hothers, hcase⟩ := h.deliver_cases hok hs
  have hbal := h.links l (List.mem_of_getElem? hl)
  have hreq : requested b ⟨node, s.flushed⟩ = s.node.removed ++ s.flushed ++ node.buffer b := by
    simp only [requested, hrem]
  rcases hcase with ⟨rfl, hbuf⟩ | ⟨i, g, g', hg, hbuf, hid, hfin, hcase⟩
  · rw [hbuf] at hreq
    refine h.set_link _ hl hlinks hreq rfl (by rw [hbuf]; exact h.segments) hothers
      (fun g hg => Or.inl ⟨g, hg, rfl⟩) ?_ hbal
    intro j l₁ _ _
    exact same_of_perm (List.Perm.refl _)
  have hgall : g ∈ s.requested b := List.mem_append_right _ (List.mem_of_getElem? hg)
  have hsegs : ∀ x ∈ node.buffer b, x.fecFinish = x.complete := by
    intro x hx
    rw [hbuf] at hx
    rcases List.mem_or_eq_of_mem_set hx with hx | rfl
    · exact h.segments x hx
    · exact hfin
  have hall : ∀ x ∈ s.node.removed ++ s.flushed ++ node.buffer b,
      (∃ y ∈ s.requested b, y.sessionID = x.sessionID) ∨ x.sessionID ∈ l.session.sessionMap := by
    intro x hx
    left
    rcases List.mem_append.mp hx with hx | hx
    · exact ⟨x, List.mem_append_left _ hx, rfl⟩
    · rw [hbuf] at hx
      rcases List.mem_or_eq_of_mem_set hx with hx | rfl
      · exact ⟨x, List.mem_append_right _ hx, rfl⟩
      · exact ⟨g, hgall, hid.symm⟩
  rcases hcase with ⟨rfl, hkeep⟩ | ⟨rfl, hgc, hgc', hmem⟩
  · refine h.set_link _ hl hlinks hreq rfl hsegs hothers hall ?_ ?_
    · intro j l₁ _ _
      rw [hbuf]
      exact same_of_set hg hid (Or.inl hkeep)
    · rw [hbuf]
      exact hbal.of_same (same_of_set hg hid (Or.inl hkeep))
  · refine h.set_link _ hl hlinks hreq rfl hsegs hothers hall ?_ ?_
    · intro j l₁ hjk hl₁
      rw [hbuf]
      exact same_of_set hg hid (Or.inr (h.disjoint_of_ne hl hl₁ (Ne.symm hjk) hmem))
    · refine ⟨hbal.nodup, hbal.owners, hbal.infos, ?_, ?_⟩
      · intro hj
        exact absurd hmem ((hbal.waiting hj).2.1 g hgall)
      · intro job hj
        obtain ⟨hb, hi, hcap, hperm⟩ := hbal.running job hj
        refine ⟨hb, hi, hcap, List.Perm.trans ?_ hperm⟩
        show ((l.session.sem ++ [g.sessionID]) ++ owed l.session.sessionMap _).Perm _
        rw [List.append_assoc, hbuf, requested, owed_append _ (_ ++ _), owed_append _ (_ ++ _),
          List.singleton_append]
        refine List.Perm.append_left _ (List.perm_middle.symm.trans (List.Perm.append_left _ ?_))
        exact (owed_set_complete hg hmem hgc hgc').symm

theorem mp2ReadBlock_buffer {m m' : Manager} {data : Bytes}
    (h : m.mp2ReadBlock bufLen b = .ok (m', data)) :
    m' = m ∨ ∃ bb bb' g rest, m.recvBuffer b = some bb ∧ bb.buffer = g :: rest ∧
      m'.recvBuffer = Function.update m.recvBuffer b (some bb') ∧
      (bb'.buffer = rest ∨ ∃ g', bb'.buffer = g' :: rest ∧ g'.sessionID = g.sessionID ∧
        g'.complete = g.complete ∧ g'.fecFinish = g.fecFinish) := by
  unfold Manager.mp2ReadBlock at h
  cases hm : m.recvBuffer b with
  | none => simp [hm] at h
  | some bb =>
    simp only [hm] at h
    cases hb : bb.buffer with
    | nil =>
      simp only [hb] at h
      split_ifs at h
      simp only [Except.ok.injEq, Prod.mk.injEq] at h
      exact Or.inl h.1.symm
    | cons g rest =>
      simp only [hb] at h
      split_ifs at h
      cases hp : g.popData bufLen with
      | error e => simp [hp] at h
      | ok result =>
        obtain ⟨out, complete, g'⟩ := result
        simp only [hp, Except.ok.injEq, Prod.mk.injEq] at h
        obtain ⟨rfl, _⟩ := h
        right
        refine ⟨bb, _, g, rest, rfl, hb, rfl, ?_⟩
        cases complete with
        | true => exact Or.inl rfl
        | false =>
          right
          refine ⟨g', rfl, ?_⟩
          unfold Segment.popData at hp
          dsimp only at hp
          split_ifs at hp
          all_goals
            simp only [Except.ok.injEq, Prod.mk.injEq] at hp
            rw [← hp.2.2]
            exact ⟨rfl, rfl, rfl⟩

theorem read (h : Inv b s) (hs : s.node.stepRead b bufLen = .ok node) : Inv b ⟨node, s.flushed⟩ := by
  obtain ⟨m, data, hr, heq⟩ := stepRead_cases hs
  have hlinks : node.links = s.node.links := by rw [heq]
  have hman : node.manager = m := by rw [heq]
  have hrem : node.removed = if (node.buffer b).length < (s.node.buffer b).length
      then s.node.removed ++ (s.node.buffer b).head?.toList else s.node.removed := by
    rw [heq]
    rfl
  clear heq
  rcases mp2ReadBlock_buffer hr with rfl | ⟨bb, bb', g, rest, hm, hb, hupd, hcase⟩
  · have hbuf : node.buffer b = s.node.buffer b := by simp only [Transfer.buffer, hman]
    rw [hbuf, if_neg (Nat.lt_irrefl _)] at hrem
    refine h.of_same (s.requested b) hlinks ?_ ?_ ?_ (fun g hg => ⟨g, hg, rfl⟩)
      (fun ids => same_of_perm (List.Perm.refl _))
    · simp only [requested, hrem, hbuf]
    · rw [hbuf]
      exact h.segments
    · rw [hman]
      exact h.others
  have hbuf : s.node.buffer b = g :: rest := by rw [buffer_of_some hm, hb]
  have hbuf' : node.buffer b = bb'.buffer := by
    apply buffer_of_some
    rw [hman, hupd, Function.update_self]
  have hothers : ∀ b' ≠ b, node.manager.recvBuffer b' = none := by
    intro b' hb'
    rw [hman, hupd, Function.update_of_ne hb']
    exact h.others b' hb'
  have hsegs : ∀ x ∈ g :: rest, x.fecFinish = x.complete := by
    rw [← hbuf]
    exact h.segments
  rcases hcase with hrest | ⟨g', hrest, hid, hc, hf⟩
  · -- the first segment has been read to its end
    rw [hbuf', hrest, hbuf, if_pos (by simp)] at hrem
    have hperm : (s.node.removed ++ [g] ++ s.flushed ++ rest).Perm (s.requested b) := by
      rw [requested, hbuf, List.append_assoc, List.append_assoc, List.append_assoc,
        List.singleton_append]
      exact List.Perm.append_left _ List.perm_middle.symm
    refine h.of_same _ hlinks ?_ ?_ hothers (fun x hx => ⟨x, hperm.subset hx, rfl⟩)
      (fun ids => same_of_perm hperm)
    · simp only [requested, hrem, hbuf', hrest]
      rfl
    · intro x hx
      rw [hbuf', hrest] at hx
      exact hsegs x (List.mem_cons_of_mem _ hx)
  · have hg : (s.node.buffer b)[0]? = some g := by rw [hbuf]; rfl
    have hset : node.buffer b = (s.node.buffer b).set 0 g' := by rw [hbuf', hrest, hbuf]; rfl
    rw [hset, List.length_set, if_neg (Nat.lt_irrefl _)] at hrem
    refine h.of_same (s.node.removed ++ s.flushed ++ (s.node.buffer b).set 0 g') hlinks ?_ ?_
      hothers ?_ (fun ids => same_of_set hg hid (Or.inl hc))
    · simp only [requested, hrem, hset]
    · intro x hx
      rw [hbuf', hrest] at hx
      rcases List.mem_cons.mp hx with rfl | hx
      · rw [hf, hc]
        exact hsegs g (List.mem_cons_self ..)
      · exact hsegs x (List.mem_cons_of_mem _ hx)
    · intro x hx
      rcases List.mem_append.mp hx with hx | hx
      · exact ⟨x, List.mem_append_left _ hx, rfl⟩
      · rcases List.mem_or_eq_of_mem_set hx with hx | rfl
        · exact ⟨x, List.mem_append_right _ hx, rfl⟩
        · exact ⟨g, List.mem_append_right _ (List.mem_of_getElem? hg), hid.symm⟩

theorem balanced_openLink {all : List Segment} (hids : ids.Nodup) (size : ℕ)
    (hmap : session.sessionMap = ids) (hsem : session.sem = [])
    (hown : session.blockOwners = ids.map fun id => (id, .notKnown))
    (hnew : ∀ g ∈ all, g.sessionID ∉ ids) : Balanced b all (openLink session b size) := by
  subst hmap
  refine ⟨hids, ?_, ?_, ?_, fun job hj => by cases hj⟩
  · show session.blockOwners.map _ = session.sessionMap
    rw [hown, List.map_map]
    exact List.map_id _
  · intro x hx
    obtain ⟨id, hid, rfl⟩ := List.mem_map.mp hx
    exact ⟨hid, rfl⟩
  · intro _
    refine ⟨hsem, hnew, ?_⟩
    show session.blockOwners = _
    rw [hown]
    simp only [openLink, answered, List.map_map, Function.comp_def, List.map_id']
    apply List.map_congr_left
    intro p hp
    rw [if_pos hp]

theorem timeout (h : Inv b s) (hfresh : s.Fresh ids) (hs : s.node.stepTimeout k ids = .ok node) :
    Inv b ⟨node, s.flushed ++ s.node.buffer b⟩ := by
  obtain ⟨l, job, bb, hl, hj, hbuf, hnode⟩ := stepTimeout_cases hs
  have hbal := h.links l (List.mem_of_getElem? hl)
  have hlb := h.block_of_some hbuf
  have hjb := (hbal.running job hj).1
  rw [hlb, hjb] at hnode
  have hnil : node.buffer b = [] := by
    rw [hnode, buffer_of_some (Manager.setRecvBuffer_recvBuffer _ _ _)]
  have hreq : requested b ⟨node, s.flushed ++ s.node.buffer b⟩ = s.requested b := by
    simp only [requested, hnil, List.append_nil, ← List.append_assoc]
    rw [hnode]
  have hlink : node.links = s.node.links.set k { l with firstTimeout := false } ++
      [openLink ((Mp2Session.create ids).findBlock b) b job.blockSize] := by
    rw [hnode]
  -- the old sessions first: only `firstTimeout` has changed
  have hold : Inv b ⟨{ node with links := s.node.links.set k { l with firstTimeout := false } },
      s.flushed ++ s.node.buffer b⟩ := by
    refine h.set_link (s.requested b) hl rfl hreq rfl ?_ ?_ (fun g hg => Or.inl ⟨g, hg, rfl⟩) ?_
      ⟨hbal.nodup, hbal.owners, hbal.infos, hbal.waiting, hbal.running⟩
    · intro g hg
      have : g ∈ node.buffer b := hg
      rw [hnil] at this
      cases this
    · intro b' hb'
      rw [hnode]
      simp only [Manager.setRecvBuffer, Function.update_of_ne hb']
      exact h.others b' hb'
    · intro j l₁ _ _
      exact same_of_perm (List.Perm.refl _)
  have hmaps : ∀ m ∈ (s.node.links.set k { l with firstTimeout := false }).map
      (·.session.sessionMap), List.Disjoint m ids := by
    intro m hm
    obtain ⟨l₁, hl₁, rfl⟩ := List.mem_map.mp hm
    rcases List.mem_or_eq_of_mem_set hl₁ with hl₁ | rfl
    · exact fun id hin hin' => hfresh.2 l₁ hl₁ id hin' hin
    · exact fun id hin hin' => hfresh.2 l (List.mem_of_getElem? hl) id hin' hin
  refine ⟨hold.segments, hold.others, ?_, ?_, ?_⟩
  · show (node.links.map (·.session.sessionMap)).Pairwise List.Disjoint
    rw [hlink, List.map_append, List.pairwise_append]
    refine ⟨hold.disjoint, by simp, ?_⟩
    intro m hm m' hm'
    rw [List.mem_singleton.mp hm']
    exact hmaps m hm
  · intro g hg
    obtain ⟨m, hm, hin⟩ := hold.known g hg
    refine ⟨m, ?_, hin⟩
    show m ∈ node.links.map (·.session.sessionMap)
    rw [hlink, List.map_append]
    exact List.mem_append_left _ hm
  · intro l₁ hl₁
    have hmem : l₁ ∈ node.links := hl₁
    rw [hlink] at hmem
    rcases List.mem_append.mp hmem with hmem | hmem
    · exact hold.links l₁ hmem
    · rw [List.mem_singleton.mp hmem]
      refine balanced_openLink hfresh.1 job.blockSize rfl rfl rfl ?_
      intro g hg hin
      obtain ⟨m, hm, hin'⟩ := hold.known g hg
      exact hmaps m hm hin' hin

theorem step_peers {t t' : Transfer}
    (ha : (∃ p, a = .accept p) ∨ (∃ p i, a = .send p i) ∨ ∃ p c r f, a = .env p c r f)
    (hs : t.step b a = .ok t') :
    t'.links = t.links ∧ t'.manager = t.manager ∧ t'.removed = t.removed := by
  rcases ha with ⟨p, rfl⟩ | ⟨p, i, rfl⟩ | ⟨p, c, r, f, rfl⟩
  · simp only [Transfer.step, stepAccept] at hs
    split at hs
    · cases hs
    · simp only [Except.ok.injEq] at hs
      rw [← hs]
      exact ⟨rfl, rfl, rfl⟩
  · simp only [Transfer.step, stepSend] at hs
    split at hs
    · cases hs
    · split at hs
      · cases hs
      · simp only [Except.ok.injEq] at hs
        rw [← hs]
        exact ⟨rfl, rfl, rfl⟩
  · simp only [Transfer.step, Except.ok.injEq] at hs
    rw [← hs]
    exact ⟨rfl, rfl, rfl⟩

theorem peers (h : Inv b s)
    (ha : (∃ p, a = .accept p) ∨ (∃ p i, a = .send p i) ∨ ∃ p c r f, a = .env p c r f)
    (hs : s.node.step b a = .ok node) : Inv b ⟨node, s.flushed⟩ := by
  obtain ⟨hlinks, hman, hrem⟩ := step_peers ha hs
  have hbuf : node.buffer b = s.node.buffer b := by simp only [Transfer.buffer, hman]
  refine h.of_same (s.requested b) hlinks ?_ ?_ ?_ (fun g hg => ⟨g, hg, rfl⟩)
    (fun ids => same_of_perm (List.Perm.refl _))
  · simp only [requested, hrem, hbuf]
  · rw [hbuf]
    exact h.segments
  · rw [hman]
    exact h.others

theorem step (h : Inv b s) {s' : Ledger} (hok : OwnLast s a) (hs : s.step b a = .ok s') :
    Inv b s' := by
  unfold Ledger.step at hs
  cases hn : s.node.step b a with
  | error e => simp [hn] at hs
  | ok node =>
    simp only [hn] at hs
    cases a with
    | info k id =>
      obtain rfl := Except.ok.inj hs
      exact h.info hn
    | request k =>
      obtain rfl := Except.ok.inj hs
      exact h.request hn
    | accept p =>
      obtain rfl := Except.ok.inj hs
      exact h.peers (Or.inl ⟨p, rfl⟩) hn
    | send p i =>
      obtain rfl := Except.ok.inj hs
      exact h.peers (Or.inr (Or.inl ⟨p, i, rfl⟩)) hn
    | env p c r f =>
      obtain rfl := Except.ok.inj hs
      exact h.peers (Or.inr (Or.inr ⟨p, c, r, f, rfl⟩)) hn
    | deliver k p =>
      obtain rfl := Except.ok.inj hs
      exact h.deliver hok hn
    | read n =>
      obtain rfl := Except.ok.inj hs
      exact h.read hn
    | timeout k ids =>
      dsimp only at hs
      split_ifs at hs with hfresh
      obtain rfl := Except.ok.inj hs
      exact h.timeout hfresh hn

end Inv

theorem init_inv (b : ℕ) (block : Bytes) (hs : sessions.Nodup) : Inv b (init b block sessions) := by
  refine ⟨fun g hg => (by cases hg), fun _ _ => rfl, by simp [init, Transfer.init],
    fun g hg => (by cases hg), ?_⟩
  intro l hl
  rw [List.mem_singleton.mp hl]
  exact Inv.balanced_openLink hs block.length rfl rfl rfl (fun g hg => by cases hg)

theorem inv_of_run {block : Bytes} (hd : sessions.Nodup) {as : List Label} {s : Ledger}
    (h : Run (step b) OwnLast (init b block sessions) as s) : Inv b s :=
  h.invariant (Inv b) (init_inv b block hd) fun _ _ _ hi hok hs => hi.step hok hs

/-! ### What the law gives -/

section
variable {b : ℕ} {s : Ledger}

theorem Inv.count (h : Inv b s) {l : Link} (hl : l ∈ s.node.links) (hj : l.job ≠ none) :
    l.session.sem.length + (owed l.session.sessionMap (s.requested b)).length =
      l.session.blockOwners.length := by
  obtain ⟨job, hj⟩ := Option.ne_none_iff_exists'.mp hj
  have hbal := h.links l hl
  rw [← List.length_append, (hbal.running job hj).2.2.2.length_eq, ← hbal.owners, List.length_map]

theorem Inv.tokens (h : Inv b s) {k p : ℕ} {node : Transfer} (hok : OwnLast s (.deliver k p))
    (hs : s.node.stepDeliver k p = .ok node) {j : ℕ} {l l' : Link}
    (hl : s.node.links[j]? = some l) (hl' : node.links[j]? = some l') :
    l'.session.sem = l.session.sem ++
      ((completions (s.node.buffer b) (node.buffer b)).filter
        (fun g => decide (g.sessionID ∈ l.session.sessionMap))).map (·.sessionID) := by
  obtain ⟨lk, session, hk, hlinks, _, _, hcase⟩ := h.deliver_cases hok hs
  have hlt : k < s.node.links.length := (List.getElem?_eq_some_iff.mp hk).1
  rw [hlinks] at hl'
  rcases hcase with ⟨rfl, hbuf⟩ | ⟨i, g, g', hg, hbuf, _, _, hcase⟩
  · rw [hbuf, completions_self]
    by_cases hjk : j = k
    · subst hjk
      rw [List.getElem?_set_self hlt] at hl'
      rw [hk] at hl
      rw [← Option.some.inj hl', ← Option.some.inj hl]
      simp
    · rw [List.getElem?_set_ne (Ne.symm hjk), hl] at hl'
      rw [← Option.some.inj hl']
      simp
  rw [hbuf, completions_set hg]
  by_cases hjk : j = k
  · subst hjk
    rw [List.getElem?_set_self hlt] at hl'
    rw [hk] at hl
    obtain rfl := Option.some.inj hl'
    obtain rfl := Option.some.inj hl
    rcases hcase with ⟨rfl, hkeep⟩ | ⟨rfl, hgc, hgc', hmem⟩
    · rw [hkeep, if_neg (by cases g.complete <;> simp)]
      simp
    · rw [if_pos ⟨hgc, hgc'⟩]
      simp [hmem]
  · rw [List.getElem?_set_ne (Ne.symm hjk), hl] at hl'
    rw [← Option.some.inj hl']
    rcases hcase with ⟨_, hkeep⟩ | ⟨_, hgc, hgc', hmem⟩
    · rw [hkeep, if_neg (by cases g.complete <;> simp)]
      simp
    · have hother : g.sessionID ∉ l.session.sessionMap :=
        h.disjoint_of_ne hk hl (Ne.symm hjk) hmem
      rw [if_pos ⟨hgc, hgc'⟩]
      simp [hother]

theorem release_ne_blocked {session : Mp2Session} {g : Segment}
    (h : g.complete = true ∧ ¬g.fecFinish = true → session.sem.length < session.semCap) :
    session.release g ≠ .error .blocked := by
  unfold Mp2Session.release
  by_cases hdone : g.complete = true ∧ ¬g.fecFinish = true
  · rw [if_pos hdone, if_pos (h hdone)]
    simp
  · rw [if_neg hdone]
    simp

theorem Inv.not_blocked (h : Inv b s) {k p : ℕ} {l : Link} {packet : BlockDataPacket}
    (hl : s.node.links[k]? = some l) (hc : (s.node.peers p).channel.head? = some packet)
    (hok : OwnLast s (.deliver k p)) :
    l.session.handleBlockDataPacket s.node.manager packet ≠ .error .blocked := by
  have hbal := h.links l (List.mem_of_getElem? hl)
  unfold Mp2Session.handleBlockDataPacket
  cases hbuf : s.node.manager.recvBuffer l.session.blockNumber with
  | none => simp
  | some bb =>
    dsimp only
    cases hi : bb.buffer.findIdx? (·.takes packet) with
    | none => simp
    | some i =>
      obtain ⟨hlt, _, _⟩ := List.findIdx?_eq_some_iff_getElem.mp hi
      have hg := List.getElem?_eq_getElem hlt
      have hall : bb.buffer[i] ∈ s.requested b := by
        apply List.mem_append_right
        rw [buffer_of_some (h.block_of_some hbuf ▸ hbuf)]
        exact List.getElem_mem hlt
      have hroom : ∀ g₁, bb.buffer[i].SameRequest g₁ →
          (g₁.complete = bb.buffer[i].complete ∨
            bb.buffer[i].LastMissing packet.dataNumber ∧ g₁.complete = true) →
          l.session.release g₁ ≠ .error .blocked := by
        intro g₁ hsame hcomp
        apply release_ne_blocked
        intro hdone
        obtain ⟨hgc, hmem⟩ := h.own_of_done hok hl hc hbuf hi hg hsame hcomp hdone
        cases hj : l.job with
        | none => exact absurd hmem ((hbal.waiting hj).2.1 _ hall)
        | some job =>
          obtain ⟨_, _, hcap, hperm⟩ := hbal.running job hj
          have hpos : 0 < (owed l.session.sessionMap (s.requested b)).length := by
            apply List.length_pos_of_mem (a := bb.buffer[i].sessionID)
            apply List.mem_map_of_mem
            simp [hall, hgc, hmem]
          have hlen := hperm.length_eq
          rw [List.length_append] at hlen
          omega
      dsimp only
      rw [hg]
      dsimp only
      unfold Mp2Session.storeBlockData
      split_ifs
      · cases hp : bb.buffer[i].pushData packet.blockNumber packet.dataNumber packet.data with
        | error e =>
          intro he
          obtain rfl := Except.error.inj he
          unfold Segment.pushData at hp
          dsimp only at hp
          split_ifs at hp
          cases hp
        | ok pushed =>
          obtain ⟨hsame, hcomp⟩ := Segment.pushData_sameRequest hp
          have := hroom _ hsame hcomp
          cases hr : l.session.release pushed.1 with
          | error e => simpa [hr] using this
          | ok released => simp [hr]
      · cases hp : bb.buffer[i].pushRedData packet.blockNumber packet.dataNumber packet.data with
        | error e =>
          intro he
          obtain rfl := Except.error.inj he
          unfold Segment.pushRedData at hp
          dsimp only at hp
          split_ifs at hp
          cases hp
        | ok pushed =>
          obtain ⟨hsame, hcomp⟩ := Segment.pushRedData_sameRequest hp
          have := hroom _ hsame (Or.inl hcomp)
          cases hr : l.session.release pushed.1 with
          | error e => simpa [hr] using this
          | ok released => simp [hr]

end

/-- In a run in which every last missing packet is handled by the session that asked for its segment:
the tokens in a session's `sem` and its incomplete segments make up its owners; a handled packet puts
just the IDs of the segments that it completes into the `sem`s of the sessions that asked for them; and
the send on `sem` does not wait. -/
theorem tokens_return (b : ℕ) (block : Bytes) (sessions : List ℕ) (hd : sessions.Nodup)
    {as : List Label} {s : Ledger} (h : Run (step b) OwnLast (init b block sessions) as s) :
    (∀ l ∈ s.node.links, l.job ≠ none →
      l.session.sem.length + (owed l.session.sessionMap (s.requested b)).length =
        l.session.blockOwners.length) ∧
    (∀ k p s', OwnLast s (.deliver k p) → s.step b (.deliver k p) = .ok s' →
      ∀ (j : ℕ) (l l' : Link), s.node.links[j]? = some l → s'.node.links[j]? = some l' →
        l'.session.sem = l.session.sem ++
          ((completions (s.node.buffer b) (s'.node.buffer b)).filter
            (fun g => decide (g.sessionID ∈ l.session.sessionMap))).map (·.sessionID)) ∧
    (∀ k p l packet, OwnLast s (.deliver k p) → s.node.links[k]? = some l →
      (s.node.peers p).channel.head? = some packet →
        l.session.handleBlockDataPacket s.node.manager packet ≠ .error .blocked) := by
  have hinv := inv_of_run hd h
  refine ⟨fun l hl hj => hinv.count hl hj, ?_, ?_⟩
  · intro k p s' hok hs j l l' hl hl'
    unfold step at hs
    cases hn : s.node.step b (.deliver k p) with
    | error e => simp [hn] at hs
    | ok node =>
      simp only [hn, Except.ok.injEq] at hs
      subst hs
      exact hinv.tokens hok hn hl hl'
  · intro k p l packet hok hl hc
    exact hinv.not_blocked hl hc hok

theorem tokens_return_one_byte : ∃ (s : Ledger) (l : Link), s.node.links = [l] ∧
    l.session.sem = [3] ∧
    l.session.sem.length + (owed l.session.sessionMap (s.requested 1)).length =
      l.session.blockOwners.length := by
  have hrun : Run (step 1) OwnLast (init 1 [5] [3]) parentOnly _ :=
    Run.of_exec parentOnly (by decide) rfl
  exact ⟨_, _, rfl, rfl,
    (tokens_return 1 [5] [3] (by decide) hrun).1 _ (List.mem_singleton_self _) (by decide)⟩

/- The parent's packet is late: it completes the segment that the pull session has asked for,
and the token of the pull session goes to the parent's `sem`. -/
theorem token_lost_by_late_parent : ∃ (s : Ledger) (l l' : Link),
    Run (step 1) always (init 1 [5] [3]) (lateParent.take 18) s ∧
      s.node.links = [l, l'] ∧ l.session.sem = [4] ∧ l.session.sessionMap = [3] ∧
      l'.job ≠ none ∧
      l'.session.sem.length + (owed l'.session.sessionMap (s.requested 1)).length ≠
        l'.session.blockOwners.length :=
  ⟨_, _, _, Run.of_exec _ (Guarded.always _) rfl, rfl, by decide, by decide, by decide, by decide⟩

end Ledger

end Mp2bs.Block
