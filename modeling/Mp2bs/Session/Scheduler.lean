import Mp2bs.Lib.Loop
import Mp2bs.Lib.Machine
import Mp2bs.Session.RecvBuffer

/-!
# The scheduler of a session (`session/session_scheduler.go`)

`Scheduling` selects the path of a data packet by weighted round robin. The paths are added one
after another while data is sent, and the monitor switches between multipath and fewer paths. A
call of a function and a turn of the loop of `startMonitoring` are one step each.
-/

namespace Mp2bs.Session
open Mp2bs.Lib Mp2bs.Lib.Machine

/-- The values of `schedulerType` that `Scheduling` tells apart. -/
inductive SchedulerType where
  | userWrr
  | netWrr
  | other
  deriving Repr, DecidableEq

abbrev remainingBytesResetThresh : ℕ := dataPacketPayloadSize / 8

structure SessionScheduler where
  schedulerType : SchedulerType
  numPath : ℕ
  weight : List ℕ
  remainingBytes : List ℕ
  currentPath : ℕ
  usePath : ℕ
  multipath : Bool
  deriving Repr, DecidableEq

/-- `CreateSessionScheduler` (27-48); `conf` is `CONFIG_USER_WRR_WEIGHT`. -/
def createSessionScheduler (schedType : SchedulerType) (conf : List ℕ) : SessionScheduler where
  schedulerType := schedType
  numPath := 0
  weight := if schedType = .userWrr then conf else []
  remainingBytes := []
  currentPath := 0
  usePath := 0
  multipath := true

namespace SessionScheduler

def budget (c : SessionScheduler) (i : ℕ) : Except Stop ℕ :=
  match c.weight[i]? with
  | some w => .ok (u32 (w * dataPacketPayloadSize))
  | none => .error .panic

def resetBudget (c : SessionScheduler) (i : ℕ) : Except Stop SessionScheduler := do
  let full ← c.budget i
  if i < c.remainingBytes.length then
    return { c with remainingBytes := c.remainingBytes.set i full }
  else .error .panic

/-- The last path in use becomes the current one (61-64, 139-142). With
`usePath = 0` its index is -1. -/
def enterLastPath (c : SessionScheduler) : Except Stop SessionScheduler :=
  if c.usePath = 0 then .error .panic
  else do
    let remainBytesOfNewPath ← c.budget (c.usePath - 1)
    return { c with
      currentPath := c.usePath - 1
      remainingBytes := c.remainingBytes ++ [remainBytesOfNewPath] }

/-- The end of `SetNumPath` and of `scheduling_path` (54-64, 132-142). -/
def changePath (c : SessionScheduler) : Except Stop SessionScheduler :=
  (if c.usePath > 1 then c.resetBudget c.currentPath else .ok c) >>= enterLastPath

/-- `SetNumPath` (50-67). -/
def setNumPath (c : SessionScheduler) (numPath : ℕ) : Except Stop SessionScheduler :=
  changePath { c with numPath := numPath, usePath := numPath }

/-- The turn of the current path is over (102-106). -/
def endTurn (c : SessionScheduler) : Except Stop (ℕ × SessionScheduler) :=
  if c.usePath = 0 then .error .panic
  else .ok (c.currentPath, { c with currentPath := (c.currentPath + 1) % c.usePath })

/-- `scheduling_user_wrr` (88-107). -/
def schedulingUserWrr (c : SessionScheduler) (payloadSize : ℕ) :
    Except Stop (ℕ × SessionScheduler) :=
  match c.remainingBytes[c.currentPath]? with
  | none => .error .panic
  | some remaining =>
    let remaining := if remaining ≥ payloadSize then remaining - payloadSize else 0
    let c := { c with remainingBytes := c.remainingBytes.set c.currentPath remaining }
    if remaining ≤ remainingBytesResetThresh then c.resetBudget c.currentPath >>= endTurn
    else .ok (c.currentPath, c)

/-- `scheduling_net_wrr` (110-112). -/
def schedulingNetWrr (c : SessionScheduler) (_payloadSize : ℕ) :
    Except Stop (ℕ × SessionScheduler) :=
  .ok (0, c)

/-- `Scheduling` (70-85). -/
def scheduling (c : SessionScheduler) (payloadSize : ℕ) : Except Stop (ℕ × SessionScheduler) :=
  match c.schedulerType with
  | .userWrr => c.schedulingUserWrr payloadSize
  | .netWrr => c.schedulingNetWrr payloadSize
  | .other => c.schedulingUserWrr payloadSize

/-- `scheduling_path` (114-145). -/
def schedulingPath (c : SessionScheduler) : Except Stop SessionScheduler :=
  if c.multipath then
    if c.numPath > 1 then changePath { c with usePath := c.numPath } else .ok c
  else
    if c.usePath > 1 then changePath { c with usePath := c.usePath - 1 } else .ok c

/-- A turn of the loop of `startMonitoring` (150-177); `decision` is the
result of `compareThroughput` or of `compareRemainingTime`. -/
def monitor (c : SessionScheduler) (decision : Bool) : Except Stop SessionScheduler :=
  if decision then
    if !c.multipath then schedulingPath { c with multipath := true } else .ok c
  else
    if c.multipath then schedulingPath { c with multipath := false } else .ok c

def schedulings (c : SessionScheduler) : List ℕ → Except Stop (List (ℕ × ℕ) × SessionScheduler)
  | [] => .ok ([], c)
  | payloadSize :: rest => do
    let (path, c) ← c.scheduling payloadSize
    let (selected, c) ← c.schedulings rest
    return ((path, payloadSize) :: selected, c)

end SessionScheduler

/-- The streams of a session and its scheduler (`session.go:21-41`). A stream is a number. -/
structure Paths where
  numPath : ℕ
  streamList : List ℕ
  scheduler : SessionScheduler
  deriving Repr, DecidableEq

namespace Paths

def create (schedType : SchedulerType) (conf : List ℕ) : Paths :=
  ⟨0, [], createSessionScheduler schedType conf⟩

/-- `s.scheduler.SetNumPath(s.numPath)`, in `AddStream` for an accepted stream and in
`handleHelloAckPacket` for one that was dialed (`session.go:131, 377`). -/
def setNumPath (s : Paths) : Except Stop Paths := do
  let scheduler ← s.scheduler.setNumPath s.numPath
  return { s with scheduler := scheduler }

/-- `AddStream` (`session.go:119-135`). -/
def addStream (s : Paths) (stream : ℕ) (accepted : Bool) : Except Stop Paths :=
  let s := { s with streamList := s.streamList ++ [stream], numPath := s.numPath + 1 }
  if accepted then s.setNumPath else .ok s

inductive Label where
  | addStream (stream : ℕ) (accepted : Bool)
  | helloAck
  | scheduling (payloadSize : ℕ)
  | monitor (decision : Bool)
  deriving Repr, DecidableEq

def step (s : Paths) : Label → Except Stop Paths
  | .addStream stream accepted => s.addStream stream accepted
  | .helloAck => s.setNumPath
  | .scheduling payloadSize => do
    let (_, scheduler) ← s.scheduler.scheduling payloadSize
    return { s with scheduler := scheduler }
  | .monitor decision => do
    let scheduler ← s.scheduler.monitor decision
    return { s with scheduler := scheduler }

def newNumPath (s : Paths) : Label → Option ℕ
  | .addStream _ accepted => if accepted then some (s.numPath + 1) else none
  | .helloAck => some s.numPath
  | .scheduling _ | .monitor _ => none

def Label.payloadSize : Label → Option ℕ
  | .scheduling payloadSize => some payloadSize
  | .addStream _ _ | .helloAck | .monitor _ => none

/-- The calls of `SetNumPath` are those with 1, 2, …, and `Scheduling` is called after the first. -/
def InOrder (s : Paths) (a : Label) : Prop :=
  (∀ k ∈ s.newNumPath a, k = s.scheduler.numPath + 1) ∧
    ∀ _payloadSize ∈ a.payloadSize, 1 ≤ s.scheduler.numPath

instance (s : Paths) (a : Label) : Decidable (InOrder s a) :=
  inferInstanceAs (Decidable (_ ∧ _))

end Paths

/-! ### What each function leaves -/

namespace SessionScheduler

variable {c c' : SessionScheduler} {i w path : ℕ}

theorem budget_eq (hw : c.weight[i]? = some w) :
    c.budget i = .ok (u32 (w * dataPacketPayloadSize)) := by
  rw [budget, hw]

theorem resetBudget_eq (hw : c.weight[i]? = some w) (hr : i < c.remainingBytes.length) :
    c.resetBudget i = .ok { c with
      remainingBytes := c.remainingBytes.set i (u32 (w * dataPacketPayloadSize)) } := by
  rw [resetBudget, budget_eq hw]
  exact if_pos hr

theorem resetBudget_cases (h : c.resetBudget i = .ok c') :
    ∃ rb, c' = { c with remainingBytes := rb } ∧ rb.length = c.remainingBytes.length := by
  obtain ⟨full, -, h⟩ := bind_eq_ok.mp h
  split at h
  · cases h
    exact ⟨_, rfl, List.length_set⟩
  · cases h

theorem changePath_cases (h : c.changePath = .ok c') :
    ∃ rb, 1 ≤ c.usePath ∧ c' = { c with currentPath := c.usePath - 1, remainingBytes := rb } ∧
      rb.length = c.remainingBytes.length + 1 := by
  unfold changePath at h
  obtain ⟨c₁, hreset, h⟩ := bind_eq_ok.mp h
  obtain ⟨rb, rfl, hlen⟩ : ∃ rb, c₁ = { c with remainingBytes := rb } ∧
      rb.length = c.remainingBytes.length := by
    split at hreset
    · exact resetBudget_cases hreset
    · cases hreset
      exact ⟨_, rfl, rfl⟩
  unfold enterLastPath at h
  by_cases hzero : c.usePath = 0
  · rw [if_pos hzero] at h
    cases h
  · rw [if_neg hzero] at h
    obtain ⟨new, -, h⟩ := bind_eq_ok.mp h
    cases h
    refine ⟨_, Nat.one_le_iff_ne_zero.mpr hzero, rfl, ?_⟩
    rw [List.length_append, hlen, List.length_singleton]

theorem enterLastPath_eq (hpos : 1 ≤ c.usePath) (hw : c.weight[c.usePath - 1]? = some w) :
    c.enterLastPath = .ok { c with
      currentPath := c.usePath - 1
      remainingBytes := c.remainingBytes ++ [u32 (w * dataPacketPayloadSize)] } := by
  rw [enterLastPath, if_neg (by omega), budget_eq hw]
  rfl

theorem changePath_eq {v : ℕ} (hone : 1 < c.usePath) (hv : c.weight[c.currentPath]? = some v)
    (hr : c.currentPath < c.remainingBytes.length) (hw : c.weight[c.usePath - 1]? = some w) :
    c.changePath = .ok { c with
      currentPath := c.usePath - 1
      remainingBytes := c.remainingBytes.set c.currentPath (u32 (v * dataPacketPayloadSize)) ++
        [u32 (w * dataPacketPayloadSize)] } := by
  rw [changePath, if_pos hone, resetBudget_eq hv hr]
  exact enterLastPath_eq (c := { c with remainingBytes := _ }) hone.le hw

theorem changePath_first (hone : c.usePath = 1) (hw : c.weight[c.usePath - 1]? = some w) :
    c.changePath = .ok { c with
      currentPath := c.usePath - 1
      remainingBytes := c.remainingBytes ++ [u32 (w * dataPacketPayloadSize)] } := by
  rw [changePath, if_neg (by omega)]
  exact enterLastPath_eq hone.ge hw

theorem changePath_ok (hpos : 1 ≤ c.usePath) (hw : c.usePath ≤ c.weight.length)
    (hcur : 1 < c.usePath → c.currentPath < c.weight.length ∧ c.currentPath < c.remainingBytes.length)
    : ∃ c', c.changePath = .ok c' := by
  have hnew : c.usePath - 1 < c.weight.length := by omega
  rcases Nat.lt_or_ge 1 c.usePath with hone | hone
  · exact ⟨_, changePath_eq hone (List.getElem?_eq_getElem (hcur hone).1) (hcur hone).2
      (List.getElem?_eq_getElem hnew)⟩
  · exact ⟨_, changePath_first (by omega) (List.getElem?_eq_getElem hnew)⟩

theorem schedulingUserWrr_cases {payloadSize : ℕ}
    (h : c.schedulingUserWrr payloadSize = .ok (path, c')) :
    ∃ rb cur, c' = { c with currentPath := cur, remainingBytes := rb } ∧
      rb.length = c.remainingBytes.length ∧ path = c.currentPath ∧
      (cur = c.currentPath ∨ cur < c.usePath) := by
  unfold schedulingUserWrr at h
  split at h
  · cases h
  · rename_i remaining hremaining
    dsimp only at h
    generalize (if remaining ≥ payloadSize then remaining - payloadSize else 0) = remaining' at h
    split at h
    · obtain ⟨c₁, hreset, h⟩ := bind_eq_ok.mp h
      obtain ⟨rb, rfl, hlen⟩ := resetBudget_cases hreset
      unfold endTurn at h
      by_cases hzero : c.usePath = 0
      · rw [if_pos hzero] at h
        cases h
      · rw [if_neg hzero] at h
        cases h
        exact ⟨rb, _, rfl, by rw [hlen, List.length_set], rfl,
          .inr (Nat.mod_lt _ (Nat.pos_of_ne_zero hzero))⟩
    · cases h
      exact ⟨_, _, rfl, List.length_set, rfl, .inl rfl⟩

theorem scheduling_cases {payloadSize : ℕ} (h : c.scheduling payloadSize = .ok (path, c')) :
    ∃ rb cur, c' = { c with currentPath := cur, remainingBytes := rb } ∧
      rb.length = c.remainingBytes.length ∧ (path = c.currentPath ∨ path = 0) ∧
      (cur = c.currentPath ∨ cur < c.usePath) := by
  have hwrr : c.schedulingUserWrr payloadSize = .ok (path, c') →
      ∃ rb cur, c' = { c with currentPath := cur, remainingBytes := rb } ∧
        rb.length = c.remainingBytes.length ∧ (path = c.currentPath ∨ path = 0) ∧
        (cur = c.currentPath ∨ cur < c.usePath) := by
    intro h
    obtain ⟨rb, cur, hc, hlen, hpath, hcur⟩ := schedulingUserWrr_cases h
    exact ⟨rb, cur, hc, hlen, .inl hpath, hcur⟩
  unfold scheduling at h
  split at h
  · exact hwrr h
  · cases h
    exact ⟨_, _, rfl, rfl, .inr rfl, .inl rfl⟩
  · exact hwrr h

theorem schedulingUserWrr_eq {r : ℕ} (hr : c.remainingBytes[c.currentPath]? = some r)
    (hw : c.weight[c.currentPath]? = some w) (huse : 1 ≤ c.usePath) (payloadSize : ℕ) :
    c.schedulingUserWrr payloadSize = .ok (c.currentPath,
      if r - payloadSize ≤ remainingBytesResetThresh then
        { c with
          currentPath := (c.currentPath + 1) % c.usePath
          remainingBytes := c.remainingBytes.set c.currentPath (u32 (w * dataPacketPayloadSize)) }
      else { c with remainingBytes := c.remainingBytes.set c.currentPath (r - payloadSize) }) := by
  have hcur : c.currentPath < c.remainingBytes.length := (List.getElem?_eq_some_iff.mp hr).1
  have hsub : (if r ≥ payloadSize then r - payloadSize else 0) = r - payloadSize := by
    split <;> omega
  have hreset := resetBudget_eq (c := { c with
    remainingBytes := c.remainingBytes.set c.currentPath (r - payloadSize) }) hw
    (by rw [List.length_set]; exact hcur)
  unfold schedulingUserWrr
  rw [hr]
  dsimp only
  rw [hsub]
  split
  · rw [hreset, List.set_set]
    exact if_neg (Nat.one_le_iff_ne_zero.mp huse)
  · rfl

theorem scheduling_ok (hcur : c.currentPath < c.remainingBytes.length)
    (hw : c.currentPath < c.weight.length) (huse : 1 ≤ c.usePath) (payloadSize : ℕ) :
    ∃ r, c.scheduling payloadSize = .ok r := by
  have hwrr := schedulingUserWrr_eq (List.getElem?_eq_getElem hcur) (List.getElem?_eq_getElem hw)
    huse payloadSize
  unfold scheduling
  split
  · exact ⟨_, hwrr⟩
  · exact ⟨_, rfl⟩
  · exact ⟨_, hwrr⟩

theorem schedulingPath_cases (h : c.schedulingPath = .ok c') :
    (c' = c ∧ if c.multipath then c.numPath ≤ 1 else c.usePath ≤ 1) ∨
      (changePath { c with usePath := if c.multipath then c.numPath else c.usePath - 1 } = .ok c' ∧
        if c.multipath then 1 < c.numPath else 1 < c.usePath) := by
  unfold schedulingPath at h
  by_cases hmode : c.multipath = true
  · rw [if_pos hmode] at h ⊢
    rw [if_pos hmode, if_pos hmode]
    by_cases hmany : c.numPath > 1
    · rw [if_pos hmany] at h
      exact .inr ⟨h, hmany⟩
    · rw [if_neg hmany] at h
      cases h
      exact .inl ⟨rfl, Nat.le_of_not_lt hmany⟩
  · rw [if_neg hmode] at h ⊢
    rw [if_neg hmode, if_neg hmode]
    by_cases hmany : c.usePath > 1
    · rw [if_pos hmany] at h
      exact .inr ⟨h, hmany⟩
    · rw [if_neg hmany] at h
      cases h
      exact .inl ⟨rfl, Nat.le_of_not_lt hmany⟩

theorem monitor_eq (c : SessionScheduler) (decision : Bool) :
    c.monitor decision = if c.multipath = decision then .ok c
      else schedulingPath { c with multipath := decision } := by
  unfold monitor
  cases hmode : c.multipath <;> cases decision <;> rfl

/-! ### Indices -/

structure Started (c : SessionScheduler) : Prop where
  usePath_pos : 1 ≤ c.usePath
  usePath_le : c.usePath ≤ c.numPath
  currentPath_lt : c.currentPath < c.usePath
  numPath_le : c.numPath ≤ c.remainingBytes.length

def Safe (c : SessionScheduler) : Prop := (c.numPath = 0 ∧ c.usePath = 0) ∨ c.Started

theorem Safe.started (h : c.Safe) (hpos : 1 ≤ c.numPath) : c.Started := by
  rcases h with ⟨hzero, _⟩ | h
  · omega
  · exact h

theorem Safe.setMode (h : c.Safe) (decision : Bool) : Safe { c with multipath := decision } := by
  rcases h with h | h
  · exact .inl h
  · exact .inr ⟨h.usePath_pos, h.usePath_le, h.currentPath_lt, h.numPath_le⟩

theorem changePath_started (h : c.changePath = .ok c') (huse : c.usePath ≤ c.numPath)
    (hlen : c.numPath ≤ c.remainingBytes.length + 1) :
    c'.Started ∧ c'.numPath = c.numPath ∧ c'.usePath = c.usePath ∧ c'.multipath = c.multipath ∧
      c'.weight = c.weight := by
  obtain ⟨rb, hpos, rfl, hrb⟩ := changePath_cases h
  exact ⟨⟨hpos, huse, Nat.sub_one_lt_of_lt hpos, by rw [hrb]; exact hlen⟩, rfl, rfl, rfl, rfl⟩

theorem setNumPath_started (hc : c.Safe) (h : c.setNumPath (c.numPath + 1) = .ok c') :
    c'.Started ∧ c'.numPath = c.numPath + 1 ∧ c'.usePath = c.numPath + 1 ∧
      c'.multipath = c.multipath ∧ c'.weight = c.weight := by
  refine changePath_started h (Nat.le_refl _) ?_
  rcases hc with ⟨hzero, _⟩ | hc
  · simp [hzero]
  · exact Nat.add_le_add_right hc.numPath_le 1

theorem scheduling_safe {payloadSize : ℕ} (hc : c.Safe)
    (h : c.scheduling payloadSize = .ok (path, c')) :
    c'.Safe ∧ c'.numPath = c.numPath ∧ c'.usePath = c.usePath ∧ c'.multipath = c.multipath ∧
      c'.weight = c.weight := by
  obtain ⟨rb, cur, rfl, hlen, _, hcur⟩ := scheduling_cases h
  refine ⟨?_, rfl, rfl, rfl, rfl⟩
  rcases hc with hc | hc
  · exact .inl hc
  · have hlt : cur < c.usePath := by
      rcases hcur with rfl | hcur
      · exact hc.currentPath_lt
      · exact hcur
    exact .inr ⟨hc.usePath_pos, hc.usePath_le, hlt, by rw [hlen]; exact hc.numPath_le⟩

/-- The number of paths in use after a turn of the monitor that changes the mode. -/
def usePathAfter (c : SessionScheduler) (decision : Bool) : ℕ :=
  if decision then c.numPath else c.usePath - 1

theorem monitor_safe {decision : Bool} (hc : c.Safe) (h : c.monitor decision = .ok c') :
    c'.Safe ∧ c'.numPath = c.numPath ∧ c'.multipath = decision ∧ c'.weight = c.weight ∧
      ((c.multipath = decision ∧ c'.usePath = c.usePath) ∨
        c.multipath ≠ decision ∧
          (((if decision then c.numPath ≤ 1 else c.usePath ≤ 1) ∧ c'.usePath = c.usePath) ∨
            ((if decision then 1 < c.numPath else 1 < c.usePath) ∧
              c'.usePath = c.usePathAfter decision))) := by
  rw [monitor_eq] at h
  split at h
  · rename_i hsame
    cases h
    exact ⟨hc, rfl, hsame, rfl, .inl ⟨hsame, rfl⟩⟩
  · rename_i hmode
    rcases schedulingPath_cases h with ⟨rfl, hfew⟩ | ⟨h, hmany⟩
    · exact ⟨hc.setMode decision, rfl, rfl, rfl, .inr ⟨hmode, .inl ⟨hfew, rfl⟩⟩⟩
    · have hstarted : c.Started := by
        rcases hc with ⟨hnum, huse⟩ | hc
        · dsimp only at hmany
          split at hmany <;> omega
        · exact hc
      have huse : c.usePathAfter decision ≤ c.numPath := by
        have hle := hstarted.usePath_le
        unfold usePathAfter
        split <;> omega
      obtain ⟨hsafe, hnum, huse', hmode', hweight⟩ := changePath_started h huse
        (Nat.le_succ_of_le hstarted.numPath_le)
      exact ⟨.inr hsafe, hnum, hmode', hweight, .inr ⟨hmode, .inr ⟨hmany, huse'⟩⟩⟩

theorem setNumPath_ok (hc : c.Safe) (hw : c.numPath + 1 ≤ c.weight.length) :
    ∃ c', c.setNumPath (c.numPath + 1) = .ok c' := by
  refine changePath_ok (Nat.le_add_left 1 _) hw fun hone => ?_
  have hstarted := hc.started (Nat.lt_of_succ_lt_succ hone)
  have h1 := hstarted.currentPath_lt
  have h2 := hstarted.usePath_le
  have h3 := hstarted.numPath_le
  exact ⟨by dsimp only; omega, by dsimp only; omega⟩

theorem schedulingPath_ok (hc : c.Safe) (hw : c.numPath ≤ c.weight.length) :
    ∃ c', c.schedulingPath = .ok c' := by
  have hchange : ∀ u, 1 ≤ u → u ≤ c.numPath → ∃ c', changePath { c with usePath := u } = .ok c' := by
    intro u hpos hle
    have hstarted := hc.started (hpos.trans hle)
    have h1 := hstarted.usePath_le
    have h2 := hstarted.currentPath_lt
    have h3 := hstarted.numPath_le
    exact changePath_ok hpos (hle.trans hw) fun _ => ⟨by dsimp only; omega, by dsimp only; omega⟩
  unfold schedulingPath
  split
  · split
    · exact hchange c.numPath (by omega) (Nat.le_refl _)
    · exact ⟨c, rfl⟩
  · split
    · rename_i hmany
      have hle : c.usePath ≤ c.numPath := by
        rcases hc with ⟨_, hzero⟩ | hc
        · omega
        · exact hc.usePath_le
      exact hchange (c.usePath - 1) (by omega) (by omega)
    · exact ⟨c, rfl⟩

theorem monitor_ok (hc : c.Safe) (hw : c.numPath ≤ c.weight.length) (decision : Bool) :
    ∃ c', c.monitor decision = .ok c' := by
  rw [monitor_eq]
  split
  · exact ⟨c, rfl⟩
  · exact schedulingPath_ok (hc.setMode decision) hw

end SessionScheduler

namespace Paths
open SessionScheduler

variable {s s' : Paths} {a : Label}

theorem setNumPath_cases (h : s.setNumPath = .ok s') :
    s.scheduler.setNumPath s.numPath = .ok s'.scheduler ∧ s'.numPath = s.numPath ∧
      s'.streamList = s.streamList := by
  obtain ⟨scheduler, hset, h⟩ := bind_eq_ok.mp h
  cases h
  exact ⟨hset, rfl, rfl⟩

theorem step_cases (h : step s a = .ok s') :
    (∃ k, s.newNumPath a = some k ∧ s.scheduler.setNumPath k = .ok s'.scheduler ∧
        s'.numPath = k) ∨
      (s.newNumPath a = none ∧ s.numPath ≤ s'.numPath ∧
        ((∃ payloadSize path, s.scheduler.scheduling payloadSize = .ok (path, s'.scheduler)) ∨
          (∃ decision, s.scheduler.monitor decision = .ok s'.scheduler) ∨
            s'.scheduler = s.scheduler)) := by
  cases a with
  | addStream stream accepted =>
    cases accepted with
    | true =>
      obtain ⟨hset, hnum, _⟩ := setNumPath_cases h
      exact .inl ⟨_, rfl, hset, hnum⟩
    | false =>
      cases h
      exact .inr ⟨rfl, Nat.le_succ _, .inr (.inr rfl)⟩
  | helloAck =>
    obtain ⟨hset, hnum, _⟩ := setNumPath_cases h
    exact .inl ⟨_, rfl, hset, hnum⟩
  | scheduling payloadSize =>
    obtain ⟨⟨path, scheduler⟩, hsched, h⟩ := bind_eq_ok.mp h
    cases h
    exact .inr ⟨rfl, Nat.le_refl _, .inl ⟨_, _, hsched⟩⟩
  | monitor decision =>
    obtain ⟨scheduler, hmon, h⟩ := bind_eq_ok.mp h
    cases h
    exact .inr ⟨rfl, Nat.le_refl _, .inr (.inl ⟨_, hmon⟩)⟩

theorem step_streams (h : step s a = .ok s') (hs : s.streamList.length = s.numPath) :
    s'.streamList.length = s'.numPath := by
  cases a with
  | addStream stream accepted =>
    have hlen : (s.streamList ++ [stream]).length = s.numPath + 1 := by
      rw [List.length_append, hs, List.length_singleton]
    cases accepted with
    | true =>
      obtain ⟨_, hnum, hstreams⟩ := setNumPath_cases h
      rw [hnum, hstreams]
      exact hlen
    | false =>
      cases h
      exact hlen
  | helloAck =>
    obtain ⟨_, hnum, hstreams⟩ := setNumPath_cases h
    rw [hnum, hstreams]
    exact hs
  | scheduling payloadSize | monitor decision =>
    obtain ⟨_, _, h⟩ := bind_eq_ok.mp h
    cases h
    exact hs

/-- The calls of `SetNumPath` pass at most the number of weights. -/
def Weighted (s : Paths) (a : Label) : Prop :=
  ∀ k ∈ s.newNumPath a, k ≤ s.scheduler.weight.length

instance (s : Paths) (a : Label) : Decidable (Weighted s a) :=
  inferInstanceAs (Decidable (∀ k ∈ s.newNumPath a, _))

structure Inv (s : Paths) : Prop where
  safe : s.scheduler.Safe
  streams : s.streamList.length = s.numPath
  paths : s.scheduler.numPath ≤ s.numPath
  weights : s.scheduler.numPath ≤ s.scheduler.weight.length

theorem safe_step (hs : s.scheduler.Safe) (hord : InOrder s a) (h : step s a = .ok s') :
    s'.scheduler.Safe := by
  rcases step_cases h with ⟨k, hk, hset, _⟩ | ⟨_, _, ⟨_, _, hsched⟩ | ⟨_, hmon⟩ | heq⟩
  · rw [hord.1 k hk] at hset
    exact .inr (setNumPath_started hs hset).1
  · exact (scheduling_safe hs hsched).1
  · exact (monitor_safe hs hmon).1
  · rw [heq]
    exact hs

theorem Inv.step (hs : s.Inv) (hord : InOrder s a) (hw : Weighted s a) (h : step s a = .ok s') :
    s'.Inv := by
  have hsafe := safe_step hs.safe hord h
  have hstreams := step_streams h hs.streams
  rcases step_cases h with ⟨k, hk, hset, hnum⟩ | ⟨_, hle, hrest⟩
  · have hkle := hw k hk
    rw [hord.1 k hk] at hset hnum hkle
    obtain ⟨_, hnum', _, _, hweight⟩ := setNumPath_started hs.safe hset
    exact ⟨hsafe, hstreams, by omega, by rw [hweight]; omega⟩
  · have hframe : s'.scheduler.numPath = s.scheduler.numPath ∧
        s'.scheduler.weight = s.scheduler.weight := by
      rcases hrest with ⟨_, _, hsched⟩ | ⟨_, hmon⟩ | heq
      · obtain ⟨_, hnum, _, _, hweight⟩ := scheduling_safe hs.safe hsched
        exact ⟨hnum, hweight⟩
      · obtain ⟨_, hnum, _, hweight, _⟩ := monitor_safe hs.safe hmon
        exact ⟨hnum, hweight⟩
      · rw [heq]
        exact ⟨rfl, rfl⟩
    refine ⟨hsafe, hstreams, ?_, ?_⟩
    · rw [hframe.1]
      exact hs.paths.trans hle
    · rw [hframe.1, hframe.2]
      exact hs.weights

theorem create_inv (schedType : SchedulerType) (conf : List ℕ) : (create schedType conf).Inv :=
  ⟨.inl ⟨rfl, rfl⟩, rfl, Nat.le_refl _, Nat.zero_le _⟩

theorem Inv.scheduling_path (hs : s.Inv) (hpos : 1 ≤ s.scheduler.numPath) (payloadSize : ℕ) :
    ∃ path scheduler,
      s.scheduler.scheduling payloadSize = .ok (path, scheduler) ∧ path < s.streamList.length := by
  have hstarted := hs.safe.started hpos
  have h1 := hstarted.currentPath_lt
  have h2 := hstarted.usePath_le
  have h3 := hstarted.numPath_le
  have h4 := hs.weights
  have h5 := hs.paths
  have h6 := hs.streams
  obtain ⟨⟨path, scheduler⟩, hsched⟩ := scheduling_ok (c := s.scheduler) (by omega) (by omega)
    hstarted.usePath_pos payloadSize
  obtain ⟨_, _, _, _, hpath, _⟩ := scheduling_cases hsched
  exact ⟨path, scheduler, hsched, by omega⟩

theorem Inv.step_ok (hs : s.Inv) (hord : InOrder s a) (hw : Weighted s a) :
    ∃ s', Paths.step s a = .ok s' := by
  have hset : ∀ t : Paths, t.scheduler = s.scheduler → s.newNumPath a = some t.numPath →
      ∃ s', t.setNumPath = .ok s' := by
    intro t hsched hnum
    have hle := hw _ hnum
    have hnext := hord.1 _ hnum
    obtain ⟨scheduler, hset⟩ := setNumPath_ok hs.safe (by rw [← hnext]; exact hle)
    refine ⟨{ t with scheduler := scheduler }, ?_⟩
    rw [Paths.setNumPath, hsched, hnext, hset]
    rfl
  cases a with
  | addStream stream accepted =>
    cases accepted with
    | true => exact hset ⟨s.numPath + 1, s.streamList ++ [stream], s.scheduler⟩ rfl rfl
    | false => exact ⟨_, rfl⟩
  | helloAck => exact hset s rfl rfl
  | scheduling payloadSize =>
    obtain ⟨path, scheduler, hsched, _⟩ := hs.scheduling_path (hord.2 payloadSize rfl) payloadSize
    exact ⟨{ s with scheduler := scheduler }, by rw [Paths.step, hsched]; rfl⟩
  | monitor decision =>
    obtain ⟨scheduler, hmon⟩ := monitor_ok hs.safe hs.weights decision
    exact ⟨{ s with scheduler := scheduler }, by rw [Paths.step, hmon]; rfl⟩

/-- **Index safety of the scheduler.** In every state of every interleaving the indices are in
range, the next call does not panic, and the selected path has a stream. -/
theorem index_safe (schedType : SchedulerType) (conf : List ℕ) {as : List Label} {s : Paths}
    (h : Run step (fun s a => InOrder s a ∧ Weighted s a) (create schedType conf) as s) :
    (1 ≤ s.scheduler.numPath → 1 ≤ s.scheduler.usePath ∧
      s.scheduler.usePath ≤ s.scheduler.numPath ∧
      s.scheduler.currentPath < s.scheduler.usePath ∧
      s.scheduler.numPath ≤ s.scheduler.remainingBytes.length) ∧
    (∀ a, InOrder s a → Weighted s a → ∃ s', step s a = .ok s') ∧
    (1 ≤ s.scheduler.numPath → ∀ payloadSize, ∃ path scheduler,
      s.scheduler.scheduling payloadSize = .ok (path, scheduler) ∧
        path < s.streamList.length) := by
  have hinv : s.Inv := h.invariant Inv (create_inv schedType conf)
    fun _ _ _ hs hok hstep => hs.step hok.1 hok.2 hstep
  refine ⟨fun hpos => ?_, fun a hord hw => hinv.step_ok hord hw, hinv.scheduling_path⟩
  have hstarted := hinv.safe.started hpos
  exact ⟨hstarted.usePath_pos, hstarted.usePath_le, hstarted.currentPath_lt, hstarted.numPath_le⟩

def switched : List Label :=
  [.addStream 0 true, .monitor false, .scheduling 1000, .addStream 1 true, .monitor true,
    .scheduling 500, .monitor false]

theorem index_safe_switched : ∃ s,
    Run step (fun s a => InOrder s a ∧ Weighted s a) (create .userWrr [5, 2]) switched s ∧
      s.scheduler.usePath = 1 ∧ s.scheduler.currentPath < s.scheduler.usePath ∧
      ∃ path scheduler, s.scheduler.scheduling 700 = .ok (path, scheduler) ∧
        path < s.streamList.length := by
  have hguarded : Guarded step (fun s a => InOrder s a ∧ Weighted s a) (create .userWrr [5, 2])
      switched := by
    decide +kernel
  obtain ⟨s, hrun, hs⟩ := Run.exists_of_exec step (create .userWrr [5, 2]) switched
    (fun s => decide (s.scheduler.usePath = 1 ∧ s.scheduler.numPath = 2)) hguarded
    (by decide +kernel)
  obtain ⟨huse, hnum⟩ := of_decide_eq_true hs
  have hpos : 1 ≤ s.scheduler.numPath := by omega
  obtain ⟨hbounds, _, hselect⟩ := index_safe .userWrr [5, 2] hrun
  exact ⟨s, hrun, huse, (hbounds hpos).2.2.1, hselect hpos 700⟩

/-! ### The mode -/

/-- With multipath all paths are in use, without it fewer, unless there is one only. -/
def Consistent (s : Paths) : Prop :=
  1 ≤ s.scheduler.numPath →
    (s.scheduler.multipath = true → s.scheduler.usePath = s.scheduler.numPath) ∧
    (s.scheduler.multipath = false →
      s.scheduler.numPath = 1 ∨ s.scheduler.usePath < s.scheduler.numPath)

def LeavesConsistent (s : Paths) (a : Label) : Prop :=
  match step s a with
  | .ok s' => Consistent s'
  | .error _ => True

instance (s : Paths) : Decidable (Consistent s) := inferInstanceAs (Decidable (_ → _))

instance (s : Paths) (a : Label) : Decidable (LeavesConsistent s a) :=
  match h : step s a with
  | .ok s' => decidable_of_iff (Consistent s') (by rw [LeavesConsistent, h])
  | .error _ => .isTrue (by rw [LeavesConsistent, h]; trivial)

/-- A second or later path is added with multipath only. -/
def AddsInMultipath (s : Paths) (a : Label) : Prop :=
  ∀ k ∈ s.newNumPath a, 2 ≤ k → s.scheduler.multipath = true

instance (s : Paths) (a : Label) : Decidable (AddsInMultipath s a) :=
  inferInstanceAs (Decidable (∀ k ∈ s.newNumPath a, _))

theorem monitor_consistent {c c' : SessionScheduler} {decision : Bool} (hsafe : c.Safe)
    (hc : 1 ≤ c.numPath → (c.multipath = true → c.usePath = c.numPath) ∧
      (c.multipath = false → c.numPath = 1 ∨ c.usePath < c.numPath))
    (h : c.monitor decision = .ok c') (hpos : 1 ≤ c'.numPath) :
    (c'.multipath = true → c'.usePath = c'.numPath) ∧
      (c'.multipath = false → c'.numPath = 1 ∨ c'.usePath < c'.numPath) := by
  obtain ⟨_, hnum, hmode, _, hcases⟩ := monitor_safe hsafe h
  rw [hnum] at hpos
  have hstarted := hsafe.started hpos
  have h1 := hstarted.usePath_pos
  have h2 := hstarted.usePath_le
  obtain ⟨hmulti, hsingle⟩ := hc hpos
  rw [hnum, hmode]
  rcases hcases with ⟨hsame, huse⟩ | ⟨hne, ⟨hfew, huse⟩ | ⟨hmany, huse⟩⟩
  · rw [huse, ← hsame]
    exact ⟨hmulti, hsingle⟩
  · cases decision with
    | true =>
      simp only [if_true] at hfew
      exact ⟨fun _ => by omega, Bool.noConfusion⟩
    | false =>
      have hall := hmulti (Bool.eq_true_of_not_eq_false hne)
      simp only [Bool.false_eq_true, if_false] at hfew
      exact ⟨Bool.noConfusion, fun _ => .inl (by omega)⟩
  · cases decision with
    | true => exact ⟨fun _ => huse, Bool.noConfusion⟩
    | false =>
      have huse' : c'.usePath = c.usePath - 1 := huse
      exact ⟨Bool.noConfusion, fun _ => .inr (by omega)⟩

theorem leavesConsistent_iff (hsafe : s.scheduler.Safe) (hc : Consistent s) (hord : InOrder s a)
    (h : step s a = .ok s') : Consistent s' ↔ AddsInMultipath s a := by
  rcases step_cases h with ⟨k, hk, hset, _⟩ | ⟨hnone, _, hrest⟩
  · have hnext := hord.1 k hk
    rw [hnext] at hset
    obtain ⟨_, hnum, huse, hmode, _⟩ := setNumPath_started hsafe hset
    unfold Consistent
    rw [hnum, huse, hmode]
    constructor
    · intro hcons k' hk' hge
      have hkk : k' = k := Option.some.inj (hk'.symm.trans hk)
      cases hm : s.scheduler.multipath with
      | true => rfl
      | false =>
        rcases (hcons (by omega)).2 hm with hone | hlt <;> omega
    · intro hadd _
      refine ⟨fun _ => rfl, fun hm => .inl ?_⟩
      by_contra hne
      have hmulti := hadd k hk (by omega)
      rw [hm] at hmulti
      cases hmulti
  · refine iff_of_true ?_ fun k hk => ?_
    · intro hpos
      rcases hrest with ⟨_, _, hsched⟩ | ⟨_, hmon⟩ | heq
      · obtain ⟨_, hnum, huse, hmode, _⟩ := scheduling_safe hsafe hsched
        rw [hnum, huse, hmode]
        exact hc (by omega)
      · exact monitor_consistent hsafe hc hmon hpos
      · rw [heq] at hpos ⊢
        exact hc hpos
    · rw [hnone] at hk
      cases hk

theorem guarded_consistent_iff {t : Paths} {as : List Label} (hsafe : s.scheduler.Safe)
    (hc : Consistent s) (hord : Guarded step InOrder s as) (hexec : exec step s as = .ok t) :
    Guarded step LeavesConsistent s as ↔ Guarded step AddsInMultipath s as := by
  induction as generalizing s with
  | nil => exact Iff.rfl
  | cons a as ih =>
    obtain ⟨horda, hrest⟩ := hord
    simp only [exec] at hexec
    simp only [Guarded]
    cases hstep : step s a with
    | error e =>
      rw [hstep] at hexec
      cases hexec
    | ok s' =>
      rw [hstep] at hrest hexec
      have hiff := leavesConsistent_iff hsafe hc horda hstep
      have hleaves : LeavesConsistent s a ↔ Consistent s' := by rw [LeavesConsistent, hstep]
      rw [hleaves, hiff]
      exact and_congr_right fun hadd =>
        ih (safe_step hsafe horda hstep) (hiff.mpr hadd) hrest hexec

/-- **The mode and the paths in use.** They agree after every step of an interleaving just if every
path after the first is added with multipath. -/
theorem mode_consistent_iff (schedType : SchedulerType) (conf : List ℕ) (as : List Label)
    (s : Paths) (hord : Guarded step InOrder (create schedType conf) as)
    (hexec : exec step (create schedType conf) as = .ok s) :
    Guarded step LeavesConsistent (create schedType conf) as ↔
      Guarded step AddsInMultipath (create schedType conf) as :=
  guarded_consistent_iff (create_inv schedType conf).safe (fun h => nomatch h) hord hexec

theorem mode_consistent_two :
    Guarded step LeavesConsistent (create .userWrr [5, 2])
      [.addStream 0 true, .addStream 1 true, .monitor false, .monitor true] := by
  cases hexec : exec step (create .userWrr [5, 2])
      [.addStream 0 true, .addStream 1 true, .monitor false, .monitor true] with
  | error e => exact absurd hexec (by cases e <;> decide +kernel)
  | ok s =>
    exact (mode_consistent_iff .userWrr [5, 2] _ s (by decide +kernel) hexec).mpr
      (by decide +kernel)

/-- A second path that is added without multipath is in use at once. -/
theorem mode_inconsistent :
    Guarded step InOrder (create .userWrr [5, 2])
        [.addStream 0 true, .monitor false, .addStream 1 true] ∧
      ¬ Guarded step LeavesConsistent (create .userWrr [5, 2])
        [.addStream 0 true, .monitor false, .addStream 1 true] := by
  decide +kernel

/-! ### The turns of the paths -/

def connect : List (ℕ × List ℕ) → List Label
  | [] => []
  | (stream, payloadSizes) :: rest =>
    .addStream stream true :: (payloadSizes.map .scheduling ++ connect rest)

end Paths

/-- The selections are turns in cyclic order, from a new turn of path `p` on. The last one is not
completed. -/
inductive Turns (weight : List ℕ) : ℕ → List (ℕ × ℕ) → Prop
  | unfinished {p w : ℕ} {payloadSizes : List ℕ} (hw : weight[p]? = some w)
      (hopen : payloadSizes.sum + 128 < w * 1024) : Turns weight p (payloadSizes.map (p, ·))
  | completed {p w : ℕ} {payloadSizes : List ℕ} {rest : List (ℕ × ℕ)} (hw : weight[p]? = some w)
      (hmin : w * 1024 - 128 ≤ payloadSizes.sum) (hmax : payloadSizes.sum ≤ w * 1024 + 895)
      (hrest : Turns weight ((p + 1) % weight.length) rest) :
      Turns weight p (payloadSizes.map (p, ·) ++ rest)

namespace SessionScheduler

def budgets (weight : List ℕ) : List ℕ := weight.map (· * 1024)

structure Budgeted (weight : List ℕ) (c : SessionScheduler) (k r : ℕ) : Prop where
  type_eq : c.schedulerType = .userWrr
  weight_eq : c.weight = weight
  numPath_eq : c.numPath = k
  usePath_eq : c.usePath = k
  currentPath_lt : c.currentPath < k
  le_length : k ≤ weight.length
  remaining_eq : c.remainingBytes = ((budgets weight).take k).set c.currentPath r

section Wrr

variable {weight : List ℕ} {c : SessionScheduler} {k r : ℕ}
  (hweight : ∀ w ∈ weight, 1 ≤ w ∧ w < 2 ^ 22)

include hweight

theorem budget_of_mem {i w : ℕ} (hw : weight[i]? = some w) :
    u32 (w * dataPacketPayloadSize) = w * 1024 := by
  have hlt := (hweight w (List.mem_of_getElem? hw)).2
  exact u32_of_lt (by show w * 1024 < _; omega)

theorem budgets_getElem? {i w : ℕ} (hw : weight[i]? = some w) (hi : i < k) :
    ((budgets weight).take k)[i]? = some (u32 (w * dataPacketPayloadSize)) := by
  rw [List.getElem?_take_of_lt hi, budgets, List.getElem?_map, hw, budget_of_mem hweight hw]
  rfl

theorem set_budget {i w : ℕ} (hw : weight[i]? = some w) (hi : i < k) :
    ((budgets weight).take k).set i (u32 (w * dataPacketPayloadSize)) =
      (budgets weight).take k := by
  have hget := budgets_getElem? hweight hw hi
  obtain ⟨hlt, heq⟩ := List.getElem?_eq_some_iff.mp hget
  rw [← heq, List.set_getElem_self]

theorem take_succ_budgets {w : ℕ} (hw : weight[k]? = some w) :
    ((budgets weight).take (k + 1)).set k (w * 1024) =
      (budgets weight).take k ++ [u32 (w * dataPacketPayloadSize)] := by
  have hfull := budget_of_mem hweight hw
  have hset := set_budget hweight hw (Nat.lt_succ_self k)
  rw [hfull] at hset
  rw [hset, hfull, List.take_add_one, budgets, List.getElem?_map, hw]
  rfl

theorem Budgeted.setNumPath (hc : Budgeted weight c k r) (hk : k + 1 ≤ weight.length) :
    ∃ c' w, c.setNumPath (k + 1) = .ok c' ∧ weight[k]? = some w ∧ c'.currentPath = k ∧
      Budgeted weight c' (k + 1) (w * 1024) := by
  have hlen := hc.le_length
  have hcur := hc.currentPath_lt
  have hremlen : c.remainingBytes.length = k := by
    rw [hc.remaining_eq, List.length_set, List.length_take, budgets, List.length_map]
    omega
  obtain ⟨v, hv⟩ : ∃ v, weight[c.currentPath]? = some v :=
    ⟨_, List.getElem?_eq_getElem (by omega)⟩
  obtain ⟨w, hw⟩ : ∃ w, weight[k]? = some w := ⟨_, List.getElem?_eq_getElem hk⟩
  have hchange := changePath_eq (c := { c with numPath := k + 1, usePath := k + 1 })
    (by dsimp only; omega) (by rw [← hc.weight_eq] at hv; exact hv)
    (by dsimp only; omega) (by rw [← hc.weight_eq] at hw; exact hw)
  refine ⟨_, _, hchange, hw, rfl, hc.type_eq, hc.weight_eq, rfl, rfl, Nat.lt_succ_self k, hk, ?_⟩
  have hrem : c.remainingBytes.set c.currentPath (u32 (v * dataPacketPayloadSize)) =
      (budgets weight).take k := by
    rw [hc.remaining_eq, List.set_set, set_budget hweight hv hcur]
  show c.remainingBytes.set c.currentPath (u32 (v * dataPacketPayloadSize)) ++
    [u32 (w * dataPacketPayloadSize)] = ((budgets weight).take (k + 1)).set k (w * 1024)
  rw [hrem, take_succ_budgets hweight hw]

theorem Budgeted.scheduling (hc : Budgeted weight c k r) (payloadSize : ℕ) :
    ∃ c', c.scheduling payloadSize = .ok (c.currentPath, c') ∧
      ((r - payloadSize ≤ 128 ∧ c'.currentPath = (c.currentPath + 1) % k ∧
          ∃ w, weight[c'.currentPath]? = some w ∧ Budgeted weight c' k (w * 1024)) ∨
        (128 < r - payloadSize ∧ c'.currentPath = c.currentPath ∧
          Budgeted weight c' k (r - payloadSize))) := by
  have hlen := hc.le_length
  have hcur := hc.currentPath_lt
  have hr : c.remainingBytes[c.currentPath]? = some r := by
    rw [hc.remaining_eq, List.getElem?_set_self]
    rw [List.length_take, budgets, List.length_map]
    omega
  obtain ⟨v, hv⟩ : ∃ v, weight[c.currentPath]? = some v :=
    ⟨_, List.getElem?_eq_getElem (by omega)⟩
  have hsched := schedulingUserWrr_eq hr (by rw [hc.weight_eq]; exact hv)
    (by rw [hc.usePath_eq]; omega) payloadSize
  have hrun : c.scheduling payloadSize = c.schedulingUserWrr payloadSize := by
    rw [SessionScheduler.scheduling, hc.type_eq]
  refine ⟨_, hrun.trans hsched, ?_⟩
  by_cases hend : r - payloadSize ≤ remainingBytesResetThresh
  · rw [if_pos hend]
    have hnext : (c.currentPath + 1) % c.usePath < k := by
      rw [hc.usePath_eq]
      exact Nat.mod_lt _ (by omega)
    obtain ⟨w, hw⟩ : ∃ w, weight[(c.currentPath + 1) % c.usePath]? = some w :=
      ⟨_, List.getElem?_eq_getElem (by omega)⟩
    refine .inl ⟨hend, by rw [hc.usePath_eq], _, hw, hc.type_eq, hc.weight_eq, hc.numPath_eq,
      hc.usePath_eq, hnext, hlen, ?_⟩
    show c.remainingBytes.set c.currentPath _ = _
    rw [hc.remaining_eq, List.set_set, set_budget hweight hv hcur, ← budget_of_mem hweight hw,
      set_budget hweight hw hnext]
  · rw [if_neg hend]
    refine .inr ⟨Nat.lt_of_not_le hend, rfl, hc.type_eq, hc.weight_eq, hc.numPath_eq,
      hc.usePath_eq, hcur, hlen, ?_⟩
    show c.remainingBytes.set c.currentPath _ = _
    rw [hc.remaining_eq, List.set_set]

theorem Budgeted.turns (hc : Budgeted weight c weight.length r) (done : List ℕ) {w : ℕ}
    (hw : weight[c.currentPath]? = some w) (hr : done.sum + r = w * 1024) (hopen : 128 < r)
    {payloadSizes : List ℕ} (hsize : ∀ x ∈ payloadSizes, x ≤ 1024) :
    ∃ selected c', c.schedulings payloadSizes = .ok (selected, c') ∧
      selected.map Prod.snd = payloadSizes ∧
      Turns weight c.currentPath (done.map (c.currentPath, ·) ++ selected) := by
  induction payloadSizes generalizing c r done w with
  | nil =>
    refine ⟨[], c, rfl, rfl, ?_⟩
    rw [List.append_nil]
    exact .unfinished hw (by omega)
  | cons x rest ih =>
    have hx := hsize x (List.mem_cons_self ..)
    have hrest : ∀ y ∈ rest, y ≤ 1024 := fun y hy => hsize y (List.mem_cons_of_mem _ hy)
    have hsum : (done ++ [x]).sum = done.sum + x := by rw [List.sum_append, List.sum_singleton]
    obtain ⟨c₁, hsched, hcases⟩ := hc.scheduling hweight x
    rcases hcases with ⟨hend, hcur, w', hw', hc'⟩ | ⟨hgo, hcur, hc'⟩
    · have hpos := (hweight w' (List.mem_of_getElem? hw')).1
      obtain ⟨selected, c₂, hrun, hmap, hturns⟩ := ih hc' [] hw'
        (by rw [List.sum_nil]; omega) (by omega) hrest
      refine ⟨(c.currentPath, x) :: selected, c₂, ?_, by rw [List.map_cons, hmap], ?_⟩
      · rw [schedulings, hsched]
        show (c₁.schedulings rest >>= _) = _
        rw [hrun]
        rfl
      · have hlist : done.map (c.currentPath, ·) ++ (c.currentPath, x) :: selected =
            (done ++ [x]).map (c.currentPath, ·) ++ selected := by
          rw [List.map_append, List.append_assoc]
          rfl
        rw [hlist]
        rw [List.map_nil, List.nil_append, hcur] at hturns
        exact .completed hw (by omega) (by omega) hturns
    · obtain ⟨selected, c₂, hrun, hmap, hturns⟩ := ih hc' (done ++ [x])
        (by rw [hcur]; exact hw) (by omega) hgo hrest
      refine ⟨(c.currentPath, x) :: selected, c₂, ?_, by rw [List.map_cons, hmap], ?_⟩
      · rw [schedulings, hsched]
        show (c₁.schedulings rest >>= _) = _
        rw [hrun]
        rfl
      · rw [hcur, List.map_append, List.append_assoc] at hturns
        exact hturns

theorem setNumPath_first (hk : 1 ≤ weight.length) :
    ∃ c' w, (createSessionScheduler .userWrr weight).setNumPath 1 = .ok c' ∧
      weight[0]? = some w ∧ c'.currentPath = 0 ∧ Budgeted weight c' 1 (w * 1024) := by
  obtain ⟨w, hw⟩ : ∃ w, weight[0]? = some w := ⟨_, List.getElem?_eq_getElem hk⟩
  have hchange := changePath_first (c := { createSessionScheduler .userWrr weight with
    numPath := 1, usePath := 1 }) rfl hw
  refine ⟨_, w, hchange, hw, rfl, rfl, rfl, rfl, rfl, Nat.one_pos, hk, ?_⟩
  exact (take_succ_budgets hweight hw).symm

end Wrr

end SessionScheduler

namespace Paths

def Ready (weight : List ℕ) (s : Paths) (k : ℕ) : Prop :=
  s.numPath = k ∧ ((k = 0 ∧ s.scheduler = createSessionScheduler .userWrr weight) ∨
    ∃ r, s.scheduler.Budgeted weight k r)

section Wrr

variable {weight : List ℕ} {s : Paths} {k : ℕ} (hweight : ∀ w ∈ weight, 1 ≤ w ∧ w < 2 ^ 22)

include hweight

theorem Ready.addStream (hs : Ready weight s k) (hk : k + 1 ≤ weight.length) (stream : ℕ) :
    ∃ s' w, step s (.addStream stream true) = .ok s' ∧ s'.numPath = k + 1 ∧
      weight[k]? = some w ∧ s'.scheduler.currentPath = k ∧
      s'.scheduler.Budgeted weight (k + 1) (w * 1024) := by
  obtain ⟨c', w, hset, hw, hcur, hbudget⟩ : ∃ c' w, s.scheduler.setNumPath (k + 1) = .ok c' ∧
      weight[k]? = some w ∧ c'.currentPath = k ∧ c'.Budgeted weight (k + 1) (w * 1024) := by
    rcases hs.2 with ⟨rfl, hfresh⟩ | ⟨r, hc⟩
    · rw [hfresh]
      exact SessionScheduler.setNumPath_first hweight hk
    · exact hc.setNumPath hweight hk
  refine ⟨⟨s.numPath + 1, s.streamList ++ [stream], c'⟩, w, ?_, congrArg (· + 1) hs.1, hw, hcur,
    hbudget⟩
  show (s.scheduler.setNumPath (s.numPath + 1) >>= _) = _
  rw [hs.1, hset]
  rfl

theorem exec_scheduling {r : ℕ} (hs : s.scheduler.Budgeted weight k r) (payloadSizes : List ℕ) :
    ∃ s' r', exec step s (payloadSizes.map .scheduling) = .ok s' ∧ s'.numPath = s.numPath ∧
      s'.scheduler.Budgeted weight k r' := by
  induction payloadSizes generalizing s r with
  | nil => exact ⟨s, r, rfl, rfl, hs⟩
  | cons x rest ih =>
    obtain ⟨c', hsched, hcases⟩ := hs.scheduling hweight x
    obtain ⟨r₁, hc'⟩ : ∃ r₁, c'.Budgeted weight k r₁ := by
      rcases hcases with ⟨_, _, w, _, hc'⟩ | ⟨_, _, hc'⟩
      · exact ⟨_, hc'⟩
      · exact ⟨_, hc'⟩
    obtain ⟨s', r', hexec, hnum, hs'⟩ := ih (s := { s with scheduler := c' }) hc'
    have hstep : step s (.scheduling x) = .ok { s with scheduler := c' } := by
      rw [step, hsched]
      rfl
    refine ⟨s', r', ?_, hnum, hs'⟩
    rw [List.map_cons, exec, hstep]
    exact hexec

theorem exec_connect (hs : Ready weight s k) (phases : List (ℕ × List ℕ))
    (hk : k + phases.length ≤ weight.length) :
    ∃ s', exec step s (connect phases) = .ok s' ∧ Ready weight s' (k + phases.length) := by
  induction phases generalizing s k with
  | nil => exact ⟨s, rfl, hs⟩
  | cons phase rest ih =>
    obtain ⟨stream, payloadSizes⟩ := phase
    rw [List.length_cons] at hk ⊢
    obtain ⟨s₁, w, hadd, hnum, _, _, hs₁⟩ := hs.addStream hweight (by omega) stream
    obtain ⟨s₂, r, hsched, hnum₂, hs₂⟩ := exec_scheduling hweight hs₁ payloadSizes
    obtain ⟨s', hrest, hs'⟩ := ih (s := s₂) (k := k + 1) ⟨hnum₂.trans hnum, .inr ⟨r, hs₂⟩⟩
      (by omega)
    refine ⟨s', ?_, ?_⟩
    · rw [connect, exec, hadd]
      exact (exec_append step hsched _).trans hrest
    · have hadd : k + (rest.length + 1) = k + 1 + rest.length := by omega
      rw [hadd]
      exact hs'

end Wrr

/-- **Weighted round robin.** Once the last path is added, the selections are turns in cyclic order
that carry the weights of their paths, up to 128 bytes less and 895 bytes more. -/
theorem wrr_turns (weight : List ℕ) (hweight : ∀ w ∈ weight, 1 ≤ w ∧ w < 2 ^ 22)
    (phases : List (ℕ × List ℕ)) (stream : ℕ) (hpaths : weight.length = phases.length + 1)
    (payloadSizes : List ℕ) (hsize : ∀ x ∈ payloadSizes, 1 ≤ x ∧ x ≤ 1024) :
    ∃ s selected scheduler,
      exec step (create .userWrr weight) (connect phases ++ [.addStream stream true]) = .ok s ∧
      s.scheduler.schedulings payloadSizes = .ok (selected, scheduler) ∧
      selected.map Prod.snd = payloadSizes ∧ Turns weight (weight.length - 1) selected := by
  obtain ⟨s₁, hconnect, hs₁⟩ := exec_connect hweight (s := create .userWrr weight) (k := 0)
    ⟨rfl, .inl ⟨rfl, rfl⟩⟩ phases (by omega)
  obtain ⟨s, w, hadd, _, hw, hcur, hs⟩ := hs₁.addStream hweight (by omega) stream
  have hlast : 0 + phases.length + 1 = weight.length := by omega
  have hpos := (hweight w (List.mem_of_getElem? hw)).1
  rw [hlast] at hs
  obtain ⟨selected, scheduler, hrun, hmap, hturns⟩ := hs.turns hweight []
    (by rw [hcur]; exact hw) (by rw [List.sum_nil]; omega) (by omega) fun x hx => (hsize x hx).2
  refine ⟨s, selected, scheduler, ?_, hrun, hmap, ?_⟩
  · rw [exec_append step hconnect, exec, hadd]
    rfl
  · have hstart : weight.length - 1 = s.scheduler.currentPath := by omega
    rw [hstart]
    exact hturns

theorem wrr_turns_default : ∃ s selected scheduler,
    exec step (create .userWrr [5, 2]) (connect [(0, [1000, 24])] ++ [.addStream 1 true]) = .ok s ∧
    s.scheduler.schedulings [1024, 1000, 24, 512] = .ok (selected, scheduler) ∧
    selected.map Prod.snd = [1024, 1000, 24, 512] ∧ Turns [5, 2] 1 selected :=
  wrr_turns [5, 2] (by decide) [(0, [1000, 24])] 1 rfl [1024, 1000, 24, 512] (by decide)

end Paths

end Mp2bs.Session
