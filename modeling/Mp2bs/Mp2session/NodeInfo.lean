import Mp2bs.Go
import Mp2bs.Lib.Machine

/-!
# The node info barrier (`mp2session/mp2session_manager.go`, `mp2session/mp2session.go`)

`Mp2SendNodeInfo` sets the flag of each child's session to false and sends it a Node Info Packet
(`mp2session_manager.go:403-424`). The goroutine of a session handles its Node Info ACK Packet: it sets
the flag to true, ranges over the flags, and if it met none that is false and `nodeInfoChan` is empty, it
puts a token on the channel (`mp2session.go:394-413`). Whoever sends a block takes the token and puts one
back (`mp2session_manager.go:310-317, 338-369`).

A `range` over a Go map visits each key that was there when it began once, in any order; a later key may
be visited or not. Session ids come from `rand.Uint32` and are taken to be new each time.
-/

namespace Mp2bs.Mp2session.NodeInfo
open Mp2bs.Lib.Machine

/-- Where the goroutine of a session is with the acknowledgement of its child. The `range` has the
keys that were there when it began, and those visited. -/
inductive Stage
  | idle
  | asked
  | ranging (start seen : List ℕ)
  | checking
  | sending
  | done
  deriving Repr, DecidableEq

def Stage.acked : Stage → Bool
  | .idle | .asked => false
  | .ranging .. | .checking | .sending | .done => true

def Stage.active : Stage → Bool
  | .ranging .. | .checking | .sending => true
  | .idle | .asked | .done => false

def Stage.seen : Stage → List ℕ
  | .ranging _ seen => seen
  | _ => []

/-- `children` are the sessions of `mp2IdToChildren`; `unvisited` and `current` belong to the loop
of `Mp2SendNodeInfo`. The channel has room for one token. `held` counts the takers that have not
put their token back, `put` the tokens of the handlers since the loop began. -/
structure Manager where
  nodeInfoFlag : AList fun _ : ℕ => Bool
  nodeInfoChan : ℕ
  children : List ℕ
  unvisited : List ℕ
  current : Option ℕ
  stage : ℕ → Stage
  held : ℕ
  put : ℕ

inductive Label
  | sendNodeInfo (sessions : List ℕ)
  | register (id : ℕ)
  | sendPacket
  | ack (id : ℕ)
  | visit (id key : ℕ)
  | endRange (id : ℕ)
  | check (id : ℕ)
  | put (id : ℕ)
  | take
  | refill
  deriving Repr, DecidableEq

namespace Manager

def init : Manager where
  nodeInfoFlag := ∅
  nodeInfoChan := 0
  children := []
  unvisited := []
  current := none
  stage := fun _ => .idle
  held := 0
  put := 0

def setStage (m : Manager) (id : ℕ) (stage : Stage) : Manager :=
  { m with stage := Function.update m.stage id stage }

/-- The sessions of a call are those that `Mp2ConnectToChildren` has just made, and there are none
if the node has no children (`mp2session_manager.go:405-410`). The calls come from the handler of
the parent's session, one after the other. -/
def step (m : Manager) : Label → Except Stop Manager
  | .sendNodeInfo sessions =>
    if m.unvisited = [] ∧ m.current = none ∧ sessions.Nodup ∧
        ∀ id ∈ sessions, m.stage id = .idle then
      if sessions = [] then .ok m
      else .ok { m with children := sessions, unvisited := sessions, put := 0 }
    else .error .blocked
  | .register id =>
    if m.current = none ∧ id ∈ m.unvisited then
      .ok { m with
        nodeInfoFlag := m.nodeInfoFlag.insert id false
        unvisited := m.unvisited.erase id
        current := some id }
    else .error .blocked
  | .sendPacket => match m.current with
    | none => .error .blocked
    | some id => .ok { m.setStage id .asked with current := none }
  | .ack id =>
    if m.stage id = .asked then
      let flags := m.nodeInfoFlag.insert id true
      .ok { m.setStage id (.ranging flags.keys []) with nodeInfoFlag := flags }
    else .error .blocked
  | .visit id key => match m.stage id, m.nodeInfoFlag.lookup key with
    | .ranging start seen, some flag =>
      if key ∈ seen then .error .blocked
      else .ok (m.setStage id (if flag then .ranging start (key :: seen) else .done))
    | _, _ => .error .blocked
  | .endRange id => match m.stage id with
    | .ranging start seen => if start ⊆ seen then .ok (m.setStage id .checking) else .error .blocked
    | _ => .error .blocked
  | .check id =>
    if m.stage id = .checking then
      .ok (m.setStage id (if m.nodeInfoChan = 0 then .sending else .done))
    else .error .blocked
  | .put id =>
    if m.stage id = .sending ∧ m.nodeInfoChan = 0 then
      .ok { m.setStage id .done with nodeInfoChan := 1, put := m.put + 1 }
    else .error .blocked
  | .take =>
    if m.nodeInfoChan = 0 then .error .blocked
    else .ok { m with nodeInfoChan := 0, held := m.held + 1 }
  | .refill =>
    if m.nodeInfoChan = 0 ∧ 0 < m.held then
      .ok { m with nodeInfoChan := 1, held := m.held - 1 }
    else .error .blocked

def AllAcked (m : Manager) : Prop := ∀ id ∈ m.children, (m.stage id).acked = true

def Complete (m : Manager) : Prop := m.children ≠ [] ∧ ∀ id ∈ m.children, m.stage id = .done

/-- A `range` that meets no false flag has visited every child; the acknowledgement that is the
last of its round is handled while no other one is; a round begins after the end of the one before
it; and no token of an earlier round is on the channel when a handler tests it, or comes back
between the test and the send. -/
def Orderly (m : Manager) : Label → Prop
  | .endRange id => m.children ⊆ (m.stage id).seen
  | .ack id => (∀ c ∈ m.children, c ≠ id → (m.stage c).acked = true) →
    ∀ c ∈ m.children, (m.stage c).active = false
  | .sendNodeInfo sessions => sessions ≠ [] → ∀ c ∈ m.children, m.stage c = .done
  | .check _ => m.nodeInfoChan = 0
  | .refill => ∀ c ∈ m.children, m.stage c ≠ .sending
  | _ => True

instance (m : Manager) : DecidablePred m.Orderly := fun a =>
  match a with
  | .endRange id => inferInstanceAs (Decidable (m.children ⊆ (m.stage id).seen))
  | .ack id => inferInstanceAs (Decidable ((∀ c ∈ m.children, c ≠ id → (m.stage c).acked = true) →
      ∀ c ∈ m.children, (m.stage c).active = false))
  | .sendNodeInfo sessions =>
    inferInstanceAs (Decidable (sessions ≠ [] → ∀ c ∈ m.children, m.stage c = .done))
  | .check _ => inferInstanceAs (Decidable (m.nodeInfoChan = 0))
  | .refill => inferInstanceAs (Decidable (∀ c ∈ m.children, m.stage c ≠ .sending))
  | .register _ | .sendPacket | .visit .. | .put _ | .take => .isTrue trivial

/-! ### One round -/

inductive Phase (m : Manager) : Prop
  | idle (children : m.children = []) (put : m.put = 0)
  | collecting (c : ℕ) (mem : c ∈ m.children) (waits : (m.stage c).acked = false)
      (put : m.put = 0) (none : ∀ id, m.stage id ≠ .checking ∧ m.stage id ≠ .sending)
  | last (id : ℕ) (mem : id ∈ m.children) (acked : m.AllAcked)
      (active : (m.stage id).active = true)
      (alone : ∀ c, c ≠ id → (m.stage c).active = false) (put : m.put = 0)
      (chan : m.stage id = .sending → m.nodeInfoChan = 0)
  | complete (mem : m.children ≠ []) (acked : m.AllAcked)
      (quiet : ∀ c, (m.stage c).active = false) (put : m.put = 1)

structure Inv (m : Manager) : Prop where
  phase : m.Phase
  flag : ∀ id b, m.nodeInfoFlag.lookup id = some b → b = (m.stage id).acked
  registered : ∀ id b, m.nodeInfoFlag.lookup id = some b → m.stage id = .idle → m.current = some id
  nodup : m.unvisited.Nodup
  unvisited : ∀ id ∈ m.unvisited, id ∈ m.children ∧ m.stage id = .idle
  current : ∀ id ∈ m.current, id ∈ m.children ∧ id ∉ m.unvisited ∧ m.stage id = .idle
  seen : ∀ id, ∀ k ∈ (m.stage id).seen, (m.stage k).acked = true
  others : ∀ id, id ∉ m.children → m.stage id = .idle ∨ m.stage id = .done

variable {m m' : Manager}

theorem init_inv : Inv init where
  phase := .idle rfl rfl
  flag := by simp [init]
  registered := by simp [init]
  nodup := List.nodup_nil
  unvisited := by simp [init]
  current := by simp [init]
  seen := by simp [init, Stage.seen]
  others := fun _ _ => .inl rfl

variable {s : Stage} {id k : ℕ}

theorem active_acked (h : s.active = true) : s.acked = true := by
  cases s <;> simp_all [Stage.active, Stage.acked]

theorem ne_idle_of_acked (h : s.acked = true) : s ≠ .idle := by
  rintro rfl
  cases h

theorem Inv.mem_children (h : m.Inv) (hid : (m.stage id).active = true) : id ∈ m.children := by
  by_contra hmem
  rcases h.others id hmem with hs | hs <;> simp [hs, Stage.active] at hid

theorem acked_update (hs : s.acked = (m.stage id).acked) (k : ℕ) :
    (Function.update m.stage id s k).acked = (m.stage k).acked := by
  by_cases hk : k = id
  · subst hk
    rw [Function.update_self, hs]
  · rw [Function.update_of_ne hk]

theorem Inv.move (h : m.Inv) (hid : (m.stage id).active = true) (hs : s.acked = true)
    (hseen : ∀ k ∈ s.seen, (m.stage k).acked = true)
    (hstage : m'.stage = Function.update m.stage id s) (hc : m'.children = m.children)
    (hu : m'.unvisited = m.unvisited) (hcur : m'.current = m.current)
    (hf : m'.nodeInfoFlag = m.nodeInfoFlag) (hphase : m'.Phase) : m'.Inv := by
  have hack : ∀ k, (m'.stage k).acked = (m.stage k).acked := by
    intro k
    rw [hstage]
    exact acked_update (hs.trans (active_acked hid).symm) k
  have hidle : ∀ k, m.stage k = .idle → m'.stage k = .idle := by
    intro k hk
    have hne : k ≠ id := by
      rintro rfl
      rw [hk] at hid
      cases hid
    rw [hstage, Function.update_of_ne hne, hk]
  refine ⟨hphase, ?_, ?_, hu ▸ h.nodup, ?_, ?_, ?_, ?_⟩
  · intro k b hk
    rw [hack]
    exact h.flag k b (hf ▸ hk)
  · intro k b hk hik
    rw [hcur]
    refine h.registered k b (hf ▸ hk) ?_
    by_cases hne : k = id
    · subst hne
      rw [hstage, Function.update_self] at hik
      exact absurd hik (ne_idle_of_acked hs)
    · rwa [hstage, Function.update_of_ne hne] at hik
  · intro k hk
    rw [hu] at hk
    rw [hc]
    exact ⟨(h.unvisited k hk).1, hidle k (h.unvisited k hk).2⟩
  · intro k hk
    rw [hcur] at hk
    obtain ⟨hmem, hun, hst⟩ := h.current k hk
    rw [hc, hu]
    exact ⟨hmem, hun, hidle k hst⟩
  · intro k key hkey
    rw [hack]
    by_cases hne : k = id
    · subst hne
      rw [hstage, Function.update_self] at hkey
      exact hseen key hkey
    · rw [hstage, Function.update_of_ne hne] at hkey
      exact h.seen k key hkey
  · intro k hk
    rw [hc] at hk
    have hne : k ≠ id := by
      rintro rfl
      exact hk (h.mem_children hid)
    rw [hstage, Function.update_of_ne hne]
    exact h.others k hk

theorem Phase.collecting_move (h : m.Phase) (hid : (m.stage id).active = true) (hs : s.acked = true)
    (hne : s ≠ .checking ∧ s ≠ .sending) (hlast : m.AllAcked → s.active = true) :
    (m.setStage id s).Phase := by
  have hack : ∀ k, ((m.setStage id s).stage k).acked = (m.stage k).acked := fun k =>
    acked_update (hs.trans (active_acked hid).symm) k
  cases h with
  | idle children put => exact .idle children put
  | collecting c mem waits put none =>
    refine .collecting c mem ((hack c).trans waits) put ?_
    intro k
    by_cases hk : k = id
    · subst hk
      simp only [setStage, Function.update_self]
      exact hne
    · simp only [setStage, Function.update_of_ne hk]
      exact none k
  | last l mem acked active alone put chan =>
    have hl : id = l := by
      by_contra hne'
      rw [alone id hne'] at hid
      cases hid
    subst hl
    refine .last id mem (fun k hk => (hack k).trans (acked k hk)) ?_ ?_ put ?_
    · simp only [setStage, Function.update_self]
      exact hlast acked
    · intro c hc
      simp only [setStage, Function.update_of_ne hc]
      exact alone c hc
    · intro hsend
      simp only [setStage, Function.update_self] at hsend
      exact absurd hsend hne.2
  | complete mem acked quiet put =>
    rw [quiet id] at hid
    cases hid

theorem Inv.flag_of_allAcked (h : m.Inv) (hall : m.AllAcked) {b : Bool}
    (hk : m.nodeInfoFlag.lookup k = some b) : b = true := by
  rw [h.flag k b hk]
  by_cases hmem : k ∈ m.children
  · exact hall k hmem
  · rcases h.others k hmem with hs | hs
    · have hcur := h.registered k b hk hs
      exact absurd (h.current k hcur).1 hmem
    · rw [hs]
      rfl

theorem Phase.of_waits (h : m.Phase) {c : ℕ} (mem : c ∈ m.children)
    (waits : (m.stage c).acked = false) :
    m.put = 0 ∧ ∀ id, m.stage id ≠ .checking ∧ m.stage id ≠ .sending := by
  have hnot : ¬ m.AllAcked := by
    intro hall
    rw [hall c mem] at waits
    cases waits
  cases h with
  | idle children put => simp [children] at mem
  | collecting _ _ _ put none => exact ⟨put, none⟩
  | last _ _ acked => exact absurd acked hnot
  | complete _ acked => exact absurd acked hnot

theorem Phase.of_past (h : m.Phase) (hid : (m.stage id).active = true) (hmem : id ∈ m.children)
    (hpast : m.stage id = .checking ∨ m.stage id = .sending ∨ m.AllAcked) :
    m.AllAcked ∧ (∀ c, c ≠ id → (m.stage c).active = false) ∧ m.put = 0 := by
  cases h with
  | idle children put => simp [children] at hmem
  | collecting c mem waits put none =>
    rcases hpast with hs | hs | hall
    · exact absurd hs (none id).1
    · exact absurd hs (none id).2
    · rw [hall c mem] at waits
      cases waits
  | last l mem acked active alone put chan =>
    have hl : id = l := by
      by_contra hne
      rw [alone id hne] at hid
      cases hid
    subst hl
    exact ⟨acked, alone, put⟩
  | complete mem acked quiet put =>
    rw [quiet id] at hid
    cases hid

theorem Phase.last_move (hid : (m.stage id).active = true) (hmem : id ∈ m.children)
    (hall : m.AllAcked) (halone : ∀ c, c ≠ id → (m.stage c).active = false) (hput : m.put = 0)
    (hs : s.active = true) (hchan : s = .sending → m.nodeInfoChan = 0) :
    (m.setStage id s).Phase := by
  refine .last id hmem ?_ ?_ ?_ hput ?_
  · intro k hk
    exact (acked_update ((active_acked hs).trans (active_acked hid).symm) k).trans (hall k hk)
  · simp only [setStage, Function.update_self]
    exact hs
  · intro c hc
    simp only [setStage, Function.update_of_ne hc]
    exact halone c hc
  · intro hsend
    simp only [setStage, Function.update_self] at hsend
    exact hchan hsend

theorem Inv.sendNodeInfo (h : m.Inv) {sessions : List ℕ} (hok : m.Orderly (.sendNodeInfo sessions))
    (hs : m.step (.sendNodeInfo sessions) = .ok m') : m'.Inv := by
  simp only [step] at hs
  split at hs
  case isFalse => cases hs
  case isTrue hen =>
  obtain ⟨hun, hcur, hnd, hidle⟩ := hen
  split at hs
  · cases hs
    exact h
  rename_i hne
  cases hs
  obtain ⟨c, rest, rfl⟩ := List.exists_cons_of_ne_nil hne
  -- every session is idle or done when a round begins
  have hrest : ∀ id, m.stage id = .idle ∨ m.stage id = .done := by
    intro id
    by_cases hmem : id ∈ m.children
    · exact .inr (hok hne id hmem)
    · exact h.others id hmem
  refine ⟨?_, h.flag, h.registered, hnd, ?_, ?_, h.seen, ?_⟩
  · refine .collecting c (List.mem_cons_self ..) ?_ rfl ?_
    · show (m.stage c).acked = false
      rw [hidle c (List.mem_cons_self ..)]
      rfl
    · intro id
      show m.stage id ≠ _ ∧ m.stage id ≠ _
      rcases hrest id with hs | hs <;> simp [hs]
  · intro id hid
    exact ⟨hid, hidle id hid⟩
  · intro id hid
    simp [hcur] at hid
  · intro id _
    exact hrest id

theorem Inv.register (h : m.Inv) (hs : m.step (.register id) = .ok m') : m'.Inv := by
  simp only [step] at hs
  split at hs
  case isFalse => cases hs
  case isTrue hen =>
  obtain ⟨hcur, hid⟩ := hen
  cases hs
  obtain ⟨hmem, hidle⟩ := h.unvisited id hid
  refine ⟨?_, ?_, ?_, h.nodup.erase _, ?_, ?_, h.seen, h.others⟩
  · cases h.phase with
    | idle children put => exact .idle children put
    | collecting c mem waits put none => exact .collecting c mem waits put none
    | last l mem acked active alone put chan => exact .last l mem acked active alone put chan
    | complete mem acked quiet put => exact .complete mem acked quiet put
  · intro k b hk
    by_cases hki : k = id
    · subst hki
      rw [AList.lookup_insert, Option.some.injEq] at hk
      subst hk
      simp [hidle, Stage.acked]
    · rw [AList.lookup_insert_ne hki] at hk
      exact h.flag k b hk
  · intro k b hk hik
    by_cases hki : k = id
    · subst hki
      rfl
    · rw [AList.lookup_insert_ne hki] at hk
      have := h.registered k b hk hik
      simp [hcur] at this
  · intro k hk
    exact h.unvisited k (List.mem_of_mem_erase hk)
  · intro k hk
    simp only [Option.mem_def, Option.some.injEq] at hk
    subst hk
    refine ⟨hmem, ?_, hidle⟩
    intro hin
    exact h.nodup.not_mem_erase hin

theorem Inv.sendPacket (h : m.Inv) (hs : m.step .sendPacket = .ok m') : m'.Inv := by
  simp only [step] at hs
  split at hs
  case h_1 => cases hs
  case h_2 id hcur =>
  cases hs
  obtain ⟨hmem, hun, hidle⟩ := h.current id hcur
  have hack : ∀ k, (Function.update m.stage id .asked k).acked = (m.stage k).acked := fun k =>
    acked_update (by rw [hidle]; rfl) k
  have hwaits : (m.stage id).acked = false := by
    rw [hidle]
    rfl
  obtain ⟨hput, hnone⟩ := h.phase.of_waits hmem hwaits
  refine ⟨?_, ?_, ?_, h.nodup, ?_, by simp, ?_, ?_⟩
  · refine .collecting id hmem ((hack id).trans hwaits) hput ?_
    intro k
    by_cases hk : k = id
    · subst hk
      simp [setStage]
    · simp only [setStage, Function.update_of_ne hk]
      exact hnone k
  · intro k b hk
    exact (h.flag k b hk).trans (hack k).symm
  · intro k b hk hik
    by_cases hki : k = id
    · subst hki
      simp [setStage] at hik
    · simp only [setStage, Function.update_of_ne hki] at hik
      have := h.registered k b hk hik
      rw [hcur, Option.some.injEq] at this
      exact absurd this.symm hki
  · intro k hk
    have hki : k ≠ id := by
      rintro rfl
      exact hun hk
    simp only [setStage, Function.update_of_ne hki]
    exact h.unvisited k hk
  · intro k key hkey
    refine (hack key).trans ?_
    by_cases hki : k = id
    · subst hki
      simp [setStage, Stage.seen] at hkey
    · simp only [setStage, Function.update_of_ne hki] at hkey
      exact h.seen k key hkey
  · intro k hk
    have hki : k ≠ id := by
      rintro rfl
      exact hk hmem
    simp only [setStage, Function.update_of_ne hki]
    exact h.others k hk

theorem Inv.ack (h : m.Inv) (hok : m.Orderly (.ack id)) (hs : m.step (.ack id) = .ok m') :
    m'.Inv := by
  simp only [step] at hs
  split at hs
  case isFalse => cases hs
  case isTrue hasked =>
  cases hs
  have hmem : id ∈ m.children := by
    by_contra hmem
    rcases h.others id hmem with hs | hs <;> simp [hs] at hasked
  have hmono : ∀ (s : Stage) k, s.acked = true → (m.stage k).acked = true →
      (Function.update m.stage id s k).acked = true := by
    intro s k hs hk
    by_cases hki : k = id
    · subst hki
      rw [Function.update_self, hs]
    · rw [Function.update_of_ne hki, hk]
  obtain ⟨hput, hnone⟩ := h.phase.of_waits hmem (by rw [hasked]; rfl)
  refine ⟨?_, ?_, ?_, h.nodup, ?_, ?_, ?_, ?_⟩
  · by_cases hall : ∀ c ∈ m.children, c ≠ id → (m.stage c).acked = true
    · -- the last acknowledgement: no other handler is at work
      refine .last id hmem ?_ ?_ ?_ hput ?_
      · intro c hc
        by_cases hci : c = id
        · subst hci
          simp [setStage, Stage.acked]
        · simp only [setStage, Function.update_of_ne hci]
          exact hall c hc hci
      · simp [setStage, Stage.active]
      · intro c hci
        simp only [setStage, Function.update_of_ne hci]
        by_cases hc : c ∈ m.children
        · exact hok hall c hc
        · rcases h.others c hc with hs | hs <;> simp [hs, Stage.active]
      · simp [setStage]
    · push Not at hall
      obtain ⟨c, hc, hci, hwaits⟩ := hall
      refine .collecting c hc ?_ hput ?_
      · simp only [setStage, Function.update_of_ne hci]
        exact eq_false_of_ne_true hwaits
      · intro k
        by_cases hki : k = id
        · subst hki
          simp [setStage]
        · simp only [setStage, Function.update_of_ne hki]
          exact hnone k
  · intro k b hk
    by_cases hki : k = id
    · subst hki
      rw [AList.lookup_insert, Option.some.injEq] at hk
      subst hk
      simp [setStage, Stage.acked]
    · rw [AList.lookup_insert_ne hki] at hk
      simp only [setStage, Function.update_of_ne hki]
      exact h.flag k b hk
  · intro k b hk hik
    by_cases hki : k = id
    · subst hki
      simp [setStage] at hik
    · rw [AList.lookup_insert_ne hki] at hk
      simp only [setStage, Function.update_of_ne hki] at hik
      exact h.registered k b hk hik
  · intro k hk
    obtain ⟨hc, hidle⟩ := h.unvisited k hk
    have hki : k ≠ id := by
      rintro rfl
      simp [hidle] at hasked
    simp only [setStage, Function.update_of_ne hki]
    exact ⟨hc, hidle⟩
  · intro k hk
    obtain ⟨hc, hun, hidle⟩ := h.current k hk
    have hki : k ≠ id := by
      rintro rfl
      simp [hidle] at hasked
    simp only [setStage, Function.update_of_ne hki]
    exact ⟨hc, hun, hidle⟩
  · intro k key hkey
    refine hmono _ key rfl ?_
    by_cases hki : k = id
    · subst hki
      simp [setStage, Stage.seen] at hkey
    · simp only [setStage, Function.update_of_ne hki] at hkey
      exact h.seen k key hkey
  · intro k hk
    have hki : k ≠ id := by
      rintro rfl
      exact hk hmem
    simp only [setStage, Function.update_of_ne hki]
    exact h.others k hk

theorem Inv.visit (h : m.Inv) {key : ℕ} (hs : m.step (.visit id key) = .ok m') : m'.Inv := by
  simp only [step] at hs
  split at hs
  case h_2 => cases hs
  case h_1 start seen flag hst hflag =>
  split at hs
  · cases hs
  cases hs
  have hid : (m.stage id).active = true := by
    rw [hst]
    rfl
  have hseen : ∀ k ∈ seen, (m.stage k).acked = true := by
    intro k hk
    refine h.seen id k ?_
    rw [hst]
    exact hk
  have hkey := h.flag key flag hflag
  cases flag with
  | true =>
    rw [if_pos rfl]
    refine h.move hid (s := .ranging start (key :: seen)) rfl ?_ rfl rfl rfl rfl rfl
      (h.phase.collecting_move hid rfl (by simp) fun _ => rfl)
    intro k hk
    rcases List.mem_cons.mp hk with rfl | hk
    · exact hkey.symm
    · exact hseen k hk
  | false =>
    rw [if_neg (by simp)]
    refine h.move hid (s := .done) rfl (by simp [Stage.seen]) rfl rfl rfl rfl rfl
      (h.phase.collecting_move hid rfl (by simp) ?_)
    intro hall
    exact absurd (h.flag_of_allAcked hall hflag) (by simp)

theorem Inv.endRange (h : m.Inv) (hok : m.Orderly (.endRange id))
    (hs : m.step (.endRange id) = .ok m') : m'.Inv := by
  simp only [step] at hs
  split at hs
  case h_2 => cases hs
  case h_1 start seen hst =>
  split at hs
  case isFalse => cases hs
  cases hs
  have hid : (m.stage id).active = true := by
    rw [hst]
    rfl
  have hall : m.AllAcked := fun c hc => h.seen id c (hok hc)
  obtain ⟨_, halone, hput⟩ := h.phase.of_past hid (h.mem_children hid) (.inr (.inr hall))
  exact h.move hid (s := .checking) rfl (by simp [Stage.seen]) rfl rfl rfl rfl rfl
    (.last_move hid (h.mem_children hid) hall halone hput rfl (by simp))

theorem Inv.check (h : m.Inv) (hok : m.Orderly (.check id)) (hs : m.step (.check id) = .ok m') :
    m'.Inv := by
  simp only [step] at hs
  split at hs
  case isFalse => cases hs
  case isTrue hst =>
  have hchan : m.nodeInfoChan = 0 := hok
  rw [if_pos hchan] at hs
  cases hs
  have hid : (m.stage id).active = true := by
    rw [hst]
    rfl
  obtain ⟨hall, halone, hput⟩ := h.phase.of_past hid (h.mem_children hid) (.inl hst)
  exact h.move hid (s := .sending) rfl (by simp [Stage.seen]) rfl rfl rfl rfl rfl
    (.last_move hid (h.mem_children hid) hall halone hput rfl fun _ => hchan)

theorem Inv.put (h : m.Inv) (hs : m.step (.put id) = .ok m') : m'.Inv := by
  simp only [step] at hs
  split at hs
  case isFalse => cases hs
  case isTrue hen =>
  cases hs
  have hid : (m.stage id).active = true := by
    rw [hen.1]
    rfl
  obtain ⟨hall, halone, hput⟩ := h.phase.of_past hid (h.mem_children hid) (.inr (.inl hen.1))
  refine h.move hid (s := .done) rfl (by simp [Stage.seen]) rfl rfl rfl rfl rfl
    (.complete (List.ne_nil_of_mem (h.mem_children hid)) ?_ ?_ ?_)
  · intro k hk
    exact (acked_update (s := .done) (active_acked hid).symm k).trans (hall k hk)
  · intro c
    by_cases hc : c = id
    · subst hc
      simp [setStage, Stage.active]
    · simp only [setStage, Function.update_of_ne hc]
      exact halone c hc
  · show m.put + 1 = 1
    rw [hput]

theorem Inv.setChan (h : m.Inv) {n : ℕ} (hn : ∀ c ∈ m.children, m.stage c = .sending → n = 0) :
    { m with nodeInfoChan := n, held := k }.Inv := by
  refine ⟨?_, h.flag, h.registered, h.nodup, h.unvisited, h.current, h.seen, h.others⟩
  cases h.phase with
  | idle children put => exact .idle children put
  | collecting c mem waits put none => exact .collecting c mem waits put none
  | last l mem acked active alone put chan =>
    exact .last l mem acked active alone put (hn l mem)
  | complete mem acked quiet put => exact .complete mem acked quiet put

theorem Inv.step {a : Label} (h : m.Inv) (hok : m.Orderly a) (hs : m.step a = .ok m') :
    m'.Inv := by
  cases a with
  | sendNodeInfo sessions => exact h.sendNodeInfo hok hs
  | register id => exact h.register hs
  | sendPacket => exact h.sendPacket hs
  | ack id => exact h.ack hok hs
  | visit id key => exact h.visit hs
  | endRange id => exact h.endRange hok hs
  | check id => exact h.check hok hs
  | put id => exact h.put hs
  | take =>
    simp only [Manager.step] at hs
    split at hs <;> cases hs
    exact h.setChan fun _ _ _ => rfl
  | refill =>
    simp only [Manager.step] at hs
    split at hs <;> cases hs
    refine h.setChan ?_
    intro c hc hsend
    exact absurd hsend (hok c hc)

/-- In every interleaving whose steps are orderly: a handler has put a token only if every child has
acknowledged, the round has at most one token, it has one when all its acknowledgements have been
handled, and no handler waits for room on the channel. -/
theorem one_token_after_all_acks {as : List Label} (h : Run step Orderly init as m) :
    (0 < m.put → m.AllAcked) ∧ m.put ≤ 1 ∧ (m.Complete → m.put = 1) ∧
      ∀ id, m.stage id = .sending → m.nodeInfoChan = 0 := by
  have hinv : m.Inv := h.invariant Inv init_inv fun s a s' hi hok hs => hi.step hok hs
  refine ⟨?_, ?_, ?_, ?_⟩
  · intro hpos
    cases hinv.phase with
    | idle children put => omega
    | collecting c mem waits put none => omega
    | last l mem acked active alone put chan => exact acked
    | complete mem acked quiet put => exact acked
  · cases hinv.phase with
    | idle children put => omega
    | collecting c mem waits put none => omega
    | last l mem acked active alone put chan => omega
    | complete mem acked quiet put => omega
  · rintro ⟨hne, hdone⟩
    cases hinv.phase with
    | idle children put => exact absurd children hne
    | collecting c mem waits put none => simp [hdone c mem, Stage.acked] at waits
    | last l mem acked active alone put chan => simp [hdone l mem, Stage.active] at active
    | complete mem acked quiet put => exact put
  · intro id hid
    cases hinv.phase with
    | idle children put =>
      rcases hinv.others id (by simp [children]) with hs | hs <;> simp [hs] at hid
    | collecting c mem waits put none => exact absurd hid (none id).2
    | last l mem acked active alone put chan =>
      by_cases hl : id = l
      · subst hl
        exact chan hid
      · have := alone id hl
        simp [hid, Stage.active] at this
    | complete mem acked quiet put =>
      have := quiet id
      simp [hid, Stage.active] at this

/-- Two children, and a third in a second round that begins while the first token is held. -/
def twoRounds : List Label :=
  [.sendNodeInfo [1, 2], .register 2, .sendPacket, .register 1, .sendPacket, .ack 1, .visit 1 2,
    .ack 2, .visit 2 1, .visit 2 2, .endRange 2, .check 2, .put 2, .take,
    .sendNodeInfo [3], .register 3, .sendPacket, .ack 3, .visit 3 3, .visit 3 2, .visit 3 1,
    .endRange 3, .check 3, .put 3]

theorem one_token_after_all_acks_rounds :
    ∃ m, Run step Orderly init twoRounds m ∧ m.Complete ∧ m.put = 1 := by
  obtain ⟨m, hrun, hP⟩ := Run.exists_of_exec step init twoRounds
    (fun m => decide (m.children = [3] ∧ m.stage 3 = .done))
    (show Guarded step Orderly init twoRounds by decide +kernel) (by decide +kernel)
  obtain ⟨hc, hdone⟩ := of_decide_eq_true hP
  have hcomplete : m.Complete := by
    refine ⟨by simp [hc], ?_⟩
    intro id hid
    rw [hc, List.mem_singleton] at hid
    rw [hid, hdone]
  exact ⟨m, hrun, hcomplete, (one_token_after_all_acks hrun).2.2.1 hcomplete⟩

def earlyAck : List Label :=
  [.sendNodeInfo [1, 2], .register 1, .sendPacket, .ack 1, .visit 1 1, .endRange 1, .check 1, .put 1]

def lateAck : List Label :=
  [.take, .register 2, .sendPacket, .ack 2, .visit 2 1, .visit 2 2, .endRange 2, .check 2, .put 2]

/-- The handler of the first acknowledgement finds no false flag and puts a token before the second
child has been asked; the handler of the second one puts another. -/
theorem token_before_acks :
    (∃ m, Run step always init earlyAck m ∧ m.put = 1 ∧ 2 ∈ m.children ∧ m.stage 2 = .idle) ∧
    ∃ m, Run step always init (earlyAck ++ lateAck) m ∧ m.children = [1, 2] ∧ m.stage 1 = .done ∧
      m.stage 2 = .done ∧ m.put = 2 := by
  constructor
  · obtain ⟨m, hrun, hP⟩ := Run.exists_of_exec step init earlyAck
      (fun m => decide (m.put = 1 ∧ 2 ∈ m.children ∧ m.stage 2 = .idle))
      (Guarded.always _) (by decide +kernel)
    exact ⟨m, hrun, of_decide_eq_true hP⟩
  · obtain ⟨m, hrun, hP⟩ := Run.exists_of_exec step init (earlyAck ++ lateAck)
      (fun m => decide (m.children = [1, 2] ∧ m.stage 1 = .done ∧ m.stage 2 = .done ∧ m.put = 2))
      (Guarded.always _) (by decide +kernel)
    exact ⟨m, hrun, of_decide_eq_true hP⟩

end Manager

end Mp2bs.Mp2session.NodeInfo
