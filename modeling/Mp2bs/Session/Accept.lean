import Mp2bs.Go
import Mp2bs.Lib.Machine

/-!
# Accepting multipath sessions (`session/session_manager.go`)

`Accept` makes a new `numPathChan`, takes the number of paths of one Hello packet from it, sets the
field to nil, and then takes as many sessions from `sessionChan` as the session has paths. The goroutine
of a listener receives Hello packets one after the other; it sends the number of paths if the field is
not nil, and reads the field again for the send (`session_manager.go:175-176`). A client opens its second
path when the first has been acknowledged (`session.go:384-396`). Clients stand for their session ids,
which are taken to differ and not to be 0.
-/

namespace Mp2bs.Session.Accept
open Mp2bs.Lib.Machine

inductive Nics
  | one
  | two
  deriving Repr, DecidableEq

def Nics.count : Nics → ℕ
  | .one => 1
  | .two => 2

/-- Where a connection is. A send on a nil channel waits for ever. -/
inductive Stage
  | none
  | hello
  | checked
  | sending (numPathChan : Option ℕ)
  | got
  | delivering
  | done
  deriving Repr, DecidableEq

inductive Call
  | idle
  | waitNum (numPathChan : ℕ)
  | gotNum (remoteNumPath : ℕ)
  | waits (left : ℕ) (sess : Option ℕ)
  deriving Repr, DecidableEq

def Call.isWaiting : Call → Bool
  | .waitNum _ => true
  | _ => false

/-- A connection is a client with whether it is the client's second. Channels have numbers.
`returned` has each returned session with its paths at that time, `received` the numbers of paths
that `Accept` took, with their clients. -/
structure Manager where
  numPathChan : Option ℕ
  nextChan : ℕ
  call : Call
  listenFlag : Bool
  occupant : ℕ → Option (ℕ × Bool)
  stage : ℕ × Bool → Stage
  paths : ℕ → ℕ
  returned : List (ℕ × ℕ)
  received : List (ℕ × ℕ)

inductive Label
  | accept
  | connect (client listener : ℕ)
  | connectSecond (client : ℕ)
  | check (listener : ℕ)
  | evaluate (listener : ℕ)
  | receiveNumPath (listener : ℕ)
  | clearChan
  | addStream (listener : ℕ)
  | deliver (listener : ℕ)
  | returns
  deriving Repr, DecidableEq

namespace Manager

def init : Manager where
  numPathChan := none
  nextChan := 0
  call := .idle
  listenFlag := false
  occupant := fun _ => none
  stage := fun _ => .none
  paths := fun _ => 0
  returned := []
  received := []

def setStage (m : Manager) (x : ℕ × Bool) (stage : Stage) : Manager :=
  { m with stage := Function.update m.stage x stage }

def need (server : Nics) (nics : ℕ → Nics) (client : ℕ) : ℕ :=
  max server.count (nics client).count

/-- The listener of a second connection (`session.go:384-396`). -/
def secondListener : Nics → ℕ
  | .one => 0
  | .two => 1

/-- What the goroutine of a listener does with its connection. -/
def onListener (m : Manager) (i : ℕ) (k : ℕ × Bool → Except Stop Manager) : Except Stop Manager :=
  match m.occupant i with
  | none => .error .blocked
  | some x => k x

def step (server : Nics) (nics : ℕ → Nics) (m : Manager) : Label → Except Stop Manager
  | .accept =>
    if m.call = .idle then
      .ok { m with
        numPathChan := some m.nextChan
        nextChan := m.nextChan + 1
        call := .waitNum m.nextChan
        listenFlag := true }
    else .error .blocked
  | .connect c i =>
    if m.listenFlag ∧ i < server.count ∧ m.occupant i = none ∧ m.stage (c, false) = .none then
      .ok { m.setStage (c, false) .hello with
        occupant := Function.update m.occupant i (some (c, false)) }
    else .error .blocked
  | .connectSecond c =>
    let i := secondListener server
    if need server nics c = 2 ∧ (m.stage (c, false) = .delivering ∨ m.stage (c, false) = .done) ∧
        m.stage (c, true) = .none ∧ m.occupant i = none then
      .ok { m.setStage (c, true) .hello with
        occupant := Function.update m.occupant i (some (c, true)) }
    else .error .blocked
  | .check i => m.onListener i fun x =>
    if m.stage x = .hello then
      .ok (m.setStage x (if m.numPathChan = none then .got else .checked))
    else .error .blocked
  | .evaluate i => m.onListener i fun x =>
    if m.stage x = .checked then .ok (m.setStage x (.sending m.numPathChan)) else .error .blocked
  | .receiveNumPath i => m.onListener i fun x =>
    match m.stage x, m.call with
    | .sending (some g), .waitNum g' =>
      if g = g' then
        .ok { m.setStage x .got with
          call := .gotNum (nics x.1).count
          received := m.received ++ [(x.1, (nics x.1).count)] }
      else .error .blocked
    | _, _ => .error .blocked
  | .clearChan => match m.call with
    | .gotNum n => .ok { m with numPathChan := none, call := .waits (max server.count n) none }
    | _ => .error .blocked
  | .addStream i => m.onListener i fun x =>
    if m.stage x = .got then
      .ok { m.setStage x .delivering with
        paths := Function.update m.paths x.1 (m.paths x.1 + 1) }
    else .error .blocked
  | .deliver i => m.onListener i fun x =>
    match m.stage x, m.call with
    | .delivering, .waits (left + 1) _ =>
      .ok { m.setStage x .done with
        call := .waits left (some x.1)
        occupant := Function.update m.occupant i none }
    | _, _ => .error .blocked
  | .returns => match m.call with
    | .waits 0 (some c) =>
      .ok { m with call := .idle, returned := m.returned ++ [(c, m.paths c)] }
    | _ => .error .blocked

/-- A first Hello packet is checked while `Accept` waits for one and no other connection is past
its check; a second one is checked after `Accept` has cleared the channel. -/
def Alone (m : Manager) : Label → Prop
  | .check i => ∀ x ∈ m.occupant i,
    (x.2 = true → m.numPathChan = none) ∧
      (x.2 = false → m.call.isWaiting = true ∧
        ∀ j < 2, j ≠ i → ∀ y ∈ m.occupant j, m.stage y = .hello)
  | _ => True

/-! ### One client at a time -/

section
variable (server : Nics) (nics : ℕ → Nics)

/-- A client that `Accept` is not occupied with: it has come to its first Hello packet at most, or
its session has been returned with all of its paths. -/
inductive Settled (m : Manager) (d : ℕ) : Prop
  | fresh (first : m.stage (d, false) = .none ∨ m.stage (d, false) = .hello)
      (second : m.stage (d, true) = .none) (paths : m.paths d = 0)
      (ret : ∀ k, (d, k) ∉ m.returned)
  | finished (first : m.stage (d, false) = .done)
      (second : m.stage (d, true) = if need server nics d = 2 then .done else .none)
      (ret : ∃ k, (d, k) ∈ m.returned) (num : (d, (nics d).count) ∈ m.received)

def attached : Stage → ℕ
  | .delivering => 1
  | .done => 1
  | _ => 0

def delivered : Stage → ℕ
  | .done => 1
  | _ => 0

structure Current (m : Manager) (c left : ℕ) : Prop where
  first : m.stage (c, false) = .got ∨ m.stage (c, false) = .delivering ∨ m.stage (c, false) = .done
  second : m.stage (c, true) = .none ∨ need server nics c = 2 ∧
    attached (m.stage (c, false)) = 1 ∧ (m.stage (c, true) = .hello ∨ m.stage (c, true) = .got ∨
      m.stage (c, true) = .delivering ∨ m.stage (c, true) = .done)
  left : left + delivered (m.stage (c, false)) + delivered (m.stage (c, true)) =
    need server nics c
  paths : m.paths c = attached (m.stage (c, false)) + attached (m.stage (c, true))
  ret : ∀ k, (c, k) ∉ m.returned
  num : (c, (nics c).count) ∈ m.received

inductive Phase (m : Manager) : Prop
  | idle (call : m.call = .idle) (all : ∀ d, Settled server nics m d)
  | waiting (g : ℕ) (call : m.call = .waitNum g) (chan : m.numPathChan = some g)
      (all : ∀ d, Settled server nics m d)
  | sending (g c : ℕ) (call : m.call = .waitNum g) (chan : m.numPathChan = some g)
      (others : ∀ d, d ≠ c → Settled server nics m d)
      (first : m.stage (c, false) = .checked ∨ m.stage (c, false) = .sending (some g))
      (second : m.stage (c, true) = .none) (paths : m.paths c = 0)
      (ret : ∀ k, (c, k) ∉ m.returned)
  | got (c : ℕ) (call : m.call = .gotNum (nics c).count) (chan : m.numPathChan ≠ none)
      (others : ∀ d, d ≠ c → Settled server nics m d)
      (current : Current server nics m c (need server nics c))
  | waits (c left : ℕ) (sess : Option ℕ) (call : m.call = .waits left sess)
      (chan : m.numPathChan = none) (others : ∀ d, d ≠ c → Settled server nics m d)
      (current : Current server nics m c left) (sess_eq : ∀ d ∈ sess, d = c)

def Held (m : Manager) : Prop :=
  ∀ x, m.stage x ≠ .none → m.stage x ≠ .done → ∃ j < 2, m.occupant j = some x

structure Inv (m : Manager) : Prop where
  phase : Phase server nics m
  held : m.Held
  returned : ∀ c k, (c, k) ∈ m.returned → k = need server nics c
  nodup : (m.returned.map Prod.fst).Nodup

end

variable {server : Nics} {nics : ℕ → Nics} {m m' : Manager}

theorem init_inv : Inv server nics init := by
  refine ⟨.idle rfl fun d => .fresh (.inl rfl) rfl rfl (by simp [init]), ?_, by simp [init],
    by simp [init]⟩
  intro x hx
  exact absurd rfl hx

variable {d i c left : ℕ} {x : ℕ × Bool} {b : Bool}

theorem Settled.frame (h : Settled server nics m d) (hstage : ∀ b, m'.stage (d, b) = m.stage (d, b))
    (hpaths : m'.paths d = m.paths d) (hret : ∀ k, (d, k) ∈ m'.returned ↔ (d, k) ∈ m.returned)
    (hrec : ∀ k, (d, k) ∈ m.received → (d, k) ∈ m'.received) : Settled server nics m' d := by
  cases h with
  | fresh first second paths ret =>
    refine .fresh ?_ ?_ ?_ ?_
    · rw [hstage]
      exact first
    · rw [hstage]
      exact second
    · rw [hpaths]
      exact paths
    · intro k hk
      exact ret k ((hret k).mp hk)
  | finished first second ret num =>
    refine .finished ?_ ?_ ?_ (hrec _ num)
    · rw [hstage]
      exact first
    · rw [hstage]
      exact second
    · obtain ⟨k, hk⟩ := ret
      exact ⟨k, (hret k).mpr hk⟩

theorem stage_ne (h : d ≠ x.1) (st : Stage) (b : Bool) :
    Function.update m.stage x st (d, b) = m.stage (d, b) := by
  apply Function.update_of_ne
  intro heq
  exact h (congrArg Prod.fst heq)

theorem Settled.setStage (h : Settled server nics m d) (hd : d ≠ x.1) (st : Stage) :
    Settled server nics (m.setStage x st) d :=
  h.frame (fun b => stage_ne hd st b) rfl (fun _ => Iff.rfl) fun _ hk => hk

theorem need_pos (server : Nics) (nics : ℕ → Nics) (c : ℕ) : 0 < need server nics c := by
  unfold need
  cases server <;> simp [Nics.count]

theorem need_le (server : Nics) (nics : ℕ → Nics) (c : ℕ) : need server nics c ≤ 2 := by
  unfold need
  cases server <;> cases nics c <;> simp [Nics.count]

theorem onListener_ok {k : ℕ × Bool → Except Stop Manager} (h : m.onListener i k = .ok m') :
    ∃ x, m.occupant i = some x ∧ k x = .ok m' := by
  unfold onListener at h
  split at h
  · cases h
  · exact ⟨_, ‹_›, h⟩

theorem Held.setStage (h : m.Held) (hx : m.occupant i = some x) (hst : m.stage x ≠ .none)
    (hst' : m.stage x ≠ .done) (st : Stage) : (m.setStage x st).Held := by
  intro y hy hy'
  by_cases heq : y = x
  · subst heq
    exact h y hst hst'
  · simp only [Manager.setStage, Function.update_of_ne heq] at hy hy'
    exact h y hy hy'

theorem Held.occupy (h : m.Held) (hi : i < 2) (hfree : m.occupant i = none) :
    { m.setStage x .hello with
      occupant := Function.update m.occupant i (some x) }.Held := by
  intro y hy hy'
  by_cases heq : y = x
  · subst heq
    exact ⟨i, hi, Function.update_self ..⟩
  · simp only [Manager.setStage, Function.update_of_ne heq] at hy hy'
    obtain ⟨j, hj, hocc⟩ := h y hy hy'
    refine ⟨j, hj, ?_⟩
    have hne : j ≠ i := by
      intro hji
      rw [hji, hfree] at hocc
      cases hocc
    simp only [Function.update_of_ne hne]
    exact hocc

theorem Settled.stage (h : Settled server nics m d) (b : Bool) :
    m.stage (d, b) = .none ∨ m.stage (d, b) = .hello ∧ b = false ∨ m.stage (d, b) = .done := by
  cases h with
  | fresh first second paths ret =>
    cases b with
    | false =>
      rcases first with h | h
      · exact .inl h
      · exact .inr (.inl ⟨h, rfl⟩)
    | true => exact .inl second
  | finished first second ret num =>
    cases b with
    | false => exact .inr (.inr first)
    | true =>
      rw [second]
      split
      · exact .inr (.inr rfl)
      · exact .inl rfl

theorem Inv.accept (h : Inv server nics m) (hcall : m.call = .idle) :
    Inv server nics { m with
      numPathChan := some m.nextChan
      nextChan := m.nextChan + 1
      call := .waitNum m.nextChan
      listenFlag := true } := by
  refine ⟨?_, h.held, h.returned, h.nodup⟩
  cases h.phase with
  | idle _ all =>
    exact .waiting m.nextChan rfl rfl fun d =>
      (all d).frame (fun _ => rfl) rfl (fun _ => Iff.rfl) fun _ hk => hk
  | waiting _ call _ _ => simp [hcall] at call
  | sending _ _ call _ _ _ _ _ _ | got _ call _ _ _ | waits _ _ _ call _ _ _ _ => simp [hcall] at call

theorem Settled.connect (h : Settled server nics m c) (hnone : m.stage (c, false) = .none)
    (occupant : ℕ → Option (ℕ × Bool)) :
    Settled server nics { m.setStage (c, false) .hello with occupant := occupant } c := by
  cases h with
  | fresh first second paths ret =>
    refine .fresh (.inr (Function.update_self ..)) ?_ paths ret
    have hne : (c, true) ≠ (c, false) := by simp
    exact (Function.update_of_ne hne ..).trans second
  | finished first _ _ _ =>
    rw [first] at hnone
    cases hnone

theorem Current.frame (h : Current server nics m c left)
    (hstage : ∀ b, m'.stage (c, b) = m.stage (c, b)) (hpaths : m'.paths c = m.paths c)
    (hret : m'.returned = m.returned) (hrec : m'.received = m.received) :
    Current server nics m' c left := by
  refine ⟨?_, ?_, ?_, ?_, ?_, ?_⟩
  · rw [hstage]
    exact h.first
  · rw [hstage, hstage]
    exact h.second
  · rw [hstage, hstage]
    exact h.left
  · rw [hstage, hstage, hpaths]
    exact h.paths
  · rw [hret]
    exact h.ret
  · rw [hrec]
    exact h.num

theorem Inv.connect (h : Inv server nics m) (hi : i < server.count) (hfree : m.occupant i = none)
    (hnone : m.stage (c, false) = .none) :
    Inv server nics { m.setStage (c, false) .hello with
      occupant := Function.update m.occupant i (some (c, false)) } := by
  have hi2 : i < 2 := by
    cases server <;> simp only [Nics.count] at hi <;> omega
  refine ⟨?_, h.held.occupy hi2 hfree, h.returned, h.nodup⟩
  have hone : ∀ d, Settled server nics m d → Settled server nics
      { m.setStage (c, false) .hello with
        occupant := Function.update m.occupant i (some (c, false)) } d := by
    intro d hd
    by_cases hdc : d = c
    · subst hdc
      exact hd.connect hnone _
    · exact hd.frame (fun b => stage_ne hdc _ b) rfl (fun _ => Iff.rfl) fun _ hk => hk
  cases h.phase with
  | idle call all => exact .idle call fun d => hone d (all d)
  | waiting g call chan all => exact .waiting g call chan fun d => hone d (all d)
  | sending g e call chan others first second paths ret =>
    have hec : e ≠ c := by
      intro heq
      subst heq
      rw [hnone] at first
      simp at first
    refine .sending g e call chan (fun d hd => hone d (others d hd)) ?_ ?_ paths ret
    · simp only [Manager.setStage, stage_ne (show e ≠ (c, false).1 from hec)]
      exact first
    · simp only [Manager.setStage, stage_ne (show e ≠ (c, false).1 from hec)]
      exact second
  | got e call chan others current =>
    have hec : e ≠ c := by
      intro heq
      subst heq
      have := current.first
      rw [hnone] at this
      simp at this
    exact .got e call chan (fun d hd => hone d (others d hd))
      (current.frame (fun b => stage_ne (show e ≠ (c, false).1 from hec) _ b) rfl rfl rfl)
  | waits e left sess call chan others current sess_eq =>
    have hec : e ≠ c := by
      intro heq
      subst heq
      have := current.first
      rw [hnone] at this
      simp at this
    exact .waits e left sess call chan (fun d hd => hone d (others d hd))
      (current.frame (fun b => stage_ne (show e ≠ (c, false).1 from hec) _ b) rfl rfl rfl) sess_eq

theorem Phase.current_of (h : Phase server nics m) (hx : m.stage x ≠ .none) (hd : m.stage x ≠ .done)
    (hh : m.stage x = .hello → x.2 = true) :
    (∃ g, m.call = .waitNum g ∧ m.numPathChan = some g ∧
      (∀ d, d ≠ x.1 → Settled server nics m d) ∧
      (m.stage (x.1, false) = .checked ∨ m.stage (x.1, false) = .sending (some g)) ∧
      m.stage (x.1, true) = .none ∧ m.paths x.1 = 0 ∧ ∀ k, (x.1, k) ∉ m.returned) ∨
    (m.call = .gotNum (nics x.1).count ∧ m.numPathChan ≠ none ∧
      (∀ d, d ≠ x.1 → Settled server nics m d) ∧
      Current server nics m x.1 (need server nics x.1)) ∨
    ∃ left sess, m.call = .waits left sess ∧ m.numPathChan = none ∧
      (∀ d, d ≠ x.1 → Settled server nics m d) ∧ Current server nics m x.1 left ∧
      ∀ d ∈ sess, d = x.1 := by
  have hsettled : ¬Settled server nics m x.1 := by
    intro hs
    rcases hs.stage x.2 with h | ⟨h, hb⟩ | h
    · exact hx h
    · rw [hh h] at hb
      cases hb
    · exact hd h
  have heq : ∀ {c : ℕ}, (∀ d, d ≠ c → Settled server nics m d) → c = x.1 := by
    intro c others
    by_contra hne
    exact hsettled (others x.1 (Ne.symm hne))
  cases h with
  | idle _ all | waiting _ _ _ all => exact absurd (all x.1) hsettled
  | sending g c call chan others first second paths ret =>
    obtain rfl := heq others
    exact .inl ⟨g, call, chan, others, first, second, paths, ret⟩
  | got c call chan others current =>
    obtain rfl := heq others
    exact .inr (.inl ⟨call, chan, others, current⟩)
  | waits c left sess call chan others current sess_eq =>
    obtain rfl := heq others
    exact .inr (.inr ⟨left, sess, call, chan, others, current, sess_eq⟩)

theorem Current.connectSecond (h : Current server nics m c left) (hneed : need server nics c = 2)
    (hfirst : m.stage (c, false) = .delivering ∨ m.stage (c, false) = .done)
    (hnone : m.stage (c, true) = .none) (occupant : ℕ → Option (ℕ × Bool)) :
    Current server nics { m.setStage (c, true) .hello with occupant := occupant } c left := by
  have hf : Function.update m.stage (c, true) .hello (c, false) = m.stage (c, false) := by simp
  have hs : Function.update m.stage (c, true) .hello (c, true) = .hello :=
    Function.update_self ..
  have hatt : attached (m.stage (c, false)) = 1 := by
    rcases hfirst with h | h <;> rw [h] <;> rfl
  have hleft := h.left
  have hpaths := h.paths
  rw [hnone] at hleft hpaths
  refine ⟨?_, .inr ⟨hneed, ?_, .inl hs⟩, ?_, ?_, h.ret, h.num⟩
  · simp only [Manager.setStage, hf]
    exact h.first
  · simp only [Manager.setStage, hf]
    exact hatt
  · simp only [Manager.setStage, hf, hs]
    exact hleft
  · simp only [Manager.setStage, hf, hs]
    exact hpaths

theorem Inv.connectSecond (h : Inv server nics m) (hneed : need server nics c = 2)
    (hfirst : m.stage (c, false) = .delivering ∨ m.stage (c, false) = .done)
    (hnone : m.stage (c, true) = .none) (hfree : m.occupant (secondListener server) = none) :
    Inv server nics { m.setStage (c, true) .hello with
      occupant := Function.update m.occupant (secondListener server) (some (c, true)) } := by
  have hi2 : secondListener server < 2 := by
    cases server <;> simp [secondListener]
  refine ⟨?_, h.held.occupy hi2 hfree, h.returned, h.nodup⟩
  have hsettled : ¬Settled server nics m c := by
    intro hs
    cases hs with
    | fresh first _ _ _ =>
      rcases first with hf | hf <;> rw [hf] at hfirst <;> simp at hfirst
    | finished _ second _ _ =>
      rw [hnone, if_pos hneed] at second
      cases second
  have hone : ∀ d, d ≠ c → Settled server nics m d → Settled server nics
      { m.setStage (c, true) .hello with
        occupant := Function.update m.occupant (secondListener server) (some (c, true)) } d :=
    fun d hd hs => hs.frame (fun b => stage_ne hd _ b) rfl (fun _ => Iff.rfl) fun _ hk => hk
  have heq : ∀ {e : ℕ}, (∀ d, d ≠ e → Settled server nics m d) → e = c := by
    intro e others
    by_contra hne
    exact hsettled (others c (Ne.symm hne))
  cases h.phase with
  | idle _ all | waiting _ _ _ all => exact absurd (all c) hsettled
  | sending g e call chan others first second paths ret =>
    obtain rfl := heq others
    rcases first with hf | hf <;> rw [hf] at hfirst <;> simp at hfirst
  | got e call chan others current =>
    obtain rfl := heq others
    exact .got e call chan (fun d hd => hone d hd (others d hd))
      (current.connectSecond hneed hfirst hnone _)
  | waits e left sess call chan others current sess_eq =>
    obtain rfl := heq others
    exact .waits e left sess call chan (fun d hd => hone d hd (others d hd))
      (current.connectSecond hneed hfirst hnone _) sess_eq

theorem Inv.checkFirst (h : Inv server nics m) (hocc : m.occupant i = some (c, false))
    (hst : m.stage (c, false) = .hello) (hcall : m.call.isWaiting = true)
    (halone : ∀ j < 2, j ≠ i → ∀ y ∈ m.occupant j, m.stage y = .hello) :
    Inv server nics (m.setStage (c, false) .checked) ∧ m.numPathChan ≠ none := by
  have hheld := h.held.setStage hocc (by rw [hst]; decide) (by rw [hst]; decide) .checked
  cases h.phase with
  | idle call _ | got _ call _ _ _ | waits _ _ _ call _ _ _ _ => simp [call, Call.isWaiting] at hcall
  | waiting g call chan all =>
    refine ⟨⟨.sending g c call chan ?_ (.inl (Function.update_self ..)) ?_ ?_ ?_, hheld,
      h.returned, h.nodup⟩, by rw [chan]; simp⟩
    · exact fun d hd => (all d).setStage hd _
    all_goals
      cases all c with
      | fresh first second paths ret =>
        first
          | exact paths
          | exact ret
          | simpa [Manager.setStage] using second
      | finished first _ _ _ =>
        rw [hst] at first
        cases first
  | sending g e call chan others first second paths ret =>
    -- the other connection would be with another listener, past its check
    exfalso
    have hne : m.stage (e, false) ≠ .hello := by
      rcases first with hf | hf <;> rw [hf] <;> simp
    obtain ⟨j, hj, hoccj⟩ := h.held (e, false)
      (by rcases first with hf | hf <;> rw [hf] <;> simp)
      (by rcases first with hf | hf <;> rw [hf] <;> simp)
    by_cases hji : j = i
    · rw [hji, hocc] at hoccj
      simp only [Option.some.injEq] at hoccj
      rw [← hoccj] at hne
      exact hne hst
    · exact hne (halone j hj hji _ hoccj)

theorem Inv.checkSecond (h : Inv server nics m) (hocc : m.occupant i = some (c, true))
    (hst : m.stage (c, true) = .hello) (hchan : m.numPathChan = none) :
    Inv server nics (m.setStage (c, true) .got) := by
  refine ⟨?_, h.held.setStage hocc (by rw [hst]; decide) (by rw [hst]; decide) .got, h.returned,
    h.nodup⟩
  rcases h.phase.current_of (x := (c, true)) (by rw [hst]; decide) (by rw [hst]; decide)
      (fun _ => rfl) with
    ⟨g, -, chan, -⟩ | ⟨-, chan, -⟩ | ⟨left, sess, call, chan, others, current, sess_eq⟩
  · rw [hchan] at chan
    cases chan
  · exact absurd hchan chan
  refine .waits c left sess call chan (fun d hd => (others d hd).setStage hd _) ?_ sess_eq
  have hf : Function.update m.stage (c, true) .got (c, false) = m.stage (c, false) := by simp
  have hs : Function.update m.stage (c, true) .got (c, true) = .got := Function.update_self ..
  have hsecond := current.second
  have hleft := current.left
  have hpaths := current.paths
  rw [hst] at hleft hpaths
  refine ⟨?_, ?_, ?_, ?_, current.ret, current.num⟩
  · simp only [Manager.setStage, hf]
    exact current.first
  · simp only [Manager.setStage, hf, hs]
    rcases hsecond with hnone | ⟨hneed, hatt, -⟩
    · rw [hst] at hnone
      cases hnone
    · exact .inr ⟨hneed, hatt, .inr (.inl trivial)⟩
  · simp only [Manager.setStage, hf, hs]
    exact hleft
  · simp only [Manager.setStage, hf, hs]
    exact hpaths

theorem Current.not_checked (h : Current server nics m c left) (b : Bool) :
    m.stage (c, b) ≠ .checked ∧ ∀ g, m.stage (c, b) ≠ .sending g := by
  cases b with
  | false =>
    rcases h.first with h | h | h <;> rw [h] <;> simp
  | true =>
    rcases h.second with h | ⟨-, -, h | h | h | h⟩ <;> rw [h] <;> simp

theorem Inv.evaluate (h : Inv server nics m) (hocc : m.occupant i = some x)
    (hst : m.stage x = .checked) : Inv server nics (m.setStage x (.sending m.numPathChan)) := by
  obtain ⟨c, b⟩ := x
  refine ⟨?_, h.held.setStage hocc (by rw [hst]; decide) (by rw [hst]; decide) _, h.returned,
    h.nodup⟩
  rcases h.phase.current_of (x := (c, b)) (by rw [hst]; decide) (by rw [hst]; decide)
      (by rw [hst]; intro hh; cases hh) with
    ⟨g, call, chan, others, first, second, paths, ret⟩ | ⟨-, -, -, current⟩ |
      ⟨left, sess, -, -, -, current, -⟩
  · cases b with
    | true =>
      simp only at second
      rw [hst] at second
      cases second
    | false =>
      refine .sending g c call chan (fun d hd => (others d hd).setStage hd _) (.inr ?_) ?_ paths ret
      · simp only [Manager.setStage, Function.update_self, chan]
      · simpa [Manager.setStage] using second
  · exact absurd hst (current.not_checked b).1
  · exact absurd hst (current.not_checked b).1

theorem Inv.receiveNumPath (h : Inv server nics m) {g : ℕ} (hocc : m.occupant i = some x)
    (hst : m.stage x = .sending (some g)) :
    Inv server nics { m.setStage x .got with
      call := .gotNum (nics x.1).count
      received := m.received ++ [(x.1, (nics x.1).count)] } := by
  obtain ⟨c, b⟩ := x
  have hheld := h.held.setStage hocc (by rw [hst]; simp) (by rw [hst]; simp) .got
  refine ⟨?_, hheld, h.returned, h.nodup⟩
  rcases h.phase.current_of (x := (c, b)) (by rw [hst]; simp) (by rw [hst]; simp)
      (by rw [hst]; intro hh; cases hh) with
    ⟨g', call, chan, others, first, second, paths, ret⟩ | ⟨-, -, -, current⟩ |
      ⟨left, sess, -, -, -, current, -⟩
  · cases b with
    | true =>
      simp only at second
      rw [hst] at second
      cases second
    | false =>
      simp only at others second paths ret
      have hs : Function.update m.stage (c, false) .got (c, true) = .none := by
        simpa using second
      have hf : Function.update m.stage (c, false) .got (c, false) = .got :=
        Function.update_self ..
      refine .got c rfl (by simp [Manager.setStage, chan]) ?_ ⟨.inl hf, .inl hs, ?_, ?_, ret, by simp⟩
      · intro d hd
        refine (others d hd).frame (fun b => stage_ne hd _ b) rfl (fun _ => Iff.rfl) ?_
        exact fun _ hk => List.mem_append_left _ hk
      · simp only [Manager.setStage, hf, hs]
        rfl
      · simp only [Manager.setStage, hf, hs]
        exact paths
  · exact absurd hst ((current.not_checked b).2 _)
  · exact absurd hst ((current.not_checked b).2 _)

theorem Inv.clearChan (h : Inv server nics m) {n : ℕ} (hcall : m.call = .gotNum n) :
    Inv server nics { m with
      numPathChan := none, call := .waits (max server.count n) none } := by
  refine ⟨?_, h.held, h.returned, h.nodup⟩
  cases h.phase with
  | idle call _ | waiting _ call _ _ | sending _ _ call _ _ _ _ _ _ | waits _ _ _ call _ _ _ _ => simp [hcall] at call
  | got c call chan others current =>
    rw [hcall] at call
    simp only [Call.gotNum.injEq] at call
    subst call
    exact .waits c (need server nics c) none rfl rfl
      (fun d hd => (others d hd).frame (fun _ => rfl) rfl (fun _ => Iff.rfl) fun _ hk => hk)
      (current.frame (fun _ => rfl) rfl rfl rfl) (by simp)

theorem Current.addStream (h : Current server nics m c left) (hst : m.stage (c, b) = .got) :
    Current server nics { m.setStage (c, b) .delivering with
      paths := Function.update m.paths c (m.paths c + 1) } c left := by
  have hleft := h.left
  have hpaths := h.paths
  cases b with
  | false =>
    have hf : Function.update m.stage (c, false) .delivering (c, false) = .delivering :=
      Function.update_self ..
    have hs : Function.update m.stage (c, false) .delivering (c, true) = m.stage (c, true) := by
      simp
    have hnone : m.stage (c, true) = .none := by
      rcases h.second with hn | ⟨-, hatt, -⟩
      · exact hn
      · rw [hst] at hatt
        cases hatt
    rw [hst] at hleft hpaths
    refine ⟨.inr (.inl hf), .inl (hs.trans hnone), ?_, ?_, h.ret, h.num⟩
    · simp only [Manager.setStage, hf, hs]
      exact hleft
    · simp only [Manager.setStage, hf, hs, Function.update_self, hpaths, attached]
      omega
  | true =>
    have hs : Function.update m.stage (c, true) .delivering (c, true) = .delivering :=
      Function.update_self ..
    have hf : Function.update m.stage (c, true) .delivering (c, false) = m.stage (c, false) := by
      simp
    rw [hst] at hleft hpaths
    refine ⟨?_, ?_, ?_, ?_, h.ret, h.num⟩
    · simp only [Manager.setStage, hf]
      exact h.first
    · simp only [Manager.setStage, hf, hs]
      rcases h.second with hn | ⟨hneed, hatt, -⟩
      · rw [hst] at hn
        cases hn
      · exact .inr ⟨hneed, hatt, .inr (.inr (.inl trivial))⟩
    · simp only [Manager.setStage, hf, hs]
      exact hleft
    · simp only [Manager.setStage, hf, hs, Function.update_self, hpaths, attached]

theorem Inv.addStream (h : Inv server nics m) (hocc : m.occupant i = some x)
    (hst : m.stage x = .got) :
    Inv server nics { m.setStage x .delivering with
      paths := Function.update m.paths x.1 (m.paths x.1 + 1) } := by
  obtain ⟨c, b⟩ := x
  have hheld := h.held.setStage hocc (by rw [hst]; decide) (by rw [hst]; decide) .delivering
  refine ⟨?_, hheld, h.returned, h.nodup⟩
  have hone : ∀ d, d ≠ c → Settled server nics m d → Settled server nics
      { m.setStage (c, b) .delivering with
        paths := Function.update m.paths c (m.paths c + 1) } d := by
    intro d hd hs
    refine hs.frame (fun b' => stage_ne hd _ b') ?_ (fun _ => Iff.rfl) fun _ hk => hk
    exact Function.update_of_ne hd ..
  rcases h.phase.current_of (x := (c, b)) (by rw [hst]; decide) (by rw [hst]; decide)
      (by rw [hst]; intro hh; cases hh) with
    ⟨g, -, -, -, first, second, -⟩ | ⟨call, chan, others, current⟩ |
      ⟨left, sess, call, chan, others, current, sess_eq⟩
  · cases b with
    | true =>
      simp only at second
      rw [hst] at second
      cases second
    | false =>
      simp only at first
      rw [hst] at first
      simp at first
  · exact .got c call chan (fun d hd => hone d hd (others d hd)) (current.addStream hst)
  · exact .waits c left sess call chan (fun d hd => hone d hd (others d hd))
      (current.addStream hst) sess_eq

theorem Current.deliver (h : Current server nics m c (left + 1))
    (hst : m.stage (c, b) = .delivering) (call : Call) (occupant : ℕ → Option (ℕ × Bool)) :
    Current server nics { m.setStage (c, b) .done with call := call, occupant := occupant }
      c left := by
  have hleft := h.left
  have hpaths := h.paths
  cases b with
  | false =>
    have hf : Function.update m.stage (c, false) .done (c, false) = .done :=
      Function.update_self ..
    have hs : Function.update m.stage (c, false) .done (c, true) = m.stage (c, true) := by simp
    rw [hst] at hleft hpaths
    refine ⟨.inr (.inr hf), ?_, ?_, ?_, h.ret, h.num⟩
    · simp only [Manager.setStage, hf, hs]
      rcases h.second with hn | ⟨hneed, -, hst2⟩
      · exact .inl hn
      · exact .inr ⟨hneed, rfl, hst2⟩
    · simp only [Manager.setStage, hf, hs, delivered] at hleft ⊢
      omega
    · simp only [Manager.setStage, hf, hs]
      exact hpaths
  | true =>
    have hs : Function.update m.stage (c, true) .done (c, true) = .done :=
      Function.update_self ..
    have hf : Function.update m.stage (c, true) .done (c, false) = m.stage (c, false) := by simp
    rw [hst] at hleft hpaths
    refine ⟨?_, ?_, ?_, ?_, h.ret, h.num⟩
    · simp only [Manager.setStage, hf]
      exact h.first
    · simp only [Manager.setStage, hf, hs]
      rcases h.second with hn | ⟨hneed, hatt, -⟩
      · rw [hst] at hn
        cases hn
      · exact .inr ⟨hneed, hatt, .inr (.inr (.inr trivial))⟩
    · simp only [Manager.setStage, hf, hs, delivered] at hleft ⊢
      omega
    · simp only [Manager.setStage, hf, hs]
      exact hpaths

theorem Inv.deliver (h : Inv server nics m) {sess : Option ℕ} (hocc : m.occupant i = some x)
    (hst : m.stage x = .delivering) (hcall : m.call = .waits (left + 1) sess) :
    Inv server nics { m.setStage x .done with
      call := .waits left (some x.1)
      occupant := Function.update m.occupant i none } := by
  obtain ⟨c, b⟩ := x
  refine ⟨?_, ?_, h.returned, h.nodup⟩
  · rcases h.phase.current_of (x := (c, b)) (by rw [hst]; decide) (by rw [hst]; decide)
        (by rw [hst]; intro hh; cases hh) with
      ⟨g, call, -⟩ | ⟨call, -⟩ | ⟨left', sess', call, chan, others, current, -⟩
    · simp [hcall] at call
    · simp [hcall] at call
    rw [hcall] at call
    simp only [Call.waits.injEq] at call
    rw [← call.1] at current
    refine .waits c left (some c) rfl chan ?_ (current.deliver hst _ _) (by simp)
    intro d hd
    exact (others d hd).frame (fun b' => stage_ne hd _ b') rfl (fun _ => Iff.rfl) fun _ hk => hk
  · intro y hy hy'
    by_cases heq : y = (c, b)
    · subst heq
      simp [Manager.setStage] at hy'
    · simp only [Manager.setStage, Function.update_of_ne heq] at hy hy'
      obtain ⟨j, hj, hoccj⟩ := h.held y hy hy'
      refine ⟨j, hj, ?_⟩
      have hne : j ≠ i := by
        intro hji
        rw [hji, hocc] at hoccj
        exact heq (Option.some.inj hoccj).symm
      simp only [Function.update_of_ne hne]
      exact hoccj

theorem Current.complete (h : Current server nics m c 0) :
    m.paths c = need server nics c ∧ m.stage (c, false) = .done ∧
      m.stage (c, true) = if need server nics c = 2 then .done else .none := by
  have hleft := h.left
  have hpaths := h.paths
  have hpos := need_pos server nics c
  have hle := need_le server nics c
  rcases h.second with hn | ⟨hneed, -, hst⟩
  · rw [hn] at hleft hpaths
    rcases h.first with hf | hf | hf <;> rw [hf] at hleft hpaths <;>
      simp only [delivered, attached] at hleft hpaths
    · omega
    · omega
    · refine ⟨by omega, hf, ?_⟩
      rw [if_neg (by omega), hn]
  · rw [hneed] at hleft
    rcases hst with hs | hs | hs | hs <;> rw [hs] at hleft hpaths <;>
      rcases h.first with hf | hf | hf <;> rw [hf] at hleft hpaths <;>
      simp only [delivered, attached] at hleft hpaths <;> try omega
    refine ⟨by omega, hf, ?_⟩
    rw [if_pos hneed, hs]

theorem Inv.returns (h : Inv server nics m) (hcall : m.call = .waits 0 (some c)) :
    Inv server nics { m with
      call := .idle, returned := m.returned ++ [(c, m.paths c)] } := by
  cases h.phase with
  | idle call _ | waiting _ call _ _ | sending _ _ call _ _ _ _ _ _ | got _ call _ _ _ => simp [hcall] at call
  | waits e left sess call chan others current sess_eq =>
    rw [hcall] at call
    simp only [Call.waits.injEq] at call
    obtain ⟨rfl, rfl⟩ := call
    obtain rfl := sess_eq c rfl
    obtain ⟨hpaths, hfirst, hsecond⟩ := current.complete
    refine ⟨.idle rfl ?_, h.held, ?_, ?_⟩
    · intro d
      by_cases hd : d = c
      · subst hd
        exact .finished hfirst hsecond ⟨_, List.mem_append_right _ (List.mem_singleton.mpr rfl)⟩
          current.num
      · refine (others d hd).frame (fun _ => rfl) rfl (fun k => ?_) fun _ hk => hk
        simp [hd]
    · intro d k hk
      rcases List.mem_append.mp hk with hk | hk
      · exact h.returned d k hk
      · simp only [List.mem_singleton, Prod.mk.injEq] at hk
        rw [hk.1, hk.2, hpaths]
    · rw [List.map_append, List.map_singleton]
      apply List.Nodup.append h.nodup (List.nodup_singleton _)
      intro d hd hd'
      rw [List.mem_singleton.mp hd'] at hd
      obtain ⟨⟨e, k⟩, hmem, heq⟩ := List.mem_map.mp hd
      simp only at heq
      rw [heq] at hmem
      exact current.ret k hmem

theorem Inv.step (h : Inv server nics m) {a : Label} (halone : m.Alone a)
    (hstep : m.step server nics a = .ok m') : Inv server nics m' := by
  cases a with
  | accept =>
    simp only [Manager.step] at hstep
    split at hstep
    · rename_i hcall
      cases hstep
      exact h.accept hcall
    · cases hstep
  | connect c i =>
    simp only [Manager.step] at hstep
    split at hstep
    · rename_i hok
      cases hstep
      exact h.connect hok.2.1 hok.2.2.1 hok.2.2.2
    · cases hstep
  | connectSecond c =>
    simp only [Manager.step] at hstep
    split at hstep
    · rename_i hok
      cases hstep
      exact h.connectSecond hok.1 hok.2.1 hok.2.2.1 hok.2.2.2
    · cases hstep
  | check i =>
    obtain ⟨⟨c, b⟩, hocc, hk⟩ := onListener_ok hstep
    split at hk
    · rename_i hst
      cases hk
      have hguard := halone (c, b) hocc
      cases b with
      | false =>
        obtain ⟨hwaiting, hothers⟩ := hguard.2 rfl
        obtain ⟨hinv, hchan⟩ := h.checkFirst hocc hst hwaiting hothers
        rw [if_neg hchan]
        exact hinv
      | true =>
        have hchan := hguard.1 rfl
        rw [if_pos hchan]
        exact h.checkSecond hocc hst hchan
    · cases hk
  | evaluate i =>
    obtain ⟨x, hocc, hk⟩ := onListener_ok hstep
    split at hk
    · rename_i hst
      cases hk
      exact h.evaluate hocc hst
    · cases hk
  | receiveNumPath i =>
    obtain ⟨x, hocc, hk⟩ := onListener_ok hstep
    split at hk
    · rename_i hst hcall
      split at hk
      · cases hk
        exact h.receiveNumPath hocc hst
      · cases hk
    · cases hk
  | clearChan =>
    simp only [Manager.step] at hstep
    split at hstep
    · rename_i hcall
      cases hstep
      exact h.clearChan hcall
    · cases hstep
  | addStream i =>
    obtain ⟨x, hocc, hk⟩ := onListener_ok hstep
    split at hk
    · rename_i hst
      cases hk
      exact h.addStream hocc hst
    · cases hk
  | deliver i =>
    obtain ⟨x, hocc, hk⟩ := onListener_ok hstep
    split at hk
    · rename_i hst hcall
      cases hk
      exact h.deliver hocc hst hcall
    · cases hk
  | returns =>
    simp only [Manager.step] at hstep
    split at hstep
    · rename_i hcall
      cases hstep
      exact h.returns hcall
    · cases hstep

theorem inv_of_run {as : List Label} (hrun : Run (step server nics) Alone init as m) :
    Inv server nics m :=
  hrun.invariant _ init_inv fun _ _ _ h halone hstep => h.step halone hstep

theorem Phase.of_paths (h : Phase server nics m) (hc : 0 < m.paths c) :
    (c, (nics c).count) ∈ m.received ∧ (m.call = .idle → ∃ k, (c, k) ∈ m.returned) := by
  have hsettled : Settled server nics m c →
      (c, (nics c).count) ∈ m.received ∧ ∃ k, (c, k) ∈ m.returned := by
    intro hs
    cases hs with
    | fresh _ _ paths _ => omega
    | finished _ _ ret num => exact ⟨num, ret⟩
  cases h with
  | idle _ all | waiting _ _ _ all => exact ⟨(hsettled (all c)).1, fun _ => (hsettled (all c)).2⟩
  | sending g e call _ others _ _ paths _ =>
    have hne : c ≠ e := by
      intro heq
      rw [heq, paths] at hc
      omega
    exact ⟨(hsettled (others c hne)).1, fun _ => (hsettled (others c hne)).2⟩
  | got e call _ others current | waits e _ _ call _ others current _ =>
    refine ⟨?_, fun hidle => by simp [call] at hidle⟩
    by_cases hce : c = e
    · rw [hce]
      exact current.num
    · exact (hsettled (others c hce)).1

/-- In every run in which the Hello packets of one client at a time are checked: a session is
returned with all of its paths and once at most; when no `Accept` is under way every session with a
path has been returned; and the number of paths of every such client has been received. -/
theorem accept_complete (server : Nics) (nics : ℕ → Nics) {as : List Label} {m : Manager}
    (hrun : Run (step server nics) Alone init as m) :
    (∀ c k, (c, k) ∈ m.returned → k = need server nics c) ∧ (m.returned.map Prod.fst).Nodup ∧
      (m.call = .idle → ∀ c, 0 < m.paths c → ∃ k, (c, k) ∈ m.returned) ∧
      ∀ c, 0 < m.paths c → (c, (nics c).count) ∈ m.received := by
  have h := inv_of_run hrun
  exact ⟨h.returned, h.nodup, fun hidle c hc => (h.phase.of_paths hc).2 hidle,
    fun c hc => (h.phase.of_paths hc).1⟩

instance (m : Manager) (a : Label) : Decidable (m.Alone a) :=
  match a with
  | .check i => inferInstanceAs (Decidable (∀ x ∈ m.occupant i,
      (x.2 = true → m.numPathChan = none) ∧
        (x.2 = false → m.call.isWaiting = true ∧
          ∀ j < 2, j ≠ i → ∀ y ∈ m.occupant j, m.stage y = .hello)))
  | .accept | .connect _ _ | .connectSecond _ | .evaluate _ | .receiveNumPath _ | .clearChan
  | .addStream _ | .deliver _ | .returns => .isTrue trivial

def oneByOne : List Label :=
  let one (c : ℕ) : List Label :=
    [.accept, .connect c 0, .check 0, .evaluate 0, .receiveNumPath 0, .clearChan, .addStream 0,
      .connectSecond c, .check 1, .addStream 1, .deliver 1, .deliver 0, .returns]
  one 0 ++ one 1

def oneAndTwo : ℕ → Nics
  | 0 => .one
  | _ => .two

theorem accept_complete_one_by_one : ∃ m, Run (step .two oneAndTwo) Alone init oneByOne m ∧
    m.returned = [(0, 2), (1, 2)] ∧ (0, 1) ∈ m.received ∧ (1, 2) ∈ m.received := by
  obtain ⟨m, hrun, hm⟩ := Run.exists_of_exec (step .two oneAndTwo) init oneByOne
    (fun m => m.returned = [(0, 2), (1, 2)] ∧ 0 < m.paths 0 ∧ 0 < m.paths 1)
    (show Guarded (step .two oneAndTwo) Alone init oneByOne by decide +kernel)
    (by decide +kernel)
  obtain ⟨hret, h0, h1⟩ := of_decide_eq_true hm
  obtain ⟨-, -, -, hrec⟩ := accept_complete .two oneAndTwo hrun
  exact ⟨m, hrun, hret, hrec 0 h0, hrec 1 h1⟩

def twoClients : List Label :=
  [.accept, .connect 0 0, .check 0, .evaluate 0, .receiveNumPath 0, .clearChan, .addStream 0,
    .deliver 0, .connect 1 0, .check 0, .addStream 0, .deliver 0, .returns]

/-- The session of client 1 is returned with one path of two, and its number of paths is lost. -/
theorem accept_incomplete : ∃ m, Run (step .two fun _ => .two) always init twoClients m ∧
    m.returned = [(1, 1)] ∧ need .two (fun _ => .two) 1 = 2 ∧ m.received = [(0, 2)] := by
  obtain ⟨m, hrun, hm⟩ := Run.exists_of_exec (step .two fun _ => .two) init twoClients
    (fun m => m.returned = [(1, 1)] ∧ m.received = [(0, 2)]) (Guarded.always _)
    (by decide +kernel)
  obtain ⟨hret, hrec⟩ := of_decide_eq_true hm
  exact ⟨m, hrun, hret, rfl, hrec⟩

end Manager

end Mp2bs.Session.Accept
