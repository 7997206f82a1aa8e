import Mp2bs.Go
import Mp2bs.Lib.Machine

/-!
# The validator and its coordinate requests

The validator (`ver_v4/validator`) asks every peer for its coordinate. `GetPeerCoord`
(`utils/validator_utils_getCoord.go:44-80`) runs in a goroutine of its own: it sends the reference points,
waits for the reply, and on an error exchanges address and connection with a later node and asks again.
`build_CoordinateSystem` and `build_LocalCoordinateSystem` (`validatorNode.go:40-86`; so the lines below)
start the goroutines and count their signals; `monitor_origin` (132-154) asks node 0 alone.

A step is one statement of a goroutine that reads or writes a shared variable, or one part of the main
goroutine up to the next point where it waits. A peer may answer at any time and any number of times.
-/

namespace Mp2bs.Validator
open Mp2bs.Lib.Machine

/-- The constants and command line arguments (`utils/variable.go:5-10`). -/
structure Config where
  nodeTotal : ℕ
  ndim : ℕ
  nbRef : ℕ
  nbSckRef : ℕ

/-- `ref_nb` of a call (46, 53, 74, 138). -/
def Config.refNb (cfg : Config) (isSck : Bool) : ℕ := if isSck then cfg.nbSckRef else cfg.nbRef

/-- `PeerResponse` (`message.proto`). -/
structure PeerResponse (F : Type) where
  errFlag : Bool
  sign : List Bool
  node : List F
  test : List F

/-- Where a call of `GetPeerCoord` is. `waiting` and `received` have the connection that the call
reads from, which is named by the address it was dialled to. -/
inductive Point (A F : Type)
  | request
  | listen
  | waiting (conn : A)
  | received (conn : A) (res : List F)
  | failed
  | swapping (n : ℕ)
  deriving DecidableEq

structure Call (A F : Type) where
  id : ℕ
  isSck : Bool
  point : Point A F
  deriving DecidableEq

def Call.start {A F : Type} (isSck : Bool) (id : ℕ) : Call A F := ⟨id, isSck, .request⟩

/-- Where the main goroutine waits: for the signal of reference node `i`, for `k` more signals of a
build or of a local update, for that of the self-cross-check, or nowhere. -/
inductive Main
  | idle
  | reference (i : ℕ)
  | rest (k : ℕ)
  | updating (k : ℕ)
  | checking
  deriving DecidableEq

/-- The variables of the validator. `calls` are the running goroutines, `signals` the values in the
channel. `stored` has the reply that was copied to a coordinate since it was last to be determined, with
the address of its sender, and `listed` the number of nodes in the local updates since the last build; the
program has neither. -/
structure State (A F : Type) where
  nodeCount : ℤ
  nodeIp : ℕ → A
  coord : ℕ → List F
  testData : ℕ → F × F
  connList : ℕ → A
  isCoordDone : Bool
  calls : List (Call A F)
  signals : ℕ
  main : Main
  stored : ℕ → Option (A × List F)
  listed : ℕ

variable {A F : Type}

/-! ### One call -/

/-- `getReferencePoints` (`utils/validator_utils_getCoord.go:23-40`), which appends `&NodeData[i]`
for each of these indices. -/
def getReferencePoints (nodeCount : ℤ) (myId refNb : ℕ) (isSck : Bool) : List ℕ :=
  if myId = 0 ∧ isSck = false then []
  else
    let start : ℕ := if myId = 0 then 1 else 0
    let nb : ℤ := if nodeCount < refNb then nodeCount else (refNb + start : ℕ)
    List.range' start (nb.toNat - start)

/-- `copy(dst, res)`. -/
def copyInto (dst res : List F) : List F := res.take dst.length ++ dst.drop res.length

/-- `a[i], a[n] = a[n], a[i]`. -/
def swap {β : Type} (a : ℕ → β) (i n : ℕ) : ℕ → β :=
  fun k => if k = i then a n else if k = n then a i else a k

/-- The loop over `res.Log.Sign` from index `i` on (`utils/validator_utils_network.go:92-97`). -/
def changeSigns [Neg F] (total : ℕ) : ℕ → List Bool → (ℕ → List F) → Except Stop (ℕ → List F)
  | _, [], coord => .ok coord
  | i, s :: sign, coord =>
    if total ≤ i then .error .panic
    else if s then changeSigns total (i + 1) sign coord
    else if i + 1 < total ∧ i < (coord (i + 1)).length then
      changeSigns total (i + 1) sign
        (Function.update coord (i + 1) ((coord (i + 1)).modify i Neg.neg))
    else .error .panic

namespace State

def goOn (s : State A F) (g : ℕ) (c : Call A F) (point : Point A F) : State A F :=
  { s with calls := s.calls.set g { c with point := point } }

/-- Lines 53-59 of `GetPeerCoord`. -/
def send (cfg : Config) (s : State A F) (g : ℕ) (c : Call A F) : Except Stop (State A F) :=
  match c.point with
  | .request =>
    if c.id < cfg.nodeTotal ∧
        ∀ i ∈ getReferencePoints s.nodeCount c.id (cfg.refNb c.isSck) c.isSck,
          i < cfg.nodeTotal then
      .ok (s.goOn g c .listen)
    else .error .panic
  | _ => .error .blocked

/-- The argument `connList[id]` in line 60. -/
def listen (cfg : Config) (s : State A F) (g : ℕ) (c : Call A F) : Except Stop (State A F) :=
  match c.point with
  | .listen =>
    if c.id < cfg.nodeTotal then .ok (s.goOn g c (.waiting (s.connList c.id)))
    else .error .panic
  | _ => .error .blocked

/-- `recieveMessage_from_peer` (`utils/validator_utils_network.go:66-103`) with reply `res`. -/
def recieve [Neg F] (cfg : Config) (s : State A F) (g : ℕ) (c : Call A F) (res : PeerResponse F) :
    Except Stop (State A F) :=
  match c.point with
  | .waiting conn =>
    if c.isSck then .ok (s.goOn g c (.received conn res.node))
    else if res.errFlag then .ok (s.goOn g c .failed)
    else match changeSigns cfg.nodeTotal 0 res.sign s.coord with
      | .error e => .error e
      | .ok coord =>
        if 0 ≤ s.nodeCount ∧ s.nodeCount < cfg.nodeTotal then
          match res.test with
          | estimated :: measured :: _ =>
            .ok { s.goOn g c (.received conn res.node) with
              coord := coord
              testData := Function.update s.testData s.nodeCount.toNat (estimated, measured) }
          | _ => .error .panic
        else .error .panic
  | _ => .error .blocked

/-- Lines 64-69 of `GetPeerCoord`, where `rand.Intn` gives the number of node `n`; a
self-cross-check asks again at once. -/
def swapIp (cfg : Config) (s : State A F) (g : ℕ) (c : Call A F) (n : ℕ) :
    Except Stop (State A F) :=
  match c.point with
  | .failed =>
    if c.isSck then .ok (s.goOn g c .request)
    else if cfg.nodeTotal ≤ c.id + 1 then .error .panic
    else if c.id < n ∧ n < cfg.nodeTotal then
      .ok { s.goOn g c (.swapping n) with nodeIp := swap s.nodeIp c.id n }
    else .error .blocked
  | _ => .error .blocked

/-- Line 70 of `GetPeerCoord`, and the call in line 74. -/
def swapConn (s : State A F) (g : ℕ) (c : Call A F) : Except Stop (State A F) :=
  match c.point with
  | .swapping n => .ok { s.goOn g c .request with connList := swap s.connList c.id n }
  | _ => .error .blocked

/-- Lines 78-79 of `GetPeerCoord`, and its return. -/
def save (cfg : Config) (s : State A F) (g : ℕ) (c : Call A F) : Except Stop (State A F) :=
  match c.point with
  | .received conn res =>
    if c.id < cfg.nodeTotal then
      .ok { s with
        coord := Function.update s.coord c.id (copyInto (s.coord c.id) res)
        calls := s.calls.eraseIdx g
        signals := s.signals + 1
        stored := Function.update s.stored c.id (some (conn, res)) }
    else .error .panic
  | _ => .error .blocked

/-! ### The main goroutine -/

def finish (s : State A F) : State A F := { s with isCoordDone := true, main := .idle }

def awaitRest (s : State A F) (k : ℕ) : State A F :=
  if k = 0 then s.finish else { s with main := .rest k }

def awaitUpdate (s : State A F) (k : ℕ) : State A F :=
  if k = 0 then s.finish else { s with main := .updating k }

/-- `Reset_coordinate_data` (`utils/validator_utils_init.go:19-24`). -/
def resetCoordinateData [Zero F] (cfg : Config) (s : State A F) : State A F :=
  { s with
    coord := fun _ => List.replicate cfg.ndim 0
    nodeCount := 0
    stored := fun _ => none
    listed := 0 }

/-- `build_CoordinateSystem` from reference node `i` on, up to the next wait
(45-55). -/
def continueBuild (cfg : Config) (s : State A F) (i : ℕ) : State A F :=
  if i < cfg.nbRef then { s with calls := s.calls ++ [.start false i], main := .reference i }
  else
    let ids := List.range' cfg.nbRef (cfg.nodeTotal - cfg.nbRef)
    { s with calls := s.calls ++ ids.map (Call.start false) }.awaitRest ids.length

/-- A build of the coordinate system (239-242, 256-259). At the first one the
coordinates are as `Initialize_database` leaves them. -/
def build [Zero F] (cfg : Config) (s : State A F) : Except Stop (State A F) :=
  if s.main = .idle then
    .ok ({ s.resetCoordinateData cfg with isCoordDone := false }.continueBuild cfg 0)
  else .error .blocked

/-- `build_LocalCoordinateSystem` up to the first wait (68-76). -/
def update (s : State A F) (nodeList : List ℕ) : Except Stop (State A F) :=
  if s.main = .idle ∧ s.isCoordDone = true then
    .ok ({ s with
      nodeCount := s.nodeCount - nodeList.length
      calls := s.calls ++ nodeList.map (Call.start false)
      stored := fun i => if i ∈ nodeList then none else s.stored i
      listed := s.listed + nodeList.length }.awaitUpdate nodeList.length)
  else .error .blocked

/-- `monitor_origin` up to its wait (132-139). -/
def check (s : State A F) : Except Stop (State A F) :=
  if s.main = .idle ∧ s.isCoordDone = true then
    .ok { s with calls := s.calls ++ [.start true 0], main := .checking }
  else .error .blocked

/-- `<-ch1`, `<-ch2` and what the main goroutine does up to its next wait
(47-58, 77-79, 139). -/
def signal (cfg : Config) (s : State A F) : Except Stop (State A F) :=
  match s.signals with
  | 0 => .error .blocked
  | signals + 1 =>
    let s := { s with signals := signals }
    match s.main with
    | .idle => .error .blocked
    | .reference i => .ok ({ s with nodeCount := s.nodeCount + 1 }.continueBuild cfg (i + 1))
    | .rest k => .ok ({ s with nodeCount := s.nodeCount + 1 }.awaitRest (k - 1))
    | .updating k => .ok (s.awaitUpdate (k - 1))
    | .checking => .ok { s with main := .idle }

end State

inductive Label (F : Type)
  | build
  | update (nodeList : List ℕ)
  | check
  | signal
  | send (g : ℕ)
  | listen (g : ℕ)
  | recieve (g : ℕ) (res : PeerResponse F)
  | swapIp (g n : ℕ)
  | swapConn (g : ℕ)
  | save (g : ℕ)

def onCall (s : State A F) (g : ℕ) (f : Call A F → Except Stop (State A F)) :
    Except Stop (State A F) :=
  match s.calls[g]? with
  | some c => f c
  | none => .error .blocked

def step [Zero F] [Neg F] (cfg : Config) (s : State A F) : Label F → Except Stop (State A F)
  | .build => s.build cfg
  | .update nodeList => s.update nodeList
  | .check => s.check
  | .signal => s.signal cfg
  | .send g => onCall s g (s.send cfg g)
  | .listen g => onCall s g (s.listen cfg g)
  | .recieve g res => onCall s g (s.recieve cfg g · res)
  | .swapIp g n => onCall s g (s.swapIp cfg g · n)
  | .swapConn g => onCall s g (s.swapConn g)
  | .save g => onCall s g (s.save cfg g)

/-- `Initialize_database` and `DialAllPeers` with the addresses `ip`
(`utils/validator_utils_init.go:27-42`, `utils/validator_utils_network.go:22-38`). -/
def init [Zero F] (cfg : Config) (ip : ℕ → A) : State A F where
  nodeCount := 0
  nodeIp := ip
  coord := fun _ => List.replicate cfg.ndim 0
  testData := fun _ => (0, 0)
  connList := ip
  isCoordDone := false
  calls := []
  signals := 0
  main := .idle
  stored := fun _ => none
  listed := 0

/-! ### What a step does -/

variable {g : ℕ} {l : List (Call A F)} {c : Call A F}

theorem onCall_ok {s s' : State A F} {f : Call A F → Except Stop (State A F)}
    (h : onCall s g f = .ok s') : ∃ c, s.calls[g]? = some c ∧ f c = .ok s' := by
  unfold onCall at h
  split at h
  · exact ⟨_, by assumption, h⟩
  · exact nomatch h

theorem calls_perm (h : l[g]? = some c) : l.Perm (c :: l.eraseIdx g) := by
  obtain ⟨hg, hc⟩ := List.getElem?_eq_some_iff.mp h
  rw [← hc]
  exact (List.getElem_cons_eraseIdx_perm hg).symm

theorem set_perm (h : l[g]? = some c) (d : Call A F) : (l.set g d).Perm (d :: l.eraseIdx g) := by
  obtain ⟨hg, -⟩ := List.getElem?_eq_some_iff.mp h
  exact List.set_perm_cons_eraseIdx hg d

namespace State

variable {cfg : Config} {s s' : State A F} {g n : ℕ} {c : Call A F}

theorem send_ok (h : s.send cfg g c = .ok s') :
    c.point = .request ∧ c.id < cfg.nodeTotal ∧ s' = s.goOn g c .listen := by
  unfold send at h
  split at h
  · rename_i hpoint
    split at h
    · rename_i hc
      cases h
      exact ⟨hpoint, hc.1, rfl⟩
    · exact nomatch h
  · exact nomatch h

theorem listen_ok (h : s.listen cfg g c = .ok s') :
    c.point = .listen ∧ c.id < cfg.nodeTotal ∧
      s' = s.goOn g c (.waiting (s.connList c.id)) := by
  unfold listen at h
  split at h
  · rename_i hpoint
    split at h
    · rename_i hid
      cases h
      exact ⟨hpoint, hid, rfl⟩
    · exact nomatch h
  · exact nomatch h

theorem recieve_ok [Neg F] {res : PeerResponse F} (h : s.recieve cfg g c res = .ok s') :
    ∃ conn, c.point = .waiting conn ∧
      ((c.isSck = false ∧ s' = s.goOn g c .failed) ∨
        ∃ coord testData, (coord = s.coord ∨
            changeSigns cfg.nodeTotal 0 res.sign s.coord = .ok coord) ∧
          s' = { s.goOn g c (.received conn res.node) with
            coord := coord, testData := testData }) := by
  unfold recieve at h
  split at h
  · rename_i conn hpoint
    refine ⟨conn, hpoint, ?_⟩
    by_cases hsck : c.isSck = true
    · rw [if_pos hsck] at h
      cases h
      exact .inr ⟨s.coord, s.testData, .inl rfl, rfl⟩
    · rw [if_neg hsck] at h
      by_cases herr : res.errFlag = true
      · rw [if_pos herr] at h
        cases h
        exact .inl ⟨eq_false_of_ne_true hsck, rfl⟩
      · rw [if_neg herr] at h
        split at h
        · exact nomatch h
        · rename_i coord hcoord
          split at h
          · split at h
            · cases h
              exact .inr ⟨coord, _, .inr hcoord, rfl⟩
            · exact nomatch h
          · exact nomatch h
  · exact nomatch h

theorem swapIp_ok (h : s.swapIp cfg g c n = .ok s') :
    c.point = .failed ∧ ((c.isSck = true ∧ s' = s.goOn g c .request) ∨
      (c.isSck = false ∧ c.id < n ∧ n < cfg.nodeTotal ∧
        s' = { s.goOn g c (.swapping n) with nodeIp := swap s.nodeIp c.id n })) := by
  unfold swapIp at h
  split at h
  · rename_i hpoint
    refine ⟨hpoint, ?_⟩
    by_cases hsck : c.isSck = true
    · rw [if_pos hsck] at h
      cases h
      exact .inl ⟨hsck, rfl⟩
    · rw [if_neg hsck] at h
      split at h
      · exact nomatch h
      · split at h
        · rename_i hn
          cases h
          exact .inr ⟨eq_false_of_ne_true hsck, hn.1, hn.2, rfl⟩
        · exact nomatch h
  · exact nomatch h

theorem swapConn_ok (h : s.swapConn g c = .ok s') :
    ∃ n, c.point = .swapping n ∧
      s' = { s.goOn g c .request with connList := swap s.connList c.id n } := by
  unfold swapConn at h
  split at h
  · rename_i n hpoint
    cases h
    exact ⟨n, hpoint, rfl⟩
  · exact nomatch h

theorem save_ok (h : s.save cfg g c = .ok s') :
    ∃ conn res, c.point = .received conn res ∧ c.id < cfg.nodeTotal ∧
      s' = { s with
        coord := Function.update s.coord c.id (copyInto (s.coord c.id) res)
        calls := s.calls.eraseIdx g
        signals := s.signals + 1
        stored := Function.update s.stored c.id (some (conn, res)) } := by
  unfold save at h
  split at h
  · rename_i conn res hpoint
    split at h
    · rename_i hid
      cases h
      exact ⟨conn, res, hpoint, hid, rfl⟩
    · exact nomatch h
  · exact nomatch h

theorem build_ok [Zero F] (h : s.build cfg = .ok s') : s.main = .idle ∧
    s' = { s.resetCoordinateData cfg with isCoordDone := false }.continueBuild cfg 0 := by
  unfold build at h
  split at h
  · rename_i hmain
    cases h
    exact ⟨hmain, rfl⟩
  · exact nomatch h

theorem update_ok {nodeList : List ℕ} (h : s.update nodeList = .ok s') :
    s.main = .idle ∧ s.isCoordDone = true ∧
      s' = { s with
        nodeCount := s.nodeCount - nodeList.length
        calls := s.calls ++ nodeList.map (Call.start false)
        stored := fun i => if i ∈ nodeList then none else s.stored i
        listed := s.listed + nodeList.length }.awaitUpdate nodeList.length := by
  unfold update at h
  split at h
  · rename_i hmain
    cases h
    exact ⟨hmain.1, hmain.2, rfl⟩
  · exact nomatch h

theorem check_ok (h : s.check = .ok s') : s.main = .idle ∧ s.isCoordDone = true ∧
    s' = { s with calls := s.calls ++ [.start true 0], main := .checking } := by
  unfold check at h
  split at h
  · rename_i hmain
    cases h
    exact ⟨hmain.1, hmain.2, rfl⟩
  · exact nomatch h

theorem signal_ok (h : s.signal cfg = .ok s') : ∃ signals, s.signals = signals + 1 ∧
    ((∃ i, s.main = .reference i ∧
        s' = { s with signals := signals, nodeCount := s.nodeCount + 1 }.continueBuild cfg (i + 1)) ∨
      (∃ k, s.main = .rest k ∧
        s' = { s with signals := signals, nodeCount := s.nodeCount + 1 }.awaitRest (k - 1)) ∨
      (∃ k, s.main = .updating k ∧ s' = { s with signals := signals }.awaitUpdate (k - 1)) ∨
      (s.main = .checking ∧ s' = { s with signals := signals, main := .idle })) := by
  unfold signal at h
  split at h
  · exact nomatch h
  · rename_i signals hsignals
    refine ⟨signals, hsignals, ?_⟩
    dsimp only at h
    split at h
    · exact nomatch h
    · rename_i i hmain
      cases h
      exact .inl ⟨i, hmain, rfl⟩
    · rename_i k hmain
      cases h
      exact .inr (.inl ⟨k, hmain, rfl⟩)
    · rename_i k hmain
      cases h
      exact .inr (.inr (.inl ⟨k, hmain, rfl⟩))
    · rename_i hmain
      cases h
      exact .inr (.inr (.inr ⟨hmain, rfl⟩))

theorem continueBuild_frame (cfg : Config) (s : State A F) (i : ℕ) :
    ∃ ids : List ℕ, (s.continueBuild cfg i).calls = s.calls ++ ids.map (Call.start false) ∧
      (s.continueBuild cfg i).nodeIp = s.nodeIp ∧ (s.continueBuild cfg i).connList = s.connList ∧
      (s.continueBuild cfg i).coord = s.coord ∧ (s.continueBuild cfg i).stored = s.stored := by
  by_cases hi : i < cfg.nbRef
  · refine ⟨[i], ?_⟩
    simp only [continueBuild, if_pos hi, List.map_cons, List.map_nil, and_self]
  · refine ⟨List.range' cfg.nbRef (cfg.nodeTotal - cfg.nbRef), ?_⟩
    simp only [continueBuild, if_neg hi, awaitRest, finish]
    split <;> simp only [and_self]

end State

end Mp2bs.Validator
