import Mp2bs.Go
import Mp2bs.Lib.Loop

/-!
# Tree and mesh messages

The verification node tells each peer its children and, if the peer is a mesh node, its neighbours
(`v0.6/verify_node/tcpclient.go:376-418`): one text message each, without a length and without an
end mark. `handleVerNode` (`v0.6/parti_node/tcp_peer_servent.go:282-352`) takes what one `Read`
returns for one message. A text is its list of bytes.
-/

namespace Mp2bs.Peer
open Mp2bs.Lib

abbrev Text := List Char

/-! ### The verification node -/

/-- `"makeTree" + "|" + kind`, then `"|"` and an address for each address. -/
def makeTree (kind : Text) (addresses : List Text) : Text :=
  addresses.foldl (fun message address => message ++ '|' :: address)
    ("makeTree".toList ++ '|' :: kind)

/-- `sendTreeInfo` for one peer: what it writes to the connection. A missing key of a map has the
empty value. -/
def sendTreeInfo (treeMap meshMap : Text → List Text) (typeMap : Text → Text) (peer : Text) :
    List Text :=
  (if typeMap peer ∈ ["mesh".toList, "leader".toList, "normal".toList] then
    [makeTree "normal".toList (treeMap peer)] else []) ++
  (if typeMap peer = "mesh".toList then [makeTree "mesh".toList (meshMap peer)] else [])

/-! ### The peer -/

/-- `mcn_module.go:28-32`. -/
inductive NodeType
  | clusterLeader
  | mesh
  | normal
  deriving DecidableEq

/-- `mcn_module.go:44-47`. -/
structure MeshNeighbor where
  ipAddr : Text
  nodeType : NodeType
  deriving DecidableEq

/-- The variables that a message changes; `connections` has the keys of the map of this name. -/
structure Node where
  connections : List Text
  neighbors : List MeshNeighbor
  isMesh : Bool
  meshNeedUpdate : Bool
  deriving DecidableEq

def Node.init : Node := ⟨[], [], false, false⟩

/-- `hp2b_client_connectToServers` (`client_module.go:14-31`): it ends at the first address that
cannot be dialled. -/
def connectToServers (reachable : Text → Bool) : List Text → List Text → List Text
  | [], connections => connections
  | address :: servers, connections =>
    if reachable address then connectToServers reachable servers (connections.insert address)
    else connections

/-- `addMeshNeighbor` (`mcn_module.go:78-90`). -/
def addMeshNeighbor : List Text → List NodeType → List MeshNeighbor →
    Except Stop (List MeshNeighbor)
  | [], _, neighbors => .ok neighbors
  | _ :: _, [], _ => .error .panic
  | ip :: ipLists, nodeType :: typeLists, neighbors =>
    addMeshNeighbor ipLists typeLists (neighbors ++ [⟨ip, nodeType⟩])

/-- `handleVerNode` with what one `Read` returns; after `startBlockTrans`, `genBlock` never
returns. -/
def Node.read (reachable : Text → Bool) (s : Node) (data : Text) : Except Stop Node :=
  match data.splitOn '|' with
  | [] => .error .panic
  | first :: parts =>
    if first = "makeTree".toList then
      match parts with
      | [] => .error .panic
      | kind :: addresses =>
        if kind = "leader".toList ∨ kind = "normal".toList then
          .ok { s with
            meshNeedUpdate := true
            isMesh := false
            connections := connectToServers reachable addresses [] }
        else match addresses with
          | [] => .error .panic
          | second :: rest => do
            let neighborAddresses := if second = "mesh".toList then rest else second :: rest
            let neighbors ← addMeshNeighbor neighborAddresses [.clusterLeader, .mesh] s.neighbors
            return { s with neighbors := neighbors, isMesh := true, meshNeedUpdate := false }
    else if first = "startBlockTrans".toList then
      match parts with
      | [] => .error .panic
      | _ => .error .blocked
    else .ok s

/-- `handleVerNode`, for the results of its Reads. -/
def handleVerNode (reachable : Text → Bool) (reads : List Text) (s : Node) : Except Stop Node :=
  reads.foldlM (Node.read reachable) s

/-! ### Messages -/

theorem intercalate_cons (x : Text) (xs : List Text) :
    ['|'].intercalate (x :: xs) = x ++ xs.flatMap fun a => '|' :: a := by
  induction xs generalizing x with
  | nil => simp [List.intercalate]
  | cons y ys ih =>
    have hstep : ['|'].intercalate (x :: y :: ys) = x ++ '|' :: ['|'].intercalate (y :: ys) := by
      simp [List.intercalate]
    rw [hstep, ih, List.flatMap_cons]
    rfl

theorem foldl_bar (message : Text) (addresses : List Text) :
    addresses.foldl (fun message address => message ++ '|' :: address) message =
      message ++ addresses.flatMap fun a => '|' :: a := by
  induction addresses generalizing message with
  | nil => simp
  | cons a addresses ih =>
    rw [List.foldl_cons, ih, List.flatMap_cons, List.append_assoc]

theorem splitOn_makeTree {kind : Text} {addresses : List Text} (hkind : '|' ∉ kind)
    (haddresses : ∀ a ∈ addresses, '|' ∉ a) :
    (makeTree kind addresses).splitOn '|' = "makeTree".toList :: kind :: addresses := by
  have hinter : makeTree kind addresses =
      ['|'].intercalate ("makeTree".toList :: kind :: addresses) := by
    rw [makeTree, foldl_bar, intercalate_cons, List.flatMap_cons, List.append_assoc]
  rw [hinter]
  refine List.splitOn_intercalate '|' ?_ (List.cons_ne_nil _ _)
  intro l hl
  rcases List.mem_cons.mp hl with rfl | hl
  · decide
  · rcases List.mem_cons.mp hl with rfl | hl
    · exact hkind
    · exact haddresses l hl

theorem mem_connectToServers {reachable : Text → Bool} {servers connections : List Text}
    (h : ∀ a ∈ servers, reachable a = true) (a : Text) :
    a ∈ connectToServers reachable servers connections ↔ a ∈ connections ∨ a ∈ servers := by
  induction servers generalizing connections with
  | nil => simp [connectToServers]
  | cons b servers ih =>
    rw [connectToServers, if_pos (h b (List.mem_cons_self ..)),
      ih fun c hc => h c (List.mem_cons_of_mem _ hc), List.mem_insert_iff, List.mem_cons]
    tauto

theorem addMeshNeighbor_ok {ipLists : List Text} {typeLists : List NodeType}
    (h : ipLists.length ≤ typeLists.length) (neighbors : List MeshNeighbor) :
    ∃ added, addMeshNeighbor ipLists typeLists neighbors = .ok (neighbors ++ added) ∧
      added.map MeshNeighbor.ipAddr = ipLists := by
  induction ipLists generalizing typeLists neighbors with
  | nil => exact ⟨[], by rw [List.append_nil]; rfl, rfl⟩
  | cons ip ipLists ih =>
    cases typeLists with
    | nil => simp at h
    | cons nodeType typeLists =>
      simp only [List.length_cons, Nat.add_le_add_iff_right] at h
      obtain ⟨added, hadd, hips⟩ := ih h (neighbors ++ [⟨ip, nodeType⟩])
      refine ⟨⟨ip, nodeType⟩ :: added, ?_, by rw [List.map_cons, hips]⟩
      rw [addMeshNeighbor, hadd, List.append_assoc]
      rfl

/-! ### What a message does -/

section Read

variable (reachable : Text → Bool)

theorem Node.read_normal (s : Node) {addresses : List Text} (hclean : ∀ a ∈ addresses, '|' ∉ a) :
    s.read reachable (makeTree "normal".toList addresses) = .ok { s with
      meshNeedUpdate := true
      isMesh := false
      connections := connectToServers reachable addresses [] } := by
  rw [Node.read, splitOn_makeTree (by decide) hclean]
  dsimp only
  rw [if_pos rfl, if_pos (.inr rfl)]

theorem Node.read_mesh (s : Node) (kind : Text) {second : Text} (hkind : '|' ∉ kind)
    (hne : kind ≠ "leader".toList ∧ kind ≠ "normal".toList) {rest : List Text}
    (hclean : ∀ a ∈ second :: rest, '|' ∉ a)
    (hlen : (if second = "mesh".toList then rest else second :: rest).length ≤ 2) :
    ∃ added, s.read reachable (makeTree kind (second :: rest)) = .ok { s with
        neighbors := s.neighbors ++ added, isMesh := true, meshNeedUpdate := false } ∧
      added.map MeshNeighbor.ipAddr = if second = "mesh".toList then rest else second :: rest := by
  obtain ⟨added, hadd, hips⟩ := addMeshNeighbor_ok
    (show _ ≤ [NodeType.clusterLeader, NodeType.mesh].length from hlen) s.neighbors
  refine ⟨added, ?_, hips⟩
  rw [Node.read, splitOn_makeTree hkind hclean]
  dsimp only
  rw [if_pos rfl, if_neg (not_or.mpr hne), hadd]
  rfl

end Read

theorem makeTree_append (addresses : List Text) :
    makeTree "normal".toList [] ++ makeTree "mesh".toList addresses =
      makeTree ("normal".toList ++ "makeTree".toList) ("mesh".toList :: addresses) := by
  simp only [makeTree, foldl_bar, List.flatMap_cons, List.flatMap_nil, List.append_assoc,
    List.append_nil, List.cons_append]

/-! ### Segmentation -/

/-- Each message comes in one `Read`, or a peer without children gets its two messages in one. A
message to a mesh node that comes alone has a neighbour, and the first one is not called `mesh`. -/
def Aligned (children neighbours : List Text) (nodeType : Text) (reads : List Text) : Prop :=
  if nodeType = "mesh".toList then
    (reads = [makeTree "normal".toList children, makeTree "mesh".toList neighbours] ∧
      neighbours ≠ [] ∧ neighbours.head? ≠ some "mesh".toList) ∨
    (children = [] ∧ reads = [makeTree "normal".toList [] ++ makeTree "mesh".toList neighbours])
  else reads = [makeTree "normal".toList children]

theorem handleVerNode_apart {reachable : Text → Bool} {children neighbours : List Text}
    (hreach : ∀ a ∈ children, reachable a = true) (hchildren : ∀ a ∈ children, '|' ∉ a)
    (hneighbours : ∀ a ∈ neighbours, '|' ∉ a) (hlen : neighbours.length ≤ 2)
    (hne : neighbours ≠ []) (hhead : neighbours.head? ≠ some "mesh".toList) :
    ∃ s, handleVerNode reachable
        [makeTree "normal".toList children, makeTree "mesh".toList neighbours] .init = .ok s ∧
      (∀ a, a ∈ s.connections ↔ a ∈ children) ∧ s.neighbors.map MeshNeighbor.ipAddr = neighbours := by
  obtain ⟨second, rest, rfl⟩ := List.exists_cons_of_ne_nil hne
  have hsecond : second ≠ "mesh".toList := fun he => hhead (by rw [he]; rfl)
  have hnormal := Node.read_normal reachable Node.init hchildren
  obtain ⟨added, hmesh, hips⟩ := Node.read_mesh reachable { Node.init with
      meshNeedUpdate := true
      isMesh := false
      connections := connectToServers reachable children [] }
    "mesh".toList (by decide) (by decide) hneighbours (by rw [if_neg hsecond]; exact hlen)
  refine ⟨_, bind_eq_ok.mpr ⟨_, hnormal, bind_eq_ok.mpr ⟨_, hmesh, rfl⟩⟩, ?_, ?_⟩
  · intro a
    rw [mem_connectToServers hreach]
    simp
  · rw [if_neg hsecond] at hips
    exact hips

theorem handleVerNode_together (reachable : Text → Bool) {neighbours : List Text}
    (hneighbours : ∀ a ∈ neighbours, '|' ∉ a) (hlen : neighbours.length ≤ 2) :
    ∃ s, handleVerNode reachable
        [makeTree "normal".toList [] ++ makeTree "mesh".toList neighbours] .init = .ok s ∧
      s.connections = [] ∧ s.neighbors.map MeshNeighbor.ipAddr = neighbours := by
  have hclean : ∀ a ∈ "mesh".toList :: neighbours, '|' ∉ a :=
    List.forall_mem_cons.mpr ⟨by decide, hneighbours⟩
  obtain ⟨added, hmesh, hips⟩ := Node.read_mesh reachable Node.init
    ("normal".toList ++ "makeTree".toList) (by decide) (by decide) hclean
    (by rw [if_pos rfl]; exact hlen)
  rw [if_pos rfl] at hips
  rw [makeTree_append]
  exact ⟨_, bind_eq_ok.mpr ⟨_, hmesh, rfl⟩, rfl, hips⟩

def oneChild : Text → List Text := fun _ => ["c".toList]

def twoNeighbours : Text → List Text := fun _ => ["m".toList, "n".toList]

def meshType : Text → Text := fun _ => "mesh".toList

def everywhere : Text → Bool := fun _ => true

end Mp2bs.Peer
