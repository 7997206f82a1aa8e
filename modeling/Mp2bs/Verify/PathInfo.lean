import Mp2bs.Go
import Mp2bs.Lib.Loop
import Mp2bs.Lib.Wire

/-!
# The path information message

The tree builder packs the tree and the mesh (`omtree_mesh_ndim_v2.py:758-788`): the number of nodes, then
for each node five words and the identifiers of its children. The verification node reads the message into
a buffer of 200000 bytes and parses what it got (`v0.6/verify_node/tcpclient.go:216-267`).
-/

namespace Mp2bs.Verify
open Mp2bs.Lib Mp2bs.Lib.Wire

/-! ### The sender -/

inductive PyError
  | indexError
  | structError
  deriving DecidableEq

/-- `xs[k]`, where negative indices count from the end. -/
def pyGet (xs : List ℤ) (k : ℤ) : Except PyError ℤ :=
  match xs[(if k < 0 then k + xs.length else k).toNat]? with
  | some x => if -(xs.length : ℤ) ≤ k then .ok x else .error .indexError
  | none => .error .indexError

/-- `struct.pack('!I', v)`. -/
def packUnsigned (v : ℤ) : Except PyError Bytes :=
  if 0 ≤ v ∧ v < 2 ^ 32 then .ok (writeUint32 (UInt32.ofNat v.toNat)) else .error .structError

/-- `struct.pack('!i', v)`. -/
def packSigned (v : ℤ) : Except PyError Bytes :=
  if -2 ^ 31 ≤ v ∧ v < 2 ^ 31 then .ok (writeUint32 (Int32.ofInt v).toUInt32)
  else .error .structError

structure PathInfo where
  nodeNum : ℕ
  gmmLabels : List ℤ
  leaders : List ℤ
  parent : List ℤ
  meshConn : List ℤ

/-- `get_child_num`, whose first result is the length of the second. -/
def getChildNum (parent : List ℤ) (nodeid : ℕ) : List ℕ :=
  (List.range parent.length).filter fun i => parent[i]? = some (nodeid : ℤ) ∧ i ≠ nodeid

structure Fields where
  nodeid : ℕ
  meshid : ℤ
  clusterIdx : ℤ
  leaderid : ℤ
  childids : List ℕ

/-- Lines 771-779. -/
def PathInfo.fields (p : PathInfo) (i : ℕ) : Except PyError Fields := do
  let meshid ← pyGet p.meshConn i
  if i = 0 then return ⟨i, meshid, -1, -1, getChildNum p.parent i⟩
  else
    let clusterIdx ← pyGet p.gmmLabels (i - 1)
    let leaderid ← pyGet p.leaders clusterIdx
    return ⟨i, meshid, clusterIdx, leaderid, getChildNum p.parent i⟩

/-- Lines 781-783. -/
def Fields.pack (f : Fields) : Except PyError Bytes := do
  let nodeid ← packUnsigned f.nodeid
  let meshid ← packSigned f.meshid
  let clusterIdx ← packSigned f.clusterIdx
  let leaderid ← packSigned f.leaderid
  let childNum ← packUnsigned f.childids.length
  let childids ← f.childids.mapM fun j => packUnsigned (j : ℕ)
  return nodeid ++ meshid ++ clusterIdx ++ leaderid ++ childNum ++ childids.flatten

def sendPathInfo (p : PathInfo) : Except PyError Bytes := do
  let nodeNum ← packUnsigned p.nodeNum
  let nodes ← (List.range p.nodeNum).mapM fun i => do (← p.fields i).pack
  return nodeNum ++ nodes.flatten

/-! ### The receiver -/

inductive NodeType
  | leaf
  | notLeaf
  deriving DecidableEq

/-- `Node_conn_info` (13-21). -/
structure NodeConnInfo where
  nodeId : UInt32
  meshId : Int32
  clusterIdx : Int32
  clusterLeaderId : Int32
  childNum : UInt32
  childIds : List UInt32
  nodeType : NodeType
  deriving DecidableEq

/-- `nodeMap` (32). -/
abbrev NodeMap := AList fun _ : ℕ => NodeConnInfo

/-- `binary.BigEndian.Uint32(buf[s_idx : s_idx+4])`. -/
def word (buf : Bytes) (sIdx : ℕ) : Except Stop UInt32 :=
  match uint32At buf sIdx with
  | some v => .ok v
  | none => .error .panic

/-- The loop over the children (253-258). -/
def readChildren (buf : Bytes) : ℕ → ℕ → Except Stop (List UInt32 × ℕ)
  | 0, sIdx => .ok ([], sIdx)
  | k + 1, sIdx => do
    let childId ← word buf sIdx
    let (childIds, sIdx) ← readChildren buf k (sIdx + 4)
    return (childId :: childIds, sIdx)

/-- One turn of the parsing loop (239-264). -/
def parseNode (buf : Bytes) (sIdx : ℕ) : Except Stop (NodeConnInfo × ℕ) := do
  let nodeId ← word buf sIdx
  let meshId ← word buf (sIdx + 4)
  let clusterIdx ← word buf (sIdx + 4 + 4)
  let clusterLeaderId ← word buf (sIdx + 4 + 4 + 4)
  let childNum ← word buf (sIdx + 4 + 4 + 4 + 4)
  let (childIds, sIdx) ← readChildren buf childNum.toNat (sIdx + 4 + 4 + 4 + 4 + 4)
  let nodeType := if childNum.toNat > 0 then .notLeaf else .leaf
  return (⟨nodeId, meshId.toInt32, clusterIdx.toInt32, clusterLeaderId.toInt32, childNum, childIds,
    nodeType⟩, sIdx)

/-- The parsing loop (232-267). The first argument bounds the turns. -/
def parseLoop (buf : Bytes) (n : ℕ) : ℕ → ℕ → NodeMap → Except Stop (NodeMap × ℕ)
  | 0, _, _ => .error .blocked
  | fuel + 1, sIdx, nodeMap =>
    if n ≤ sIdx then .ok (nodeMap, sIdx)
    else do
      let (curNode, sIdx) ← parseNode buf sIdx
      parseLoop buf n fuel sIdx (nodeMap.insert curNode.nodeId.toNat curNode)

def bufLen : ℕ := 200000

/-- `conn.Read(buf)` delivers the message as far as the buffer goes, and the loop runs over it. -/
def parsePathInfo (msg : Bytes) : Except Stop (NodeMap × ℕ) :=
  parseLoop (msg.take bufLen ++ List.replicate (bufLen - msg.length) 0) (min bufLen msg.length)
    (msg.length + 1) 4 ∅

/-! ### Round trip -/

def Fields.record (f : Fields) : NodeConnInfo where
  nodeId := UInt32.ofNat f.nodeid
  meshId := Int32.ofInt f.meshid
  clusterIdx := Int32.ofInt f.clusterIdx
  clusterLeaderId := Int32.ofInt f.leaderid
  childNum := UInt32.ofNat f.childids.length
  childIds := f.childids.map UInt32.ofNat
  nodeType := if f.childids.length > 0 then .notLeaf else .leaf

structure Fields.Fits (f : Fields) : Prop where
  nodeid : f.nodeid < 2 ^ 32
  meshid : -2 ^ 31 ≤ f.meshid ∧ f.meshid < 2 ^ 31
  clusterIdx : -2 ^ 31 ≤ f.clusterIdx ∧ f.clusterIdx < 2 ^ 31
  leaderid : -2 ^ 31 ≤ f.leaderid ∧ f.leaderid < 2 ^ 31
  childNum : f.childids.length < 2 ^ 32
  childids : ∀ j ∈ f.childids, j < 2 ^ 32

variable {v : ℤ} {bs buf rest : Bytes} {childids : List ℕ} {bss : List Bytes} {f : Fields} {s i : ℕ}
  {fs : List Fields} {p : PathInfo}

theorem packUnsigned_ok {v : ℕ} (h : packUnsigned v = .ok bs) :
    v < 2 ^ 32 ∧ bs = writeUint32 (UInt32.ofNat v) := by
  unfold packUnsigned at h
  split at h
  · rename_i hv
    cases h
    exact ⟨by omega, rfl⟩
  · cases h

theorem packSigned_ok (h : packSigned v = .ok bs) :
    (-2 ^ 31 ≤ v ∧ v < 2 ^ 31) ∧ bs = writeUint32 (Int32.ofInt v).toUInt32 := by
  unfold packSigned at h
  split at h
  · rename_i hv
    cases h
    exact ⟨hv, rfl⟩
  · cases h

def childBytes (childids : List ℕ) : Bytes := childids.flatMap fun j => writeUint32 (UInt32.ofNat j)

def Fields.bytes (f : Fields) : Bytes :=
  writeUint32 (UInt32.ofNat f.nodeid) ++ (writeUint32 (Int32.ofInt f.meshid).toUInt32 ++
    (writeUint32 (Int32.ofInt f.clusterIdx).toUInt32 ++
      (writeUint32 (Int32.ofInt f.leaderid).toUInt32 ++
        (writeUint32 (UInt32.ofNat f.childids.length) ++ childBytes f.childids))))

theorem flatten_packUnsigned
    (h : List.Forall₂ (fun (j : ℕ) bs => packUnsigned j = .ok bs) childids bss) :
    (∀ j ∈ childids, j < 2 ^ 32) ∧ bss.flatten = childBytes childids := by
  induction h with
  | nil => exact ⟨by simp, rfl⟩
  | cons hj _ ih =>
    obtain ⟨hlt, rfl⟩ := packUnsigned_ok hj
    refine ⟨List.forall_mem_cons.mpr ⟨hlt, ih.1⟩, ?_⟩
    rw [List.flatten_cons, ih.2]
    rfl

theorem Fields.pack_ok (h : f.pack = .ok bs) : f.Fits ∧ bs = f.bytes := by
  unfold Fields.pack at h
  obtain ⟨b1, h1, h⟩ := bind_eq_ok.mp h
  obtain ⟨b2, h2, h⟩ := bind_eq_ok.mp h
  obtain ⟨b3, h3, h⟩ := bind_eq_ok.mp h
  obtain ⟨b4, h4, h⟩ := bind_eq_ok.mp h
  obtain ⟨b5, h5, h⟩ := bind_eq_ok.mp h
  obtain ⟨b6, h6, h⟩ := bind_eq_ok.mp h
  cases h
  obtain ⟨hid, rfl⟩ := packUnsigned_ok h1
  obtain ⟨hmesh, rfl⟩ := packSigned_ok h2
  obtain ⟨hcluster, rfl⟩ := packSigned_ok h3
  obtain ⟨hleader, rfl⟩ := packSigned_ok h4
  obtain ⟨hnum, rfl⟩ := packUnsigned_ok h5
  obtain ⟨hchildren, hbytes⟩ := flatten_packUnsigned (forall₂_of_mapM h6)
  refine ⟨⟨hid, hmesh, hcluster, hleader, hnum, hchildren⟩, ?_⟩
  simp only [Fields.bytes, hbytes, List.append_assoc]

theorem length_childBytes (childids : List ℕ) : (childBytes childids).length = 4 * childids.length := by
  induction childids with
  | nil => rfl
  | cons j childids ih =>
    have hcons : childBytes (j :: childids) = writeUint32 (UInt32.ofNat j) ++ childBytes childids := rfl
    rw [hcons, List.length_append, ih, length_writeUint32, List.length_cons]
    omega

theorem Fields.length_bytes (f : Fields) : f.bytes.length = 20 + 4 * f.childids.length := by
  simp only [Fields.bytes, List.length_append, length_writeUint32, length_childBytes]
  omega

theorem word_of_drop {v : UInt32} (h : buf.drop s = writeUint32 v ++ rest) : word buf s = .ok v := by
  rw [word, uint32At_of_drop h]

theorem readChildren_of_drop (h : buf.drop s = childBytes childids ++ rest) :
    readChildren buf childids.length s =
      .ok (childids.map UInt32.ofNat, s + 4 * childids.length) := by
  induction childids generalizing s with
  | nil => rfl
  | cons j childids ih =>
    have hdrop : buf.drop s = writeUint32 (UInt32.ofNat j) ++ (childBytes childids ++ rest) := h
    have hrest := ih (drop_add_of_drop hdrop (length_writeUint32 _))
    have hend : s + 4 + 4 * childids.length = s + 4 * (j :: childids).length := by
      rw [List.length_cons]
      omega
    rw [List.length_cons, readChildren, word_of_drop hdrop, hrest, hend]
    rfl

theorem parseNode_of_drop (hf : f.Fits) (h : buf.drop s = f.bytes ++ rest) :
    parseNode buf s = .ok (f.record, s + f.bytes.length) := by
  simp only [Fields.bytes, List.append_assoc] at h
  have h1 := drop_add_of_drop h (length_writeUint32 _)
  have h2 := drop_add_of_drop h1 (length_writeUint32 _)
  have h3 := drop_add_of_drop h2 (length_writeUint32 _)
  have h4 := drop_add_of_drop h3 (length_writeUint32 _)
  have h5 := drop_add_of_drop h4 (length_writeUint32 _)
  have hnum : (UInt32.ofNat f.childids.length).toNat = f.childids.length :=
    UInt32.toNat_ofNat_of_lt' hf.childNum
  have hend : s + 4 + 4 + 4 + 4 + 4 + 4 * f.childids.length = s + f.bytes.length := by
    rw [f.length_bytes]
    omega
  unfold parseNode
  refine bind_eq_ok.mpr ⟨_, word_of_drop h, bind_eq_ok.mpr ⟨_, word_of_drop h1,
    bind_eq_ok.mpr ⟨_, word_of_drop h2, bind_eq_ok.mpr ⟨_, word_of_drop h3,
    bind_eq_ok.mpr ⟨_, word_of_drop h4, ?_⟩⟩⟩⟩⟩
  rw [hnum]
  refine bind_eq_ok.mpr ⟨_, readChildren_of_drop h5, ?_⟩
  rw [hend]
  rfl

def collect (fs : List Fields) (nodeMap : NodeMap) : NodeMap :=
  fs.foldl (fun nodeMap f => nodeMap.insert f.nodeid f.record) nodeMap

theorem Fields.nodeid_record (hf : f.Fits) : f.record.nodeId.toNat = f.nodeid :=
  UInt32.toNat_ofNat_of_lt' hf.nodeid

theorem parseLoop_of_drop {n fuel : ℕ} (nodeMap : NodeMap) (hfs : ∀ f ∈ fs, f.Fits)
    (h : buf.drop s = fs.flatMap Fields.bytes ++ rest) (hn : n = s + (fs.flatMap Fields.bytes).length)
    (hfuel : fs.length < fuel) : parseLoop buf n fuel s nodeMap = .ok (collect fs nodeMap, n) := by
  induction fs generalizing s fuel nodeMap with
  | nil =>
    cases fuel with
    | zero => omega
    | succ fuel =>
      obtain rfl : n = s := hn
      rw [parseLoop, if_pos le_rfl]
      rfl
  | cons f fs ih =>
    cases fuel with
    | zero => omega
    | succ fuel =>
      have hf := hfs f (List.mem_cons_self ..)
      rw [List.flatMap_cons, List.append_assoc] at h
      rw [List.flatMap_cons, List.length_append] at hn
      have hlen := f.length_bytes
      rw [List.length_cons] at hfuel
      have hnode := parseNode_of_drop hf h
      have hnext := drop_add_of_drop h rfl
      rw [parseLoop, if_neg (by omega), hnode]
      show parseLoop buf n fuel (s + f.bytes.length)
        (nodeMap.insert f.record.nodeId.toNat f.record) = _
      rw [f.nodeid_record hf]
      exact ih _ (fun g hg => hfs g (List.mem_cons_of_mem _ hg)) hnext (by omega) (by omega)

theorem lookup_collect_of_notMem (nodeMap : NodeMap) {k : ℕ} (hk : k ∉ fs.map Fields.nodeid) :
    (collect fs nodeMap).lookup k = nodeMap.lookup k := by
  induction fs generalizing nodeMap with
  | nil => rfl
  | cons f fs ih =>
    rw [List.map_cons, List.mem_cons, not_or] at hk
    have hrest := ih (nodeMap.insert f.nodeid f.record) hk.2
    exact hrest.trans (AList.lookup_insert_ne hk.1)

theorem lookup_collect (nodeMap : NodeMap) (hnodup : (fs.map Fields.nodeid).Nodup) (hf : f ∈ fs) :
    (collect fs nodeMap).lookup f.nodeid = some f.record := by
  induction fs generalizing nodeMap with
  | nil => cases hf
  | cons g fs ih =>
    rw [List.map_cons, List.nodup_cons] at hnodup
    rcases List.mem_cons.mp hf with rfl | hf
    · exact (lookup_collect_of_notMem (nodeMap.insert f.nodeid f.record) hnodup.1).trans
        (AList.lookup_insert nodeMap)
    · exact ih (nodeMap.insert g.nodeid g.record) hnodup.2 hf

/-! ### What is sent -/

structure Describes (p : PathInfo) (i : ℕ) (r : NodeConnInfo) : Prop where
  nodeId : r.nodeId.toNat = i
  meshId : pyGet p.meshConn i = .ok r.meshId.toInt
  root : i = 0 → r.clusterIdx.toInt = -1 ∧ r.clusterLeaderId.toInt = -1
  clusterIdx : i ≠ 0 → pyGet p.gmmLabels (i - 1) = .ok r.clusterIdx.toInt
  leaderId : i ≠ 0 → pyGet p.leaders r.clusterIdx.toInt = .ok r.clusterLeaderId.toInt
  childNum : r.childNum.toNat = r.childIds.length
  sorted : (r.childIds.map UInt32.toNat).Pairwise (· < ·)
  childIds : ∀ j, j ∈ r.childIds.map UInt32.toNat ↔ p.parent[j]? = some (i : ℤ) ∧ j ≠ i

theorem mem_getChildNum {parent : List ℤ} {j : ℕ} :
    j ∈ getChildNum parent i ↔ parent[j]? = some (i : ℤ) ∧ j ≠ i := by
  rw [getChildNum, List.mem_filter, List.mem_range, decide_eq_true_eq]
  refine and_iff_right_of_imp fun h => ?_
  exact (List.getElem?_eq_some_iff.mp h.1).1

theorem sorted_getChildNum (parent : List ℤ) (i : ℕ) :
    (getChildNum parent i).Pairwise (· < ·) :=
  List.pairwise_lt_range.filter _

theorem map_toNat_ofNat {l : List ℕ} (h : ∀ j ∈ l, j < 2 ^ 32) :
    (l.map UInt32.ofNat).map UInt32.toNat = l := by
  rw [List.map_map]
  refine (List.map_congr_left fun j hj => ?_).trans (List.map_id l)
  exact UInt32.toNat_ofNat_of_lt' (h j hj)

theorem PathInfo.fields_ok (h : p.fields i = .ok f) :
    f.nodeid = i ∧ pyGet p.meshConn i = .ok f.meshid ∧ f.childids = getChildNum p.parent i ∧
      (i = 0 → f.clusterIdx = -1 ∧ f.leaderid = -1) ∧
      (i ≠ 0 → pyGet p.gmmLabels (i - 1) = .ok f.clusterIdx ∧
        pyGet p.leaders f.clusterIdx = .ok f.leaderid) := by
  unfold PathInfo.fields at h
  obtain ⟨meshid, hmesh, h⟩ := bind_eq_ok.mp h
  by_cases hi : i = 0
  · rw [if_pos hi] at h
    cases h
    exact ⟨rfl, hmesh, rfl, fun _ => ⟨rfl, rfl⟩, fun hne => absurd hi hne⟩
  · rw [if_neg hi] at h
    obtain ⟨clusterIdx, hcluster, h⟩ := bind_eq_ok.mp h
    obtain ⟨leaderid, hleader, h⟩ := bind_eq_ok.mp h
    cases h
    exact ⟨rfl, hmesh, rfl, fun h0 => absurd h0 hi, fun _ => ⟨hcluster, hleader⟩⟩

theorem toInt_ofInt (h : -2 ^ 31 ≤ v ∧ v < 2 ^ 31) : (Int32.ofInt v).toInt = v :=
  Int32.toInt_ofInt_of_le h.1 h.2

theorem PathInfo.describes (h : p.fields i = .ok f) (hf : f.Fits) : Describes p i f.record := by
  obtain ⟨hid, hmesh, hchildren, hroot, hother⟩ := PathInfo.fields_ok h
  have hcluster : f.record.clusterIdx.toInt = f.clusterIdx := toInt_ofInt hf.clusterIdx
  have hleader : f.record.clusterLeaderId.toInt = f.leaderid := toInt_ofInt hf.leaderid
  have hmeshid : f.record.meshId.toInt = f.meshid := toInt_ofInt hf.meshid
  have hids : f.record.childIds.map UInt32.toNat = getChildNum p.parent i := by
    rw [← hchildren]
    exact map_toNat_ofNat hf.childids
  refine ⟨(f.nodeid_record hf).trans hid, by rw [hmeshid]; exact hmesh, ?_, ?_, ?_, ?_, ?_, ?_⟩
  · rw [hcluster, hleader]
    exact hroot
  · rw [hcluster]
    exact fun hi => (hother hi).1
  · rw [hcluster, hleader]
    exact fun hi => (hother hi).2
  · show (UInt32.ofNat f.childids.length).toNat = (f.childids.map UInt32.ofNat).length
    rw [List.length_map, UInt32.toNat_ofNat_of_lt' hf.childNum]
  · rw [hids]
    exact sorted_getChildNum p.parent i
  · intro j
    rw [hids]
    exact mem_getChildNum

theorem fields_of_mapM {ids : List ℕ}
    (h : List.Forall₂ (fun i bs => (p.fields i >>= Fields.pack) = .ok bs) ids bss) :
    ∃ fs : List Fields, fs.map Fields.nodeid = ids ∧ bss.flatten = fs.flatMap Fields.bytes ∧
      ∀ f ∈ fs, p.fields f.nodeid = .ok f ∧ f.Fits := by
  induction h with
  | nil => exact ⟨[], rfl, rfl, by simp⟩
  | cons hi _ ih =>
    obtain ⟨fs, hids, hbytes, hall⟩ := ih
    obtain ⟨f, hfields, hpack⟩ := bind_eq_ok.mp hi
    obtain ⟨hfits, rfl⟩ := f.pack_ok hpack
    have hid := (PathInfo.fields_ok hfields).1
    refine ⟨f :: fs, by rw [List.map_cons, hids, hid], ?_, ?_⟩
    · rw [List.flatten_cons, hbytes, List.flatMap_cons]
    · exact List.forall_mem_cons.mpr ⟨⟨hid.symm ▸ hfields, hfits⟩, hall⟩

theorem length_le_flatMap_bytes (fs : List Fields) : fs.length ≤ (fs.flatMap Fields.bytes).length := by
  induction fs with
  | nil => exact le_rfl
  | cons f fs ih =>
    rw [List.flatMap_cons, List.length_append, List.length_cons, f.length_bytes]
    omega

/-- Whatever `send_pathInfo` sends, if one read delivers it, is parsed to one record for each node,
and each node with another node as its parent is in exactly one list of children. -/
theorem path_info_round_trip {p : PathInfo} {msg : Bytes} (h : sendPathInfo p = .ok msg)
    (hlen : msg.length ≤ bufLen) :
    ∃ nodeMap, parsePathInfo msg = .ok (nodeMap, msg.length) ∧
      (∀ i, i < p.nodeNum → ∃ r, nodeMap.lookup i = some r ∧ Describes p i r) ∧
      (∀ i, p.nodeNum ≤ i → nodeMap.lookup i = none) ∧
      ∀ j q : ℕ, p.parent[j]? = some (q : ℤ) → q ≠ j → q < p.nodeNum →
        ∃! i, ∃ r, nodeMap.lookup i = some r ∧ j ∈ r.childIds.map UInt32.toNat := by
  unfold sendPathInfo at h
  obtain ⟨head, hhead, h⟩ := bind_eq_ok.mp h
  obtain ⟨bss, hbss, h⟩ := bind_eq_ok.mp h
  cases h
  have hhead4 : head.length = 4 := by
    rw [(packUnsigned_ok hhead).2]
    rfl
  obtain ⟨fs, hids, hbytes, hall⟩ := fields_of_mapM (forall₂_of_mapM hbss)
  rw [hbytes] at hlen ⊢
  have hnodup : (fs.map Fields.nodeid).Nodup := hids ▸ List.nodup_range
  generalize hpad : bufLen - (head ++ fs.flatMap Fields.bytes).length = pad
  have hdrop : (head ++ fs.flatMap Fields.bytes ++ List.replicate pad 0).drop (0 + 4) =
      fs.flatMap Fields.bytes ++ List.replicate pad 0 :=
    drop_add_of_drop (by rw [List.drop_zero, List.append_assoc]) hhead4
  have hmsg : (head ++ fs.flatMap Fields.bytes).length = 0 + 4 + (fs.flatMap Fields.bytes).length := by
    rw [List.length_append, hhead4, Nat.zero_add]
  have hfuel := length_le_flatMap_bytes fs
  have hparse : parsePathInfo (head ++ fs.flatMap Fields.bytes) =
      .ok (collect fs ∅, (head ++ fs.flatMap Fields.bytes).length) := by
    rw [parsePathInfo, hpad, List.take_of_length_le hlen, Nat.min_eq_right hlen]
    exact parseLoop_of_drop ∅ (fun f hf => (hall f hf).2) hdrop hmsg (by omega)
  have hfind : ∀ i, i < p.nodeNum → ∃ r, (collect fs ∅).lookup i = some r ∧ Describes p i r := by
    intro i hi
    have hmem : i ∈ fs.map Fields.nodeid := hids ▸ List.mem_range.mpr hi
    obtain ⟨f, hf, rfl⟩ := List.mem_map.mp hmem
    obtain ⟨hfields, hfits⟩ := hall f hf
    exact ⟨f.record, lookup_collect ∅ hnodup hf, PathInfo.describes hfields hfits⟩
  have hnone : ∀ i, p.nodeNum ≤ i → (collect fs ∅).lookup i = none := by
    intro i hi
    refine (lookup_collect_of_notMem ∅ ?_).trans (AList.lookup_empty i)
    rw [hids, List.mem_range]
    omega
  refine ⟨collect fs ∅, hparse, hfind, hnone, ?_⟩
  intro j q hj hqj hq
  obtain ⟨r, hr, hdesc⟩ := hfind q hq
  refine ⟨q, ⟨r, hr, (hdesc.childIds j).mpr ⟨hj, hqj.symm⟩⟩, ?_⟩
  rintro i ⟨r', hr', hmem⟩
  have hi : i < p.nodeNum := by
    by_contra hge
    rw [hnone i (by omega)] at hr'
    cases hr'
  obtain ⟨r'', hr'', hdesc'⟩ := hfind i hi
  rw [hr'] at hr''
  cases hr''
  have hparent := ((hdesc'.childIds j).mp hmem).1
  rw [hj] at hparent
  exact_mod_cast (Option.some.inj hparent).symm

def chain : PathInfo := ⟨3, [0, 0], [1], [0, 0, 1], [-1, 2, 1]⟩

theorem path_info_round_trip_chain :
    ∃ msg nodeMap, sendPathInfo chain = .ok msg ∧ msg.length ≤ bufLen ∧
      parsePathInfo msg = .ok (nodeMap, msg.length) ∧
      ∀ i, i < 3 → ∃ r, nodeMap.lookup i = some r ∧ Describes chain i r := by
  have hrun : (match sendPathInfo chain with
      | .ok msg => decide (msg.length ≤ bufLen)
      | .error _ => false) = true := by decide +kernel
  cases hsend : sendPathInfo chain with
  | error e =>
    rw [hsend] at hrun
    cases hrun
  | ok msg =>
    rw [hsend] at hrun
    have hlen := of_decide_eq_true hrun
    obtain ⟨nodeMap, hparse, hall, -⟩ := path_info_round_trip hsend hlen
    exact ⟨msg, nodeMap, rfl, hlen, hparse, hall⟩

end Mp2bs.Verify
