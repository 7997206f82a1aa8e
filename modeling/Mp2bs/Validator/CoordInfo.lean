import Mp2bs.Go
import Mp2bs.Lib.Loop
import Mp2bs.Lib.Slice
import Mp2bs.Lib.Wire

/-!
# The coordinate message

`sendCoordInfo` (`validator/validatorNode.go:88-116`) writes the number of nodes, the dimension, an
option and for each node its number and coordinate into a buffer of 4096 bytes. `parse_data`
(`omtree_mesh_ndim_v2.py:515-560`) reads them back from offsets that it computes from the header. A
float is its 32 bits.
-/

namespace Mp2bs.Validator.CoordInfo
open Mp2bs.Lib Mp2bs.Lib.Slice Mp2bs.Lib.Wire

/-! ### The validator -/

/-- The check of the arguments (`validatorNode.go:208-211`). -/
def accepted (ndim nbRef : ℤ) : Bool := !decide (ndim > nbRef)

def msgLen : ℕ := 4096

def putUint32 (msg : Bytes) (offset : ℕ) (v : UInt32) : Except Stop Bytes :=
  if offset + 4 ≤ msg.length then .ok (writeAt msg offset (writeUint32 v)) else .error .panic

/-- The loop over a coordinate (`validatorNode.go:110-113`). -/
def putCoord : List UInt32 → Bytes → ℕ → Except Stop (Bytes × ℕ)
  | [], msg, offset => .ok (msg, offset)
  | x :: coord, msg, offset => do
    let msg ← putUint32 msg offset x
    putCoord coord msg (offset + 4)

/-- The loop over the nodes (`validatorNode.go:107-114`). -/
def putNodes (coord : ℕ → List UInt32) : List ℕ → Bytes → ℕ → Except Stop (Bytes × ℕ)
  | [], msg, offset => .ok (msg, offset)
  | i :: ids, msg, offset => do
    let msg ← putUint32 msg offset (UInt32.ofNat i)
    let (msg, offset) ← putCoord (coord i) msg (offset + 4)
    putNodes coord ids msg offset

def sendCoordInfo (nodeTotal ndim : ℕ) (coord : ℕ → List UInt32) : Except Stop Bytes := do
  let msg ← putUint32 (List.replicate msgLen 0) 0 (UInt32.ofNat nodeTotal)
  let msg ← putUint32 msg 4 (UInt32.ofNat ndim)
  let msg ← putUint32 msg 8 0
  let (msg, _) ← putNodes coord (List.range nodeTotal) msg 12
  return msg

/-! ### The tree builder -/

inductive ParseError
  | structError
  | indexError
  | assertionError
  deriving DecidableEq

abbrev Table := List (List UInt32)

def unpackFrom (k : ℕ) (readBuf : Bytes) (offset : ℕ) : Except ParseError (List UInt32) :=
  match readWords k (readBuf.drop offset) with
  | some ws => .ok ws
  | none => .error .structError

def setEntry (data : Table) (idx d : ℕ) (x : UInt32) : Except ParseError Table :=
  match data[idx]? with
  | none => .error .indexError
  | some row => if d < row.length then .ok (data.set idx (row.set d x)) else .error .indexError

/-- The loop over `d` (546-547). -/
def setRow (idx : ℕ) : List UInt32 → ℕ → Table → Except ParseError Table
  | [], _, data => .ok data
  | x :: xs, d, data => do
    let data ← setEntry data idx d x
    setRow idx xs (d + 1) data

/-- The loop over `i` (542-547). -/
def parseNodes (readBuf : Bytes) (dim : ℕ) : List ℕ → Table → Except ParseError Table
  | [], data => .ok data
  | i :: ids, data => do
    match ← unpackFrom (1 + dim) readBuf (12 + (4 + dim * 4) * i) with
    | [] => .error .structError
    | idx :: xs =>
      let data ← setRow idx.toNat xs 0 data
      parseNodes readBuf dim ids data

/-- `x == 0` for a float: zero of either sign. -/
def isZero (x : UInt32) : Bool := x == 0 || x == 0x80000000

/-- `parse_data`. With an option other than 0, `assert data` fails for `None` and for an array of more
than one entry; `sendCoordInfo` never sends one. -/
def parseData (readBuf : Bytes) : Except ParseError Table := do
  match ← unpackFrom 3 readBuf 0 with
  | [nodeNum, dim, opt] =>
    if opt ≠ 0 then .error .assertionError
    else
      let zeros := List.replicate nodeNum.toNat (List.replicate dim.toNat 0)
      let data ← parseNodes readBuf dim.toNat (List.range nodeNum.toNat) zeros
      match data with
      | [] => .error .indexError
      | row :: _ => if row.all isZero then .ok data else .error .assertionError
  | _ => .error .structError

/-! ### What is written -/

def Filled (msg : Bytes) (ws : List UInt32) : Prop :=
  4 * ws.length ≤ msgLen ∧ msg = writeWords ws ++ List.replicate (msgLen - 4 * ws.length) 0

variable {msg readBuf rest : Bytes} {ws : List UInt32} {r : Bytes × ℕ} {coord : ℕ → List UInt32}
  {ids : List ℕ} {nodeTotal ndim : ℕ}

theorem Filled.length (h : Filled msg ws) : msg.length = msgLen := by
  have hle := h.1
  rw [h.2, List.length_append, length_writeWords, List.length_replicate]
  omega

theorem filled_nil : Filled (List.replicate msgLen 0) [] := ⟨Nat.zero_le _, rfl⟩

theorem writeAt_filled (h : Filled msg ws) (x : UInt32) (hroom : 4 * ws.length + 4 ≤ msgLen) :
    Filled (writeAt msg (4 * ws.length) (writeUint32 x)) (ws ++ [x]) := by
  have hlen : (ws ++ [x]).length = ws.length + 1 := by rw [List.length_append]; rfl
  refine ⟨by omega, ?_⟩
  have htake : msg.take (4 * ws.length) = writeWords ws := by
    rw [h.2, ← length_writeWords, List.take_left]
  have hdrop : msg.drop (4 * ws.length + 4) =
      List.replicate (msgLen - 4 * (ws ++ [x]).length) 0 := by
    rw [← List.drop_drop, h.2, ← length_writeWords, List.drop_left, List.drop_replicate,
      length_writeWords, hlen]
    congr 1
  rw [writeAt, htake, length_writeUint32, hdrop, writeWords_append]
  rfl

theorem putUint32_ok {msg' : Bytes} {x : UInt32} (h : Filled msg ws)
    (hput : putUint32 msg (4 * ws.length) x = .ok msg') : Filled msg' (ws ++ [x]) := by
  unfold putUint32 at hput
  split at hput
  · rename_i hroom
    cases hput
    rw [h.length] at hroom
    exact writeAt_filled h x hroom
  · cases hput

theorem exists_putUint32 (x : UInt32) (h : Filled msg ws) (hroom : 4 * ws.length + 4 ≤ msgLen) :
    ∃ msg', putUint32 msg (4 * ws.length) x = .ok msg' := by
  refine ⟨_, if_pos ?_⟩
  rw [h.length]
  exact hroom

theorem succ_offset (ws : List UInt32) (x : UInt32) :
    4 * ws.length + 4 = 4 * (ws ++ [x]).length := by
  rw [List.length_append]
  rfl

theorem putCoord_ok {coord : List UInt32} (h : Filled msg ws)
    (hput : putCoord coord msg (4 * ws.length) = .ok r) :
    Filled r.1 (ws ++ coord) ∧ r.2 = 4 * (ws ++ coord).length := by
  induction coord generalizing msg ws with
  | nil =>
    cases hput
    rw [List.append_nil]
    exact ⟨h, rfl⟩
  | cons x coord ih =>
    unfold putCoord at hput
    obtain ⟨msg', hx, hput⟩ := bind_eq_ok.mp hput
    rw [succ_offset ws x] at hput
    have hrest := ih (putUint32_ok h hx) hput
    rwa [List.append_assoc] at hrest

theorem exists_putCoord (coord : List UInt32) (h : Filled msg ws)
    (hroom : 4 * (ws ++ coord).length ≤ msgLen) : ∃ r, putCoord coord msg (4 * ws.length) = .ok r := by
  induction coord generalizing msg ws with
  | nil => exact ⟨_, rfl⟩
  | cons x coord ih =>
    have hlen : (ws ++ x :: coord).length = ws.length + 1 + coord.length := by
      rw [List.length_append, List.length_cons]
      omega
    obtain ⟨msg', hx⟩ := exists_putUint32 x h (by omega)
    obtain ⟨r, hr⟩ := ih (putUint32_ok h hx) (by rwa [List.append_assoc])
    rw [← succ_offset ws x] at hr
    exact ⟨r, bind_eq_ok.mpr ⟨msg', hx, hr⟩⟩

def nodeWords (coord : ℕ → List UInt32) (ids : List ℕ) : List UInt32 :=
  ids.flatMap fun i => UInt32.ofNat i :: coord i

theorem putNodes_ok (h : Filled msg ws) (hput : putNodes coord ids msg (4 * ws.length) = .ok r) :
    Filled r.1 (ws ++ nodeWords coord ids) := by
  induction ids generalizing msg ws with
  | nil =>
    cases hput
    rwa [nodeWords, List.flatMap_nil, List.append_nil]
  | cons i ids ih =>
    unfold putNodes at hput
    obtain ⟨msg', hi, hput⟩ := bind_eq_ok.mp hput
    obtain ⟨⟨msg'', offset⟩, hcoord, hput⟩ := bind_eq_ok.mp hput
    rw [succ_offset ws (UInt32.ofNat i)] at hcoord
    obtain ⟨hfilled, hoffset⟩ := putCoord_ok (putUint32_ok h hi) hcoord
    obtain rfl : offset = _ := hoffset
    have hrest := ih hfilled hput
    rwa [List.append_assoc, List.append_assoc] at hrest

theorem exists_putNodes (h : Filled msg ws) (hroom : 4 * (ws ++ nodeWords coord ids).length ≤ msgLen) :
    ∃ r, putNodes coord ids msg (4 * ws.length) = .ok r := by
  induction ids generalizing msg ws with
  | nil => exact ⟨_, rfl⟩
  | cons i ids ih =>
    have hcons : nodeWords coord (i :: ids) = [UInt32.ofNat i] ++ (coord i ++ nodeWords coord ids) :=
      rfl
    rw [hcons, ← List.append_assoc, ← List.append_assoc] at hroom
    have hle : (ws ++ [UInt32.ofNat i] ++ coord i).length ≤
        (ws ++ [UInt32.ofNat i] ++ coord i ++ nodeWords coord ids).length := by
      simp only [List.length_append]
      omega
    have hfirst : 4 * ws.length + 4 ≤ 4 * (ws ++ [UInt32.ofNat i] ++ coord i).length := by
      simp only [List.length_append, List.length_singleton]
      omega
    obtain ⟨msg', hi⟩ := exists_putUint32 (UInt32.ofNat i) h (by omega)
    have hfilled := putUint32_ok h hi
    obtain ⟨⟨msg'', offset⟩, hcoord⟩ := exists_putCoord (coord i) hfilled (by omega)
    obtain ⟨hfilled', hoffset⟩ := putCoord_ok hfilled hcoord
    obtain rfl : offset = _ := hoffset
    obtain ⟨r, hr⟩ := ih hfilled' hroom
    rw [← succ_offset ws (UInt32.ofNat i)] at hcoord
    exact ⟨r, bind_eq_ok.mpr ⟨msg', hi, bind_eq_ok.mpr ⟨_, hcoord, hr⟩⟩⟩

def messageWords (nodeTotal ndim : ℕ) (coord : ℕ → List UInt32) : List UInt32 :=
  [UInt32.ofNat nodeTotal, UInt32.ofNat ndim, 0] ++ nodeWords coord (List.range nodeTotal)

theorem sendCoordInfo_ok (h : sendCoordInfo nodeTotal ndim coord = .ok msg) :
    Filled msg (messageWords nodeTotal ndim coord) := by
  unfold sendCoordInfo at h
  obtain ⟨msg1, h1, h⟩ := bind_eq_ok.mp h
  obtain ⟨msg2, h2, h⟩ := bind_eq_ok.mp h
  obtain ⟨msg3, h3, h⟩ := bind_eq_ok.mp h
  obtain ⟨r, hr, h⟩ := bind_eq_ok.mp h
  cases h
  have hf1 := putUint32_ok filled_nil h1
  have hf2 := putUint32_ok hf1 h2
  have hf3 := putUint32_ok hf2 h3
  exact putNodes_ok hf3 hr

theorem exists_sendCoordInfo (nodeTotal ndim : ℕ) (coord : ℕ → List UInt32)
    (hroom : 4 * (messageWords nodeTotal ndim coord).length ≤ msgLen) :
    ∃ msg, sendCoordInfo nodeTotal ndim coord = .ok msg := by
  obtain ⟨msg1, h1⟩ := exists_putUint32 (UInt32.ofNat nodeTotal) filled_nil (by decide)
  have hf1 := putUint32_ok filled_nil h1
  obtain ⟨msg2, h2⟩ := exists_putUint32 (UInt32.ofNat ndim) hf1 (by simp [msgLen])
  have hf2 := putUint32_ok hf1 h2
  obtain ⟨msg3, h3⟩ := exists_putUint32 0 hf2 (by simp [msgLen])
  have hf3 := putUint32_ok hf2 h3
  obtain ⟨r, hr⟩ := exists_putNodes hf3 hroom
  exact ⟨r.1, bind_eq_ok.mpr ⟨msg1, h1, bind_eq_ok.mpr ⟨msg2, h2, bind_eq_ok.mpr ⟨msg3, h3,
    bind_eq_ok.mpr ⟨r, hr, rfl⟩⟩⟩⟩⟩

/-! ### What is read -/

theorem unpackFrom_of_drop (ws : List UInt32) {offset : ℕ}
    (h : readBuf.drop offset = writeWords ws ++ rest) :
    unpackFrom ws.length readBuf offset = .ok ws := by
  rw [unpackFrom, h, readWords_write]

theorem setRow_ok {idx d : ℕ} {xs row : List UInt32} {data : Table} (hrow : data[idx]? = some row)
    (hlen : row.length = d + xs.length) :
    setRow idx xs d data = .ok (data.set idx (row.take d ++ xs)) := by
  induction xs generalizing d row data with
  | nil =>
    have htake : row.take d = row := List.take_of_length_le (by rw [hlen]; exact le_rfl)
    have hset : data.set idx row = data := by
      obtain ⟨hlt, rfl⟩ := List.getElem?_eq_some_iff.mp hrow
      exact List.set_getElem_self hlt
    rw [setRow, htake, List.append_nil, hset]
  | cons x xs ih =>
    obtain ⟨hlt, -⟩ := List.getElem?_eq_some_iff.mp hrow
    rw [List.length_cons] at hlen
    have hd : d < row.length := by omega
    have hentry : setEntry data idx d x = .ok (data.set idx (row.set d x)) := by
      simp only [setEntry, hrow, if_pos hd]
    have hrow' : (data.set idx (row.set d x))[idx]? = some (row.set d x) := by
      rw [List.getElem?_set_self hlt]
    have hlen' : (row.set d x).length = d + 1 + xs.length := by
      rw [List.length_set]
      omega
    have hrest := ih hrow' hlen'
    have htake : (row.set d x).take (d + 1) = row.take d ++ [x] := by
      rw [List.take_add_one, List.take_set_of_le le_rfl, List.getElem?_set_self hd]
      rfl
    rw [setRow, hentry]
    refine hrest.trans ?_
    rw [List.set_set, htake, List.append_assoc]
    rfl

theorem parseNodes_ok {dim : ℕ} (k m : ℕ) (ws : List UInt32) (data : Table)
    (hbuf : readBuf = writeWords (ws ++ nodeWords coord (List.range' k m)) ++ rest)
    (hws : ws.length = 3 + (1 + dim) * k) (hk : k + m < 2 ^ 32)
    (hcoord : ∀ i, i < k + m → (coord i).length = dim) (hdata : data.length = k + m)
    (hrows : ∀ row ∈ data, row.length = dim) :
    parseNodes readBuf dim (List.range' k m) data =
      .ok (data.take k ++ (List.range' k m).map coord) := by
  induction m generalizing k ws data with
  | zero =>
    rw [List.take_of_length_le (by omega)]
    simp only [List.range'_zero, List.map_nil, List.append_nil, parseNodes]
  | succ m ih =>
    rw [List.range'_succ] at hbuf ⊢
    have hsplit : ws ++ nodeWords coord (k :: List.range' (k + 1) m) =
        ws ++ (UInt32.ofNat k :: coord k) ++ nodeWords coord (List.range' (k + 1) m) := by
      rw [List.append_assoc]
      rfl
    rw [hsplit] at hbuf
    have hlen : (UInt32.ofNat k :: coord k).length = 1 + dim := by
      rw [List.length_cons, hcoord k (by omega)]
      omega
    have hoffset : 12 + (4 + dim * 4) * k = 4 * ws.length := by
      rw [hws]
      ring
    have hdrop : readBuf.drop (4 * ws.length) = writeWords (UInt32.ofNat k :: coord k) ++
        (writeWords (nodeWords coord (List.range' (k + 1) m)) ++ rest) := by
      rw [hbuf, writeWords_append, writeWords_append, List.append_assoc, List.append_assoc,
        ← length_writeWords, List.drop_left]
    have hunpack := unpackFrom_of_drop _ hdrop
    rw [hlen, ← hoffset] at hunpack
    have hklt : k < data.length := by omega
    have hidx : (UInt32.ofNat k).toNat = k := UInt32.toNat_ofNat_of_lt' (by show k < 2 ^ 32; omega)
    have hrow : setRow k (coord k) 0 data = .ok (data.set k (coord k)) := by
      have hget := List.getElem?_eq_getElem hklt
      refine (setRow_ok hget ?_).trans ?_
      · rw [hrows _ (List.getElem_mem hklt), hcoord k (by omega), Nat.zero_add]
      · rw [List.take_zero, List.nil_append]
    have hrest := ih (k + 1) _ (data.set k (coord k)) hbuf
      (by rw [List.length_append, hlen, hws]; ring) (by omega)
      (fun i hi => hcoord i (by omega)) (by rw [List.length_set]; omega) (by
        intro row hmem
        rcases List.mem_or_eq_of_mem_set hmem with hmem | rfl
        · exact hrows row hmem
        · exact hcoord k (by omega))
    have htake : (data.set k (coord k)).take (k + 1) = data.take k ++ [coord k] := by
      rw [List.take_add_one, List.take_set_of_le le_rfl, List.getElem?_set_self hklt]
      rfl
    rw [parseNodes, hunpack]
    show (setRow (UInt32.ofNat k).toNat (coord k) 0 data >>=
      fun data => parseNodes readBuf dim (List.range' (k + 1) m) data) = _
    rw [hidx, hrow]
    refine hrest.trans ?_
    rw [htake, List.append_assoc]
    rfl

theorem parseData_ok (hpos : 0 < nodeTotal) (hlen : ∀ i < nodeTotal, (coord i).length = ndim)
    (hzero : ∀ x ∈ coord 0, isZero x = true) (hn : nodeTotal < 2 ^ 32) (hd : ndim < 2 ^ 32)
    (h : Filled msg (messageWords nodeTotal ndim coord)) :
    parseData msg = .ok ((List.range nodeTotal).map coord) := by
  have hbuf : msg = writeWords (messageWords nodeTotal ndim coord) ++ _ := h.2
  generalize List.replicate (msgLen - 4 * (messageWords nodeTotal ndim coord).length) (0 : UInt8) =
    rest at hbuf
  have hhead : unpackFrom 3 msg 0 = .ok [UInt32.ofNat nodeTotal, UInt32.ofNat ndim, 0] := by
    have hdrop : msg.drop 0 = writeWords [UInt32.ofNat nodeTotal, UInt32.ofNat ndim, 0] ++
        (writeWords (nodeWords coord (List.range nodeTotal)) ++ rest) := by
      rw [List.drop_zero, hbuf, messageWords, writeWords_append, List.append_assoc]
    exact unpackFrom_of_drop [UInt32.ofNat nodeTotal, UInt32.ofNat ndim, 0] hdrop
  have hrange : List.range nodeTotal = List.range' 0 nodeTotal := List.range_eq_range'
  rw [messageWords, hrange] at hbuf
  have hnodes := parseNodes_ok 0 nodeTotal [UInt32.ofNat nodeTotal, UInt32.ofNat ndim, 0]
    (List.replicate nodeTotal (List.replicate ndim 0)) hbuf rfl (by omega)
    (fun i hi => hlen i (by omega)) (by rw [List.length_replicate, Nat.zero_add]) (by
      intro row hrow
      rw [List.eq_of_mem_replicate hrow, List.length_replicate])
  rw [List.take_zero, List.nil_append, ← hrange] at hnodes
  have hnat : (UInt32.ofNat nodeTotal).toNat = nodeTotal := UInt32.toNat_ofNat_of_lt' hn
  have hdat : (UInt32.ofNat ndim).toNat = ndim := UInt32.toNat_ofNat_of_lt' hd
  obtain ⟨n, rfl⟩ : ∃ n, nodeTotal = n + 1 := ⟨nodeTotal - 1, by omega⟩
  have hall : (coord 0).all isZero = true := List.all_eq_true.mpr hzero
  rw [parseData, hhead]
  simp only [bind, Except.bind, ne_eq, not_true_eq_false, if_false, hnat, hdat, hnodes]
  rw [List.range_succ_eq_map, List.map_cons]
  exact if_pos hall

/-! ### The round trip -/

theorem length_nodeWords (ids : List ℕ) (h : ∀ i ∈ ids, (coord i).length = ndim) :
    (nodeWords coord ids).length = ids.length * (1 + ndim) := by
  induction ids with
  | nil => simp [nodeWords]
  | cons i ids ih =>
    have hcons : nodeWords coord (i :: ids) = (UInt32.ofNat i :: coord i) ++ nodeWords coord ids := rfl
    rw [hcons, List.length_append, ih fun j hj => h j (List.mem_cons_of_mem _ hj), List.length_cons,
      h i (List.mem_cons_self ..), List.length_cons]
    ring

theorem length_messageWords (nodeTotal ndim : ℕ) (coord : ℕ → List UInt32)
    (h : ∀ i < nodeTotal, (coord i).length = ndim) :
    4 * (messageWords nodeTotal ndim coord).length = 12 + nodeTotal * (4 + 4 * ndim) := by
  have hwords := length_nodeWords (List.range nodeTotal) fun i hi => h i (List.mem_range.mp hi)
  rw [List.length_range] at hwords
  rw [messageWords, List.length_append, hwords]
  simp only [List.length_cons, List.length_nil]
  ring

/-- For every accepted dimension, the tree builder gets the coordinates of the validator exactly if
they fit the buffer. -/
theorem coord_info_round_trip {nodeTotal ndim : ℕ} {nbRef : ℤ} {coord : ℕ → List UInt32}
    (_haccepted : accepted ndim nbRef = true) (hpos : 0 < nodeTotal)
    (hlen : ∀ i < nodeTotal, (coord i).length = ndim) (hzero : ∀ x ∈ coord 0, isZero x = true) :
    (∃ msg, sendCoordInfo nodeTotal ndim coord = .ok msg ∧
      parseData msg = .ok ((List.range nodeTotal).map coord)) ↔
      12 + nodeTotal * (4 + 4 * ndim) ≤ msgLen := by
  have hwords := length_messageWords nodeTotal ndim coord hlen
  constructor
  · rintro ⟨msg, hsend, -⟩
    have hle := (sendCoordInfo_ok hsend).1
    omega
  · intro hle
    obtain ⟨msg, hsend⟩ := exists_sendCoordInfo nodeTotal ndim coord (hwords ▸ hle)
    have hprod : nodeTotal * 4 + nodeTotal * (4 * ndim) ≤ msgLen := by
      rw [← Nat.mul_add]
      omega
    have hdim : 4 * ndim ≤ nodeTotal * (4 * ndim) := Nat.le_mul_of_pos_left _ hpos
    have hmsg : msgLen = 4096 := rfl
    exact ⟨msg, hsend, parseData_ok hpos hlen hzero (by omega) (by omega) (sendCoordInfo_ok hsend)⟩

def pair : ℕ → List UInt32 := fun i => if i = 0 then [0] else [0x3f800000]

theorem coord_info_round_trip_pair :
    ∃ msg, sendCoordInfo 2 1 pair = .ok msg ∧ parseData msg = .ok [[0], [0x3f800000]] := by
  have haccepted : accepted (1 : ℕ) 1 = true := by decide
  have hlen : ∀ i < 2, (pair i).length = 1 := by decide
  have hzero : ∀ x ∈ pair 0, isZero x = true := by
    intro x hx
    rw [List.mem_singleton.mp hx]
    rfl
  have hroom : 12 + 2 * (4 + 4 * 1) ≤ msgLen := by simp [msgLen]
  have hpos : 0 < 2 := Nat.two_pos
  exact (coord_info_round_trip haccepted hpos hlen hzero).mpr hroom

/-- With 80 nodes and 12 dimensions, which the validator accepts, the last coordinates lie outside
the buffer. -/
theorem coord_info_overruns :
    accepted 12 12 = true ∧
      ∀ msg, sendCoordInfo 80 12 (fun _ => List.replicate 12 0) ≠ .ok msg := by
  refine ⟨by decide, ?_⟩
  intro msg hsend
  have hle := (sendCoordInfo_ok hsend).1
  have hwords := length_messageWords 80 12 (fun _ => List.replicate 12 0)
    fun _ _ => List.length_replicate
  rw [hwords] at hle
  simp [msgLen] at hle

end Mp2bs.Validator.CoordInfo
