import Mp2bs.Lib.Loop
import Mp2bs.Session.Framing

/-!
# The hello ACK packet (`session/hello_ack_packet.go`)

A server answers the first path of a session with its addresses. The parser goes by the number of the
addresses and their lengths, not by the length of the packet, which `receiveHelloAckPacket` goes by
(`session.go:137-171`). An address is its bytes.
-/

namespace Mp2bs.Session.HelloAck
open Mp2bs.Lib Mp2bs.Lib.Wire
open Mp2bs.Session.Framing (Conf mp2bsToml)

structure NicInfo where
  type : UInt8
  addrLen : UInt8
  addr : Bytes
  deriving Repr, DecidableEq

structure HelloAckPacket where
  type : UInt8
  length : UInt16
  sessionID : UInt32
  numPath : UInt8
  nicInfos : List NicInfo
  deriving Repr, DecidableEq

-- getNicInfo, session.go:506-514
def getNicInfo (listenAddrList : List Bytes) : List NicInfo :=
  listenAddrList.map fun addr => ⟨0, UInt8.ofNat addr.length, addr⟩

/- The sum of lines 31-34; each term is a byte. -/
def nicInfoLen (nicInfos : List NicInfo) : ℕ :=
  nicInfos.foldl (fun n nicInfo => n + (nicInfo.addrLen + 2).toNat) 0

-- CreateHelloAckPacket, 25-38
def createHelloAckPacket (conf : Conf) (sessionID : UInt32) (nicInfos : List NicInfo) : HelloAckPacket :=
  ⟨conf.helloAckPacket, UInt16.ofNat (8 + nicInfoLen nicInfos), sessionID, UInt8.ofNat nicInfos.length, nicInfos⟩

/-- An element of a slice; an index out of range panics. -/
def index {α : Type} (l : List α) (i : ℕ) : Except Stop α :=
  match l[i]? with
  | none => .error .panic
  | some x => .ok x

/- The body of the loop of `Write` (99-103). -/
def NicInfo.write (nicInfo : NicInfo) : Except Stop Bytes := do
  let addr ← (List.range nicInfo.addrLen.toNat).mapM (index nicInfo.addr)
  return nicInfo.type :: nicInfo.addrLen :: addr

-- Write, 92-107
def HelloAckPacket.write (p : HelloAckPacket) : Except Stop Bytes := do
  let nicInfos ← (List.range p.numPath.toNat).mapM fun i => do
    let nicInfo ← index p.nicInfos i
    nicInfo.write
  return p.type :: (writeUint16 p.length ++ (writeUint32 p.sessionID ++ p.numPath :: nicInfos.flatten))

/- The loop of lines 73-78. -/
def readAddr : ℕ → Reader Bytes
  | 0, r => some ([], r)
  | n + 1, r => do
    let (b, r) ← readByte r
    let (addr, r) ← readAddr n r
    some (b :: addr, r)

/- The loop of lines 62-79. -/
def readNicInfos : ℕ → Reader (List NicInfo)
  | 0, r => some ([], r)
  | n + 1, r => do
    let (type, r) ← readByte r
    let (addrLen, r) ← readByte r
    let (addr, r) ← readAddr addrLen.toNat r
    let (nicInfos, r) ← readNicInfos n r
    some (⟨type, addrLen, addr⟩ :: nicInfos, r)

-- ParseHelloAckPacket, 40-89
def parseHelloAckPacket (r : Bytes) : Option HelloAckPacket := do
  let (type, r) ← readByte r
  let (length, r) ← readUint16 r
  let (sessionID, r) ← readUint32 r
  let (numPath, r) ← readByte r
  let (nicInfos, _) ← readNicInfos numPath.toNat r
  some ⟨type, length, sessionID, numPath, nicInfos⟩

/-! ### What is written -/

def NicInfo.bytes (nicInfo : NicInfo) : Bytes := nicInfo.type :: nicInfo.addrLen :: nicInfo.addr

def NicInfo.Measured (nicInfo : NicInfo) : Prop := nicInfo.addrLen.toNat = nicInfo.addr.length

theorem mapM_index {α β : Type} (l : List α) {f : α → Except Stop β} {g : α → β} (hf : ∀ x ∈ l, f x = .ok (g x)) :
    ((List.range l.length).mapM fun i => index l i >>= f) = .ok (l.map g) := by
  induction l with
  | nil => rfl
  | cons x l ih =>
    have hx : (index (x :: l) 0 >>= f) = .ok (g x) := hf x (List.mem_cons_self ..)
    have hl : ((List.range l.length).mapM fun i => index (x :: l) (i + 1) >>= f) = .ok (l.map g) :=
      ih fun y hy => hf y (List.mem_cons_of_mem _ hy)
    rw [List.length_cons, List.range_succ_eq_map, List.mapM_cons, hx, List.mapM_map]
    simp only [Function.comp_def, Nat.succ_eq_add_one, hl]
    rfl

theorem NicInfo.write_eq {nicInfo : NicInfo} (h : nicInfo.Measured) : nicInfo.write = .ok nicInfo.bytes := by
  have haddr : ((List.range nicInfo.addr.length).mapM fun i => index nicInfo.addr i >>= fun b => .ok b) =
      .ok (nicInfo.addr.map id) := mapM_index nicInfo.addr fun b _ => rfl
  have hind : (fun i => index nicInfo.addr i >>= fun b => .ok b) = index nicInfo.addr := by
    funext i
    cases index nicInfo.addr i with
    | error e => rfl
    | ok b => rfl
  rw [hind, List.map_id, ← h] at haddr
  rw [NicInfo.write, haddr]
  rfl

theorem length_getNicInfo (addrs : List Bytes) : (getNicInfo addrs).length = addrs.length := by
  rw [getNicInfo, List.length_map]

theorem measured_of_mem {addrs : List Bytes} (h : ∀ addr ∈ addrs, addr.length ≤ 255) :
    ∀ nicInfo ∈ getNicInfo addrs, nicInfo.Measured := by
  intro nicInfo hmem
  obtain ⟨addr, haddr, rfl⟩ := List.mem_map.mp hmem
  have hle := h addr haddr
  rw [NicInfo.Measured, UInt8.toNat_ofNat']
  exact Nat.mod_eq_of_lt (by omega)

theorem HelloAckPacket.write_eq {p : HelloAckPacket} (hnum : p.numPath.toNat = p.nicInfos.length)
    (h : ∀ nicInfo ∈ p.nicInfos, nicInfo.Measured) :
    p.write = .ok (p.type :: (writeUint16 p.length ++ (writeUint32 p.sessionID ++
      p.numPath :: p.nicInfos.flatMap NicInfo.bytes))) := by
  have hloop : ((List.range p.nicInfos.length).mapM fun i => index p.nicInfos i >>= NicInfo.write) =
      .ok (p.nicInfos.map NicInfo.bytes) := mapM_index p.nicInfos fun x hx => NicInfo.write_eq (h x hx)
  rw [HelloAckPacket.write, hnum]
  simp only [hloop]
  rfl

/-! ### What is read back -/

theorem readAddr_append (addr r : Bytes) : readAddr addr.length (addr ++ r) = some (addr, r) := by
  induction addr with
  | nil => rfl
  | cons b addr ih =>
    rw [List.length_cons, List.cons_append, readAddr, readByte_cons]
    simp only [Option.bind_eq_bind, Option.bind_some, ih]

theorem readNicInfos_append {nicInfos : List NicInfo} (h : ∀ nicInfo ∈ nicInfos, nicInfo.Measured) (r : Bytes) :
    readNicInfos nicInfos.length (nicInfos.flatMap NicInfo.bytes ++ r) = some (nicInfos, r) := by
  induction nicInfos with
  | nil => rfl
  | cons x nicInfos ih =>
    have hx : x.addrLen.toNat = x.addr.length := h x (List.mem_cons_self ..)
    have hrest := ih fun y hy => h y (List.mem_cons_of_mem _ hy)
    rw [List.length_cons, List.flatMap_cons, readNicInfos]
    simp only [NicInfo.bytes, List.cons_append, readByte_cons, Option.bind_eq_bind, Option.bind_some, hx,
      List.append_assoc, readAddr_append, hrest]

theorem parseHelloAckPacket_append {p : HelloAckPacket} (hnum : p.numPath.toNat = p.nicInfos.length)
    (h : ∀ nicInfo ∈ p.nicInfos, nicInfo.Measured) (r : Bytes) :
    parseHelloAckPacket (p.type :: (writeUint16 p.length ++ (writeUint32 p.sessionID ++
      p.numPath :: p.nicInfos.flatMap NicInfo.bytes)) ++ r) = some p := by
  simp only [parseHelloAckPacket, List.cons_append, List.append_assoc, readByte_cons, readUint16_write,
    readUint32_write, Option.bind_eq_bind, Option.bind_some, hnum, readNicInfos_append h]

/-! ### The length of the packet -/

def measured (addr : Bytes) : ℕ := (addr.length + 2) % 2 ^ 8

theorem nicInfoLen_getNicInfo (addrs : List Bytes) : nicInfoLen (getNicInfo addrs) = (addrs.map measured).sum := by
  have hterm : ∀ addr : Bytes, (UInt8.ofNat addr.length + 2).toNat = measured addr := by
    intro addr
    rw [UInt8.toNat_add, UInt8.toNat_ofNat', measured, Nat.mod_add_mod]
    rfl
  have hfold : ∀ n, (getNicInfo addrs).foldl (fun n nicInfo => n + (nicInfo.addrLen + 2).toNat) n =
      n + (addrs.map measured).sum := by
    induction addrs with
    | nil => exact fun n => rfl
    | cons addr addrs ih =>
      intro n
      have hrest := ih (n + measured addr)
      rw [List.map_cons, List.sum_cons, ← Nat.add_assoc, ← hrest, ← hterm addr]
      rfl
  rw [nicInfoLen, hfold, Nat.zero_add]

theorem sum_measured_le (addrs : List Bytes) : (addrs.map measured).sum ≤ 255 * addrs.length := by
  induction addrs with
  | nil => exact le_rfl
  | cons addr addrs ih =>
    have hlt : measured addr < 2 ^ 8 := Nat.mod_lt _ (by decide)
    rw [List.map_cons, List.sum_cons, List.length_cons]
    omega

theorem length_bytes (addrs : List Bytes) :
    ((getNicInfo addrs).flatMap NicInfo.bytes).length = (addrs.map fun addr => addr.length + 2).sum := by
  induction addrs with
  | nil => rfl
  | cons addr addrs ih =>
    rw [List.map_cons, List.sum_cons, ← ih, getNicInfo, List.map_cons, List.flatMap_cons, List.length_append]
    rfl

theorem sum_measured_iff {addrs : List Bytes} (h : ∀ addr ∈ addrs, addr.length ≤ 255) :
    (addrs.map measured).sum ≤ (addrs.map fun addr => addr.length + 2).sum ∧
      ((addrs.map measured).sum = (addrs.map fun addr => addr.length + 2).sum ↔ ∀ addr ∈ addrs, addr.length < 254) := by
  induction addrs with
  | nil => exact ⟨le_rfl, iff_of_true rfl (fun _ h => (nomatch h))⟩
  | cons addr addrs ih =>
    obtain ⟨hle, hiff⟩ := ih fun x hx => h x (List.mem_cons_of_mem _ hx)
    have haddr := h addr (List.mem_cons_self ..)
    have hone : measured addr ≤ addr.length + 2 := Nat.mod_le _ _
    have hexact : measured addr = addr.length + 2 ↔ addr.length < 254 := by
      rw [measured]
      omega
    simp only [List.map_cons, List.sum_cons, List.forall_mem_cons]
    refine ⟨Nat.add_le_add hone hle, ?_⟩
    rw [← hiff, ← hexact]
    omega

/-- For at most 255 addresses of at most 255 bytes the packet is written with as many bytes as it says and read back
exactly if no address has 254 or 255 bytes. -/
theorem hello_ack_round_trip_iff (conf : Conf) (sessionID : UInt32) (addrs : List Bytes) (hcount : addrs.length ≤ 255)
    (hsize : ∀ addr ∈ addrs, addr.length ≤ 255) :
    (∃ bs, (createHelloAckPacket conf sessionID (getNicInfo addrs)).write = .ok bs ∧
        bs.length = (createHelloAckPacket conf sessionID (getNicInfo addrs)).length.toNat ∧
        parseHelloAckPacket bs = some (createHelloAckPacket conf sessionID (getNicInfo addrs))) ↔
      ∀ addr ∈ addrs, addr.length < 254 := by
  have hnum : (createHelloAckPacket conf sessionID (getNicInfo addrs)).numPath.toNat = (getNicInfo addrs).length := by
    change (UInt8.ofNat (getNicInfo addrs).length).toNat = _
    rw [UInt8.toNat_ofNat', length_getNicInfo]
    exact Nat.mod_eq_of_lt (by omega)
  have hmeasured := measured_of_mem hsize
  have hlength : (createHelloAckPacket conf sessionID (getNicInfo addrs)).length.toNat =
      8 + (addrs.map measured).sum := by
    have hle := sum_measured_le addrs
    change (UInt16.ofNat (8 + nicInfoLen (getNicInfo addrs))).toNat = _
    rw [nicInfoLen_getNicInfo]
    exact toNat_ofNat (by omega)
  have hwrite := HelloAckPacket.write_eq hnum hmeasured
  have hparse := parseHelloAckPacket_append hnum hmeasured []
  rw [List.append_nil] at hparse
  have hbytes : ((createHelloAckPacket conf sessionID (getNicInfo addrs)).nicInfos.flatMap NicInfo.bytes).length =
      (addrs.map fun addr => addr.length + 2).sum := length_bytes addrs
  rw [← (sum_measured_iff hsize).2]
  constructor
  · rintro ⟨bs, hbs, hlen, -⟩
    rw [hwrite] at hbs
    cases hbs
    simp only [List.length_cons, List.length_append, length_writeUint16, length_writeUint32] at hlen
    omega
  · intro h
    refine ⟨_, hwrite, ?_, hparse⟩
    simp only [List.length_cons, List.length_append, length_writeUint16, length_writeUint32]
    omega

theorem hello_ack_round_trip_one : ∃ bs,
    (createHelloAckPacket mp2bsToml 7 (getNicInfo [[49, 48, 46, 49, 58, 53, 48, 48, 49]])).write = .ok bs ∧
      bs.length = 19 ∧ parseHelloAckPacket bs =
        some (createHelloAckPacket mp2bsToml 7 (getNicInfo [[49, 48, 46, 49, 58, 53, 48, 48, 49]])) :=
  (hello_ack_round_trip_iff mp2bsToml 7 [[49, 48, 46, 49, 58, 53, 48, 48, 49]] (by decide) (by decide)).2 (by decide)

/-- With an address of 254 bytes the packet has 264 bytes, and its length field says 8. -/
theorem hello_ack_mismeasured :
    (createHelloAckPacket mp2bsToml 7 (getNicInfo [List.replicate 254 49])).length = 8 ∧
      ((createHelloAckPacket mp2bsToml 7 (getNicInfo [List.replicate 254 49])).write.map List.length) = .ok 264 := by
  decide +kernel

end Mp2bs.Session.HelloAck
