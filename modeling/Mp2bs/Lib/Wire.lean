import Mathlib

/-!
# Big-endian fields and packets written back to back

A reader takes a value from the front of a byte string, or fails. `drain` takes
packets off a byte string until a turn says that it has to wait.
-/

namespace Mp2bs.Lib.Wire

abbrev Reader (α : Type) := List UInt8 → Option (α × List UInt8)

def readByte : Reader UInt8
  | [] => none
  | b :: r => some (b, r)

def readUint16 : Reader UInt16
  | b1 :: b2 :: r => some (b2.toUInt16 + (b1.toUInt16 <<< 8), r)
  | _ => none

def readUint32 : Reader UInt32
  | b1 :: b2 :: b3 :: b4 :: r => some (b4.toUInt32 + (b3.toUInt32 <<< 8) + (b2.toUInt32 <<< 16) +
      (b1.toUInt32 <<< 24), r)
  | _ => none

def writeUint16 (i : UInt16) : List UInt8 := [(i >>> 8).toUInt8, i.toUInt8]

def writeUint32 (i : UInt32) : List UInt8 :=
  [(i >>> 24).toUInt8, (i >>> 16).toUInt8, (i >>> 8).toUInt8, i.toUInt8]

def readUint64 : Reader UInt64
  | b1 :: b2 :: b3 :: b4 :: b5 :: b6 :: b7 :: b8 :: r =>
    some (b8.toUInt64 + (b7.toUInt64 <<< 8) + (b6.toUInt64 <<< 16) + (b5.toUInt64 <<< 24) +
      (b4.toUInt64 <<< 32) + (b3.toUInt64 <<< 40) + (b2.toUInt64 <<< 48) + (b1.toUInt64 <<< 56), r)
  | _ => none

def writeUint64 (i : UInt64) : List UInt8 :=
  [(i >>> 56).toUInt8, (i >>> 48).toUInt8, (i >>> 40).toUInt8, (i >>> 32).toUInt8,
    (i >>> 24).toUInt8, (i >>> 16).toUInt8, (i >>> 8).toUInt8, i.toUInt8]

@[simp] theorem length_writeUint16 (i : UInt16) : (writeUint16 i).length = 2 := rfl

@[simp] theorem length_writeUint32 (i : UInt32) : (writeUint32 i).length = 4 := rfl

@[simp] theorem length_writeUint64 (i : UInt64) : (writeUint64 i).length = 8 := rfl

@[simp] theorem readByte_cons (b : UInt8) (r : List UInt8) : readByte (b :: r) = some (b, r) := rfl

@[simp] theorem readUint16_write (i : UInt16) (r : List UInt8) :
    readUint16 (writeUint16 i ++ r) = some (i, r) := by
  have h : (i.toUInt8).toUInt16 + (((i >>> 8).toUInt8).toUInt16 <<< 8) = i := by
    apply UInt16.toNat_inj.mp
    have := i.toNat_lt
    simp [Nat.shiftRight_eq_div_pow, Nat.shiftLeft_eq]
    omega
  simp only [readUint16, writeUint16, List.cons_append, List.nil_append, h]

@[simp] theorem readUint32_write (i : UInt32) (r : List UInt8) :
    readUint32 (writeUint32 i ++ r) = some (i, r) := by
  have h : (i.toUInt8).toUInt32 + (((i >>> 8).toUInt8).toUInt32 <<< 8) +
      (((i >>> 16).toUInt8).toUInt32 <<< 16) + (((i >>> 24).toUInt8).toUInt32 <<< 24) = i := by
    apply UInt32.toNat_inj.mp
    have := i.toNat_lt
    simp [Nat.shiftRight_eq_div_pow, Nat.shiftLeft_eq]
    omega
  simp only [readUint32, writeUint32, List.cons_append, List.nil_append, h]

@[simp] theorem readUint64_write (i : UInt64) (r : List UInt8) :
    readUint64 (writeUint64 i ++ r) = some (i, r) := by
  have h : (i.toUInt8).toUInt64 + (((i >>> 8).toUInt8).toUInt64 <<< 8) +
      (((i >>> 16).toUInt8).toUInt64 <<< 16) + (((i >>> 24).toUInt8).toUInt64 <<< 24) +
      (((i >>> 32).toUInt8).toUInt64 <<< 32) + (((i >>> 40).toUInt8).toUInt64 <<< 40) +
      (((i >>> 48).toUInt8).toUInt64 <<< 48) + (((i >>> 56).toUInt8).toUInt64 <<< 56) = i := by
    apply UInt64.toNat_inj.mp
    have := i.toNat_lt
    simp [Nat.shiftRight_eq_div_pow, Nat.shiftLeft_eq]
    omega
  simp only [readUint64, writeUint64, List.cons_append, List.nil_append, h]

/-- `binary.BigEndian.Uint32(buf[s:s+4])`, or nothing where the slice does not exist. -/
def uint32At (buf : List UInt8) (s : ℕ) : Option UInt32 := (readUint32 (buf.drop s)).map (·.1)

theorem uint32At_of_drop {buf rest : List UInt8} {s : ℕ} {v : UInt32}
    (h : buf.drop s = writeUint32 v ++ rest) : uint32At buf s = some v := by
  rw [uint32At, h, readUint32_write]
  rfl

theorem drop_add_of_drop {buf bs rest : List UInt8} {s n : ℕ} (h : buf.drop s = bs ++ rest)
    (hn : bs.length = n) : buf.drop (s + n) = rest := by
  rw [← List.drop_drop, h, ← hn, List.drop_left]

def writeWords (ws : List UInt32) : List UInt8 := ws.flatMap writeUint32

def readWords : ℕ → List UInt8 → Option (List UInt32)
  | 0, _ => some []
  | k + 1, bs => match readUint32 bs with
    | none => none
    | some (w, rest) => (readWords k rest).map (w :: ·)

theorem writeWords_append (ws vs : List UInt32) :
    writeWords (ws ++ vs) = writeWords ws ++ writeWords vs := List.flatMap_append

theorem length_writeWords (ws : List UInt32) : (writeWords ws).length = 4 * ws.length := by
  induction ws with
  | nil => rfl
  | cons w ws ih =>
    have hcons : writeWords (w :: ws) = writeUint32 w ++ writeWords ws := rfl
    rw [hcons, List.length_append, ih, length_writeUint32, List.length_cons]
    omega

theorem readWords_write (ws : List UInt32) (rest : List UInt8) :
    readWords ws.length (writeWords ws ++ rest) = some ws := by
  induction ws with
  | nil => rfl
  | cons w ws ih =>
    have hcons : writeWords (w :: ws) ++ rest = writeUint32 w ++ (writeWords ws ++ rest) := rfl
    rw [List.length_cons, readWords, hcons, readUint32_write]
    simp only [ih, Option.map_some]

/-- A read into a new slice of `n` bytes: what is missing stays zero. -/
def readData (n : ℕ) (r : List UInt8) : List UInt8 :=
  r.take n ++ List.replicate (n - r.length) 0

theorem readData_length (n : ℕ) (r : List UInt8) : (readData n r).length = n := by
  rw [readData, List.length_append, List.length_take, List.length_replicate]
  omega

theorem readData_append (data r : List UInt8) : readData data.length (data ++ r) = data := by
  have h : data.length - (data ++ r).length = 0 := by
    rw [List.length_append]
    omega
  rw [readData, h, List.take_left]
  simp

theorem toNat_ofNat {n : ℕ} (h : n < 2 ^ 16) : (UInt16.ofNat n).toNat = n := by
  rw [UInt16.toNat_ofNat']
  exact Nat.mod_eq_of_lt h

theorem sub_ofNat {headerLen n : ℕ} (h : headerLen + n < 2 ^ 16) :
    (UInt16.ofNat (headerLen + n) - UInt16.ofNat headerLen).toNat = n := by
  have hle : UInt16.ofNat headerLen ≤ UInt16.ofNat (headerLen + n) := by
    rw [UInt16.le_iff_toNat_le, toNat_ofNat h, toNat_ofNat (by omega)]
    omega
  rw [UInt16.toNat_sub_of_le _ _ hle, toNat_ofNat h, toNat_ofNat (by omega)]
  omega

/-! ### Packets back to back -/

/-- What one turn of a framing loop does with the bytes it has. -/
inductive Turn (α : Type)
  | packet (p : α) (rest : List UInt8)
  | waits (rest : List UInt8)
  | closes (rest : List UInt8)
  deriving DecidableEq

variable {α ε : Type}

/-- The packets that the turns take, and the bytes that are left when the loop waits or ends; the
first argument bounds the turns. -/
def drain (turn : List UInt8 → Except ε (Turn α)) : ℕ → List UInt8 → Except ε (List α × List UInt8)
  | 0, bs => .ok ([], bs)
  | fuel + 1, bs => match turn bs with
    | .error e => .error e
    | .ok (.waits rest) => .ok ([], rest)
    | .ok (.closes rest) => .ok ([], rest)
    | .ok (.packet p rest) => match drain turn fuel rest with
      | .error e => .error e
      | .ok (ps, rest) => .ok (p :: ps, rest)

variable {turn : List UInt8 → Except ε (Turn α)} {write : α → List UInt8}

theorem drain_packet {fuel : ℕ} {bs rest rest' : List UInt8} {p : α} {ps : List α}
    (h : turn bs = .ok (.packet p rest)) (hd : drain turn fuel rest = .ok (ps, rest')) :
    drain turn (fuel + 1) bs = .ok (p :: ps, rest') := by
  simp only [drain, h, hd]

theorem drain_flatMap {ps : List α} (hnil : turn [] = .ok (.waits []))
    (hturn : ∀ p ∈ ps, ∀ rest, turn (write p ++ rest) = .ok (.packet p rest)) {fuel : ℕ}
    (hfuel : ps.length < fuel) : drain turn fuel (ps.flatMap write) = .ok (ps, []) := by
  induction ps generalizing fuel with
  | nil =>
    cases fuel with
    | zero => omega
    | succ fuel => simp only [drain, List.flatMap_nil, hnil]
  | cons p ps ih =>
    cases fuel with
    | zero => omega
    | succ fuel =>
      have hp := hturn p (List.mem_cons_self ..) (ps.flatMap write)
      have hps : ∀ q ∈ ps, ∀ rest, turn (write q ++ rest) = .ok (.packet q rest) :=
        fun q hq => hturn q (List.mem_cons_of_mem _ hq)
      rw [List.length_cons] at hfuel
      rw [List.flatMap_cons]
      exact drain_packet hp (ih hps (by omega))

theorem turn_of_drain {ps : List α} {good : α → Prop} {fuel : ℕ} {rest : List UInt8}
    (hgood : ∀ p ∈ ps, good p → ∀ r, turn (write p ++ r) = .ok (.packet p r))
    (hbad : ∀ p ∈ ps, ¬good p → ∀ r q r', turn (write p ++ r) = .ok (.packet q r') → q ≠ p)
    (h : drain turn fuel (ps.flatMap write) = .ok (ps, rest)) : ∀ p ∈ ps, good p := by
  induction ps generalizing fuel rest with
  | nil => simp
  | cons p ps ih =>
    cases fuel with
    | zero => simp [drain] at h
    | succ fuel =>
      rw [List.flatMap_cons] at h
      have hp : good p := by
        by_contra hnot
        simp only [drain] at h
        split at h
        · cases h
        · cases h
        · cases h
        · rename_i q r' ht
          split at h
          · cases h
          · simp only [Except.ok.injEq, Prod.mk.injEq, List.cons.injEq] at h
            exact hbad p (List.mem_cons_self ..) hnot _ q r' ht h.1.1
      have ht := hgood p (List.mem_cons_self ..) hp (ps.flatMap write)
      simp only [drain, ht] at h
      split at h
      · cases h
      · rename_i qs r hd
        simp only [Except.ok.injEq, Prod.mk.injEq, List.cons.injEq, true_and] at h
        rw [h.1] at hd
        intro q hq
        rcases List.mem_cons.mp hq with rfl | hq
        · exact hp
        · exact ih (fun q hq => hgood q (List.mem_cons_of_mem _ hq))
            (fun q hq => hbad q (List.mem_cons_of_mem _ hq)) hd q hq

end Mp2bs.Lib.Wire
