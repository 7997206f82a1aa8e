import Mp2bs.Lib.Loop
import Mp2bs.Mp2session.Codec

/-!
# The place of a node in the tree

`Mp2SetNodeInfo` looks for the node's own address in the list of a Node Info Packet and takes the
addresses of its children and of all other nodes from it (`mp2session_manager.go:503-549`). The port
of an own address is read with `strconv.ParseInt(ip[1], 10, 16)`, and the range of the children is
computed with bytes.
-/

namespace Mp2bs.Mp2session.Placement
open Mp2bs.Lib

abbrev Text := List Char

def decimal (n : ℕ) : Text := Nat.toDigits 10 n

/-- `util.Int2ip` (`util/util.go:108-116`). -/
def int2ip (ip : UInt32) : Text :=
  decimal (ip.toNat / 2 ^ 24) ++ '.' :: decimal (ip.toNat / 2 ^ 16 % 2 ^ 8) ++ '.' ::
    decimal (ip.toNat / 2 ^ 8 % 2 ^ 8) ++ '.' :: decimal (ip.toNat % 2 ^ 8)

/-- The number of a text of digits, 0 for any other text. -/
def digitsValue (text : Text) : ℕ :=
  if text ≠ [] ∧ text.all Char.isDigit then Nat.ofDigitChars 10 text 0 else 0

/-- `strconv.ParseInt(text, 10, 16)` without its error: a number that is too large becomes the
largest one. -/
def parseInt16 : Text → ℤ
  | '-' :: digits => -(min (digitsValue digits) (2 ^ 15) : ℕ)
  | '+' :: digits => (min (digitsValue digits) (2 ^ 15 - 1) : ℕ)
  | digits => (min (digitsValue digits) (2 ^ 15 - 1) : ℕ)

/-- The address of an entry (531, 544). -/
def address (nodeInfo : NodeInfo) : Text := int2ip nodeInfo.nodeIP ++ ':' :: decimal nodeInfo.port.toNat

/-- The loop over `NIC_ADDRS` for one entry (509-521). -/
def matchesNic (nodeInfo : NodeInfo) : List Text → Except Stop Bool
  | [] => .ok false
  | nicInfo :: rest => match nicInfo.splitOn ':' with
    | host :: port :: _ =>
      if int2ip nodeInfo.nodeIP = host ∧ (nodeInfo.port.toNat : ℤ) = parseInt16 port % 2 ^ 16 then
        .ok true
      else matchesNic nodeInfo rest
    | _ => .error .panic

/-- The loop over the entries (508-522). -/
def findMyIdx (nics : List Text) : List NodeInfo → ℕ → ℕ → Except Stop ℕ
  | [], _, myIdx => .ok myIdx
  | nodeInfo :: rest, idx, myIdx => match matchesNic nodeInfo nics with
    | .error e => .error e
    | .ok found => findMyIdx nics rest (idx + 1) (if found then idx else myIdx)

def entry (nodeInfos : List NodeInfo) (i : ℕ) : Except Stop NodeInfo :=
  match nodeInfos[i]? with
  | some nodeInfo => .ok nodeInfo
  | none => .error .panic

def endChildIdx (nodeInfo : NodeInfo) : UInt8 := nodeInfo.offsetOfChild + nodeInfo.numOfChilds

/-- The values of `i` from `firstChildIdx` to `endChildIdx` (530). -/
def childIdxs (nodeInfo : NodeInfo) : List ℕ :=
  List.range' nodeInfo.offsetOfChild.toNat
    ((endChildIdx nodeInfo).toNat - nodeInfo.offsetOfChild.toNat)

/-- The entries of the children (525-536). -/
def childEntries (nodeInfos : List NodeInfo) (me : NodeInfo) : Except Stop (List NodeInfo) :=
  if me.numOfChilds ≠ 0 then (childIdxs me).mapM (entry nodeInfos) else .ok []

/-- `Mp2SetNodeInfo`: the new `childAddr` and `allAddr`. -/
def mp2SetNodeInfo (nics childAddr allAddr : List Text) (nodeInfos : List NodeInfo) :
    Except Stop (List Text × List Text) := do
  let myIdx ← findMyIdx nics nodeInfos 0 0
  let me ← entry nodeInfos myIdx
  let childs ← childEntries nodeInfos me
  return (childAddr ++ childs.map address,
    allAddr ++ (nodeInfos.zipIdx.filter (·.2 ≠ myIdx)).map (address ·.1))

/-! ### What is expected -/

structure Nic where
  ip : Text
  port : ℕ
  no_colon : ':' ∉ ip
  port_pos : 1 ≤ port
  port_le : port ≤ 65535

def Nic.text (nic : Nic) : Text := nic.ip ++ ':' :: decimal nic.port

def Owns (nics : List Nic) (nodeInfo : NodeInfo) : Prop :=
  ∃ nic ∈ nics, address nodeInfo = nic.text

/-- The children and the other nodes for entry `i`, whose range of children may lie outside the
list. -/
def Placed (nics : List Nic) (childAddr allAddr : List Text) (nodeInfos : List NodeInfo) (i : ℕ)
    (me : NodeInfo) : Prop :=
  ∃ childAddr' allAddr',
    mp2SetNodeInfo (nics.map Nic.text) childAddr allAddr nodeInfos = .ok (childAddr', allAddr') ∧
    (me.offsetOfChild.toNat + me.numOfChilds.toNat ≤ nodeInfos.length →
      childAddr' = childAddr ++
        ((nodeInfos.drop me.offsetOfChild.toNat).take me.numOfChilds.toNat).map address) ∧
    allAddr' = allAddr ++ (nodeInfos.eraseIdx i).map address

/-- The entry has an own address whose port is cut to the largest `int16`. -/
def Answers (nics : List Nic) (nodeInfo : NodeInfo) : Prop :=
  ∃ nic ∈ nics, int2ip nodeInfo.nodeIP = nic.ip ∧ nodeInfo.port.toNat = min nic.port (2 ^ 15 - 1)

/-- With the ports cut, entry `i` is the last that has an own address, or it is the first entry and
none has. -/
def Found (nics : List Nic) (nodeInfos : List NodeInfo) (i : ℕ) (me : NodeInfo) : Prop :=
  (Answers nics me ∧ ∀ j nodeInfo, i < j → nodeInfos[j]? = some nodeInfo → ¬ Answers nics nodeInfo) ∨
    i = 0 ∧ ∀ nodeInfo ∈ nodeInfos, ¬ Answers nics nodeInfo

/-- The children end below 256 just if they are all in the list. -/
def ByteRange (nodeInfos : List NodeInfo) (me : NodeInfo) : Prop :=
  me.numOfChilds = 0 ∨ (me.offsetOfChild.toNat + me.numOfChilds.toNat ≤ nodeInfos.length ↔
    me.offsetOfChild.toNat + me.numOfChilds.toNat < 2 ^ 8)

/-! ### The own entry -/

variable {n i first k : ℕ} {nodeInfos : List NodeInfo} {me : NodeInfo} {nics : List Nic}

theorem isDigit_of_mem_decimal {c : Char} (h : c ∈ decimal n) : c.isDigit = true :=
  Nat.isDigit_of_mem_toDigits (by decide) (by decide) h

theorem digitsValue_decimal (n : ℕ) : digitsValue (decimal n) = n := by
  have hall : (decimal n).all Char.isDigit = true :=
    List.all_eq_true.mpr fun c hc => isDigit_of_mem_decimal hc
  rw [digitsValue, if_pos ⟨Nat.toDigits_ne_nil, hall⟩]
  exact Nat.ofDigitChars_toDigits (by decide) (by decide)

theorem parseInt16_decimal (n : ℕ) : parseInt16 (decimal n) = (min n (2 ^ 15 - 1) : ℕ) := by
  have hsign : ∀ c ∈ decimal n, c ≠ '-' ∧ c ≠ '+' := by
    intro c hc
    have hdigit := isDigit_of_mem_decimal hc
    constructor <;> rintro rfl <;> exact absurd hdigit (by decide)
  have hval := digitsValue_decimal n
  unfold parseInt16
  split
  · rename_i digits heq
    exact absurd rfl (hsign '-' (by rw [heq]; exact List.mem_cons_self ..)).1
  · rename_i digits heq
    exact absurd rfl (hsign '+' (by rw [heq]; exact List.mem_cons_self ..)).2
  · rw [hval]

theorem splitOn_text (nic : Nic) : nic.text.splitOn ':' = [nic.ip, decimal nic.port] := by
  have hinter : nic.text = [':'].intercalate [nic.ip, decimal nic.port] := by
    simp [Nic.text, List.intercalate, List.intersperse]
  have hdecimal : ':' ∉ decimal nic.port := fun h =>
    absurd (isDigit_of_mem_decimal h) (by decide)
  rw [hinter]
  refine List.splitOn_intercalate ':' ?_ (List.cons_ne_nil _ _)
  intro l hl
  rcases List.mem_cons.mp hl with rfl | hl
  · exact nic.no_colon
  · rw [List.mem_singleton.mp hl]
    exact hdecimal

theorem matchesNic_spec (nics : List Nic) (nodeInfo : NodeInfo) :
    ∃ found, matchesNic nodeInfo (nics.map Nic.text) = .ok found ∧
      (found = true ↔ Answers nics nodeInfo) := by
  induction nics with
  | nil => exact ⟨false, rfl, by simp [Answers]⟩
  | cons nic rest ih =>
    have hport : (nodeInfo.port.toNat : ℤ) = parseInt16 (decimal nic.port) % 2 ^ 16 ↔
        nodeInfo.port.toNat = min nic.port (2 ^ 15 - 1) := by
      rw [parseInt16_decimal]
      omega
    rw [List.map_cons, matchesNic, splitOn_text]
    dsimp only
    by_cases hnic : int2ip nodeInfo.nodeIP = nic.ip ∧
        nodeInfo.port.toNat = min nic.port (2 ^ 15 - 1)
    · rw [if_pos ⟨hnic.1, hport.mpr hnic.2⟩]
      exact ⟨true, rfl, iff_of_true rfl ⟨nic, List.mem_cons_self .., hnic⟩⟩
    · rw [if_neg fun h => hnic ⟨h.1, hport.mp h.2⟩]
      obtain ⟨found, hfound, hiff⟩ := ih
      refine ⟨found, hfound, hiff.trans ⟨?_, ?_⟩⟩
      · rintro ⟨nic', hmem, h⟩
        exact ⟨nic', List.mem_cons_of_mem _ hmem, h⟩
      · rintro ⟨nic', hmem, h⟩
        rcases List.mem_cons.mp hmem with rfl | hmem
        · exact absurd h hnic
        · exact ⟨nic', hmem, h⟩

theorem findMyIdx_spec (nics : List Nic) (l : List NodeInfo) (idx myIdx : ℕ) :
    ∃ k, findMyIdx (nics.map Nic.text) l idx myIdx = .ok k ∧
      ((k = myIdx ∧ ∀ nodeInfo ∈ l, ¬ Answers nics nodeInfo) ∨
        ∃ j nodeInfo, l[j]? = some nodeInfo ∧ Answers nics nodeInfo ∧ k = idx + j ∧
          ∀ j' nodeInfo', j < j' → l[j']? = some nodeInfo' → ¬ Answers nics nodeInfo') := by
  induction l generalizing idx myIdx with
  | nil => exact ⟨myIdx, rfl, .inl ⟨rfl, fun _ h => absurd h List.not_mem_nil⟩⟩
  | cons nodeInfo rest ih =>
    obtain ⟨found, hfound, hiff⟩ := matchesNic_spec nics nodeInfo
    obtain ⟨k, hk, hcases⟩ := ih (idx + 1) (if found then idx else myIdx)
    refine ⟨k, by rw [findMyIdx, hfound]; exact hk, ?_⟩
    rcases hcases with ⟨hkeq, hnone⟩ | ⟨j, nodeInfo', hj, hans, hkeq, hlast⟩
    · cases found with
      | true =>
        refine .inr ⟨0, nodeInfo, rfl, hiff.mp rfl, hkeq, fun j' nodeInfo' hj' hget => ?_⟩
        cases j' with
        | zero => omega
        | succ j' => exact hnone nodeInfo' (List.mem_of_getElem? hget)
      | false =>
        refine .inl ⟨hkeq, fun nodeInfo' hmem => ?_⟩
        rcases List.mem_cons.mp hmem with rfl | hmem
        · exact fun h => Bool.noConfusion (hiff.mpr h)
        · exact hnone nodeInfo' hmem
    · refine .inr ⟨j + 1, nodeInfo', hj, hans, by omega, fun j' nodeInfo'' hj' hget => ?_⟩
      cases j' with
      | zero => omega
      | succ j' => exact hlast j' nodeInfo'' (by omega) hget

theorem findMyIdx_found (nics : List Nic) (hi : nodeInfos[i]? = some me) :
    ∃ k, findMyIdx (nics.map Nic.text) nodeInfos 0 0 = .ok k ∧
      (k = i ↔ Found nics nodeInfos i me) := by
  obtain ⟨k, hk, hcases⟩ := findMyIdx_spec nics nodeInfos 0 0
  refine ⟨k, hk, ?_⟩
  rcases hcases with ⟨rfl, hnone⟩ | ⟨j, nodeInfo, hj, hans, hkeq, hlast⟩
  · constructor
    · rintro rfl
      exact .inr ⟨rfl, hnone⟩
    · rintro (⟨hme, _⟩ | ⟨rfl, _⟩)
      · exact absurd hme (hnone me (List.mem_of_getElem? hi))
      · rfl
  · rw [Nat.zero_add] at hkeq
    subst hkeq
    constructor
    · rintro rfl
      have hsame : nodeInfo = me := Option.some.inj (hj.symm.trans hi)
      rw [hsame] at hans
      exact .inl ⟨hans, hlast⟩
    · rintro (⟨hme, hafter⟩ | ⟨_, hnone⟩)
      · rcases Nat.lt_trichotomy k i with hlt | heq | hlt
        · exact absurd hme (hlast i me hlt hi)
        · exact heq
        · exact absurd hans (hafter k nodeInfo hlt hj)
      · exact absurd hans (hnone nodeInfo (List.mem_of_getElem? hj))

/-! ### The addresses -/

theorem filter_zipIdx_ne (l : List NodeInfo) (k m : ℕ) :
    ((l.zipIdx k).filter (·.2 ≠ k + m)).map (address ·.1) = (l.eraseIdx m).map address := by
  induction l generalizing k m with
  | nil => rfl
  | cons nodeInfo rest ih =>
    cases m with
    | zero =>
      have hrest : ((rest.zipIdx (k + 1)).filter (·.2 ≠ k)) = rest.zipIdx (k + 1) := by
        apply List.filter_eq_self.mpr
        intro x hx
        have hle := (List.mem_zipIdx hx).1
        exact decide_eq_true (by omega)
      have hfst : (rest.zipIdx (k + 1)).map (address ·.1) = rest.map address := by
        conv_rhs => rw [← List.zipIdx_map_fst (k + 1) rest, List.map_map]
        rfl
      rw [Nat.add_zero, List.zipIdx_cons, List.filter_cons_of_neg (by simp), hrest,
        List.eraseIdx_cons_zero, hfst]
    | succ m =>
      have hadd : k + (m + 1) = k + 1 + m := by omega
      rw [List.zipIdx_cons, List.filter_cons_of_pos (by simp), List.map_cons,
        List.eraseIdx_cons_succ, List.map_cons, hadd, ih (k + 1) m]

theorem entry_of_lt (h : i < nodeInfos.length) : entry nodeInfos i = .ok nodeInfos[i] := by
  rw [entry, List.getElem?_eq_getElem h]

theorem entry_of_le (h : nodeInfos.length ≤ i) : entry nodeInfos i = .error .panic := by
  rw [entry, List.getElem?_eq_none h]

theorem mapM_entry (h : first + n ≤ nodeInfos.length) :
    (List.range' first n).mapM (entry nodeInfos) = .ok ((nodeInfos.drop first).take n) := by
  induction n generalizing first with
  | zero => rfl
  | succ n ih =>
    have hlt : first < nodeInfos.length := by omega
    rw [List.range'_succ, List.mapM_cons, entry_of_lt hlt, ih (by omega),
      List.drop_eq_getElem_cons hlt, List.take_succ_cons]
    rfl

theorem mapM_entry_panic (hn : 0 < n) (h : nodeInfos.length < first + n) :
    (List.range' first n).mapM (entry nodeInfos) = .error .panic := by
  induction n generalizing first with
  | zero => omega
  | succ n ih =>
    rw [List.range'_succ, List.mapM_cons]
    rcases Nat.lt_or_ge first nodeInfos.length with hlt | hge
    · rw [entry_of_lt hlt, ih (by omega) (by omega)]
      rfl
    · rw [entry_of_le hge]
      rfl

theorem mp2SetNodeInfo_eq {nics : List Text} (hk : findMyIdx nics nodeInfos 0 0 = .ok k)
    (hme : nodeInfos[k]? = some me) (childAddr allAddr : List Text) :
    mp2SetNodeInfo nics childAddr allAddr nodeInfos =
      (childEntries nodeInfos me).map fun childs => (childAddr ++ childs.map address,
        allAddr ++ (nodeInfos.eraseIdx k).map address) := by
  have herase : (nodeInfos.zipIdx.filter (·.2 ≠ k)).map (address ·.1) =
      (nodeInfos.eraseIdx k).map address := by
    simpa only [Nat.zero_add] using filter_zipIdx_ne nodeInfos 0 k
  have hentry : entry nodeInfos k = .ok me := by rw [entry, hme]
  unfold mp2SetNodeInfo
  rw [hk]
  show (entry nodeInfos k >>= _) = _
  rw [hentry]
  show (childEntries nodeInfos me >>= _) = _
  rw [herase]
  rfl

theorem eraseIdx_address_ne (hi : nodeInfos[i]? = some me) (howns : Owns nics me)
    (huniq : ∀ j nodeInfo, nodeInfos[j]? = some nodeInfo → Owns nics nodeInfo → j = i) (hne : k ≠ i) :
    (nodeInfos.eraseIdx k).map address ≠ (nodeInfos.eraseIdx i).map address := by
  intro heq
  have hmem : address me ∈ (nodeInfos.eraseIdx k).map address :=
    List.mem_map_of_mem (List.mem_eraseIdx_iff_getElem?.mpr ⟨i, hne.symm, hi⟩)
  rw [heq] at hmem
  obtain ⟨nodeInfo, hnode, haddr⟩ := List.mem_map.mp hmem
  obtain ⟨j, hj, hget⟩ := List.mem_eraseIdx_iff_getElem?.mp hnode
  obtain ⟨nic, hnic, htext⟩ := howns
  exact hj (huniq j nodeInfo hget ⟨nic, hnic, haddr.trans htext⟩)

theorem childIdxs_eq (me : NodeInfo) :
    childIdxs me = List.range' me.offsetOfChild.toNat
      (if me.offsetOfChild.toNat + me.numOfChilds.toNat < 2 ^ 8 then me.numOfChilds.toNat else 0) := by
  have hoff := me.offsetOfChild.toNat_lt
  have hlt := me.numOfChilds.toNat_lt
  have hend : (endChildIdx me).toNat =
      (me.offsetOfChild.toNat + me.numOfChilds.toNat) % 2 ^ 8 := UInt8.toNat_add _ _
  unfold childIdxs
  rw [hend]
  congr 1
  split <;> omega

theorem placed_of_found {childAddr allAddr : List Text} (hi : nodeInfos[i]? = some me)
    (hk : findMyIdx (nics.map Nic.text) nodeInfos 0 0 = .ok i) :
    Placed nics childAddr allAddr nodeInfos i me ↔ ByteRange nodeInfos me := by
  have hrun := mp2SetNodeInfo_eq hk hi childAddr allAddr
  unfold Placed ByteRange
  rw [hrun, childEntries]
  by_cases hnum : me.numOfChilds = 0
  · rw [if_neg (by simp [hnum])]
    refine iff_of_true ⟨_, _, rfl, fun _ => ?_, rfl⟩ (.inl hnum)
    simp [hnum]
  · have hpos : 0 < me.numOfChilds.toNat := by
      rcases Nat.eq_zero_or_pos me.numOfChilds.toNat with h | h
      · exact absurd (UInt8.toNat_inj.mp h) hnum
      · exact h
    rw [if_pos hnum, childIdxs_eq me]
    by_cases hbyte : me.offsetOfChild.toNat + me.numOfChilds.toNat < 2 ^ 8
    · rw [if_pos hbyte]
      by_cases hin : me.offsetOfChild.toNat + me.numOfChilds.toNat ≤ nodeInfos.length
      · rw [mapM_entry hin]
        exact iff_of_true ⟨_, _, rfl, fun _ => rfl, rfl⟩ (.inr (iff_of_true hin hbyte))
      · rw [mapM_entry_panic hpos (by omega)]
        refine iff_of_false ?_ ?_
        · rintro ⟨_, _, hok, _⟩
          cases hok
        · rintro (h | h)
          · exact hnum h
          · exact hin (h.mpr hbyte)
    · rw [if_neg hbyte]
      by_cases hin : me.offsetOfChild.toNat + me.numOfChilds.toNat ≤ nodeInfos.length
      · refine iff_of_false ?_ ?_
        · rintro ⟨childAddr', _, hok, hchild, _⟩
          have hnone : childAddr' = childAddr ++ [].map address :=
            (congrArg Prod.fst (Except.ok.inj hok)).symm
          have hlen := congrArg List.length (hnone.symm.trans (hchild hin))
          simp only [List.length_append, List.length_map, List.length_nil, List.length_take,
            List.length_drop] at hlen
          omega
        · rintro (h | h)
          · exact hnum h
          · exact hbyte (h.mp hin)
      · exact iff_of_true ⟨_, _, rfl, fun h => absurd h hin, rfl⟩ (.inr (iff_of_false hin hbyte))

/-- **Where a node finds its place.** The children and the other nodes are those of the own entry
just if that entry is found with the ports cut to 32767, and the range of its children ends below
256 just if it lies inside the list. -/
theorem placed_iff (nics : List Nic) (childAddr allAddr : List Text) (nodeInfos : List NodeInfo)
    (i : ℕ) (me : NodeInfo) (hi : nodeInfos[i]? = some me) (howns : Owns nics me)
    (huniq : ∀ j nodeInfo, nodeInfos[j]? = some nodeInfo → Owns nics nodeInfo → j = i) :
    Placed nics childAddr allAddr nodeInfos i me ↔
      Found nics nodeInfos i me ∧ ByteRange nodeInfos me := by
  obtain ⟨k, hk, hfound⟩ := findMyIdx_found nics hi
  by_cases hki : k = i
  · subst hki
    rw [placed_of_found hi hk]
    exact (and_iff_right (hfound.mp rfl)).symm
  · refine iff_of_false ?_ fun h => hki (hfound.mpr h.1)
    rintro ⟨childAddr', allAddr', hok, _, hall⟩
    cases hme : nodeInfos[k]? with
    | none =>
      have hentry : entry nodeInfos k = .error .panic := by rw [entry, hme]
      unfold mp2SetNodeInfo at hok
      rw [hk] at hok
      change (entry nodeInfos k >>= _) = _ at hok
      rw [hentry] at hok
      cases hok
    | some other =>
      rw [mp2SetNodeInfo_eq hk hme] at hok
      have hother : allAddr' = allAddr ++ (nodeInfos.eraseIdx k).map address := by
        cases hchilds : childEntries nodeInfos other with
        | error e =>
          rw [hchilds] at hok
          cases hok
        | ok childs =>
          rw [hchilds] at hok
          exact (congrArg Prod.snd (Except.ok.inj hok)).symm
      exact eraseIdx_address_ne hi howns huniq hki
        (List.append_cancel_left (hother.symm.trans hall))

def nicAt (port : ℕ) (h1 : 1 ≤ port) (h2 : port ≤ 65535) : Nic :=
  ⟨['1', '.', '2', '.', '3', '.', '4'], port, by decide, h1, h2⟩

def rootAndChild (port : UInt16) : List NodeInfo :=
  [⟨0x01020303, 80, 1, 1⟩, ⟨0x01020304, port, 0, 2⟩]

theorem placed_iff_second :
    Placed [nicAt 5000 (by decide) (by decide)] [] [] (rootAndChild 5000) 1
      ⟨0x01020304, 5000, 0, 2⟩ := by
  have huniq : ∀ j nodeInfo, (rootAndChild 5000)[j]? = some nodeInfo →
      Owns [nicAt 5000 (by decide) (by decide)] nodeInfo → j = 1 := by
    rintro (_ | _ | j) nodeInfo hget ⟨nic, hnic, haddr⟩
    · cases hget
      rw [List.mem_singleton.mp hnic] at haddr
      exact absurd haddr (by decide +kernel)
    · rfl
    · cases hget
  refine (placed_iff _ [] [] (rootAndChild 5000) 1 _ rfl
    ⟨nicAt 5000 (by decide) (by decide), List.mem_singleton_self _, by decide +kernel⟩ huniq).mpr
    ⟨.inl ⟨⟨nicAt 5000 (by decide) (by decide), List.mem_singleton_self _, by decide +kernel⟩, ?_⟩,
      .inl rfl⟩
  rintro (_ | _ | j) nodeInfo hlt hget
  · omega
  · omega
  · cases hget

/-- At port 40000 the second node takes the place of the root: its own address is its child and
among the other nodes. -/
theorem root_place_taken :
    Owns [nicAt 40000 (by decide) (by decide)] ⟨0x01020304, 40000, 0, 2⟩ ∧
      (∀ j nodeInfo, (rootAndChild 40000)[j]? = some nodeInfo →
        Owns [nicAt 40000 (by decide) (by decide)] nodeInfo → j = 1) ∧
      mp2SetNodeInfo ([nicAt 40000 (by decide) (by decide)].map Nic.text) [] [] (rootAndChild 40000) =
        .ok ([address ⟨0x01020304, 40000, 0, 2⟩], [address ⟨0x01020304, 40000, 0, 2⟩]) ∧
      ¬ Placed [nicAt 40000 (by decide) (by decide)] [] [] (rootAndChild 40000) 1
        ⟨0x01020304, 40000, 0, 2⟩ := by
  have hrun : mp2SetNodeInfo ([nicAt 40000 (by decide) (by decide)].map Nic.text) [] []
      (rootAndChild 40000) =
      .ok ([address ⟨0x01020304, 40000, 0, 2⟩], [address ⟨0x01020304, 40000, 0, 2⟩]) := by
    decide +kernel
  refine ⟨⟨nicAt 40000 (by decide) (by decide), List.mem_singleton_self _, by decide +kernel⟩,
    ?_, hrun, ?_⟩
  · rintro (_ | _ | j) nodeInfo hget ⟨nic, hnic, haddr⟩
    · cases hget
      rw [List.mem_singleton.mp hnic] at haddr
      exact absurd haddr (by decide +kernel)
    · rfl
    · cases hget
  · rintro ⟨childAddr', allAddr', hok, -, hall⟩
    rw [hrun] at hok
    have heq : [address ⟨0x01020304, 40000, 0, 2⟩] = allAddr' :=
      congrArg Prod.snd (Except.ok.inj hok)
    rw [← heq] at hall
    exact absurd hall (by decide +kernel)

end Mp2bs.Mp2session.Placement
