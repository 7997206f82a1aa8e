import Mp2bs.Quic.SentPackets

/-!
# The loss timer

`detectLostPackets` arms the timer `lossDelay` after the first packet it leaves undecided was sent. With FEC a
packet is lost `lossDelay` after it was sent; without FEC it is lost `maxRTT` later
(`sent_packet_handler.go:569-573` and `610`), so the timer fires too early.
-/

namespace Mp2bs.Quic.Ackhandler
open Mp2bs.Lib
variable {F : Type}

def lostCount (ps : List (Packet F)) : ℕ := ps.countP Packet.declaredLost

theorem filter_examined_scanned (threshold largestAcked : ℤ) (ps : List (Packet F)) :
    (examined largestAcked (scanned threshold largestAcked ps)).filter Packet.outstanding =
      undecided threshold largestAcked ps := by
  induction ps with
  | nil => rfl
  | cons p ps ih =>
    unfold undecided examined at ih ⊢
    rw [scanned]
    by_cases habove : largestAcked < p.packetNumber
    · simp [habove, not_le.2 habove]
    · rw [if_neg habove]
      have hle : decide (p.packetNumber ≤ largestAcked) = true := decide_eq_true (not_lt.1 habove)
      have hlost : p.asLost.packetNumber = p.packetNumber := rfl
      have hout : p.asLost.outstanding = false := rfl
      cases ho : p.outstanding with
      | false => simp [hle, ho, ih]
      | true =>
        cases hl : packetLost threshold largestAcked p with
        | false => simp [hle, ho, hl, ih]
        | true => simp [hle, hlost, hout, ho, hl, ih]

theorem lostCount_scanned (threshold largestAcked : ℤ) (ps : List (Packet F)) :
    lostCount (scanned threshold largestAcked ps) =
      lostCount ps + ((examined largestAcked ps).filter Packet.outstanding).countP (packetLost threshold largestAcked) := by
  induction ps with
  | nil => rfl
  | cons p ps ih =>
    unfold lostCount examined at ih ⊢
    rw [scanned]
    by_cases habove : largestAcked < p.packetNumber
    · simp [habove, not_le.2 habove]
    · rw [if_neg habove]
      have hle : decide (p.packetNumber ≤ largestAcked) = true := decide_eq_true (not_lt.1 habove)
      have hlost : p.asLost.declaredLost = true := rfl
      cases ho : p.outstanding with
      | false =>
        simp only [Bool.false_and, Bool.false_eq_true, if_false, List.countP_cons, ih, List.takeWhile_cons, hle, if_true,
          List.filter_cons, ho]
        omega
      | true =>
        have hdeclared : p.declaredLost = false := by
          simp only [Packet.outstanding, Bool.and_eq_true, Bool.not_eq_true'] at ho
          exact ho.1
        cases hl : packetLost threshold largestAcked p with
        | false =>
          simp only [Bool.and_false, Bool.false_eq_true, if_false, List.countP_cons, ih, List.takeWhile_cons, hle, if_true,
            List.filter_cons, ho, hl]
          omega
        | true =>
          simp only [Bool.and_self, if_true, List.countP_cons, ih, List.takeWhile_cons, hle, List.filter_cons, ho, hl,
            hlost, hdeclared, Bool.false_eq_true, if_false]
          omega

theorem mem_undecided {threshold largestAcked : ℤ} {ps : List (Packet F)} {q : Packet F}
    (hq : q ∈ undecided threshold largestAcked ps) :
    threshold ≤ q.sendTime ∧ largestAcked < q.packetNumber + packetThreshold := by
  have hboth := (List.mem_filter.1 hq).2
  simp only [packetLost, Bool.and_eq_true, Bool.not_eq_true', Bool.or_eq_false_iff, decide_eq_false_iff_not, not_lt,
    not_le] at hboth
  exact hboth.2

theorem lostCount_lt_iff (threshold threshold' largestAcked : ℤ) (ps : List (Packet F)) :
    lostCount (scanned threshold largestAcked ps) <
        lostCount (scanned threshold' largestAcked (scanned threshold largestAcked ps)) ↔
      ∃ q ∈ undecided threshold largestAcked ps, q.sendTime < threshold' := by
  rw [lostCount_scanned threshold', filter_examined_scanned, Nat.lt_add_right_iff_pos, List.countP_pos_iff]
  refine exists_congr fun q => and_congr_right fun hq => ?_
  have hnumber := (mem_undecided hq).2
  simp only [packetLost, Bool.or_eq_true, decide_eq_true_eq]
  refine ⟨fun h => h.resolve_right (by omega), Or.inl⟩

/-! ### Progress -/

/-- After `detectLostPackets` the loss time of the space is unset or not in the past, the alarm is not armed for
this space in the past, and a run at any later time than the loss time declares a further packet lost. -/
def TimerAdvances (pto : SentPacketHandler F → Option ℤ) (fecEnable : Bool) (rtt : RttEstimate) (now : ℤ)
    (encLevel : EncryptionLevel) (h : SentPacketHandler F) : Prop :=
  ∃ h' sp', h.detectLostPackets fecEnable rtt now encLevel = .ok h' ∧ h'.getPacketNumberSpace encLevel = some sp' ∧
    ∀ t ∈ sp'.lossTime, now ≤ t ∧
      (h'.getLossTimeAndSpace = (some t, encLevel) → ∃ a ∈ (h'.setLossDetectionTimer pto).alarm, now ≤ a) ∧
      ∀ later, t < later →
        ∃ h'' sp'', h'.detectLostPackets fecEnable rtt later encLevel = .ok h'' ∧
          h''.getPacketNumberSpace encLevel = some sp'' ∧ lostCount sp'.history < lostCount sp''.history

/-- Both thresholds agree, or no packet is left undecided, or the first one that is left undecided is young enough
and another one was sent at least `maxRTT` before it. -/
def ThresholdsAgree (fecEnable : Bool) (rtt : RttEstimate) (now : ℤ) (sp : PacketNumberSpace F) : Prop :=
  fecEnable = true ∨ rtt.maxRTT = 0 ∨
    ∀ p ∈ (undecided (lostSendTime fecEnable rtt now) sp.largestAcked sp.history).head?,
      now ≤ p.sendTime + rtt.lossDelay ∧
        ∃ q ∈ undecided (lostSendTime fecEnable rtt now) sp.largestAcked sp.history,
          q.sendTime + rtt.maxRTT ≤ p.sendTime

variable {h : SentPacketHandler F} {t : ℤ} {encLevel : EncryptionLevel} {sp : PacketNumberSpace F}
  {fecEnable : Bool} {rtt : RttEstimate}

theorem setLossDetectionTimer_alarm (pto : SentPacketHandler F → Option ℤ)
    (ht : h.getLossTimeAndSpace = (some t, encLevel)) : (h.setLossDetectionTimer pto).alarm = some t := by
  unfold SentPacketHandler.setLossDetectionTimer
  rw [ht]

theorem timerAdvances_iff_undecided (pto : SentPacketHandler F → Option ℤ) (fecEnable : Bool) (rtt : RttEstimate)
    (now : ℤ) (hw : h.WellFormed) (hsp : h.getPacketNumberSpace encLevel = some sp) :
    TimerAdvances pto fecEnable rtt now encLevel h ↔
      ∀ p ∈ (undecided (lostSendTime fecEnable rtt now) sp.largestAcked sp.history).head?,
        now ≤ p.sendTime + rtt.lossDelay ∧
          ∀ later, p.sendTime + rtt.lossDelay < later →
            ∃ q ∈ undecided (lostSendTime fecEnable rtt now) sp.largestAcked sp.history,
              q.sendTime < lostSendTime fecEnable rtt later := by
  obtain ⟨h', hrun, hw', hsp', _⟩ := SentPacketHandler.detectLostPackets_ok hw hsp fecEnable rtt now
  constructor
  · rintro ⟨h₁, sp₁, hrun₁, hsp₁, htimer⟩ p hp
    rw [hrun] at hrun₁
    cases hrun₁
    rw [hsp'] at hsp₁
    cases hsp₁
    have htime : p.sendTime + (rtt.lossDelay : ℤ) ∈ firstLossTime rtt
        (undecided (lostSendTime fecEnable rtt now) sp.largestAcked sp.history) := Option.mem_map_of_mem _ hp
    obtain ⟨hnow, _, hagain⟩ := htimer _ htime
    refine ⟨hnow, ?_⟩
    intro later hlater
    obtain ⟨h₂, sp₂, hrun₂, hsp₂, hcount⟩ := hagain later hlater
    obtain ⟨h₃, hrun₃, _, hsp₃, _⟩ := SentPacketHandler.detectLostPackets_ok hw' hsp' fecEnable rtt later
    rw [hrun₃] at hrun₂
    cases hrun₂
    rw [hsp₃] at hsp₂
    cases hsp₂
    exact (lostCount_lt_iff _ _ _ _).1 hcount
  · intro hfirst
    refine ⟨h', _, hrun, hsp', ?_⟩
    intro t ht
    obtain ⟨p, hp, rfl⟩ := Option.mem_map.1 ht
    obtain ⟨hnow, hagain⟩ := hfirst p hp
    refine ⟨hnow, ?_, ?_⟩
    · intro halarm
      exact ⟨_, setLossDetectionTimer_alarm pto halarm, hnow⟩
    · intro later hlater
      obtain ⟨h₂, hrun₂, _, hsp₂, _⟩ := SentPacketHandler.detectLostPackets_ok hw' hsp' fecEnable rtt later
      exact ⟨h₂, _, hrun₂, hsp₂, (lostCount_lt_iff _ _ _ _).2 (hagain later hlater)⟩

theorem undecided_advances (hsame : fecEnable = true ∨ rtt.maxRTT = 0) (now largestAcked : ℤ)
    (ps : List (Packet F)) :
    ∀ p ∈ (undecided (lostSendTime fecEnable rtt now) largestAcked ps).head?,
      now ≤ p.sendTime + rtt.lossDelay ∧
        ∀ later, p.sendTime + rtt.lossDelay < later →
          ∃ q ∈ undecided (lostSendTime fecEnable rtt now) largestAcked ps,
            q.sendTime < lostSendTime fecEnable rtt later := by
  intro p hp
  have hthreshold : ∀ t, lostSendTime fecEnable rtt t = t - rtt.lossDelay := by
    intro t
    unfold lostSendTime
    rcases hsame with hfec | hrtt
    · rw [if_pos hfec]
    · rw [hrtt]
      simp
  have hmem : p ∈ undecided (lostSendTime fecEnable rtt now) largestAcked ps := List.mem_of_mem_head? hp
  have hage := (mem_undecided hmem).1
  rw [hthreshold] at hage
  refine ⟨by omega, ?_⟩
  intro later hlater
  refine ⟨p, hmem, ?_⟩
  rw [hthreshold]
  omega

/-- The loss timer makes progress exactly if the two thresholds agree on what is left undecided. -/
theorem loss_timer_advances_iff (pto : SentPacketHandler F → Option ℤ) (fecEnable : Bool) (rtt : RttEstimate)
    (now : ℤ) {encLevel : EncryptionLevel} {h : SentPacketHandler F} {sp : PacketNumberSpace F} (hw : h.WellFormed)
    (hsp : h.getPacketNumberSpace encLevel = some sp) :
    TimerAdvances pto fecEnable rtt now encLevel h ↔ ThresholdsAgree fecEnable rtt now sp := by
  rw [timerAdvances_iff_undecided pto fecEnable rtt now hw hsp]
  unfold ThresholdsAgree
  by_cases hsame : fecEnable = true ∨ rtt.maxRTT = 0
  · exact iff_of_true (undecided_advances hsame now sp.largestAcked sp.history) (or_assoc.1 (Or.inl hsame))
  · obtain ⟨hfec, hrtt⟩ := not_or.1 hsame
    have hthreshold : ∀ t, lostSendTime fecEnable rtt t = t - rtt.lossDelay - rtt.maxRTT := fun t => if_neg hfec
    rw [or_iff_right hfec, or_iff_right hrtt]
    refine forall₂_congr fun p hp => and_congr_right fun _ => ?_
    constructor
    · intro hlater
      obtain ⟨q, hq, hbefore⟩ := hlater (p.sendTime + rtt.lossDelay + 1) (by omega)
      rw [hthreshold (p.sendTime + rtt.lossDelay + 1)] at hbefore
      exact ⟨q, hq, by omega⟩
    · rintro ⟨q, hq, hbefore⟩ later hlater
      refine ⟨q, hq, ?_⟩
      rw [hthreshold later]
      omega

/-! ### Two packets, the second acknowledged after ten milliseconds -/

def rttOfEight : RttEstimate := ⟨9000000, 8000000, by decide⟩

def dataPacket (packetNumber : ℤ) : Packet Unit where
  packetNumber := packetNumber
  frames := [()]
  length := 1200
  encryptionLevel := .oneRTT
  sendTime := 0
  isPathMTUProbePacket := false
  includedInBytesInFlight := false
  declaredLost := false
  skippedPacket := false

def secondAcknowledged : List (Event Unit) :=
  [.sentPacket (dataPacket 0), .sentPacket (dataPacket 1), .receivedAck rttOfEight [⟨1, 1⟩] .oneRTT 10000000 1000000000]

def firstAwaited : SentPacketHandler Unit :=
  { SentPacketHandler.newSentPacketHandler false with
    appDataPackets := ⟨[{ dataPacket 0 with includedInBytesInFlight := true }], 1, none, 1, 1⟩
    bytesInFlight := 2400 }

theorem wellFormed_firstAwaited : firstAwaited.WellFormed := by
  have happ : firstAwaited.appDataPackets.WellFormed :=
    ⟨List.pairwise_singleton _ _, by decide, by decide⟩
  refine ⟨?_, by decide⟩
  intro l sp hsp
  cases l with
  | initial | handshake =>
    cases hsp
    exact PacketNumberSpace.WellFormed.new
  | zeroRTT | oneRTT =>
    cases hsp
    exact happ

theorem loss_timer_advances_fec : TimerAdvances (fun _ => none) true rttOfEight 5000000 .oneRTT firstAwaited :=
  (loss_timer_advances_iff (fun _ => none) true rttOfEight 5000000 wellFormed_firstAwaited rfl).2 (Or.inl rfl)

/-- Without FEC the acknowledgement at ten milliseconds arms the timer for nine; when it fires nothing is declared
lost and the alarm stays in the past. -/
theorem loss_timer_armed_in_past : ∃ h h',
    Machine.Run (step (fun _ => none) false) Machine.always (SentPacketHandler.newSentPacketHandler false)
      secondAcknowledged h ∧
    h.appDataPackets.lossTime = some 9000000 ∧ h.alarm = some 9000000 ∧
    step (fun _ => none) false h (.onLossDetectionTimeout rttOfEight 10000001) = .ok h' ∧
    lostCount h'.appDataPackets.history = lostCount h.appDataPackets.history ∧ h'.alarm = some 9000000 := by
  have hguarded : Machine.Guarded (step (fun _ => none) false) Machine.always
      (SentPacketHandler.newSentPacketHandler false) secondAcknowledged := Machine.Guarded.always _
  exact ⟨_, _, Machine.Run.of_exec _ hguarded rfl, rfl, rfl, rfl, rfl, rfl⟩

end Mp2bs.Quic.Ackhandler
