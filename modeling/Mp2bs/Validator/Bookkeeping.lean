import Mp2bs.Validator.Machine

/-!
# NodeCount

`build_CoordinateSystem` counts each signal in `NodeCount`, `build_LocalCoordinateSystem` takes the
nodes of its list off and never adds them again (`validatorNode.go:48, 57, 70, 76-79`).
`getReferencePoints` and the index of `TestData` depend on `NodeCount`.
-/

namespace Mp2bs.Validator
open Mp2bs.Lib.Machine

variable {A F : Type}

def State.determined (cfg : Config) (s : State A F) : Finset ℕ :=
  (Finset.range cfg.nodeTotal).filter fun i => (s.stored i).isSome

/-- A build or an update has been completed, and nothing has begun since. -/
def State.Completed (s : State A F) : Prop := s.main = .idle ∧ s.isCoordDone = true

/-- Local updates list distinct existing nodes. -/
def Existing (cfg : Config) (_ : State A F) : Label F → Prop
  | .update nodeList => nodeList.Nodup ∧ ∀ i ∈ nodeList, i < cfg.nodeTotal
  | _ => True

/-- The call is given the reference points it asks for, once so many nodes have their coordinate.
Node 0 is measured without any. -/
def State.Supplied (cfg : Config) (s : State A F) (c : Call A F) : Prop :=
  ¬(c.id = 0 ∧ c.isSck = false) → cfg.refNb c.isSck ≤ (s.determined cfg).card →
    (getReferencePoints s.nodeCount c.id (cfg.refNb c.isSck) c.isSck).length = cfg.refNb c.isSck ∧
    ∀ i ∈ getReferencePoints s.nodeCount c.id (cfg.refNb c.isSck) c.isSck, i < cfg.nodeTotal

/-- `TestData[NodeCount]` exists. -/
def State.Indexed (cfg : Config) (s : State A F) : Prop :=
  0 ≤ s.nodeCount ∧ s.nodeCount < cfg.nodeTotal

/-! ### Counting -/

def Main.remaining : Main → ℕ
  | .idle => 0
  | .reference _ => 1
  | .rest k => k
  | .updating k => k
  | .checking => 1

def State.Counted (cfg : Config) (s : State A F) : Prop :=
  match s.main with
  | .idle => s.isCoordDone = true →
      (s.determined cfg).card = cfg.nodeTotal ∧ s.nodeCount = cfg.nodeTotal - s.listed
  | .reference i => i < cfg.nbRef ∧ s.listed = 0 ∧ s.nodeCount = i ∧
      (s.determined cfg).card + s.calls.length = i + 1 ∧ (∀ j, i < j → s.stored j = none) ∧
      ∀ c ∈ s.calls, c.id = i
  | .rest k => s.listed = 0 ∧ s.nodeCount = (cfg.nodeTotal - k : ℤ) ∧ cfg.nbRef + k ≤ cfg.nodeTotal ∧
      (s.determined cfg).card + s.calls.length = cfg.nodeTotal
  | .updating k => s.nodeCount = cfg.nodeTotal - s.listed ∧ k ≤ s.listed ∧
      (s.determined cfg).card + s.calls.length = cfg.nodeTotal
  | .checking => s.nodeCount = cfg.nodeTotal - s.listed ∧
      (s.determined cfg).card = cfg.nodeTotal ∧ ∀ c ∈ s.calls, c.id = 0

structure Booked (cfg : Config) (s : State A F) : Prop where
  signals : s.signals + s.calls.length = s.main.remaining
  nodup : (s.calls.map Call.id).Nodup
  sck : ∀ c ∈ s.calls, c.isSck = true ↔ s.main = .checking
  undetermined : ∀ c ∈ s.calls, c.isSck = false → s.stored c.id = none
  bound : ∀ c ∈ s.calls, c.point ≠ .request → c.id < cfg.nodeTotal
  counted : s.Counted cfg

section Determined

variable {cfg : Config} {s s' : State A F}

theorem card_determined_le (cfg : Config) (s : State A F) :
    (s.determined cfg).card ≤ cfg.nodeTotal := by
  have hle := Finset.card_filter_le (Finset.range cfg.nodeTotal) fun i => (s.stored i).isSome = true
  rwa [Finset.card_range] at hle

theorem determined_all (h : (s.determined cfg).card = cfg.nodeTotal) {i : ℕ}
    (hi : i < cfg.nodeTotal) : (s.stored i).isSome = true := by
  have hfull : s.determined cfg = Finset.range cfg.nodeTotal :=
    Finset.eq_of_subset_of_card_le (Finset.filter_subset ..) (by rw [h, Finset.card_range])
  have hmem : i ∈ s.determined cfg := hfull ▸ Finset.mem_range.mpr hi
  exact (Finset.mem_filter.mp hmem).2

theorem determined_congr (h : s'.stored = s.stored) : s'.determined cfg = s.determined cfg := by
  simp only [State.determined, h]

theorem determined_empty (h : ∀ i, s.stored i = none) : (s.determined cfg).card = 0 := by
  rw [Finset.card_eq_zero, State.determined, Finset.filter_eq_empty_iff]
  intro i _
  rw [h i]
  exact Bool.false_ne_true

theorem card_determined_insert {i : ℕ} (hi : i < cfg.nodeTotal) (hnone : s.stored i = none)
    (r : A × List F) (h : s'.stored = Function.update s.stored i (some r)) :
    (s'.determined cfg).card = (s.determined cfg).card + 1 := by
  have hinsert : s'.determined cfg = insert i (s.determined cfg) := by
    ext k
    simp only [State.determined, h, Finset.mem_filter, Finset.mem_range, Finset.mem_insert]
    by_cases hk : k = i
    · subst hk
      simp only [Function.update_self, Option.isSome_some, hi, and_self, true_or]
    · simp only [Function.update_of_ne hk, hk, false_or]
  rw [hinsert, Finset.card_insert_of_notMem]
  simp [State.determined, hnone]

theorem card_determined_replace {i : ℕ} (hfull : (s.determined cfg).card = cfg.nodeTotal)
    (r : A × List F) (h : s'.stored = Function.update s.stored i (some r)) :
    (s'.determined cfg).card = cfg.nodeTotal := by
  have hsub : s.determined cfg ⊆ s'.determined cfg := by
    intro k hk
    simp only [State.determined, Finset.mem_filter, h] at hk ⊢
    refine ⟨hk.1, ?_⟩
    by_cases hki : k = i
    · simp only [hki, Function.update_self, Option.isSome_some]
    · rw [Function.update_of_ne hki]
      exact hk.2
  have hge := Finset.card_le_card hsub
  have hle := card_determined_le cfg s'
  omega

theorem card_determined_sdiff (hfull : (s.determined cfg).card = cfg.nodeTotal) {nodeList : List ℕ}
    (hnodup : nodeList.Nodup) (hlt : ∀ i ∈ nodeList, i < cfg.nodeTotal)
    (h : s'.stored = fun i => if i ∈ nodeList then none else s.stored i) :
    (s'.determined cfg).card + nodeList.length = cfg.nodeTotal := by
  have hdiff : s'.determined cfg = Finset.range cfg.nodeTotal \ nodeList.toFinset := by
    ext k
    simp only [State.determined, h, Finset.mem_filter, Finset.mem_range, Finset.mem_sdiff,
      List.mem_toFinset]
    refine and_congr_right fun hk => ?_
    by_cases hmem : k ∈ nodeList
    · simp [hmem]
    · simp only [hmem, if_false, not_false_eq_true, iff_true]
      exact determined_all hfull hk
  have hsub : nodeList.toFinset ⊆ Finset.range cfg.nodeTotal := by
    intro k hk
    exact Finset.mem_range.mpr (hlt k (List.mem_toFinset.mp hk))
  have hcard : nodeList.toFinset.card = nodeList.length := List.toFinset_card_of_nodup hnodup
  have hle := Finset.card_le_card hsub
  rw [hdiff, Finset.card_sdiff_of_subset hsub]
  rw [Finset.card_range] at hle ⊢
  omega

end Determined

/-! ### The steps of a call -/

section Step

variable {cfg : Config} {s s' : State A F} {g : ℕ} {c : Call A F}

theorem Booked.goOn (h : Booked cfg s) (hc : s.calls[g]? = some c) {point : Point A F}
    (hcalls : s'.calls = (s.goOn g c point).calls) (hid : point ≠ .request → c.id < cfg.nodeTotal)
    (hmain : s'.main = s.main) (hdone : s'.isCoordDone = s.isCoordDone)
    (hcount : s'.nodeCount = s.nodeCount) (hsignals : s'.signals = s.signals)
    (hstored : s'.stored = s.stored) (hlisted : s'.listed = s.listed) : Booked cfg s' := by
  have hp := calls_perm hc
  have hp' : s'.calls.Perm (Call.mk c.id c.isSck point :: s.calls.eraseIdx g) :=
    hcalls ▸ set_perm hc (Call.mk c.id c.isSck point)
  have hmem : c ∈ s.calls := List.mem_of_getElem? hc
  have hrest : ∀ d ∈ s.calls.eraseIdx g, d ∈ s.calls := fun d hd => List.mem_of_mem_eraseIdx hd
  have hcase : ∀ d ∈ s'.calls, d = Call.mk c.id c.isSck point ∨ d ∈ s.calls :=
    fun d hd => (List.mem_cons.mp (hp'.mem_iff.mp hd)).imp_right (hrest d)
  have hids : (s'.calls.map Call.id).Perm (s.calls.map Call.id) :=
    (hp'.map Call.id).trans (hp.map Call.id).symm
  have hlen : s'.calls.length = s.calls.length := hp'.length_eq.trans hp.length_eq.symm
  have hdet : s'.determined cfg = s.determined cfg := determined_congr hstored
  refine ⟨?_, hids.nodup_iff.mpr h.nodup, ?_, ?_, ?_, ?_⟩
  · rw [hsignals, hlen, hmain]
    exact h.signals
  · intro d hd
    rw [hmain]
    rcases hcase d hd with rfl | hd
    · exact h.sck c hmem
    · exact h.sck d hd
  · intro d hd hsck
    rw [hstored]
    rcases hcase d hd with rfl | hd
    · exact h.undetermined c hmem hsck
    · exact h.undetermined d hd hsck
  · intro d hd hpoint
    rcases hcase d hd with rfl | hd
    · exact hid hpoint
    · exact h.bound d hd hpoint
  · have hsame : ∀ i, (∀ d ∈ s.calls, d.id = i) → ∀ d ∈ s'.calls, d.id = i := by
      intro i hall d hd
      rcases hcase d hd with rfl | hd
      · exact hall c hmem
      · exact hall d hd
    have hcounted := h.counted
    simp only [State.Counted, hmain, hdone, hcount, hstored, hlisted, hlen, hdet] at hcounted ⊢
    split at hcounted
    · exact hcounted
    · obtain ⟨h1, h2, h3, h4, h5, h6⟩ := hcounted
      exact ⟨h1, h2, h3, h4, h5, hsame _ h6⟩
    · exact hcounted
    · exact hcounted
    · exact ⟨hcounted.1, hcounted.2.1, hsame 0 hcounted.2.2⟩

theorem Counted.save (h : Booked cfg s) (hmem : c ∈ s.calls) {rest : List (Call A F)}
    (hp : s.calls.Perm (c :: rest)) (hid : c.id < cfg.nodeTotal) {r : A × List F}
    (hcalls : s'.calls = rest) (hmain : s'.main = s.main) (hcount : s'.nodeCount = s.nodeCount)
    (hstored : s'.stored = Function.update s.stored c.id (some r)) (hlisted : s'.listed = s.listed) :
    s'.Counted cfg := by
  have hlen : s.calls.length = s'.calls.length + 1 := hcalls ▸ hp.length_eq
  have hsub : ∀ d ∈ s'.calls, d ∈ s.calls :=
    fun d hd => hp.mem_iff.mpr (List.mem_cons_of_mem c (hcalls ▸ hd))
  have hinsert : c.isSck = false → (s'.determined cfg).card = (s.determined cfg).card + 1 :=
    fun hsck => card_determined_insert hid (h.undetermined c hmem hsck) r hstored
  have hsck := h.sck c hmem
  have hsignals := h.signals
  have hcounted := h.counted
  simp only [State.Counted] at hcounted ⊢
  rw [hmain, hcount, hlisted]
  cases hm : s.main with
  | idle =>
    rw [hm] at hsignals
    have hsum : s.signals + s.calls.length = 0 := hsignals
    omega
  | reference i =>
    simp only [hm] at hcounted hsck ⊢
    obtain ⟨h1, h2, h3, h4, h5, h6⟩ := hcounted
    have hcard := hinsert (by simpa using hsck)
    refine ⟨h1, h2, h3, by omega, ?_, fun d hd => h6 d (hsub d hd)⟩
    intro j hj
    rw [hstored, Function.update_of_ne (by rw [h6 c hmem]; omega)]
    exact h5 j hj
  | rest k =>
    simp only [hm] at hcounted hsck ⊢
    have hcard := hinsert (by simpa using hsck)
    exact ⟨hcounted.1, hcounted.2.1, hcounted.2.2.1, by omega⟩
  | updating k =>
    simp only [hm] at hcounted hsck ⊢
    have hcard := hinsert (by simpa using hsck)
    exact ⟨hcounted.1, hcounted.2.1, by omega⟩
  | checking =>
    simp only [hm] at hcounted ⊢
    exact ⟨hcounted.1, card_determined_replace hcounted.2.1 r hstored,
      fun d hd => hcounted.2.2 d (hsub d hd)⟩

theorem Booked.save (h : Booked cfg s) (hc : s.calls[g]? = some c)
    (hs : s.save cfg g c = .ok s') : Booked cfg s' := by
  obtain ⟨conn, res, -, hid, rfl⟩ := State.save_ok hs
  have hp := calls_perm hc
  have hrest : ∀ d ∈ s.calls.eraseIdx g, d ∈ s.calls := fun d hd => List.mem_of_mem_eraseIdx hd
  have hlen : s.calls.length = (s.calls.eraseIdx g).length + 1 := hp.length_eq
  have hnodup := ((hp.map Call.id).nodup_iff).mp h.nodup
  rw [List.map_cons, List.nodup_cons] at hnodup
  have hne : ∀ d ∈ s.calls.eraseIdx g, d.id ≠ c.id :=
    fun d hd he => hnodup.1 (he ▸ List.mem_map_of_mem hd)
  have hsignals := h.signals
  refine ⟨?_, hnodup.2, fun d hd => h.sck d (hrest d hd), ?_, fun d hd => h.bound d (hrest d hd),
    Counted.save h (List.mem_of_getElem? hc) hp hid rfl rfl rfl rfl rfl⟩
  · show s.signals + 1 + (s.calls.eraseIdx g).length = s.main.remaining
    omega
  · intro d hd hsck
    show Function.update s.stored c.id _ d.id = none
    rw [Function.update_of_ne (hne d hd)]
    exact h.undetermined d (hrest d hd) hsck

/-! ### The steps of the main goroutine -/

theorem Booked.of_idle (h : Booked cfg s) (hmain : s.main = .idle) :
    s.signals = 0 ∧ s.calls = [] := by
  have hsig := h.signals
  rw [hmain] at hsig
  have hsum : s.signals + s.calls.length = 0 := hsig
  exact ⟨by omega, List.eq_nil_of_length_eq_zero (by omega)⟩

structure Fresh (cfg : Config) (s : State A F) (ids : List ℕ) : Prop where
  signals : s.signals = 0
  calls : s.calls = ids.map (Call.start false)
  nodup : ids.Nodup
  stored : ∀ i ∈ ids, s.stored i = none

theorem Fresh.booked (ids : List ℕ) (h : Fresh cfg s ids) (hrem : ids.length = s.main.remaining)
    (hmain : s.main ≠ .checking) (hcounted : s.Counted cfg) : Booked cfg s := by
  have hcase : ∀ c ∈ s.calls, ∃ i ∈ ids, c = Call.start false i := by
    intro c hc
    rw [h.calls] at hc
    obtain ⟨i, hi, rfl⟩ := List.mem_map.mp hc
    exact ⟨i, hi, rfl⟩
  refine ⟨?_, ?_, ?_, ?_, ?_, hcounted⟩
  · rw [h.signals, h.calls, List.length_map, Nat.zero_add, hrem]
  · rw [h.calls, List.map_map]
    exact (List.map_id ids).symm ▸ h.nodup
  · intro c hc
    obtain ⟨i, -, rfl⟩ := hcase c hc
    exact ⟨fun hf => absurd hf Bool.false_ne_true, fun hf => absurd hf hmain⟩
  · intro c hc _
    obtain ⟨i, hi, rfl⟩ := hcase c hc
    exact h.stored i hi
  · intro c hc hpoint
    obtain ⟨i, -, rfl⟩ := hcase c hc
    exact absurd rfl hpoint

theorem booked_continueBuild {i : ℕ} (hi : i ≤ cfg.nbRef) (hsignals : s.signals = 0)
    (hcalls : s.calls = []) (hlisted : s.listed = 0) (hcount : s.nodeCount = i)
    (hcard : (s.determined cfg).card = i) (hnone : ∀ j, i ≤ j → s.stored j = none) :
    Booked cfg (s.continueBuild cfg i) := by
  have hle := card_determined_le cfg s
  by_cases hlt : i < cfg.nbRef
  · rw [State.continueBuild, if_pos hlt, hcalls]
    have hfresh : Fresh cfg { s with calls := [] ++ [.start false i], main := .reference i } [i] :=
      ⟨hsignals, rfl, List.nodup_singleton i, fun j hj => hnone j (List.mem_singleton.mp hj).ge⟩
    refine hfresh.booked [i] rfl (by simp) ⟨hlt, hlisted, hcount, ?_, ?_, ?_⟩
    · show (s.determined cfg).card + 1 = i + 1
      rw [hcard]
    · exact fun j hj => hnone j hj.le
    · intro c hc
      rw [List.mem_singleton.mp hc]
      rfl
  · obtain rfl : i = cfg.nbRef := by omega
    rw [State.continueBuild, if_neg hlt, hcalls]
    simp only [List.nil_append, List.length_range']
    have hstored : ∀ j ∈ List.range' cfg.nbRef (cfg.nodeTotal - cfg.nbRef), s.stored j = none :=
      fun j hj => hnone j (List.mem_range'_1.mp hj).1
    by_cases hk : cfg.nodeTotal - cfg.nbRef = 0
    · rw [State.awaitRest, if_pos hk]
      refine Fresh.booked (List.range' cfg.nbRef (cfg.nodeTotal - cfg.nbRef))
        ⟨hsignals, rfl, List.nodup_range', hstored⟩ ?_ (by simp [State.finish]) ?_
      · rw [List.length_range', hk]
        rfl
      · intro _
        refine ⟨?_, ?_⟩
        · show (s.determined cfg).card = cfg.nodeTotal
          omega
        · show s.nodeCount = cfg.nodeTotal - (s.listed : ℤ)
          omega
    · rw [State.awaitRest, if_neg hk]
      refine Fresh.booked (List.range' cfg.nbRef (cfg.nodeTotal - cfg.nbRef))
        ⟨hsignals, rfl, List.nodup_range', hstored⟩ ?_ (by simp) ?_
      · exact List.length_range'
      · refine ⟨hlisted, ?_, ?_, ?_⟩
        · show s.nodeCount = (cfg.nodeTotal - (cfg.nodeTotal - cfg.nbRef : ℕ) : ℤ)
          omega
        · omega
        · show (s.determined cfg).card + (List.map _ _).length = cfg.nodeTotal
          rw [List.length_map, List.length_range']
          omega

theorem Booked.build [Zero F] (h : Booked cfg s) (hs : s.build cfg = .ok s') : Booked cfg s' := by
  obtain ⟨hmain, rfl⟩ := State.build_ok hs
  obtain ⟨hsignals, hcalls⟩ := h.of_idle hmain
  exact booked_continueBuild (Nat.zero_le _) hsignals hcalls rfl rfl
    (determined_empty fun _ => rfl) fun _ _ => rfl

theorem Booked.update (h : Booked cfg s) {nodeList : List ℕ} (hnodup : nodeList.Nodup)
    (hlt : ∀ i ∈ nodeList, i < cfg.nodeTotal) (hs : s.update nodeList = .ok s') :
    Booked cfg s' := by
  obtain ⟨hmain, hdone, rfl⟩ := State.update_ok hs
  obtain ⟨hsignals, hcalls⟩ := h.of_idle hmain
  have hcounted := h.counted
  simp only [State.Counted, hmain] at hcounted
  obtain ⟨hfull, hcount⟩ := hcounted hdone
  rw [hcalls]
  generalize hs' : ({ s with
      nodeCount := s.nodeCount - nodeList.length
      calls := [] ++ nodeList.map (Call.start false)
      stored := fun i => if i ∈ nodeList then none else s.stored i
      listed := s.listed + nodeList.length } : State A F) = s₁
  have hcard : (s₁.determined cfg).card + nodeList.length = cfg.nodeTotal :=
    card_determined_sdiff hfull hnodup hlt (by rw [← hs'])
  have hcalls₁ : s₁.calls = nodeList.map (Call.start false) := by rw [← hs', List.nil_append]
  have hcount₁ : s₁.nodeCount = cfg.nodeTotal - s₁.listed := by
    rw [← hs']
    push_cast
    omega
  have hlisted₁ : nodeList.length ≤ s₁.listed := by
    rw [← hs']
    exact Nat.le_add_left ..
  have hstored : ∀ i ∈ nodeList, s₁.stored i = none := by
    intro i hi
    rw [← hs']
    exact if_pos hi
  have hsignals₁ : s₁.signals = 0 := by rw [← hs', hsignals]
  by_cases hk : nodeList.length = 0
  · rw [State.awaitUpdate, if_pos hk]
    refine Fresh.booked nodeList ⟨hsignals₁, hcalls₁, hnodup, hstored⟩ hk (fun hf => nomatch hf) ?_
    intro _
    refine ⟨?_, hcount₁⟩
    show (s₁.determined cfg).card = cfg.nodeTotal
    omega
  · rw [State.awaitUpdate, if_neg hk]
    refine Fresh.booked nodeList ⟨hsignals₁, hcalls₁, hnodup, hstored⟩ rfl (fun hf => nomatch hf) ?_
    refine ⟨hcount₁, hlisted₁, ?_⟩
    show (s₁.determined cfg).card + s₁.calls.length = cfg.nodeTotal
    rw [hcalls₁, List.length_map]
    exact hcard

theorem Booked.check (h : Booked cfg s) (hs : s.check = .ok s') : Booked cfg s' := by
  obtain ⟨hmain, hdone, rfl⟩ := State.check_ok hs
  obtain ⟨hsignals, hcalls⟩ := h.of_idle hmain
  have hcounted := h.counted
  simp only [State.Counted, hmain] at hcounted
  obtain ⟨hfull, hcount⟩ := hcounted hdone
  rw [hcalls]
  have hcase : ∀ c ∈ [] ++ [Call.start (A := A) (F := F) true 0], c = Call.start true 0 :=
    fun c hc => List.mem_singleton.mp hc
  refine ⟨?_, List.nodup_singleton 0, ?_, ?_, ?_, hcount, hfull, ?_⟩
  · show s.signals + 1 = 1
    rw [hsignals]
  · intro c hc
    rw [hcase c hc]
    exact ⟨fun _ => rfl, fun _ => rfl⟩
  · intro c hc hsck
    rw [hcase c hc] at hsck
    exact nomatch hsck
  · intro c hc hpoint
    rw [hcase c hc] at hpoint
    exact absurd rfl hpoint
  · intro c hc
    rw [hcase c hc]
    rfl

theorem Booked.signals_pred (h : Booked cfg s) {signals : ℕ} (hs : s.signals = signals + 1) :
    signals + s.calls.length + 1 = s.main.remaining := by
  have hsig := h.signals
  omega

theorem Booked.signal (h : Booked cfg s) (hs : s.signal cfg = .ok s') : Booked cfg s' := by
  obtain ⟨signals, hsig, hcases⟩ := State.signal_ok hs
  have hpred := h.signals_pred hsig
  have hcounted := h.counted
  have hnosck : s.main ≠ .checking → ∀ c ∈ s.calls, c.isSck = true ↔ False :=
    fun hm c hc => (h.sck c hc).trans (iff_false_intro hm)
  obtain ⟨i, hmain, rfl⟩ | ⟨k, hmain, rfl⟩ | ⟨k, hmain, rfl⟩ | ⟨hmain, rfl⟩ := hcases
  all_goals simp only [State.Counted, hmain] at hcounted
  · obtain ⟨hi, hlisted, hcount, hcard, hnone, -⟩ := hcounted
    have hsum : signals + s.calls.length = 0 := by simpa [hmain, Main.remaining] using hpred
    have hcalls : s.calls = [] := List.eq_nil_of_length_eq_zero (by omega)
    refine booked_continueBuild hi (show signals = 0 by omega) hcalls hlisted ?_ ?_ hnone
    · show s.nodeCount + 1 = ((i + 1 : ℕ) : ℤ)
      omega
    · show (s.determined cfg).card = i + 1
      rw [hcalls] at hcard
      exact hcard
  · obtain ⟨hlisted, hcount, hle, hcard⟩ := hcounted
    have hk : signals + s.calls.length + 1 = k := by rw [hmain] at hpred; exact hpred
    have hsum : signals + s.calls.length = k - 1 := by omega
    have hno := hnosck (by rw [hmain]; simp)
    by_cases hlast : k - 1 = 0
    · rw [State.awaitRest, if_pos hlast]
      refine ⟨hsum.trans hlast, h.nodup, fun c hc => (hno c hc).trans (iff_of_false id (by simp [State.finish])),
        h.undetermined, h.bound, fun _ => ⟨?_, ?_⟩⟩
      · show (s.determined cfg).card = cfg.nodeTotal
        omega
      · show s.nodeCount + 1 = cfg.nodeTotal - (s.listed : ℤ)
        omega
    · rw [State.awaitRest, if_neg hlast]
      refine ⟨hsum, h.nodup, fun c hc => (hno c hc).trans (iff_of_false id (by simp)),
        h.undetermined, h.bound, hlisted, ?_, by omega, hcard⟩
      show s.nodeCount + 1 = (cfg.nodeTotal - (k - 1 : ℕ) : ℤ)
      omega
  · obtain ⟨hcount, hle, hcard⟩ := hcounted
    have hk : signals + s.calls.length + 1 = k := by rw [hmain] at hpred; exact hpred
    have hsum : signals + s.calls.length = k - 1 := by omega
    have hno := hnosck (by rw [hmain]; simp)
    by_cases hlast : k - 1 = 0
    · rw [State.awaitUpdate, if_pos hlast]
      refine ⟨hsum.trans hlast, h.nodup, fun c hc => (hno c hc).trans (iff_of_false id (by simp [State.finish])),
        h.undetermined, h.bound, fun _ => ⟨?_, hcount⟩⟩
      show (s.determined cfg).card = cfg.nodeTotal
      omega
    · rw [State.awaitUpdate, if_neg hlast]
      refine ⟨hsum, h.nodup, fun c hc => (hno c hc).trans (iff_of_false id (by simp)),
        h.undetermined, h.bound, hcount, ?_, hcard⟩
      show k - 1 ≤ s.listed
      omega
  · obtain ⟨hcount, hcard, -⟩ := hcounted
    have hsum : signals + s.calls.length = 0 := by simpa [hmain, Main.remaining] using hpred
    have hcalls : s.calls = [] := List.eq_nil_of_length_eq_zero (by omega)
    have hempty : ∀ c ∈ s.calls, False := fun c hc => by simp [hcalls] at hc
    exact ⟨hsum, h.nodup, fun c hc => (hempty c hc).elim, h.undetermined, h.bound,
      fun _ => ⟨hcard, hcount⟩⟩

theorem Booked.step [Zero F] [Neg F] (h : Booked cfg s) {a : Label F} (hex : Existing cfg s a)
    (hs : step cfg s a = .ok s') : Booked cfg s' := by
  cases a with
  | build => exact h.build hs
  | update nodeList => exact h.update hex.1 hex.2 hs
  | check => exact h.check hs
  | signal => exact h.signal hs
  | send g =>
    obtain ⟨c, hc, hs⟩ := onCall_ok hs
    obtain ⟨-, hid, rfl⟩ := State.send_ok hs
    exact h.goOn hc rfl (fun _ => hid) rfl rfl rfl rfl rfl rfl
  | listen g =>
    obtain ⟨c, hc, hs⟩ := onCall_ok hs
    obtain ⟨-, hid, rfl⟩ := State.listen_ok hs
    exact h.goOn hc rfl (fun _ => hid) rfl rfl rfl rfl rfl rfl
  | recieve g res =>
    obtain ⟨c, hc, hs⟩ := onCall_ok hs
    obtain ⟨conn, hpoint, hcases⟩ := State.recieve_ok hs
    have hid : c.id < cfg.nodeTotal :=
      h.bound c (List.mem_of_getElem? hc) (by rw [hpoint]; exact fun hf => nomatch hf)
    obtain ⟨-, rfl⟩ | ⟨coord, testData, -, rfl⟩ := hcases
    · exact h.goOn hc rfl (fun _ => hid) rfl rfl rfl rfl rfl rfl
    · exact h.goOn hc rfl (fun _ => hid) rfl rfl rfl rfl rfl rfl
  | swapIp g n =>
    obtain ⟨c, hc, hs⟩ := onCall_ok hs
    obtain ⟨hpoint, ⟨-, rfl⟩ | ⟨-, hid, hn, rfl⟩⟩ := State.swapIp_ok hs
    · exact h.goOn hc rfl (fun hf => absurd rfl hf) rfl rfl rfl rfl rfl rfl
    · exact h.goOn hc rfl (fun _ => hid.trans hn) rfl rfl rfl rfl rfl rfl
  | swapConn g =>
    obtain ⟨c, hc, hs⟩ := onCall_ok hs
    obtain ⟨n, -, rfl⟩ := State.swapConn_ok hs
    exact h.goOn hc rfl (fun hf => absurd rfl hf) rfl rfl rfl rfl rfl rfl
  | save g =>
    obtain ⟨c, hc, hs⟩ := onCall_ok hs
    exact h.save hc hs

theorem Booked.init [Zero F] (cfg : Config) (ip : ℕ → A) : Booked cfg (init (F := F) cfg ip) where
  signals := rfl
  nodup := .nil
  sck := fun _ hc => nomatch hc
  undetermined := fun _ hc => nomatch hc
  bound := fun _ hc => nomatch hc
  counted := fun hf => nomatch hf

/-! ### What follows -/

theorem getReferencePoints_of_le {nodeCount : ℤ} {id refNb : ℕ} {isSck : Bool}
    (hnot : ¬(id = 0 ∧ isSck = false)) (hle : (refNb : ℤ) ≤ nodeCount) :
    getReferencePoints nodeCount id refNb isSck =
      List.range' (if id = 0 then 1 else 0) refNb := by
  have hge : ¬ nodeCount < (refNb : ℤ) := by omega
  simp only [getReferencePoints, if_neg hnot, if_neg hge, Int.toNat_natCast, Nat.add_sub_cancel]

theorem Booked.supplied (h : Booked cfg s) (hsck : cfg.nbSckRef ≠ cfg.nodeTotal)
    (hlisted : s.listed = 0) : ∀ c ∈ s.calls, s.Supplied cfg c := by
  intro c hc hnot hle
  have hsckc := h.sck c hc
  have hcounted := h.counted
  have hsignals := h.signals
  have hlen : 0 < s.calls.length := List.length_pos_of_mem hc
  have hcard := card_determined_le cfg s
  simp only [State.Counted] at hcounted
  cases hm : s.main with
  | idle =>
    simp only [hm, Main.remaining] at hsignals
    omega
  | reference i =>
    simp only [hm, Main.remaining] at hcounted hsckc hsignals
    obtain ⟨hi, -, -, hsum, -⟩ := hcounted
    rw [show c.isSck = false by simpa using hsckc] at hle
    have hle' : cfg.nbRef ≤ (s.determined cfg).card := hle
    omega
  | rest k =>
    simp only [hm] at hcounted hsckc
    obtain ⟨-, hcount, hk, -⟩ := hcounted
    have hfalse : c.isSck = false := by simpa using hsckc
    have hid : c.id ≠ 0 := fun h0 => hnot ⟨h0, hfalse⟩
    have href : cfg.refNb c.isSck = cfg.nbRef := by rw [hfalse]; rfl
    rw [getReferencePoints_of_le hnot (by omega), if_neg hid, List.length_range', href]
    refine ⟨rfl, ?_⟩
    intro j hj
    have := (List.mem_range'_1.mp hj).2
    omega
  | updating k =>
    simp only [hm, Main.remaining] at hcounted hsignals
    omega
  | checking =>
    simp only [hm] at hcounted hsckc
    obtain ⟨hcount, -, hids⟩ := hcounted
    have hid := hids c hc
    have href : cfg.refNb c.isSck = cfg.nbSckRef := by rw [hsckc.mpr trivial]; rfl
    rw [getReferencePoints_of_le hnot (by omega), if_pos hid, List.length_range', href]
    refine ⟨rfl, ?_⟩
    intro j hj
    have := (List.mem_range'_1.mp hj).2
    omega

theorem Booked.indexed (h : Booked cfg s) (hlisted : s.listed = 0) :
    ∀ c ∈ s.calls, c.isSck = false → c.point ≠ .request → s.Indexed cfg := by
  intro c hc hfalse hpoint
  have hsckc := h.sck c hc
  have hcounted := h.counted
  have hsignals := h.signals
  have hlen : 0 < s.calls.length := List.length_pos_of_mem hc
  simp only [State.Counted] at hcounted
  cases hm : s.main with
  | idle =>
    simp only [hm, Main.remaining] at hsignals
    omega
  | reference i =>
    simp only [hm] at hcounted
    obtain ⟨-, -, hcount, -, -, hids⟩ := hcounted
    have hbound := h.bound c hc hpoint
    rw [hids c hc] at hbound
    exact ⟨by omega, by omega⟩
  | rest k =>
    simp only [hm, Main.remaining] at hcounted hsignals
    exact ⟨by omega, by omega⟩
  | updating k =>
    simp only [hm, Main.remaining] at hcounted hsignals
    omega
  | checking =>
    rw [hfalse, hm] at hsckc
    exact absurd (hsckc.mpr rfl) Bool.false_ne_true

/-- After every completed build or update all coordinates are determined, and `NodeCount` says so exactly
if no local update since the last build has listed a node. As long as none has, the calls get their
reference points and `TestData` is written inside the array. -/
theorem node_count_exact [Zero F] [Neg F] {ip : ℕ → A} {as : List (Label F)}
    (hsck : cfg.nbSckRef ≠ cfg.nodeTotal)
    (h : Run (Validator.step cfg) (Existing cfg) (Validator.init cfg ip) as s) :
    (s.Completed → (s.determined cfg).card = cfg.nodeTotal ∧
      (s.nodeCount = (s.determined cfg).card ↔ s.listed = 0)) ∧
    (s.listed = 0 →
      (∀ c ∈ s.calls, s.Supplied cfg c) ∧
      ∀ c ∈ s.calls, c.isSck = false → c.point ≠ .request → s.Indexed cfg) := by
  have hbooked : Booked cfg s := h.invariant (Booked cfg) (Booked.init cfg ip)
    fun _ _ _ hI hok hs => hI.step hok hs
  refine ⟨?_, fun hlisted => ⟨hbooked.supplied hsck hlisted, hbooked.indexed hlisted⟩⟩
  rintro ⟨hmain, hdone⟩
  have hcounted := hbooked.counted
  simp only [State.Counted, hmain] at hcounted
  obtain ⟨hcard, hcount⟩ := hcounted hdone
  refine ⟨hcard, ?_⟩
  rw [hcard, hcount]
  omega

end Step

/-! ### Runs -/

instance (s : State A F) : Decidable s.Completed :=
  inferInstanceAs (Decidable (s.main = .idle ∧ s.isCoordDone = true))

instance (cfg : Config) (s : State A F) (a : Label F) : Decidable (Existing cfg s a) :=
  match a with
  | .update nodeList => inferInstanceAs (Decidable (nodeList.Nodup ∧ ∀ i ∈ nodeList, i < cfg.nodeTotal))
  | .build | .check | .signal | .send _ | .listen _ | .recieve _ _ | .swapIp _ _ | .swapConn _
  | .save _ => .isTrue trivial

def single : Config := ⟨1, 1, 1, 0⟩

def answer : PeerResponse ℤ := ⟨false, [], [0], [0, 0]⟩

def oneCall : List (Label ℤ) := [.send 0, .listen 0, .recieve 0 answer, .save 0, .signal]

def rebuilt : List (Label ℤ) :=
  .build :: oneCall ++ .check :: oneCall ++ [.build, .send 0, .listen 0]

theorem node_count_exact_rebuilt :
    ∃ s, Run (step single) (Existing single) (init single id) rebuilt s ∧
      s.calls = [⟨0, false, .waiting 0⟩] ∧ s.Indexed single := by
  obtain ⟨s, hrun, hP⟩ := Run.exists_of_exec (step single) (init single id) rebuilt
    (fun s => decide (s.calls = [⟨0, false, .waiting 0⟩] ∧ s.listed = 0))
    (show Guarded (step single) (Existing single) (init single id) rebuilt by decide +kernel)
    (by decide +kernel)
  obtain ⟨hcalls, hlisted⟩ := of_decide_eq_true hP
  have hexact := (node_count_exact (by decide) hrun).2 hlisted
  refine ⟨s, hrun, hcalls, hexact.2 ⟨0, false, .waiting 0⟩ ?_ rfl (fun hf => nomatch hf)⟩
  rw [hcalls]
  exact List.mem_singleton_self _

def updated : List (Label ℤ) := .build :: oneCall ++ .update [0] :: oneCall

def updatedTwice : List (Label ℤ) := updated ++ [.update [0], .send 0, .listen 0]

/-- After one local update `NodeCount` is too small, and a second one writes before the array. -/
theorem node_count_drifts :
    (∃ s, Run (step single) (Existing single) (init single id) updated s ∧ s.Completed ∧
      (s.determined single).card = 1 ∧ s.nodeCount = 0) ∧
    ∃ s, Run (step single) (Existing single) (init single id) updatedTwice s ∧ s.nodeCount = -1 ∧
      s.calls = [⟨0, false, .waiting 0⟩] ∧ step single s (.recieve 0 answer) = .error .panic := by
  constructor
  · obtain ⟨s, hrun, hP⟩ := Run.exists_of_exec (step single) (init single id) updated
      (fun s => decide (s.Completed ∧ (s.determined single).card = 1 ∧ s.nodeCount = 0))
      (show Guarded (step single) (Existing single) (init single id) updated by decide +kernel)
      (by decide +kernel)
    exact ⟨s, hrun, of_decide_eq_true hP⟩
  · obtain ⟨s, hrun, hP⟩ := Run.exists_of_exec (step single) (init single id) updatedTwice
      (fun s => decide (s.nodeCount = -1 ∧ s.calls = [⟨0, false, .waiting 0⟩]))
      (show Guarded (step single) (Existing single) (init single id) updatedTwice by decide +kernel)
      (by decide +kernel)
    obtain ⟨hcount, hcalls⟩ := of_decide_eq_true hP
    refine ⟨s, hrun, hcount, hcalls, ?_⟩
    simp [step, onCall, hcalls, State.recieve, answer, changeSigns, hcount]

end Mp2bs.Validator
