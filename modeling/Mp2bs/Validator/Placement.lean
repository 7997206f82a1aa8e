import Mp2bs.Validator.Machine

/-!
# Coordinates and the peers that measured them

`GetPeerCoord` exchanges the addresses of two nodes and then their connections
(`utils/validator_utils_getCoord.go:69-70`), without a lock or a look at the other node.
-/

namespace Mp2bs.Validator
open Mp2bs.Lib.Machine

variable {A F : Type}

def Call.halves (c : Call A F) : List ℕ :=
  match c.point with
  | .swapping n => [c.id, n]
  | _ => []

def Call.captured (c : Call A F) : Option A :=
  match c.point with
  | .waiting conn | .received conn _ => some conn
  | _ => none

def State.halved (s : State A F) : List ℕ := s.calls.flatMap Call.halves

/-- The entries of two vectors agree up to sign, as far as both go. -/
def SignEq [Neg F] (l v : List F) : Prop :=
  ∀ (j : ℕ) (x y : F), l[j]? = some x → v[j]? = some y → x = y ∨ x = -y

/-- Every stored coordinate was reported, up to signs, by the peer at the address of its node, the
connections go to the addresses of their nodes, apart from nodes in the middle of an exchange, and
the addresses are those of the start. -/
structure Placed [Neg F] (cfg : Config) (ip : ℕ → A) (s : State A F) : Prop where
  stored : ∀ i < cfg.nodeTotal, ∀ a v, s.stored i = some (a, v) →
    a = s.nodeIp i ∧ SignEq (s.coord i) v
  conn : ∀ i < cfg.nodeTotal, i ∉ s.halved → s.connList i = s.nodeIp i
  perm : ((List.range cfg.nodeTotal).map s.nodeIp).Perm ((List.range cfg.nodeTotal).map ip)

/-- Neither end of the exchange of call `c` with node `n` has a coordinate, is read for by another
call of `others`, or is in the middle of another exchange. -/
def State.Untouched (s : State A F) (others : List (Call A F)) (c : Call A F) (n : ℕ) : Prop :=
  (s.stored c.id = none ∧ s.stored n = none) ∧
    (∀ d ∈ others, d.captured = none ∨ (d.id ≠ c.id ∧ d.id ≠ n)) ∧
    (c.id ∉ s.halved ∧ n ∉ s.halved)

/-- An exchange concerns untouched nodes, and no call takes its connection in the middle of one. -/
def Careful (s : State A F) : Label F → Prop
  | .swapIp g n => ∀ c ∈ s.calls[g]?, c.isSck = true ∨ s.Untouched (s.calls.eraseIdx g) c n
  | .listen g => ∀ c ∈ s.calls[g]?, c.id ∉ s.halved
  | _ => True

/-! ### Signs and copies -/

section Signs

variable [InvolutiveNeg F]

theorem SignEq.modify {l v : List F} (h : SignEq l v) (i : ℕ) : SignEq (l.modify i Neg.neg) v := by
  intro j x y hx hy
  rw [List.getElem?_modify] at hx
  obtain ⟨z, hz, rfl⟩ := Option.map_eq_some_iff.mp hx
  by_cases hij : i = j
  · simp only [if_pos hij]
    rcases h j z y hz hy with rfl | rfl
    · exact .inr rfl
    · exact .inl (neg_neg y)
  · simp only [if_neg hij]
    exact h j z y hz hy

theorem changeSigns_signEq {total i : ℕ} {sign : List Bool} {coord coord' : ℕ → List F}
    (h : changeSigns total i sign coord = .ok coord') {k : ℕ} {v : List F}
    (hv : SignEq (coord k) v) : SignEq (coord' k) v := by
  induction sign generalizing i coord with
  | nil =>
    cases h
    exact hv
  | cons b sign ih =>
    unfold changeSigns at h
    split at h
    · exact nomatch h
    · split at h
      · exact ih h hv
      · split at h
        · refine ih h ?_
          by_cases hk : k = i + 1
          · subst hk
            rw [Function.update_self]
            exact hv.modify i
          · rwa [Function.update_of_ne hk]
        · exact nomatch h

omit [InvolutiveNeg F] in
theorem getElem?_copyInto {dst res : List F} {j : ℕ} {x y : F}
    (hx : (copyInto dst res)[j]? = some x) (hy : res[j]? = some y) : x = y := by
  obtain ⟨hj, hval⟩ := List.getElem?_eq_some_iff.mp hx
  obtain ⟨hres, -⟩ := List.getElem?_eq_some_iff.mp hy
  have hlen : j < (res.take dst.length).length := by
    simp only [copyInto, List.length_append, List.length_take, List.length_drop] at hj ⊢
    omega
  rw [copyInto, List.getElem?_append_left hlen, List.getElem?_take, if_pos (by
    rw [List.length_take] at hlen
    omega), hy] at hx
  exact (Option.some.inj hx).symm

theorem copyInto_signEq (dst res : List F) : SignEq (copyInto dst res) res :=
  fun _ _ _ hx hy => .inl (getElem?_copyInto hx hy)

end Signs

/-! ### Exchanges -/

theorem swap_left {β : Type} (a : ℕ → β) (i n : ℕ) : swap a i n i = a n := if_pos rfl

theorem swap_right {β : Type} (a : ℕ → β) (i n : ℕ) : swap a i n n = a i := by
  unfold swap
  by_cases h : n = i
  · rw [if_pos h, h]
  · rw [if_neg h, if_pos rfl]

theorem swap_of_ne {β : Type} (a : ℕ → β) {i n k : ℕ} (hi : k ≠ i) (hn : k ≠ n) :
    swap a i n k = a k := by
  unfold swap
  rw [if_neg hi, if_neg hn]

theorem swap_eq_comp {β : Type} (a : ℕ → β) (i n : ℕ) : swap a i n = a ∘ Equiv.swap i n := by
  funext k
  simp only [swap, Function.comp_apply, Equiv.swap_apply_def]
  split
  · rfl
  · split <;> rfl

theorem range_map_swap {β : Type} (a : ℕ → β) {total i n : ℕ} (hi : i < total) (hn : n < total) :
    ((List.range total).map (swap a i n)).Perm ((List.range total).map a) := by
  have hperm : ((List.range total).map (Equiv.swap i n)).Perm (List.range total) := by
    rw [List.perm_ext_iff_of_nodup
      (List.nodup_range.map (Equiv.swap i n).injective) List.nodup_range]
    intro k
    have hmem : k ∈ (List.range total).map (Equiv.swap i n) ↔ Equiv.swap i n k < total := by
      constructor
      · intro hk
        obtain ⟨m, hm, rfl⟩ := List.mem_map.mp hk
        rw [Equiv.swap_apply_self]
        exact List.mem_range.mp hm
      · intro hk
        exact List.mem_map.mpr ⟨_, List.mem_range.mpr hk, Equiv.swap_apply_self i n k⟩
    rw [hmem, List.mem_range, Equiv.swap_apply_def]
    split
    · omega
    · split <;> omega
  rw [swap_eq_comp, ← List.map_map]
  exact hperm.map a

/-! ### The invariant -/

/-- `Placed`, with what the running calls know: a call reads from the connection to its node, and
an exchange in the middle has the connections of its two nodes crossed. -/
structure Tracked [Neg F] (cfg : Config) (ip : ℕ → A) (s : State A F) : Prop
    extends Placed cfg ip s where
  captured : ∀ c ∈ s.calls, ∀ a, c.captured = some a → a = s.nodeIp c.id
  crossed : ∀ c ∈ s.calls, ∀ n, c.point = .swapping n →
    s.connList c.id = s.nodeIp n ∧ s.connList n = s.nodeIp c.id
  disjoint : s.calls.Pairwise fun c d => c.halves.Disjoint d.halves

theorem mem_halved {s : State A F} {i : ℕ} : i ∈ s.halved ↔ ∃ c ∈ s.calls, i ∈ c.halves :=
  List.mem_flatMap

theorem mem_halved_iff {l : List (Call A F)} {c : Call A F} {rest : List (Call A F)}
    (h : l.Perm (c :: rest)) {i : ℕ} :
    i ∈ l.flatMap Call.halves ↔ i ∈ c.halves ∨ i ∈ rest.flatMap Call.halves := by
  rw [(h.flatMap_right Call.halves).mem_iff, List.flatMap_cons, List.mem_append]

section Step

variable [InvolutiveNeg F] {cfg : Config} {ip : ℕ → A} {s s' : State A F} {g n : ℕ} {c : Call A F}

omit [InvolutiveNeg F] in
theorem disjoint_set {l : List (Call A F)} (hc : l[g]? = some c)
    (h : l.Pairwise fun c d => c.halves.Disjoint d.halves) {d : Call A F}
    (hd : ∀ e ∈ l.eraseIdx g, d.halves.Disjoint e.halves) :
    (l.set g d).Pairwise fun c d => c.halves.Disjoint d.halves := by
  have hsymm : ∀ {a b : Call A F}, a.halves.Disjoint b.halves → b.halves.Disjoint a.halves :=
    fun h => h.symm
  have hpair := ((calls_perm hc).pairwise_iff hsymm).mp h
  exact ((set_perm hc d).pairwise_iff hsymm).mpr (List.pairwise_cons.mpr ⟨hd, hpair.tail⟩)

theorem Tracked.goOn (h : Tracked cfg ip s) (hc : s.calls[g]? = some c) {point : Point A F}
    (hold : c.halves = []) (hnew : (Call.mk c.id c.isSck point).halves = [])
    (hcap : ∀ a, (Call.mk c.id c.isSck point).captured = some a → a = s.nodeIp c.id) :
    Tracked cfg ip (s.goOn g c point) := by
  have hp' := set_perm hc (Call.mk c.id c.isSck point)
  have hrest : ∀ d ∈ s.calls.eraseIdx g, d ∈ s.calls := fun d hd => List.mem_of_mem_eraseIdx hd
  have hhalved : ∀ i, i ∈ s.halved → i ∈ (s.goOn g c point).halved := by
    intro i hi
    refine (mem_halved_iff hp').mpr (.inr ?_)
    rcases (mem_halved_iff (calls_perm hc)).mp hi with hi | hi
    · rw [hold] at hi
      exact nomatch hi
    · exact hi
  refine ⟨⟨h.stored, fun i hi hni => h.conn i hi (fun hmem => hni (hhalved i hmem)), h.perm⟩,
    ?_, ?_, ?_⟩
  · intro d hd a ha
    rcases List.mem_cons.mp (hp'.mem_iff.mp hd) with rfl | hd
    · exact hcap a ha
    · exact h.captured d (hrest d hd) a ha
  · intro d hd m hm
    rcases List.mem_cons.mp (hp'.mem_iff.mp hd) with rfl | hd
    · simp [Call.halves, show point = .swapping m from hm] at hnew
    · exact h.crossed d (hrest d hd) m hm
  · refine disjoint_set hc h.disjoint ?_
    intro e _
    rw [hnew]
    exact List.disjoint_nil_left _

theorem Tracked.setCoord (h : Tracked cfg ip s) {coord : ℕ → List F} (testData : ℕ → F × F)
    (hcoord : ∀ i v, SignEq (s.coord i) v → SignEq (coord i) v) :
    Tracked cfg ip { s with coord := coord, testData := testData } := by
  refine ⟨⟨?_, h.conn, h.perm⟩, h.captured, h.crossed, h.disjoint⟩
  intro i hi a v hv
  obtain ⟨ha, hsign⟩ := h.stored i hi a v hv
  exact ⟨ha, hcoord i v hsign⟩

theorem Tracked.listen (h : Tracked cfg ip s) (hc : s.calls[g]? = some c) (hid : c.id < cfg.nodeTotal)
    (hpoint : c.point = .listen) (hcare : c.id ∉ s.halved) :
    Tracked cfg ip (s.goOn g c (.waiting (s.connList c.id))) := by
  refine h.goOn hc (by simp only [Call.halves, hpoint]) rfl ?_
  intro a ha
  rw [← Option.some.inj ha]
  exact h.conn c.id hid hcare

theorem Tracked.recieve {res : PeerResponse F} (h : Tracked cfg ip s) (hc : s.calls[g]? = some c)
    (hs : s.recieve cfg g c res = .ok s') : Tracked cfg ip s' := by
  obtain ⟨conn, hpoint, ⟨-, rfl⟩ | ⟨coord, testData, hcoord, rfl⟩⟩ := State.recieve_ok hs
  · exact h.goOn hc (by simp only [Call.halves, hpoint]) rfl (fun a ha => nomatch ha)
  · have hon : Tracked cfg ip (s.goOn g c (.received conn res.node)) := by
      refine h.goOn hc (by simp only [Call.halves, hpoint]) rfl ?_
      intro a ha
      refine h.captured c (List.mem_of_getElem? hc) a ?_
      simpa only [Call.captured, hpoint] using ha
    refine hon.setCoord testData ?_
    intro i v hv
    rcases hcoord with rfl | hcoord
    · exact hv
    · exact changeSigns_signEq hcoord hv

theorem Tracked.swapIp (h : Tracked cfg ip s) (hc : s.calls[g]? = some c)
    (hpoint : c.point = .failed) (hid : c.id < n) (hn : n < cfg.nodeTotal)
    (hcare : s.Untouched (s.calls.eraseIdx g) c n) :
    Tracked cfg ip { s.goOn g c (.swapping n) with nodeIp := swap s.nodeIp c.id n } := by
  obtain ⟨⟨hstored, hstoredn⟩, hothers, hhalf, hhalfn⟩ := hcare
  have hp := calls_perm hc
  have hp' := set_perm hc (Call.mk c.id c.isSck (.swapping n))
  have hrest : ∀ d ∈ s.calls.eraseIdx g, d ∈ s.calls := fun d hd => List.mem_of_mem_eraseIdx hd
  have hout : ∀ d ∈ s.calls.eraseIdx g, ∀ i ∈ d.halves, i ≠ c.id ∧ i ≠ n := by
    intro d hd i hi
    have hmem : i ∈ s.halved := mem_halved.mpr ⟨d, hrest d hd, hi⟩
    exact ⟨fun he => hhalf (he ▸ hmem), fun he => hhalfn (he ▸ hmem)⟩
  refine ⟨⟨?_, ?_, (range_map_swap s.nodeIp (hid.trans hn) hn).trans h.perm⟩, ?_, ?_, ?_⟩
  · intro i hi a v hv
    have hi1 : i ≠ c.id := fun he => by simp [he, State.goOn, hstored] at hv
    have hi2 : i ≠ n := fun he => by simp [he, State.goOn, hstoredn] at hv
    obtain ⟨ha, hsign⟩ := h.stored i hi a v hv
    exact ⟨ha.trans (swap_of_ne s.nodeIp hi1 hi2).symm, hsign⟩
  · intro i hi hni
    have hnew : i ∉ (Call.mk c.id c.isSck (.swapping n) : Call A F).halves :=
      fun hmem => hni ((mem_halved_iff hp').mpr (.inl hmem))
    have hi1 : i ≠ c.id := fun he => hnew (by simp [Call.halves, he])
    have hi2 : i ≠ n := fun he => hnew (by simp [Call.halves, he])
    have hold : i ∉ s.halved := by
      intro hmem
      rcases (mem_halved_iff hp).mp hmem with hmem | hmem
      · simp [Call.halves, hpoint] at hmem
      · exact hni ((mem_halved_iff hp').mpr (.inr hmem))
    exact (h.conn i hi hold).trans (swap_of_ne s.nodeIp hi1 hi2).symm
  · intro d hd a ha
    rcases List.mem_cons.mp (hp'.mem_iff.mp hd) with rfl | hd
    · exact nomatch ha
    · have hd' := h.captured d (hrest d hd) a ha
      rcases hothers d hd with hnone | ⟨hd1, hd2⟩
      · rw [hnone] at ha
        exact nomatch ha
      · exact hd'.trans (swap_of_ne s.nodeIp hd1 hd2).symm
  · intro d hd m hm
    rcases List.mem_cons.mp (hp'.mem_iff.mp hd) with rfl | hd
    · obtain rfl : n = m := by simpa using hm
      exact ⟨(h.conn c.id (hid.trans hn) hhalf).trans (swap_right s.nodeIp c.id n).symm,
        (h.conn n hn hhalfn).trans (swap_left s.nodeIp c.id n).symm⟩
    · have hid' := hout d hd d.id (by simp [Call.halves, hm])
      have hm' := hout d hd m (by simp [Call.halves, hm])
      obtain ⟨hx, hy⟩ := h.crossed d (hrest d hd) m hm
      exact ⟨hx.trans (swap_of_ne s.nodeIp hm'.1 hm'.2).symm,
        hy.trans (swap_of_ne s.nodeIp hid'.1 hid'.2).symm⟩
  · refine disjoint_set hc h.disjoint ?_
    intro e he i hi hie
    obtain ⟨hi1, hi2⟩ := hout e he i hie
    simp only [Call.halves, List.mem_cons, List.not_mem_nil, or_false] at hi
    rcases hi with rfl | rfl
    · exact hi1 rfl
    · exact hi2 rfl

theorem Tracked.swapConn (h : Tracked cfg ip s) (hc : s.calls[g]? = some c)
    (hpoint : c.point = .swapping n) :
    Tracked cfg ip { s.goOn g c .request with connList := swap s.connList c.id n } := by
  have hp := calls_perm hc
  have hp' := set_perm hc (Call.mk c.id c.isSck .request)
  have hrest : ∀ d ∈ s.calls.eraseIdx g, d ∈ s.calls := fun d hd => List.mem_of_mem_eraseIdx hd
  have hhalves : c.halves = [c.id, n] := by simp only [Call.halves, hpoint]
  have hout : ∀ d ∈ s.calls.eraseIdx g, ∀ i ∈ d.halves, i ≠ c.id ∧ i ≠ n := by
    intro d hd i hi
    have hsymm : ∀ {a b : Call A F}, a.halves.Disjoint b.halves → b.halves.Disjoint a.halves :=
      fun h => h.symm
    have hdis := (List.pairwise_cons.mp ((hp.pairwise_iff hsymm).mp h.disjoint)).1 d hd
    rw [hhalves] at hdis
    exact ⟨fun he => hdis (he ▸ List.mem_cons_self ..) hi,
      fun he => hdis (he ▸ by simp) hi⟩
  obtain ⟨hcid, hcn⟩ := h.crossed c (List.mem_of_getElem? hc) n hpoint
  refine ⟨⟨h.stored, ?_, h.perm⟩, ?_, ?_, ?_⟩
  · intro i hi hni
    by_cases hi1 : i = c.id
    · rw [hi1]
      exact (swap_left s.connList c.id n).trans hcn
    · by_cases hi2 : i = n
      · rw [hi2]
        exact (swap_right s.connList c.id n).trans hcid
      · refine (swap_of_ne s.connList hi1 hi2).trans (h.conn i hi ?_)
        intro hmem
        rcases (mem_halved_iff hp).mp hmem with hmem | hmem
        · rw [hhalves] at hmem
          simp only [List.mem_cons, List.not_mem_nil, or_false] at hmem
          exact hmem.elim hi1 hi2
        · exact hni ((mem_halved_iff hp').mpr (.inr hmem))
  · intro d hd a ha
    rcases List.mem_cons.mp (hp'.mem_iff.mp hd) with rfl | hd
    · exact nomatch ha
    · exact h.captured d (hrest d hd) a ha
  · intro d hd m hm
    rcases List.mem_cons.mp (hp'.mem_iff.mp hd) with rfl | hd
    · exact nomatch hm
    · have hid' := hout d hd d.id (by simp [Call.halves, hm])
      have hm' := hout d hd m (by simp [Call.halves, hm])
      obtain ⟨hx, hy⟩ := h.crossed d (hrest d hd) m hm
      exact ⟨(swap_of_ne s.connList hid'.1 hid'.2).trans hx,
        (swap_of_ne s.connList hm'.1 hm'.2).trans hy⟩
  · exact disjoint_set hc h.disjoint (fun e _ => List.disjoint_nil_left _)

theorem Tracked.save (h : Tracked cfg ip s) (hc : s.calls[g]? = some c)
    (hs : s.save cfg g c = .ok s') : Tracked cfg ip s' := by
  obtain ⟨conn, res, hpoint, -, rfl⟩ := State.save_ok hs
  have hp := calls_perm hc
  have hrest : ∀ d ∈ s.calls.eraseIdx g, d ∈ s.calls := fun d hd => List.mem_of_mem_eraseIdx hd
  have hconn : conn = s.nodeIp c.id :=
    h.captured c (List.mem_of_getElem? hc) conn (by simp only [Call.captured, hpoint])
  refine ⟨⟨?_, ?_, h.perm⟩, fun d hd => h.captured d (hrest d hd),
    fun d hd => h.crossed d (hrest d hd), h.disjoint.sublist (List.eraseIdx_sublist ..)⟩
  · intro i hi a v hv
    by_cases hic : i = c.id
    · subst hic
      simp only [Function.update_self, Option.some.injEq, Prod.mk.injEq] at hv ⊢
      obtain ⟨rfl, rfl⟩ := hv
      exact ⟨hconn, copyInto_signEq _ _⟩
    · simp only [Function.update_of_ne hic] at hv ⊢
      exact h.stored i hi a v hv
  · intro i hi hni
    refine h.conn i hi ?_
    intro hmem
    rcases (mem_halved_iff hp).mp hmem with hmem | hmem
    · simp [Call.halves, hpoint] at hmem
    · exact hni hmem

theorem Tracked.spawn (h : Tracked cfg ip s) {b : Bool} {ids : List ℕ}
    (hcalls : s'.calls = s.calls ++ ids.map (Call.start b)) (hip : s'.nodeIp = s.nodeIp)
    (hconn : s'.connList = s.connList)
    (hstored : ∀ i r, s'.stored i = some r → s.stored i = some r ∧ s'.coord i = s.coord i) :
    Tracked cfg ip s' := by
  have hmem : ∀ d ∈ s'.calls, d ∈ s.calls ∨ ∃ i, d = Call.start b i := by
    intro d hd
    rw [hcalls, List.mem_append, List.mem_map] at hd
    exact hd.imp_right fun ⟨i, _, hi⟩ => ⟨i, hi.symm⟩
  refine ⟨⟨?_, ?_, hip ▸ h.perm⟩, ?_, ?_, ?_⟩
  · intro i hi a v hv
    obtain ⟨hs, hco⟩ := hstored i _ hv
    rw [hip, hco]
    exact h.stored i hi a v hs
  · intro i hi hni
    rw [hip, hconn]
    refine h.conn i hi (fun hmem => hni ?_)
    rw [State.halved, hcalls, List.flatMap_append]
    exact List.mem_append_left _ hmem
  · intro d hd a ha
    rw [hip]
    rcases hmem d hd with hd | ⟨i, rfl⟩
    · exact h.captured d hd a ha
    · exact nomatch ha
  · intro d hd m hm
    rw [hip, hconn]
    rcases hmem d hd with hd | ⟨i, rfl⟩
    · exact h.crossed d hd m hm
    · exact nomatch hm
  · rw [hcalls, List.pairwise_append]
    have hnil : ∀ d ∈ ids.map (Call.start (A := A) (F := F) b), d.halves = [] := by
      intro d hd
      obtain ⟨i, -, rfl⟩ := List.mem_map.mp hd
      rfl
    refine ⟨h.disjoint, List.pairwise_of_forall_mem_list fun c hc d _ => ?_, fun c _ d hd => ?_⟩
    · rw [hnil c hc]
      exact List.disjoint_nil_left _
    · rw [hnil d hd]
      exact List.disjoint_nil_right _

theorem Tracked.step [Zero F] (h : Tracked cfg ip s) {a : Label F} (hcare : Careful s a)
    (hs : step cfg s a = .ok s') : Tracked cfg ip s' := by
  cases a with
  | build =>
    obtain ⟨-, rfl⟩ := State.build_ok hs
    obtain ⟨ids, hcalls, hip, hconn, -, hstored⟩ := State.continueBuild_frame cfg
      { s.resetCoordinateData cfg with isCoordDone := false } 0
    refine h.spawn hcalls hip hconn ?_
    intro i r hr
    rw [hstored] at hr
    cases hr
  | update nodeList =>
    obtain ⟨-, -, rfl⟩ := State.update_ok hs
    simp only [State.awaitUpdate, State.finish]
    split
    all_goals
      refine h.spawn rfl rfl rfl ?_
      intro i r hr
      dsimp only at hr
      split at hr
      · cases hr
      · exact ⟨hr, rfl⟩
  | check =>
    obtain ⟨-, -, rfl⟩ := State.check_ok hs
    exact h.spawn (show _ = s.calls ++ [0].map (Call.start true) from rfl) rfl rfl
      (fun i r hr => ⟨hr, rfl⟩)
  | signal =>
    obtain ⟨signals, -, ⟨i, -, rfl⟩ | ⟨k, -, rfl⟩ | ⟨k, -, rfl⟩ | ⟨-, rfl⟩⟩ := State.signal_ok hs
    · obtain ⟨ids, hcalls, hip, hconn, hcoord, hstored⟩ := State.continueBuild_frame cfg
        { s with signals := signals, nodeCount := s.nodeCount + 1 } (i + 1)
      exact h.spawn hcalls hip hconn (fun i r hr => ⟨hstored ▸ hr, congrFun hcoord i⟩)
    · simp only [State.awaitRest, State.finish]
      split <;> exact ⟨⟨h.stored, h.conn, h.perm⟩, h.captured, h.crossed, h.disjoint⟩
    · simp only [State.awaitUpdate, State.finish]
      split <;> exact ⟨⟨h.stored, h.conn, h.perm⟩, h.captured, h.crossed, h.disjoint⟩
    · exact ⟨⟨h.stored, h.conn, h.perm⟩, h.captured, h.crossed, h.disjoint⟩
  | send g =>
    obtain ⟨c, hc, hs⟩ := onCall_ok hs
    obtain ⟨hpoint, -, rfl⟩ := State.send_ok hs
    exact h.goOn hc (by simp only [Call.halves, hpoint]) rfl (fun a ha => by cases ha)
  | listen g =>
    obtain ⟨c, hc, hs⟩ := onCall_ok hs
    obtain ⟨hpoint, hid, rfl⟩ := State.listen_ok hs
    exact h.listen hc hid hpoint (hcare c hc)
  | recieve g res =>
    obtain ⟨c, hc, hs⟩ := onCall_ok hs
    exact h.recieve hc hs
  | swapIp g n =>
    obtain ⟨c, hc, hs⟩ := onCall_ok hs
    obtain ⟨hpoint, ⟨-, rfl⟩ | ⟨hsck, hid, hn, rfl⟩⟩ := State.swapIp_ok hs
    · exact h.goOn hc (by simp only [Call.halves, hpoint]) rfl (fun a ha => by cases ha)
    · refine h.swapIp hc hpoint hid hn ((hcare c hc).resolve_left ?_)
      rw [hsck]
      exact Bool.false_ne_true
  | swapConn g =>
    obtain ⟨c, hc, hs⟩ := onCall_ok hs
    obtain ⟨n, hpoint, rfl⟩ := State.swapConn_ok hs
    exact h.swapConn hc hpoint
  | save g =>
    obtain ⟨c, hc, hs⟩ := onCall_ok hs
    exact h.save hc hs

theorem Tracked.init [Zero F] (cfg : Config) (ip : ℕ → A) : Tracked cfg ip (init (F := F) cfg ip) where
  stored := fun _ _ _ _ hv => nomatch hv
  conn := fun _ _ _ => rfl
  perm := .refl _
  captured := fun _ hd => nomatch hd
  crossed := fun _ hd => nomatch hd
  disjoint := .nil

/-- In every run whose exchanges concern untouched nodes, coordinates, addresses and connections
belong together. -/
theorem coordinates_stay [Zero F] {as : List (Label F)}
    (h : Run (Validator.step cfg) Careful (Validator.init cfg ip) as s) : Placed cfg ip s :=
  (h.invariant (Tracked cfg ip) (Tracked.init cfg ip)
    fun _ _ _ hI hok hs => hI.step hok hs).toPlaced

end Step

/-! ### Runs -/

instance (s : State A F) (others : List (Call A F)) (c : Call A F) (n : ℕ) [DecidableEq A] [DecidableEq F] :
    Decidable (s.Untouched others c n) :=
  inferInstanceAs (Decidable (_ ∧ _ ∧ _))

instance [DecidableEq A] [DecidableEq F] (s : State A F) (a : Label F) : Decidable (Careful s a) :=
  match a with
  | .swapIp g _ => inferInstanceAs (Decidable (∀ c ∈ s.calls[g]?, _))
  | .listen g => inferInstanceAs (Decidable (∀ c ∈ s.calls[g]?, _))
  | .build | .update _ | .check | .signal | .send _ | .recieve _ _ | .swapConn _ | .save _ =>
    .isTrue trivial

def three : Config := ⟨3, 1, 1, 1⟩

def reply (x : ℤ) : PeerResponse ℤ := ⟨false, [], [x], [0, 0]⟩

def refusal : PeerResponse ℤ := ⟨true, [], [], []⟩

def earlyError : List (Label ℤ) :=
  [.build, .send 0, .listen 0, .recieve 0 refusal, .swapIp 0 2, .swapConn 0,
    .send 0, .listen 0, .recieve 0 (reply 5), .save 0, .signal]

theorem coordinates_stay_after_exchange :
    ∃ s, Run (step three) Careful (init three (fun i => 100 + i)) earlyError s ∧
      s.stored 0 = some (102, [5]) ∧ Placed three (fun i => 100 + i) s := by
  obtain ⟨s, hrun, hP⟩ := Run.exists_of_exec (step three) (init three (fun i => 100 + i)) earlyError
    (fun s => decide (s.stored 0 = some (102, [5])))
    (show Guarded (step three) Careful (init three (fun i => 100 + i)) earlyError by decide +kernel)
    (by decide +kernel)
  exact ⟨s, hrun, of_decide_eq_true hP, coordinates_stay hrun⟩

def lateError : List (Label ℤ) :=
  [.build, .send 0, .listen 0, .recieve 0 (reply 0), .save 0, .signal,
    .send 1, .listen 1, .recieve 1 (reply 7), .save 1,
    .send 0, .listen 0, .recieve 0 refusal, .swapIp 0 2, .swapConn 0]

def crossedReply : List (Label ℤ) :=
  [.build, .send 0, .listen 0, .recieve 0 (reply 0), .save 0, .signal,
    .send 1, .listen 1,
    .send 0, .listen 0, .recieve 0 refusal, .swapIp 0 2, .swapConn 0,
    .recieve 1 (reply 7), .save 1]

/-- The exchange gives node 2 the address of a peer that has not reported its coordinate, whether
that coordinate was stored before the exchange or is stored after it. -/
theorem coordinate_of_another_peer :
    (∃ s, Run (step three) always (init three (fun i => 100 + i)) lateError s ∧
      s.stored 2 = some (102, [7]) ∧ s.nodeIp 2 = 101) ∧
    ∃ s, Run (step three) always (init three (fun i => 100 + i)) crossedReply s ∧
      s.stored 2 = some (102, [7]) ∧ s.nodeIp 2 = 101 := by
  constructor
  · obtain ⟨s, hrun, hP⟩ := Run.exists_of_exec (step three) (init three (fun i => 100 + i)) lateError
      (fun s => decide (s.stored 2 = some (102, [7]) ∧ s.nodeIp 2 = 101))
      (Guarded.always _) (by decide +kernel)
    exact ⟨s, hrun, of_decide_eq_true hP⟩
  · obtain ⟨s, hrun, hP⟩ := Run.exists_of_exec (step three) (init three (fun i => 100 + i))
      crossedReply (fun s => decide (s.stored 2 = some (102, [7]) ∧ s.nodeIp 2 = 101))
      (Guarded.always _) (by decide +kernel)
    exact ⟨s, hrun, of_decide_eq_true hP⟩

end Mp2bs.Validator
