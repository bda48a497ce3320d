import QuorumBlockProcessor.Lemmas.Replay

/-!
# レコードと索引の対応

`ChainStep` の実行のどの状態でも、`DB_MINED_COMMITMENT` のレコードと逆順の高さの索引の項目は
一対一に対応する（`connectBlocks_consistent`）。`Verify` が負の `quorumIndex` を受け入れると、
前の周期の二つのクォーラムが同じ平らなキーに書かれ、一方が他方を上書きする。
-/

namespace QuorumBlockProcessor

variable {env : Env}

/-! ## 取り出し -/

theorem multimapEmplace_perm (qc : FinalCommitment) :
    ∀ l : List FinalCommitment, (multimapEmplace qc l).Perm (qc :: l)
  | [] => .refl _
  | c :: cs => by
    unfold multimapEmplace
    split
    · exact .refl _
    · exact ((multimapEmplace_perm qc cs).cons c).trans (.swap qc c cs)

theorem countType_multimapEmplace (qc : FinalCommitment) (l : List FinalCommitment)
    (t : LLMQType) :
    countType (multimapEmplace qc l) t = countType l t + if qc.llmqType = t then 1 else 0 := by
  unfold countType
  rw [(multimapEmplace_perm qc l).countP_eq, List.countP_cons]
  simp

theorem getCommitmentsFromTxs_count_le_one {pindex : BlockIndex} {t : LLMQType}
    {p : LLMQParams} (hp : env.getLLMQParams t = some p)
    (hrot : env.isQuorumRotationEnabled p pindex = false) :
    ∀ {vtx : List Transaction} {ret qcs : List FinalCommitment},
    getCommitmentsFromTxs env pindex vtx ret = .ok qcs → countType ret t ≤ 1 →
      countType qcs t ≤ 1
  | [], _, _, h, hc => by cases h; exact hc
  | tx :: vtx, ret, qcs, h, hc => by
    unfold getCommitmentsFromTxs at h
    split at h
    · split at h
      · cases h
      rename_i pl _
      split at h
      · cases h
      rename_i p' hp'
      split at h
      · cases h
      rename_i hdup
      refine getCommitmentsFromTxs_count_le_one hp hrot h ?_
      rw [countType_multimapEmplace]
      split
      · rename_i heq
        rw [heq, hp, Option.some.injEq] at hp'
        subst hp'
        simp only [hrot, Bool.not_false, Bool.true_and, heq, decide_eq_true_eq,
          not_not] at hdup
        omega
      · simpa using hc
    · exact getCommitmentsFromTxs_count_le_one hp hrot h hc

theorem getCommitmentsFromBlock_count_le_one {block : Block} {pindex : BlockIndex}
    {qcs : List FinalCommitment} (h : getCommitmentsFromBlock env block pindex = .ok qcs)
    {t : LLMQType} {p : LLMQParams} (hp : env.getLLMQParams t = some p)
    (hrot : env.isQuorumRotationEnabled p pindex = false) : countType qcs t ≤ 1 := by
  unfold getCommitmentsFromBlock at h
  split at h
  · cases h
  rename_i ret hret
  split at h
  · cases h
  · cases h
    exact getCommitmentsFromTxs_count_le_one hp hrot hret (by simp [countType])

/-! ## 一つのブロックのキー -/

theorem nodup_map_llmqType :
    ∀ {l : List FinalCommitment}, (∀ qc ∈ l, countType l qc.llmqType ≤ 1) →
      (l.map (·.llmqType)).Nodup
  | [], _ => List.nodup_nil
  | a :: l, h => by
    have ha := h a (.head _)
    simp only [countType, List.countP_cons, beq_self_eq_true, ite_true] at ha
    refine List.nodup_cons.2 ⟨fun hmem => ?_, nodup_map_llmqType fun qc hq => ?_⟩
    · obtain ⟨y, hy, hya⟩ := List.mem_map.1 hmem
      have hpos : 0 < l.countP (·.llmqType == a.llmqType) :=
        List.countP_pos_iff.2 ⟨y, hy, beq_iff_eq.2 hya⟩
      omega
    · exact (List.Sublist.countP_le _ (List.sublist_cons_self a l)).trans (h qc (.tail _ hq))

theorem nodup_map_of_imp {α β γ : Type} {f : α → β} {g : α → γ} {l : List α}
    (hg : (l.map g).Nodup) (hfg : ∀ x ∈ l, ∀ y ∈ l, f x = f y → g x = g y) :
    (l.map f).Nodup :=
  (hg.of_map g).map_on fun x hx y hy hf => List.inj_on_of_nodup_map hg hx hy (hfg x hx y hy hf)

/-! ## 書かれるもの -/

/-- 回転 `rot` に従って、高さ `nHeight` のブロックで採掘したコミットメント `qc` の索引の項目。 -/
def indexEntry (s : State) (rot : Bool) (qc : FinalCommitment) (nHeight : Nat) : Option Nat :=
  if rot then
    s.evoDb.minedByInversedHeightIndexed
      (buildInversedHeightKeyIndexed qc.llmqType nHeight qc.quorumIndex)
  else s.evoDb.minedByInversedHeight (buildInversedHeightKey qc.llmqType nHeight)

section written

variable {chain : Chain} {nHeight blockHash : Nat} {fBLSChecks : Bool}

theorem processCommitment_written {s s' : State} {qc : FinalCommitment}
    (h : processCommitment env chain s nHeight blockHash qc false fBLSChecks = (.ok (), s'))
    (hnull : env.isNull qc = false) :
    ∃ base, env.lookupBlockIndex qc.quorumHash = some base ∧
      s'.evoDb.minedCommitment (qc.llmqType, qc.quorumHash) = some (qc, blockHash) ∧
      indexEntry s' (rotationAtBase env qc) qc nHeight = some base.nHeight := by
  obtain ⟨p, hres, ⟨hn, -, -⟩ | ⟨-, -, -, -, ⟨hj, -⟩ | ⟨-, s₁, base, -, hb, rfl⟩⟩⟩ :=
    processCommitment_ok h
  · rw [hn] at hnull; cases hnull
  · cases hj
  have htype := Env.getLLMQParams_type hres.params
  refine ⟨base, hb, by simp [commitToStore, htype], ?_⟩
  simp only [indexEntry, rotationAtBase, hres.params, hb, commitToStore, htype]
  cases env.isQuorumRotationEnabled p base <;> simp

theorem processCommitments_written : ∀ {qcs : List FinalCommitment} {s s' : State},
    processCommitments env chain nHeight blockHash false fBLSChecks qcs s = (.ok (), s') →
    (slotsOf env qcs).Nodup → (flatKeysOf env qcs nHeight (rotationAtBase env)).Nodup →
    (indexedKeysOf env qcs nHeight (rotationAtBase env)).Nodup →
    ∀ qc ∈ qcs, env.isNull qc = false →
      ∃ base, env.lookupBlockIndex qc.quorumHash = some base ∧
        s'.evoDb.minedCommitment (qc.llmqType, qc.quorumHash) = some (qc, blockHash) ∧
        indexEntry s' (rotationAtBase env qc) qc nHeight = some base.nHeight
  | [], _, _, _, _, _, _, qc, hq, _ => absurd hq (List.not_mem_nil qc)
  | qc₀ :: qcs, s, s', h, hS, hF, hI, qc, hq, hnull => by
    unfold processCommitments at h
    split at h
    · cases h
    rename_i s₁ h₁
    rw [show qc₀ :: qcs = [qc₀] ++ qcs from rfl] at hS hF hI
    rw [slotsOf_append, List.nodup_append] at hS
    rw [flatKeysOf_append, List.nodup_append] at hF
    rw [indexedKeysOf_append, List.nodup_append] at hI
    rcases List.mem_cons.1 hq with rfl | hq
    · obtain ⟨base, hb, hr, he⟩ := processCommitment_written h₁ hnull
      have wf := processCommitments_frame h
      refine ⟨base, hb, ?_, ?_⟩
      · rw [wf.mined _ fun hk => hS.2.2 (by simp [slotsOf_singleton hnull]) hk, hr]
      · rw [← he]
        unfold indexEntry
        cases hrot : rotationAtBase env qc
        · exact wf.flat _ fun hk => hF.2.2 (by simp [flatKeysOf_singleton _ _ hnull, hrot]) hk
        · exact wf.indexed _ fun hk => hI.2.2 (by simp [indexedKeysOf_singleton _ _ hnull, hrot]) hk
    · exact processCommitments_written h hS.2.1 hF.2.1 hI.2.1 qc hq hnull

end written

/-- 成功した `ProcessBlock(fJustCheck = false)` は、書くキーが互いに違えば、取り出した null で
ないどのコミットメントのレコードと索引の項目も書く。 -/
theorem processBlock_written {chain : Chain} {s s' : State} {block : Block} {pindex : BlockIndex}
    {fBLSChecks : Bool} {qcs : List FinalCommitment}
    (hp : processBlock env chain s block pindex false fBLSChecks = (.ok (), s'))
    (hdip : env.dip0003Height ≤ pindex.nHeight)
    (hget : getCommitmentsFromBlock env block pindex = .ok qcs)
    (hF : (flatKeysOf env qcs pindex.nHeight (rotationAtBase env)).Nodup)
    (hI : (indexedKeysOf env qcs pindex.nHeight (rotationAtBase env)).Nodup) :
    ∀ qc ∈ qcs, env.isNull qc = false →
      ∃ base, env.lookupBlockIndex qc.quorumHash = some base ∧
        s'.evoDb.minedCommitment (qc.llmqType, qc.quorumHash) = some (qc, block.hash) ∧
        indexEntry s' (rotationAtBase env qc) qc pindex.nHeight = some base.nHeight := by
  dsimp only [processBlock] at hp
  rw [if_neg (Nat.not_lt.2 hdip), hget] at hp
  dsimp only at hp
  split at hp
  · cases hp
  split at hp
  · cases hp
  rename_i s₂ hcomm
  cases hp
  have := processCommitments_written hcomm ((processCommitments_ok hcomm).2.2 rfl) hF hI
  exact this

section block

variable (hrot : env.RotationPerCycle) (hidx : env.VerifyIndexNonneg) {chain : Chain}
  (hact : env.ActiveChain chain) (hne : chain ≠ [])

include hrot hidx hact hne in
theorem blockKeys_nodup {block : Block} {qcs : List FinalCommitment} {fBLSChecks : Bool}
    (hget : getCommitmentsFromBlock env block (BlockIndex.child chain block.hash) = .ok qcs)
    (hchk : ∀ qc ∈ qcs, CommitmentChecked env chain chain.length fBLSChecks qc)
    (hS : (slotsOf env qcs).Nodup) :
    (flatKeysOf env qcs chain.length (rotationAtBase env)).Nodup ∧
      (indexedKeysOf env qcs chain.length (rotationAtBase env)).Nodup := by
  constructor
  · have hl : ((qcs.filter fun qc => !env.isNull qc && !rotationAtBase env qc).map
        (·.llmqType)).Nodup := by
      refine nodup_map_llmqType fun qc hq => ?_
      obtain ⟨hmem, hP⟩ := List.mem_filter.1 hq
      simp only [Bool.and_eq_true, Bool.not_eq_true'] at hP
      obtain ⟨p, hres, -⟩ := (hchk qc hmem).resolved
      have hr : env.isQuorumRotationEnabled p (BlockIndex.child chain block.hash) = false := by
        have := rotationAtBase_eq_rotationAt hrot hidx hact hne block.hash (hchk qc hmem) hP.1
        rw [hP.2] at this
        simpa [rotationAt, hres.params] using this.symm
      exact ((List.filter_sublist _).countP_le _).trans
        (getCommitmentsFromBlock_count_le_one hget hres.params hr)
    have hinj : Function.Injective fun t : LLMQType => buildInversedHeightKey t chain.length :=
      fun _ _ h => (Prod.mk.inj h).1
    have := hl.map hinj
    rwa [List.map_map] at this
  · have hsub : (qcs.filter fun qc => !env.isNull qc && rotationAtBase env qc).Sublist
        (qcs.filter fun qc => !env.isNull qc) :=
      List.monotone_filter_right _ fun qc h => by simp_all
    refine nodup_map_of_imp ((hsub.map _).nodup hS) fun x hx y hy hxy => ?_
    simp only [buildInversedHeightKeyIndexed, Prod.mk.injEq] at hxy
    obtain ⟨px, hrx, -⟩ := (hchk x (List.mem_filter.1 hx).1).resolved
    obtain ⟨py, hry, -⟩ := (hchk y (List.mem_filter.1 hy).1).resolved
    have hpp : px = py := by
      have hy' := hry.params
      rw [← hxy.1] at hy'
      exact Option.some.inj (hrx.params.symm.trans hy')
    subst hpp
    have ex := hrx.resolved
    have ey := hry.resolved
    simp only [expectedQuorumHash, if_neg hne] at ex ey
    rw [Prod.mk.injEq]
    exact ⟨hxy.1, ex.symm.trans (hxy.2.1 ▸ ey)⟩

end block

/-! ## レコードと索引の対応 -/

/-- チェーン `chain` の上のレコードと索引の項目の対応。
* どのレコード `(t, h) ↦ (qc, bh)` も、`qc` の型とハッシュが `t` と `h` で、`bh` はチェーンの
  高さ `m` のブロック。`h` の基のブロックは `m` より低く、その高さが `qc` の高さ `m` の索引の
  項目の値。
* どの索引の項目も、あるレコードの項目で、値はその高さより低い。
* 二つのレコードの項目が同じなら、同じレコード。 -/
structure StoreConsistent (env : Env) (chain : Chain) (s : State) : Prop where
  record : ∀ t h qc bh, s.evoDb.minedCommitment (t, h) = some (qc, bh) →
    qc.llmqType = t ∧ qc.quorumHash = h ∧ ∃ m base, chain[m]? = some bh ∧
      env.lookupBlockIndex h = some base ∧ base.nHeight < m ∧
      indexEntry s (rotationAtBase env qc) qc m = some base.nHeight
  flat : ∀ t x v, s.evoDb.minedByInversedHeight (t, x) = some v →
    ∃ h qc bh m, s.evoDb.minedCommitment (t, h) = some (qc, bh) ∧ chain[m]? = some bh ∧
      rotationAtBase env qc = false ∧ x = htobe32 (inversedHeight m) ∧ v < m
  indexed : ∀ t qi x v, s.evoDb.minedByInversedHeightIndexed (t, qi, x) = some v →
    ∃ h qc bh m, s.evoDb.minedCommitment (t, h) = some (qc, bh) ∧ chain[m]? = some bh ∧
      rotationAtBase env qc = true ∧ qi = qc.quorumIndex ∧ x = htobe32 (inversedHeight m) ∧ v < m
  unique : ∀ t h₁ h₂ qc₁ qc₂ bh, s.evoDb.minedCommitment (t, h₁) = some (qc₁, bh) →
    s.evoDb.minedCommitment (t, h₂) = some (qc₂, bh) →
    rotationAtBase env qc₁ = rotationAtBase env qc₂ →
    (rotationAtBase env qc₁ = true → qc₁.quorumIndex = qc₂.quorumIndex) → h₁ = h₂

namespace StoreConsistent

variable {chain : Chain}

theorem empty : StoreConsistent env chain State.empty :=
  ⟨fun _ _ _ _ h => (nomatch h), fun _ _ _ h => (nomatch h), fun _ _ _ _ h => (nomatch h),
    fun _ _ _ _ _ _ h => (nomatch h)⟩

theorem of_sameView {s r : State} (h : StoreConsistent env chain r) (hs : s.SameView r) :
    StoreConsistent env chain s := by
  have he : ∀ rot qc m, indexEntry s rot qc m = indexEntry r rot qc m := by
    intro rot qc m; simp only [indexEntry, hs.flat, hs.indexed]
  refine ⟨fun t h' qc bh hr => ?_, fun t x v hv => ?_, fun t qi x v hv => ?_, ?_⟩
  · simpa only [he] using h.record t h' qc bh (hs.mined ▸ hr)
  · simpa only [hs.mined] using h.flat t x v (hs.flat ▸ hv)
  · simpa only [hs.mined] using h.indexed t qi x v (hs.indexed ▸ hv)
  · intro t h₁ h₂ qc₁ qc₂ bh hr₁ hr₂
    exact h.unique t h₁ h₂ qc₁ qc₂ bh (hs.mined ▸ hr₁) (hs.mined ▸ hr₂)

theorem getElem?_append_of_some {l l' : List Nat} {i x : Nat} (h : l[i]? = some x) :
    (l ++ l')[i]? = some x := by
  rw [List.getElem?_append_left (List.getElem?_eq_some_iff.1 h).1]; exact h

theorem ancestor_isSome {v m : Nat} (hv : v < m) {x : Nat} (hx : x = htobe32 (inversedHeight m))
    (hm : m < 4294967296) {pindex : BlockIndex} {m' : Nat}
    (hx' : x = htobe32 (inversedHeight m')) (hle : m' ≤ pindex.nHeight) :
    (pindex.getAncestor v).isSome := by
  have := inversedHeightKey_mod (hx.symm.trans hx')
  rw [Nat.mod_eq_of_lt hm] at this
  have := Nat.mod_le m' 4294967296
  simp only [BlockIndex.getAncestor]
  rw [if_pos (by omega)]
  rfl

end StoreConsistent

/-! ## 一つのブロックをつなぐ -/

/-- 先端の子 `bh` を高さ `chain.length` につないだ `ProcessBlock` の効果：`qcs` の null でない
コミットメントのクォーラムはまだ採掘されておらず、それぞれのレコードと索引の項目が書かれ、
そのキーは互いに違い、他は変わらない。 -/
structure BlockWrite (env : Env) (chain : Chain) (bh : Nat) (qcs : List FinalCommitment)
    (s s' : State) : Prop where
  frame : WriteFrame env qcs chain.length (rotationAtBase env) s s'
  fresh : ∀ k ∈ slotsOf env qcs, s.evoDb.minedCommitment k = none
  written : ∀ qc ∈ qcs, env.isNull qc = false → ∃ base,
    env.lookupBlockIndex qc.quorumHash = some base ∧ base.nHeight < chain.length ∧
      s'.evoDb.minedCommitment (qc.llmqType, qc.quorumHash) = some (qc, bh) ∧
      indexEntry s' (rotationAtBase env qc) qc chain.length = some base.nHeight
  flat_nodup : (flatKeysOf env qcs chain.length (rotationAtBase env)).Nodup
  indexed_nodup : (indexedKeysOf env qcs chain.length (rotationAtBase env)).Nodup

theorem processBlock_blockWrite (hrot : env.RotationPerCycle) (hidx : env.VerifyIndexNonneg)
    {chain : Chain} (hact : env.ActiveChain chain) (hne : chain ≠ []) {s s' : State}
    {block : Block} {fBLSChecks : Bool} (hcoh : s.CacheCoherent)
    (hp : processBlock env chain s block (BlockIndex.child chain block.hash) false fBLSChecks =
      (.ok (), s')) :
    ∃ qcs, BlockWrite env chain block.hash qcs s s' := by
  have hm := BlockIndex.child_nHeight chain block.hash
  by_cases hdip : (BlockIndex.child chain block.hash).nHeight < env.dip0003Height
  · dsimp only [processBlock] at hp
    rw [if_pos hdip] at hp
    cases hp
    exact ⟨[], .of_sameView ⟨rfl, rfl, rfl, rfl⟩, by simp [slotsOf], by simp,
      by simp [flatKeysOf], by simp [indexedKeysOf]⟩
  obtain ⟨qcs, hget, -, hchk, hfresh, hnd⟩ := processBlock_ok_spec hp (Nat.not_lt.1 hdip) hne
  obtain ⟨-, qcs', hget', -, -, -, wf⟩ := processBlock_frame hp
  obtain rfl := hget' qcs hget
  rw [hm] at hchk wf
  obtain ⟨hF, hI⟩ := blockKeys_nodup hrot hidx hact hne hget hchk (hnd rfl)
  have hw := processBlock_written hp (Nat.not_lt.1 hdip) hget (hm ▸ hF) (hm ▸ hI)
  refine ⟨qcs, wf, fun k hk => ?_, fun qc hq hn => ?_, hF, hI⟩
  · have := hfresh k hk
    rw [State.minedView_of_coherent hcoh] at this
    simpa using this
  · obtain ⟨p, hres, -⟩ := (hchk qc hq).resolved
    obtain ⟨base, hb, hr, he⟩ := hw qc hq hn
    obtain ⟨base', hb', -, hlt, -⟩ := hres.base hact hne
    rw [hb, Option.some.injEq] at hb'
    subst hb'
    exact ⟨base, hb, hlt, hr, hm ▸ he⟩

namespace BlockWrite

variable {chain : Chain} {bh : Nat} {qcs : List FinalCommitment} {s s' : State}

theorem indexEntry_below (hw : BlockWrite env chain bh qcs s s')
    (hint : chain.length < 4294967296) {m : Nat} (hm : m < chain.length) (rot : Bool)
    (qc : FinalCommitment) : indexEntry s' rot qc m = indexEntry s rot qc m := by
  unfold indexEntry
  cases rot
  · refine hw.frame.flat _ fun hk => ?_
    obtain ⟨t, e⟩ := mem_flatKeysOf hk
    simp only [buildInversedHeightKey, Prod.mk.injEq] at e
    have := inversedHeightKey_inj (by omega) hint e.2
    omega
  · refine hw.frame.indexed _ fun hk => ?_
    obtain ⟨t, qi, e⟩ := mem_indexedKeysOf hk
    simp only [buildInversedHeightKeyIndexed, Prod.mk.injEq] at e
    have := inversedHeightKey_inj (by omega) hint e.2.2
    omega

theorem record_cases (hw : BlockWrite env chain bh qcs s s') {t : LLMQType} {h : Nat}
    {qc : FinalCommitment} {b : Nat} (hr : s'.evoDb.minedCommitment (t, h) = some (qc, b)) :
    (qc ∈ qcs ∧ env.isNull qc = false ∧ qc.llmqType = t ∧ qc.quorumHash = h ∧ b = bh) ∨
      ((t, h) ∉ slotsOf env qcs ∧ s.evoDb.minedCommitment (t, h) = some (qc, b)) := by
  by_cases hk : (t, h) ∈ slotsOf env qcs
  · obtain ⟨qc₀, hq₀, e⟩ := List.mem_map.1 hk
    obtain ⟨hmem, hn⟩ := List.mem_filter.1 hq₀
    have hn' : env.isNull qc₀ = false := by simpa using hn
    obtain ⟨-, -, -, hr₀, -⟩ := hw.written qc₀ hmem hn'
    rw [e, hr, Option.some.injEq, Prod.mk.injEq] at hr₀
    obtain ⟨rfl, rfl⟩ := hr₀
    simp only [Prod.mk.injEq] at e
    exact .inl ⟨hmem, hn', e.1, e.2, rfl⟩
  · exact .inr ⟨hk, hw.frame.mined _ hk ▸ hr⟩

end BlockWrite

namespace StoreConsistent

variable {chain : Chain} {bh : Nat} {qcs : List FinalCommitment} {s s' : State}
  (hs : StoreConsistent env chain s) (hw : BlockWrite env chain bh qcs s s')

include hs hw

theorem blockWrite_record (hint : chain.length < 4294967296) :
    ∀ t h qc b, s'.evoDb.minedCommitment (t, h) = some (qc, b) →
      qc.llmqType = t ∧ qc.quorumHash = h ∧ ∃ m base, (chain ++ [bh])[m]? = some b ∧
        env.lookupBlockIndex h = some base ∧ base.nHeight < m ∧
        indexEntry s' (rotationAtBase env qc) qc m = some base.nHeight := by
  intro t h qc b hr
  rcases hw.record_cases hr with ⟨hq, hn, rfl, rfl, rfl⟩ | ⟨-, ho⟩
  · obtain ⟨base, hb, hlt, -, he⟩ := hw.written qc hq hn
    exact ⟨rfl, rfl, chain.length, base, List.getElem?_concat_length _ _, hb, hlt, he⟩
  · obtain ⟨ht, hh, m, base, hm, hb, hlt, he⟩ := hs.record t h qc b ho
    have hm' := (List.getElem?_eq_some_iff.1 hm).1
    exact ⟨ht, hh, m, base, getElem?_append_of_some hm, hb, hlt,
      (hw.indexEntry_below hint hm' _ _).trans he⟩

theorem blockWrite_flat : ∀ t x v, s'.evoDb.minedByInversedHeight (t, x) = some v →
    ∃ h qc b m, s'.evoDb.minedCommitment (t, h) = some (qc, b) ∧ (chain ++ [bh])[m]? = some b ∧
      rotationAtBase env qc = false ∧ x = htobe32 (inversedHeight m) ∧ v < m := by
  intro t x v hv
  by_cases hk : (t, x) ∈ flatKeysOf env qcs chain.length (rotationAtBase env)
  · obtain ⟨qc, hq, e⟩ := List.mem_map.1 hk
    obtain ⟨hmem, hP⟩ := List.mem_filter.1 hq
    simp only [Bool.and_eq_true, Bool.not_eq_true'] at hP
    obtain ⟨base, -, hlt, hr, he⟩ := hw.written qc hmem hP.1
    simp only [indexEntry, hP.2, Bool.false_eq_true, ite_false] at he
    simp only [buildInversedHeightKey, Prod.mk.injEq] at e
    obtain ⟨rfl, rfl⟩ := e
    exact ⟨qc.quorumHash, qc, bh, chain.length, hr, List.getElem?_concat_length _ _, hP.2, rfl,
      Option.some.inj (hv.symm.trans he) ▸ hlt⟩
  · rw [hw.frame.flat _ hk] at hv
    obtain ⟨h, qc, b, m, hr, hm, hrot, hx, hlt⟩ := hs.flat t x v hv
    have hk' : (t, h) ∉ slotsOf env qcs := fun hk' => by rw [hw.fresh _ hk'] at hr; cases hr
    exact ⟨h, qc, b, m, hw.frame.mined _ hk' ▸ hr, getElem?_append_of_some hm, hrot, hx, hlt⟩

theorem blockWrite_indexed : ∀ t qi x v,
    s'.evoDb.minedByInversedHeightIndexed (t, qi, x) = some v →
    ∃ h qc b m, s'.evoDb.minedCommitment (t, h) = some (qc, b) ∧ (chain ++ [bh])[m]? = some b ∧
      rotationAtBase env qc = true ∧ qi = qc.quorumIndex ∧ x = htobe32 (inversedHeight m) ∧
      v < m := by
  intro t qi x v hv
  by_cases hk : (t, qi, x) ∈ indexedKeysOf env qcs chain.length (rotationAtBase env)
  · obtain ⟨qc, hq, e⟩ := List.mem_map.1 hk
    obtain ⟨hmem, hP⟩ := List.mem_filter.1 hq
    simp only [Bool.and_eq_true, Bool.not_eq_true'] at hP
    obtain ⟨base, -, hlt, hr, he⟩ := hw.written qc hmem (by simpa using hP.1)
    simp only [indexEntry, hP.2, ite_true] at he
    simp only [buildInversedHeightKeyIndexed, Prod.mk.injEq] at e
    obtain ⟨rfl, rfl, rfl⟩ := e
    exact ⟨qc.quorumHash, qc, bh, chain.length, hr, List.getElem?_concat_length _ _, hP.2, rfl,
      rfl, Option.some.inj (hv.symm.trans he) ▸ hlt⟩
  · rw [hw.frame.indexed _ hk] at hv
    obtain ⟨h, qc, b, m, hr, hm, hrot, hqi, hx, hlt⟩ := hs.indexed t qi x v hv
    have hk' : (t, h) ∉ slotsOf env qcs := fun hk' => by rw [hw.fresh _ hk'] at hr; cases hr
    exact ⟨h, qc, b, m, hw.frame.mined _ hk' ▸ hr, getElem?_append_of_some hm, hrot, hqi, hx, hlt⟩

theorem blockWrite_unique (hact : env.ActiveChain (chain ++ [bh])) :
    ∀ t h₁ h₂ qc₁ qc₂ b, s'.evoDb.minedCommitment (t, h₁) = some (qc₁, b) →
    s'.evoDb.minedCommitment (t, h₂) = some (qc₂, b) →
    rotationAtBase env qc₁ = rotationAtBase env qc₂ →
    (rotationAtBase env qc₁ = true → qc₁.quorumIndex = qc₂.quorumIndex) → h₁ = h₂ := by
  intro t h₁ h₂ qc₁ qc₂ b hr₁ hr₂ hrot hqi
  have hold : ∀ h qc, s.evoDb.minedCommitment (t, h) = some (qc, b) → b ≠ bh := by
    intro h qc ho hb
    obtain ⟨-, -, m, -, hm, -⟩ := hs.record t h qc b ho
    have hm' := (List.getElem?_eq_some_iff.1 hm).1
    subst hb
    have := hact.index_unique (getElem?_append_of_some hm) (List.getElem?_concat_length chain b)
    omega
  rcases hw.record_cases hr₁ with ⟨hq₁, hn₁, ht₁, hh₁, hb₁⟩ | ⟨-, ho₁⟩ <;>
    rcases hw.record_cases hr₂ with ⟨hq₂, hn₂, ht₂, hh₂, hb₂⟩ | ⟨-, ho₂⟩
  · have e : qc₁ = qc₂ := by
      cases hr : rotationAtBase env qc₁
      · exact List.inj_on_of_nodup_map hw.flat_nodup
          (List.mem_filter.2 ⟨hq₁, by simp [hn₁, hr]⟩)
          (List.mem_filter.2 ⟨hq₂, by simp [hn₂, ← hrot, hr]⟩)
          (by simp [buildInversedHeightKey, ht₁, ht₂])
      · exact List.inj_on_of_nodup_map hw.indexed_nodup
          (List.mem_filter.2 ⟨hq₁, by simp [hn₁, hr]⟩)
          (List.mem_filter.2 ⟨hq₂, by simp [hn₂, ← hrot, hr]⟩)
          (by simp [buildInversedHeightKeyIndexed, ht₁, ht₂, hqi hr])
    rw [← hh₁, ← hh₂, e]
  · exact absurd hb₁ (hold _ _ ho₂)
  · exact absurd hb₂ (hold _ _ ho₁)
  · exact hs.unique t h₁ h₂ qc₁ qc₂ b ho₁ ho₂ hrot hqi

theorem blockWrite (hact : env.ActiveChain (chain ++ [bh])) (hint : chain.length < 4294967296) :
    StoreConsistent env (chain ++ [bh]) s' :=
  ⟨blockWrite_record hs hw hint, blockWrite_flat hs hw, blockWrite_indexed hs hw,
    blockWrite_unique hs hw hact⟩

end StoreConsistent

/-! ## 実行 -/

/-- 空でない有効なチェーンの上で、レコードと索引の項目が対応し、キャッシュが evoDb と一致し、
索引の項目がどれもチェーンの高さより低い状態から再生すれば、対応は保たれる。 -/
theorem connectBlocks_consistent (hrot : env.RotationPerCycle) (hidx : env.VerifyIndexNonneg) :
    ∀ {chain : Chain} {bs : List (Block × Bool)} {s r : State},
    connectBlocks env chain bs s = some r → chain ≠ [] →
    env.ActiveChain (chain ++ bs.map (·.1.hash)) →
    (bs ≠ [] → (chain ++ bs.map (·.1.hash)).length ≤ 2147483648) →
    s.CacheCoherent → IndexBelow s chain.length → StoreConsistent env chain s →
    StoreConsistent env (chain ++ bs.map (·.1.hash)) r
  | _, [], _, _, h, _, _, _, _, _, hs => by cases h; simpa using hs
  | chain, (block, f) :: bs, s, r, h, hne, hact, hlen, hc, hb, hs => by
    simp only [connectBlocks] at h
    split at h
    · rename_i s₁ hp
      have hlen' := hlen (List.cons_ne_nil _ _)
      simp only [List.map_cons, List.length_append, List.length_cons, List.length_map] at hlen'
      have hact' : env.ActiveChain ((chain ++ [block.hash]) ++ bs.map (·.1.hash)) := by
        simpa using hact
      obtain ⟨qcs, hw⟩ := processBlock_blockWrite hrot hidx hact'.of_append.of_snoc hne hc hp
      have hs₁ := hs.blockWrite hw hact'.of_append (by omega)
      have := connectBlocks_consistent hrot hidx h (by simp) hact'
        (fun _ => by simp; omega) (processBlock_coherent hc hp) (hb.connect hp) hs₁
      simpa using this
    · cases h

/-- つなぐ一歩と切り離す一歩だけの実行のどの状態でも、レコードと索引の項目は一対一に対応し、
項目の値はその高さより低い。したがって項目の高さが `pindex` の高さ以下なら、
`pindex->GetAncestor(quorumHeight)` はある。回転は周期ごとに決まり、`Verify` は負の
`quorumIndex` を受け入れず、始まりのチェーンは空でない有効なものとする。 -/
theorem chainSteps_store_consistent (hrot : env.RotationPerCycle)
    (hidx : env.VerifyIndexNonneg) {chain₀ : Chain} (hact : env.ActiveChain chain₀)
    (hne : chain₀ ≠ []) {n : Node}
    (h : Relation.ReflTransGen (ChainStep env) (Node.init chain₀) n) :
    StoreConsistent env n.chain n.state ∧
    (∀ t x v, n.state.evoDb.minedByInversedHeight (t, x) = some v →
      ∀ (pindex : BlockIndex) (m : Nat), x = htobe32 (inversedHeight m) → m ≤ pindex.nHeight →
        (pindex.getAncestor v).isSome) ∧
    (∀ t qi x v, n.state.evoDb.minedByInversedHeightIndexed (t, qi, x) = some v →
      ∀ (pindex : BlockIndex) (m : Nat), x = htobe32 (inversedHeight m) → m ≤ pindex.nHeight →
        (pindex.getAncestor v).isSome) := by
  have inv := RunInv.of_steps hrot hidx hact hne h
  obtain ⟨r, hr, hsv, -⟩ := inv.replay
  have hc : StoreConsistent env n.chain n.state := by
    rw [inv.chain_eq]
    refine (connectBlocks_consistent hrot hidx hr hne (inv.chain_eq ▸ inv.active)
      (fun hc => inv.chain_eq ▸ inv.bound hc) .empty .empty .empty).of_sameView hsv
  by_cases hcn : n.connected = []
  · rw [hcn] at hr
    cases hr
    refine ⟨hc, fun t x v hv => ?_, fun t qi x v hv => ?_⟩
    · rw [hsv.flat] at hv; exact nomatch hv
    · rw [hsv.indexed] at hv; exact nomatch hv
  have hbound := inv.bound hcn
  refine ⟨hc, fun t x v hv pindex m hx hle => ?_, fun t qi x v hv pindex m hx hle => ?_⟩
  · obtain ⟨_, _, _, m', -, hm', -, hx', hlt⟩ := hc.flat t x v hv
    have := (List.getElem?_eq_some_iff.1 hm').1
    exact StoreConsistent.ancestor_isSome hlt hx' (by omega) hx hle
  · obtain ⟨_, _, _, m', -, hm', -, -, hx', hlt⟩ := hc.indexed t qi x v hv
    have := (List.getElem?_eq_some_iff.1 hm').1
    exact StoreConsistent.ancestor_isSome hlt hx' (by omega) hx hle

/-- 空の状態から `goodBlock` をつないだノード。 -/
def goodNode : Node := ⟨demoChain 5 ++ [106], [(goodBlock, true)], afterGoodBlock⟩

theorem goodNode_reachable :
    Relation.ReflTransGen (ChainStep demoEnv) (Node.init (demoChain 5)) goodNode :=
  .single (.connect goodBlock true (by decide) (by decide) (Prod.ext (by decide) rfl))

theorem chainSteps_store_consistent_demo :
    demoEnv.RotationPerCycle ∧ demoEnv.VerifyIndexNonneg ∧ demoEnv.ActiveChain (demoChain 5) ∧
      demoChain 5 ≠ [] ∧
      Relation.ReflTransGen (ChainStep demoEnv) (Node.init (demoChain 5)) goodNode ∧
      (StoreConsistent demoEnv goodNode.chain goodNode.state ∧
        (∀ t x v, goodNode.state.evoDb.minedByInversedHeight (t, x) = some v →
          ∀ (pindex : BlockIndex) (m : Nat), x = htobe32 (inversedHeight m) →
            m ≤ pindex.nHeight → (pindex.getAncestor v).isSome) ∧
        (∀ t qi x v, goodNode.state.evoDb.minedByInversedHeightIndexed (t, qi, x) = some v →
          ∀ (pindex : BlockIndex) (m : Nat), x = htobe32 (inversedHeight m) →
            m ≤ pindex.nHeight → (pindex.getAncestor v).isSome)) :=
  ⟨demoEnvWith_rotationPerCycle _, demoEnv_verifyIndexNonneg, demoChain_active _ (by decide),
    by decide, goodNode_reachable,
    chainSteps_store_consistent (demoEnvWith_rotationPerCycle _) demoEnv_verifyIndexNonneg
      (demoChain_active _ (by decide)) (by decide) goodNode_reachable⟩

/-- `demoVerifyAnyIndex` の構成で `negIndexBlock` をつなぐと、高さ 3 と 2 のクォーラムの二つの
レコードが、どちらも回転のない基のブロックのものとして平らなキー (1, 6) に書かれ、その値は後の
2 になる。高さ 3 のクォーラム 103 のレコードには、値が 3 の項目がない。 -/
theorem negIndex_records_share_flat_entry :
    (demoEnvWith demoVerifyAnyIndex).RotationPerCycle ∧
      Relation.ReflTransGen (ChainStep (demoEnvWith demoVerifyAnyIndex))
        (Node.init (demoChain 5))
        ⟨demoChain 5 ++ [106], [(negIndexBlock, true)], negIndexConnected⟩ ∧
      negIndexConnected.evoDb.minedCommitment (1, 103) =
        some (demoCommitment 103 (-1) 12, 106) ∧
      negIndexConnected.evoDb.minedCommitment (1, 102) =
        some (demoCommitment 102 (-2) 12, 106) ∧
      ((demoEnvWith demoVerifyAnyIndex).lookupBlockIndex 103).map (·.nHeight) = some 3 ∧
      rotationAtBase (demoEnvWith demoVerifyAnyIndex) (demoCommitment 103 (-1) 12) = false ∧
      negIndexConnected.evoDb.minedByInversedHeight (buildInversedHeightKey 1 6) = some 2 ∧
      negIndexConnected.evoDb.minedByInversedHeightIndexed
        (buildInversedHeightKeyIndexed 1 6 (-1)) = none :=
  ⟨demoEnvWith_rotationPerCycle _,
    .single (.connect negIndexBlock true (by decide) (by decide) (Prod.ext (by decide) rfl)),
    by decide, by decide, rfl, by decide, by decide, by decide⟩

end QuorumBlockProcessor
