import QuorumBlockProcessor.Lemmas.Replay

/-!
# 確かめるだけの処理と書く処理

有効な空でないチェーンの上で、`ProcessBlock(fJustCheck = false)` が受け入れるのは、
`fJustCheck = true` が受け入れ、null でないコミットメントのクォーラムが互いに異なるブロック
ちょうど。書く処理だけが、同じブロックの前のコミットメントで書いたクォーラムを採掘済みと見る。
-/

namespace QuorumBlockProcessor

variable {env : Env} {chain : Chain} {nHeight blockHash : Nat} {fBLSChecks : Bool}

/-- 一つのコミットメントについて、書く処理と確かめるだけの処理は、そのクォーラムが採掘済みと
見えるかどうかが同じ二つの状態で同じ答えを返す。有効な空でないチェーンでは基のブロックが必ず
見つかるので、書く処理の `assert` は起きない。 -/
theorem processCommitment_fst_justCheck (hact : env.ActiveChain chain) (hne : chain ≠ [])
    {s t : State} {qc : FinalCommitment}
    (hview : env.isNull qc = false →
      s.minedView (qc.llmqType, qc.quorumHash) = t.minedView (qc.llmqType, qc.quorumHash)) :
    (processCommitment env chain s nHeight blockHash qc false fBLSChecks).1 =
      (processCommitment env chain t nHeight blockHash qc true fBLSChecks).1 := by
  unfold processCommitment
  cases hp : env.getLLMQParams qc.llmqType with
  | none => rfl
  | some p =>
  dsimp only
  by_cases h0 : expectedQuorumHash chain p nHeight qc = 0
  · simp only [if_pos h0]
  by_cases hq : expectedQuorumHash chain p nHeight qc = qc.quorumHash
  swap
  · simp only [if_neg h0, if_pos hq]
  have h0' : qc.quorumHash ≠ 0 := hq ▸ h0
  simp only [hq, h0', ne_eq, not_true_eq_false, if_false]
  cases hnull : env.isNull qc
  swap
  · simp only [if_true]
    split <;> rfl
  have htype := Env.getLLMQParams_type hp
  simp only [Bool.false_eq_true, if_false, hasMinedCommitment_fst, htype, hview hnull]
  split
  · rfl
  cases isMiningPhase chain p nHeight with
  | error e => rfl
  | ok b =>
  cases b
  · rfl
  obtain ⟨base, hb, -⟩ := HashResolved.base hact hne ⟨hp, hq, hq ▸ h0⟩
  simp only [hb]
  split <;> rfl

theorem processCommitment_justCheck_minedView {s s' : State} {qc : FinalCommitment}
    (h : processCommitment env chain s nHeight blockHash qc true fBLSChecks = (.ok (), s')) :
    s'.minedView = s.minedView := by
  rw [processCommitment_ok_minedView h]
  simp

/-- コミットメントのループ。書く処理の状態 `u` は、確かめるだけの処理の状態 `t` に、書いた
クォーラムの列 `P` を採掘済みとして足したものと見える。書く処理が成功するのは、確かめるだけの
処理が成功し、残りの null でないコミットメントのクォーラムが互いに異なり、`P` にないときちょうど。 -/
theorem processCommitments_connect_iff (hact : env.ActiveChain chain) (hne : chain ≠ []) :
    ∀ (qcs : List FinalCommitment) (P : List (LLMQType × Nat)) {u t : State},
      (∀ k, u.minedView k = (t.minedView k || decide (k ∈ P))) →
      ((processCommitments env chain nHeight blockHash false fBLSChecks qcs u).1 = .ok () ↔
        (processCommitments env chain nHeight blockHash true fBLSChecks qcs t).1 = .ok () ∧
          (slotsOf env qcs).Nodup ∧ ∀ k ∈ slotsOf env qcs, k ∉ P)
  | [], _, _, _, _ => by simp [processCommitments]
  | qc :: qcs, P, u, t, hv => by
    unfold processCommitments
    rw [slotsOf_cons]
    cases hnull : env.isNull qc
    · -- null でないコミットメント：クォーラム `k` が `P` にあれば書く処理は拒む
      simp only [Bool.false_eq_true, if_false, List.nodup_cons, List.mem_cons, forall_eq_or_imp]
      by_cases hkP : (qc.llmqType, qc.quorumHash) ∈ P
      · have hdup : (processCommitment env chain u nHeight blockHash qc false fBLSChecks).1 ≠
            .ok () := fun hok => by
          obtain ⟨p, hres, ⟨hn, -⟩ | ⟨-, hfresh, -⟩⟩ := processCommitment_ok (Prod.ext hok rfl)
          · rw [hn] at hnull; cases hnull
          · rw [Env.getLLMQParams_type hres.params, hv, Bool.or_eq_false_iff] at hfresh
            exact absurd hkP (by simpa using hfresh.2)
        rcases hc : processCommitment env chain u nHeight blockHash qc false fBLSChecks with
          ⟨_ | _, u'⟩
        · simp [hkP]
        · rw [hc] at hdup; exact absurd rfl hdup
      have hfst : (processCommitment env chain u nHeight blockHash qc false fBLSChecks).1 =
          (processCommitment env chain t nHeight blockHash qc true fBLSChecks).1 :=
        processCommitment_fst_justCheck hact hne fun _ => by rw [hv]; simp [hkP]
      rcases hc : processCommitment env chain u nHeight blockHash qc false fBLSChecks with
        ⟨_ | _, u'⟩ <;>
        rcases hd : processCommitment env chain t nHeight blockHash qc true fBLSChecks with
          ⟨_ | _, t'⟩ <;> rw [hc, hd] at hfst <;> cases hfst
      · simp
      have hu' := processCommitment_ok_minedView hc
      have ht' := processCommitment_justCheck_minedView hd
      simp only [hnull, Bool.false_or, Bool.false_eq_true, if_false] at hu'
      rw [processCommitments_connect_iff hact hne qcs ((qc.llmqType, qc.quorumHash) :: P)
        (u := u') (t := t') fun k => by
          rw [hu', ht']
          by_cases hk : k = (qc.llmqType, qc.quorumHash)
          · subst hk; simp
          · simp [Function.update_noteq hk, hv, hk]]
      simp only [List.mem_cons, not_or, hkP, not_false_eq_true, true_and]
      constructor
      · rintro ⟨hok, hnd, hall⟩
        exact ⟨hok, ⟨fun hm => (hall _ hm).1 rfl, hnd⟩, fun k hk => (hall k hk).2⟩
      · rintro ⟨hok, ⟨hnot, hnd⟩, hall⟩
        exact ⟨hok, hnd, fun k hk => ⟨fun he => hnot (he ▸ hk), hall k hk⟩⟩
    · -- null のコミットメント：どちらの処理でも状態を変えない
      simp only [if_true]
      have hfst : (processCommitment env chain u nHeight blockHash qc false fBLSChecks).1 =
          (processCommitment env chain t nHeight blockHash qc true fBLSChecks).1 :=
        processCommitment_fst_justCheck hact hne fun h => by rw [hnull] at h; cases h
      rcases hc : processCommitment env chain u nHeight blockHash qc false fBLSChecks with
        ⟨_ | _, u'⟩ <;>
        rcases hd : processCommitment env chain t nHeight blockHash qc true fBLSChecks with
          ⟨_ | _, t'⟩ <;> rw [hc, hd] at hfst <;> cases hfst
      · simp
      have hu' := processCommitment_ok_minedView hc
      have ht' := processCommitment_justCheck_minedView hd
      simp only [hnull, Bool.true_or, if_true] at hu'
      exact processCommitments_connect_iff hact hne qcs P fun k => by rw [hu', ht', hv]

/-- 有効な空でないチェーンの上で、`ProcessBlock(fJustCheck = false)` がブロックを受け入れるのは、
`ProcessBlock(fJustCheck = true)` が受け入れ、ブロックの null でないコミットメントのクォーラムが
互いに異なるときちょうど。確かめるだけの処理が受け入れて書く処理が拒むのは、同じクォーラムの
null でないコミットメントを二つ持つブロックだけ。 -/
theorem processBlock_connect_iff_check (hact : env.ActiveChain chain) (hne : chain ≠ [])
    (s : State) (block : Block) (pindex : BlockIndex) :
    (processBlock env chain s block pindex false fBLSChecks).1 = .ok () ↔
      (processBlock env chain s block pindex true fBLSChecks).1 = .ok () ∧
        ∀ qcs, getCommitmentsFromBlock env block pindex = .ok qcs → (slotsOf env qcs).Nodup := by
  dsimp only [processBlock]
  split
  · rename_i hdip
    refine ⟨fun _ => ⟨rfl, fun qcs hq => ?_⟩, fun _ => rfl⟩
    rw [getCommitmentsFromBlock_premature hdip hq]
    exact List.nodup_nil
  cases hq : getCommitmentsFromBlock env block pindex with
  | error e => simp
  | ok qcs =>
  dsimp only
  rcases hcc : checkCommitmentCounts env chain pindex.nHeight qcs
    (env.getEnabledQuorumParams pindex.pprev) s with ⟨_ | _, s₁⟩
  · simp
  dsimp only
  have hloop : (processCommitments env chain pindex.nHeight block.hash false fBLSChecks qcs
      s₁).1 = .ok () ↔
      (processCommitments env chain pindex.nHeight block.hash true fBLSChecks qcs s₁).1 = .ok () ∧
        (slotsOf env qcs).Nodup ∧ ∀ k ∈ slotsOf env qcs, k ∉ ([] : List (LLMQType × Nat)) :=
    processCommitments_connect_iff hact hne qcs [] fun k => by simp
  rcases hf : processCommitments env chain pindex.nHeight block.hash false fBLSChecks qcs s₁ with
    ⟨_ | _, _⟩ <;>
  rcases ht : processCommitments env chain pindex.nHeight block.hash true fBLSChecks qcs s₁ with
    ⟨_ | _, _⟩ <;>
  simp [hf, ht] at hloop ⊢ <;>
  exact hloop

/-- `dupBlock`（高さ 6、回転のある周期、クォーラム 104 の同じコミットメントを二つ）は、確かめるだけの
処理では受け入れられ、書く処理では二つ目が `bad-qc-dup` で拒まれる。 -/
theorem processBlock_connect_iff_check_dup :
    demoEnv.ActiveChain (demoChain 5) ∧ demoChain 5 ≠ [] ∧
      (processBlock demoEnv (demoChain 5) State.empty dupBlock
          (BlockIndex.child (demoChain 5) 106) true true).1 = .ok () ∧
      getCommitmentsFromBlock demoEnv dupBlock (BlockIndex.child (demoChain 5) 106) =
        .ok [demoCommitment 104 0 12, demoCommitment 104 0 12] ∧
      ¬(slotsOf demoEnv [demoCommitment 104 0 12, demoCommitment 104 0 12]).Nodup ∧
      ((processBlock demoEnv (demoChain 5) State.empty dupBlock
          (BlockIndex.child (demoChain 5) 106) false true).1 = .ok () ↔
        (processBlock demoEnv (demoChain 5) State.empty dupBlock
          (BlockIndex.child (demoChain 5) 106) true true).1 = .ok () ∧
          ∀ qcs, getCommitmentsFromBlock demoEnv dupBlock (BlockIndex.child (demoChain 5) 106) =
            .ok qcs → (slotsOf demoEnv qcs).Nodup) :=
  have hact : demoEnv.ActiveChain (demoChain 5) := demoChain_active _ (by decide)
  ⟨hact, by decide, by decide, by decide, by decide,
    processBlock_connect_iff_check hact (by decide) State.empty dupBlock _⟩

end QuorumBlockProcessor
