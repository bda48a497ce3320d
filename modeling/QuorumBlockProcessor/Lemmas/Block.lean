import QuorumBlockProcessor.Lemmas.Cache

/-!
# ブロックが受け入れられるとき

`ProcessBlock` が成功したとき、型ごとの数は `GetNumCommitmentsRequired` に等しく、null でない
コミットメントはブロックの前に採掘されていない互いに異なるクォーラムのもの
（`processBlock_ok_spec`）。null のものは採掘済みのクォーラムのものでもよい。
-/

namespace QuorumBlockProcessor

variable {env : Env}

/-- ブロックの null でないコミットメントのクォーラム `(type, quorumHash)`。 -/
def slotsOf (env : Env) (qcs : List FinalCommitment) : List (LLMQType × Nat) :=
  (qcs.filter fun qc => !env.isNull qc).map fun qc => (qc.llmqType, qc.quorumHash)

@[simp] theorem slotsOf_nil : slotsOf env [] = [] := rfl

theorem slotsOf_cons (qc : FinalCommitment) (qcs : List FinalCommitment) :
    slotsOf env (qc :: qcs) =
      if env.isNull qc then slotsOf env qcs
      else (qc.llmqType, qc.quorumHash) :: slotsOf env qcs := by
  unfold slotsOf
  cases h : env.isNull qc <;> simp [List.filter_cons, h]

/-! ## コミットメントのループ -/

section processCommitments

variable {chain : Chain} {nHeight blockHash : Nat} {fJustCheck fBLSChecks : Bool}

theorem processCommitment_ok_minedView {s s' : State} {qc : FinalCommitment}
    (h : processCommitment env chain s nHeight blockHash qc fJustCheck fBLSChecks = (.ok (), s')) :
    s'.minedView = if env.isNull qc || fJustCheck then s.minedView
      else Function.update s.minedView (qc.llmqType, qc.quorumHash) true := by
  obtain ⟨p, hres, ⟨hnull, -, rfl⟩ | ⟨hnull, -, -, -, ⟨hj, hf⟩ | ⟨hj, s₁, base, hf, -, rfl⟩⟩⟩ :=
    processCommitment_ok h
  · simp [hnull]
  · simp [hnull, hj, hf.minedView]
  · rw [commitToStore_minedView _ (Env.getLLMQParams_type hres.params), hf.minedView]
    simp [hnull, hj]

/-- `ProcessCommitment` が一つのコミットメントについて確かめたこと。 -/
structure CommitmentChecked (env : Env) (chain : Chain) (nHeight : Nat) (fBLSChecks : Bool)
    (qc : FinalCommitment) : Prop where
  resolved : ∃ llmqParams, HashResolved env chain nHeight qc llmqParams ∧
    (env.isNull qc = true → env.verifyNull qc = true) ∧
    (env.isNull qc = false → isMiningPhase chain llmqParams nHeight = .ok true ∧
      env.verify qc (env.lookupBlockIndex qc.quorumHash) fBLSChecks = true)

/-- 成功したループ：どのコミットメントも確かめられ、null でないもののクォーラムはループの前に
採掘されておらず、書くときは互いに異なる。 -/
theorem processCommitments_ok : ∀ {qcs : List FinalCommitment} {s s' : State},
    processCommitments env chain nHeight blockHash fJustCheck fBLSChecks qcs s = (.ok (), s') →
    (∀ qc ∈ qcs, CommitmentChecked env chain nHeight fBLSChecks qc) ∧
      (∀ k ∈ slotsOf env qcs, s.minedView k = false) ∧
      (fJustCheck = false → (slotsOf env qcs).Nodup)
  | [], _, _, _ => ⟨by simp, by simp, fun _ => List.nodup_nil⟩
  | qc :: qcs, s, s', h => by
    unfold processCommitments at h
    split at h
    · cases h
    rename_i s₁ h₁
    obtain ⟨hchecked, hfresh, hnodup⟩ := processCommitments_ok h
    have hview := processCommitment_ok_minedView h₁
    obtain ⟨p, hres, hnull⟩ := processCommitment_ok h₁
    refine ⟨?_, ?_, ?_⟩
    · intro c hc
      rcases List.mem_cons.1 hc with rfl | hc
      · refine ⟨p, hres, ?_, ?_⟩
        · intro hn; rcases hnull with ⟨-, hv, -⟩ | ⟨hn', -⟩ <;> simp_all
        · intro hn; rcases hnull with ⟨hn', -⟩ | ⟨-, -, hm, hv, -⟩ <;> simp_all
      · exact hchecked c hc
    · rw [slotsOf_cons]
      split
      · rename_i hn
        intro k hk
        simpa [hn, hview] using hfresh k hk
      · rename_i hn
        rcases hnull with ⟨hn', -⟩ | ⟨-, hmined, -⟩
        · simp [hn'] at hn
        rw [Env.getLLMQParams_type hres.params] at hmined
        intro k hk
        rcases List.mem_cons.1 hk with rfl | hk
        · exact hmined
        · have := hfresh k hk
          by_cases hkq : k = (qc.llmqType, qc.quorumHash)
          · subst hkq; exact hmined
          · cases hj : fJustCheck <;> simp_all [Function.update_noteq hkq]
    · intro hj
      rw [slotsOf_cons]
      split
      · exact hnodup hj
      · rename_i hn
        refine List.nodup_cons.2 ⟨fun hk => ?_, hnodup hj⟩
        have := hfresh _ hk
        simp [hview, hn, hj] at this

end processCommitments

/-! ## 数の確認 -/

theorem getNumCommitmentsRequired_fst_congr {chain : Chain} {llmqParams : LLMQParams}
    {nHeight : Nat} {s r : State} (h : s.minedView = r.minedView) :
    (getNumCommitmentsRequired env chain llmqParams nHeight s).1 =
      (getNumCommitmentsRequired env chain llmqParams nHeight r).1 := by
  unfold getNumCommitmentsRequired
  split
  · rfl
  · rfl
  · split
    · rfl
    · simp only [(countRequired_spec _ 0 s).1, (countRequired_spec _ 0 r).1, h]

theorem checkCommitmentCounts_ok {chain : Chain} {nHeight : Nat} {qcs : List FinalCommitment}
    (hchain : chain ≠ []) :
    ∀ {ps : List LLMQParams} {s s' : State},
      checkCommitmentCounts env chain nHeight qcs ps s = (.ok (), s') →
      ∀ p ∈ ps, (getNumCommitmentsRequired env chain p nHeight s).1 = .ok (countType qcs p.type)
  | [], _, _, _ => by simp
  | p :: ps, s, s', h => by
    unfold checkCommitmentCounts at h
    rw [if_neg hchain] at h
    split at h
    · cases h
    rename_i n s₁ hn
    dsimp only at h
    split at h
    · cases h
    rename_i hlt
    split at h
    · cases h
    rename_i hgt
    have hf : s.CacheFill (getNumCommitmentsRequired env chain p nHeight s).2 :=
      getNumCommitmentsRequired_cacheFill chain p nHeight s
    rw [hn] at hf
    intro p' hp'
    rcases List.mem_cons.1 hp' with rfl | hp'
    · rw [hn, Nat.le_antisymm (Nat.not_lt.1 hgt) (Nat.not_lt.1 hlt)]
    · rw [getNumCommitmentsRequired_fst_congr hf.minedView.symm]
      exact checkCommitmentCounts_ok hchain h p' hp'

/-! ## 成功したブロック -/

/-- `ProcessBlock` が成功したとき（DIP0003 の後で、先端がある）：コミットメントは取り出せ、
前のブロックで有効な型ごとに、その型の数は `GetNumCommitmentsRequired` の答えに等しい。どの
コミットメントも確かめられ、null でないもののクォーラムはブロックの前に採掘されておらず、
`fJustCheck` でなければ互いに異なる。 -/
theorem processBlock_ok_spec {chain : Chain} {s s' : State} {block : Block} {pindex : BlockIndex}
    {fJustCheck fBLSChecks : Bool}
    (h : processBlock env chain s block pindex fJustCheck fBLSChecks = (.ok (), s'))
    (hdip : env.dip0003Height ≤ pindex.nHeight) (hchain : chain ≠ []) :
    ∃ qcs, getCommitmentsFromBlock env block pindex = .ok qcs ∧
      (∀ p ∈ env.getEnabledQuorumParams pindex.pprev,
        (getNumCommitmentsRequired env chain p pindex.nHeight s).1 = .ok (countType qcs p.type)) ∧
      (∀ qc ∈ qcs, CommitmentChecked env chain pindex.nHeight fBLSChecks qc) ∧
      (∀ k ∈ slotsOf env qcs, s.minedView k = false) ∧
      (fJustCheck = false → (slotsOf env qcs).Nodup) := by
  dsimp only [processBlock] at h
  split at h
  · omega
  split at h
  · cases h
  rename_i qcs hqcs
  split at h
  · cases h
  rename_i s₁ hcounts
  split at h
  · cases h
  rename_i s₂ hcomm
  have hf : s.CacheFill (checkCommitmentCounts env chain pindex.nHeight qcs
      (env.getEnabledQuorumParams pindex.pprev) s).2 := checkCommitmentCounts_cacheFill _ s
  rw [hcounts] at hf
  obtain ⟨hchecked, hfresh, hnodup⟩ := processCommitments_ok hcomm
  exact ⟨qcs, hqcs, checkCommitmentCounts_ok hchain hcounts, hchecked,
    fun k hk => hf.minedView ▸ hfresh k hk, hnodup⟩

/-- `goodBlock` を空の状態から処理した後の状態。 -/
def afterGoodBlock : State :=
  (processBlock demoEnv (demoChain 5) State.empty goodBlock (BlockIndex.child (demoChain 5) 106)
    false true).2

/-- 高さ 7 のブロック：採掘済みのクォーラム 104 の null のコミットメントだけを持つ。 -/
def lateNullBlock : Block := ⟨107, [demoTx 7 (demoNull 104 0)]⟩

/-- `goodBlock` でクォーラム 104 が採掘され、105 は null のコミットメントを受けただけ。高さ 7 で
求められるのは 105 だけだが、採掘済みの 104 の null のコミットメントだけを持つ `lateNullBlock` が
受け入れられる。型ごとの数は 1 で合い、null のコミットメントは採掘済みかどうかを調べられない。 -/
theorem processBlock_accepts_null_for_mined_slot :
    (processBlock demoEnv (demoChain 5) State.empty goodBlock (BlockIndex.child (demoChain 5) 106)
      false true).1 = .ok () ∧
      requiredQuorumHashes demoEnv (demoChain 6) demoParams 7 afterGoodBlock.minedView = [105] ∧
      getCommitmentsFromBlock demoEnv lateNullBlock (BlockIndex.child (demoChain 6) 107) =
        .ok [demoNull 104 0] ∧
      (processBlock demoEnv (demoChain 6) afterGoodBlock lateNullBlock
        (BlockIndex.child (demoChain 6) 107) false true).1 = .ok () := by
  decide

/-! ## 表の項目 -/

/-- `s` の二つの表は `s₀` のものの一部。 -/
def State.PoolSub (s s₀ : State) : Prop :=
  (∀ k h, s.minableCommitmentsByQuorum k = some h → s₀.minableCommitmentsByQuorum k = some h) ∧
    ∀ h c, s.minableCommitments h = some c → s₀.minableCommitments h = some c

theorem State.PoolSub.refl (s : State) : s.PoolSub s := ⟨fun _ _ => id, fun _ _ => id⟩

theorem State.PoolSub.trans {s₁ s₂ s₃ : State} (h₁ : s₁.PoolSub s₂) (h₂ : s₂.PoolSub s₃) :
    s₁.PoolSub s₃ :=
  ⟨fun k h hk => h₂.1 k h (h₁.1 k h hk), fun h c hc => h₂.2 h c (h₁.2 h c hc)⟩

theorem processBlock_poolSub (s : State) {chain : Chain} {block : Block} {pindex : BlockIndex}
    {fJustCheck fBLSChecks : Bool} :
    (processBlock env chain s block pindex fJustCheck fBLSChecks).2.PoolSub s := by
  refine processBlock_preserves (fun s' => s'.PoolSub s) ?_ (fun _ h => h) ?_ (.refl s)
  · intro s₁ s₂ hf h
    exact ⟨fun k x hk => h.1 k x (hf.byQuorum ▸ hk), fun x c hc => h.2 x c (hf.minable ▸ hc)⟩
  · intro s₁ p nHeight blockHash qc base _ h
    refine ⟨fun k x hk => h.1 k x ?_, fun x c hc => h.2 x c ?_⟩
    · simp only [commitToStore] at hk
      by_cases hkk : k = (p.type, qc.quorumHash)
      · subst hkk; simp at hk
      · rwa [Function.update_noteq hkk] at hk
    · simp only [commitToStore] at hc
      by_cases hx : x = env.serializeHash qc
      · subst hx; simp at hc
      · rwa [Function.update_noteq hx] at hc

/-- クォーラム 104 の候補をネットワークから受け取った状態。 -/
def pooledState : State :=
  (processMessage demoEnv (demoChain 5) State.empty (demoCommitment 104 0 12)).2

/-- 表に候補があるとき、`dupBlock` は `bad-qc-dup` で拒まれるが、一つ目のコミットメントの
レコードは書かれたまま、候補は表から消えたまま残る。 -/
theorem processBlock_rejected_keeps_effects :
    pooledState.minableCommitmentsByQuorum (1, 104) =
        some (demoEnv.serializeHash (demoCommitment 104 0 12)) ∧
      pooledState.evoDb.minedCommitment (1, 104) = none ∧
      (processBlock demoEnv (demoChain 5) pooledState dupBlock (BlockIndex.child (demoChain 5) 106)
        false true).1 = .error (.invalid "bad-qc-dup") ∧
      (processBlock demoEnv (demoChain 5) pooledState dupBlock (BlockIndex.child (demoChain 5) 106)
        false true).2.minableCommitmentsByQuorum (1, 104) = none ∧
      (processBlock demoEnv (demoChain 5) pooledState dupBlock (BlockIndex.child (demoChain 5) 106)
        false true).2.minableCommitments (demoEnv.serializeHash (demoCommitment 104 0 12)) = none ∧
      (processBlock demoEnv (demoChain 5) pooledState dupBlock (BlockIndex.child (demoChain 5) 106)
        false true).2.evoDb.minedCommitment (1, 104) = some (demoCommitment 104 0 12, 106) := by
  decide

end QuorumBlockProcessor
