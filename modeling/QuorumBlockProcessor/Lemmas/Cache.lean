import QuorumBlockProcessor.Lemmas.Pool
import QuorumBlockProcessor.System

/-!
# 存在のキャッシュ

キャッシュと evoDb の一致（`CacheCoherent`）は失敗しない一歩のどれでも保たれる（`Step.coherent`）。
失敗したブロックでは保たれない：まだ捨てられていないトランザクションから「採掘済み」を入れた
項目が、呼ぶ側が evoDb を戻した後も残る。
-/

namespace QuorumBlockProcessor

variable {env : Env}

namespace State.CacheCoherent

theorem empty : State.empty.CacheCoherent := by
  intro k b h; simp [State.empty] at h

theorem commitToStore {s : State} {llmqParams : LLMQParams} {nHeight blockHash : Nat}
    {qc : FinalCommitment} {base : BlockIndex} (htype : llmqParams.type = qc.llmqType)
    (hc : s.CacheCoherent) :
    (QuorumBlockProcessor.commitToStore env s llmqParams nHeight blockHash qc qc.quorumHash
      base).CacheCoherent := by
  intro k b hk
  simp only [QuorumBlockProcessor.commitToStore] at hk ⊢
  have hne : k ≠ (qc.llmqType, qc.quorumHash) := by rintro rfl; simp at hk
  rw [Function.update_noteq hne] at hk
  rw [EvoDb.writeCommitment_minedCommitment, Function.update_noteq (htype ▸ hne)]
  exact hc k b hk

theorem eraseMinedCommitment {s : State} {pindex : BlockIndex} {llmqParams : LLMQParams}
    {qc : FinalCommitment} (hc : s.CacheCoherent) :
    (QuorumBlockProcessor.eraseMinedCommitment env pindex llmqParams qc s).CacheCoherent := by
  intro k b hk
  simp only [QuorumBlockProcessor.eraseMinedCommitment] at hk ⊢
  have hne : k ≠ (qc.llmqType, qc.quorumHash) := by rintro rfl; simp at hk
  rw [Function.update_noteq hne] at hk
  simp only [EvoDb.eraseInversedHeight_minedCommitment, EvoDb.eraseRecord,
    Function.update_noteq hne]
  exact hc k b hk

theorem setBestBlockUpgrade {s : State} (hash : Nat) (hc : s.CacheCoherent) :
    (s.setBestBlockUpgrade hash).CacheCoherent := hc

theorem add {s : State} (qc : FinalCommitment) (hc : s.CacheCoherent) :
    (addMineableCommitment env s qc).2.CacheCoherent := by
  intro k b hk
  rw [addMineableCommitment_cache] at hk
  rw [addMineableCommitment_evoDb]
  exact hc k b hk

theorem evictCache {s : State} (k : LLMQType × Nat) (hc : s.CacheCoherent) :
    (s.evictCache k).CacheCoherent := by
  intro k' b hk
  simp only [State.evictCache] at hk ⊢
  by_cases hkk : k' = k
  · subst hkk; simp at hk
  · rw [Function.update_noteq hkk] at hk
    exact hc k' b hk

end State.CacheCoherent

/-! ## 操作ごと -/

section operations

variable {s : State}

theorem processBlock_coherent (hc : s.CacheCoherent) {chain : Chain} {block : Block}
    {pindex : BlockIndex} {fJustCheck fBLSChecks : Bool} {r : Except Failure Unit} {s' : State}
    (h : processBlock env chain s block pindex fJustCheck fBLSChecks = (r, s')) :
    s'.CacheCoherent := by
  rw [show s' = (processBlock env chain s block pindex fJustCheck fBLSChecks).2 by rw [h]]
  exact processBlock_preserves _ (fun hf hc => hf.coherent hc) (fun _ => .setBestBlockUpgrade _)
    (fun htype hc => hc.commitToStore htype) hc

theorem undoBlock_coherent (hc : s.CacheCoherent) {s' : State} {block : Block}
    {pindex : BlockIndex} (h : undoBlock env s block pindex = (.ok (), s')) : s'.CacheCoherent :=
  undoBlock_preserves _ (fun _ => .setBestBlockUpgrade _) (fun hc => hc.eraseMinedCommitment)
    (fun qc hc => hc.add qc) h hc

theorem processMessage_coherent (hc : s.CacheCoherent) (chain : Chain) (qc : FinalCommitment) :
    (processMessage env chain s qc).2.CacheCoherent := by
  rcases h : processMessage env chain s qc with ⟨r, s'⟩
  rcases processMessage_cases h with hf | ⟨s₁, hf, -, rfl⟩
  · exact hf.coherent hc
  · exact (hf.coherent hc).add qc

end operations

/-- 失敗しない一歩はどれも、キャッシュと evoDb の一致を保つ。 -/
theorem Step.coherent {n n' : Node} (h : Step env n n') (hc : n.state.CacheCoherent) :
    n'.state.CacheCoherent := by
  cases h with
  | chain h =>
    cases h with
    | connect block fBLSChecks _ _ h => exact processBlock_coherent hc h
    | disconnect block fBLSChecks h => exact undoBlock_coherent hc h
  | check block pindex fBLSChecks h => exact processBlock_coherent hc h
  | message qc => exact processMessage_coherent hc n.chain qc
  | hasMined t q => exact (hasMinedCommitment_cacheFill n.state t q).coherent hc
  | numRequired p h => exact (getNumCommitmentsRequired_cacheFill n.chain p h n.state).coherent hc
  | mineable p h => exact (getMineableCommitments_cacheFill n.chain p h n.state).coherent hc
  | evict k => exact hc.evictCache k

/-- 失敗したブロックのない実行では、どの状態でもキャッシュは evoDb と一致し、
`HasMinedCommitment` は evoDb のレコードの有無を答える。 -/
theorem coherent_of_steps {chain₀ : Chain} {n : Node}
    (h : Relation.ReflTransGen (Step env) (Node.init chain₀) n) :
    n.state.CacheCoherent ∧
      ∀ t q,
        (hasMinedCommitment n.state t q).1 = (n.state.evoDb.minedCommitment (t, q)).isSome := by
  have hc : n.state.CacheCoherent := by
    induction h with
    | refl => exact .empty
    | tail _ hs ih => exact hs.coherent ih
  exact ⟨hc, fun t q => by rw [hasMinedCommitment_fst, State.minedView_of_coherent hc]⟩

/-! ## 失敗したブロックが残す項目 -/

/-- 例の特別なトランザクション：高さ `nHeight` のブロックに入れる `qc`。 -/
def demoTx (nHeight : Nat) (qc : FinalCommitment) : Transaction := ⟨3, 6, some ⟨nHeight, qc⟩⟩

/-- 例の null のコミットメント。 -/
def demoNull (quorumHash : Nat) (quorumIndex : Int) : FinalCommitment :=
  { FinalCommitment.ofParams demoParams quorumHash with nVersion := 4, quorumIndex := quorumIndex }

/-- 高さ 6 の、回転のある周期のブロック：クォーラム 104 の同じコミットメントを二つ持つ。 -/
def dupBlock : Block :=
  ⟨106, [demoTx 6 (demoCommitment 104 0 12), demoTx 6 (demoCommitment 104 0 12)]⟩

/-- 高さ 6 の正しいブロック：クォーラム 104 のコミットメントと、105 の null のもの。 -/
def goodBlock : Block := ⟨106, [demoTx 6 (demoCommitment 104 0 12), demoTx 6 (demoNull 105 1)]⟩

/-- 空の状態で `dupBlock` を処理して失敗し、evoDb を戻したノード。 -/
def staleNode : Node :=
  { Node.init (demoChain 5) with state :=
    { (processBlock demoEnv (demoChain 5) State.empty dupBlock (BlockIndex.child (demoChain 5) 106)
        false true).2 with evoDb := State.empty.evoDb } }

/-- `dupBlock` は二つ目のコミットメントで `bad-qc-dup` により拒まれる。一つ目を書いた
トランザクションから、二つ目の `HasMinedCommitment` が「採掘済み」をキャッシュに入れる。
evoDb を戻した後、キャッシュは (1, 104) を採掘済みと答えるが、レコードはない。そのため正しい
`goodBlock` が `bad-qc-not-allowed` で拒まれる（空の状態からなら受け入れられる）。失敗した
ブロックのない実行では、こうはならない（`coherent_of_steps`）。 -/
theorem reject_leaves_stale_cache :
    Reachable demoEnv (demoChain 5) staleNode ∧
      staleNode.state.mapHasMinedCommitmentCache (1, 104) = some true ∧
      staleNode.state.evoDb.minedCommitment (1, 104) = none ∧
      (processBlock demoEnv (demoChain 5) staleNode.state goodBlock
        (BlockIndex.child (demoChain 5) 106) false true).1 =
        .error (.invalid "bad-qc-not-allowed") ∧
      (processBlock demoEnv (demoChain 5) State.empty goodBlock
        (BlockIndex.child (demoChain 5) 106) false true).1 = .ok () :=
  ⟨.reject dupBlock _ false true (.invalid "bad-qc-dup") .init (Prod.ext (by decide) rfl),
    by decide, rfl, by decide, by decide⟩

end QuorumBlockProcessor
