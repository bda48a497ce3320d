import QuorumBlockProcessor.Lemmas.Template
import QuorumBlockProcessor.Lemmas.Safety

/-!
# 採掘済みのクォーラムと待ちの表

キャッシュと evoDb の一致の半分は、どの届くノードでも保たれる：「採掘されていない」と答える
クォーラムにはレコードがない。そこから、採掘済みのクォーラムは表に候補を持たない。つなぐ一歩と
切り離す一歩だけの実行では、採掘済みのクォーラムは残っているブロックのクォーラムちょうど。
-/

namespace QuorumBlockProcessor

variable {env : Env}

/-- 採掘済みと待ちの表の不変条件。 -/
structure State.PendingUnmined (s : State) : Prop where
  /-- `HasMinedCommitment` が偽を返すクォーラムには、レコードがない。 -/
  sound : ∀ k, s.minedView k = false → s.evoDb.minedCommitment k = none
  /-- `minableCommitmentsByQuorum` に値のあるクォーラムには、レコードがない。 -/
  pending : ∀ k h, s.minableCommitmentsByQuorum k = some h → s.evoDb.minedCommitment k = none

namespace State.PendingUnmined

variable {s : State}

theorem empty : State.empty.PendingUnmined := ⟨fun _ _ => rfl, fun _ _ _ => rfl⟩

theorem of_cacheFill {s' : State} (h : s.PendingUnmined) (hf : s.CacheFill s') :
    s'.PendingUnmined := by
  refine ⟨fun k hk => ?_, fun k x hk => ?_⟩ <;> rw [hf.evoDb]
  · exact h.sound k (hf.minedView ▸ hk)
  · exact h.pending k x (hf.byQuorum ▸ hk)

theorem setBestBlockUpgrade (h : s.PendingUnmined) (hash : Nat) :
    (s.setBestBlockUpgrade hash).PendingUnmined :=
  ⟨h.sound, h.pending⟩

theorem evictCache (h : s.PendingUnmined) (k : LLMQType × Nat) :
    (s.evictCache k).PendingUnmined := by
  refine ⟨fun k' hk => ?_, h.pending⟩
  by_cases hkk : k' = k
  · subst hkk
    simpa [State.minedView, State.evictCache] using hk
  · exact h.sound k' (by simpa [State.minedView, State.evictCache, hkk] using hk)

theorem commitToStore {llmqParams : LLMQParams} {nHeight blockHash : Nat}
    {qc : FinalCommitment} {base : BlockIndex} (htype : llmqParams.type = qc.llmqType)
    (h : s.PendingUnmined) :
    (QuorumBlockProcessor.commitToStore env s llmqParams nHeight blockHash qc qc.quorumHash
      base).PendingUnmined := by
  refine ⟨fun k hk => ?_, fun k x hk => ?_⟩
  · rw [commitToStore_minedView s htype] at hk
    have hK : k ≠ (qc.llmqType, qc.quorumHash) := by rintro rfl; simp at hk
    rw [Function.update_noteq hK] at hk
    simp only [QuorumBlockProcessor.commitToStore, EvoDb.writeCommitment_minedCommitment]
    rw [Function.update_noteq (htype ▸ hK)]
    exact h.sound k hk
  · simp only [QuorumBlockProcessor.commitToStore, htype] at hk ⊢
    have hK : k ≠ (qc.llmqType, qc.quorumHash) := by rintro rfl; simp at hk
    rw [Function.update_noteq hK] at hk
    rw [EvoDb.writeCommitment_minedCommitment, Function.update_noteq hK]
    exact h.pending k x hk

theorem eraseMinedCommitment {pindex : BlockIndex} {llmqParams : LLMQParams}
    {qc : FinalCommitment} (h : s.PendingUnmined) :
    (QuorumBlockProcessor.eraseMinedCommitment env pindex llmqParams qc s).PendingUnmined := by
  have hrec : (QuorumBlockProcessor.eraseMinedCommitment env pindex llmqParams qc
      s).evoDb.minedCommitment =
      Function.update s.evoDb.minedCommitment (qc.llmqType, qc.quorumHash) none := by
    simp [QuorumBlockProcessor.eraseMinedCommitment, EvoDb.eraseRecord]
  refine ⟨fun k hk => ?_, fun k x hk => ?_⟩ <;> rw [hrec] <;>
    by_cases hK : k = (qc.llmqType, qc.quorumHash)
  · rw [hK, Function.update_same]
  · rw [eraseMinedCommitment_minedView s, Function.update_noteq hK] at hk
    rw [Function.update_noteq hK]
    exact h.sound k hk
  · rw [hK, Function.update_same]
  · rw [Function.update_noteq hK]
    exact h.pending k x hk

theorem add {qc : FinalCommitment} (h : s.PendingUnmined)
    (hK : s.evoDb.minedCommitment (qc.llmqType, qc.quorumHash) = none) :
    (addMineableCommitment env s qc).2.PendingUnmined := by
  refine ⟨fun k hk => ?_, fun k x hk => ?_⟩ <;> rw [addMineableCommitment_evoDb]
  · rw [addMineableCommitment_minedView] at hk
    exact h.sound k hk
  · by_cases hkK : k = (qc.llmqType, qc.quorumHash)
    · rw [hkK]
      exact hK
    · rw [addMineableCommitment_byQuorum_of_ne _ _ _ hkK] at hk
      exact h.pending k x hk

theorem eraseAdd {pindex : BlockIndex} {llmqParams : LLMQParams} {qc : FinalCommitment}
    (h : s.PendingUnmined) :
    (addMineableCommitment env (QuorumBlockProcessor.eraseMinedCommitment env pindex llmqParams qc
      s) qc).2.PendingUnmined :=
  h.eraseMinedCommitment.add (by
    simp [QuorumBlockProcessor.eraseMinedCommitment, EvoDb.eraseRecord])

theorem restore {s' : State} (h' : s'.PendingUnmined)
    (hsub : ∀ k, s'.evoDb.minedCommitment k = none → s.evoDb.minedCommitment k = none) :
    ({ s' with evoDb := s.evoDb } : State).PendingUnmined := by
  refine ⟨fun k hk => ?_, fun k x hk => hsub k (h'.pending k x hk)⟩
  simp only [State.minedView] at hk
  cases hc : s'.mapHasMinedCommitmentCache k with
  | none =>
    rw [hc, Option.getD_none] at hk
    simpa using hk
  | some b =>
    rw [hc, Option.getD_some] at hk
    subst hk
    exact hsub k (h'.sound k (by simp [State.minedView, hc]))

end State.PendingUnmined

/-! ## 操作ごと -/

section operations

variable {s : State}

variable {chain : Chain} {block : Block} {pindex : BlockIndex} {fJustCheck fBLSChecks : Bool}
  {r : Except Failure Unit} {s' : State}

theorem processBlock_pendingUnmined (h : s.PendingUnmined)
    (hb : processBlock env chain s block pindex fJustCheck fBLSChecks = (r, s')) :
    s'.PendingUnmined := by
  rw [show s' = (processBlock env chain s block pindex fJustCheck fBLSChecks).2 by rw [hb]]
  exact processBlock_preserves _ (fun hf h => h.of_cacheFill hf)
    (fun hash h => h.setBestBlockUpgrade hash) (fun htype h => h.commitToStore htype) h

theorem processBlock_records
    (hb : processBlock env chain s block pindex fJustCheck fBLSChecks = (r, s'))
    (k : LLMQType × Nat) (hk : s'.evoDb.minedCommitment k = none) :
    s.evoDb.minedCommitment k = none := by
  rw [show s' = (processBlock env chain s block pindex fJustCheck fBLSChecks).2 by rw [hb]] at hk
  refine processBlock_preserves
    (fun s' => ∀ k, s'.evoDb.minedCommitment k = none → s.evoDb.minedCommitment k = none)
    (fun hf h k hk => h k (hf.evoDb ▸ hk)) (fun _ h => h) ?_ (fun _ => id) k hk
  intro s₁ p nHeight blockHash qc base _ h k hk
  simp only [commitToStore, EvoDb.writeCommitment_minedCommitment] at hk
  by_cases hK : k = (p.type, qc.quorumHash)
  · rw [hK, Function.update_same] at hk
    cases hk
  · rw [Function.update_noteq hK] at hk
    exact h k hk

theorem undoCommitments_pendingUnmined :
    ∀ {qcs : List FinalCommitment} {s s' : State},
      undoCommitments env pindex qcs s = (.ok (), s') → s.PendingUnmined → s'.PendingUnmined
  | [], _, _, h, hs => by cases h; exact hs
  | qc :: qcs, s, s', h, hs => by
    unfold undoCommitments at h
    split at h
    · exact undoCommitments_pendingUnmined h hs
    split at h
    · cases h
    rename_i llmqParams _
    have h1 : (addMineableCommitment env (eraseMinedCommitment env pindex llmqParams qc s)
        qc).2.PendingUnmined := hs.eraseAdd
    split at h
    · cases h
    · rename_i heq
      rw [heq] at h1
      exact undoCommitments_pendingUnmined h h1

theorem undoBlock_pendingUnmined (h : s.PendingUnmined)
    (hu : undoBlock env s block pindex = (.ok (), s')) :
    s'.PendingUnmined := by
  unfold undoBlock at hu
  split at hu
  · cases hu
  split at hu
  · cases hu
  rename_i heq
  split at hu
  · cases hu
  · cases hu
    exact (undoCommitments_pendingUnmined heq h).setBestBlockUpgrade _

theorem processMessage_pendingUnmined (h : s.PendingUnmined) (chain : Chain)
    (qc : FinalCommitment) : (processMessage env chain s qc).2.PendingUnmined := by
  rcases hm : processMessage env chain s qc with ⟨r, s'⟩
  rcases processMessage_spec hm with hf | ⟨s₁, hf, -, hmv, rfl⟩
  · exact h.of_cacheFill hf
  · exact (h.of_cacheFill hf).add (hf.evoDb ▸ h.sound _ hmv)

end operations

/-- 失敗しない一歩はどれも不変条件を保つ。 -/
theorem Step.pendingUnmined {n n' : Node} (h : Step env n n') (hp : n.state.PendingUnmined) :
    n'.state.PendingUnmined := by
  cases h with
  | chain h =>
    cases h with
    | connect block fBLSChecks _ _ h => exact processBlock_pendingUnmined hp h
    | disconnect block fBLSChecks h => exact undoBlock_pendingUnmined hp h
  | check block pindex fBLSChecks h => exact processBlock_pendingUnmined hp h
  | message qc => exact processMessage_pendingUnmined hp n.chain qc
  | hasMined t q => exact hp.of_cacheFill (hasMinedCommitment_cacheFill n.state t q)
  | numRequired p h =>
    exact hp.of_cacheFill (getNumCommitmentsRequired_cacheFill n.chain p h n.state)
  | mineable p h => exact hp.of_cacheFill (getMineableCommitments_cacheFill n.chain p h n.state)
  | evict k => exact hp.evictCache k

/-- どの届くノードでも、失敗したブロックの後でも、不変条件が成り立つ。 -/
theorem Reachable.pendingUnmined {chain₀ : Chain} {n : Node} (h : Reachable env chain₀ n) :
    n.state.PendingUnmined := by
  induction h with
  | init => exact .empty
  | step _ hs ih => exact hs.pendingUnmined ih
  | reject block pindex fJustCheck fBLSChecks e _ hb ih =>
    exact (processBlock_pendingUnmined ih hb).restore (processBlock_records hb)

/-! ## 採掘済みのクォーラム -/

/-- どの届くノードでも、失敗したブロックの後でも、`HasMinedCommitment` が偽を返すクォーラムには
`GetMinedCommitment` が何も返さない。キャッシュが evoDb と食い違うのは「採掘済み」の側だけ。 -/
theorem getMinedCommitment_of_not_hasMinedCommitment {chain₀ : Chain} {n : Node}
    (h : Reachable env chain₀ n) (llmqType : LLMQType) (quorumHash : Nat)
    (hf : (hasMinedCommitment n.state llmqType quorumHash).1 = false) :
    getMinedCommitment n.state llmqType quorumHash = none :=
  h.pendingUnmined.sound _ (by rwa [hasMinedCommitment_fst] at hf)

/-- `dupBlock` を拒んだ後のノードでも、クォーラム 105 は採掘されておらず、レコードもない。 -/
theorem getMinedCommitment_of_not_hasMinedCommitment_stale :
    Reachable demoEnv (demoChain 5) staleNode ∧
      (hasMinedCommitment staleNode.state 1 105).1 = false ∧
      getMinedCommitment staleNode.state 1 105 = none :=
  have hr : Reachable demoEnv (demoChain 5) staleNode :=
    .reject dupBlock _ false true (.invalid "bad-qc-dup") .init (Prod.ext (by decide) rfl)
  ⟨hr, by decide, getMinedCommitment_of_not_hasMinedCommitment hr 1 105 (by decide)⟩

/-- どの届くノードでも、失敗したブロックの後でも、`minableCommitmentsByQuorum` に候補のある
クォーラムには `GetMinedCommitment` が何も返さない：採掘済みのクォーラムは待ちの表にない。 -/
theorem getMinedCommitment_of_pending {chain₀ : Chain} {n : Node} (h : Reachable env chain₀ n)
    (llmqType : LLMQType) (quorumHash commitmentHash : Nat)
    (hq : n.state.minableCommitmentsByQuorum (llmqType, quorumHash) = some commitmentHash) :
    getMinedCommitment n.state llmqType quorumHash = none :=
  h.pendingUnmined.pending _ _ hq

theorem getMinedCommitment_of_pending_demo :
    Reachable demoEnv (demoChain 5) pooledNode ∧
      pooledNode.state.minableCommitmentsByQuorum (1, 104) =
        some (demoEnv.serializeHash (demoCommitment 104 0 12)) ∧
      getMinedCommitment pooledNode.state 1 104 = none :=
  have hr : Reachable demoEnv (demoChain 5) pooledNode := .step .init (.message _ _)
  ⟨hr, by decide,
    getMinedCommitment_of_pending hr 1 104 (demoEnv.serializeHash (demoCommitment 104 0 12))
      (by decide)⟩

/-! ## つないだブロックのレコード -/

/-- クォーラム `k` が採掘済みと見え、そのレコードが `x`。 -/
def State.MinedAs (s : State) (k : LLMQType × Nat) (x : FinalCommitment × Nat) : Prop :=
  s.minedView k = true ∧ s.evoDb.minedCommitment k = some x

section minedAs

variable {chain : Chain} {nHeight blockHash : Nat} {fJustCheck fBLSChecks : Bool}
  {k : LLMQType × Nat} {x : FinalCommitment × Nat}

theorem State.MinedAs.of_cacheFill {s s' : State} (h : s.MinedAs k x) (hf : s.CacheFill s') :
    s'.MinedAs k x := by
  rw [State.MinedAs, hf.minedView, hf.evoDb]
  exact h

theorem processCommitment_keeps_minedAs {s s' : State} {qc : FinalCommitment}
    (h : processCommitment env chain s nHeight blockHash qc fJustCheck fBLSChecks = (.ok (), s'))
    (hk : s.MinedAs k x) : s'.MinedAs k x := by
  obtain ⟨p, hres, ⟨-, -, rfl⟩ | ⟨-, hfresh, -, -, ⟨-, hf⟩ | ⟨-, s₁, base, hf, -, rfl⟩⟩⟩ :=
    processCommitment_ok h
  · exact hk
  · exact hk.of_cacheFill hf
  have htype := Env.getLLMQParams_type hres.params
  have hne : k ≠ (qc.llmqType, qc.quorumHash) := fun he => by
    rw [htype, ← he, hk.1] at hfresh
    cases hfresh
  have hk₁ := hk.of_cacheFill hf
  refine ⟨?_, ?_⟩
  · rw [commitToStore_minedView _ htype, Function.update_noteq hne]
    exact hk₁.1
  · simp only [commitToStore, EvoDb.writeCommitment_minedCommitment, htype,
      Function.update_noteq hne]
    exact hk₁.2

theorem processCommitments_keeps_minedAs :
    ∀ {qcs : List FinalCommitment} {s s' : State},
      processCommitments env chain nHeight blockHash fJustCheck fBLSChecks qcs s = (.ok (), s') →
      s.MinedAs k x → s'.MinedAs k x
  | [], _, _, h, hk => by cases h; exact hk
  | qc :: qcs, s, s', h, hk => by
    unfold processCommitments at h
    split at h
    · cases h
    exact processCommitments_keeps_minedAs h (processCommitment_keeps_minedAs ‹_› hk)

theorem processCommitment_minedAs {s s' : State} {qc : FinalCommitment}
    (h : processCommitment env chain s nHeight blockHash qc false fBLSChecks = (.ok (), s'))
    (hnull : env.isNull qc = false) :
    s'.MinedAs (qc.llmqType, qc.quorumHash) (qc, blockHash) := by
  refine ⟨?_, ?_⟩
  · rw [processCommitment_ok_minedView h]
    simp [hnull]
  · obtain ⟨p, hres, ⟨hn, -, -⟩ | ⟨-, -, -, -, ⟨hj, -⟩ | ⟨-, s₁, base, -, -, rfl⟩⟩⟩ :=
      processCommitment_ok h
    · rw [hn] at hnull; cases hnull
    · cases hj
    · simp [commitToStore, Env.getLLMQParams_type hres.params]

theorem processCommitments_minedAs :
    ∀ {qcs : List FinalCommitment} {s s' : State},
      processCommitments env chain nHeight blockHash false fBLSChecks qcs s = (.ok (), s') →
      ∀ qc ∈ qcs, env.isNull qc = false → s'.MinedAs (qc.llmqType, qc.quorumHash) (qc, blockHash)
  | [], _, _, _, qc, hq, _ => absurd hq (List.not_mem_nil qc)
  | qc₀ :: qcs, s, s', h, qc, hq, hnull => by
    unfold processCommitments at h
    split at h
    · cases h
    rename_i s₁ h₁
    rcases List.mem_cons.1 hq with rfl | hq
    · exact processCommitments_keeps_minedAs h (processCommitment_minedAs h₁ hnull)
    · exact processCommitments_minedAs h qc hq hnull

end minedAs

/-- 成功した `ProcessBlock(fJustCheck = false)` の後、ブロックの null でない各コミットメントについて
`GetMinedCommitment` はそのコミットメントとブロックのハッシュを返し、`HasMinedCommitment` は真を
返す。同じブロックの後のコミットメントは、それを書き換えない。 -/
theorem getMinedCommitment_of_processBlock {chain : Chain} {s s' : State} {block : Block}
    {pindex : BlockIndex} {fBLSChecks : Bool} {qcs : List FinalCommitment}
    (h : processBlock env chain s block pindex false fBLSChecks = (.ok (), s'))
    (hqcs : getCommitmentsFromBlock env block pindex = .ok qcs) (qc : FinalCommitment)
    (hq : qc ∈ qcs) (hnull : env.isNull qc = false) :
    getMinedCommitment s' qc.llmqType qc.quorumHash = some (qc, block.hash) ∧
      (hasMinedCommitment s' qc.llmqType qc.quorumHash).1 = true := by
  rcases processBlock_ok_cases h with ⟨hlt, -⟩ | ⟨qcs', s₁, s₂, hqcs', -, hcomm, rfl⟩
  · unfold getCommitmentsFromBlock at hqcs
    split at hqcs
    · cases hqcs
    split at hqcs
    · cases hqcs
    · cases hqcs
      rename_i hpre
      exact absurd ⟨hlt, List.ne_nil_of_mem hq⟩ hpre
  rw [hqcs, Except.ok.injEq] at hqcs'
  subst hqcs'
  obtain ⟨hview, hrec⟩ := processCommitments_minedAs hcomm qc hq hnull
  exact ⟨hrec, by rw [hasMinedCommitment_fst, State.minedView_setBestBlockUpgrade]; exact hview⟩

/-- `goodBlock`（高さ 6、クォーラム 104 のコミットメントと 105 の null のもの）をつないだ後。 -/
theorem getMinedCommitment_of_processBlock_good :
    processBlock demoEnv (demoChain 5) State.empty goodBlock
        (BlockIndex.child (demoChain 5) goodBlock.hash) false true = (.ok (), afterGoodBlock) ∧
      getCommitmentsFromBlock demoEnv goodBlock (BlockIndex.child (demoChain 5) goodBlock.hash) =
        .ok [demoCommitment 104 0 12, demoNull 105 1] ∧
      demoCommitment 104 0 12 ∈ [demoCommitment 104 0 12, demoNull 105 1] ∧
      demoEnv.isNull (demoCommitment 104 0 12) = false ∧
      getMinedCommitment afterGoodBlock 1 104 = some (demoCommitment 104 0 12, goodBlock.hash) ∧
      (hasMinedCommitment afterGoodBlock 1 104).1 = true :=
  have h : processBlock demoEnv (demoChain 5) State.empty goodBlock
      (BlockIndex.child (demoChain 5) goodBlock.hash) false true = (.ok (), afterGoodBlock) :=
    Prod.ext (by decide) rfl
  have hqcs : getCommitmentsFromBlock demoEnv goodBlock
      (BlockIndex.child (demoChain 5) goodBlock.hash) =
        .ok [demoCommitment 104 0 12, demoNull 105 1] := by decide
  ⟨h, hqcs, List.mem_cons_self _ _, by decide,
    getMinedCommitment_of_processBlock h hqcs _ (List.mem_cons_self _ _) (by decide)⟩

/-! ## 一つのクォーラムは一度だけ採掘される -/

/-- ブロック `block` を `pindex` でつないだときの、null でないコミットメントのクォーラム。
`GetCommitmentsFromBlock` が失敗すれば空。 -/
def blockSlots (env : Env) (block : Block) (pindex : BlockIndex) : List (LLMQType × Nat) :=
  match getCommitmentsFromBlock env block pindex with
  | .ok qcs => slotsOf env qcs
  | .error _ => []

/-- `chain` の上に先端の子として順につないだブロック `bs` のクォーラム。 -/
def minedSlots (env : Env) : Chain → List (Block × Bool) → List (LLMQType × Nat)
  | _, [] => []
  | chain, (block, _) :: rest =>
    blockSlots env block (BlockIndex.child chain block.hash) ++
      minedSlots env (chain ++ [block.hash]) rest

theorem processCommitments_minedView {chain : Chain} {nHeight blockHash : Nat}
    {fBLSChecks : Bool} :
    ∀ {qcs : List FinalCommitment} {s s' : State},
      processCommitments env chain nHeight blockHash false fBLSChecks qcs s = (.ok (), s') →
      ∀ k, s'.minedView k = (s.minedView k || decide (k ∈ slotsOf env qcs))
  | [], _, _, h, k => by cases h; simp
  | qc :: qcs, s, s', h, k => by
    unfold processCommitments at h
    split at h
    · cases h
    rename_i s₁ h₁
    rw [processCommitments_minedView h k, processCommitment_ok_minedView h₁, slotsOf_cons]
    cases env.isNull qc
    · by_cases hk : k = (qc.llmqType, qc.quorumHash)
      · subst hk
        simp
      · simp [Function.update_noteq hk, hk]
    · simp

theorem processBlock_minedView {chain : Chain} {s s' : State} {block : Block}
    {pindex : BlockIndex} {fBLSChecks : Bool}
    (h : processBlock env chain s block pindex false fBLSChecks = (.ok (), s')) :
    (blockSlots env block pindex).Nodup ∧
      (∀ k ∈ blockSlots env block pindex, s.minedView k = false) ∧
      ∀ k, s'.minedView k = (s.minedView k || decide (k ∈ blockSlots env block pindex)) := by
  rcases processBlock_ok_cases h with ⟨hlt, rfl⟩ | ⟨qcs, s₁, s₂, hget, hf, hcomm, rfl⟩
  · -- DIP0003 の前：取り出せるのは空の列だけ
    have hA : blockSlots env block pindex = [] := by
      unfold blockSlots
      split
      · rename_i qcs hq
        rw [getCommitmentsFromBlock_premature hlt hq, slotsOf_nil]
      · rfl
    simp [hA]
  · rw [blockSlots, hget]
    obtain ⟨-, hfresh, hnd⟩ := processCommitments_ok hcomm
    refine ⟨hnd rfl, fun k hk => hf.minedView ▸ hfresh k hk, fun k => ?_⟩
    rw [State.minedView_setBestBlockUpgrade, processCommitments_minedView hcomm, hf.minedView]

/-- 順につなぐブロックのクォーラムは互いに異なり、つなぐ前には採掘されていないと見え、つないだ後には
前からのものとそれらが採掘済みと見える。 -/
theorem connectBlocks_minedView :
    ∀ {bs : List (Block × Bool)} {chain : Chain} {s r : State},
      connectBlocks env chain bs s = some r →
      (minedSlots env chain bs).Nodup ∧ (∀ k ∈ minedSlots env chain bs, s.minedView k = false) ∧
        ∀ k, r.minedView k = (s.minedView k || decide (k ∈ minedSlots env chain bs))
  | [], _, _, _, h => by cases h; simp [minedSlots]
  | (block, fBLSChecks) :: rest, chain, s, r, h => by
    unfold connectBlocks at h
    split at h
    · rename_i s₁ h₁
      obtain ⟨hnd₁, hfresh₁, hview₁⟩ := processBlock_minedView h₁
      obtain ⟨hnd, hfresh, hview⟩ := connectBlocks_minedView h
      rw [minedSlots]
      refine ⟨List.nodup_append.2 ⟨hnd₁, hnd, fun k hk hk' => ?_⟩, fun k hk => ?_, fun k => ?_⟩
      · -- このブロックのクォーラムは、つないだ後には採掘済みと見える
        have := hfresh k hk'
        rw [hview₁, decide_eq_true hk, Bool.or_true] at this
        cases this
      · rcases List.mem_append.1 hk with hk | hk
        · exact hfresh₁ k hk
        · have := hfresh k hk
          rw [hview₁, Bool.or_eq_false_iff] at this
          exact this.1
      · rw [hview, hview₁, Bool.or_assoc]
        simp
    · cases h

/-- つなぐ一歩と切り離す一歩だけの実行のどのノードでも、`HasMinedCommitment` が採掘済みと答える
のは、始まりのチェーンの上に残っているブロックのどれかが null でないコミットメントで採掘した
クォーラムちょうどで、そのどれも一つのブロックだけが採掘する。仮定は `chainSteps_match_replay`
と同じ。 -/
theorem chainSteps_hasMinedCommitment (hrot : env.RotationPerCycle)
    (hidx : env.VerifyIndexNonneg) {chain₀ : Chain} (hact : env.ActiveChain chain₀)
    (hne : chain₀ ≠ []) {n : Node}
    (h : Relation.ReflTransGen (ChainStep env) (Node.init chain₀) n) :
    (minedSlots env chain₀ n.connected).Nodup ∧
      ∀ llmqType quorumHash, (hasMinedCommitment n.state llmqType quorumHash).1 =
        decide ((llmqType, quorumHash) ∈ minedSlots env chain₀ n.connected) := by
  obtain ⟨r, hr, hsv, -⟩ := (RunInv.of_steps hrot hidx hact hne h).replay
  obtain ⟨hnd, -, hview⟩ := connectBlocks_minedView hr
  refine ⟨hnd, fun llmqType quorumHash => ?_⟩
  rw [hasMinedCommitment_fst, hsv.minedView, hview]
  simp [State.minedView, State.empty, EvoDb.empty]

/-- `goodBlock` をつないだノードでは、クォーラム 104 だけが採掘済み（105 は null のコミットメント）。 -/
theorem chainSteps_hasMinedCommitment_good :
    demoEnv.RotationPerCycle ∧ demoEnv.VerifyIndexNonneg ∧ demoEnv.ActiveChain (demoChain 5) ∧
      demoChain 5 ≠ [] ∧
      Relation.ReflTransGen (ChainStep demoEnv) (Node.init (demoChain 5))
        ⟨demoChain 5 ++ [106], [(goodBlock, true)], afterGoodBlock⟩ ∧
      minedSlots demoEnv (demoChain 5) [(goodBlock, true)] = [(1, 104)] ∧
      ((minedSlots demoEnv (demoChain 5) [(goodBlock, true)]).Nodup ∧
        ∀ llmqType quorumHash, (hasMinedCommitment afterGoodBlock llmqType quorumHash).1 =
          decide ((llmqType, quorumHash) ∈ minedSlots demoEnv (demoChain 5) [(goodBlock, true)])) :=
  have h : Relation.ReflTransGen (ChainStep demoEnv) (Node.init (demoChain 5))
      ⟨demoChain 5 ++ [106], [(goodBlock, true)], afterGoodBlock⟩ :=
    .single (.connect goodBlock true (by decide) (by decide) (Prod.ext (by decide) rfl))
  ⟨demoEnvWith_rotationPerCycle _, demoEnv_verifyIndexNonneg, demoChain_active _ (by decide),
    by decide, h, by decide,
    chainSteps_hasMinedCommitment (demoEnvWith_rotationPerCycle _) demoEnv_verifyIndexNonneg
      (demoChain_active _ (by decide)) (by decide) h⟩

end QuorumBlockProcessor
