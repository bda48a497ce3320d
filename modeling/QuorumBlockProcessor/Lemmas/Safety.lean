import QuorumBlockProcessor.Lemmas.Block

/-!
# 再生の assert と、つないだブロックの切り離し

先端のない再生では、null でないコミットメントが `IsMiningPhase` の assert に当たる
（`processCommitment_replay_asserts`）。`ProcessBlock` が成功した直後の `UndoBlock` は、
DIP0003 の前のブロックと親のないブロックを除いて成功する（`undoBlock_of_processBlock`）。
-/

namespace QuorumBlockProcessor

variable {env : Env}

/-! ## 再生の assert -/

/-- 先端がないとき、型が知られ、ハッシュが null でなく、まだ採掘されていない null でない
コミットメントは、高さが 1 以上なら `IsMiningPhase` の assert で止まる。 -/
theorem processCommitment_replay_asserts {s : State} {nHeight blockHash : Nat}
    {qc : FinalCommitment} {p : LLMQParams} {fJustCheck fBLSChecks : Bool}
    (hp : env.getLLMQParams qc.llmqType = some p) (hq : qc.quorumHash ≠ 0)
    (hnull : env.isNull qc = false) (hfresh : s.minedView (p.type, qc.quorumHash) = false)
    (hn : 1 ≤ nHeight) :
    (processCommitment env [] s nHeight blockHash qc fJustCheck fBLSChecks).1 =
      .error .assertion := by
  have hmp : isMiningPhase [] p nHeight = .error .assertion := by
    rw [isMiningPhase, if_neg (by simp only [Chain.height, List.length_nil]; omega)]
  simp only [processCommitment, hp, expectedQuorumHash, if_pos, hq, if_false, ne_eq,
    not_true_eq_false, hnull, Bool.false_eq_true, hasMinedCommitment_fst, hfresh, hmp]

/-- 先端がないとき、最初のコミットメントが `processCommitment_replay_asserts` の条件を満たす
ブロックは、`ProcessBlock` の中で assert に当たる：数の確認は先端がなければ何もしない。 -/
theorem processBlock_replay_assertion {s : State} {block : Block} {pindex : BlockIndex}
    {qc : FinalCommitment} {qcs : List FinalCommitment} {p : LLMQParams}
    {fJustCheck fBLSChecks : Bool} (hdip : env.dip0003Height ≤ pindex.nHeight)
    (hqcs : getCommitmentsFromBlock env block pindex = .ok (qc :: qcs))
    (hp : env.getLLMQParams qc.llmqType = some p) (hq : qc.quorumHash ≠ 0)
    (hnull : env.isNull qc = false) (hfresh : s.minedView (p.type, qc.quorumHash) = false)
    (hn : 1 ≤ pindex.nHeight) :
    (processBlock env [] s block pindex fJustCheck fBLSChecks).1 = .error .assertion := by
  have ha : (processCommitment env [] s pindex.nHeight block.hash qc fJustCheck fBLSChecks).1 =
      .error .assertion := processCommitment_replay_asserts hp hq hnull hfresh hn
  have hcc : ∀ ps, checkCommitmentCounts env [] pindex.nHeight (qc :: qcs) ps s = (.ok (), s)
    | [] => rfl
    | _ :: _ => rfl
  rcases hc : processCommitment env [] s pindex.nHeight block.hash qc fJustCheck fBLSChecks with
    ⟨_ | _, s₁⟩ <;> rw [hc] at ha <;> cases ha
  simp only [processBlock, if_neg (Nat.not_lt.2 hdip), hqcs, hcc, processCommitments, hc]

/-- 生きたチェーン 100..105 の上では受け入れられる `goodBlock` を、先端のない再生で処理すると、
null でないクォーラム 104 のコミットメントで `IsMiningPhase` の assert（高さ 6 ≤ 0）に当たる。 -/
theorem processBlock_replay_asserts :
    (processBlock demoEnv (demoChain 5) State.empty goodBlock (BlockIndex.child (demoChain 5) 106)
      false true).1 = .ok () ∧
      (processBlock demoEnv [] State.empty goodBlock (BlockIndex.child (demoChain 5) 106)
        false true).1 = .error .assertion ∧
      isMiningPhase [] demoParams 6 = .error .assertion :=
  ⟨by decide,
    @processBlock_replay_assertion demoEnv State.empty goodBlock _ (demoCommitment 104 0 12)
      [demoNull 105 1] demoParams false true (by decide) (by decide) (by decide) (by decide) rfl
      rfl (by decide),
    by decide⟩

/-! ## ブロックの切り離し -/

theorem BlockIndex.pprev_of_pos {b : BlockIndex} (h : 0 < b.nHeight) : ∃ p, b.pprev = some p := by
  simp only [BlockIndex.pprev, BlockIndex.getAncestor]
  rw [if_pos (by omega)]
  exact ⟨_, rfl⟩

theorem getCommitmentsFromTxs_of_no_commitment {pindex : BlockIndex} :
    ∀ {vtx : List Transaction}, (∀ tx ∈ vtx, tx.nType ≠ env.txTypeQuorumCommitment) →
      ∀ ret, getCommitmentsFromTxs env pindex vtx ret = .ok ret
  | [], _, _ => rfl
  | tx :: vtx, h, ret => by
    rw [getCommitmentsFromTxs, if_neg (h tx (List.mem_cons_self _ _))]
    exact getCommitmentsFromTxs_of_no_commitment (fun t ht => h t (List.mem_cons_of_mem _ ht)) ret

/-- `ProcessBlock` の成功：DIP0003 の前は印だけ。その後は取り出し、数の確認（キャッシュを
埋めるだけ）、コミットメントのループ、印。 -/
theorem processBlock_ok_cases {chain : Chain} {s s' : State} {block : Block}
    {pindex : BlockIndex} {fJustCheck fBLSChecks : Bool}
    (h : processBlock env chain s block pindex fJustCheck fBLSChecks = (.ok (), s')) :
    (pindex.nHeight < env.dip0003Height ∧ s' = s.setBestBlockUpgrade block.hash) ∨
      ∃ qcs s₁ s₂, getCommitmentsFromBlock env block pindex = .ok qcs ∧ s.CacheFill s₁ ∧
        processCommitments env chain pindex.nHeight block.hash fJustCheck fBLSChecks qcs s₁ =
          (.ok (), s₂) ∧ s' = s₂.setBestBlockUpgrade block.hash := by
  dsimp only [processBlock] at h
  split at h
  · cases h
    exact .inl ⟨‹_›, rfl⟩
  split at h
  · cases h
  rename_i qcs hqcs
  split at h
  · cases h
  rename_i s₁ hcounts
  have hf : s.CacheFill (checkCommitmentCounts env chain pindex.nHeight qcs
      (env.getEnabledQuorumParams pindex.pprev) s).2 := checkCommitmentCounts_cacheFill _ s
  rw [hcounts] at hf
  split at h
  · cases h
  cases h
  exact .inr ⟨qcs, s₁, _, hqcs, hf, ‹_›, rfl⟩

section byQuorum

variable {chain : Chain} {nHeight blockHash : Nat} {fBLSChecks : Bool}

theorem processCommitment_byQuorum {s s' : State} {qc : FinalCommitment}
    (h : processCommitment env chain s nHeight blockHash qc false fBLSChecks = (.ok (), s'))
    (k : LLMQType × Nat) :
    s'.minableCommitmentsByQuorum k =
      if k ∈ slotsOf env [qc] then none else s.minableCommitmentsByQuorum k := by
  obtain ⟨p, hres, ⟨hnull, -, rfl⟩ | ⟨hnull, -, -, -, ⟨h₁, -⟩ | ⟨-, s₁, base, hf, -, rfl⟩⟩⟩ :=
    processCommitment_ok h
  · simp [slotsOf, hnull]
  · cases h₁
  · simp only [slotsOf, hnull, List.filter_cons, Bool.not_false, if_true, List.filter_nil,
      List.map_cons, List.map_nil, List.mem_singleton, commitToStore, hf.byQuorum,
      Env.getLLMQParams_type hres.params]
    split_ifs with hk
    · rw [hk, Function.update_same]
    · exact Function.update_noteq hk _ _

theorem processCommitments_byQuorum :
    ∀ {qcs : List FinalCommitment} {s s' : State},
      processCommitments env chain nHeight blockHash false fBLSChecks qcs s = (.ok (), s') →
      ∀ k, s'.minableCommitmentsByQuorum k =
        if k ∈ slotsOf env qcs then none else s.minableCommitmentsByQuorum k
  | [], _, _, h, k => by cases h; simp
  | qc :: qcs, s, s', h, k => by
    unfold processCommitments at h
    split at h
    · cases h
    rename_i s₁ h₁
    rw [processCommitments_byQuorum h k, processCommitment_byQuorum h₁ k, slotsOf_cons,
      slotsOf_cons, slotsOf_nil]
    by_cases hk : k ∈ slotsOf env qcs <;> cases env.isNull qc <;> simp [hk]

end byQuorum

/-- `UndoBlock` のループは、どの null でないコミットメントも型が知られ、そのクォーラムが
`minableCommitmentsByQuorum` になく、クォーラムが互いに異なれば失敗しない。 -/
theorem undoCommitments_ok {pindex : BlockIndex} :
    ∀ {qcs : List FinalCommitment} {s : State},
      (∀ qc ∈ qcs, env.isNull qc = false → (env.getLLMQParams qc.llmqType).isSome) →
      (∀ k ∈ slotsOf env qcs, s.minableCommitmentsByQuorum k = none) →
      (slotsOf env qcs).Nodup → ∃ s', undoCommitments env pindex qcs s = (.ok (), s')
  | [], s, _, _, _ => ⟨s, rfl⟩
  | qc :: qcs, s, hp, hk, hnd => by
    rw [undoCommitments]
    rw [slotsOf_cons] at hk hnd
    split
    · rename_i hnull
      rw [if_pos hnull] at hk hnd
      exact undoCommitments_ok (fun c hc => hp c (List.mem_cons_of_mem _ hc)) hk hnd
    rename_i hnull
    replace hnull : env.isNull qc = false := by simpa using hnull
    rw [if_neg (by simp [hnull])] at hk hnd
    obtain ⟨p, hpq⟩ := Option.isSome_iff_exists.1 (hp qc (List.mem_cons_self _ _) hnull)
    rw [hpq]
    have hnone : (eraseMinedCommitment env pindex p qc s).minableCommitmentsByQuorum
        (qc.llmqType, qc.quorumHash) = none := hk _ (List.mem_cons_self _ _)
    simp only [addMineableCommitment, hnone]
    refine undoCommitments_ok (fun c hc => hp c (List.mem_cons_of_mem _ hc)) (fun k hk' => ?_)
      (List.nodup_cons.1 hnd).2
    have hne : k ≠ (qc.llmqType, qc.quorumHash) := fun e => (List.nodup_cons.1 hnd).1 (e ▸ hk')
    exact (Function.update_noteq hne _ _).trans (hk k (List.mem_cons_of_mem _ hk'))

/-- `ProcessBlock(B, pindex, state, fJustCheck=false)` が成功した直後の `UndoBlock(B, pindex)` は
成功する。ただし `pindex` は親を持ち（ジェネシスでない）、DIP0003 の前の高さでは、ブロックは
コミットメントのトランザクションを持たない（`ProcessBlock` はそこで取り出さないが、`UndoBlock` は
取り出して `bad-qc-premature` で拒む）。 -/
theorem undoBlock_of_processBlock {chain : Chain} {s s' : State} {block : Block}
    {pindex : BlockIndex} {fBLSChecks : Bool}
    (hp : processBlock env chain s block pindex false fBLSChecks = (.ok (), s'))
    (hgen : 0 < pindex.nHeight)
    (hprem : pindex.nHeight < env.dip0003Height →
      ∀ tx ∈ block.vtx, tx.nType ≠ env.txTypeQuorumCommitment) :
    (undoBlock env s' block pindex).1 = .ok () := by
  obtain ⟨pprev, hpprev⟩ := BlockIndex.pprev_of_pos hgen
  rcases processBlock_ok_cases hp with ⟨hdip, rfl⟩ | ⟨qcs, s₁, s₂, hget, -, hcomm, rfl⟩
  · have hget : getCommitmentsFromBlock env block pindex = .ok [] := by
      simp [getCommitmentsFromBlock, getCommitmentsFromTxs_of_no_commitment (hprem hdip)]
    simp [undoBlock, hget, undoCommitments, hpprev]
  · obtain ⟨hchk, -, hnodup⟩ := processCommitments_ok hcomm
    obtain ⟨s₃, hs₃⟩ := @undoCommitments_ok env pindex qcs (s₂.setBestBlockUpgrade block.hash)
      (fun qc hq _ => by
        obtain ⟨p, hres, -⟩ := (hchk qc hq).resolved
        simp [hres.params])
      (fun k hk => by
        simp only [State.setBestBlockUpgrade, processCommitments_byQuorum hcomm k, if_pos hk])
      (hnodup rfl)
    simp [undoBlock, hget, hs₃, hpprev]

theorem undoBlock_of_processBlock_demo :
    processBlock demoEnv (demoChain 5) State.empty goodBlock (BlockIndex.child (demoChain 5) 106)
        false true =
      (.ok (), (processBlock demoEnv (demoChain 5) State.empty goodBlock
        (BlockIndex.child (demoChain 5) 106) false true).2) ∧
      0 < (BlockIndex.child (demoChain 5) 106).nHeight ∧
      ((BlockIndex.child (demoChain 5) 106).nHeight < demoEnv.dip0003Height →
        ∀ tx ∈ goodBlock.vtx, tx.nType ≠ demoEnv.txTypeQuorumCommitment) ∧
      (undoBlock demoEnv (processBlock demoEnv (demoChain 5) State.empty goodBlock
        (BlockIndex.child (demoChain 5) 106) false true).2 goodBlock
        (BlockIndex.child (demoChain 5) 106)).1 = .ok () :=
  have hp : processBlock demoEnv (demoChain 5) State.empty goodBlock
      (BlockIndex.child (demoChain 5) 106) false true =
      (.ok (), (processBlock demoEnv (demoChain 5) State.empty goodBlock
        (BlockIndex.child (demoChain 5) 106) false true).2) := Prod.ext (by decide) rfl
  have hgen : 0 < (BlockIndex.child (demoChain 5) 106).nHeight := by decide
  have hprem : (BlockIndex.child (demoChain 5) 106).nHeight < demoEnv.dip0003Height →
      ∀ tx ∈ goodBlock.vtx, tx.nType ≠ demoEnv.txTypeQuorumCommitment :=
    fun h => absurd h (by decide)
  ⟨hp, hgen, hprem, undoBlock_of_processBlock hp hgen hprem⟩

/-- DIP0003 の高さを 10 にした例の構成。 -/
def lateDipEnv : Env := { demoEnv with dip0003Height := 10 }

/-- 例のジェネシスのブロック。 -/
def genesisBlock : Block := ⟨100, []⟩

/-- 高さ 6 が DIP0003 の前なら、`ProcessBlock` は `goodBlock` を取り出さずに受け入れるが、
`UndoBlock` は取り出して `bad-qc-premature` で拒む。ジェネシスは受け入れられるが、`UndoBlock` は
`pindex->pprev` の null を参照する。 -/
theorem undoBlock_fails_after_processBlock :
    (processBlock lateDipEnv (demoChain 5) State.empty goodBlock
      (BlockIndex.child (demoChain 5) 106) false true).1 = .ok () ∧
      (undoBlock lateDipEnv (processBlock lateDipEnv (demoChain 5) State.empty goodBlock
        (BlockIndex.child (demoChain 5) 106) false true).2 goodBlock
        (BlockIndex.child (demoChain 5) 106)).1 = .error .rejected ∧
      (processBlock demoEnv [] State.empty genesisBlock (demoBlockIndex 0) false true).1 = .ok () ∧
      (undoBlock demoEnv (processBlock demoEnv [] State.empty genesisBlock (demoBlockIndex 0)
        false true).2 genesisBlock (demoBlockIndex 0)).1 = .error .assertion := by
  decide

end QuorumBlockProcessor
