import QuorumBlockProcessor.Block

/-!
# 各操作が変えうるもの

操作ごとに、状態のどの部分をどう変えうるかを一度だけ述べる。後の不変条件の証明は、ここの補題を
引き、操作の定義を開かない。
-/

namespace QuorumBlockProcessor

variable {env : Env}

/-! ## evoDb への書き込みと消去 -/

namespace EvoDb

variable (db : EvoDb) (rotationEnabled : Bool) (llmqType : LLMQType)

@[simp] theorem writeCommitment_minedCommitment (quorumHash : Nat) (qc : FinalCommitment)
    (blockHash nMinedHeight quorumHeight : Nat) :
    (db.writeCommitment rotationEnabled llmqType quorumHash qc blockHash nMinedHeight
      quorumHeight).minedCommitment =
      Function.update db.minedCommitment (llmqType, quorumHash) (some (qc, blockHash)) := by
  unfold writeCommitment; split <;> rfl

@[simp] theorem writeCommitment_minedByInversedHeight (quorumHash : Nat) (qc : FinalCommitment)
    (blockHash nMinedHeight quorumHeight : Nat) :
    (db.writeCommitment rotationEnabled llmqType quorumHash qc blockHash nMinedHeight
      quorumHeight).minedByInversedHeight =
      if rotationEnabled then db.minedByInversedHeight
      else Function.update db.minedByInversedHeight (buildInversedHeightKey llmqType nMinedHeight)
        (some quorumHeight) := by
  unfold writeCommitment; split <;> rfl

@[simp] theorem writeCommitment_minedByInversedHeightIndexed (quorumHash : Nat)
    (qc : FinalCommitment) (blockHash nMinedHeight quorumHeight : Nat) :
    (db.writeCommitment rotationEnabled llmqType quorumHash qc blockHash nMinedHeight
      quorumHeight).minedByInversedHeightIndexed =
      if rotationEnabled then
        Function.update db.minedByInversedHeightIndexed
          (buildInversedHeightKeyIndexed llmqType nMinedHeight qc.quorumIndex) (some quorumHeight)
      else db.minedByInversedHeightIndexed := by
  unfold writeCommitment; split <;> rfl

@[simp] theorem writeCommitment_bestBlockUpgrade (quorumHash : Nat) (qc : FinalCommitment)
    (blockHash nMinedHeight quorumHeight : Nat) :
    (db.writeCommitment rotationEnabled llmqType quorumHash qc blockHash nMinedHeight
      quorumHeight).bestBlockUpgrade = db.bestBlockUpgrade := by
  unfold writeCommitment; split <;> rfl

@[simp] theorem eraseInversedHeight_minedCommitment (nMinedHeight : Nat) (quorumIndex : Int) :
    (db.eraseInversedHeight rotationEnabled llmqType nMinedHeight quorumIndex).minedCommitment =
      db.minedCommitment := by
  unfold eraseInversedHeight; split <;> rfl

@[simp] theorem eraseInversedHeight_minedByInversedHeight (nMinedHeight : Nat) (quorumIndex : Int) :
    (db.eraseInversedHeight rotationEnabled llmqType nMinedHeight
      quorumIndex).minedByInversedHeight =
      if rotationEnabled then db.minedByInversedHeight
      else Function.update db.minedByInversedHeight (buildInversedHeightKey llmqType nMinedHeight)
        none := by
  unfold eraseInversedHeight; split <;> rfl

@[simp] theorem eraseInversedHeight_minedByInversedHeightIndexed (nMinedHeight : Nat)
    (quorumIndex : Int) :
    (db.eraseInversedHeight rotationEnabled llmqType nMinedHeight
      quorumIndex).minedByInversedHeightIndexed =
      if rotationEnabled then
        Function.update db.minedByInversedHeightIndexed
          (buildInversedHeightKeyIndexed llmqType nMinedHeight quorumIndex) none
      else db.minedByInversedHeightIndexed := by
  unfold eraseInversedHeight; split <;> rfl

@[simp] theorem eraseInversedHeight_bestBlockUpgrade (nMinedHeight : Nat) (quorumIndex : Int) :
    (db.eraseInversedHeight rotationEnabled llmqType nMinedHeight quorumIndex).bestBlockUpgrade =
      db.bestBlockUpgrade := by
  unfold eraseInversedHeight; split <;> rfl

end EvoDb

section stateUpdates

variable (s : State)

@[simp] theorem State.setBestBlockUpgrade_evoDb (hash : Nat) :
    (s.setBestBlockUpgrade hash).evoDb = s.evoDb.setBestBlockUpgrade hash := rfl

@[simp] theorem State.setBestBlockUpgrade_cache (hash : Nat) :
    (s.setBestBlockUpgrade hash).mapHasMinedCommitmentCache = s.mapHasMinedCommitmentCache := rfl

@[simp] theorem State.setBestBlockUpgrade_byQuorum (hash : Nat) :
    (s.setBestBlockUpgrade hash).minableCommitmentsByQuorum = s.minableCommitmentsByQuorum := rfl

@[simp] theorem State.setBestBlockUpgrade_minable (hash : Nat) :
    (s.setBestBlockUpgrade hash).minableCommitments = s.minableCommitments := rfl

@[simp] theorem State.minedView_setBestBlockUpgrade (hash : Nat) :
    (s.setBestBlockUpgrade hash).minedView = s.minedView := rfl

theorem commitToStore_minedView {env : Env} {llmqParams : LLMQParams} {nHeight blockHash : Nat}
    {qc : FinalCommitment} {base : BlockIndex} (htype : llmqParams.type = qc.llmqType) :
    (commitToStore env s llmqParams nHeight blockHash qc qc.quorumHash base).minedView =
      Function.update s.minedView (qc.llmqType, qc.quorumHash) true := by
  funext k
  by_cases hk : k = (qc.llmqType, qc.quorumHash)
  · subst hk; simp [State.minedView, commitToStore, htype]
  · simp [State.minedView, commitToStore, Function.update_noteq hk, htype ▸ hk]

theorem eraseMinedCommitment_minedView {env : Env} {pindex : BlockIndex}
    {llmqParams : LLMQParams} {qc : FinalCommitment} :
    (eraseMinedCommitment env pindex llmqParams qc s).minedView =
      Function.update s.minedView (qc.llmqType, qc.quorumHash) false := by
  funext k
  by_cases hk : k = (qc.llmqType, qc.quorumHash)
  · subst hk; simp [State.minedView, eraseMinedCommitment, EvoDb.eraseRecord]
  · simp [State.minedView, eraseMinedCommitment, EvoDb.eraseRecord, Function.update_noteq hk]

end stateUpdates

/-! ## パラメータ -/

theorem Env.getLLMQParams_type {t : LLMQType} {p : LLMQParams} (h : env.getLLMQParams t = some p) :
    p.type = t := by
  simpa using List.find?_some h

theorem Env.getLLMQParams_mem {t : LLMQType} {p : LLMQParams} (h : env.getLLMQParams t = some p) :
    p ∈ env.llmqs :=
  List.mem_of_find?_eq_some h

/-! ## 表への追加 -/

section addMineableCommitment

variable (env) (s : State) (qc : FinalCommitment)

@[simp] theorem addMineableCommitment_evoDb :
    (addMineableCommitment env s qc).2.evoDb = s.evoDb := by
  dsimp only [addMineableCommitment]
  split
  · rfl
  · split
    · rfl
    · split <;> rfl

@[simp] theorem addMineableCommitment_cache :
    (addMineableCommitment env s qc).2.mapHasMinedCommitmentCache =
      s.mapHasMinedCommitmentCache := by
  dsimp only [addMineableCommitment]
  split
  · rfl
  · split
    · rfl
    · split <;> rfl

theorem addMineableCommitment_byQuorum_of_ne {k : LLMQType × Nat}
    (hk : k ≠ (qc.llmqType, qc.quorumHash)) :
    (addMineableCommitment env s qc).2.minableCommitmentsByQuorum k =
      s.minableCommitmentsByQuorum k := by
  dsimp only [addMineableCommitment]
  split
  · exact Function.update_noteq hk _ _
  · split
    · rfl
    · split
      · exact Function.update_noteq hk _ _
      · rfl

@[simp] theorem addMineableCommitment_minedView :
    (addMineableCommitment env s qc).2.minedView = s.minedView := by
  funext k; simp [State.minedView]

end addMineableCommitment

/-! ## ネットワークから届くコミットメント -/

/-- `ProcessMessage` が `qc` を表に渡す前に確かめること。 -/
structure MessageAdmits (env : Env) (qc : FinalCommitment) : Prop where
  notNull : env.isNull qc = false
  params : ∃ p, env.getLLMQParams qc.llmqType = some p ∧
    ∃ base, env.lookupBlockIndex qc.quorumHash = some base ∧
      ((base.nHeight - base.nHeight % p.dkgInterval : Nat) : Int) + qc.quorumIndex = base.nHeight ∧
      env.verify qc (some base) true = true

/-- `ProcessMessage` は、キャッシュを埋めるか、それに加えて、採掘されていないと見えた確かめた
`qc` を `AddMineableCommitment` に渡すだけ。 -/
theorem processMessage_spec {chain : Chain} {s s' : State} {qc : FinalCommitment}
    {r : Except Failure MessageResult} (h : processMessage env chain s qc = (r, s')) :
    s.CacheFill s' ∨
      ∃ s₁, s.CacheFill s₁ ∧ MessageAdmits env qc ∧
        s.minedView (qc.llmqType, qc.quorumHash) = false ∧
        (addMineableCommitment env s₁ qc).2 = s' := by
  unfold processMessage at h
  by_cases hnull : env.isNull qc = true
  · rw [if_pos hnull] at h; cases h; exact .inl (.refl s)
  rw [if_neg hnull] at h
  cases hp : env.getLLMQParams qc.llmqType with
  | none => rw [hp] at h; cases h; exact .inl (.refl s)
  | some p =>
  cases hb : env.lookupBlockIndex qc.quorumHash with
  | none => rw [hp, hb] at h; cases h; exact .inl (.refl s)
  | some base =>
  cases ht : chain.tip with
  | none => rw [hp, hb, ht] at h; cases h; exact .inl (.refl s)
  | some tip =>
  rw [hp, hb, ht] at h
  dsimp only at h
  by_cases hanc : tip.getAncestor base.nHeight ≠ some base
  · rw [if_pos hanc] at h; cases h; exact .inl (.refl s)
  rw [if_neg hanc] at h
  by_cases hq : ((base.nHeight - base.nHeight % p.dkgInterval : Nat) : Int) + qc.quorumIndex ≠
      base.nHeight
  · rw [if_pos hq] at h; cases h; exact .inl (.refl s)
  rw [if_neg hq] at h
  split at h
  · cases h; exact .inl (.refl s)
  have hf := hasMinedCommitment_cacheFill s qc.llmqType qc.quorumHash
  split at h
  · cases h; exact .inl hf
  rename_i hmined
  split at h
  · cases h; exact .inl hf
  split at h
  · cases h; exact .inl hf
  rename_i hv
  have hadm : MessageAdmits env qc :=
    ⟨by simpa using hnull, p, hp, base, hb, by simpa using hq, by simpa using hv⟩
  split at h <;>
  · rename_i hadd
    cases h
    exact .inr ⟨_, hf, hadm, by simpa using hmined, by rw [hadd]⟩

theorem processMessage_cases {chain : Chain} {s s' : State} {qc : FinalCommitment}
    {r : Except Failure MessageResult} (h : processMessage env chain s qc = (r, s')) :
    s.CacheFill s' ∨
      ∃ s₁, s.CacheFill s₁ ∧ MessageAdmits env qc ∧ (addMineableCommitment env s₁ qc).2 = s' :=
  (processMessage_spec h).imp_right fun ⟨s₁, hf, hadm, _, he⟩ => ⟨s₁, hf, hadm, he⟩

/-! ## 一つのコミットメント -/

/-- `ProcessCommitment` が確かめるハッシュ：型が知られ、計算したハッシュが null でなく
`qc.quorumHash` に等しい。 -/
structure HashResolved (env : Env) (chain : Chain) (nHeight : Nat) (qc : FinalCommitment)
    (llmqParams : LLMQParams) : Prop where
  params : env.getLLMQParams qc.llmqType = some llmqParams
  resolved : expectedQuorumHash chain llmqParams nHeight qc = qc.quorumHash
  nonNull : qc.quorumHash ≠ 0

section processCommitment

variable {chain : Chain} {s s' : State} {nHeight blockHash : Nat} {qc : FinalCommitment}
  {fJustCheck fBLSChecks : Bool}

/-- 失敗した `ProcessCommitment` は、キャッシュを埋めるだけ。 -/
theorem processCommitment_error {e : Failure}
    (h : processCommitment env chain s nHeight blockHash qc fJustCheck fBLSChecks =
      (.error e, s')) :
    s.CacheFill s' := by
  unfold processCommitment at h
  cases hp : env.getLLMQParams qc.llmqType with
  | none => rw [hp] at h; cases h; exact .refl s
  | some llmqParams =>
  rw [hp] at h
  dsimp only at h
  by_cases h0 : expectedQuorumHash chain llmqParams nHeight qc = 0
  · rw [if_pos h0] at h; cases h; exact .refl s
  rw [if_neg h0] at h
  by_cases hq : expectedQuorumHash chain llmqParams nHeight qc ≠ qc.quorumHash
  · rw [if_pos hq] at h; cases h; exact .refl s
  rw [if_neg hq] at h
  split at h
  · split at h <;> cases h; exact .refl s
  have hf :=
    hasMinedCommitment_cacheFill s llmqParams.type (expectedQuorumHash chain llmqParams nHeight qc)
  split at h
  · cases h; exact hf
  split at h
  · cases h; exact hf
  · cases h; exact hf
  split at h
  · cases h; exact hf
  split at h
  · cases h
  split at h
  · cases h; exact hf
  · cases h

/-- 成功した `ProcessCommitment`：null のコミットメントは何も変えない。null でないものは、
採掘されておらず採掘の窓にあり検証を通り、`fJustCheck` ならキャッシュを埋めるだけ、そうでなければ
`commitToStore` する。 -/
theorem processCommitment_ok
    (h : processCommitment env chain s nHeight blockHash qc fJustCheck fBLSChecks = (.ok (), s')) :
    ∃ llmqParams, HashResolved env chain nHeight qc llmqParams ∧
      ((env.isNull qc = true ∧ env.verifyNull qc = true ∧ s' = s) ∨
        (env.isNull qc = false ∧ s.minedView (llmqParams.type, qc.quorumHash) = false ∧
          isMiningPhase chain llmqParams nHeight = .ok true ∧
          env.verify qc (env.lookupBlockIndex qc.quorumHash) fBLSChecks = true ∧
          ((fJustCheck = true ∧ s.CacheFill s') ∨
            (fJustCheck = false ∧ ∃ s₁ base, s.CacheFill s₁ ∧
              env.lookupBlockIndex qc.quorumHash = some base ∧
              s' = commitToStore env s₁ llmqParams nHeight blockHash qc qc.quorumHash base)))) := by
  unfold processCommitment at h
  cases hp : env.getLLMQParams qc.llmqType with
  | none => rw [hp] at h; cases h
  | some llmqParams =>
  rw [hp] at h
  dsimp only at h
  by_cases h0 : expectedQuorumHash chain llmqParams nHeight qc = 0
  · rw [if_pos h0] at h; cases h
  rw [if_neg h0] at h
  by_cases heq : expectedQuorumHash chain llmqParams nHeight qc ≠ qc.quorumHash
  · rw [if_pos heq] at h; cases h
  rw [if_neg heq] at h
  have hq : expectedQuorumHash chain llmqParams nHeight qc = qc.quorumHash := not_not.mp heq
  refine ⟨llmqParams, ⟨hp, hq, hq ▸ h0⟩, ?_⟩
  rw [hq] at h
  split at h
  · split at h
    · cases h; exact .inl ⟨‹_›, ‹_›, rfl⟩
    · cases h
  rename_i hnull
  have hf := hasMinedCommitment_cacheFill s llmqParams.type qc.quorumHash
  split at h
  · cases h
  rename_i hmined
  split at h
  · cases h
  · cases h
  rename_i hm
  split at h
  · cases h
  rename_i hv
  refine .inr ⟨by simpa using hnull, by simpa using hmined, hm, by simpa using hv, ?_⟩
  split at h
  · cases h; exact .inl ⟨‹_›, hf⟩
  rename_i hj
  split at h
  · cases h
  · rename_i base hb
    cases h
    exact .inr ⟨by simpa using hj, _, base, hf, hb, rfl⟩

end processCommitment

/-! ## 数の確認 -/

theorem isMiningPhase_error {chain : Chain} {llmqParams : LLMQParams} {nHeight : Nat} {e : Failure}
    (h : isMiningPhase chain llmqParams nHeight = .error e) : e = .assertion := by
  unfold isMiningPhase at h
  split at h <;> cases h
  rfl

theorem getNumCommitmentsRequired_error {chain : Chain} {llmqParams : LLMQParams} {nHeight : Nat}
    {s : State} {e : Failure}
    (h : (getNumCommitmentsRequired env chain llmqParams nHeight s).1 = .error e) :
    e = .assertion := by
  unfold getNumCommitmentsRequired at h
  split at h
  · rename_i hm
    cases h
    exact isMiningPhase_error hm
  · cases h
  · split at h
    · simp at h; exact h.symm
    · cases h

theorem getNumCommitmentsRequired_cacheFill (chain : Chain) (llmqParams : LLMQParams)
    (nHeight : Nat) (s : State) :
    s.CacheFill (getNumCommitmentsRequired env chain llmqParams nHeight s).2 := by
  unfold getNumCommitmentsRequired
  split
  · exact .refl s
  · exact .refl s
  · split
    · exact .refl s
    · exact (countRequired_spec _ 0 s).2

theorem checkCommitmentCounts_cacheFill {chain : Chain} {nHeight : Nat}
    {qcs : List FinalCommitment} (ps : List LLMQParams) (s : State) :
    s.CacheFill (checkCommitmentCounts env chain nHeight qcs ps s).2 := by
  induction ps generalizing s with
  | nil => exact .refl s
  | cons p ps ih =>
    unfold checkCommitmentCounts
    split
    · exact .refl s
    have hf : s.CacheFill (getNumCommitmentsRequired env chain p nHeight s).2 :=
      getNumCommitmentsRequired_cacheFill chain p nHeight s
    split
    · rename_i h; rw [h] at hf; exact hf
    · rename_i h
      rw [h] at hf
      dsimp only
      split
      · exact hf
      split
      · exact hf
      · exact hf.trans (ih _)

/-! ## ひな形の問い合わせ -/

theorem collectMineable_cacheFill {chain : Chain} {llmqParams : LLMQParams} {nHeight : Nat}
    {rotationEnabled basicBlsEnabled : Bool} :
    ∀ (qs : List Nat) (ret : List FinalCommitment) (s : State),
      s.CacheFill (collectMineable env chain llmqParams nHeight rotationEnabled basicBlsEnabled
        qs ret s).2
  | [], _, s => .refl s
  | q :: qs, ret, s => by
    have hf := hasMinedCommitment_cacheFill s llmqParams.type
      (getQuorumBlockHash chain llmqParams nHeight q)
    dsimp only [collectMineable]
    split
    · exact .refl s
    split
    · exact hf.trans (collectMineable_cacheFill qs ret _)
    split
    · exact hf.trans (collectMineable_cacheFill qs _ _)
    split
    · exact hf
    · exact hf.trans (collectMineable_cacheFill qs _ _)

theorem getMineableCommitments_cacheFill (chain : Chain) (llmqParams : LLMQParams)
    (nHeight : Nat) (s : State) :
    s.CacheFill (getMineableCommitments env chain llmqParams nHeight s).2 := by
  have hf : s.CacheFill (getNumCommitmentsRequired env chain llmqParams nHeight s).2 :=
    getNumCommitmentsRequired_cacheFill chain llmqParams nHeight s
  unfold getMineableCommitments
  split
  · rename_i heq; rw [heq] at hf; exact hf
  rename_i s₁ heq
  rw [heq] at hf
  dsimp only
  split
  · exact hf
  split
  · exact hf
  rename_i pindex _
  have hc : s₁.CacheFill (collectMineable env chain llmqParams nHeight
      (env.isQuorumRotationEnabled llmqParams pindex) (env.isV19Active pindex)
      (List.range (quorumsNum env llmqParams pindex)) [] s₁).2 := collectMineable_cacheFill _ [] _
  split <;>
  · rename_i heq'
    rw [heq'] at hc
    exact hf.trans hc

/-! ## 保たれる性質

キャッシュを埋めることと `ProcessCommitment` の書き込みで保たれる性質は、`ProcessBlock` で保たれる。
`UndoBlock` についても、消去と `AddMineableCommitment` で保たれるものは保たれる。 -/

section preserves

variable (P : State → Prop) (hfill : ∀ {s s' : State}, s.CacheFill s' → P s → P s')
  (hbest : ∀ {s : State} (hash : Nat), P s → P (s.setBestBlockUpgrade hash))

section commit

variable (hcommit : ∀ {s : State} {llmqParams : LLMQParams} {nHeight blockHash : Nat}
    {qc : FinalCommitment} {base : BlockIndex}, llmqParams.type = qc.llmqType → P s →
    P (commitToStore env s llmqParams nHeight blockHash qc qc.quorumHash base))
include hfill hcommit

theorem processCommitment_preserves {chain : Chain} {s : State} {nHeight blockHash : Nat}
    {qc : FinalCommitment} {fJustCheck fBLSChecks : Bool} (hs : P s) :
    P (processCommitment env chain s nHeight blockHash qc fJustCheck fBLSChecks).2 := by
  rcases h : processCommitment env chain s nHeight blockHash qc fJustCheck fBLSChecks with ⟨r, s'⟩
  cases r with
  | error e => exact hfill (processCommitment_error h) hs
  | ok u =>
    obtain ⟨p, hres, ⟨-, -, rfl⟩ | ⟨-, -, -, -, ⟨-, hf⟩ | ⟨-, s₁, base, hf, -, rfl⟩⟩⟩ :=
      processCommitment_ok h
    · exact hs
    · exact hfill hf hs
    · exact hcommit (Env.getLLMQParams_type hres.params) (hfill hf hs)

theorem processCommitments_preserves {chain : Chain} {nHeight blockHash : Nat}
    {fJustCheck fBLSChecks : Bool} : ∀ (qcs : List FinalCommitment) {s : State}, P s →
    P (processCommitments env chain nHeight blockHash fJustCheck fBLSChecks qcs s).2
  | [], _, hs => hs
  | qc :: qcs, s, hs => by
    have h1 : P (processCommitment env chain s nHeight blockHash qc fJustCheck fBLSChecks).2 :=
      processCommitment_preserves P hfill hcommit hs
    unfold processCommitments
    split
    · rename_i heq; rw [heq] at h1; exact h1
    · rename_i heq; rw [heq] at h1; exact processCommitments_preserves qcs h1

include hbest in
theorem processBlock_preserves {chain : Chain} {s : State} {block : Block} {pindex : BlockIndex}
    {fJustCheck fBLSChecks : Bool} (hs : P s) :
    P (processBlock env chain s block pindex fJustCheck fBLSChecks).2 := by
  dsimp only [processBlock]
  split
  · exact hbest _ hs
  split
  · exact hs
  rename_i qcs _
  have h1 : P (checkCommitmentCounts env chain pindex.nHeight qcs
      (env.getEnabledQuorumParams pindex.pprev) s).2 :=
    hfill (checkCommitmentCounts_cacheFill _ s) hs
  split
  · rename_i heq; rw [heq] at h1; exact h1
  rename_i s₁ heq
  rw [heq] at h1
  have h2 : P (processCommitments env chain pindex.nHeight block.hash fJustCheck fBLSChecks qcs
      s₁).2 := processCommitments_preserves P hfill hcommit qcs h1
  split
  · rename_i heq'; rw [heq'] at h2; exact h2
  · rename_i heq'; rw [heq'] at h2; exact hbest _ h2

end commit

section undo

variable {pindex : BlockIndex}
  (herase : ∀ {s : State} {llmqParams : LLMQParams} {qc : FinalCommitment},
    P s → P (eraseMinedCommitment env pindex llmqParams qc s))
  (hadd : ∀ {s : State} (qc : FinalCommitment), P s → P (addMineableCommitment env s qc).2)
include herase hadd

theorem undoCommitments_preserves : ∀ (qcs : List FinalCommitment) {s s' : State},
    undoCommitments env pindex qcs s = (.ok (), s') → P s → P s'
  | [], _, _, h, hs => by cases h; exact hs
  | qc :: qcs, s, s', h, hs => by
    unfold undoCommitments at h
    split at h
    · exact undoCommitments_preserves qcs h hs
    split at h
    · cases h
    rename_i llmqParams _
    have h1 :
        P (addMineableCommitment env (eraseMinedCommitment env pindex llmqParams qc s) qc).2 :=
      hadd qc (herase hs)
    split at h
    · cases h
    · rename_i heq
      rw [heq] at h1
      exact undoCommitments_preserves qcs h h1

include hbest in
theorem undoBlock_preserves {s s' : State} {block : Block}
    (h : undoBlock env s block pindex = (.ok (), s')) (hs : P s) : P s' := by
  unfold undoBlock at h
  split at h
  · cases h
  split at h
  · cases h
  rename_i heq
  split at h
  · cases h
  · cases h
    exact hbest _ (undoCommitments_preserves P herase hadd _ heq hs)

end undo

end preserves

end QuorumBlockProcessor
