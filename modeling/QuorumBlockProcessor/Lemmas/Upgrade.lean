import QuorumBlockProcessor.Upgrade
import QuorumBlockProcessor.Lemmas.Safety
import QuorumBlockProcessor.Lemmas.Replay

/-!
# 移行と `ProcessBlock` の一致

成功した `ProcessBlock` が evoDb に書くものは、`UpgradeDB` がそのブロックを読み直して書くものと
同じ（`upgradeBlocks_of_connectBlocks`）。印は成功した `ProcessBlock` と `UndoBlock` がそのたびに
先端のハッシュにするので、移行の後も、チェーンを動かした後も、`UpgradeDB` は何も書かない。
-/

namespace QuorumBlockProcessor

variable {env : Env}

/-! ## 出力引数 -/

theorem getCommitmentsFromTxsRet_of_ok {pindex : BlockIndex} :
    ∀ {vtx : List Transaction} {ret l : List FinalCommitment},
      getCommitmentsFromTxs env pindex vtx ret = .ok l →
      getCommitmentsFromTxsRet env pindex vtx ret = l
  | [], _, _, h => by cases h; rfl
  | tx :: vtx, ret, l, h => by
    unfold getCommitmentsFromTxs at h
    unfold getCommitmentsFromTxsRet
    by_cases ht : tx.nType = env.txTypeQuorumCommitment
    · rw [if_pos ht] at h ⊢
      cases hp : tx.payload with
      | none => rw [hp] at h; cases h
      | some qc =>
      rw [hp] at h
      dsimp only at h ⊢
      cases hq : env.getLLMQParams qc.commitment.llmqType with
      | none => rw [hq] at h; cases h
      | some p =>
      rw [hq] at h
      dsimp only at h ⊢
      by_cases hd : (!env.isQuorumRotationEnabled p pindex &&
          decide (countType ret qc.commitment.llmqType ≠ 0)) = true
      · rw [if_pos hd] at h; cases h
      · rw [if_neg hd] at h ⊢
        exact getCommitmentsFromTxsRet_of_ok h
    · rw [if_neg ht] at h ⊢
      exact getCommitmentsFromTxsRet_of_ok h

theorem getCommitmentsFromBlockRet_of_ok {block : Block} {pindex : BlockIndex}
    {qcs : List FinalCommitment} (h : getCommitmentsFromBlock env block pindex = .ok qcs) :
    getCommitmentsFromBlockRet env block pindex = qcs := by
  unfold getCommitmentsFromBlock at h
  split at h
  · cases h
  rename_i ret hret
  split at h
  · cases h
  · cases h
    exact getCommitmentsFromTxsRet_of_ok hret

/-! ## 一つのブロック -/

theorem upgradeCommitments_of_processCommitments {chain : Chain} {pindex : BlockIndex}
    {fBLSChecks : Bool} :
    ∀ {qcs : List FinalCommitment} {s s' : State},
      processCommitments env chain pindex.nHeight pindex.getBlockHash false fBLSChecks qcs s =
        (.ok (), s') →
      upgradeCommitments env pindex qcs s.evoDb = (.ok (), s'.evoDb)
  | [], _, _, h => by cases h; rfl
  | qc :: qcs, s, s', h => by
    unfold processCommitments at h
    split at h
    · cases h
    rename_i s₁ h₁
    have ih := upgradeCommitments_of_processCommitments h
    unfold upgradeCommitments
    obtain ⟨p, hres, ⟨hnull, -, rfl⟩ | ⟨hnull, -, -, -, ⟨hj, -⟩ | ⟨-, s₂, base, hf, hb, rfl⟩⟩⟩ :=
      processCommitment_ok h₁
    · rw [if_pos hnull]
      exact ih
    · cases hj
    · rw [if_neg (by simp [hnull]), hres.params, hb]
      dsimp only
      rw [← hf.evoDb, ← Env.getLLMQParams_type hres.params]
      exact ih

/-- 先端の子として受け入れたブロックが evoDb に書くものは、移行がそのブロックを読み直して書くもの。 -/
theorem upgradeCommitments_of_processBlock {chain : Chain} {s s' : State} {block : Block}
    {pindex : BlockIndex} {fBLSChecks : Bool}
    (h : processBlock env chain s block pindex false fBLSChecks = (.ok (), s'))
    (hdip : env.dip0003Height ≤ pindex.nHeight) (hhash : pindex.getBlockHash = block.hash) :
    ∃ db, upgradeCommitments env pindex (getCommitmentsFromBlockRet env block pindex) s.evoDb =
      (.ok (), db) ∧ s'.evoDb = db.setBestBlockUpgrade block.hash := by
  rcases processBlock_ok_cases h with ⟨hlt, -⟩ | ⟨qcs, s₁, s₂, hqcs, hf, hcomm, rfl⟩
  · omega
  rw [← hhash] at hcomm
  refine ⟨s₂.evoDb, ?_, rfl⟩
  rw [getCommitmentsFromBlockRet_of_ok hqcs, ← hf.evoDb]
  exact upgradeCommitments_of_processCommitments hcomm

/-! ## ブロックの列 -/

theorem Chain.tip_bind_getAncestor {c : Chain} {i : Nat} (hi : i < c.length) :
    c.tip.bind (·.getAncestor i) = some (BlockIndex.child (c.take i) (c.get ⟨i, hi⟩)) := by
  have hne : c ≠ [] := List.ne_nil_of_length_pos (by omega)
  simp only [Chain.tip, dif_neg hne, Option.some_bind, BlockIndex.getAncestor, BlockIndex.nHeight]
  rw [if_pos (by omega), Option.some.injEq, BlockIndex.child]
  congr 1
  rw [Int.toNat_ofNat, List.take_succ, List.getElem?_eq_getElem hi]
  rfl

theorem Chain.blocksFrom_of_lt {c : Chain} {height : Nat} (hh : height < c.length) :
    c.blocksFrom height =
      BlockIndex.child (c.take height) (c.get ⟨height, hh⟩) :: c.blocksFrom (height + 1) := by
  obtain ⟨n, hn⟩ : ∃ n, c.length - height = n + 1 := ⟨c.length - height - 1, by omega⟩
  rw [Chain.blocksFrom, hn, List.range'_succ, List.filterMap_cons,
    Chain.tip_bind_getAncestor hh, Chain.blocksFrom, show c.length - (height + 1) = n by omega]

theorem Chain.blocksFrom_length (c : Chain) : c.blocksFrom c.length = [] := by
  simp [Chain.blocksFrom]

theorem Chain.blocksFrom_append_cons (chain : Chain) (hash : Nat) (hs : List Nat) :
    (chain ++ hash :: hs).blocksFrom chain.length =
      BlockIndex.child chain hash ::
        (chain ++ [hash] ++ hs).blocksFrom (chain ++ [hash]).length := by
  rw [Chain.blocksFrom_of_lt (by simp), List.get_eq_getElem,
    List.getElem_append_right (Nat.le_refl _)]
  simp

/-- `chain` の上につなぐブロック `bs` がディスクにある：読めて、刈り込まれていない。 -/
def OnDisk (store : BlockStore) : Chain → List (Block × Bool) → Prop
  | _, [] => True
  | chain, (block, _) :: rest =>
    (store.fPruneMode && !store.haveData (BlockIndex.child chain block.hash)) = false ∧
      store.readBlockFromDisk (BlockIndex.child chain block.hash) = some block ∧
      OnDisk store (chain ++ [block.hash]) rest

/-- 移行のループは、`ProcessBlock` でつないだブロックの列を一つずつ読み直し、つないだ後の evoDb を
作り直す。 -/
theorem upgradeBlocks_of_connectBlocks (store : BlockStore) :
    ∀ {bs : List (Block × Bool)} {chain : Chain} {s s' : State},
      env.dip0003Height ≤ chain.length → connectBlocks env chain bs s = some s' →
      OnDisk store chain bs →
      upgradeBlocks env store ((chain ++ bs.map (·.1.hash)).blocksFrom chain.length) s.evoDb =
        (.ok true, s'.evoDb)
  | [], chain, s, s', _, h, _ => by
    cases h
    rw [List.map_nil, List.append_nil, Chain.blocksFrom_length]
    rfl
  | (block, fBLSChecks) :: rest, chain, s, s', hdip, h, ⟨hprune, hread, hdisk⟩ => by
    unfold connectBlocks at h
    split at h
    · rename_i s₁ h₁
      obtain ⟨db, hdb, hs₁⟩ := upgradeCommitments_of_processBlock h₁
        (by simp [BlockIndex.child, BlockIndex.nHeight, hdip]) (BlockIndex.child_getBlockHash _ _)
      have ih := upgradeBlocks_of_connectBlocks store (by simp; omega) h hdisk
      rw [List.map_cons, Chain.blocksFrom_append_cons, upgradeBlocks, if_neg (by simp [hprune]),
        hread]
      dsimp only
      rw [hdb]
      dsimp only
      rw [BlockIndex.child_getBlockHash, ← hs₁]
      exact ih
    · cases h

/-- 移行は `ProcessBlock` の書いた evoDb を作り直す。`DIP0003EnforcementHeight` が `DIP0003Height`
より低くなく、チェーン `chain` の長さに等しいとき、その上にブロック `bs` を
`ProcessBlock(fJustCheck = false)` でつないだ evoDb は、つなぐ前の同じ evoDb から（印が先端を
指していなければ）`UpgradeDB` がディスクのブロックを読み直して作るものに等しく、`UpgradeDB` は
`true` を返す。レコード、二つの索引、印のどれも同じ。 -/
theorem upgradeDB_eq_connectBlocks (store : BlockStore) (evoDbIsEmpty : Bool) {chain : Chain}
    {bs : List (Block × Bool)} {s s' : State}
    (hdip : env.dip0003Height ≤ store.dip0003EnforcementHeight)
    (hlen : chain.length = store.dip0003EnforcementHeight) (hbs : bs ≠ [])
    (hc : connectBlocks env chain bs s = some s') (hdisk : OnDisk store chain bs)
    (hmark : s.evoDb.bestBlockUpgrade ≠ some (bs.getLast hbs).1.hash) :
    upgradeDB env store evoDbIsEmpty (chain ++ bs.map (·.1.hash)) s.evoDb =
      (.ok true, s'.evoDb) := by
  have hne : chain ++ bs.map (·.1.hash) ≠ [] := by simp [hbs]
  have htip : (chain ++ bs.map (·.1.hash)).tip = some ⟨_, hne⟩ := dif_neg hne
  have hlast : BlockIndex.getBlockHash ⟨chain ++ bs.map (·.1.hash), hne⟩ =
      (bs.getLast hbs).1.hash := by
    rw [BlockIndex.getBlockHash, List.getLast_append_of_ne_nil (by simpa using hbs),
      List.getLast_map]
  have hheight : (store.dip0003EnforcementHeight : Int) ≤ (chain ++ bs.map (·.1.hash)).height := by
    have := List.length_pos.2 hbs
    simp only [Chain.height, List.length_append, List.length_map]
    omega
  rw [upgradeDB, htip]
  dsimp only
  rw [hlast, if_neg hmark, if_pos hheight, ← hlen]
  exact upgradeBlocks_of_connectBlocks store (hlen ▸ hdip) hc hdisk

/-- 例のディスク：高さ 6 の索引で `goodBlock` を読める。刈り込まない。 -/
def demoStore : BlockStore where
  dip0003EnforcementHeight := 6
  fPruneMode := false
  haveData _ := true
  readBlockFromDisk pindex :=
    if pindex = BlockIndex.child (demoChain 5) 106 then some goodBlock else none

theorem upgradeDB_eq_connectBlocks_demo :
    connectBlocks demoEnv (demoChain 5) [(goodBlock, true)] State.empty = some afterGoodBlock ∧
      upgradeDB demoEnv demoStore true (demoChain 5 ++ [106]) State.empty.evoDb =
        (.ok true, afterGoodBlock.evoDb) :=
  have hc : connectBlocks demoEnv (demoChain 5) [(goodBlock, true)] State.empty =
      some afterGoodBlock := by
    rw [connectBlocks, show processBlock demoEnv (demoChain 5) State.empty goodBlock
      (BlockIndex.child (demoChain 5) goodBlock.hash) false true = (.ok (), afterGoodBlock) from
        Prod.ext (by decide) rfl]
    rfl
  ⟨hc, upgradeDB_eq_connectBlocks demoStore true (by decide) (by decide) (List.cons_ne_nil _ _) hc
    ⟨rfl, by decide, trivial⟩ (by decide)⟩

/-! ## もう一度の移行 -/

theorem upgradeBlocks_bestBlockUpgrade (store : BlockStore) :
    ∀ {bs : List BlockIndex} {db db' : EvoDb}, upgradeBlocks env store bs db = (.ok true, db') →
      db'.bestBlockUpgrade = (bs.getLast?.map (·.getBlockHash)).or db.bestBlockUpgrade
  | [], _, _, h => by cases h; rfl
  | pindex :: rest, db, db', h => by
    unfold upgradeBlocks at h
    split_ifs at h
    · cases h
    split at h
    · cases h
    split at h
    · cases h
    rw [upgradeBlocks_bestBlockUpgrade store h, List.getLast?_cons]
    cases rest.getLast? <;> rfl

theorem Chain.blocksFrom_getLast? {c : Chain} {height : Nat} (hh : height < c.length) :
    (c.blocksFrom height).getLast? = c.tip := by
  rw [Chain.blocksFrom_of_lt hh, List.getLast?_cons]
  by_cases hl : height + 1 < c.length
  · rw [Chain.blocksFrom_getLast? hl, Chain.tip, dif_neg (List.ne_nil_of_length_pos (by omega))]
    rfl
  · have hlen : height + 1 = c.length := by omega
    rw [hlen, Chain.blocksFrom_length, Chain.tip, dif_neg (List.ne_nil_of_length_pos (by omega))]
    simp only [List.getLast?_nil, Option.getD_none, BlockIndex.child, Option.some.injEq,
      BlockIndex.mk.injEq, List.get_eq_getElem]
    rw [← List.concat_eq_append, List.take_concat_get, hlen, List.take_of_length_le (le_refl _)]
termination_by c.length - height

/-- 印が先端のハッシュなら、`UpgradeDB` は何も書かずに `true` を返す。 -/
theorem upgradeDB_of_bestBlockUpgrade (store : BlockStore) (evoDbIsEmpty : Bool) {chain : Chain}
    {db : EvoDb} {tip : BlockIndex} (htip : chain.tip = some tip)
    (hm : db.bestBlockUpgrade = some tip.getBlockHash) :
    upgradeDB env store evoDbIsEmpty chain db = (.ok true, db) := by
  rw [upgradeDB, htip]
  exact if_pos hm

/-- `UpgradeDB` が `true` を返した後で、同じチェーンについてもう一度 `UpgradeDB` を呼んでも、何も
書かずに `true` を返す：ブロックを読み直したなら、印は先端のハッシュになっている。 -/
theorem upgradeDB_idempotent (store : BlockStore) (evoDbIsEmpty : Bool) (chain : Chain)
    {db db' : EvoDb} (h : upgradeDB env store evoDbIsEmpty chain db = (.ok true, db')) :
    upgradeDB env store evoDbIsEmpty chain db' = (.ok true, db') := by
  unfold upgradeDB at h
  cases htip : chain.tip with
  | none =>
    rw [htip] at h
    cases h
    rw [upgradeDB, htip]
  | some tip =>
    rw [htip] at h
    dsimp only at h
    split_ifs at h with hm hE
    · cases h
      exact upgradeDB_of_bestBlockUpgrade store _ htip hm
    · -- ブロックを読み直した：印は最後に読んだ先端のハッシュ
      have hlt : store.dip0003EnforcementHeight < chain.length := by
        simp only [Chain.height] at hE
        omega
      refine upgradeDB_of_bestBlockUpgrade store _ htip ?_
      rw [upgradeBlocks_bestBlockUpgrade store h, Chain.blocksFrom_getLast? hlt, htip]
      rfl
    · cases h
      rw [upgradeDB, htip]
      exact (if_neg hm).trans (if_neg hE)

theorem upgradeDB_idempotent_demo :
    upgradeDB demoEnv demoStore true (demoChain 5 ++ [106]) EvoDb.empty =
        (.ok true, (upgradeDB demoEnv demoStore true (demoChain 5 ++ [106]) EvoDb.empty).2) ∧
      upgradeDB demoEnv demoStore true (demoChain 5 ++ [106])
          (upgradeDB demoEnv demoStore true (demoChain 5 ++ [106]) EvoDb.empty).2 =
        (.ok true, (upgradeDB demoEnv demoStore true (demoChain 5 ++ [106]) EvoDb.empty).2) :=
  have h : upgradeDB demoEnv demoStore true (demoChain 5 ++ [106]) EvoDb.empty =
      (.ok true, (upgradeDB demoEnv demoStore true (demoChain 5 ++ [106]) EvoDb.empty).2) :=
    Prod.ext (by decide) rfl
  ⟨h, upgradeDB_idempotent demoStore true _ h⟩

/-! ## 印と先端 -/

/-- チェーンを一歩でも動かした後では、`UpgradeDB` は何も書かずに `true` を返す：成功した
`ProcessBlock` と `UndoBlock` は、そのたびに印を新しい先端のハッシュにする。`ProcessBlock` は
`fJustCheck` でも印を書くので、確かめるだけの呼び出しの書き込みは呼び出し側が捨てる必要がある。 -/
theorem upgradeDB_after_chainSteps (store : BlockStore) (evoDbIsEmpty : Bool) {n n' : Node}
    (h : Relation.TransGen (ChainStep env) n n') :
    upgradeDB env store evoDbIsEmpty n'.chain n'.state.evoDb = (.ok true, n'.state.evoDb) := by
  obtain ⟨_, -, hs⟩ := Relation.TransGen.tail'_iff.1 h
  obtain ⟨tip, htip, hm⟩ := hs.bestBlockUpgrade
  exact upgradeDB_of_bestBlockUpgrade store evoDbIsEmpty htip hm

/-- `goodBlock` をつないで切り離すと、チェーンは高さ 4 の先端に戻り、印はそのハッシュ 105。 -/
theorem upgradeDB_after_chainSteps_reorg :
    Relation.TransGen (ChainStep demoEnv) (Node.init (demoChain 5)) reorgNode ∧
      upgradeDB demoEnv demoStore false reorgNode.chain reorgNode.state.evoDb =
        (.ok true, reorgNode.state.evoDb) :=
  have h : Relation.TransGen (ChainStep demoEnv) (Node.init (demoChain 5)) reorgNode :=
    .tail (.single (.connect goodBlock true (by decide) (by decide) (Prod.ext (by decide) rfl)))
      (.disconnect goodBlock true (Prod.ext (by decide) rfl))
  ⟨h, upgradeDB_after_chainSteps demoStore false h⟩

end QuorumBlockProcessor
