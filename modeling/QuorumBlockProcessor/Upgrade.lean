import QuorumBlockProcessor.Block

/-!
# evoDb の移行

`UpgradeDB` は起動のときに `DIP0003EnforcementHeight` から先端までのブロックをディスクから
読み直し、レコードと索引の項目を直接書く。`GetCommitmentsFromBlock` が失敗しても、それまでに
`ret` に入れたコミットメントは書かれる（`getCommitmentsFromBlockRet`）。
-/

namespace QuorumBlockProcessor

/-- `UpgradeDB` が読む、このファイルの外のもの：`DIP0003EnforcementHeight`、`fPruneMode`、
ブロックの `nStatus & BLOCK_HAVE_DATA`、`ReadBlockFromDisk`。 -/
structure BlockStore where
  dip0003EnforcementHeight : Nat
  fPruneMode : Bool
  haveData : BlockIndex → Bool
  readBlockFromDisk : BlockIndex → Option Block

/-! ## `GetCommitmentsFromBlock` の出力引数 -/

/-- `GetCommitmentsFromBlock` のトランザクションのループが `ret` に残す列：`getCommitmentsFromTxs`
と同じ順に入れ、失敗したトランザクションで止まる。 -/
def getCommitmentsFromTxsRet (env : Env) (pindex : BlockIndex) :
    List Transaction → List FinalCommitment → List FinalCommitment
  | [], ret => ret
  | tx :: vtx, ret =>
    if tx.nType = env.txTypeQuorumCommitment then
      match tx.payload with
      | none => ret
      | some qc =>
        match env.getLLMQParams qc.commitment.llmqType with
        | none => ret
        | some llmqParams =>
          if !env.isQuorumRotationEnabled llmqParams pindex &&
              countType ret qc.commitment.llmqType ≠ 0 then ret
          else getCommitmentsFromTxsRet env pindex vtx (multimapEmplace qc.commitment ret)
    else getCommitmentsFromTxsRet env pindex vtx ret

/-- `GetCommitmentsFromBlock(block, pindex, ret, state)` の後の `ret`：`ret.clear()` から始め、
`bad-qc-premature` の確認は `ret` を変えない。 -/
def getCommitmentsFromBlockRet (env : Env) (block : Block) (pindex : BlockIndex) :
    List FinalCommitment :=
  getCommitmentsFromTxsRet env pindex block.vtx []

/-! ## 移行のループ -/

/-- `UpgradeDB` のコミットメントのループ：null でないコミットメントごとに、レコード
`(qc, pindex->GetBlockHash())` を書き、型が知られていることを assert し、基のブロックの
`nHeight` を回転の有無で選ぶ索引に書く。基のブロックがなければ参照で止まる。 -/
def upgradeCommitments (env : Env) (pindex : BlockIndex) :
    List FinalCommitment → EvoDb → Except Failure Unit × EvoDb
  | [], db => (.ok (), db)
  | qc :: qcs, db =>
    if env.isNull qc then upgradeCommitments env pindex qcs db
    else
      match env.getLLMQParams qc.llmqType, env.lookupBlockIndex qc.quorumHash with
      | some llmqParams, some pQuorumBaseBlockIndex =>
        upgradeCommitments env pindex qcs
          (db.writeCommitment (env.isQuorumRotationEnabled llmqParams pQuorumBaseBlockIndex)
            qc.llmqType qc.quorumHash qc pindex.getBlockHash pindex.nHeight
            pQuorumBaseBlockIndex.nHeight)
      | _, _ =>
        let mined := Function.update db.minedCommitment (qc.llmqType, qc.quorumHash)
          (some (qc, pindex.getBlockHash))
        (.error .assertion, { db with minedCommitment := mined })

/-- `UpgradeDB` の `while` ループ：刈り込んだノードでデータのないブロックに来たら `false` を返す
（それまでの書き込みは残る）。読めないブロックでは assert で止まる。ブロックごとに
`DB_BEST_BLOCK_UPGRADE` をそのハッシュにする。 -/
def upgradeBlocks (env : Env) (store : BlockStore) :
    List BlockIndex → EvoDb → Except Failure Bool × EvoDb
  | [], db => (.ok true, db)
  | pindex :: rest, db =>
    if store.fPruneMode && !store.haveData pindex then (.ok false, db)
    else
      match store.readBlockFromDisk pindex with
      | none => (.error .assertion, db)
      | some block =>
        match upgradeCommitments env pindex (getCommitmentsFromBlockRet env block pindex) db with
        | (.error e, db) => (.error e, db)
        | (.ok (), db) =>
          upgradeBlocks env store rest (db.setBestBlockUpgrade pindex.getBlockHash)

/-- `ChainActive()[height]` から `ChainActive().Next` で先端までたどるブロックの索引。 -/
def Chain.blocksFrom (chain : Chain) (height : Nat) : List BlockIndex :=
  (List.range' height (chain.length - height)).filterMap fun h : Nat =>
    chain.tip.bind (·.getAncestor h)

/-- `UpgradeDB()`。先端がなければ `m_evoDb.IsEmpty()` を返す。`DB_BEST_BLOCK_UPGRADE` が先端の
ハッシュなら何もしない。 -/
def upgradeDB (env : Env) (store : BlockStore) (evoDbIsEmpty : Bool) (chain : Chain)
    (db : EvoDb) : Except Failure Bool × EvoDb :=
  match chain.tip with
  | none => (.ok evoDbIsEmpty, db)
  | some tip =>
    if db.bestBlockUpgrade = some tip.getBlockHash then (.ok true, db)
    else if (store.dip0003EnforcementHeight : Int) ≤ chain.height then
      upgradeBlocks env store (chain.blocksFrom store.dip0003EnforcementHeight) db
    else (.ok true, db)

end QuorumBlockProcessor
