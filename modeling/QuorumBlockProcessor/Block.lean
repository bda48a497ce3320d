import QuorumBlockProcessor.Pool

/-!
# ブロックの処理と取り消し

`GetCommitmentsFromBlock`、`ProcessCommitment`、`ProcessBlock`、`UndoBlock`。ログ、
`bls_legacy_scheme` の切り替え、`PreComputeQuorumMembers` は状態に残らないので扱わない。
-/

namespace QuorumBlockProcessor

/-! ## evoDb への書き込み -/

namespace EvoDb

/-- `m_evoDb.Write(DB_BEST_BLOCK_UPGRADE, hash)`。 -/
def setBestBlockUpgrade (db : EvoDb) (hash : Nat) : EvoDb :=
  { db with bestBlockUpgrade := some hash }

/-- `ProcessCommitment` の書き込み：`DB_MINED_COMMITMENT` のレコードと、回転の有無で選ぶ
逆順の高さの索引の一つ。 -/
def writeCommitment (db : EvoDb) (rotationEnabled : Bool) (llmqType : LLMQType)
    (quorumHash : Nat) (qc : FinalCommitment) (blockHash : Nat)
    (nMinedHeight quorumHeight : Nat) : EvoDb :=
  let mined := Function.update db.minedCommitment (llmqType, quorumHash) (some (qc, blockHash))
  let db := { db with minedCommitment := mined }
  if rotationEnabled then
    let key := buildInversedHeightKeyIndexed llmqType nMinedHeight qc.quorumIndex
    { db with minedByInversedHeightIndexed :=
        Function.update db.minedByInversedHeightIndexed key (some quorumHeight) }
  else
    let key := buildInversedHeightKey llmqType nMinedHeight
    { db with
      minedByInversedHeight := Function.update db.minedByInversedHeight key (some quorumHeight) }

/-- `UndoBlock` の `DB_MINED_COMMITMENT` の消去。 -/
def eraseRecord (db : EvoDb) (llmqType : LLMQType) (quorumHash : Nat) : EvoDb :=
  { db with minedCommitment := Function.update db.minedCommitment (llmqType, quorumHash) none }

/-- `UndoBlock` の逆順の高さの索引の消去。 -/
def eraseInversedHeight (db : EvoDb) (rotationEnabled : Bool) (llmqType : LLMQType)
    (nMinedHeight : Nat) (quorumIndex : Int) : EvoDb :=
  if rotationEnabled then
    let key := buildInversedHeightKeyIndexed llmqType nMinedHeight quorumIndex
    { db with
      minedByInversedHeightIndexed := Function.update db.minedByInversedHeightIndexed key none }
  else
    let key := buildInversedHeightKey llmqType nMinedHeight
    { db with minedByInversedHeight := Function.update db.minedByInversedHeight key none }

end EvoDb

/-! ## ブロックからコミットメントを取り出す -/

/-- `std::multimap::emplace`：型の順に並べ、同じ型の中では入れた順に後ろへ置く。 -/
def multimapEmplace (qc : FinalCommitment) : List FinalCommitment → List FinalCommitment
  | [] => [qc]
  | c :: cs => if qc.llmqType < c.llmqType then qc :: c :: cs else c :: multimapEmplace qc cs

/-- `qcs.count(llmqType)`。 -/
def countType (qcs : List FinalCommitment) (llmqType : LLMQType) : Nat :=
  qcs.countP (·.llmqType == llmqType)

/-- `GetCommitmentsFromBlock` のトランザクションのループ。回転のない型では一つのブロックに
一つまで。 -/
def getCommitmentsFromTxs (env : Env) (pindex : BlockIndex) :
    List Transaction → List FinalCommitment → Except Failure (List FinalCommitment)
  | [], ret => .ok ret
  | tx :: vtx, ret =>
    if tx.nType = env.txTypeQuorumCommitment then
      match tx.payload with
      | none => .error (.invalid "bad-qc-payload")
      | some qc =>
        match env.getLLMQParams qc.commitment.llmqType with
        | none => .error (.invalid "bad-qc-commitment-type")
        | some llmqParams =>
          if !env.isQuorumRotationEnabled llmqParams pindex &&
              countType ret qc.commitment.llmqType ≠ 0 then
            .error (.invalid "bad-qc-dup")
          else getCommitmentsFromTxs env pindex vtx (multimapEmplace qc.commitment ret)
    else getCommitmentsFromTxs env pindex vtx ret

/-- `GetCommitmentsFromBlock(block, pindex, ret, state)`。 -/
def getCommitmentsFromBlock (env : Env) (block : Block) (pindex : BlockIndex) :
    Except Failure (List FinalCommitment) :=
  match getCommitmentsFromTxs env pindex block.vtx [] with
  | .error e => .error e
  | .ok ret =>
    if pindex.nHeight < env.dip0003Height ∧ ret ≠ [] then .error (.invalid "bad-qc-premature")
    else .ok ret

/-! ## 一つのコミットメント -/

/-- `ProcessCommitment` の最後の部分：evoDb に書き、キャッシュと採掘できるものの表から消す。 -/
def commitToStore (env : Env) (s : State) (llmqParams : LLMQParams) (nHeight : Nat)
    (blockHash : Nat) (qc : FinalCommitment) (quorumHash : Nat)
    (pQuorumBaseBlockIndex : BlockIndex) : State where
  evoDb := s.evoDb.writeCommitment (env.isQuorumRotationEnabled llmqParams pQuorumBaseBlockIndex)
    llmqParams.type quorumHash qc blockHash nHeight pQuorumBaseBlockIndex.nHeight
  mapHasMinedCommitmentCache :=
    Function.update s.mapHasMinedCommitmentCache (qc.llmqType, qc.quorumHash) none
  minableCommitmentsByQuorum :=
    Function.update s.minableCommitmentsByQuorum (llmqParams.type, quorumHash) none
  minableCommitments := Function.update s.minableCommitments (env.serializeHash qc) none

/-- `ProcessCommitment` が `qc.quorumHash` と比べるハッシュ。先端がない（クラッシュの後の再生）
ときは `qc.quorumHash` そのもの。 -/
def expectedQuorumHash (chain : Chain) (llmqParams : LLMQParams) (nHeight : Nat)
    (qc : FinalCommitment) : Nat :=
  let quorumHash := getQuorumBlockHash chain llmqParams nHeight qc.quorumIndex
  if chain = [] then qc.quorumHash else quorumHash

/-- `ProcessCommitment(nHeight, blockHash, qc, state, fJustCheck, fBLSChecks)`。先端がない
（クラッシュの後の再生）ときは `qc.quorumHash` をそのまま使う。null のコミットメントは
`VerifyNull` の後すぐに成功し、採掘済みかどうかを確かめない。 -/
def processCommitment (env : Env) (chain : Chain) (s : State) (nHeight : Nat)
    (blockHash : Nat) (qc : FinalCommitment) (fJustCheck fBLSChecks : Bool) :
    Except Failure Unit × State :=
  match env.getLLMQParams qc.llmqType with
  | none => (.error .rejected, s)
  | some llmqParams =>
    let quorumHash := expectedQuorumHash chain llmqParams nHeight qc
    if quorumHash = 0 then (.error (.invalid "bad-qc-block"), s)
    else if quorumHash ≠ qc.quorumHash then (.error (.invalid "bad-qc-block"), s)
    else if env.isNull qc then
      if env.verifyNull qc then (.ok (), s) else (.error (.invalid "bad-qc-invalid-null"), s)
    else
      let r := hasMinedCommitment s llmqParams.type quorumHash
      if r.1 then (.error (.invalid "bad-qc-dup"), r.2)
      else
        match isMiningPhase chain llmqParams nHeight with
        | .error e => (.error e, r.2)
        | .ok false => (.error (.invalid "bad-qc-height"), r.2)
        | .ok true =>
          let pQuorumBaseBlockIndex := env.lookupBlockIndex qc.quorumHash
          if !env.verify qc pQuorumBaseBlockIndex fBLSChecks then
            (.error (.invalid "bad-qc-invalid"), r.2)
          else if fJustCheck then (.ok (), r.2)
          else
            match pQuorumBaseBlockIndex with
            | none => (.error .assertion, r.2)
            | some base =>
              (.ok (), commitToStore env r.2 llmqParams nHeight blockHash qc quorumHash base)

/-! ## ブロック -/

/-- `ProcessBlock` の数の確認：前のブロックで有効な型ごとに、ブロックの中の数が
`GetNumCommitmentsRequired` と等しい。先端がなければ確かめない（`break`）。 -/
def checkCommitmentCounts (env : Env) (chain : Chain) (nHeight : Nat)
    (qcs : List FinalCommitment) : List LLMQParams → State → Except Failure Unit × State
  | [], s => (.ok (), s)
  | params :: rest, s =>
    if chain = [] then (.ok (), s)
    else
      match getNumCommitmentsRequired env chain params nHeight s with
      | (.error e, s') => (.error e, s')
      | (.ok numCommitmentsRequired, s') =>
        let numCommitmentsInNewBlock := countType qcs params.type
        if numCommitmentsRequired < numCommitmentsInNewBlock then
          (.error (.invalid "bad-qc-not-allowed"), s')
        else if numCommitmentsRequired > numCommitmentsInNewBlock then
          (.error (.invalid "bad-qc-missing"), s')
        else checkCommitmentCounts env chain nHeight qcs rest s'

/-- `ProcessBlock` のコミットメントのループ：最初の失敗で止まる。 -/
def processCommitments (env : Env) (chain : Chain) (nHeight : Nat) (blockHash : Nat)
    (fJustCheck fBLSChecks : Bool) : List FinalCommitment → State → Except Failure Unit × State
  | [], s => (.ok (), s)
  | qc :: qcs, s =>
    match processCommitment env chain s nHeight blockHash qc fJustCheck fBLSChecks with
    | (.error e, s') => (.error e, s')
    | (.ok (), s') => processCommitments env chain nHeight blockHash fJustCheck fBLSChecks qcs s'

/-- `DB_BEST_BLOCK_UPGRADE` を書く。 -/
def State.setBestBlockUpgrade (s : State) (hash : Nat) : State :=
  { s with evoDb := s.evoDb.setBestBlockUpgrade hash }

/-- `ProcessBlock(block, pindex, state, fJustCheck, fBLSChecks)`。DIP0003 の前は印を書くだけ。 -/
def processBlock (env : Env) (chain : Chain) (s : State) (block : Block) (pindex : BlockIndex)
    (fJustCheck fBLSChecks : Bool) : Except Failure Unit × State :=
  if pindex.nHeight < env.dip0003Height then (.ok (), s.setBestBlockUpgrade block.hash)
  else
    match getCommitmentsFromBlock env block pindex with
    | .error e => (.error e, s)
    | .ok qcs =>
      let blockHash := block.hash
      match checkCommitmentCounts env chain pindex.nHeight qcs
          (env.getEnabledQuorumParams pindex.pprev) s with
      | (.error e, s₁) => (.error e, s₁)
      | (.ok (), s₁) =>
        match
          processCommitments env chain pindex.nHeight blockHash fJustCheck fBLSChecks qcs s₁ with
        | (.error e, s₂) => (.error e, s₂)
        | (.ok (), s₂) => (.ok (), s₂.setBestBlockUpgrade blockHash)

/-- `UndoBlock` が null でない一つのコミットメントについて evoDb とキャッシュから消すもの。 -/
def eraseMinedCommitment (env : Env) (pindex : BlockIndex) (llmqParams : LLMQParams)
    (qc : FinalCommitment) (s : State) : State :=
  let db := (s.evoDb.eraseRecord qc.llmqType qc.quorumHash).eraseInversedHeight
    (env.isQuorumRotationEnabled llmqParams pindex) qc.llmqType pindex.nHeight qc.quorumIndex
  let cache := Function.update s.mapHasMinedCommitmentCache (qc.llmqType, qc.quorumHash) none
  { s with evoDb := db, mapHasMinedCommitmentCache := cache }

/-- `UndoBlock` のループ：null でないコミットメントの項目を消し、キャッシュから消し、表に戻す。
型が知られていることを assert する。 -/
def undoCommitments (env : Env) (pindex : BlockIndex) :
    List FinalCommitment → State → Except Failure Unit × State
  | [], s => (.ok (), s)
  | qc :: qcs, s =>
    if env.isNull qc then undoCommitments env pindex qcs s
    else
      match env.getLLMQParams qc.llmqType with
      | none =>
        (.error .assertion, { s with evoDb := s.evoDb.eraseRecord qc.llmqType qc.quorumHash })
      | some llmqParams =>
        match addMineableCommitment env (eraseMinedCommitment env pindex llmqParams qc s) qc with
        | (.error e, s₂) => (.error e, s₂)
        | (.ok _, s₂) => undoCommitments env pindex qcs s₂

/-- `UndoBlock(block, pindex)`。取り出しに失敗すれば `false`。最後に印を親のハッシュにする。 -/
def undoBlock (env : Env) (s : State) (block : Block) (pindex : BlockIndex) :
    Except Failure Unit × State :=
  match getCommitmentsFromBlock env block pindex with
  | .error _ => (.error .rejected, s)
  | .ok qcs =>
    match undoCommitments env pindex qcs s with
    | (.error e, s₁) => (.error e, s₁)
    | (.ok (), s₁) =>
      match pindex.pprev with
      | none => (.error .assertion, s₁)
      | some pprev => (.ok (), s₁.setBestBlockUpgrade pprev.getBlockHash)

end QuorumBlockProcessor
