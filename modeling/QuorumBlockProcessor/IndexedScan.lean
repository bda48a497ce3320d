import QuorumBlockProcessor.Scan

/-!
# 索引つきの走査

`DB_MINED_COMMITMENT_BY_INVERSED_HEIGHT_Q_INDEXED` を `quorumIndex` ごとにたどる三つの走査。
`GetMinedCommitmentsIndexedUntilBlock` の `while` には回数の上限がないので、回数 `fuel` を持つ
ループとし、使い切れば `none` とする。
-/

namespace QuorumBlockProcessor

/-! ## キー -/

/-- `DB_MINED_COMMITMENT_BY_INVERSED_HEIGHT_Q_INDEXED`（`"q_mcihi"`）。 -/
def DB_MINED_COMMITMENT_BY_INVERSED_HEIGHT_Q_INDEXED : Bytes :=
  "q_mcihi".toList.map fun c => c.toNat.toUInt8

/-- `std::tuple<std::string, Consensus::LLMQType, int, uint32_t>`：
`BuildInversedHeightKeyIndexed` の組。 -/
structure InversedHeightKeyIndexed where
  tag : Bytes
  llmqType : LLMQType
  quorumIndex : Int
  inversedHeight : Nat
  deriving DecidableEq, Repr

/-- `BuildInversedHeightKeyIndexed(llmqType, nMinedHeight, quorumIndex)` の組。 -/
def buildInversedHeightKeyIndexedTuple (llmqType : LLMQType) (nMinedHeight : Nat)
    (quorumIndex : Int) : InversedHeightKeyIndexed :=
  ⟨DB_MINED_COMMITMENT_BY_INVERSED_HEIGHT_Q_INDEXED, llmqType, quorumIndex,
    htobe32 (inversedHeight nMinedHeight)⟩

/-- キーの組の直列化：文字列、1 バイトの型、4 バイトの `int`、リトルエンディアンの `uint32_t`。 -/
def InversedHeightKeyIndexed.serialize (k : InversedHeightKeyIndexed) : Bytes :=
  serString k.tag ++ k.llmqType :: (serInt k.quorumIndex ++ leBytes 4 k.inversedHeight)

/-- `std::tuple` の `operator<`。`quorumIndex` は符号つきの数として比べる。 -/
def InversedHeightKeyIndexed.lt (a b : InversedHeightKeyIndexed) : Bool :=
  bytesLt a.tag b.tag || (!bytesLt b.tag a.tag &&
    (a.llmqType < b.llmqType || (!(b.llmqType < a.llmqType) &&
      (a.quorumIndex < b.quorumIndex || (!(b.quorumIndex < a.quorumIndex) &&
        a.inversedHeight < b.inversedHeight)))))

/-- `int` を読む：4 バイトの 2 の補数。 -/
def readInt (bs : Bytes) : Option (Int × Bytes) :=
  (readLE 4 bs).map fun r =>
    (if r.1 < 2147483648 then (r.1 : Int) else (r.1 : Int) - 4294967296, r.2)

/-- `GetKey(curKey)`：キーを索引つきの組として読む。後ろに残るバイトは見ない。 -/
def getKeyIndexed (key : Bytes) : Option InversedHeightKeyIndexed :=
  (readString key).bind fun r =>
    match r.2 with
    | [] => none
    | llmqType :: rest =>
      (readInt rest).bind fun q => (readLE 4 q.2).map fun v => ⟨r.1, llmqType, q.1, v.1⟩

/-! ## 一つの `quorumIndex` -/

/-- `GetLastMinedCommitmentsByQuorumIndexUntilBlock` の `while` ループ。`currentCycle` 番目の項目で
`currentCycle == cycle` なら、その祖先を返す。止まり方は `GetMinedCommitmentsUntilBlock` と同じ。 -/
def lastMinedByQuorumIndexLoop (llmqType : LLMQType) (pindex : BlockIndex) (cycle : Nat)
    (lastKey : InversedHeightKeyIndexed) :
    List (Bytes × Bytes) → Nat → Except Failure (Option BlockIndex)
  | [], _ => .ok none
  | (key, value) :: rest, currentCycle =>
    match getKeyIndexed key with
    | none => .ok none
    | some curKey =>
      if !curKey.lt lastKey then .ok none
      else if curKey.tag ≠ DB_MINED_COMMITMENT_BY_INVERSED_HEIGHT_Q_INDEXED ∨
          curKey.llmqType ≠ llmqType then
        .ok none
      else
        let nMinedHeight := UINT32_MAX - htobe32 curKey.inversedHeight
        if nMinedHeight > pindex.nHeight % 4294967296 then .ok none
        else
          match getValue value with
          | none => .ok none
          | some quorumHeight =>
            match pindex.getAncestor quorumHeight with
            | none => .error .assertion
            | some pQuorumBaseBlockIndex =>
              if currentCycle = cycle then .ok (some pQuorumBaseBlockIndex)
              else lastMinedByQuorumIndexLoop llmqType pindex cycle lastKey rest (currentCycle + 1)

/-- `GetLastMinedCommitmentsByQuorumIndexUntilBlock(llmqType, pindex, quorumIndex, cycle)`。 -/
def getLastMinedCommitmentsByQuorumIndexUntilBlock (db : Db) (llmqType : LLMQType)
    (pindex : BlockIndex) (quorumIndex : Int) (cycle : Nat) : Except Failure (Option BlockIndex) :=
  let firstKey := buildInversedHeightKeyIndexedTuple llmqType pindex.nHeight quorumIndex
  let lastKey := buildInversedHeightKeyIndexedTuple llmqType 0 quorumIndex
  lastMinedByQuorumIndexLoop llmqType pindex cycle lastKey (db.seek firstKey.serialize) 0

/-! ## すべての `quorumIndex` -/

/-- `GetLastMinedCommitmentsPerQuorumIndexUntilBlock` の `for` ループ：結果のある `quorumIndex` の
組を順に足す。 -/
def collectPerQuorumIndex (db : Db) (llmqType : LLMQType) (pindex : BlockIndex) (cycle : Nat) :
    List Nat → Except Failure (List (Int × BlockIndex))
  | [] => .ok []
  | quorumIndex :: rest =>
    match getLastMinedCommitmentsByQuorumIndexUntilBlock db llmqType pindex quorumIndex cycle with
    | .error e => .error e
    | .ok none => collectPerQuorumIndex db llmqType pindex cycle rest
    | .ok (some b) =>
      (collectPerQuorumIndex db llmqType pindex cycle rest).map ((quorumIndex, b) :: ·)

/-- `GetLastMinedCommitmentsPerQuorumIndexUntilBlock(llmqType, pindex, cycle)`。型が知られている
ことを assert する。 -/
def getLastMinedCommitmentsPerQuorumIndexUntilBlock (env : Env) (db : Db) (llmqType : LLMQType)
    (pindex : BlockIndex) (cycle : Nat) : Except Failure (List (Int × BlockIndex)) :=
  match env.getLLMQParams llmqType with
  | none => .error .assertion
  | some llmqParams =>
    collectPerQuorumIndex db llmqType pindex cycle (List.range llmqParams.signingActiveQuorumCount)

/-! ## 周期を進める -/

/-- `GetMinedCommitmentsIndexedUntilBlock` の `while` ループを高々 `fuel` 回まわす。使い切れば
`none`。 -/
def minedCommitmentsIndexedLoop (env : Env) (db : Db) (llmqType : LLMQType) (pindex : BlockIndex)
    (maxCount : Nat) : Nat → Nat → List BlockIndex → Option (Except Failure (List BlockIndex))
  | 0, _, _ => none
  | fuel + 1, cycle, ret =>
    if ret.length < maxCount then
      match getLastMinedCommitmentsPerQuorumIndexUntilBlock env db llmqType pindex cycle with
      | .error e => some (.error e)
      | .ok cycleRet =>
        if cycleRet.isEmpty then some (.ok ret)
        else
          let cycleRetTransformed := cycleRet.map (·.2)
          let needToCopy := maxCount - ret.length
          minedCommitmentsIndexedLoop env db llmqType pindex maxCount fuel (cycle + 1)
            (ret ++ cycleRetTransformed.take (min needToCopy cycleRetTransformed.length))
    else some (.ok ret)

/-- `GetMinedCommitmentsIndexedUntilBlock(llmqType, pindex, maxCount)`。ループは一回ごとに返るか
少なくとも一つ足すので、`maxCount + 1` 回で足りる（`Lemmas.IndexedScan`）。 -/
def getMinedCommitmentsIndexedUntilBlock (env : Env) (db : Db) (llmqType : LLMQType)
    (pindex : BlockIndex) (maxCount : Nat) : Option (Except Failure (List BlockIndex)) :=
  minedCommitmentsIndexedLoop env db llmqType pindex maxCount (maxCount + 1) 0 []

/-! ## 型ごとの最近のコミットメント -/

/-- `std::map<LLMQType, std::vector<...>>` の `ret[k]` の列を `f` で変える：キーの昇順に並んだ組の
列で、`k` がなければ空の列から作ってその位置に入れる。 -/
def mapModifyAt (k : LLMQType) (f : List BlockIndex → List BlockIndex) :
    List (LLMQType × List BlockIndex) → List (LLMQType × List BlockIndex)
  | [] => [(k, f [])]
  | (k', v) :: rest =>
    if k = k' then (k', f v) :: rest
    else if k < k' then (k, f []) :: (k', v) :: rest
    else (k', v) :: mapModifyAt k f rest

/-- `GetMinedAndActiveCommitmentsUntilBlock` の `for` ループ。回転のある型では周期 0 の索引ごとの
結果のブロックを、ない型では `signingActiveQuorumCount` 個までの平らな走査の結果を、`ret[type]` の
後ろに足す。 -/
def collectMinedAndActive (env : Env) (db : Db) (pindex : BlockIndex) :
    List LLMQParams → List (LLMQType × List BlockIndex) →
      Except Failure (List (LLMQType × List BlockIndex))
  | [], ret => .ok ret
  | params :: rest, ret =>
    if env.isQuorumRotationEnabled params pindex then
      match getLastMinedCommitmentsPerQuorumIndexUntilBlock env db params.type pindex 0 with
      | .error e => .error e
      | .ok commitments =>
        collectMinedAndActive env db pindex rest
          (mapModifyAt params.type (· ++ commitments.map (·.2)) ret)
    else
      match getMinedCommitmentsUntilBlock db params.type pindex params.signingActiveQuorumCount with
      | .error e => .error e
      | .ok commitments =>
        collectMinedAndActive env db pindex rest (mapModifyAt params.type (· ++ commitments) ret)

/-- `GetMinedAndActiveCommitmentsUntilBlock(pindex)`：`Params().GetConsensus().llmqs` の型ごとに。 -/
def getMinedAndActiveCommitmentsUntilBlock (env : Env) (db : Db) (pindex : BlockIndex) :
    Except Failure (List (LLMQType × List BlockIndex)) :=
  collectMinedAndActive env db pindex env.llmqs []

end QuorumBlockProcessor
