import QuorumBlockProcessor.State

/-!
# 平らな索引の走査

`GetMinedCommitmentsUntilBlock` は evoDb をキーのバイト列の順に走査する。evoDb は、直列化した
キーの順に並んだ項目の列とする。キーの直列化と読み戻し（`CompactSize` の長さ、文字列、1 バイトの
型、4 バイトの `uint32_t`）と反復子は、このリポジトリの外（`serialize.h`、`dbwrapper.h`）にある
ので、仕様の言葉（バイト列の順の走査）と `serialize.h` の約束から書く。
-/

namespace QuorumBlockProcessor

/-- バイト列。 -/
abbrev Bytes := List UInt8

/-! ## バイト列の順 -/

/-- Modelled from the spec: leveldb の `BytewiseComparator`。最初に違うバイトで比べ、一方が他方の
始めの部分なら短い方が前。 -/
def bytesLt : Bytes → Bytes → Bool
  | [], [] => false
  | [], _ :: _ => true
  | _ :: _, [] => false
  | a :: as, b :: bs => a < b || (a == b && bytesLt as bs)

/-! ## 直列化 -/

/-- Modelled from the spec: `ser_writedata16/32/64`。値 `n` の下から `k` バイト。 -/
def leBytes : Nat → Nat → Bytes
  | 0, _ => []
  | k + 1, n => n.toUInt8 :: leBytes k (n / 256)

/-- Modelled from the spec: `ser_readdata16/32/64` が返す値。 -/
def leValue : Bytes → Nat
  | [] => 0
  | b :: bs => b.toNat + 256 * leValue bs

/-- `k` バイトを読む。足りなければ例外（`std::ios_base::failure`）。 -/
def readBytes (k : Nat) (bs : Bytes) : Option (Bytes × Bytes) :=
  if k ≤ bs.length then some (bs.take k, bs.drop k) else none

/-- リトルエンディアンの `k` バイトの整数を読む。 -/
def readLE (k : Nat) (bs : Bytes) : Option (Nat × Bytes) :=
  (readBytes k bs).map fun r => (leValue r.1, r.2)

/-- `MAX_SIZE`。 -/
def MAX_SIZE : Nat := 33554432

/-- Modelled from the spec: `WriteCompactSize(os, nSize)`。 -/
def writeCompactSize (nSize : Nat) : Bytes :=
  if nSize < 253 then [nSize.toUInt8]
  else if nSize ≤ 65535 then 253 :: leBytes 2 nSize
  else if nSize ≤ 4294967295 then 254 :: leBytes 4 nSize
  else 255 :: leBytes 8 nSize

/-- Modelled from the spec: `ReadCompactSize(is)`。正準でない符号化（`non-canonical
ReadCompactSize()`）と `MAX_SIZE` を超える長さは例外。 -/
def readCompactSize : Bytes → Option (Nat × Bytes)
  | [] => none
  | chSize :: rest =>
    let r : Option (Nat × Bytes) :=
      if chSize < 253 then some (chSize.toNat, rest)
      else if chSize = 253 then (readLE 2 rest).bind fun r => if r.1 < 253 then none else some r
      else if chSize = 254 then (readLE 4 rest).bind fun r => if r.1 < 65536 then none else some r
      else (readLE 8 rest).bind fun r => if r.1 < 4294967296 then none else some r
    r.bind fun r => if r.1 > MAX_SIZE then none else some r

/-- `std::string` の直列化：長さと中身。 -/
def serString (s : Bytes) : Bytes := writeCompactSize s.length ++ s

/-- `std::string` を読む。 -/
def readString (bs : Bytes) : Option (Bytes × Bytes) :=
  (readCompactSize bs).bind fun r => readBytes r.1 r.2

/-- `int` の直列化：4 バイトの 2 の補数。 -/
def serInt (v : Int) : Bytes := leBytes 4 (v % 4294967296).toNat

/-! ## キー -/

/-- `DB_MINED_COMMITMENT_BY_INVERSED_HEIGHT`（`"q_mcih"`）。 -/
def DB_MINED_COMMITMENT_BY_INVERSED_HEIGHT : Bytes :=
  "q_mcih".toList.map fun c => c.toNat.toUInt8

/-- `std::tuple<std::string, Consensus::LLMQType, uint32_t>`：`BuildInversedHeightKey` の組。 -/
structure InversedHeightKey where
  tag : Bytes
  llmqType : LLMQType
  inversedHeight : Nat
  deriving DecidableEq, Repr

/-- `BuildInversedHeightKey(llmqType, nMinedHeight)` の組。 -/
def buildInversedHeightKeyTuple (llmqType : LLMQType) (nMinedHeight : Nat) : InversedHeightKey :=
  ⟨DB_MINED_COMMITMENT_BY_INVERSED_HEIGHT, llmqType, htobe32 (inversedHeight nMinedHeight)⟩

/-- キーの組の直列化：文字列、1 バイトの型、リトルエンディアンの `uint32_t`。 -/
def InversedHeightKey.serialize (k : InversedHeightKey) : Bytes :=
  serString k.tag ++ k.llmqType :: leBytes 4 k.inversedHeight

/-- `std::tuple` の `operator<`：前の成分から比べ、`a < b` でも `b < a` でもなければ次の成分へ。
文字列は `unsigned char` として比べる。 -/
def InversedHeightKey.lt (a b : InversedHeightKey) : Bool :=
  bytesLt a.tag b.tag || (!bytesLt b.tag a.tag &&
    (a.llmqType < b.llmqType ||
      (!(b.llmqType < a.llmqType) && a.inversedHeight < b.inversedHeight)))

/-! ## 反復子 -/

/-- Modelled from the spec: 現在のトランザクションから見える evoDb の項目を、直列化したキーの
順に並べたもの。キーは重複しない。 -/
structure Db where
  entries : List (Bytes × Bytes)
  sorted : entries.Pairwise fun a b => bytesLt a.1 b.1 = true

/-- `Seek(key)`：`key` 以上の最初の項目から後ろ。 -/
def Db.seek (db : Db) (key : Bytes) : List (Bytes × Bytes) :=
  db.entries.dropWhile fun e => bytesLt e.1 key

/-- `GetKey(curKey)`：キーを組として読む。読めなければ `false`。後ろに残るバイトは見ない。 -/
def getKey (key : Bytes) : Option InversedHeightKey :=
  (readString key).bind fun r =>
    match r.2 with
    | [] => none
    | llmqType :: rest => (readLE 4 rest).map fun v => ⟨r.1, llmqType, v.1⟩

/-- `GetValue(quorumHeight)`：4 バイトの `int`。 -/
def getValue (value : Bytes) : Option Int :=
  (readLE 4 value).map fun r =>
    if r.1 < 2147483648 then (r.1 : Int) else (r.1 : Int) - 4294967296

/-! ## 走査 -/

/-- `GetMinedCommitmentsUntilBlock` の `while` ループ。`it` は反復子の位置から後ろの項目、`ret` は
集めたブロック。キーが読めない、`lastKey` 以上、名前空間か型が違う、高さが `pindex` より上、値が
読めない、のどれかで止まる。祖先がなければ assert。 -/
def minedCommitmentsLoop (llmqType : LLMQType) (pindex : BlockIndex) (maxCount : Nat)
    (lastKey : InversedHeightKey) :
    List (Bytes × Bytes) → List BlockIndex → Except Failure (List BlockIndex)
  | [], ret => .ok ret
  | (key, value) :: rest, ret =>
    if ret.length < maxCount then
      match getKey key with
      | none => .ok ret
      | some curKey =>
        if !curKey.lt lastKey then .ok ret
        else if curKey.tag ≠ DB_MINED_COMMITMENT_BY_INVERSED_HEIGHT ∨
            curKey.llmqType ≠ llmqType then
          .ok ret
        else
          let nMinedHeight := UINT32_MAX - htobe32 curKey.inversedHeight
          if nMinedHeight > pindex.nHeight % 4294967296 then .ok ret
          else
            match getValue value with
            | none => .ok ret
            | some quorumHeight =>
              match pindex.getAncestor quorumHeight with
              | none => .error .assertion
              | some pQuorumBaseBlockIndex =>
                minedCommitmentsLoop llmqType pindex maxCount lastKey rest
                  (ret ++ [pQuorumBaseBlockIndex])
    else .ok ret

/-- `GetMinedCommitmentsUntilBlock(llmqType, pindex, maxCount)`：`pindex` の高さから下へ、採掘された
コミットメントの基のブロックを新しい順に `maxCount` 個まで。 -/
def getMinedCommitmentsUntilBlock (db : Db) (llmqType : LLMQType) (pindex : BlockIndex)
    (maxCount : Nat) : Except Failure (List BlockIndex) :=
  let firstKey := buildInversedHeightKeyTuple llmqType pindex.nHeight
  let lastKey := buildInversedHeightKeyTuple llmqType 0
  minedCommitmentsLoop llmqType pindex maxCount lastKey (db.seek firstKey.serialize) []

end QuorumBlockProcessor
