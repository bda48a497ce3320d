import Mathlib.Logic.Function.Basic
import Mathlib.Data.List.Basic

/-!
# 型と外部の関数

`llmq/blockprocessor.cpp` が読むデータの型。コミットメントのうち、このファイルが読まない暗号の値
（公開鍵、署名）は `Nat` で持つ。`uint256` のハッシュも `Nat` で持ち、0 が `IsNull()` のもの。ファイルの外にある関数（`Verify`、`VerifyNull`、
`IsQuorumRotationEnabled`、`SerializeHash` など）は `Env` の欄として受け取り、性質を仮定しない。
-/

namespace QuorumBlockProcessor

/-- `Consensus::LLMQType`（`uint8_t` の列挙）。 -/
abbrev LLMQType := UInt8

/-- `Consensus::LLMQParams` のうち、このファイルが読む欄。`dkgInterval` で割るので正とする。 -/
structure LLMQParams where
  type : LLMQType
  size : Nat
  dkgInterval : Nat
  dkgMiningWindowStart : Nat
  dkgMiningWindowEnd : Nat
  signingActiveQuorumCount : Nat
  dkgInterval_pos : 0 < dkgInterval
  deriving DecidableEq, Repr

/-- `CFinalCommitment`。`quorumIndex` は `int16_t`、`nVersion` は `uint16_t`。 -/
structure FinalCommitment where
  nVersion : Nat
  llmqType : LLMQType
  quorumHash : Nat
  quorumIndex : Int
  signers : List Bool
  validMembers : List Bool
  quorumPublicKey : Nat
  quorumVvecHash : Nat
  quorumSig : Nat
  membersSig : Nat
  deriving DecidableEq, Repr

namespace FinalCommitment

def countSigners (qc : FinalCommitment) : Nat := qc.signers.count true

/-- Modelled from the spec: コンストラクタ `CFinalCommitment(params, quorumHash)`。型とクォーラムの
ハッシュだけを持ち、メンバーと署名者は空（`params.size` 個の `false`）の null のコミットメント。 -/
def ofParams (params : LLMQParams) (quorumHash : Nat) : FinalCommitment where
  nVersion := 0
  llmqType := params.type
  quorumHash := quorumHash
  quorumIndex := 0
  signers := List.replicate params.size false
  validMembers := List.replicate params.size false
  quorumPublicKey := 0
  quorumVvecHash := 0
  quorumSig := 0
  membersSig := 0

end FinalCommitment

/-- `CFinalCommitmentTxPayload`。 -/
structure FinalCommitmentTxPayload where
  nHeight : Nat
  commitment : FinalCommitment
  deriving DecidableEq, Repr

/-- `CTransaction` のうち読む欄。`payload` は `GetTxPayload` の結果で、読めないときは `none`。 -/
structure Transaction where
  nVersion : Nat
  nType : Nat
  payload : Option FinalCommitmentTxPayload
  deriving DecidableEq, Repr

/-- `CBlock`。`hash` は `GetHash()`。 -/
structure Block where
  hash : Nat
  vtx : List Transaction
  deriving DecidableEq, Repr

/-- `CBlockIndex`。ジェネシスからこのブロックまでのハッシュの列で表す。 -/
structure BlockIndex where
  hashes : List Nat
  hashes_ne : hashes ≠ []
  deriving DecidableEq, Repr

namespace BlockIndex

def nHeight (b : BlockIndex) : Nat := b.hashes.length - 1

def getBlockHash (b : BlockIndex) : Nat := b.hashes.getLast b.hashes_ne

/-- `GetAncestor(height)`：範囲の外では `nullptr`。 -/
def getAncestor (b : BlockIndex) (height : Int) : Option BlockIndex :=
  if 0 ≤ height ∧ height ≤ b.nHeight then
    some ⟨b.hashes.take (height.toNat + 1), by simp [b.hashes_ne]⟩
  else none

/-- `pprev`。ジェネシスでは `nullptr`。 -/
def pprev (b : BlockIndex) : Option BlockIndex := b.getAncestor (b.nHeight - 1)

/-- 親 `pprev` の子として `hash` のブロックをつないだもの。 -/
def child (chain : List Nat) (hash : Nat) : BlockIndex :=
  ⟨chain ++ [hash], by simp⟩

end BlockIndex

/-- `ChainActive()`：ジェネシスから先端までのハッシュの列。空の列は `Tip() == nullptr`。 -/
abbrev Chain := List Nat

namespace Chain

/-- `ChainActive().Height()`。空のチェーンでは -1。 -/
def height (c : Chain) : Int := c.length - 1

/-- `ChainActive().Tip()`。 -/
def tip (c : Chain) : Option BlockIndex := if h : c = [] then none else some ⟨c, h⟩

/-- Modelled from the spec: `GetBlockHash(hash, height)`。有効なチェーンのその高さのブロックの
ハッシュ。まだ届かない高さでは得られない。 -/
def getBlockHash (chain : Chain) (height : Int) : Option Nat :=
  if 0 ≤ height then chain[height.toNat]? else none

end Chain

/-- このファイルの外にあるもの：コンセンサスのパラメータ、ブロックの索引、`utils` の判定、
コミットメントの検証とハッシュ。 -/
structure Env where
  /-- `Params().GetConsensus().llmqs`。型は重複しない。 -/
  llmqs : List LLMQParams
  llmqs_nodup : (llmqs.map LLMQParams.type).Nodup
  /-- `DIP0003Height`。 -/
  dip0003Height : Nat
  /-- `TRANSACTION_QUORUM_COMMITMENT`。 -/
  txTypeQuorumCommitment : Nat
  /-- `LookupBlockIndex`。ハッシュはブロックを一つに決め、null のハッシュのブロックはない。 -/
  lookupBlockIndex : Nat → Option BlockIndex
  lookup_null : lookupBlockIndex 0 = none
  lookup_hash : ∀ h b, lookupBlockIndex h = some b → b.getBlockHash = h
  isQuorumRotationEnabled : LLMQParams → BlockIndex → Bool
  isQuorumTypeEnabled : LLMQParams → Option BlockIndex → Bool
  isV19Active : BlockIndex → Bool
  /-- `CFinalCommitment::GetVersion(rotation, basic_bls)`。 -/
  getVersion : Bool → Bool → Nat
  isNull : FinalCommitment → Bool
  verifyNull : FinalCommitment → Bool
  /-- `qc.Verify(pQuorumBaseBlockIndex, checkSigs)`。 -/
  verify : FinalCommitment → Option BlockIndex → Bool → Bool
  /-- `::SerializeHash(qc)`。 -/
  serializeHash : FinalCommitment → Nat

namespace Env

/-- `GetLLMQParams(type)`：`llmqs` から型で探す。 -/
def getLLMQParams (env : Env) (t : LLMQType) : Option LLMQParams :=
  env.llmqs.find? (·.type == t)

/-- `utils::GetEnabledQuorumParams(pindex)`。 -/
def getEnabledQuorumParams (env : Env) (pindex : Option BlockIndex) : List LLMQParams :=
  env.llmqs.filter (env.isQuorumTypeEnabled · pindex)

/-- 有効なチェーンの各ブロックは、索引でそのブロックまでの列として引ける。 -/
def ActiveChain (env : Env) (chain : Chain) : Prop :=
  ∀ i (h : i < chain.length), env.lookupBlockIndex chain[i] =
    some ⟨chain.take (i + 1), List.ne_nil_of_length_pos (by simp; omega)⟩

end Env

end QuorumBlockProcessor
