import QuorumBlockProcessor.Block

/-!
# 処理器を呼ぶノード

呼ぶ側を一歩ずつの関係として書く。`ChainStep` は先端の子をつなぐか先端を切り離し、`Step` はそれに
問い合わせ、`ProcessMessage`、キャッシュの追い出しを加え、`Reachable` は失敗したブロックも含める
（呼ぶ側は evoDb を戻すが、キャッシュと表は戻らない）。
-/

namespace QuorumBlockProcessor

/-- ノード：有効なチェーン、この実行でつないだブロック（古い順に、その `fBLSChecks` とともに）、
処理器の状態。 -/
structure Node where
  chain : Chain
  connected : List (Block × Bool)
  state : State

/-- 始まりのノード：チェーン `chain₀` の上で、evoDb、キャッシュ、表が空。 -/
def Node.init (chain₀ : Chain) : Node := ⟨chain₀, [], State.empty⟩

/-- LRU のキャッシュ `mapHasMinedCommitmentCache` が項目 `k` を捨てる。 -/
def State.evictCache (s : State) (k : LLMQType × Nat) : State :=
  { s with mapHasMinedCommitmentCache := Function.update s.mapHasMinedCommitmentCache k none }

/-- チェーンの先端を動かす一歩。高さは `int` なので、つなぐブロックの高さは `2^31` より小さい。 -/
inductive ChainStep (env : Env) : Node → Node → Prop where
  | connect {chain : Chain} {connected : List (Block × Bool)} {s s' : State} (block : Block)
      (fBLSChecks : Bool)
      (hindex : env.lookupBlockIndex block.hash = some (BlockIndex.child chain block.hash))
      (hint : chain.length < 2147483648)
      (h : processBlock env chain s block (BlockIndex.child chain block.hash) false fBLSChecks =
        (.ok (), s')) :
      ChainStep env ⟨chain, connected, s⟩
        ⟨chain ++ [block.hash], connected ++ [(block, fBLSChecks)], s'⟩
  | disconnect {chain : Chain} {connected : List (Block × Bool)} {s s' : State} (block : Block)
      (fBLSChecks : Bool)
      (h : undoBlock env s block (BlockIndex.child chain block.hash) = (.ok (), s')) :
      ChainStep env ⟨chain ++ [block.hash], connected ++ [(block, fBLSChecks)], s⟩
        ⟨chain, connected, s'⟩

/-- 失敗しない一歩。 -/
inductive Step (env : Env) : Node → Node → Prop where
  | chain {n n' : Node} : ChainStep env n n' → Step env n n'
  | check {n : Node} {s' : State} (block : Block) (pindex : BlockIndex) (fBLSChecks : Bool)
      (h : processBlock env n.chain n.state block pindex true fBLSChecks = (.ok (), s')) :
      Step env n { n with state := s' }
  | message (n : Node) (qc : FinalCommitment) :
      Step env n { n with state := (processMessage env n.chain n.state qc).2 }
  | hasMined (n : Node) (llmqType : LLMQType) (quorumHash : Nat) :
      Step env n { n with state := (hasMinedCommitment n.state llmqType quorumHash).2 }
  | numRequired (n : Node) (llmqParams : LLMQParams) (nHeight : Nat) :
      Step env n
        { n with state := (getNumCommitmentsRequired env n.chain llmqParams nHeight n.state).2 }
  | mineable (n : Node) (llmqParams : LLMQParams) (nHeight : Nat) :
      Step env n
        { n with state := (getMineableCommitments env n.chain llmqParams nHeight n.state).2 }
  | evict (n : Node) (k : LLMQType × Nat) : Step env n { n with state := n.state.evictCache k }

/-- 始まりのノードから、`Step` と失敗した `ProcessBlock` で届くノード。失敗した呼び出しの後は、
evoDb だけを呼ぶ前のものに戻す。 -/
inductive Reachable (env : Env) (chain₀ : Chain) : Node → Prop where
  | init : Reachable env chain₀ (Node.init chain₀)
  | step {n n' : Node} : Reachable env chain₀ n → Step env n n' → Reachable env chain₀ n'
  | reject {n : Node} {s' : State} (block : Block) (pindex : BlockIndex)
      (fJustCheck fBLSChecks : Bool) (e : Failure) :
      Reachable env chain₀ n →
      processBlock env n.chain n.state block pindex fJustCheck fBLSChecks = (.error e, s') →
      Reachable env chain₀ { n with state := { s' with evoDb := n.state.evoDb } }

/-! ## つなぎ直し -/

/-- 状態 `s` から、チェーン `chain` の上に `blocks` を順に `ProcessBlock(fJustCheck = false)` で
つなぐ。どれかが失敗すれば `none`。 -/
def connectBlocks (env : Env) (chain : Chain) : List (Block × Bool) → State → Option State
  | [], s => some s
  | (block, fBLSChecks) :: rest, s =>
    match processBlock env chain s block (BlockIndex.child chain block.hash) false fBLSChecks with
    | (.ok (), s') => connectBlocks env (chain ++ [block.hash]) rest s'
    | (.error _, _) => none

end QuorumBlockProcessor
