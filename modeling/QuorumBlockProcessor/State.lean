import QuorumBlockProcessor.Types

/-!
# 状態：evoDb、存在のキャッシュ、採掘できるコミットメントの表

`CQuorumBlockProcessor` が持つ状態。evoDb の名前空間 `q_mc`、`q_mcih`、`q_mcihi`、`q_bbu2` を
それぞれ一つの欄とし、キーの組から名前空間の文字列を除く（バイト列の順序は `Scan` で扱う）。
表は関数 `キー → Option 値` で持ち、書き込みと消去は `Function.update` で表す。
-/

namespace QuorumBlockProcessor

/-! ## 逆順の高さのキー -/

/-- `std::numeric_limits<uint32_t>::max()`。 -/
def UINT32_MAX : Nat := 4294967295

/-- `htobe32`（リトルエンディアンの機械）：4 バイトの順を逆にする。`be32toh` も同じ関数。 -/
def htobe32 (x : Nat) : Nat :=
  x % 256 * 16777216 + x / 256 % 256 * 65536 + x / 65536 % 256 * 256 + x / 16777216 % 256

/-- `uint32_t` の引き算 `UINT32_MAX - nMinedHeight`。 -/
def inversedHeight (nMinedHeight : Nat) : Nat := UINT32_MAX - nMinedHeight % 4294967296

/-- `BuildInversedHeightKey(llmqType, nMinedHeight)` の型と高さの成分。 -/
def buildInversedHeightKey (llmqType : LLMQType) (nMinedHeight : Nat) : LLMQType × Nat :=
  (llmqType, htobe32 (inversedHeight nMinedHeight))

/-- `BuildInversedHeightKeyIndexed(llmqType, nMinedHeight, quorumIndex)` の成分。 -/
def buildInversedHeightKeyIndexed (llmqType : LLMQType) (nMinedHeight : Nat) (quorumIndex : Int) :
    LLMQType × Int × Nat :=
  (llmqType, quorumIndex, htobe32 (inversedHeight nMinedHeight))

/-! ## 状態 -/

/-- evoDb の中身。値の `Nat` は `pQuorumBaseBlockIndex->nHeight`。 -/
structure EvoDb where
  /-- `DB_MINED_COMMITMENT`：`(type, quorumHash) ↦ (qc, 採掘したブロックのハッシュ)`。 -/
  minedCommitment : LLMQType × Nat → Option (FinalCommitment × Nat)
  /-- `DB_MINED_COMMITMENT_BY_INVERSED_HEIGHT`。 -/
  minedByInversedHeight : LLMQType × Nat → Option Nat
  /-- `DB_MINED_COMMITMENT_BY_INVERSED_HEIGHT_Q_INDEXED`。 -/
  minedByInversedHeightIndexed : LLMQType × Int × Nat → Option Nat
  /-- `DB_BEST_BLOCK_UPGRADE`。 -/
  bestBlockUpgrade : Option Nat

/-- `CQuorumBlockProcessor` の状態。型ごとの LRU キャッシュ `mapHasMinedCommitmentCache` は
`(type, quorumHash)` をキーとする一つの表にまとめる。LRU が古い項目を捨てることは、`System` で
任意の項目を捨てる一歩として扱う。 -/
structure State where
  evoDb : EvoDb
  mapHasMinedCommitmentCache : LLMQType × Nat → Option Bool
  minableCommitmentsByQuorum : LLMQType × Nat → Option Nat
  minableCommitments : Nat → Option FinalCommitment

/-- 何も書かれていない evoDb。 -/
def EvoDb.empty : EvoDb := ⟨fun _ => none, fun _ => none, fun _ => none, none⟩

/-- 空の evoDb、空のキャッシュ、空の表。 -/
def State.empty : State := ⟨EvoDb.empty, fun _ => none, fun _ => none, fun _ => none⟩

/-- 失敗の種類。`invalid` は `state.Invalid(..., reason)`、`rejected` は理由を付けない
`return false`、`assertion` は `assert` の失敗と null の参照、`outOfRange` は `std::map::at` が
投げる例外。 -/
inductive Failure where
  | invalid (reason : String)
  | rejected
  | assertion
  | outOfRange
  deriving DecidableEq, Repr

/-- 結果を `decide` で比べられるように。 -/
instance decEqExcept {ε α : Type} [DecidableEq ε] [DecidableEq α] : DecidableEq (Except ε α)
  | .error a, .error b =>
    if h : a = b then isTrue (h ▸ rfl) else isFalse fun e => h (Except.error.inj e)
  | .ok a, .ok b => if h : a = b then isTrue (h ▸ rfl) else isFalse fun e => h (Except.ok.inj e)
  | .error _, .ok _ => isFalse Except.noConfusion
  | .ok _, .error _ => isFalse Except.noConfusion

/-! ## `HasMinedCommitment` -/

/-- `HasMinedCommitment(llmqType, quorumHash)`：キャッシュにあればその値、なければ evoDb を見て
キャッシュに入れる。 -/
def hasMinedCommitment (s : State) (llmqType : LLMQType) (quorumHash : Nat) : Bool × State :=
  match s.mapHasMinedCommitmentCache (llmqType, quorumHash) with
  | some fExists => (fExists, s)
  | none =>
    let fExists := (s.evoDb.minedCommitment (llmqType, quorumHash)).isSome
    let cache := Function.update s.mapHasMinedCommitmentCache (llmqType, quorumHash) (some fExists)
    (fExists, { s with mapHasMinedCommitmentCache := cache })

/-- `GetMinedCommitment(llmqType, quorumHash, retMinedBlockHash)`：`DB_MINED_COMMITMENT` のレコード
`(qc, 採掘したブロックのハッシュ)` を読む。なければ `nullptr`。キャッシュは見ない。 -/
def getMinedCommitment (s : State) (llmqType : LLMQType) (quorumHash : Nat) :
    Option (FinalCommitment × Nat) :=
  s.evoDb.minedCommitment (llmqType, quorumHash)

namespace State

/-- `HasMinedCommitment` がキー `k` に返す値。 -/
def minedView (s : State) (k : LLMQType × Nat) : Bool :=
  (s.mapHasMinedCommitmentCache k).getD (s.evoDb.minedCommitment k).isSome

/-- キャッシュの各項目が evoDb のレコードの有無と一致する。 -/
def CacheCoherent (s : State) : Prop :=
  ∀ k b, s.mapHasMinedCommitmentCache k = some b → b = (s.evoDb.minedCommitment k).isSome

/-- 採掘できるコミットメントの二つの表の部分。 -/
def pool (s : State) :
    (LLMQType × Nat → Option Nat) × (Nat → Option FinalCommitment) :=
  (s.minableCommitmentsByQuorum, s.minableCommitments)

theorem minedView_of_coherent {s : State} (h : s.CacheCoherent) (k) :
    s.minedView k = (s.evoDb.minedCommitment k).isSome := by
  unfold minedView
  cases hk : s.mapHasMinedCommitmentCache k with
  | none => rfl
  | some b => exact h k b hk

end State

section hasMinedCommitment

variable (s : State) (t : LLMQType) (h : Nat)

@[simp] theorem hasMinedCommitment_fst : (hasMinedCommitment s t h).1 = s.minedView (t, h) := by
  unfold hasMinedCommitment State.minedView
  split <;> simp_all

@[simp] theorem hasMinedCommitment_evoDb : (hasMinedCommitment s t h).2.evoDb = s.evoDb := by
  unfold hasMinedCommitment; split <;> rfl

@[simp] theorem hasMinedCommitment_byQuorum :
    (hasMinedCommitment s t h).2.minableCommitmentsByQuorum = s.minableCommitmentsByQuorum := by
  unfold hasMinedCommitment; split <;> rfl

@[simp] theorem hasMinedCommitment_minable :
    (hasMinedCommitment s t h).2.minableCommitments = s.minableCommitments := by
  unfold hasMinedCommitment; split <;> rfl

/-- キャッシュを埋めても、`HasMinedCommitment` がどのキーに返す値も変わらない。 -/
@[simp] theorem hasMinedCommitment_minedView :
    (hasMinedCommitment s t h).2.minedView = s.minedView := by
  funext k
  unfold hasMinedCommitment State.minedView
  split
  · rfl
  · by_cases hk : k = (t, h)
    · subst hk; simp_all
    · simp [Function.update_noteq hk]

theorem hasMinedCommitment_coherent {s : State} (hc : s.CacheCoherent) :
    (hasMinedCommitment s t h).2.CacheCoherent := by
  unfold hasMinedCommitment
  split
  · exact hc
  · intro k b hk
    by_cases hkt : k = (t, h)
    · subst hkt; simp_all
    · simp only [Function.update_noteq hkt] at hk
      exact hc k b hk

end hasMinedCommitment

end QuorumBlockProcessor
