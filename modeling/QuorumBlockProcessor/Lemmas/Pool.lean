import QuorumBlockProcessor.Lemmas.Effects
import Mathlib.Logic.Equiv.List

/-!
# 採掘できるものの表

二つの表 `minableCommitmentsByQuorum` と `minableCommitments` の整合（`PoolIntegrity`）は、
`SerializeHash` が単射なら、どの操作でも保たれる。そのため `minableCommitments.at` は投げない。
逆向きの対応（`minableCommitments` の各キーが表の値であること）は保たれない。置き換えの枝が新しい
ハッシュを消すので、古い候補が残る。`ProcessMessage` の検証の前の確認は比較の向きが逆で、
署名者の多いものが後から届いても候補は変わらない。
-/

namespace QuorumBlockProcessor

variable {env : Env}

theorem mapEmplace_eq_some {α β : Type} [DecidableEq α] {m : α → Option β} {k k' : α} {v x : β} :
    mapEmplace m k v k' = some x ↔ m k' = some x ∨ (k' = k ∧ m k = none ∧ x = v) := by
  unfold mapEmplace
  split
  · rename_i h
    refine ⟨.inl, ?_⟩
    rintro (h' | ⟨rfl, h', -⟩)
    · exact h'
    · simp [h'] at h
  · rename_i h
    by_cases hk : k' = k
    · subst hk
      simp only [Option.isSome_iff_ne_none, ne_eq, not_not] at h
      simp [h, eq_comm]
    · simp [Function.update_noteq hk, hk]

/-! ## 表の整合 -/

/-- 表の整合：`minableCommitmentsByQuorum` の値はどれも `minableCommitments` のキーで、そこにある
コミットメントはその型とハッシュを持つ。`minableCommitments` の項目は自分の `SerializeHash` を
キーとする。 -/
structure PoolIntegrity (env : Env) (s : State) : Prop where
  byQuorum : ∀ k h, s.minableCommitmentsByQuorum k = some h →
    ∃ c, s.minableCommitments h = some c ∧ (c.llmqType, c.quorumHash) = k
  hash : ∀ h c, s.minableCommitments h = some c → env.serializeHash c = h

namespace PoolIntegrity

theorem empty : PoolIntegrity env State.empty := ⟨by simp [State.empty], by simp [State.empty]⟩

theorem congr {s s' : State} (h : PoolIntegrity env s)
    (hb : s'.minableCommitmentsByQuorum = s.minableCommitmentsByQuorum)
    (hm : s'.minableCommitments = s.minableCommitments) : PoolIntegrity env s' :=
  ⟨hb ▸ hm ▸ h.byQuorum, hm ▸ h.hash⟩

theorem cacheFill {s s' : State} (h : PoolIntegrity env s) (hf : s.CacheFill s') :
    PoolIntegrity env s' :=
  h.congr hf.byQuorum hf.minable

variable {s : State}

theorem emplace (hinj : Function.Injective env.serializeHash) (hp : PoolIntegrity env s)
    {qc : FinalCommitment} {m : Nat → Option FinalCommitment}
    (hm : ∀ c, m (env.serializeHash qc) = some c →
      s.minableCommitments (env.serializeHash qc) = some c)
    (hne : ∀ h, h ≠ env.serializeHash qc → m h = s.minableCommitments h) :
    PoolIntegrity env { s with
      minableCommitmentsByQuorum := Function.update s.minableCommitmentsByQuorum
        (qc.llmqType, qc.quorumHash) (some (env.serializeHash qc))
      minableCommitments := mapEmplace m (env.serializeHash qc) qc } := by
  refine ⟨fun k h hkh => ?_, fun h c hc => ?_⟩
  · dsimp only at hkh ⊢
    by_cases hkk : k = (qc.llmqType, qc.quorumHash)
    · subst hkk
      rw [Function.update_same, Option.some.injEq] at hkh
      subst hkh
      cases hc : m (env.serializeHash qc) with
      | none => exact ⟨qc, mapEmplace_eq_some.2 (.inr ⟨rfl, hc, rfl⟩), rfl⟩
      | some c =>
        obtain rfl := hinj (hp.hash _ _ (hm c hc))
        exact ⟨c, mapEmplace_eq_some.2 (.inl hc), rfl⟩
    · rw [Function.update_noteq hkk] at hkh
      obtain ⟨c, hc, hck⟩ := hp.byQuorum k h hkh
      have hh : h ≠ env.serializeHash qc := by
        rintro rfl
        obtain rfl := hinj (hp.hash _ _ hc)
        exact hkk hck.symm
      exact ⟨c, mapEmplace_eq_some.2 (.inl (by rwa [hne h hh])), hck⟩
  · rcases mapEmplace_eq_some.1 hc with hc | ⟨rfl, -, rfl⟩
    · by_cases hh : h = env.serializeHash qc
      · subst hh
        exact hp.hash _ c (hm c hc)
      · exact hp.hash h c (by rwa [← hne h hh])
    · rfl

theorem add (hinj : Function.Injective env.serializeHash) (hp : PoolIntegrity env s)
    (qc : FinalCommitment) :
    PoolIntegrity env (addMineableCommitment env s qc).2 ∧
      ∃ relay, (addMineableCommitment env s qc).1 = .ok relay := by
  dsimp only [addMineableCommitment]
  split
  · exact ⟨hp.emplace hinj (fun _ => id) (fun _ _ => rfl), _, rfl⟩
  rename_i oldHash hk
  split
  · rename_i hm
    obtain ⟨c, hc, -⟩ := hp.byQuorum _ _ hk
    simp [hm] at hc
  split
  · refine ⟨hp.emplace hinj (fun c hc => ?_) (fun h hh => Function.update_noteq hh _ _), _, rfl⟩
    rw [Function.update_same] at hc
    cases hc
  · exact ⟨hp, _, rfl⟩

theorem commitToStore (hinj : Function.Injective env.serializeHash) (hp : PoolIntegrity env s)
    {llmqParams : LLMQParams} {nHeight blockHash : Nat} {qc : FinalCommitment} {base : BlockIndex}
    (htype : llmqParams.type = qc.llmqType) :
    PoolIntegrity env (QuorumBlockProcessor.commitToStore env s llmqParams nHeight blockHash qc
      qc.quorumHash base) := by
  refine ⟨?_, ?_⟩
  · intro k h hkh
    simp only [QuorumBlockProcessor.commitToStore] at hkh ⊢
    have hkk : k ≠ (llmqParams.type, qc.quorumHash) := by rintro rfl; simp at hkh
    rw [Function.update_noteq hkk] at hkh
    obtain ⟨c, hc, hck⟩ := hp.byQuorum k h hkh
    have hne : h ≠ env.serializeHash qc := by
      rintro rfl
      obtain rfl := hinj (hp.hash _ _ hc)
      exact hkk (by rw [← hck, htype])
    exact ⟨c, by rwa [Function.update_noteq hne], hck⟩
  · intro h c hc
    simp only [QuorumBlockProcessor.commitToStore] at hc
    by_cases hne : h = env.serializeHash qc
    · subst hne; simp at hc
    · rw [Function.update_noteq hne] at hc
      exact hp.hash h c hc

/-! ### 合成した操作 -/

section
variable (hinj : Function.Injective env.serializeHash) {chain : Chain} {nHeight blockHash : Nat}
  {fJustCheck fBLSChecks : Bool}
include hinj

theorem processCommitment (hp : PoolIntegrity env s) (qc : FinalCommitment) :
    PoolIntegrity env
      (QuorumBlockProcessor.processCommitment env chain s nHeight blockHash qc fJustCheck
        fBLSChecks).2 := by
  rcases h : QuorumBlockProcessor.processCommitment env chain s nHeight blockHash qc fJustCheck
    fBLSChecks with ⟨r, s'⟩
  cases r with
  | error e => exact hp.cacheFill (processCommitment_error h)
  | ok u =>
    obtain ⟨p, hres, ⟨-, -, rfl⟩ | ⟨-, -, -, -, ⟨-, hf⟩ | ⟨-, s₁, base, hf, -, rfl⟩⟩⟩ :=
      processCommitment_ok h
    · exact hp
    · exact hp.cacheFill hf
    · exact (hp.cacheFill hf).commitToStore hinj (Env.getLLMQParams_type hres.params)

theorem processCommitments : ∀ (qcs : List FinalCommitment) {s : State}, PoolIntegrity env s →
    PoolIntegrity env
      (QuorumBlockProcessor.processCommitments env chain nHeight blockHash fJustCheck fBLSChecks qcs
        s).2
  | [], _, hp => hp
  | qc :: qcs, s, hp => by
    have h1 : PoolIntegrity env (QuorumBlockProcessor.processCommitment env chain s nHeight
        blockHash qc fJustCheck fBLSChecks).2 := hp.processCommitment hinj qc
    unfold QuorumBlockProcessor.processCommitments
    split
    · rename_i heq; rw [heq] at h1; exact h1
    · rename_i heq; rw [heq] at h1; exact processCommitments qcs h1

theorem processBlock (hp : PoolIntegrity env s) (block : Block) (pindex : BlockIndex) :
    PoolIntegrity env
      (QuorumBlockProcessor.processBlock env chain s block pindex fJustCheck fBLSChecks).2 := by
  dsimp only [QuorumBlockProcessor.processBlock]
  split
  · exact hp.congr rfl rfl
  split
  · exact hp
  rename_i qcs _
  have h1 : PoolIntegrity env (checkCommitmentCounts env chain pindex.nHeight qcs
      (env.getEnabledQuorumParams pindex.pprev) s).2 :=
    hp.cacheFill (checkCommitmentCounts_cacheFill _ s)
  split
  · rename_i heq; rw [heq] at h1; exact h1
  rename_i s₁ heq
  rw [heq] at h1
  have h2 : PoolIntegrity env (QuorumBlockProcessor.processCommitments env chain pindex.nHeight
      block.hash fJustCheck fBLSChecks qcs s₁).2 := h1.processCommitments hinj qcs
  split
  · rename_i heq'; rw [heq'] at h2; exact h2
  · rename_i heq'; rw [heq'] at h2; exact h2.congr rfl rfl

theorem undoCommitments (pindex : BlockIndex) : ∀ (qcs : List FinalCommitment) {s : State},
    PoolIntegrity env s →
      PoolIntegrity env (QuorumBlockProcessor.undoCommitments env pindex qcs s).2
  | [], _, hp => hp
  | qc :: qcs, s, hp => by
    unfold QuorumBlockProcessor.undoCommitments
    split
    · exact undoCommitments pindex qcs hp
    split
    · exact hp.congr rfl rfl
    rename_i llmqParams _
    have h0 : PoolIntegrity env (eraseMinedCommitment env pindex llmqParams qc s) :=
      hp.congr rfl rfl
    obtain ⟨h1, relay, hr⟩ := h0.add hinj qc
    split
    · rename_i heq; rw [heq] at hr; cases hr
    · rename_i heq; rw [heq] at h1; exact undoCommitments pindex qcs h1

theorem undoBlock (hp : PoolIntegrity env s) (block : Block) (pindex : BlockIndex) :
    PoolIntegrity env (QuorumBlockProcessor.undoBlock env s block pindex).2 := by
  unfold QuorumBlockProcessor.undoBlock
  split
  · exact hp
  rename_i qcs _
  have h1 := hp.undoCommitments hinj pindex qcs
  split
  · rename_i heq; rw [heq] at h1; exact h1
  rename_i heq
  rw [heq] at h1
  split
  · exact h1
  · exact h1.congr rfl rfl

theorem processMessage (hp : PoolIntegrity env s) (qc : FinalCommitment) :
    PoolIntegrity env (QuorumBlockProcessor.processMessage env chain s qc).2 := by
  rcases h : QuorumBlockProcessor.processMessage env chain s qc with ⟨r, s'⟩
  rcases processMessage_cases h with hf | ⟨s₁, hf, -, rfl⟩
  · exact hp.cacheFill hf
  · exact ((hp.cacheFill hf).add hinj qc).1

end

end PoolIntegrity

/-! ### `GetMineableCommitments` の `at` -/

theorem PoolIntegrity.collectMineable {chain : Chain} {llmqParams : LLMQParams} {nHeight : Nat}
    {rotationEnabled basicBlsEnabled : Bool} :
    ∀ (qs : List Nat) (ret : List FinalCommitment) {s : State}, PoolIntegrity env s →
      (QuorumBlockProcessor.collectMineable env chain llmqParams nHeight rotationEnabled
        basicBlsEnabled qs ret s).1 ≠ .error .outOfRange
  | [], _, _, _ => by simp [QuorumBlockProcessor.collectMineable]
  | q :: qs, ret, s, hp => by
    have hf := hasMinedCommitment_cacheFill s llmqParams.type
      (getQuorumBlockHash chain llmqParams nHeight q)
    have hp' := hp.cacheFill hf
    dsimp only [QuorumBlockProcessor.collectMineable]
    split
    · simp
    split
    · exact PoolIntegrity.collectMineable qs ret hp'
    split
    · exact PoolIntegrity.collectMineable qs _ hp'
    rename_i h hk
    split
    · rename_i hm
      obtain ⟨c, hc, -⟩ := hp'.byQuorum _ _ hk
      simp [hm] at hc
    · exact PoolIntegrity.collectMineable qs _ hp'

theorem PoolIntegrity.getMineableCommitments {s : State} (hp : PoolIntegrity env s) (chain : Chain)
    (llmqParams : LLMQParams) (nHeight : Nat) :
    (QuorumBlockProcessor.getMineableCommitments env chain llmqParams nHeight s).1 ≠
      .error .outOfRange := by
  have hf : s.CacheFill (getNumCommitmentsRequired env chain llmqParams nHeight s).2 :=
    getNumCommitmentsRequired_cacheFill chain llmqParams nHeight s
  unfold QuorumBlockProcessor.getMineableCommitments
  split
  · rename_i e s₁ heq
    have := getNumCommitmentsRequired_error (congrArg Prod.fst heq)
    simp [this]
  rename_i s₁ heq
  rw [heq] at hf
  dsimp only
  split
  · simp
  split
  · simp
  rename_i pindex _
  split
  · rename_i heq'
    have h : (QuorumBlockProcessor.collectMineable env chain llmqParams nHeight
        (env.isQuorumRotationEnabled llmqParams pindex) (env.isV19Active pindex)
        (List.range (quorumsNum env llmqParams pindex)) [] s₁).1 ≠ .error .outOfRange :=
      (hp.cacheFill hf).collectMineable _ []
    rw [heq'] at h
    simpa using h
  · simp

/-! ## 届く状態 -/

/-- 空の表から、`AddMineableCommitment`、`ProcessMessage`、`ProcessBlock`、`UndoBlock` を任意の
引数で任意の順に呼んで届く状態。呼び出しの間に evoDb とキャッシュは何に変わってもよい
（呼び出し側がトランザクションを捨てる、キャッシュが項目を捨てる、問い合わせがキャッシュを埋める）。 -/
inductive PoolReachable (env : Env) : State → Prop where
  | empty : PoolReachable env State.empty
  | add {s : State} (qc : FinalCommitment) :
      PoolReachable env s → PoolReachable env (addMineableCommitment env s qc).2
  | message {s : State} (chain : Chain) (qc : FinalCommitment) :
      PoolReachable env s → PoolReachable env (processMessage env chain s qc).2
  | block {s : State} (chain : Chain) (block : Block) (pindex : BlockIndex)
      (fJustCheck fBLSChecks : Bool) :
      PoolReachable env s →
        PoolReachable env (processBlock env chain s block pindex fJustCheck fBLSChecks).2
  | undo {s : State} (block : Block) (pindex : BlockIndex) :
      PoolReachable env s → PoolReachable env (undoBlock env s block pindex).2
  | store {s : State} (db : EvoDb) (cache : LLMQType × Nat → Option Bool) :
      PoolReachable env s →
        PoolReachable env { s with evoDb := db, mapHasMinedCommitmentCache := cache }

theorem PoolReachable.integrity (hinj : Function.Injective env.serializeHash) {s : State}
    (h : PoolReachable env s) : PoolIntegrity env s := by
  induction h with
  | empty => exact .empty
  | add qc _ ih => exact (ih.add hinj qc).1
  | message chain qc _ ih => exact ih.processMessage hinj qc
  | block chain block pindex _ _ _ ih => exact ih.processBlock hinj block pindex
  | undo block pindex _ ih => exact ih.undoBlock hinj block pindex
  | store db cache _ ih => exact ih.congr rfl rfl

/-- 届く状態では、`minableCommitmentsByQuorum` の項目 `k ↦ hc` の `hc` は `minableCommitments` の
キーで、そこにあるコミットメントは型とハッシュが `k`、`SerializeHash` が `hc` である。そのため
`AddMineableCommitment` と `GetMineableCommitments` の `minableCommitments.at` は投げない。 -/
theorem minableCommitmentsByQuorum_resolves (hinj : Function.Injective env.serializeHash)
    {s : State} (hs : PoolReachable env s) :
    (∀ k hc, s.minableCommitmentsByQuorum k = some hc →
      ∃ c, s.minableCommitments hc = some c ∧ (c.llmqType, c.quorumHash) = k ∧
        env.serializeHash c = hc) ∧
    (∀ qc, ∃ relay, (addMineableCommitment env s qc).1 = .ok relay) ∧
    (∀ chain llmqParams nHeight,
      (getMineableCommitments env chain llmqParams nHeight s).1 ≠ .error .outOfRange) := by
  have hp := hs.integrity hinj
  refine ⟨fun k hc hk => ?_, fun qc => (hp.add hinj qc).2, hp.getMineableCommitments⟩
  obtain ⟨c, hc', hck⟩ := hp.byQuorum k hc hk
  exact ⟨c, hc', hck, hp.hash hc c hc'⟩

/-! ## 例の構成 -/

/-- コミットメントの全ての欄の符号化。例の構成の `SerializeHash` に使う。 -/
def FinalCommitment.encode (qc : FinalCommitment) : Nat :=
  Encodable.encode (qc.nVersion, qc.llmqType.val, qc.quorumHash, qc.quorumIndex, qc.signers,
    qc.validMembers, qc.quorumPublicKey, qc.quorumVvecHash, qc.quorumSig, qc.membersSig)

theorem FinalCommitment.encode_injective : Function.Injective FinalCommitment.encode := by
  intro a b h
  have h' := Encodable.encode_injective h
  cases a; cases b
  simp only [Prod.mk.injEq] at h'
  obtain ⟨h1, h2, h3, h4, h5, h6, h7, h8, h9, h10⟩ := h'
  simp_all [UInt8.eq_of_val_eq h2]

/-- 例のパラメータ：型 1、メンバー 12、周期 4、採掘の窓は周期の始めから 1 から 3、回転のときの
クォーラムは 2 つ。 -/
def demoParams : LLMQParams := ⟨1, 12, 4, 1, 3, 2, by decide⟩

/-- 例の鎖で高さ `i` のブロック。ハッシュは `100 + i`。 -/
def demoBlockIndex (i : Nat) : BlockIndex := ⟨(List.range (i + 1)).map (· + 100), by simp⟩

/-- 例の有効なチェーン：高さ `n` まで。 -/
def demoChain (n : Nat) : Chain := (List.range (n + 1)).map (· + 100)

/-- 例の `Verify`：基のブロックが `quorumHash` のもので、`quorumIndex` がその周期の中の位置で、
メンバーの数が合う。 -/
def demoVerify (qc : FinalCommitment) (base : Option BlockIndex) (_ : Bool) : Bool :=
  match base with
  | none => false
  | some b => b.getBlockHash == qc.quorumHash && (b.nHeight % 4 : Int) == qc.quorumIndex &&
      qc.signers.length == 12

/-- 例の構成。`Verify` を引数にとる。ブロックは高さ 100 まで、回転は高さ 4 のブロックから有効。 -/
def demoEnvWith (verify : FinalCommitment → Option BlockIndex → Bool → Bool) : Env where
  llmqs := [demoParams]
  llmqs_nodup := by decide
  dip0003Height := 1
  txTypeQuorumCommitment := 6
  lookupBlockIndex h := if 100 ≤ h ∧ h ≤ 200 then some (demoBlockIndex (h - 100)) else none
  lookup_null := by decide
  lookup_hash h b hb := by
    simp only at hb
    split at hb
    · cases hb
      simp [demoBlockIndex, BlockIndex.getBlockHash, List.range_succ]
      omega
    · cases hb
  isQuorumRotationEnabled _ b := decide (4 ≤ b.nHeight)
  isQuorumTypeEnabled _ _ := true
  isV19Active _ := true
  getVersion rotation _ := if rotation then 4 else 3
  isNull qc := qc.signers.count true == 0 && qc.validMembers.count true == 0 &&
    qc.quorumPublicKey == 0 && qc.quorumVvecHash == 0 && qc.quorumSig == 0 && qc.membersSig == 0
  verifyNull qc := qc.signers.length == 12 && qc.validMembers.length == 12
  verify := verify
  serializeHash := FinalCommitment.encode

/-- 例の構成。 -/
def demoEnv : Env := demoEnvWith demoVerify

/-- 例のコミットメント：`n` 人が署名した、基のブロックが `quorumHash` のもの。 -/
def demoCommitment (quorumHash : Nat) (quorumIndex : Int) (n : Nat) : FinalCommitment :=
  ⟨4, 1, quorumHash, quorumIndex, List.replicate n true ++ List.replicate (12 - n) false,
    List.replicate 12 true, 1, 1, 1, 1⟩

/-- 空の表に、同じクォーラムの 5 人と 7 人が署名したコミットメントを順に加えた状態。 -/
def demoPool : State :=
  (addMineableCommitment demoEnv (addMineableCommitment demoEnv State.empty
    (demoCommitment 104 0 5)).2 (demoCommitment 104 0 7)).2

theorem minableCommitmentsByQuorum_resolves_demo :
    Function.Injective demoEnv.serializeHash ∧ PoolReachable demoEnv demoPool ∧
      (∀ k hc, demoPool.minableCommitmentsByQuorum k = some hc →
        ∃ c, demoPool.minableCommitments hc = some c ∧ (c.llmqType, c.quorumHash) = k ∧
          demoEnv.serializeHash c = hc) :=
  have hinj : Function.Injective demoEnv.serializeHash := FinalCommitment.encode_injective
  have hs : PoolReachable demoEnv demoPool :=
    .add (demoCommitment 104 0 7) (.add (demoCommitment 104 0 5) .empty)
  ⟨hinj, hs, (minableCommitmentsByQuorum_resolves hinj hs).1⟩

/-- 7 人のものが 5 人のものを置き換えた後も、5 人のものは `minableCommitments` に残り、どの
クォーラムの値でもない。 -/
theorem addMineableCommitment_keeps_superseded :
    demoPool.minableCommitments (demoEnv.serializeHash (demoCommitment 104 0 5)) =
        some (demoCommitment 104 0 5) ∧
      ∀ k, demoPool.minableCommitmentsByQuorum k ≠
        some (demoEnv.serializeHash (demoCommitment 104 0 5)) := by
  refine ⟨by decide, fun k => ?_⟩
  by_cases hk : k = (1, 104)
  · subst hk; decide
  · rw [demoPool, addMineableCommitment_byQuorum_of_ne _ _ _ hk,
      addMineableCommitment_byQuorum_of_ne _ _ _ hk]
    simp [State.empty]

/-! ## ネットワークから届く候補 -/

/-- 12 人が署名したものは、単独ならネットワークの確認と検証を通って表に入る。10 人のものが先に
届いていると、検証の前の確認（`10 ≤ 12`）で捨てられ、候補は 10 人のもののまま。 -/
theorem processMessage_ignores_better_candidate :
    (processMessage demoEnv (demoChain 6) State.empty (demoCommitment 104 0 12)).1 =
        .ok (.added true) ∧
      (processMessage demoEnv (demoChain 6)
        (processMessage demoEnv (demoChain 6) State.empty (demoCommitment 104 0 10)).2
        (demoCommitment 104 0 12)).1 = .ok .ignored ∧
      (processMessage demoEnv (demoChain 6)
        (processMessage demoEnv (demoChain 6) State.empty (demoCommitment 104 0 10)).2
        (demoCommitment 104 0 12)).2.minableCommitments
        (demoEnv.serializeHash (demoCommitment 104 0 10)) = some (demoCommitment 104 0 10) ∧
      (processMessage demoEnv (demoChain 6)
        (processMessage demoEnv (demoChain 6) State.empty (demoCommitment 104 0 10)).2
        (demoCommitment 104 0 12)).2.minableCommitmentsByQuorum (1, 104) =
        some (demoEnv.serializeHash (demoCommitment 104 0 10)) := by
  decide

end QuorumBlockProcessor
