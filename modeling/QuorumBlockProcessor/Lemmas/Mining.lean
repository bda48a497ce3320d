import QuorumBlockProcessor.Lemmas.Template
import QuorumBlockProcessor.Lemmas.Store

/-!
# 採掘の側から見た表とブロック

届く状態で、ひな形のコミットメントを包んだトランザクションを先端の子のブロックに入れれば、
`GetCommitmentsFromBlock` が取り出すのはひな形のコミットメントそのもので、順も同じ。逆向きに、
`UndoBlock` で切り離したブロックの null でないコミットメントは、再び採掘の候補になる。
-/

namespace QuorumBlockProcessor

variable {env : Env}

/-! ## 届く状態 -/

section reachable

variable {chain₀ : Chain} {n : Node}

theorem PoolIntegrity.of_processBlock (hinj : Function.Injective env.serializeHash)
    {chain : Chain} {s s' : State} {block : Block} {pindex : BlockIndex}
    {fJustCheck fBLSChecks : Bool} {r : Except Failure Unit} (hp : PoolIntegrity env s)
    (h : QuorumBlockProcessor.processBlock env chain s block pindex fJustCheck fBLSChecks =
      (r, s')) :
    PoolIntegrity env s' := by
  rw [show s' = (QuorumBlockProcessor.processBlock env chain s block pindex fJustCheck
    fBLSChecks).2 by rw [h]]
  exact hp.processBlock hinj block pindex

theorem PoolIntegrity.of_undoBlock (hinj : Function.Injective env.serializeHash) {s s' : State}
    {block : Block} {pindex : BlockIndex} {r : Except Failure Unit} (hp : PoolIntegrity env s)
    (h : QuorumBlockProcessor.undoBlock env s block pindex = (r, s')) : PoolIntegrity env s' := by
  rw [show s' = (QuorumBlockProcessor.undoBlock env s block pindex).2 by rw [h]]
  exact hp.undoBlock hinj block pindex

/-- 届く状態では表が整合している（`SerializeHash` が単射のとき）。 -/
theorem Reachable.poolIntegrity (hinj : Function.Injective env.serializeHash)
    (h : Reachable env chain₀ n) : PoolIntegrity env n.state := by
  induction h with
  | init => exact .empty
  | step _ hs ih =>
    cases hs with
    | chain hc =>
      cases hc with
      | connect block fBLSChecks _ _ h => exact ih.of_processBlock hinj h
      | disconnect block fBLSChecks h => exact ih.of_undoBlock hinj h
    | check block pindex fBLSChecks h => exact ih.of_processBlock hinj h
    | message qc => exact ih.processMessage hinj qc
    | hasMined t q => exact ih.cacheFill (hasMinedCommitment_cacheFill _ t q)
    | numRequired p h => exact ih.cacheFill (getNumCommitmentsRequired_cacheFill _ p h _)
    | mineable p h => exact ih.cacheFill (getMineableCommitments_cacheFill _ p h _)
    | evict k => exact ih.congr rfl rfl
  | reject block pindex fJustCheck fBLSChecks e _ h ih =>
    exact (ih.of_processBlock hinj h).congr rfl rfl

theorem Reachable.activeChain (hact : env.ActiveChain chain₀) (h : Reachable env chain₀ n) :
    env.ActiveChain n.chain := by
  induction h with
  | init => exact hact
  | step _ hs ih =>
    cases hs with
    | chain hc =>
      cases hc with
      | connect block _ hindex _ _ => exact ih.snoc hindex
      | disconnect block _ _ => exact ih.of_snoc
    | check => exact ih
    | message => exact ih
    | hasMined => exact ih
    | numRequired => exact ih
    | mineable => exact ih
    | evict => exact ih
  | reject _ _ _ _ _ _ _ ih => exact ih

end reachable

/-! ## 切り離したブロックのコミットメントは再び候補になる

`UndoBlock` は null でない各コミットメントを `AddMineableCommitment` で表に戻す。それは署名者の
少ない候補に置き換えず、`minableCommitments` の項目を消さない。 -/

/-- クォーラム `k` に、署名者が `n` 人以上の候補が表にある。 -/
def State.Offers (s : State) (k : LLMQType × Nat) (n : Nat) : Prop :=
  ∃ h c, s.minableCommitmentsByQuorum k = some h ∧ s.minableCommitments h = some c ∧
    n ≤ c.countSigners

section offers

variable {s : State} {k : LLMQType × Nat} {n : Nat}

theorem addMineableCommitment_minable_of_some (hinj : Function.Injective env.serializeHash)
    (hp : PoolIntegrity env s) (qc : FinalCommitment) {h : Nat} {c : FinalCommitment}
    (hc : s.minableCommitments h = some c) :
    (addMineableCommitment env s qc).2.minableCommitments h = some c := by
  dsimp only [addMineableCommitment]
  split
  · exact mapEmplace_eq_some.2 (.inl hc)
  split
  · exact hc
  split
  · by_cases hh : h = env.serializeHash qc
    · subst hh
      obtain rfl := hinj (hp.hash _ _ hc)
      exact mapEmplace_eq_some.2 (.inr ⟨rfl, Function.update_same _ _ _, rfl⟩)
    · exact mapEmplace_eq_some.2 (.inl (by rwa [Function.update_noteq hh]))
  · exact hc

theorem addMineableCommitment_offers (hinj : Function.Injective env.serializeHash)
    (hp : PoolIntegrity env s) (qc : FinalCommitment) :
    (addMineableCommitment env s qc).2.Offers (qc.llmqType, qc.quorumHash) qc.countSigners := by
  dsimp only [addMineableCommitment]
  split
  · rename_i hk
    refine ⟨_, _, Function.update_same _ _ _, ?_, le_rfl⟩
    cases hc : s.minableCommitments (env.serializeHash qc) with
    | none => exact mapEmplace_eq_some.2 (.inr ⟨rfl, hc, rfl⟩)
    | some c =>
      obtain rfl := hinj (hp.hash _ _ hc)
      exact mapEmplace_eq_some.2 (.inl hc)
  rename_i oldHash hk
  split
  · rename_i hm
    obtain ⟨c, hc, -⟩ := hp.byQuorum _ _ hk
    rw [hm] at hc
    cases hc
  rename_i oldFqc hold
  split
  · exact ⟨_, _, Function.update_same _ _ _,
      mapEmplace_eq_some.2 (.inr ⟨rfl, Function.update_same _ _ _, rfl⟩), le_rfl⟩
  · exact ⟨oldHash, oldFqc, hk, hold, by omega⟩

theorem State.Offers.addMineableCommitment (hinj : Function.Injective env.serializeHash)
    (hp : PoolIntegrity env s) (ho : s.Offers k n) (qc : FinalCommitment) :
    (QuorumBlockProcessor.addMineableCommitment env s qc).2.Offers k n := by
  obtain ⟨h, c, hk, hc, hn⟩ := ho
  by_cases hkq : k = (qc.llmqType, qc.quorumHash)
  · subst hkq
    dsimp only [QuorumBlockProcessor.addMineableCommitment]
    rw [hk]
    dsimp only
    rw [hc]
    dsimp only
    split
    · exact ⟨_, _, Function.update_same _ _ _,
        mapEmplace_eq_some.2 (.inr ⟨rfl, Function.update_same _ _ _, rfl⟩), by omega⟩
    · exact ⟨h, c, hk, hc, hn⟩
  · exact ⟨h, c, by rw [addMineableCommitment_byQuorum_of_ne _ _ _ hkq, hk],
      addMineableCommitment_minable_of_some hinj hp qc hc, hn⟩

end offers

/-- クォーラム `k` は採掘されていないと見え、レコードがなく、署名者が `n` 人以上の候補が表にある。 -/
def State.Reoffered (s : State) (k : LLMQType × Nat) (n : Nat) : Prop :=
  s.minedView k = false ∧ s.evoDb.minedCommitment k = none ∧ s.Offers k n

section reoffered

variable {pindex : BlockIndex}

theorem State.Reoffered.eraseMinedCommitment {s : State} {k : LLMQType × Nat} {n : Nat}
    (ho : s.Reoffered k n) (llmqParams : LLMQParams) (qc : FinalCommitment) :
    (QuorumBlockProcessor.eraseMinedCommitment env pindex llmqParams qc s).Reoffered k n := by
  obtain ⟨hv, hr, hoff⟩ := ho
  refine ⟨?_, ?_, hoff⟩
  · rw [eraseMinedCommitment_minedView]
    by_cases hk : k = (qc.llmqType, qc.quorumHash)
    · rw [hk, Function.update_same]
    · rw [Function.update_noteq hk, hv]
  · simp only [QuorumBlockProcessor.eraseMinedCommitment, EvoDb.eraseInversedHeight_minedCommitment,
      EvoDb.eraseRecord]
    by_cases hk : k = (qc.llmqType, qc.quorumHash)
    · rw [hk, Function.update_same]
    · rw [Function.update_noteq hk, hr]

theorem undoCommitments_reoffered (hinj : Function.Injective env.serializeHash) :
    ∀ {qcs : List FinalCommitment} {s s' : State}, PoolIntegrity env s →
      undoCommitments env pindex qcs s = (.ok (), s') →
      (∀ k n, s.Reoffered k n → s'.Reoffered k n) ∧
        ∀ qc ∈ qcs, env.isNull qc = false →
          s'.Reoffered (qc.llmqType, qc.quorumHash) qc.countSigners
  | [], _, _, _, h => by
    cases h
    exact ⟨fun _ _ => id, fun _ hq => absurd hq (List.not_mem_nil _)⟩
  | qc :: qcs, s, s', hp, h => by
    unfold undoCommitments at h
    split at h
    · rename_i hnull
      obtain ⟨hkeep, hnew⟩ := undoCommitments_reoffered hinj hp h
      refine ⟨hkeep, fun qc' hq hn => ?_⟩
      rcases List.mem_cons.1 hq with rfl | hq
      · rw [hnull] at hn; cases hn
      · exact hnew qc' hq hn
    split at h
    · cases h
    rename_i llmqParams _
    have hp₀ : PoolIntegrity env (eraseMinedCommitment env pindex llmqParams qc s) :=
      hp.congr rfl rfl
    split at h
    · cases h
    rename_i relay s₂ hadd
    have hs₂ : s₂ = (addMineableCommitment env (eraseMinedCommitment env pindex llmqParams qc s)
        qc).2 := by rw [hadd]
    have hp₂ : PoolIntegrity env s₂ := hs₂ ▸ (hp₀.add hinj qc).1
    -- 一つのコミットメントを戻す一歩は、どのクォーラムの `Reoffered` も保つ
    have hstep : ∀ k n, s.Reoffered k n → s₂.Reoffered k n := fun k n ho => by
      obtain ⟨hv, hr, hoff⟩ := ho.eraseMinedCommitment llmqParams qc
      rw [hs₂]
      exact ⟨by rw [addMineableCommitment_minedView]; exact hv,
        by rw [addMineableCommitment_evoDb]; exact hr, hoff.addMineableCommitment hinj hp₀ qc⟩
    have hself : s₂.Reoffered (qc.llmqType, qc.quorumHash) qc.countSigners := by
      rw [hs₂]
      refine ⟨?_, ?_, addMineableCommitment_offers hinj hp₀ qc⟩
      · rw [addMineableCommitment_minedView, eraseMinedCommitment_minedView, Function.update_same]
      · simp [eraseMinedCommitment, EvoDb.eraseRecord]
    obtain ⟨hkeep, hnew⟩ := undoCommitments_reoffered hinj hp₂ h
    refine ⟨fun k n ho => hkeep k n (hstep k n ho), fun qc' hq hn => ?_⟩
    rcases List.mem_cons.1 hq with rfl | hq
    · exact hkeep _ _ hself
    · exact hnew qc' hq hn

end reoffered

/-- 届く状態で `UndoBlock` が成功すると、ブロックの null でない各コミットメントのクォーラムは、
`GetMinedCommitment` が何も返さず、`HasMinedCommitment` が偽を返し、表にはそのコミットメントと
署名者が同じかより多い候補がある：`GetMineableCommitments` は、必要ならそのクォーラムに
この候補を出す。 -/
theorem undoBlock_reoffers (hinj : Function.Injective env.serializeHash) {chain₀ : Chain}
    {n : Node} (hn : Reachable env chain₀ n) {block : Block} {pindex : BlockIndex} {s' : State}
    {qcs : List FinalCommitment} (h : undoBlock env n.state block pindex = (.ok (), s'))
    (hqcs : getCommitmentsFromBlock env block pindex = .ok qcs) (qc : FinalCommitment)
    (hq : qc ∈ qcs) (hnull : env.isNull qc = false) :
    getMinedCommitment s' qc.llmqType qc.quorumHash = none ∧
      (hasMinedCommitment s' qc.llmqType qc.quorumHash).1 = false ∧
      ∃ hash c, s'.minableCommitmentsByQuorum (qc.llmqType, qc.quorumHash) = some hash ∧
        getMineableCommitmentByHash s' hash = some c ∧ qc.countSigners ≤ c.countSigners := by
  unfold undoBlock at h
  rw [hqcs] at h
  dsimp only at h
  split at h
  · cases h
  rename_i s₁ hloop
  split at h
  · cases h
  cases h
  obtain ⟨hv, hr, hoff⟩ :=
    (undoCommitments_reoffered hinj (hn.poolIntegrity hinj) hloop).2 qc hq hnull
  exact ⟨hr, by rw [hasMinedCommitment_fst, State.minedView_setBestBlockUpgrade]; exact hv, hoff⟩

/-- `goodBlock` をつないだノードで、それを切り離すと、クォーラム 104 のコミットメントが表に戻る。 -/
theorem undoBlock_reoffers_good :
    Function.Injective demoEnv.serializeHash ∧ Reachable demoEnv (demoChain 5) goodNode ∧
      undoBlock demoEnv goodNode.state goodBlock (BlockIndex.child (demoChain 5) 106) =
        (.ok (), (undoBlock demoEnv goodNode.state goodBlock
          (BlockIndex.child (demoChain 5) 106)).2) ∧
      getCommitmentsFromBlock demoEnv goodBlock (BlockIndex.child (demoChain 5) 106) =
        .ok [demoCommitment 104 0 12, demoNull 105 1] ∧
      demoEnv.isNull (demoCommitment 104 0 12) = false ∧
      (getMinedCommitment (undoBlock demoEnv goodNode.state goodBlock
          (BlockIndex.child (demoChain 5) 106)).2 1 104 = none ∧
        (hasMinedCommitment (undoBlock demoEnv goodNode.state goodBlock
          (BlockIndex.child (demoChain 5) 106)).2 1 104).1 = false ∧
        ∃ hash c, (undoBlock demoEnv goodNode.state goodBlock
            (BlockIndex.child (demoChain 5) 106)).2.minableCommitmentsByQuorum (1, 104) =
              some hash ∧
          getMineableCommitmentByHash (undoBlock demoEnv goodNode.state goodBlock
            (BlockIndex.child (demoChain 5) 106)).2 hash = some c ∧
          (demoCommitment 104 0 12).countSigners ≤ c.countSigners) :=
  have hinj : Function.Injective demoEnv.serializeHash := FinalCommitment.encode_injective
  have hn : Reachable demoEnv (demoChain 5) goodNode :=
    .step .init (.chain (.connect goodBlock true (by decide) (by decide)
      (Prod.ext (by decide) rfl)))
  have h : undoBlock demoEnv goodNode.state goodBlock (BlockIndex.child (demoChain 5) 106) =
      (.ok (), (undoBlock demoEnv goodNode.state goodBlock
        (BlockIndex.child (demoChain 5) 106)).2) := Prod.ext (by decide) rfl
  have hqcs : getCommitmentsFromBlock demoEnv goodBlock (BlockIndex.child (demoChain 5) 106) =
      .ok [demoCommitment 104 0 12, demoNull 105 1] := by decide
  ⟨hinj, hn, h, hqcs, by decide,
    undoBlock_reoffers hinj hn h hqcs _ (List.mem_cons_self _ _) (by decide)⟩

/-! ## 取り出しのループ -/

theorem multimapEmplace_of_not_lt {qc : FinalCommitment} :
    ∀ {l : List FinalCommitment}, (∀ c ∈ l, ¬qc.llmqType < c.llmqType) →
      multimapEmplace qc l = l ++ [qc]
  | [], _ => rfl
  | c :: cs, h => by
    rw [multimapEmplace, if_neg (h c (List.mem_cons_self _ _)),
      multimapEmplace_of_not_lt fun c' hc' => h c' (List.mem_cons_of_mem _ hc')]
    rfl

theorem getCommitmentsFromTxs_of_payloads {pindex : BlockIndex} {llmqParams : LLMQParams}
    (hparams : env.getLLMQParams llmqParams.type = some llmqParams) :
    ∀ {vtx : List Transaction} {ret l : List FinalCommitment},
      (∀ c ∈ ret ++ l, c.llmqType = llmqParams.type) →
      (env.isQuorumRotationEnabled llmqParams pindex = true ∨ ret.length + l.length ≤ 1) →
      (vtx.filter (·.nType = env.txTypeQuorumCommitment)).map (·.payload.map (·.commitment)) =
        l.map some →
      getCommitmentsFromTxs env pindex vtx ret = .ok (ret ++ l)
  | [], ret, l, _, _, hv => by
    cases l with
    | nil => rw [List.append_nil]; rfl
    | cons f l => cases hv
  | tx :: vtx, ret, l, htype, hrot, hv => by
    unfold getCommitmentsFromTxs
    by_cases ht : tx.nType = env.txTypeQuorumCommitment
    · rw [if_pos ht]
      rw [List.filter_cons_of_pos (by simpa using ht), List.map_cons] at hv
      cases l with
      | nil => cases hv
      | cons f l =>
      rw [List.map_cons, List.cons.injEq] at hv
      obtain ⟨hp, hv⟩ := hv
      cases hpl : tx.payload with
      | none => rw [hpl] at hp; cases hp
      | some p =>
      rw [hpl, Option.map_some', Option.some.injEq] at hp
      subst hp
      have hf : p.commitment.llmqType = llmqParams.type :=
        htype _ (List.mem_append_right _ (List.mem_cons_self _ _))
      have hdup : ¬(!env.isQuorumRotationEnabled llmqParams pindex &&
          decide (countType ret p.commitment.llmqType ≠ 0)) = true := by
        rcases hrot with hrot | hlen
        · simp [hrot]
        · have : ret = [] := List.eq_nil_of_length_eq_zero (by simp at hlen; omega)
          simp [this, countType]
      dsimp only
      rw [hf, hparams]
      dsimp only
      rw [← hf, if_neg hdup, multimapEmplace_of_not_lt fun c hc => by
        rw [htype c (List.mem_append_left _ hc), hf]
        exact UInt8.lt_irrefl _]
      rw [show ret ++ p.commitment :: l = ret ++ [p.commitment] ++ l by simp]
      refine getCommitmentsFromTxs_of_payloads hparams (fun c hc => htype c (by simpa using hc))
        (hrot.imp_right fun h => by simp at h ⊢; omega) hv
    · rw [if_neg ht]
      rw [List.filter_cons_of_neg (by simpa using ht)] at hv
      exact getCommitmentsFromTxs_of_payloads hparams htype hrot hv

/-! ## ひな形から取り出しへ -/

theorem getMineableCommitmentsTx_payloads {chain : Chain} {llmqParams : LLMQParams}
    {nHeight : Nat} {s : State} {txs : List Transaction}
    (h : (getMineableCommitmentsTx env chain llmqParams nHeight s).1 = .ok (some txs)) :
    ∃ l, (getMineableCommitments env chain llmqParams nHeight s).1 = .ok (some l) ∧
      (txs.filter (·.nType = env.txTypeQuorumCommitment)).map (·.payload.map (·.commitment)) =
        l.map some := by
  unfold getMineableCommitmentsTx at h
  rcases hm : getMineableCommitments env chain llmqParams nHeight s with ⟨_ | _ | l, s₁⟩ <;>
    rw [hm] at h <;> cases h
  refine ⟨l, rfl, ?_⟩
  rw [List.filter_eq_self.2 (by simp), List.map_map]
  rfl

theorem Chain.blockForHeight_length {chain : Chain} {tip : BlockIndex}
    (htip : chain.tip = some tip) : chain.blockForHeight chain.length = some tip := by
  rw [Chain.blockForHeight, if_pos (by simp only [Chain.height]; omega), htip]

/-- 先端の子の高さのひな形のコミットメントは、どれも型 `llmqParams.type` で、先端で回転が
なければ一つまで。 -/
theorem getMineableCommitments_next_shape {chain : Chain} {llmqParams : LLMQParams} {s : State}
    {tip : BlockIndex} {l : List FinalCommitment} (hp : PoolIntegrity env s) (h0 : 0 ∉ chain)
    (htip : chain.tip = some tip)
    (hl : (getMineableCommitments env chain llmqParams chain.length s).1 = .ok (some l)) :
    (∀ c ∈ l, c.llmqType = llmqParams.type) ∧
      (env.isQuorumRotationEnabled llmqParams tip = true ∨ l.length ≤ 1) := by
  have hchain : chain ≠ [] := fun h => by rw [h] at htip; cases htip
  obtain ⟨N, s₁, hN⟩ := getNumCommitmentsRequired_next hchain llmqParams s
  rcases getMineableCommitments_spec hp h0 hN with ⟨-, hnone⟩ | ⟨-, pindex, l', hpi, hl', -, hfa⟩
  · rw [hl] at hnone; cases hnone
  rw [hl, Except.ok.injEq, Option.some.injEq] at hl'
  subst hl'
  -- ひな形の判定に使うブロックは先端
  rw [Chain.blockForHeight_length htip, Option.some.injEq] at hpi
  subst hpi
  refine ⟨fun c hc => ?_, ?_⟩
  · obtain ⟨_, _, hs⟩ := exists_of_forall₂_of_mem_right hfa hc
    exact (SlotFill.slot hp hs).1
  · have hlen : l.length ≤ quorumsNum env llmqParams tip := by
      rw [← hfa.length_eq]
      exact (List.length_filter_le _ _).trans (List.length_range _).le
    unfold quorumsNum at hlen
    split at hlen
    · exact .inl ‹_›
    · exact .inr hlen

/-- 届く状態で、先端の子のブロックに `GetMineableCommitmentsTx(llmqParams, 高さ)` のトランザクションを
その順に（ほかの種類のトランザクションに混ぜて）入れれば、`GetCommitmentsFromBlock` はひな形の
コミットメントをその順に返す。`DIP0003Height` より低くない高さで、回転が先端で有効なら子でも有効な
とき。 -/
theorem getCommitmentsFromBlock_getMineableCommitmentsTx
    (hinj : Function.Injective env.serializeHash) {chain₀ : Chain} (hact : env.ActiveChain chain₀)
    {n : Node} (hn : Reachable env chain₀ n) {llmqParams : LLMQParams}
    (hparams : env.getLLMQParams llmqParams.type = some llmqParams) {tip : BlockIndex}
    (htip : n.chain.tip = some tip) (block : Block)
    (hrot : env.isQuorumRotationEnabled llmqParams tip = true →
      env.isQuorumRotationEnabled llmqParams (BlockIndex.child n.chain block.hash) = true)
    (hdip : env.dip0003Height ≤ n.chain.length) {txs : List Transaction}
    (htx : (getMineableCommitmentsTx env n.chain llmqParams n.chain.length n.state).1 =
      .ok (some txs))
    (hvtx : block.vtx.filter (·.nType = env.txTypeQuorumCommitment) = txs) :
    ∃ l, (getMineableCommitments env n.chain llmqParams n.chain.length n.state).1 =
        .ok (some l) ∧
      getCommitmentsFromBlock env block (BlockIndex.child n.chain block.hash) = .ok l := by
  obtain ⟨l, hl, hpay⟩ := getMineableCommitmentsTx_payloads htx
  obtain ⟨htype, hshape⟩ := getMineableCommitments_next_shape (hn.poolIntegrity hinj)
    (hn.activeChain hact).zero_not_mem htip hl
  refine ⟨l, hl, ?_⟩
  have hpay' : (block.vtx.filter (·.nType = env.txTypeQuorumCommitment)).map
      (·.payload.map (·.commitment)) = l.map some := by
    rw [← hpay, ← hvtx, List.filter_filter]
    simp only [Bool.and_self]
  unfold getCommitmentsFromBlock
  rw [getCommitmentsFromTxs_of_payloads hparams (by simpa using htype)
    (hshape.imp hrot fun h => by simpa using h) hpay']
  dsimp only
  rw [if_neg (by simp [BlockIndex.child, BlockIndex.nHeight]; omega), List.nil_append]

/-- 例のひな形のブロック：`pooledNode` の先端（高さ 5）の子として、種類 0 のトランザクションの後に、
高さ 6 のひな形（クォーラム 104 の表の候補と、105 の null のコミットメント）のトランザクション。 -/
def templateBlock : Block :=
  ⟨106, ⟨3, 0, none⟩ :: ((getMineableCommitmentsTx demoEnv (demoChain 5) demoParams 6
    pooledNode.state).1.toOption.join.getD [])⟩

theorem getCommitmentsFromBlock_getMineableCommitmentsTx_demo :
    Function.Injective demoEnv.serializeHash ∧ demoEnv.ActiveChain (demoChain 5) ∧
      Reachable demoEnv (demoChain 5) pooledNode ∧
      demoEnv.getLLMQParams demoParams.type = some demoParams ∧
      pooledNode.chain.tip = some (demoBlockIndex 5) ∧
      (demoEnv.isQuorumRotationEnabled demoParams (demoBlockIndex 5) = true →
        demoEnv.isQuorumRotationEnabled demoParams
          (BlockIndex.child pooledNode.chain templateBlock.hash) = true) ∧
      demoEnv.dip0003Height ≤ pooledNode.chain.length ∧
      (getMineableCommitmentsTx demoEnv pooledNode.chain demoParams pooledNode.chain.length
        pooledNode.state).1 = .ok (some templateBlock.vtx.tail) ∧
      templateBlock.vtx.filter (·.nType = demoEnv.txTypeQuorumCommitment) =
        templateBlock.vtx.tail ∧
      ∃ l, (getMineableCommitments demoEnv pooledNode.chain demoParams pooledNode.chain.length
          pooledNode.state).1 = .ok (some l) ∧
        getCommitmentsFromBlock demoEnv templateBlock
          (BlockIndex.child pooledNode.chain templateBlock.hash) = .ok l :=
  have hinj : Function.Injective demoEnv.serializeHash := FinalCommitment.encode_injective
  have hact : demoEnv.ActiveChain (demoChain 5) := demoChain_active _ (by decide)
  have hn : Reachable demoEnv (demoChain 5) pooledNode :=
    .step .init (.message (Node.init (demoChain 5)) (demoCommitment 104 0 12))
  have htx : (getMineableCommitmentsTx demoEnv pooledNode.chain demoParams
      pooledNode.chain.length pooledNode.state).1 = .ok (some templateBlock.vtx.tail) := by decide
  have hvtx : templateBlock.vtx.filter (·.nType = demoEnv.txTypeQuorumCommitment) =
      templateBlock.vtx.tail := by decide
  have htip : pooledNode.chain.tip = some (demoBlockIndex 5) := by decide
  ⟨hinj, hact, hn, by decide, htip, fun _ => by decide, by decide, htx, hvtx,
    getCommitmentsFromBlock_getMineableCommitmentsTx hinj hact hn (by decide) htip
      templateBlock (fun _ => by decide) (by decide) htx hvtx⟩

/-- 例のひな形には、二つのコミットメントがある。 -/
example : (getCommitmentsFromBlock demoEnv templateBlock
    (BlockIndex.child (demoChain 5) 106)).map List.length = .ok 2 := by
  decide

end QuorumBlockProcessor
