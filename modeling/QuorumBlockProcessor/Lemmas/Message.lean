import QuorumBlockProcessor.Lemmas.Mining

/-!
# ネットワークから届くコミットメント

`ProcessMessage` が中継するのは、コミットメントをそのクォーラムの候補にしたときだけで、そのとき
`GetMineableCommitmentByHash` はそのハッシュで答え、そのクォーラムが次の高さで求められれば直後の
ひな形に入る。中継しないとき、表は前のまま。
-/

namespace QuorumBlockProcessor

variable {env : Env}

/-! ## `ProcessMessage` の結果 -/

/-- `ProcessMessage` は、キャッシュを埋めるだけで `added` 以外を返すか、`HasMinedCommitment` が
採掘されていないと答えた、基のブロックの知られた（したがって null でないハッシュの）`qc` を
`AddMineableCommitment` に渡し、その結果を返す。 -/
theorem processMessage_result {chain : Chain} {s s' : State} {qc : FinalCommitment}
    {r : Except Failure MessageResult} (h : processMessage env chain s qc = (r, s')) :
    (s.CacheFill s' ∧ ∀ relay, r ≠ .ok (.added relay)) ∨
      qc.quorumHash ≠ 0 ∧ (hasMinedCommitment s qc.llmqType qc.quorumHash).1 = false ∧
        r = Except.map MessageResult.added
          (addMineableCommitment env (hasMinedCommitment s qc.llmqType qc.quorumHash).2 qc).1 ∧
        s' =
          (addMineableCommitment env (hasMinedCommitment s qc.llmqType qc.quorumHash).2 qc).2 := by
  have hf := hasMinedCommitment_cacheFill s qc.llmqType qc.quorumHash
  unfold processMessage at h
  by_cases hnull : env.isNull qc = true
  · rw [if_pos hnull] at h; cases h; exact .inl ⟨.refl s, fun _ h => nomatch h⟩
  rw [if_neg hnull] at h
  cases hp : env.getLLMQParams qc.llmqType with
  | none => rw [hp] at h; cases h; exact .inl ⟨.refl s, fun _ h => nomatch h⟩
  | some p =>
  cases hb : env.lookupBlockIndex qc.quorumHash with
  | none => rw [hp, hb] at h; cases h; exact .inl ⟨.refl s, fun _ h => nomatch h⟩
  | some base =>
  cases ht : chain.tip with
  | none => rw [hp, hb, ht] at h; cases h; exact .inl ⟨.refl s, fun _ h => nomatch h⟩
  | some tip =>
  rw [hp, hb, ht] at h
  dsimp only at h
  by_cases hanc : tip.getAncestor base.nHeight ≠ some base
  · rw [if_pos hanc] at h; cases h; exact .inl ⟨.refl s, fun _ h => nomatch h⟩
  rw [if_neg hanc] at h
  by_cases hq : ((base.nHeight - base.nHeight % p.dkgInterval : Nat) : Int) + qc.quorumIndex ≠
      base.nHeight
  · rw [if_pos hq] at h; cases h; exact .inl ⟨.refl s, fun _ h => nomatch h⟩
  rw [if_neg hq] at h
  by_cases hold : (base.nHeight : Int) < chain.height - p.dkgInterval
  · rw [if_pos hold] at h; cases h; exact .inl ⟨.refl s, fun _ h => nomatch h⟩
  rw [if_neg hold] at h
  by_cases hmined : (hasMinedCommitment s qc.llmqType qc.quorumHash).1 = true
  · rw [if_pos hmined] at h; cases h; exact .inl ⟨hf, fun _ h => nomatch h⟩
  rw [if_neg hmined] at h
  by_cases hbk : betterKnownLocally (hasMinedCommitment s qc.llmqType qc.quorumHash).2
      (qc.llmqType, qc.quorumHash) qc = true
  · rw [if_pos hbk] at h; cases h; exact .inl ⟨hf, fun _ h => nomatch h⟩
  rw [if_neg hbk] at h
  by_cases hv : (!env.verify qc (some base) true) = true
  · rw [if_pos hv] at h; cases h; exact .inl ⟨hf, fun _ h => nomatch h⟩
  rw [if_neg hv] at h
  refine .inr ⟨fun h0 => ?_, by simpa using hmined, ?_⟩
  · rw [h0, env.lookup_null] at hb
    cases hb
  · rcases hadd : addMineableCommitment env (hasMinedCommitment s qc.llmqType qc.quorumHash).2 qc
      with ⟨_ | _, _⟩ <;> rw [hadd] at h <;> cases h <;> exact ⟨rfl, rfl⟩

/-- `ProcessMessage` が `added` を返すのは、`qc` を `AddMineableCommitment` に渡したときだけ。 -/
theorem processMessage_added {chain : Chain} {s s' : State} {qc : FinalCommitment}
    {relay : Bool} (h : processMessage env chain s qc = (.ok (.added relay), s')) :
    qc.quorumHash ≠ 0 ∧ (hasMinedCommitment s qc.llmqType qc.quorumHash).1 = false ∧
      addMineableCommitment env (hasMinedCommitment s qc.llmqType qc.quorumHash).2 qc =
        (.ok relay, s') := by
  rcases processMessage_result h with ⟨-, hr⟩ | ⟨h0, hmined, hr, hs⟩
  · exact absurd rfl (hr relay)
  refine ⟨h0, hmined, ?_⟩
  rcases hadd : addMineableCommitment env (hasMinedCommitment s qc.llmqType qc.quorumHash).2 qc
    with ⟨_ | relay', s''⟩ <;> rw [hadd] at hr hs <;> cases hr
  rw [hs]

/-! ## 中継と在庫 -/

theorem addMineableCommitment_relay (hinj : Function.Injective env.serializeHash) {s : State}
    (hp : PoolIntegrity env s) (qc : FinalCommitment) :
    ((addMineableCommitment env s qc).1 = .ok true →
      (addMineableCommitment env s qc).2.minableCommitmentsByQuorum (qc.llmqType, qc.quorumHash) =
          some (env.serializeHash qc) ∧
        (addMineableCommitment env s qc).2.minableCommitments (env.serializeHash qc) = some qc) ∧
    ((addMineableCommitment env s qc).1 ≠ .ok true → (addMineableCommitment env s qc).2 = s) := by
  dsimp only [addMineableCommitment]
  split
  · refine ⟨fun _ => ⟨Function.update_same _ _ _, ?_⟩, fun h => absurd rfl h⟩
    cases hc : s.minableCommitments (env.serializeHash qc) with
    | none => exact mapEmplace_eq_some.2 (.inr ⟨rfl, hc, rfl⟩)
    | some c =>
      obtain rfl := hinj (hp.hash _ _ hc)
      exact mapEmplace_eq_some.2 (.inl hc)
  split
  · exact ⟨(fun h => nomatch h), fun _ => rfl⟩
  split
  · exact ⟨fun _ => ⟨Function.update_same _ _ _,
      mapEmplace_eq_some.2 (.inr ⟨rfl, Function.update_same _ _ _, rfl⟩)⟩, fun h => absurd rfl h⟩
  · exact ⟨(fun h => nomatch h), fun _ => rfl⟩

/-- 届くノードで `ProcessMessage` が `qc` を中継する（`added true` を返す）なら、`qc` はその
クォーラムの候補になり、`HasMineableCommitment(SerializeHash(qc))` は真、
`GetMineableCommitmentByHash` は `qc` を返す：知らせた在庫は求められれば渡せる。中継しなければ、
`minableCommitmentsByQuorum` も `minableCommitments` も前のまま。 -/
theorem processMessage_relay (hinj : Function.Injective env.serializeHash) {chain₀ : Chain}
    {n : Node} (hn : Reachable env chain₀ n) (qc : FinalCommitment) :
    ((processMessage env n.chain n.state qc).1 = .ok (.added true) →
      (processMessage env n.chain n.state qc).2.minableCommitmentsByQuorum
          (qc.llmqType, qc.quorumHash) = some (env.serializeHash qc) ∧
        hasMineableCommitment (processMessage env n.chain n.state qc).2
          (env.serializeHash qc) = true ∧
        getMineableCommitmentByHash (processMessage env n.chain n.state qc).2
          (env.serializeHash qc) = some qc) ∧
    ((processMessage env n.chain n.state qc).1 ≠ .ok (.added true) →
      (processMessage env n.chain n.state qc).2.minableCommitmentsByQuorum =
          n.state.minableCommitmentsByQuorum ∧
        (processMessage env n.chain n.state qc).2.minableCommitments =
          n.state.minableCommitments) := by
  rcases hm : processMessage env n.chain n.state qc with ⟨r, s'⟩
  rcases processMessage_result hm with ⟨hf, hr⟩ | ⟨-, -, rfl, rfl⟩
  · exact ⟨fun h => absurd h (hr true), fun _ => ⟨hf.byQuorum, hf.minable⟩⟩
  have hf := hasMinedCommitment_cacheFill n.state qc.llmqType qc.quorumHash
  obtain ⟨hrelay, hkeep⟩ := addMineableCommitment_relay hinj
    ((hn.poolIntegrity hinj).cacheFill hf) qc
  refine ⟨fun h => ?_, fun h => ?_⟩
  · -- 中継した：表の結果は `relay = true`
    have hok : (addMineableCommitment env
        (hasMinedCommitment n.state qc.llmqType qc.quorumHash).2 qc).1 = .ok true := by
      revert h
      cases (addMineableCommitment env
        (hasMinedCommitment n.state qc.llmqType qc.quorumHash).2 qc).1 <;> simp [Except.map]
    obtain ⟨hk, hc⟩ := hrelay hok
    exact ⟨hk, by simp [hasMineableCommitment, hc], hc⟩
  · -- 中継しなかった：表は前のまま
    rw [hkeep fun hok => h (by rw [hok]; rfl)]
    exact ⟨hf.byQuorum, hf.minable⟩

/-- 空のノードがクォーラム 104 の候補を受け取ると中継し、そのハッシュで引ける。同じ候補を
もう一度受け取っても（署名者が多くないので）中継せず、表は変わらない。 -/
theorem processMessage_relay_demo :
    Function.Injective demoEnv.serializeHash ∧
      Reachable demoEnv (demoChain 5) (Node.init (demoChain 5)) ∧
      Reachable demoEnv (demoChain 5) pooledNode ∧
      (processMessage demoEnv (demoChain 5) State.empty (demoCommitment 104 0 12)).1 =
        .ok (.added true) ∧
      getMineableCommitmentByHash pooledNode.state
        (demoEnv.serializeHash (demoCommitment 104 0 12)) = some (demoCommitment 104 0 12) ∧
      (processMessage demoEnv pooledNode.chain pooledNode.state (demoCommitment 104 0 12)).1 ≠
        .ok (.added true) ∧
      (processMessage demoEnv pooledNode.chain pooledNode.state
        (demoCommitment 104 0 12)).2.minableCommitments = pooledNode.state.minableCommitments :=
  have hinj : Function.Injective demoEnv.serializeHash := FinalCommitment.encode_injective
  have hpooled : Reachable demoEnv (demoChain 5) pooledNode := .step .init (.message _ _)
  have hmsg : (processMessage demoEnv (demoChain 5) State.empty (demoCommitment 104 0 12)).1 =
      .ok (.added true) := by decide
  have hnot : (processMessage demoEnv pooledNode.chain pooledNode.state
      (demoCommitment 104 0 12)).1 ≠ .ok (.added true) := by decide
  ⟨hinj, .init, hpooled, hmsg, ((processMessage_relay hinj .init _).1 hmsg).2.2, hnot,
    ((processMessage_relay hinj hpooled _).2 hnot).2⟩

/-! ## 受け取ったコミットメントからひな形へ -/

/-- 届くノードで `ProcessMessage` が `qc` を表に加える（`added` を返す）と、先端の子の高さで
`qc` のクォーラムが番号 `quorumIndex` として求められるとき、直後の `GetMineableCommitments` は
その番号に、`qc` か、同じクォーラムの署名者が `qc` 以上の候補を入れる：受け取ったコミットメントは
null のコミットメントに替えられない。 -/
theorem getMineableCommitments_of_processMessage (hinj : Function.Injective env.serializeHash)
    {chain₀ : Chain} (hact : env.ActiveChain chain₀) {n : Node} (hn : Reachable env chain₀ n)
    {qc : FinalCommitment} {relay : Bool}
    (hmsg : (processMessage env n.chain n.state qc).1 = .ok (.added relay))
    {llmqParams : LLMQParams} (htype : qc.llmqType = llmqParams.type) {tip : BlockIndex}
    (htip : n.chain.tip = some tip) {quorumIndex : Nat}
    (hq : quorumIndex < quorumsNum env llmqParams tip)
    (hhash : getQuorumBlockHash n.chain llmqParams n.chain.length quorumIndex = qc.quorumHash)
    (hphase : isMiningPhase n.chain llmqParams n.chain.length = .ok true) :
    ∃ l c, (getMineableCommitments env n.chain llmqParams n.chain.length
        (processMessage env n.chain n.state qc).2).1 = .ok (some l) ∧ c ∈ l ∧
      c.llmqType = qc.llmqType ∧ c.quorumHash = qc.quorumHash ∧
      qc.countSigners ≤ c.countSigners := by
  obtain ⟨h0, hmined, hadd⟩ := processMessage_added (Prod.ext hmsg rfl)
  have hn' : Reachable env chain₀ { n with state := (processMessage env n.chain n.state qc).2 } :=
    .step hn (.message n qc)
  have hp := hn'.poolIntegrity hinj
  -- 表には `qc` のクォーラムの候補があり、そのクォーラムは採掘されていないと見える
  obtain ⟨h, c, hk, hc, hsig⟩ : (processMessage env n.chain n.state qc).2.Offers
      (qc.llmqType, qc.quorumHash) qc.countSigners := by
    have := addMineableCommitment_offers hinj ((hn.poolIntegrity hinj).cacheFill
      (hasMinedCommitment_cacheFill _ qc.llmqType qc.quorumHash)) qc
    rwa [hadd] at this
  have hview : (processMessage env n.chain n.state qc).2.minedView
      (qc.llmqType, qc.quorumHash) = false := by
    rw [← congrArg Prod.snd hadd, addMineableCommitment_minedView, hasMinedCommitment_minedView]
    simpa [hasMinedCommitment_fst] using hmined
  have hmem : quorumIndex ∈ (List.range (quorumsNum env llmqParams tip)).filter
      (RequiredSlot n.chain llmqParams n.chain.length
        (processMessage env n.chain n.state qc).2.minedView) := by
    simp only [List.mem_filter, List.mem_range, RequiredSlot, hhash, ← htype, hview]
    exact ⟨hq, by simpa using h0⟩
  have hchain : n.chain ≠ [] := fun he => by rw [he] at htip; cases htip
  obtain ⟨N, s₁, hN⟩ := getNumCommitmentsRequired_next hchain llmqParams
    (processMessage env n.chain n.state qc).2
  rcases getMineableCommitments_spec hp (hn.activeChain hact).zero_not_mem hN with
    ⟨hN0, -⟩ | ⟨-, pindex, l, hpi, hl, -, hfa⟩
  · -- 求められるクォーラムがあるので、数は 0 でない
    obtain ⟨-, ⟨hm, -⟩ | ⟨-, pindex, hpi, hlen⟩⟩ := getNumCommitmentsRequired_spec hN
    · rw [hphase] at hm; cases hm
    rw [Chain.blockForHeight_length htip, Option.some.injEq] at hpi
    subst hpi
    exact absurd (hlen ▸ hN0) (List.length_pos_of_mem hmem).ne'
  rw [Chain.blockForHeight_length htip, Option.some.injEq] at hpi
  subst hpi
  obtain ⟨c', hc', hfill⟩ := exists_of_forall₂_of_mem_left hfa hmem
  -- その番号には表の候補が入る
  simp only [SlotFill, hhash, ← htype, hk, hc, Option.some.injEq] at hfill
  subst hfill
  obtain ⟨c'', hc'', hkey⟩ := hp.byQuorum _ _ hk
  obtain rfl : c = c'' := Option.some.inj (hc.symm.trans hc'')
  exact ⟨l, c, hl, hc', (Prod.mk.inj hkey).1, (Prod.mk.inj hkey).2, hsig⟩

/-- 空のノードがクォーラム 104（高さ 4、周期の番号 0）の候補を受け取ると、高さ 6 のひな形には
その候補が入る。 -/
theorem getMineableCommitments_of_processMessage_demo :
    Function.Injective demoEnv.serializeHash ∧ demoEnv.ActiveChain (demoChain 5) ∧
      Reachable demoEnv (demoChain 5) (Node.init (demoChain 5)) ∧
      (processMessage demoEnv (demoChain 5) State.empty (demoCommitment 104 0 12)).1 =
        .ok (.added true) ∧
      (demoCommitment 104 0 12).llmqType = demoParams.type ∧
      (demoChain 5).tip = some (demoBlockIndex 5) ∧
      0 < quorumsNum demoEnv demoParams (demoBlockIndex 5) ∧
      getQuorumBlockHash (demoChain 5) demoParams (demoChain 5).length (0 : Nat) =
        (demoCommitment 104 0 12).quorumHash ∧
      isMiningPhase (demoChain 5) demoParams (demoChain 5).length = .ok true ∧
      ∃ l c, (getMineableCommitments demoEnv (demoChain 5) demoParams (demoChain 5).length
          (processMessage demoEnv (demoChain 5) State.empty (demoCommitment 104 0 12)).2).1 =
            .ok (some l) ∧ c ∈ l ∧
        c.llmqType = (demoCommitment 104 0 12).llmqType ∧
        c.quorumHash = (demoCommitment 104 0 12).quorumHash ∧
        (demoCommitment 104 0 12).countSigners ≤ c.countSigners :=
  have hinj : Function.Injective demoEnv.serializeHash := FinalCommitment.encode_injective
  have hact : demoEnv.ActiveChain (demoChain 5) := demoChain_active _ (by decide)
  have hmsg : (processMessage demoEnv (demoChain 5) State.empty (demoCommitment 104 0 12)).1 =
      .ok (.added true) := by decide
  have htip : (demoChain 5).tip = some (demoBlockIndex 5) := by decide
  ⟨hinj, hact, .init, hmsg, rfl, htip, by decide, by decide, by decide,
    getMineableCommitments_of_processMessage hinj hact .init hmsg rfl htip
      (show 0 < quorumsNum demoEnv demoParams (demoBlockIndex 5) by decide) (by decide)
      (by decide)⟩

end QuorumBlockProcessor
