import QuorumBlockProcessor.Lemmas.IndexedScan

/-!
# 走査が返すブロック

三つの走査は、evoDb の中身によらず `pindex` の祖先だけを返す。そのため
`GetMinedAndActiveCommitmentsUntilBlock` の表は設定された型をちょうど一つずつ持ち、型ごとの列は
`signingActiveQuorumCount` 個までの `pindex` の祖先（`collectMinedAndActive_spec`）。
-/

namespace QuorumBlockProcessor

variable {env : Env}

theorem Env.getLLMQParams_of_mem {p : LLMQParams} (hp : p ∈ env.llmqs) :
    env.getLLMQParams p.type = some p := by
  cases h : env.getLLMQParams p.type with
  | none => simpa using List.find?_eq_none.1 h p hp
  | some q =>
    exact congrArg some (List.inj_on_of_nodup_map env.llmqs_nodup (Env.getLLMQParams_mem h) hp
      (Env.getLLMQParams_type h))

/-! ## `std::map` の `operator[]` -/

section mapModifyAt

variable {k : LLMQType} {f : List BlockIndex → List BlockIndex}

theorem mem_mapModifyAt :
    ∀ {m : List (LLMQType × List BlockIndex)} {p : LLMQType × List BlockIndex},
    p ∈ mapModifyAt k f m → p.1 = k ∨ ∃ q ∈ m, q.1 = p.1
  | [], p, hp => by simp [mapModifyAt] at hp; exact .inl (by rw [hp])
  | (k', v) :: rest, p, hp => by
    unfold mapModifyAt at hp
    split_ifs at hp with h₁ h₂
    · rcases List.mem_cons.1 hp with rfl | hp
      · exact .inr ⟨(k', v), List.mem_cons_self _ _, rfl⟩
      · exact .inr ⟨p, List.mem_cons_of_mem _ hp, rfl⟩
    · rcases List.mem_cons.1 hp with rfl | hp
      · exact .inl rfl
      · exact .inr ⟨p, hp, rfl⟩
    · rcases List.mem_cons.1 hp with rfl | hp
      · exact .inr ⟨(k', v), List.mem_cons_self _ _, rfl⟩
      · exact (mem_mapModifyAt hp).imp_right fun ⟨q, hq, he⟩ =>
          ⟨q, List.mem_cons_of_mem _ hq, he⟩

theorem mapModifyAt_sorted : ∀ {m : List (LLMQType × List BlockIndex)},
    m.Pairwise (fun a b => a.1 < b.1) → (mapModifyAt k f m).Pairwise (fun a b => a.1 < b.1)
  | [], _ => List.pairwise_singleton _ _
  | (k', v) :: rest, hs => by
    obtain ⟨hhead, hrest⟩ := List.pairwise_cons.1 hs
    unfold mapModifyAt
    split_ifs with h₁ h₂
    · exact List.pairwise_cons.2 ⟨hhead, hrest⟩
    · refine List.pairwise_cons.2 ⟨fun q hq => ?_, hs⟩
      rcases List.mem_cons.1 hq with rfl | hq
      · exact h₂
      · exact UInt8.lt_trans h₂ (hhead q hq)
    · refine List.pairwise_cons.2 ⟨fun q hq => ?_, mapModifyAt_sorted hrest⟩
      rcases mem_mapModifyAt hq with he | ⟨q', hq', he⟩
      · rw [he]
        show k' < k
        rw [UInt8.lt_iff_toNat_lt] at h₂ ⊢
        have := mt uint8_eq_iff.2 h₁
        omega
      · exact he ▸ hhead q' hq'

theorem lookup_mapModifyAt_self : ∀ {m : List (LLMQType × List BlockIndex)},
    m.Pairwise (fun a b => a.1 < b.1) →
    (mapModifyAt k f m).lookup k = some (f ((m.lookup k).getD []))
  | [], _ => by simp only [mapModifyAt, List.lookup_cons_self, List.lookup_nil, Option.getD_none]
  | (k', v) :: rest, hs => by
    obtain ⟨hhead, hrest⟩ := List.pairwise_cons.1 hs
    unfold mapModifyAt
    split_ifs with h₁ h₂
    · subst h₁
      simp only [List.lookup_cons_self, Option.getD_some]
    · have hnone : rest.lookup k = none :=
        List.lookup_eq_none_iff.2 fun q hq =>
          bne_iff_ne.2 (UInt8.ne_of_lt (UInt8.lt_trans h₂ (hhead q hq)))
      simp only [List.lookup_cons_self, List.lookup_cons, beq_eq_false_iff_ne.2 h₁, hnone,
        Option.getD_none]
    · simp only [List.lookup_cons, beq_eq_false_iff_ne.2 h₁, lookup_mapModifyAt_self hrest]

theorem lookup_mapModifyAt_of_ne {k' : LLMQType} (hk : k' ≠ k) :
    ∀ m : List (LLMQType × List BlockIndex), (mapModifyAt k f m).lookup k' = m.lookup k'
  | [] => by simp only [mapModifyAt, List.lookup_cons, beq_eq_false_iff_ne.2 hk, List.lookup_nil]
  | (k'', v) :: rest => by
    unfold mapModifyAt
    split_ifs with h₁ h₂
    · subst h₁
      simp only [List.lookup_cons, beq_eq_false_iff_ne.2 hk]
    · simp only [List.lookup_cons, beq_eq_false_iff_ne.2 hk]
    · simp only [List.lookup_cons, lookup_mapModifyAt_of_ne hk rest]

end mapModifyAt

/-! ## 祖先 -/

theorem BlockIndex.getAncestor_prefix {pindex b : BlockIndex} {height : Int}
    (h : pindex.getAncestor height = some b) : b.hashes <+: pindex.hashes := by
  unfold BlockIndex.getAncestor at h
  split at h
  · cases h
    exact List.take_prefix _ _
  · cases h

section scans

variable {db : Db} {t : LLMQType} {pindex : BlockIndex}

theorem minedCommitmentsLoop_step {maxCount : Nat} {lastKey : InversedHeightKey}
    (key value : Bytes) (rest : List (Bytes × Bytes)) (ret : List BlockIndex) :
    minedCommitmentsLoop t pindex maxCount lastKey ((key, value) :: rest) ret = .ok ret ∨
    minedCommitmentsLoop t pindex maxCount lastKey ((key, value) :: rest) ret =
      .error .assertion ∨
    ∃ height b, pindex.getAncestor height = some b ∧ ret.length < maxCount ∧
      minedCommitmentsLoop t pindex maxCount lastKey ((key, value) :: rest) ret =
        minedCommitmentsLoop t pindex maxCount lastKey rest (ret ++ [b]) := by
  rw [minedCommitmentsLoop]
  dsimp only
  repeat' split
  all_goals first
    | exact .inl rfl
    | exact .inr (.inl rfl)
    | exact .inr (.inr ⟨_, _, ‹_›, ‹_›, rfl⟩)

theorem minedCommitmentsLoop_ancestors {maxCount : Nat} {lastKey : InversedHeightKey} :
    ∀ {it : List (Bytes × Bytes)} {ret l : List BlockIndex},
      minedCommitmentsLoop t pindex maxCount lastKey it ret = .ok l →
      l.length ≤ max ret.length maxCount ∧ ∀ b ∈ l, b ∈ ret ∨ b.hashes <+: pindex.hashes
  | [], ret, l, h => by
    cases h
    exact ⟨Nat.le_max_left _ _, fun b hb => .inl hb⟩
  | (key, value) :: rest, ret, l, h => by
    rcases minedCommitmentsLoop_step key value rest ret with he | he | ⟨_, b, hb, hlt, he⟩ <;>
      rw [he] at h
    · cases h
      exact ⟨Nat.le_max_left _ _, fun b hb => .inl hb⟩
    · cases h
    · obtain ⟨hlen, hmem⟩ := minedCommitmentsLoop_ancestors h
      refine ⟨by simp only [List.length_append, List.length_singleton] at hlen; omega,
        fun b' hb' => ?_⟩
      rcases hmem b' hb' with h' | h'
      · rcases List.mem_append.1 h' with h' | h'
        · exact .inl h'
        · rw [List.mem_singleton.1 h']
          exact .inr (BlockIndex.getAncestor_prefix hb)
      · exact .inr h'

/-- 平らな走査は `maxCount` 個までの `pindex` の祖先を返す。 -/
theorem getMinedCommitmentsUntilBlock_ancestors {maxCount : Nat} {l : List BlockIndex}
    (h : getMinedCommitmentsUntilBlock db t pindex maxCount = .ok l) :
    l.length ≤ maxCount ∧ ∀ b ∈ l, b.hashes <+: pindex.hashes := by
  obtain ⟨hlen, hmem⟩ := minedCommitmentsLoop_ancestors h
  exact ⟨by simpa using hlen, fun b hb => (hmem b hb).resolve_left (List.not_mem_nil b)⟩

theorem lastMinedByQuorumIndexLoop_step {cycle : Nat} {lastKey : InversedHeightKeyIndexed}
    (key value : Bytes) (rest : List (Bytes × Bytes)) (cur : Nat) :
    lastMinedByQuorumIndexLoop t pindex cycle lastKey ((key, value) :: rest) cur = .ok none ∨
    lastMinedByQuorumIndexLoop t pindex cycle lastKey ((key, value) :: rest) cur =
      .error .assertion ∨
    ∃ height b, pindex.getAncestor height = some b ∧
      (lastMinedByQuorumIndexLoop t pindex cycle lastKey ((key, value) :: rest) cur =
        .ok (some b) ∨
      lastMinedByQuorumIndexLoop t pindex cycle lastKey ((key, value) :: rest) cur =
        lastMinedByQuorumIndexLoop t pindex cycle lastKey rest (cur + 1)) := by
  rw [lastMinedByQuorumIndexLoop]
  dsimp only
  repeat' split
  all_goals first
    | exact .inl rfl
    | exact .inr (.inl rfl)
    | exact .inr (.inr ⟨_, _, ‹_›, .inl rfl⟩)
    | exact .inr (.inr ⟨_, _, ‹_›, .inr rfl⟩)

theorem lastMinedByQuorumIndexLoop_ancestor {cycle : Nat} {lastKey : InversedHeightKeyIndexed} :
    ∀ {it : List (Bytes × Bytes)} {cur : Nat} {b : BlockIndex},
      lastMinedByQuorumIndexLoop t pindex cycle lastKey it cur = .ok (some b) →
      b.hashes <+: pindex.hashes
  | [], _, _, h => by cases h
  | (key, value) :: rest, cur, b, h => by
    rcases lastMinedByQuorumIndexLoop_step key value rest cur with
      he | he | ⟨_, b', hb', he | he⟩ <;> rw [he] at h
    · cases h
    · cases h
    · cases h
      exact BlockIndex.getAncestor_prefix hb'
    · exact lastMinedByQuorumIndexLoop_ancestor h

theorem collectPerQuorumIndex_ancestors {cycle : Nat} :
    ∀ {qs : List Nat} {l : List (Int × BlockIndex)},
      collectPerQuorumIndex db t pindex cycle qs = .ok l →
      l.length ≤ qs.length ∧ ∀ x ∈ l, x.2.hashes <+: pindex.hashes
  | [], l, h => by cases h; exact ⟨le_refl _, by simp⟩
  | q :: qs, l, h => by
    unfold collectPerQuorumIndex at h
    split at h
    · cases h
    · obtain ⟨hlen, hmem⟩ := collectPerQuorumIndex_ancestors h
      exact ⟨by simp only [List.length_cons]; omega, hmem⟩
    · rename_i b hb
      cases hrest : collectPerQuorumIndex db t pindex cycle qs with
      | error e => rw [hrest] at h; cases h
      | ok l' =>
        rw [hrest] at h
        cases h
        obtain ⟨hlen, hmem⟩ := collectPerQuorumIndex_ancestors hrest
        refine ⟨by simp only [List.length_cons]; omega, fun x hx => ?_⟩
        rcases List.mem_cons.1 hx with rfl | hx
        · exact lastMinedByQuorumIndexLoop_ancestor hb
        · exact hmem x hx

/-- 索引ごとの走査は、`signingActiveQuorumCount` 個までの `pindex` の祖先を返す。 -/
theorem getLastMinedCommitmentsPerQuorumIndexUntilBlock_ancestors {cycle : Nat}
    {l : List (Int × BlockIndex)}
    (h : getLastMinedCommitmentsPerQuorumIndexUntilBlock env db t pindex cycle = .ok l) :
    ∃ p, env.getLLMQParams t = some p ∧ l.length ≤ p.signingActiveQuorumCount ∧
      ∀ x ∈ l, x.2.hashes <+: pindex.hashes := by
  unfold getLastMinedCommitmentsPerQuorumIndexUntilBlock at h
  split at h
  · cases h
  · rename_i p hp
    obtain ⟨hlen, hmem⟩ := collectPerQuorumIndex_ancestors h
    exact ⟨p, hp, by simpa using hlen, hmem⟩

end scans

/-! ## 型ごとの表 -/

/-- 設定 `p` の型の列として正しい：`signingActiveQuorumCount` 個までの `pindex` の祖先。 -/
def ActiveList (pindex : BlockIndex) (p : LLMQParams) (l : List BlockIndex) : Prop :=
  l.length ≤ p.signingActiveQuorumCount ∧ ∀ b ∈ l, b.hashes <+: pindex.hashes

/-- 型ごとのループ：型の重複しない設定の列について、まだ表にない型の列をそれぞれ正しく作り、
ほかのキーは変えず、キーの昇順を保つ。 -/
theorem collectMinedAndActive_spec {db : Db} {pindex : BlockIndex} :
    ∀ {ps : List LLMQParams} {ret r : List (LLMQType × List BlockIndex)},
      (∀ p ∈ ps, env.getLLMQParams p.type = some p) → (ps.map (·.type)).Nodup →
      (∀ p ∈ ps, ret.lookup p.type = none) → ret.Pairwise (fun a b => a.1 < b.1) →
      collectMinedAndActive env db pindex ps ret = .ok r →
      r.Pairwise (fun a b => a.1 < b.1) ∧
        (∀ t, t ∉ ps.map (·.type) → r.lookup t = ret.lookup t) ∧
        ∀ p ∈ ps, ∃ l, r.lookup p.type = some l ∧ ActiveList pindex p l
  | [], ret, r, _, _, _, hs, h => by
    cases h
    exact ⟨hs, fun _ _ => rfl, by simp⟩
  | p :: ps, ret, r, hp, hnodup, hnone, hs, h => by
    obtain ⟨hpt, hnodup⟩ := List.nodup_cons.1 hnodup
    have hp' : ∀ q ∈ ps, env.getLLMQParams q.type = some q :=
      fun q hq => hp q (List.mem_cons_of_mem _ hq)
    -- 一つの型の列を作った後も、残りの型の列はまだない
    have step : ∀ {X : List BlockIndex}, ActiveList pindex p X →
        collectMinedAndActive env db pindex ps (mapModifyAt p.type (· ++ X) ret) = .ok r →
        r.Pairwise (fun a b => a.1 < b.1) ∧
          (∀ t, t ∉ (p :: ps).map (·.type) → r.lookup t = ret.lookup t) ∧
          ∀ q ∈ p :: ps, ∃ l, r.lookup q.type = some l ∧ ActiveList pindex q l := by
      intro X hX h
      have hne : ∀ q ∈ ps, q.type ≠ p.type := fun q hq he =>
        hpt (List.mem_map.2 ⟨q, hq, he⟩)
      obtain ⟨hs', hother, hmine⟩ := collectMinedAndActive_spec hp' hnodup
        (fun q hq => by
          rw [lookup_mapModifyAt_of_ne (hne q hq)]
          exact hnone q (List.mem_cons_of_mem _ hq))
        (mapModifyAt_sorted hs) h
      refine ⟨hs', fun t ht => ?_, fun q hq => ?_⟩
      · simp only [List.map_cons, List.mem_cons, not_or] at ht
        rw [hother t ht.2, lookup_mapModifyAt_of_ne ht.1]
      · rcases List.mem_cons.1 hq with rfl | hq
        · refine ⟨X, ?_, hX⟩
          rw [hother _ hpt, lookup_mapModifyAt_self hs, hnone q (List.mem_cons_self _ _)]
          rfl
        · exact hmine q hq
    unfold collectMinedAndActive at h
    split_ifs at h
    · split at h
      · cases h
      rename_i l hl
      obtain ⟨p', hp'', hlen, hmem⟩ := getLastMinedCommitmentsPerQuorumIndexUntilBlock_ancestors hl
      rw [hp p (List.mem_cons_self _ _), Option.some.injEq] at hp''
      subst hp''
      exact step ⟨by simpa using hlen, fun b hb => by
        obtain ⟨x, hx, rfl⟩ := List.mem_map.1 hb
        exact hmem x hx⟩ h
    · split at h
      · cases h
      rename_i l hl
      exact step (getMinedCommitmentsUntilBlock_ancestors hl) h

/-- evoDb の中身によらず（壊れた項目があっても）、`GetMinedAndActiveCommitmentsUntilBlock(pindex)`
が返す表は、設定された型をちょうど一つずつキーの昇順に持ち、型ごとの列は
`signingActiveQuorumCount` 個までの、`pindex` の祖先のブロック。 -/
theorem getMinedAndActiveCommitmentsUntilBlock_ancestors (db : Db) (pindex : BlockIndex)
    {r : List (LLMQType × List BlockIndex)}
    (h : getMinedAndActiveCommitmentsUntilBlock env db pindex = .ok r) :
    r.Pairwise (fun a b => a.1 < b.1) ∧
      (∀ t, (r.lookup t).isSome ↔ t ∈ env.llmqs.map (·.type)) ∧
      ∀ p ∈ env.llmqs, ∃ l, r.lookup p.type = some l ∧
        l.length ≤ p.signingActiveQuorumCount ∧ ∀ b ∈ l, b.hashes <+: pindex.hashes := by
  obtain ⟨hs, hother, hmine⟩ := collectMinedAndActive_spec
    (fun p hp => Env.getLLMQParams_of_mem hp) env.llmqs_nodup (fun _ _ => by rfl)
    List.Pairwise.nil h
  refine ⟨hs, fun t => ⟨fun ht => ?_, fun ht => ?_⟩, hmine⟩
  · by_contra hn
    rw [hother t hn] at ht
    cases ht
  · obtain ⟨p, hp, rfl⟩ := List.mem_map.1 ht
    obtain ⟨l, hl, -⟩ := hmine p hp
    rw [hl]
    rfl

/-- 高さ 8 では型 1 の回転が有効で、索引 0 と 1 のそれぞれ最後の基のブロック（高さ 4 と 3）が
返る。 -/
theorem getMinedAndActiveCommitmentsUntilBlock_ancestors_demo :
    getMinedAndActiveCommitmentsUntilBlock demoEnv indexedDb (demoBlockIndex 8) =
        .ok [(1, [demoBlockIndex 4, demoBlockIndex 3])] ∧
      [((1 : LLMQType), [demoBlockIndex 4, demoBlockIndex 3])].Pairwise (fun a b => a.1 < b.1) ∧
      (∀ t, ([(1, [demoBlockIndex 4, demoBlockIndex 3])].lookup t).isSome ↔
        t ∈ demoEnv.llmqs.map (·.type)) ∧
      ∀ p ∈ demoEnv.llmqs, ∃ l, [(1, [demoBlockIndex 4, demoBlockIndex 3])].lookup p.type = some l ∧
        l.length ≤ p.signingActiveQuorumCount ∧
        ∀ b ∈ l, b.hashes <+: (demoBlockIndex 8).hashes :=
  have h : getMinedAndActiveCommitmentsUntilBlock demoEnv indexedDb (demoBlockIndex 8) =
      .ok [(1, [demoBlockIndex 4, demoBlockIndex 3])] := by decide
  ⟨h, getMinedAndActiveCommitmentsUntilBlock_ancestors indexedDb (demoBlockIndex 8) h⟩

end QuorumBlockProcessor
