import QuorumBlockProcessor.Lemmas.IndexedKey
import QuorumBlockProcessor.Lemmas.Template

/-!
# 索引つきの走査の正しさ

索引が 0 以上 256 未満なら、走査は索引 `q` の高さ `pindex` 以下の項目を高さの下がる順に返す
（`lastMinedByQuorumIndexLoop_spec`）。256 以上では隣の索引の項目を返すことがある。
`GetMinedCommitmentsIndexedUntilBlock` の `while` は `maxCount + 1` 回の `fuel` で終わる。
-/

namespace QuorumBlockProcessor

/-! ## evoDb の項目 -/

section entries

/-- `ProcessCommitment` が書く索引つきの項目：`BuildInversedHeightKeyIndexed(llmqType, nHeight,
int(qc.quorumIndex))` から `pQuorumBaseBlockIndex->nHeight` へ。索引は `int16_t`、高さは `int`。 -/
def WrittenIndexedEntry (e : Bytes × Bytes) : Prop :=
  ∃ (t : LLMQType) (q : Int) (m qh : Nat), -32768 ≤ q ∧ q < 32768 ∧ m < 2147483648 ∧
    qh < 2147483648 ∧ e = (indexedKey t q m, serInt qh)

/-- 索引つきの走査から見た evoDb の項目：索引つきの名前空間の外のキーか、書かれた索引つきの項目。 -/
def WellFormedIndexedEntry (e : Bytes × Bytes) : Prop :=
  KeyOutside DB_MINED_COMMITMENT_BY_INVERSED_HEIGHT_Q_INDEXED e.1 ∨ WrittenIndexedEntry e

/-- `entries` に索引つきの項目 `(t, q, m) ↦ qh` がある。 -/
def HasIndexedEntry (entries : List (Bytes × Bytes)) (t : LLMQType) (q : Int) (m : Nat)
    (qh : Int) : Prop :=
  ∃ v, (indexedKey t q m, v) ∈ entries ∧ getValue v = some qh

/-- 型 `t` の索引つきのキーから読んだ索引は、どれも 0 以上。 -/
def NonnegIndices (entries : List (Bytes × Bytes)) (t : LLMQType) : Prop :=
  ∀ e ∈ entries, ∀ k ∈ getKeyIndexed e.1,
    k.tag = DB_MINED_COMMITMENT_BY_INVERSED_HEIGHT_Q_INDEXED → k.llmqType = t → 0 ≤ k.quorumIndex

instance decidableNonnegIndices (entries : List (Bytes × Bytes)) (t : LLMQType) :
    Decidable (NonnegIndices entries t) :=
  inferInstanceAs (Decidable (∀ e ∈ entries, ∀ k ∈ getKeyIndexed e.1, _))

theorem hasIndexedEntry_cons {key value : Bytes} {rest : List (Bytes × Bytes)} {t : LLMQType}
    {q : Int} {m : Nat} {qh : Int} :
    HasIndexedEntry ((key, value) :: rest) t q m qh ↔
      indexedKey t q m = key ∧ getValue value = some qh ∨ HasIndexedEntry rest t q m qh :=
  exists_getValue_cons

end entries

/-! ## 一つの索引の走査 -/

section loop

variable {t : LLMQType} {pindex : BlockIndex} {q : Int} {c : Nat}

theorem lastMinedByQuorumIndexLoop_stop {key value : Bytes} {rest : List (Bytes × Bytes)}
    {cur : Nat}
    (h : ∀ curKey, getKeyIndexed key = some curKey →
      curKey.lt (buildInversedHeightKeyIndexedTuple t 0 q) = true →
      curKey.tag = DB_MINED_COMMITMENT_BY_INVERSED_HEIGHT_Q_INDEXED → curKey.llmqType = t → False) :
    lastMinedByQuorumIndexLoop t pindex c (buildInversedHeightKeyIndexedTuple t 0 q)
      ((key, value) :: rest) cur = .ok none := by
  rw [lastMinedByQuorumIndexLoop]
  split
  · rfl
  · rename_i curKey hk
    by_cases h₁ : curKey.lt (buildInversedHeightKeyIndexedTuple t 0 q) = true
    · have h₂ : curKey.tag ≠ DB_MINED_COMMITMENT_BY_INVERSED_HEIGHT_Q_INDEXED ∨
          curKey.llmqType ≠ t := by
        by_contra h₂
        push_neg at h₂
        exact h curKey hk h₁ h₂.1 h₂.2
      rw [if_neg (by simp [h₁]), if_pos h₂]
    · rw [if_pos (by simpa using h₁)]

theorem lastMinedByQuorumIndexLoop_indexed {m qh : Nat} {rest : List (Bytes × Bytes)} {cur : Nat}
    (hq : -2147483648 ≤ q ∧ q < 2147483648) (hm : 1 ≤ m) (hmH : m ≤ pindex.nHeight)
    (hH : pindex.nHeight < 2147483648) (hqh : qh < 2147483648) :
    lastMinedByQuorumIndexLoop t pindex c (buildInversedHeightKeyIndexedTuple t 0 q)
      ((indexedKey t q m, serInt qh) :: rest) cur =
      match pindex.getAncestor qh with
      | none => .error .assertion
      | some b =>
        if cur = c then .ok (some b)
        else lastMinedByQuorumIndexLoop t pindex c (buildInversedHeightKeyIndexedTuple t 0 q) rest
          (cur + 1) := by
  have hlt := (@lt_lastKey_indexed t q q m (by omega)).2 (.inr ⟨rfl, by omega⟩)
  have htag : ¬((buildInversedHeightKeyIndexedTuple t m q).tag ≠
      DB_MINED_COMMITMENT_BY_INVERSED_HEIGHT_Q_INDEXED ∨
      (buildInversedHeightKeyIndexedTuple t m q).llmqType ≠ t) := by
    simp [buildInversedHeightKeyIndexedTuple]
  have hmined : ¬UINT32_MAX - htobe32 (buildInversedHeightKeyIndexedTuple t m q).inversedHeight >
      pindex.nHeight % 4294967296 := by
    rw [buildInversedHeightKeyIndexedTuple, nMinedHeight_flat (by omega),
      Nat.mod_eq_of_lt (by omega)]
    omega
  rw [lastMinedByQuorumIndexLoop, getKeyIndexed_indexedKey t hq.1 hq.2,
    getValue_serInt (v := qh) (by omega) (by omega)]
  cases hb : pindex.getAncestor (qh : Int) <;>
    simp only [hlt, Bool.not_true, Bool.false_eq_true, if_false, htag, hmined, hb]

theorem lastMinedByQuorumIndexLoop_spec_of_above {key value : Bytes}
    {rest : List (Bytes × Bytes)}
    (hs : ((key, value) :: rest).Pairwise fun a b => bytesLt a.1 b.1 = true)
    (habove : ∀ m, 1 ≤ m → m < 2147483648 → bytesLt (indexedKey t q m) key = true)
    (hstop : ∀ curKey, getKeyIndexed key = some curKey →
      curKey.lt (buildInversedHeightKeyIndexedTuple t 0 q) = true →
      curKey.tag = DB_MINED_COMMITMENT_BY_INVERSED_HEIGHT_Q_INDEXED → curKey.llmqType = t → False) :
    ∃ Q : List (Nat × Int), Q.Pairwise (fun a b => b.1 < a.1) ∧
      (∀ m qh, (m, qh) ∈ Q ↔
        HasIndexedEntry ((key, value) :: rest) t q m qh ∧ 1 ≤ m ∧ m < 2147483648) ∧
      ∀ cur ≤ c, lastMinedByQuorumIndexLoop t pindex c (buildInversedHeightKeyIndexedTuple t 0 q)
        ((key, value) :: rest) cur =
        (ancestorsOf pindex ((Q.take (c + 1 - cur)).map (·.2))).map (·[c - cur]?) := by
  refine ⟨[], .nil, fun m qh => ⟨fun h => absurd h (List.not_mem_nil _), ?_⟩, fun cur _ => ?_⟩
  · rintro ⟨⟨v, hv, -⟩, h1, h2⟩
    exact absurd hv (not_mem_of_bytesLt_head hs (habove m h1 h2) v)
  · rw [lastMinedByQuorumIndexLoop_stop hstop]
    simp [ancestorsOf, Except.map]

theorem lastMinedByQuorumIndexLoop_cons_eq {Q : List (Nat × Int)} {m' : Nat} {qh' : Int}
    {rest : List (Bytes × Bytes)} {cur : Nat} (hcur : cur ≤ c)
    (hQl : ∀ cur ≤ c, lastMinedByQuorumIndexLoop t pindex c
      (buildInversedHeightKeyIndexedTuple t 0 q) rest cur =
        (ancestorsOf pindex ((Q.take (c + 1 - cur)).map (·.2))).map (·[c - cur]?)) :
    (match pindex.getAncestor qh' with
      | none => .error .assertion
      | some b =>
        if cur = c then .ok (some b)
        else lastMinedByQuorumIndexLoop t pindex c (buildInversedHeightKeyIndexedTuple t 0 q) rest
          (cur + 1)) =
      (ancestorsOf pindex ((((m', qh') :: Q).take (c + 1 - cur)).map (·.2))).map (·[c - cur]?) := by
  rw [show c + 1 - cur = (c - cur) + 1 by omega, List.take_succ_cons, List.map_cons, ancestorsOf]
  cases pindex.getAncestor qh' with
  | none => rfl
  | some b =>
    dsimp only
    by_cases hc : cur = c
    · subst hc
      simp [ancestorsOf, Except.map]
    · rw [if_neg hc, hQl (cur + 1) (by omega),
        show c + 1 - (cur + 1) = c - cur by omega, show c - cur = c - (cur + 1) + 1 by omega]
      cases ancestorsOf pindex ((Q.take (c - (cur + 1) + 1)).map (·.2)) <;> simp [Except.map]

/-- ループの仕様：`Seek` の位置から後ろの項目（順に並び、どれも `firstKey` 以上で、名前空間の外の
キーか書かれた索引つきの項目、型 `t` の索引は 256 未満）について、ループは型 `t`、索引 `q` の高さ
1 以上の項目を高さの下がる順に（`Q`）たどり、`currentCycle` から数えて `cycle` 番目の祖先を返す。 -/
theorem lastMinedByQuorumIndexLoop_spec (hH : pindex.nHeight < 2147483648)
    (hq : 0 ≤ q ∧ q < 256) :
    ∀ {it : List (Bytes × Bytes)}, it.Pairwise (fun a b => bytesLt a.1 b.1 = true) →
      (∀ e ∈ it, WellFormedIndexedEntry e ∧
        bytesLt e.1 (indexedKey t q pindex.nHeight) = false) →
      NonnegIndices it t →
      ∃ Q : List (Nat × Int), Q.Pairwise (fun a b => b.1 < a.1) ∧
        (∀ m qh, (m, qh) ∈ Q ↔ HasIndexedEntry it t q m qh ∧ 1 ≤ m ∧ m < 2147483648) ∧
        ∀ cur ≤ c, lastMinedByQuorumIndexLoop t pindex c (buildInversedHeightKeyIndexedTuple t 0 q)
          it cur = (ancestorsOf pindex ((Q.take (c + 1 - cur)).map (·.2))).map (·[c - cur]?)
  | [], _, _, _ => ⟨[], .nil, fun m qh => by simp [HasIndexedEntry], fun cur _ => by
      simp [lastMinedByQuorumIndexLoop, ancestorsOf, Except.map]⟩
  | (key, value) :: rest, hs, hit, hnonneg => by
    have hH' : pindex.nHeight < 4294967296 := by omega
    obtain ⟨Q, hQs, hQm, hQl⟩ := lastMinedByQuorumIndexLoop_spec hH hq hs.of_cons
      (fun e he => hit e (List.mem_cons_of_mem _ he))
      (fun e he => hnonneg e (List.mem_cons_of_mem _ he))
    obtain ⟨hwf, hge⟩ := hit _ (List.mem_cons_self _ _)
    rcases hwf with hother | ⟨t', q', m', qh', hq'₁, hq'₂, hm', hqh', he⟩
    · -- 索引つきの名前空間の外のキー：索引つきのキーのすべてより後ろ
      have hnp := not_prefix_of_keyOutside (by rw [length_DB_indexed]; decide) hother
      exact lastMinedByQuorumIndexLoop_spec_of_above hs
        (fun m _ _ => bytesLt_append_of_not_prefix_of_ge hnp hge _)
        fun curKey hk _ htag _ => hnp (prefix_of_getKeyIndexed hk htag)
    obtain ⟨rfl, rfl⟩ := Prod.mk.inj he
    have hm'32 : m' < 4294967296 := by omega
    have hk' := getKeyIndexed_indexedKey t' (q := q') (by omega) (by omega) m'
    by_cases ht : t' = t
    swap
    · -- 別の型の項目：型のバイトで後ろ
      have hlt : t.toNat < t'.toNat := by
        rw [← Bool.not_eq_true, bytesLt_indexedKey_of_ne _ _ _ _ ht] at hge
        have := mt uint8_eq_iff.2 ht
        omega
      refine lastMinedByQuorumIndexLoop_spec_of_above hs
        (fun m _ _ => (bytesLt_indexedKey_of_ne _ _ _ _ (Ne.symm ht)).2 hlt)
        fun curKey hk _ _ hty => ht ?_
      rw [hk', Option.some.injEq] at hk
      rw [← hk] at hty
      exact hty
    subst t'
    have hq' : 0 ≤ q' := hnonneg _ (List.mem_cons_self _ _) _ hk' rfl rfl
    by_cases hqq : q' = q
    swap
    · -- 別の索引の項目：索引のバイトで `firstKey` より後ろにあり、数としても大きい索引
      have hord := bytesLt_indexedKey_of_index_ne t (q := q) (by omega) (by omega) (Ne.symm hqq)
      have hlt : bytesLt (serInt q) (serInt q') = true := by
        rw [← hord pindex.nHeight m']
        rcases bytesLt_trichotomy (indexedKey t q pindex.nHeight) (indexedKey t q' m') with
          h | h | h
        · exact h
        · exact absurd (indexedKey_inj (by omega) (by omega) hH' hm'32 h).2.1 (Ne.symm hqq)
        · rw [hge] at h
          cases h
      refine lastMinedByQuorumIndexLoop_spec_of_above hs (fun m _ _ => (hord m m').trans hlt)
        fun curKey hk hlast _ _ => ?_
      have := lt_of_bytesLt_serInt hq ⟨hq', by omega⟩ hlt
      rw [hk', Option.some.injEq] at hk
      rw [← hk, lt_lastKey_indexed hm'32] at hlast
      omega
    subst q'
    rw [← Bool.not_eq_true, bytesLt_indexedKey_height t q hm'32 hH'] at hge
    by_cases hm1 : 1 ≤ m'
    · -- 索引 `q` の高さ `m'` の項目：`currentCycle == cycle` なら返し、そうでなければ次へ
      have hmH : m' ≤ pindex.nHeight := Nat.le_of_not_lt hge
      refine ⟨(m', (qh' : Int)) :: Q, List.pairwise_cons.2 ⟨fun b hb => ?_, hQs⟩,
        fun m qh => ?_, fun cur hcur => ?_⟩
      · obtain ⟨⟨v, hv, -⟩, -, hb2⟩ := (hQm b.1 b.2).1 hb
        exact (bytesLt_indexedKey_height t q hm'32 (by omega)).1
          (List.rel_of_pairwise_cons hs hv)
      · rw [List.mem_cons, hQm, hasIndexedEntry_cons, Prod.mk.injEq]
        constructor
        · rintro (⟨rfl, rfl⟩ | h)
          · exact ⟨.inl ⟨rfl, getValue_serInt (by omega) (by omega)⟩, hm1, hm'⟩
          · exact ⟨.inr h.1, h.2⟩
        · rintro ⟨⟨hk, hv⟩ | hf, h1, h2⟩
          · rw [getValue_serInt (by omega) (by omega), Option.some.injEq] at hv
            exact .inl ⟨(indexedKey_inj (by omega) (by omega) (by omega) hm'32 hk).2.2, hv.symm⟩
          · exact .inr ⟨hf, h1, h2⟩
      · rw [lastMinedByQuorumIndexLoop_indexed (by omega) hm1 hmH hH hqh']
        exact lastMinedByQuorumIndexLoop_cons_eq hcur hQl
    · -- 索引 `q` の高さ 0 の項目（`lastKey`）：索引 `q` の高さ 1 以上のキーのすべてより後ろ
      refine lastMinedByQuorumIndexLoop_spec_of_above hs
        (fun m h1 _ => (bytesLt_indexedKey_height t q (by omega) hm'32).2 (by omega))
        fun curKey hk hlast _ _ => ?_
      rw [hk', Option.some.injEq] at hk
      rw [← hk, lt_lastKey_indexed hm'32] at hlast
      omega

end loop

/-! ## 一つの索引 -/

/-- `GetLastMinedCommitmentsByQuorumIndexUntilBlock(t, pindex, q, cycle)` は、型 `t`、索引 `q` の項目
`(m, qh)` のうち `1 ≤ m ≤ pindex->nHeight` のものを `m` の下がる順に並べ（`L`）、`cycle` 番目の
`pindex->GetAncestor(qh)` を返す。それより前の項目の祖先も assert される。 -/
theorem getLastMinedCommitmentsByQuorumIndexUntilBlock_spec (db : Db)
    (hdb : ∀ e ∈ db.entries, WellFormedIndexedEntry e) (t : LLMQType)
    (hnonneg : NonnegIndices db.entries t) (pindex : BlockIndex)
    (hH : pindex.nHeight < 2147483648) (q : Int) (hq : 0 ≤ q ∧ q < 256) (c : Nat) :
    ∃ L : List (Nat × Int), L.Pairwise (fun a b => b.1 < a.1) ∧
      (∀ m qh, (m, qh) ∈ L ↔ HasIndexedEntry db.entries t q m qh ∧ 1 ≤ m ∧ m ≤ pindex.nHeight) ∧
      getLastMinedCommitmentsByQuorumIndexUntilBlock db t pindex q c =
        (ancestorsOf pindex ((L.take (c + 1)).map (·.2))).map (·[c]?) := by
  obtain ⟨Q, hQs, hQm, hQl⟩ := @lastMinedByQuorumIndexLoop_spec t pindex q c hH hq _
    (seek_sorted db (indexedKey t q pindex.nHeight))
    (fun e he => ⟨hdb e (mem_seek.1 he).1, (mem_seek.1 he).2⟩)
    (fun e he => hnonneg e (mem_seek.1 he).1)
  refine ⟨Q, hQs, fun m qh => ?_, hQl 0 (Nat.zero_le c)⟩
  rw [hQm]
  constructor
  · rintro ⟨⟨v, hv, hval⟩, h1, h2⟩
    obtain ⟨hv, hle⟩ := mem_seek.1 hv
    rw [← Bool.not_eq_true, bytesLt_indexedKey_height t q (by omega) (by omega)] at hle
    exact ⟨⟨v, hv, hval⟩, h1, Nat.le_of_not_lt hle⟩
  · rintro ⟨⟨v, hv, hval⟩, h1, h2⟩
    refine ⟨⟨v, mem_seek.2 ⟨hv, ?_⟩, hval⟩, h1, by omega⟩
    rw [← Bool.not_eq_true, bytesLt_indexedKey_height t q (by omega) (by omega)]
    omega

/-! ## すべての索引 -/

theorem collectPerQuorumIndex_ok {db : Db} {t : LLMQType} {pindex : BlockIndex} {c : Nat}
    {f : Nat → Option BlockIndex} :
    ∀ {qs : List Nat},
      (∀ q ∈ qs, getLastMinedCommitmentsByQuorumIndexUntilBlock db t pindex q c = .ok (f q)) →
      collectPerQuorumIndex db t pindex c qs = .ok (qs.filterMap fun q => (f q).map ((q : Int), ·))
  | [], _ => rfl
  | q :: qs, h => by
    have ih := collectPerQuorumIndex_ok fun q' hq' => h q' (List.mem_cons_of_mem _ hq')
    rw [collectPerQuorumIndex, h q (List.mem_cons_self _ _), List.filterMap_cons]
    cases f q <;> simp [ih, Except.map]

theorem getLastMinedCommitmentsPerQuorumIndexUntilBlock_ok {env : Env} {db : Db} {t : LLMQType}
    {pindex : BlockIndex} {c : Nat} {params : LLMQParams} (hp : env.getLLMQParams t = some params)
    {f : Nat → Option BlockIndex}
    (h : ∀ q < params.signingActiveQuorumCount,
      getLastMinedCommitmentsByQuorumIndexUntilBlock db t pindex q c = .ok (f q)) :
    getLastMinedCommitmentsPerQuorumIndexUntilBlock env db t pindex c =
      .ok ((List.range params.signingActiveQuorumCount).filterMap fun q =>
        (f q).map ((q : Int), ·)) := by
  rw [getLastMinedCommitmentsPerQuorumIndexUntilBlock, hp]
  exact collectPerQuorumIndex_ok fun q hq => h q (List.mem_range.1 hq)

/-! ## 周期を進めるループ -/

theorem take_append_take_min {α : Type} {N : Nat} {ret X Y : List α} (h : ret.length ≤ N) :
    ((ret ++ X.take (min (N - ret.length) X.length)) ++ Y).take N = (ret ++ (X ++ Y)).take N := by
  simp only [List.append_assoc, List.take_append_eq_append_take, List.take_of_length_le h,
    List.take_take, List.length_take, List.append_cancel_left_eq]
  rw [show min (N - ret.length) (min (N - ret.length) X.length) = min (N - ret.length) X.length
    by omega, ← List.take_take, List.take_length]
  congr 2
  omega

section indexedLoop

variable {env : Env} {db : Db} {t : LLMQType} {pindex : BlockIndex} {maxCount : Nat}
  {fuel cycle : Nat} {ret : List BlockIndex}

theorem minedCommitmentsIndexedLoop_full (h : maxCount ≤ ret.length) :
    minedCommitmentsIndexedLoop env db t pindex maxCount (fuel + 1) cycle ret = some (.ok ret) := by
  simp [minedCommitmentsIndexedLoop, Nat.not_lt.2 h]

theorem minedCommitmentsIndexedLoop_error {e : Failure} (h : ret.length < maxCount)
    (hP : getLastMinedCommitmentsPerQuorumIndexUntilBlock env db t pindex cycle = .error e) :
    minedCommitmentsIndexedLoop env db t pindex maxCount (fuel + 1) cycle ret =
      some (.error e) := by
  simp [minedCommitmentsIndexedLoop, h, hP]

theorem minedCommitmentsIndexedLoop_empty (h : ret.length < maxCount)
    (hP : getLastMinedCommitmentsPerQuorumIndexUntilBlock env db t pindex cycle = .ok []) :
    minedCommitmentsIndexedLoop env db t pindex maxCount (fuel + 1) cycle ret = some (.ok ret) := by
  simp [minedCommitmentsIndexedLoop, h, hP]

theorem minedCommitmentsIndexedLoop_cycle {R : List (Int × BlockIndex)} (h : ret.length < maxCount)
    (hP : getLastMinedCommitmentsPerQuorumIndexUntilBlock env db t pindex cycle = .ok R)
    (hR : R ≠ []) :
    minedCommitmentsIndexedLoop env db t pindex maxCount (fuel + 1) cycle ret =
      minedCommitmentsIndexedLoop env db t pindex maxCount fuel (cycle + 1)
        (ret ++ (R.map (·.2)).take (min (maxCount - ret.length) (R.map (·.2)).length)) := by
  simp [minedCommitmentsIndexedLoop, h, hP, hR]

theorem length_append_take_min {l : List BlockIndex} (h : ret.length < maxCount) (hl : l ≠ []) :
    ret.length < (ret ++ l.take (min (maxCount - ret.length) l.length)).length ∧
      (ret ++ l.take (min (maxCount - ret.length) l.length)).length ≤ maxCount := by
  have := List.length_pos.2 hl
  simp only [List.length_append, List.length_take]
  omega

/-- 終わること：`maxCount - ret.length ≤ n` なら、`n` より多いどの `fuel` でもループは同じ値を返す。 -/
theorem minedCommitmentsIndexedLoop_terminates {n : Nat} :
    ∀ (cycle : Nat) {ret : List BlockIndex}, maxCount - ret.length ≤ n →
      ∃ r, ∀ fuel, n < fuel →
        minedCommitmentsIndexedLoop env db t pindex maxCount fuel cycle ret = some r := by
  induction n with
  | zero =>
    intro cycle ret hn
    refine ⟨.ok ret, fun fuel hf => ?_⟩
    obtain ⟨f, rfl⟩ := Nat.exists_eq_add_of_lt hf
    exact minedCommitmentsIndexedLoop_full (by omega)
  | succ n ih =>
    intro cycle ret hn
    by_cases hret : ret.length < maxCount
    swap
    · exact ⟨.ok ret, fun fuel hf => by
        obtain ⟨f, rfl⟩ := Nat.exists_eq_add_of_lt hf
        exact minedCommitmentsIndexedLoop_full (by omega)⟩
    cases hP : getLastMinedCommitmentsPerQuorumIndexUntilBlock env db t pindex cycle with
    | error e =>
      exact ⟨.error e, fun fuel hf => by
        obtain ⟨f, rfl⟩ := Nat.exists_eq_add_of_lt hf
        exact minedCommitmentsIndexedLoop_error hret hP⟩
    | ok R =>
      by_cases hne : R = []
      · subst hne
        exact ⟨.ok ret, fun fuel hf => by
          obtain ⟨f, rfl⟩ := Nat.exists_eq_add_of_lt hf
          exact minedCommitmentsIndexedLoop_empty hret hP⟩
      have hlen := length_append_take_min hret (l := R.map (·.2)) (List.map_eq_nil_iff.not.2 hne)
      obtain ⟨r, hr⟩ := ih (cycle + 1)
        (Nat.le_of_lt_succ (Nat.lt_of_lt_of_le (Nat.sub_lt_sub_left hret hlen.1) hn))
      exact ⟨r, fun fuel hf => by
        obtain ⟨f, rfl⟩ := Nat.exists_eq_add_of_lt hf
        rw [minedCommitmentsIndexedLoop_cycle hret hP hne]
        exact hr _ (by omega)⟩

/-- 周期 `C` の手前まで、どの周期も失敗せず結果があり、周期 `C` で結果がない（か、それまでに
`maxCount` に届く）なら、周期 `cycle` からのループは、`ret` に続けて周期ごとの結果を並べた列の、
始めの `maxCount` 個を返す。 -/
theorem minedCommitmentsIndexedLoop_spec {C : Nat} {R : Nat → List (Int × BlockIndex)}
    (hR : ∀ c < C,
      getLastMinedCommitmentsPerQuorumIndexUntilBlock env db t pindex c = .ok (R c) ∧ R c ≠ []) :
    ∀ {fuel cycle : Nat} {ret : List BlockIndex}, cycle ≤ C → ret.length ≤ maxCount →
      maxCount - ret.length < fuel →
      (getLastMinedCommitmentsPerQuorumIndexUntilBlock env db t pindex C = .ok [] ∨
        maxCount - ret.length ≤ C - cycle) →
      minedCommitmentsIndexedLoop env db t pindex maxCount fuel cycle ret =
        some (.ok ((ret ++ (List.range' cycle (C - cycle)).flatMap fun c => (R c).map (·.2)).take
          maxCount))
  | 0, _, _, _, _, hf, _ => absurd hf (Nat.not_lt_zero _)
  | fuel + 1, cycle, ret, hcC, hle, hf, hend => by
    by_cases hret : ret.length < maxCount
    swap
    · rw [minedCommitmentsIndexedLoop_full (by omega), List.take_left' (by omega)]
    rcases Nat.lt_or_ge cycle C with hc | hc
    · obtain ⟨hP, hne⟩ := hR cycle hc
      have hlen := length_append_take_min hret (l := (R cycle).map (·.2)) (by simpa using hne)
      rw [minedCommitmentsIndexedLoop_cycle hret hP hne,
        minedCommitmentsIndexedLoop_spec hR hc hlen.2 (by omega) (hend.imp_right fun _ => by omega),
        show C - cycle = C - (cycle + 1) + 1 by omega, List.range'_succ, List.flatMap_cons,
        take_append_take_min hle]
    · obtain rfl : cycle = C := by omega
      rw [minedCommitmentsIndexedLoop_empty hret (hend.resolve_right (by omega)), Nat.sub_self,
        List.range'_zero, List.flatMap_nil, List.append_nil, List.take_of_length_le hle]

end indexedLoop

/-! ## 索引つきの走査の正しさ -/

/-- 索引つきの走査の三つの関数。evoDb の項目は索引つきの名前空間の外のキーか `ProcessCommitment` が
書く索引つきの項目で、高さは `int`。型 `t` の索引がどれも 0 以上なら、0 以上 256 未満の索引 `q` の
周期 `c` の走査は、索引 `q` の項目のうち高さ `1 ≤ m ≤ pindex->nHeight` のものを高さの下がる順に
並べた `c` 番目の祖先を返す。すべての索引の走査は、結果のある索引を昇順に集める。周期を進める
ループはどの `maxCount` でも終わり、結果のない最初の周期 `C` までの周期ごとの結果をつないだ列の、
始めの `maxCount` 個を返す。 -/
theorem getMinedCommitmentsIndexedUntilBlock_spec (env : Env) (db : Db)
    (hdb : ∀ e ∈ db.entries, WellFormedIndexedEntry e) (t : LLMQType) (pindex : BlockIndex)
    (hH : pindex.nHeight < 2147483648) :
    (NonnegIndices db.entries t → ∀ q : Int, 0 ≤ q → q < 256 → ∀ c : Nat,
      ∃ L : List (Nat × Int), L.Pairwise (fun a b => b.1 < a.1) ∧
        (∀ m qh, (m, qh) ∈ L ↔
          HasIndexedEntry db.entries t q m qh ∧ 1 ≤ m ∧ m ≤ pindex.nHeight) ∧
        getLastMinedCommitmentsByQuorumIndexUntilBlock db t pindex q c =
          (ancestorsOf pindex ((L.take (c + 1)).map (·.2))).map (·[c]?)) ∧
    (∀ (params : LLMQParams) (c : Nat) (f : Nat → Option BlockIndex),
      env.getLLMQParams t = some params →
      (∀ q < params.signingActiveQuorumCount,
        getLastMinedCommitmentsByQuorumIndexUntilBlock db t pindex q c = .ok (f q)) →
      getLastMinedCommitmentsPerQuorumIndexUntilBlock env db t pindex c =
        .ok ((List.range params.signingActiveQuorumCount).filterMap fun q =>
          (f q).map ((q : Int), ·))) ∧
    (∀ maxCount : Nat, ∃ r, ∀ fuel, maxCount < fuel →
      minedCommitmentsIndexedLoop env db t pindex maxCount fuel 0 [] = some r) ∧
    (∀ (maxCount C : Nat) (R : Nat → List (Int × BlockIndex)),
      (∀ c < C,
        getLastMinedCommitmentsPerQuorumIndexUntilBlock env db t pindex c = .ok (R c) ∧
          R c ≠ []) →
      (getLastMinedCommitmentsPerQuorumIndexUntilBlock env db t pindex C = .ok [] ∨
        maxCount ≤ C) →
      getMinedCommitmentsIndexedUntilBlock env db t pindex maxCount =
        some (.ok (((List.range C).flatMap fun c => (R c).map (·.2)).take maxCount))) := by
  refine ⟨fun hnonneg q hq₀ hq c =>
      getLastMinedCommitmentsByQuorumIndexUntilBlock_spec db hdb t hnonneg pindex hH q ⟨hq₀, hq⟩ c,
    fun params c f hp h => getLastMinedCommitmentsPerQuorumIndexUntilBlock_ok hp h,
    fun maxCount => minedCommitmentsIndexedLoop_terminates 0 (Nat.sub_le maxCount 0),
    fun maxCount C R hR hend => ?_⟩
  have h := @minedCommitmentsIndexedLoop_spec env db t pindex maxCount C R hR (maxCount + 1) 0 []
    (Nat.zero_le C) (Nat.zero_le maxCount) (Nat.lt_succ_self _) hend
  rwa [List.nil_append, Nat.sub_zero, ← List.range_eq_range'] at h

/-- 型 2 の索引 1、高さ 5 の項目だけがある evoDb。 -/
def strayIndexDb : Db where
  entries := [(indexedKey 2 1 5, serInt 3)]
  sorted := List.pairwise_singleton _ _

/-- 型 2（`wideEnv` では `signingActiveQuorumCount` が 32769）の索引 256 には項目がないのに、高さ 8
からの周期 0 の走査は、索引 1 の項目の祖先（高さ 3）を返す。`int` の 256 は `[0, 1, 0, 0]`、1 は
`[1, 0, 0, 0]` と書かれるので、索引 1 の項目はバイト列では `firstKey` の後ろに並び、数としては
`lastKey` より前にある。 -/
theorem lastMinedByQuorumIndex_strays :
    (∀ e ∈ strayIndexDb.entries, WellFormedIndexedEntry e) ∧
      NonnegIndices strayIndexDb.entries 2 ∧
      (wideEnv.getLLMQParams 2).map (·.signingActiveQuorumCount) = some 32769 ∧
      (∀ m qh, ¬ HasIndexedEntry strayIndexDb.entries 2 256 m qh) ∧
      (getLastMinedCommitmentsByQuorumIndexUntilBlock strayIndexDb 2 (demoBlockIndex 8) 256
        0).toOption.map (·.map BlockIndex.nHeight) = some (some 3) := by
  refine ⟨fun e he => ?_, by decide, by decide, fun m qh ⟨v, hv, _⟩ => ?_, by decide⟩
  · rw [strayIndexDb, List.mem_singleton] at he
    exact .inr ⟨2, 1, 5, 3, by decide, by decide, by decide, by decide, he⟩
  · rw [strayIndexDb, List.mem_singleton, Prod.mk.injEq] at hv
    have h := congrArg getKeyIndexed hv.1
    rw [getKeyIndexed_indexedKey 2 (q := 256) (by decide) (by decide),
      getKeyIndexed_indexedKey 2 (q := 1) (by decide) (by decide)] at h
    have hq : (256 : Int) = 1 := congrArg InversedHeightKeyIndexed.quorumIndex (Option.some.inj h)
    exact absurd hq (by decide)

/-- 索引つきの走査の例の evoDb：`"q_mc"` のキー、平らなキー、型 1 の索引 0 の高さ 9、6、2 の項目、
索引 1 の高さ 7、0 の項目、型 2 の項目。 -/
def indexedDb : Db where
  entries :=
    [(serString [113, 95, 109, 99] ++ [1, 171], [0]), (flatKey 1 9, serInt 3),
     (indexedKey 1 0 9, serInt 5), (indexedKey 1 0 6, serInt 4), (indexedKey 1 0 2, serInt 1),
     (indexedKey 1 1 7, serInt 3), (indexedKey 1 1 0, serInt 0), (indexedKey 2 0 5, serInt 2)]
  sorted := by decide

theorem indexedDb_wellFormed : ∀ e ∈ indexedDb.entries, WellFormedIndexedEntry e := by
  intro e he
  simp only [indexedDb, List.mem_cons, List.mem_singleton, List.not_mem_nil, or_false] at he
  rcases he with rfl | rfl | rfl | rfl | rfl | rfl | rfl | rfl
  · exact .inl ⟨_, _, by decide, rfl⟩
  · exact .inl ⟨_, _, by decide, rfl⟩
  · exact .inr ⟨1, 0, 9, 5, by decide, by decide, by decide, by decide, rfl⟩
  · exact .inr ⟨1, 0, 6, 4, by decide, by decide, by decide, by decide, rfl⟩
  · exact .inr ⟨1, 0, 2, 1, by decide, by decide, by decide, by decide, rfl⟩
  · exact .inr ⟨1, 1, 7, 3, by decide, by decide, by decide, by decide, rfl⟩
  · exact .inr ⟨1, 1, 0, 0, by decide, by decide, by decide, by decide, rfl⟩
  · exact .inr ⟨2, 0, 5, 2, by decide, by decide, by decide, by decide, rfl⟩

theorem getMinedCommitmentsIndexedUntilBlock_spec_demo :
    (∀ e ∈ indexedDb.entries, WellFormedIndexedEntry e) ∧
      (demoBlockIndex 8).nHeight < 2147483648 ∧ NonnegIndices indexedDb.entries 1 ∧
      ∃ L : List (Nat × Int), L.Pairwise (fun a b => b.1 < a.1) ∧
        (∀ m qh, (m, qh) ∈ L ↔
          HasIndexedEntry indexedDb.entries 1 0 m qh ∧ 1 ≤ m ∧ m ≤ (demoBlockIndex 8).nHeight) ∧
        getLastMinedCommitmentsByQuorumIndexUntilBlock indexedDb 1 (demoBlockIndex 8) 0 1 =
          (ancestorsOf (demoBlockIndex 8) ((L.take (1 + 1)).map (·.2))).map (·[1]?) :=
  ⟨indexedDb_wellFormed, by decide, by decide,
    (getMinedCommitmentsIndexedUntilBlock_spec demoEnv indexedDb indexedDb_wellFormed 1
      (demoBlockIndex 8) (by decide)).1 (by decide) 0 le_rfl (by decide) 1⟩

/-- 高さ 8 からの走査：周期 0 は索引 0 の高さ 6 と索引 1 の高さ 7 の項目、周期 1 は索引 0 の高さ 2 の
項目（索引 1 は高さ 0 の項目で止まる）、周期 2 は結果がなく、そこで返る。 -/
example :
    (getMinedCommitmentsIndexedUntilBlock demoEnv indexedDb 1 (demoBlockIndex 8) 5).map
      (·.toOption.map (·.map BlockIndex.nHeight)) = some (some [4, 3, 1]) := by
  decide

end QuorumBlockProcessor
