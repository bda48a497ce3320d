import QuorumBlockProcessor.IndexedScan
import QuorumBlockProcessor.Lemmas.Scan

/-!
# 索引つきのキー

型と索引が同じなら、高さの上がる順は直列化したバイト列の下がる順。索引はリトルエンディアンで
書かれるので、バイト列の順で 0 以上 256 未満の索引より後ろに並ぶ 0 以上の索引だけが、数としても
大きいと言える（`lt_of_bytesLt_serInt`）。
-/

namespace QuorumBlockProcessor

section indexedKey

/-- `BuildInversedHeightKeyIndexed(t, m, q)` を直列化したキー。 -/
def indexedKey (t : LLMQType) (q : Int) (m : Nat) : Bytes :=
  (buildInversedHeightKeyIndexedTuple t m q).serialize

theorem length_DB_indexed : DB_MINED_COMMITMENT_BY_INVERSED_HEIGHT_Q_INDEXED.length = 7 := by
  decide

theorem indexedKey_eq (t : LLMQType) (q : Int) (m : Nat) :
    indexedKey t q m = serString DB_MINED_COMMITMENT_BY_INVERSED_HEIGHT_Q_INDEXED ++
      t :: (serInt q ++ leBytes 4 (htobe32 (inversedHeight m))) := rfl

theorem readString_serString_DB_indexed (rest : Bytes) :
    readString (serString DB_MINED_COMMITMENT_BY_INVERSED_HEIGHT_Q_INDEXED ++ rest) =
      some (DB_MINED_COMMITMENT_BY_INVERSED_HEIGHT_Q_INDEXED, rest) :=
  readString_serString (by rw [length_DB_indexed]; decide) rest

theorem readInt_serInt {v : Int} (h₁ : -2147483648 ≤ v) (h₂ : v < 2147483648) (rest : Bytes) :
    readInt (serInt v ++ rest) = some (v, rest) := by
  simp only [readInt, serInt, readLE_leBytes, Option.map_some', Option.some.injEq, Prod.mk.injEq,
    and_true]
  omega

theorem serInt_of_lt {q : Int} (h₀ : 0 ≤ q) (h : q < 256) :
    serInt q = [q.toNat.toUInt8, 0, 0, 0] := by
  rw [serInt, leBytes_four]
  simp only [List.cons.injEq, uint8_eq_iff, toNat_toUInt8, UInt8.toNat_zero, and_true]
  omega

/-- 索引つきのキーは、`int` の範囲の索引なら、書いた組に読み戻せる。 -/
theorem getKeyIndexed_indexedKey (t : LLMQType) {q : Int} (h₁ : -2147483648 ≤ q)
    (h₂ : q < 2147483648) (m : Nat) :
    getKeyIndexed (indexedKey t q m) = some (buildInversedHeightKeyIndexedTuple t m q) := by
  have h := readLE_leBytes 4 (htobe32 (inversedHeight m)) []
  rw [List.append_nil, show (256 : Nat) ^ 4 = 4294967296 from rfl,
    Nat.mod_eq_of_lt (htobe32_lt _)] at h
  simp only [getKeyIndexed, indexedKey_eq, readString_serString_DB_indexed, Option.some_bind,
    readInt_serInt h₁ h₂, h, Option.map_some']
  rfl

theorem getKeyIndexed_inversedHeight (t : LLMQType) (q : Int) (m : Nat) :
    (getKeyIndexed (indexedKey t q m)).map (·.inversedHeight) =
      some (htobe32 (inversedHeight m)) := by
  have h := readLE_leBytes 4 (htobe32 (inversedHeight m)) []
  rw [List.append_nil, show (256 : Nat) ^ 4 = 4294967296 from rfl,
    Nat.mod_eq_of_lt (htobe32_lt _)] at h
  simp only [getKeyIndexed, indexedKey_eq, readString_serString_DB_indexed, Option.some_bind,
    readInt, serInt, readLE_leBytes, Option.map_some', h]

theorem prefix_of_getKeyIndexed {key : Bytes} {curKey : InversedHeightKeyIndexed}
    (h : getKeyIndexed key = some curKey)
    (htag : curKey.tag = DB_MINED_COMMITMENT_BY_INVERSED_HEIGHT_Q_INDEXED) :
    serString DB_MINED_COMMITMENT_BY_INVERSED_HEIGHT_Q_INDEXED <+: key := by
  simp only [getKeyIndexed, Option.bind_eq_some] at h
  obtain ⟨⟨tag, r⟩, h₁, h₂⟩ := h
  have htag' : tag = DB_MINED_COMMITMENT_BY_INVERSED_HEIGHT_Q_INDEXED := by
    split at h₂
    · cases h₂
    · obtain ⟨_, -, h₃⟩ := Option.bind_eq_some.1 h₂
      obtain ⟨_, -, rfl⟩ := Option.map_eq_some'.1 h₃
      exact htag
  subst htag'
  exact ⟨r, (eq_serString_of_readString h₁ (by rw [length_DB_indexed]; decide)).symm⟩

theorem serInt_inj {q q' : Int} (hq : -2147483648 ≤ q ∧ q < 2147483648)
    (hq' : -2147483648 ≤ q' ∧ q' < 2147483648) (h : serInt q = serInt q') : q = q' := by
  have := congrArg (fun l => readInt (l ++ [])) h
  simpa only [readInt_serInt hq.1 hq.2, readInt_serInt hq'.1 hq'.2, Option.some.injEq,
    Prod.mk.injEq, and_true] using this

/-- `int` の範囲の索引なら、索引つきのキーから型、索引、高さが決まる。 -/
theorem indexedKey_inj {t t' : LLMQType} {q q' : Int} {m m' : Nat}
    (hq : -2147483648 ≤ q ∧ q < 2147483648) (hq' : -2147483648 ≤ q' ∧ q' < 2147483648)
    (hm : m < 4294967296) (hm' : m' < 4294967296) (h : indexedKey t q m = indexedKey t' q' m') :
    t = t' ∧ q = q' ∧ m = m' := by
  have hk := congrArg getKeyIndexed h
  rw [getKeyIndexed_indexedKey t hq.1 hq.2, getKeyIndexed_indexedKey t' hq'.1 hq'.2] at hk
  simp only [buildInversedHeightKeyIndexedTuple, Option.some.injEq,
    InversedHeightKeyIndexed.mk.injEq, true_and] at hk
  obtain ⟨rfl, rfl, hh⟩ := hk
  have := congrArg htobe32 hh
  rw [htobe32_htobe32 (inversedHeight_lt m), htobe32_htobe32 (inversedHeight_lt m'),
    inversedHeight_of_lt hm, inversedHeight_of_lt hm'] at this
  exact ⟨rfl, rfl, by omega⟩

end indexedKey

/-! ## バイト列の順 -/

section order

theorem bytesLt_indexedKey_height (t : LLMQType) (q : Int) {m m' : Nat} (hm : m < 4294967296)
    (hm' : m' < 4294967296) :
    bytesLt (indexedKey t q m) (indexedKey t q m') = true ↔ m' < m := by
  rw [indexedKey_eq, indexedKey_eq, bytesLt_append_left, ← List.cons_append, ← List.cons_append,
    bytesLt_append_left, bytesLt_be32 (inversedHeight_lt m) (inversedHeight_lt m'),
    inversedHeight_of_lt hm, inversedHeight_of_lt hm']
  omega

theorem bytesLt_indexedKey_of_ne {t t' : LLMQType} (q q' : Int) (m m' : Nat) (h : t ≠ t') :
    bytesLt (indexedKey t q m) (indexedKey t' q' m') = true ↔ t.toNat < t'.toNat := by
  rw [indexedKey_eq, indexedKey_eq, bytesLt_append_left, bytesLt_cons_cons]
  exact or_iff_left fun h' => h (uint8_eq_iff.2 h'.1)

theorem bytesLt_append_of_ne : ∀ {a b : Bytes}, a.length = b.length → a ≠ b → ∀ X Y : Bytes,
    bytesLt (a ++ X) (b ++ Y) = bytesLt a b
  | [], [], _, h, _, _ => absurd rfl h
  | x :: a, y :: b, hl, h, X, Y => by
    by_cases hxy : x = y
    · subst hxy
      have ih := bytesLt_append_of_ne (Nat.succ.inj hl) (fun e => h (e ▸ rfl)) X Y
      rw [List.cons_append, List.cons_append]
      simp only [bytesLt, beq_self_eq_true, Bool.true_and, ih]
    · have h₁ : (x == y) = false := beq_eq_false_iff_ne.2 hxy
      rw [List.cons_append, List.cons_append]
      simp only [bytesLt, h₁, Bool.false_and, Bool.or_false]

theorem bytesLt_indexedKey_of_index_ne (t : LLMQType) {q q' : Int}
    (hq : -2147483648 ≤ q ∧ q < 2147483648) (hq' : -2147483648 ≤ q' ∧ q' < 2147483648)
    (hne : q ≠ q') (m m' : Nat) :
    bytesLt (indexedKey t q m) (indexedKey t q' m') = bytesLt (serInt q) (serInt q') := by
  rw [indexedKey_eq, indexedKey_eq, bytesLt_append_left,
    show ∀ a b : Bytes, bytesLt (t :: a) (t :: b) = bytesLt a b from bytesLt_append_left [t]]
  exact bytesLt_append_of_ne (by simp [serInt]) (fun h => hne (serInt_inj hq hq' h)) _ _

theorem lt_of_bytesLt_serInt {q q' : Int} (hq : 0 ≤ q ∧ q < 256)
    (hq' : 0 ≤ q' ∧ q' < 2147483648) (h : bytesLt (serInt q) (serInt q') = true) : q < q' := by
  rw [serInt_of_lt hq.1 hq.2, serInt, leBytes_four] at h
  simp only [bytesLt_cons_cons, toNat_toUInt8, UInt8.toNat_zero, bytesLt_nil_nil,
    Bool.false_eq_true, and_false, or_false] at h
  omega

theorem lt_lastKey_indexed {t : LLMQType} {q q' : Int} {m : Nat} (hm : m < 4294967296) :
    (buildInversedHeightKeyIndexedTuple t m q').lt (buildInversedHeightKeyIndexedTuple t 0 q) =
      true ↔ q' < q ∨ q' = q ∧ m ≠ 0 := by
  rw [← htobe32_inversedHeight_lt_zero hm]
  simp [InversedHeightKeyIndexed.lt, buildInversedHeightKeyIndexedTuple, bytesLt_irrefl]
  omega

end order

/-! ## 逆順の高さ -/

/-- 型（と索引）が同じなら、`int` の高さの上がる順は、直列化したキーのバイト列の下がる順。組の高さの
成分からも、キーから読み戻した成分からも、`UINT32_MAX - be32toh` で高さに戻る。 -/
theorem inversedHeightKey_encoding (t : LLMQType) (q : Int) :
    (∀ h₁ h₂ : Nat, h₁ < h₂ → h₂ ≤ 2147483647 →
      bytesLt (buildInversedHeightKeyTuple t h₂).serialize
          (buildInversedHeightKeyTuple t h₁).serialize = true ∧
        bytesLt (buildInversedHeightKeyIndexedTuple t h₂ q).serialize
          (buildInversedHeightKeyIndexedTuple t h₁ q).serialize = true) ∧
    ∀ h : Nat, h ≤ 2147483647 →
      UINT32_MAX - htobe32 (buildInversedHeightKeyTuple t h).inversedHeight = h ∧
      UINT32_MAX - htobe32 (buildInversedHeightKeyIndexedTuple t h q).inversedHeight = h ∧
      (getKey (buildInversedHeightKeyTuple t h).serialize).map
          (fun k => UINT32_MAX - htobe32 k.inversedHeight) = some h ∧
      (getKeyIndexed (buildInversedHeightKeyIndexedTuple t h q).serialize).map
          (fun k => UINT32_MAX - htobe32 k.inversedHeight) = some h := by
  refine ⟨fun h₁ h₂ h12 h2 => ⟨?_, ?_⟩, fun h hh => ?_⟩
  · exact (bytesLt_flatKey (by omega) (by omega)).2 (.inr ⟨rfl, h12⟩)
  · exact (bytesLt_indexedKey_height t q (by omega) (by omega)).2 h12
  have hn := nMinedHeight_flat (show h < 4294967296 by omega)
  have hi := congrArg (Option.map fun x => UINT32_MAX - htobe32 x)
    (getKeyIndexed_inversedHeight t q h)
  rw [Option.map_map] at hi
  exact ⟨hn, hn, by rw [← flatKey, getKey_flatKey]; exact congrArg some hn,
    hi.trans (congrArg some hn)⟩

theorem inversedHeightKey_encoding_demo :
    ((5 < 9 ∧ 9 ≤ 2147483647) ∧
      bytesLt (buildInversedHeightKeyTuple 1 9).serialize
          (buildInversedHeightKeyTuple 1 5).serialize = true ∧
        bytesLt (buildInversedHeightKeyIndexedTuple 1 9 3).serialize
          (buildInversedHeightKeyIndexedTuple 1 5 3).serialize = true) ∧
    (9 ≤ 2147483647 ∧
      (getKeyIndexed (buildInversedHeightKeyIndexedTuple 1 9 3).serialize).map
          (fun k => UINT32_MAX - htobe32 k.inversedHeight) = some 9) :=
  ⟨⟨by decide, (inversedHeightKey_encoding 1 3).1 5 9 (by decide) (by decide)⟩,
    by decide, ((inversedHeightKey_encoding 1 3).2 9 (by decide)).2.2.2⟩

end QuorumBlockProcessor
