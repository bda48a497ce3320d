import QuorumBlockProcessor.Scan
import QuorumBlockProcessor.Lemmas.Keys
import QuorumBlockProcessor.Lemmas.Pool

/-!
# 平らな索引の走査の正しさ

直列化した平らなキーのバイト列の順は、型の順、同じ型の中では高さの逆の順（`bytesLt_flatKey`）。
名前空間の外のキーは平らなキーとしては読めない（`prefix_of_getKey`）ので、`Seek` の位置から
型 `llmqType` の高さ `pindex` 以下の項目が高さの下がる順に続き、その後の最初の項目でループが
止まる（`minedCommitmentsLoop_spec`）。
-/

namespace QuorumBlockProcessor

/-! ## バイト -/

theorem UInt8.lt_iff_toNat_lt {a b : UInt8} : a < b ↔ a.toNat < b.toNat := by
  simp [UInt8.lt_def, BitVec.lt_def, UInt8.toNat]

theorem toNat_lt_256 (c : UInt8) : c.toNat < 256 := c.toBitVec.isLt

theorem uint8_eq_iff {a b : UInt8} : a = b ↔ a.toNat = b.toNat := ⟨congrArg _, UInt8.toNat.inj⟩

@[simp] theorem toNat_toUInt8 (n : Nat) : n.toUInt8.toNat = n % 256 := by
  simp [Nat.toUInt8, UInt8.toNat, UInt8.ofNat]

theorem toUInt8_toNat (c : UInt8) : c.toNat.toUInt8 = c :=
  UInt8.toNat.inj (by rw [toNat_toUInt8, Nat.mod_eq_of_lt (toNat_lt_256 c)])

theorem bytesLt_cons_cons {a b : UInt8} {as bs : Bytes} :
    bytesLt (a :: as) (b :: bs) = true ↔
      a.toNat < b.toNat ∨ a.toNat = b.toNat ∧ bytesLt as bs = true := by
  simp only [bytesLt, Bool.or_eq_true, Bool.and_eq_true, beq_iff_eq, decide_eq_true_eq,
    UInt8.lt_iff_toNat_lt]
  exact or_congr_right (and_congr_left fun _ => uint8_eq_iff)

@[simp] theorem bytesLt_nil_nil : bytesLt [] [] = false := rfl

/-! ## バイト列の順 -/

section bytesLt

theorem bytesLt_irrefl : ∀ a : Bytes, bytesLt a a = false
  | [] => rfl
  | x :: xs => by
    rw [← Bool.not_eq_true, bytesLt_cons_cons, bytesLt_irrefl xs]
    simp

theorem bytesLt_trans : ∀ {a b c : Bytes}, bytesLt a b = true → bytesLt b c = true →
    bytesLt a c = true
  | [], _ :: _, _ :: _, _, _ => rfl
  | x :: xs, y :: ys, z :: zs, h₁, h₂ => by
    rw [bytesLt_cons_cons] at h₁ h₂ ⊢
    rcases h₁ with h₁ | ⟨e₁, h₁⟩ <;> rcases h₂ with h₂ | ⟨e₂, h₂⟩
    · exact .inl (by omega)
    · exact .inl (by omega)
    · exact .inl (by omega)
    · exact .inr ⟨by omega, bytesLt_trans h₁ h₂⟩
  | [], [], _, h, _ => by cases h
  | _ :: _, [], _, h, _ => by cases h
  | [], _ :: _, [], _, h => by cases h
  | _ :: _, _ :: _, [], _, h => by cases h

theorem bytesLt_asymm {a b : Bytes} (h : bytesLt a b = true) : bytesLt b a = false := by
  rw [← Bool.not_eq_true]
  intro h'
  have := bytesLt_trans h h'
  rw [bytesLt_irrefl] at this
  cases this

theorem bytesLt_trichotomy : ∀ a b : Bytes, bytesLt a b = true ∨ a = b ∨ bytesLt b a = true
  | [], [] => .inr (.inl rfl)
  | [], _ :: _ => .inl rfl
  | _ :: _, [] => .inr (.inr rfl)
  | x :: xs, y :: ys => by
    rcases Nat.lt_trichotomy x.toNat y.toNat with h | h | h
    · exact .inl (bytesLt_cons_cons.2 (.inl h))
    · obtain rfl := UInt8.toNat.inj h
      rcases bytesLt_trichotomy xs ys with h' | rfl | h'
      · exact .inl (bytesLt_cons_cons.2 (.inr ⟨rfl, h'⟩))
      · exact .inr (.inl rfl)
      · exact .inr (.inr (bytesLt_cons_cons.2 (.inr ⟨rfl, h'⟩)))
    · exact .inr (.inr (bytesLt_cons_cons.2 (.inl h)))

/-- 共通の始めの部分は順を変えない。 -/
@[simp] theorem bytesLt_append_left : ∀ (p a b : Bytes), bytesLt (p ++ a) (p ++ b) = bytesLt a b
  | [], _, _ => rfl
  | x :: p, a, b => by simp [bytesLt, bytesLt_append_left p a b]

theorem bytesLt_append_of_not_prefix : ∀ {p k : Bytes}, ¬ p <+: k → ∀ r : Bytes,
    bytesLt k (p ++ r) = bytesLt k p ∧ bytesLt (p ++ r) k = bytesLt p k
  | [], _, h, _ => absurd (List.nil_prefix) h
  | _ :: _, [], _, _ => ⟨rfl, rfl⟩
  | x :: p, y :: k, h, r => by
    by_cases hxy : y = x
    · subst hxy
      obtain ⟨h₁, h₂⟩ :=
        bytesLt_append_of_not_prefix (fun hp => h ((List.prefix_cons_inj y).2 hp)) r
      simp [bytesLt, h₁, h₂]
    · have h₁ : (y == x) = false := beq_eq_false_iff_ne.2 hxy
      have h₂ : (x == y) = false := beq_eq_false_iff_ne.2 (Ne.symm hxy)
      simp [bytesLt, h₁, h₂]

theorem bytesLt_append_of_not_prefix_of_ge {p k : Bytes} (hnp : ¬ p <+: k) {r : Bytes}
    (hge : bytesLt k (p ++ r) = false) (r' : Bytes) : bytesLt (p ++ r') k = true := by
  obtain ⟨-, h₁⟩ := bytesLt_append_of_not_prefix hnp r'
  obtain ⟨h₂, -⟩ := bytesLt_append_of_not_prefix hnp r
  rw [h₁]
  rw [h₂] at hge
  rcases bytesLt_trichotomy k p with h | rfl | h
  · rw [h] at hge
    cases hge
  · exact absurd (List.prefix_refl _) hnp
  · exact h

end bytesLt

/-! ## 直列化 -/

section codec

@[simp] theorem length_leBytes : ∀ k n, (leBytes k n).length = k
  | 0, _ => rfl
  | k + 1, n => by simp [leBytes, length_leBytes k]

theorem leValue_leBytes : ∀ k n, leValue (leBytes k n) = n % 256 ^ k
  | 0, n => by simp [leBytes, leValue, Nat.mod_one]
  | k + 1, n => by
    rw [leBytes, leValue, leValue_leBytes k, toNat_toUInt8, pow_succ', Nat.mod_mul]

theorem readBytes_append (a b : Bytes) : readBytes a.length (a ++ b) = some (a, b) := by
  simp [readBytes]

theorem readLE_leBytes (k n : Nat) (rest : Bytes) :
    readLE k (leBytes k n ++ rest) = some (n % 256 ^ k, rest) := by
  have := readBytes_append (leBytes k n) rest
  rw [length_leBytes] at this
  simp [readLE, this, leValue_leBytes]

theorem leBytes_four (n : Nat) :
    leBytes 4 n = [n.toUInt8, (n / 256).toUInt8, (n / 65536).toUInt8, (n / 16777216).toUInt8] := by
  simp [leBytes, Nat.div_div_eq_div_mul]

theorem leBytes_htobe32 (x : Nat) :
    leBytes 4 (htobe32 x) =
      [(x / 16777216).toUInt8, (x / 65536).toUInt8, (x / 256).toUInt8, x.toUInt8] := by
  simp only [leBytes_four, List.cons.injEq, uint8_eq_iff, toNat_toUInt8, and_true]
  exact htobe32_digits x

theorem bytesLt_be32 {x y : Nat} (hx : x < 4294967296) (hy : y < 4294967296) :
    bytesLt (leBytes 4 (htobe32 x)) (leBytes 4 (htobe32 y)) = true ↔ x < y := by
  have h (n : Nat) : n % 256 < 256 := Nat.mod_lt n (by decide)
  simp only [leBytes_htobe32, bytesLt_cons_cons, toNat_toUInt8, bytesLt_nil_nil,
    Bool.false_eq_true, and_false, or_false]
  rw [lex_digits_base256 (h _) (h _) (h _) (h _) (h _) (h _), ← eq_digits_base256 hx,
    ← eq_digits_base256 hy]

theorem readCompactSize_of_lt {bs r : Bytes} {n : Nat} (h : readCompactSize bs = some (n, r))
    (hn : n < 253) : bs = n.toUInt8 :: r := by
  match bs, h with
  | chSize :: rest, h =>
    simp only [readCompactSize, Option.bind_eq_some] at h
    obtain ⟨⟨m, r'⟩, h₁, h₂⟩ := h
    obtain ⟨rfl, rfl⟩ : m = n ∧ r' = r := by
      split at h₂
      · cases h₂
      · cases h₂; exact ⟨rfl, rfl⟩
    split_ifs at h₁
    · cases h₁; rw [toUInt8_toNat]
    all_goals
      obtain ⟨_, -, h₁⟩ := Option.bind_eq_some.1 h₁
      split at h₁
      · cases h₁
      · rename_i c; cases h₁; dsimp only at c; omega

theorem readCompactSize_small (c : UInt8) (hc : c.toNat < 253) (rest : Bytes) :
    readCompactSize (c :: rest) = some (c.toNat, rest) := by
  have : c < 253 := UInt8.lt_iff_toNat_lt.2 hc
  simp [readCompactSize, this, MAX_SIZE]
  omega

theorem getValue_serInt {v : Int} (h₁ : -2147483648 ≤ v) (h₂ : v < 2147483648) :
    getValue (serInt v) = some v := by
  have := readLE_leBytes 4 (v % 4294967296).toNat []
  rw [List.append_nil] at this
  simp only [getValue, serInt, this, Option.map_some', Option.some.injEq]
  omega

end codec

theorem readBytes_eq_some {k : Nat} {bs a b : Bytes} (h : readBytes k bs = some (a, b)) :
    bs = a ++ b ∧ a.length = k := by
  unfold readBytes at h
  split_ifs at h with hk
  cases h
  exact ⟨(List.take_append_drop k bs).symm, by simp [hk]⟩

/-- 長さが 253 より短い文字列は、直列化から読み戻せる。 -/
theorem readString_serString {s : Bytes} (hs : s.length < 253) (rest : Bytes) :
    readString (serString s ++ rest) = some (s, rest) := by
  have hc : s.length.toUInt8.toNat < 253 := by rw [toNat_toUInt8]; omega
  rw [serString, writeCompactSize, if_pos hs, List.singleton_append, List.cons_append, readString,
    readCompactSize_small _ hc, Option.some_bind, toNat_toUInt8, Nat.mod_eq_of_lt (by omega)]
  exact readBytes_append s rest

theorem eq_serString_of_readString {key s r : Bytes} (h : readString key = some (s, r))
    (hs : s.length < 253) : key = serString s ++ r := by
  simp only [readString, Option.bind_eq_some] at h
  obtain ⟨⟨n, r₁⟩, h₁, h₂⟩ := h
  obtain ⟨rfl, rfl⟩ := readBytes_eq_some h₂
  rw [readCompactSize_of_lt h₁ hs, serString, writeCompactSize, if_pos hs]
  rfl

/-! ## 平らなキー -/

section flatKey

/-- `BuildInversedHeightKey(t, m)` を直列化したキー。 -/
def flatKey (t : LLMQType) (m : Nat) : Bytes := (buildInversedHeightKeyTuple t m).serialize

theorem flatKey_eq (t : LLMQType) (m : Nat) :
    flatKey t m = serString DB_MINED_COMMITMENT_BY_INVERSED_HEIGHT ++
      t :: leBytes 4 (htobe32 (inversedHeight m)) := rfl

/-- 平らなキーのバイト列の順は、型の順、同じ型の中では高さの逆の順。 -/
theorem bytesLt_flatKey {t t' : LLMQType} {m m' : Nat} (hm : m < 4294967296)
    (hm' : m' < 4294967296) :
    bytesLt (flatKey t m) (flatKey t' m') = true ↔ t.toNat < t'.toNat ∨ t = t' ∧ m' < m := by
  rw [flatKey_eq, flatKey_eq, bytesLt_append_left, bytesLt_cons_cons,
    bytesLt_be32 (inversedHeight_lt m) (inversedHeight_lt m'), inversedHeight_of_lt hm,
    inversedHeight_of_lt hm', uint8_eq_iff]
  omega

theorem flatKey_inj {t t' : LLMQType} {m m' : Nat} (hm : m < 4294967296) (hm' : m' < 4294967296)
    (h : flatKey t m = flatKey t' m') : t = t' ∧ m = m' := by
  by_contra hne
  have hlt : bytesLt (flatKey t m) (flatKey t' m') = true ∨
      bytesLt (flatKey t' m') (flatKey t m) = true := by
    rw [bytesLt_flatKey hm hm', bytesLt_flatKey hm' hm, uint8_eq_iff, uint8_eq_iff]
    rw [uint8_eq_iff] at hne
    omega
  rw [h, bytesLt_irrefl, or_self] at hlt
  exact Bool.false_ne_true hlt

theorem length_DB : DB_MINED_COMMITMENT_BY_INVERSED_HEIGHT.length = 6 := by
  decide

theorem readString_serString_DB (rest : Bytes) :
    readString (serString DB_MINED_COMMITMENT_BY_INVERSED_HEIGHT ++ rest) =
      some (DB_MINED_COMMITMENT_BY_INVERSED_HEIGHT, rest) :=
  readString_serString (by rw [length_DB]; decide) rest

/-- 平らなキーは、書いた組に読み戻せる。 -/
theorem getKey_flatKey (t : LLMQType) (m : Nat) :
    getKey (flatKey t m) = some (buildInversedHeightKeyTuple t m) := by
  have h := readLE_leBytes 4 (htobe32 (inversedHeight m)) []
  rw [List.append_nil, show (256 : Nat) ^ 4 = 4294967296 from rfl,
    Nat.mod_eq_of_lt (htobe32_lt _)] at h
  simp only [getKey, flatKey_eq, readString_serString_DB, Option.some_bind, h, Option.map_some']
  rfl

theorem prefix_of_getKey {key : Bytes} {curKey : InversedHeightKey} (h : getKey key = some curKey)
    (htag : curKey.tag = DB_MINED_COMMITMENT_BY_INVERSED_HEIGHT) :
    serString DB_MINED_COMMITMENT_BY_INVERSED_HEIGHT <+: key := by
  simp only [getKey, Option.bind_eq_some] at h
  obtain ⟨⟨tag, r⟩, h₁, h₂⟩ := h
  have htag' : tag = DB_MINED_COMMITMENT_BY_INVERSED_HEIGHT := by
    split at h₂
    · cases h₂
    · obtain ⟨_, -, rfl⟩ := Option.map_eq_some'.1 h₂
      exact htag
  subst htag'
  exact ⟨r, (eq_serString_of_readString h₁ (by rw [length_DB]; decide)).symm⟩

theorem lt_buildInversedHeightKeyTuple (t : LLMQType) (m m' : Nat) :
    (buildInversedHeightKeyTuple t m).lt (buildInversedHeightKeyTuple t m') = true ↔
      htobe32 (inversedHeight m) < htobe32 (inversedHeight m') := by
  simp [InversedHeightKey.lt, buildInversedHeightKeyTuple, bytesLt_irrefl,
    UInt8.lt_iff_toNat_lt]

theorem lt_lastKey {t : LLMQType} {m : Nat} (hm : m < 4294967296) :
    (buildInversedHeightKeyTuple t m).lt (buildInversedHeightKeyTuple t 0) = true ↔ m ≠ 0 := by
  rw [lt_buildInversedHeightKeyTuple]
  exact htobe32_inversedHeight_lt_zero hm

end flatKey

/-! ## evoDb の項目 -/

section entries

theorem toUInt8_ne_of_lt {n : Nat} (hn : n < 253) {c : UInt8} (hc : 253 ≤ c.toNat) :
    n.toUInt8 ≠ c := by
  intro h
  have := congrArg UInt8.toNat h
  rw [toNat_toUInt8] at this
  omega

/-- 名前空間 `ns` の外のキー：`ns` でない文字列で始まる。 -/
def KeyOutside (ns key : Bytes) : Prop :=
  ∃ s rest, s ≠ ns ∧ key = serString s ++ rest

theorem not_prefix_of_keyOutside {ns key : Bytes} (hns : ns.length < 253)
    (h : KeyOutside ns key) : ¬ serString ns <+: key := by
  obtain ⟨s, rest, hs, rfl⟩ := h
  rintro ⟨r, hr⟩
  rw [serString, serString, writeCompactSize, if_pos hns] at hr
  unfold writeCompactSize at hr
  split_ifs at hr
  all_goals
    simp only [List.singleton_append, List.cons_append, List.nil_append, List.cons.injEq] at hr
  · have hlen := congrArg UInt8.toNat hr.1
    rw [toNat_toUInt8, toNat_toUInt8] at hlen
    exact hs (List.append_inj hr.2 (by omega)).1.symm
  all_goals exact absurd hr.1 (toUInt8_ne_of_lt hns (by decide))

/-- 別の名前空間のキー：`"q_mcih"` でない文字列で始まる。 -/
def OtherNamespaceKey (key : Bytes) : Prop :=
  ∃ s rest, s ≠ DB_MINED_COMMITMENT_BY_INVERSED_HEIGHT ∧ key = serString s ++ rest

/-- `ProcessCommitment` が書く平らな項目：`BuildInversedHeightKey(llmqType, nHeight)` から
`pQuorumBaseBlockIndex->nHeight` へ。高さはどちらも `int`。 -/
def WrittenFlatEntry (e : Bytes × Bytes) : Prop :=
  ∃ (t : LLMQType) (m qh : Nat), m < 2147483648 ∧ qh < 2147483648 ∧ e = (flatKey t m, serInt qh)

/-- evoDb の項目：別の名前空間のキーか、書かれた平らな項目。 -/
def WellFormedEntry (e : Bytes × Bytes) : Prop := OtherNamespaceKey e.1 ∨ WrittenFlatEntry e

/-- `entries` に平らな項目 `(t, m) ↦ qh` がある。 -/
def HasFlatEntry (entries : List (Bytes × Bytes)) (t : LLMQType) (m : Nat) (qh : Int) : Prop :=
  ∃ v, (flatKey t m, v) ∈ entries ∧ getValue v = some qh

theorem exists_getValue_cons {k key value : Bytes} {rest : List (Bytes × Bytes)} {qh : Int} :
    (∃ v, (k, v) ∈ (key, value) :: rest ∧ getValue v = some qh) ↔
      k = key ∧ getValue value = some qh ∨ ∃ v, (k, v) ∈ rest ∧ getValue v = some qh := by
  simp only [List.mem_cons, Prod.mk.injEq, or_and_right, exists_or]
  exact or_congr_left ⟨fun ⟨_, ⟨hk, rfl⟩, hv⟩ => ⟨hk, hv⟩, fun ⟨hk, hv⟩ => ⟨value, ⟨hk, rfl⟩, hv⟩⟩

theorem hasFlatEntry_cons {key value : Bytes} {rest : List (Bytes × Bytes)} {t : LLMQType}
    {m : Nat} {qh : Int} :
    HasFlatEntry ((key, value) :: rest) t m qh ↔
      flatKey t m = key ∧ getValue value = some qh ∨ HasFlatEntry rest t m qh :=
  exists_getValue_cons

theorem not_prefix_of_otherNamespaceKey {key : Bytes} (h : OtherNamespaceKey key) :
    ¬ serString DB_MINED_COMMITMENT_BY_INVERSED_HEIGHT <+: key :=
  not_prefix_of_keyOutside (by rw [length_DB]; decide) h

end entries

/-! ## 反復子 -/

section seek

theorem not_bytesLt_of_mem_dropWhile {key : Bytes} :
    ∀ {l : List (Bytes × Bytes)}, l.Pairwise (fun a b => bytesLt a.1 b.1 = true) →
      ∀ e ∈ l.dropWhile (fun e => bytesLt e.1 key), bytesLt e.1 key = false
  | [], _, e, he => absurd he (List.not_mem_nil e)
  | a :: l, hs, e, he => by
    rw [List.dropWhile_cons] at he
    split at he
    · exact not_bytesLt_of_mem_dropWhile hs.of_cons e he
    · rename_i ha
      rcases List.mem_cons.1 he with rfl | he
      · exact Bool.of_not_eq_true ha
      · rw [← Bool.not_eq_true]
        exact fun h => ha (bytesLt_trans (List.rel_of_pairwise_cons hs he) h)

theorem not_mem_of_bytesLt_head {k key value : Bytes} {rest : List (Bytes × Bytes)}
    (hs : ((key, value) :: rest).Pairwise fun a b => bytesLt a.1 b.1 = true)
    (hlt : bytesLt k key = true) (v : Bytes) : (k, v) ∉ (key, value) :: rest := by
  intro hv
  rcases List.mem_cons.1 hv with h | h
  · rw [(Prod.mk.inj h).1, bytesLt_irrefl] at hlt
    cases hlt
  · rw [bytesLt_asymm (List.rel_of_pairwise_cons hs h)] at hlt
    cases hlt

theorem seek_sorted (db : Db) (key : Bytes) :
    (db.seek key).Pairwise fun a b => bytesLt a.1 b.1 = true :=
  db.sorted.sublist (List.dropWhile_sublist _)

theorem mem_seek {db : Db} {key : Bytes} {e : Bytes × Bytes} :
    e ∈ db.seek key ↔ e ∈ db.entries ∧ bytesLt e.1 key = false := by
  constructor
  · intro he
    exact ⟨(List.dropWhile_sublist _).subset he, not_bytesLt_of_mem_dropWhile db.sorted e he⟩
  · rintro ⟨he, hlt⟩
    rw [← List.takeWhile_append_dropWhile (fun e => bytesLt e.1 key) db.entries,
      List.mem_append] at he
    rcases he with he | he
    · rw [List.mem_takeWhile_imp he] at hlt
      cases hlt
    · exact he

end seek

/-! ## 走査のループ -/

/-- 仕様の言葉で：高さ `qh` の祖先を順に取る。`nullptr` なら assert。 -/
def ancestorsOf (pindex : BlockIndex) : List Int → Except Failure (List BlockIndex)
  | [] => .ok []
  | qh :: rest =>
    match pindex.getAncestor qh with
    | none => .error .assertion
    | some b => (ancestorsOf pindex rest).map (b :: ·)

section loop

variable {t : LLMQType} {pindex : BlockIndex} {maxCount : Nat}

theorem minedCommitmentsLoop_stop {key value : Bytes} {rest : List (Bytes × Bytes)}
    {ret : List BlockIndex}
    (h : ∀ curKey, getKey key = some curKey →
      curKey.lt (buildInversedHeightKeyTuple t 0) = true →
      curKey.tag = DB_MINED_COMMITMENT_BY_INVERSED_HEIGHT → curKey.llmqType = t → False) :
    minedCommitmentsLoop t pindex maxCount (buildInversedHeightKeyTuple t 0)
      ((key, value) :: rest) ret = .ok ret := by
  rw [minedCommitmentsLoop]
  by_cases hret : ret.length < maxCount
  swap
  · rw [if_neg hret]
  rw [if_pos hret]
  split
  · rfl
  rename_i curKey hk
  by_cases h₁ : curKey.lt (buildInversedHeightKeyTuple t 0) = true
  · have h₂ : curKey.tag ≠ DB_MINED_COMMITMENT_BY_INVERSED_HEIGHT ∨ curKey.llmqType ≠ t := by
      by_contra h₂
      push_neg at h₂
      exact h curKey hk h₁ h₂.1 h₂.2
    rw [if_neg (by simp [h₁]), if_pos h₂]
  · rw [if_pos (by simpa using h₁)]

theorem minedCommitmentsLoop_flat {m qh : Nat} {rest : List (Bytes × Bytes)}
    {ret : List BlockIndex} (hm : 1 ≤ m) (hmH : m ≤ pindex.nHeight)
    (hH : pindex.nHeight < 2147483648) (hqh : qh < 2147483648) (hret : ret.length < maxCount) :
    minedCommitmentsLoop t pindex maxCount (buildInversedHeightKeyTuple t 0)
      ((flatKey t m, serInt qh) :: rest) ret =
      match pindex.getAncestor qh with
      | none => .error .assertion
      | some b =>
        minedCommitmentsLoop t pindex maxCount (buildInversedHeightKeyTuple t 0) rest
          (ret ++ [b]) := by
  have hlt := (lt_lastKey (t := t) (show m < 4294967296 by omega)).2 (by omega)
  have htag : ¬((buildInversedHeightKeyTuple t m).tag ≠ DB_MINED_COMMITMENT_BY_INVERSED_HEIGHT ∨
      (buildInversedHeightKeyTuple t m).llmqType ≠ t) := by simp [buildInversedHeightKeyTuple]
  have hmined : ¬UINT32_MAX - htobe32 (buildInversedHeightKeyTuple t m).inversedHeight >
      pindex.nHeight % 4294967296 := by
    rw [buildInversedHeightKeyTuple, nMinedHeight_flat (by omega), Nat.mod_eq_of_lt (by omega)]
    omega
  rw [minedCommitmentsLoop, if_pos hret, getKey_flatKey,
    getValue_serInt (v := qh) (by omega) (by omega)]
  cases hb : pindex.getAncestor (qh : Int) <;>
    simp only [hlt, Bool.not_true, Bool.false_eq_true, if_false, htag, hmined, hb]

theorem minedCommitmentsLoop_spec_of_above {key value : Bytes} {rest : List (Bytes × Bytes)}
    (hs : ((key, value) :: rest).Pairwise fun a b => bytesLt a.1 b.1 = true)
    (habove : ∀ m, 1 ≤ m → m < 2147483648 → bytesLt (flatKey t m) key = true)
    (hstop : ∀ curKey, getKey key = some curKey →
      curKey.lt (buildInversedHeightKeyTuple t 0) = true →
      curKey.tag = DB_MINED_COMMITMENT_BY_INVERSED_HEIGHT → curKey.llmqType = t → False) :
    ∃ Q : List (Nat × Int), Q.Pairwise (fun a b => b.1 < a.1) ∧
      (∀ m qh, (m, qh) ∈ Q ↔
        HasFlatEntry ((key, value) :: rest) t m qh ∧ 1 ≤ m ∧ m < 2147483648) ∧
      ∀ ret, minedCommitmentsLoop t pindex maxCount (buildInversedHeightKeyTuple t 0)
        ((key, value) :: rest) ret =
        (ancestorsOf pindex ((Q.take (maxCount - ret.length)).map (·.2))).map (ret ++ ·) := by
  refine ⟨[], .nil, fun m qh => ⟨fun h => absurd h (List.not_mem_nil _), ?_⟩, fun ret => ?_⟩
  · rintro ⟨⟨v, hv, -⟩, h1, h2⟩
    exact absurd hv (not_mem_of_bytesLt_head hs (habove m h1 h2) v)
  · rw [minedCommitmentsLoop_stop hstop]
    simp [ancestorsOf, Except.map]

/-- ループの仕様：`Seek` の位置から後ろの項目（順に並び、どれも `firstKey` 以上で、別の名前空間の
キーか書かれた平らな項目）について、ループは型 `t` の高さ 1 以上の平らな項目を高さの下がる順に
（`Q`）、`maxCount` に届くまで取り、それぞれの祖先を `ret` に足す。 -/
theorem minedCommitmentsLoop_spec (hH : pindex.nHeight < 2147483648) :
    ∀ {it : List (Bytes × Bytes)}, it.Pairwise (fun a b => bytesLt a.1 b.1 = true) →
      (∀ e ∈ it, WellFormedEntry e ∧ bytesLt e.1 (flatKey t pindex.nHeight) = false) →
      ∃ Q : List (Nat × Int), Q.Pairwise (fun a b => b.1 < a.1) ∧
        (∀ m qh, (m, qh) ∈ Q ↔ HasFlatEntry it t m qh ∧ 1 ≤ m ∧ m < 2147483648) ∧
        ∀ ret, minedCommitmentsLoop t pindex maxCount (buildInversedHeightKeyTuple t 0) it ret =
          (ancestorsOf pindex ((Q.take (maxCount - ret.length)).map (·.2))).map (ret ++ ·)
  | [], _, _ => ⟨[], .nil, fun m qh => by simp [HasFlatEntry], fun ret => by
      simp [minedCommitmentsLoop, ancestorsOf, Except.map]⟩
  | (key, value) :: rest, hs, hit => by
    have hH' : pindex.nHeight < 4294967296 := by omega
    obtain ⟨Q, hQs, hQm, hQl⟩ :=
      minedCommitmentsLoop_spec hH hs.of_cons fun e he => hit e (List.mem_cons_of_mem _ he)
    obtain ⟨hwf, hge⟩ := hit _ (List.mem_cons_self _ _)
    rcases hwf with hother | ⟨t', m', qh', hm', hqh', he⟩
    · -- 別の名前空間のキー：平らなキーのすべてより後ろ
      have hnp := not_prefix_of_otherNamespaceKey hother
      exact minedCommitmentsLoop_spec_of_above hs
        (fun m _ _ => bytesLt_append_of_not_prefix_of_ge hnp hge _)
        fun curKey hk _ htag _ => hnp (prefix_of_getKey hk htag)
    obtain ⟨rfl, rfl⟩ := Prod.mk.inj he
    have hm'32 : m' < 4294967296 := by omega
    rw [← Bool.not_eq_true, bytesLt_flatKey hm'32 hH'] at hge
    by_cases hq : t' = t ∧ 1 ≤ m'
    · -- 型 `t` の高さ `m'` の項目：取って次へ
      obtain ⟨rfl, hm1⟩ := hq
      have hmH : m' ≤ pindex.nHeight := Nat.le_of_not_lt fun h => hge (.inr ⟨rfl, h⟩)
      refine ⟨(m', (qh' : Int)) :: Q, List.pairwise_cons.2 ⟨fun b hb => ?_, hQs⟩,
        fun m qh => ?_, fun ret => ?_⟩
      · obtain ⟨⟨v, hv, -⟩, -, hb2⟩ := (hQm b.1 b.2).1 hb
        have hlt := List.rel_of_pairwise_cons hs hv
        rw [bytesLt_flatKey hm'32 (by omega)] at hlt
        rcases hlt with h | ⟨-, h⟩
        · exact absurd h (Nat.lt_irrefl _)
        · exact h
      · rw [List.mem_cons, hQm, hasFlatEntry_cons, Prod.mk.injEq]
        constructor
        · rintro (⟨rfl, rfl⟩ | h)
          · exact ⟨.inl ⟨rfl, getValue_serInt (by omega) (by omega)⟩, hm1, hm'⟩
          · exact ⟨.inr h.1, h.2⟩
        · rintro ⟨⟨hk, hv⟩ | hf, h1, h2⟩
          · rw [getValue_serInt (by omega) (by omega), Option.some.injEq] at hv
            exact .inl ⟨(flatKey_inj (by omega) hm'32 hk).2, hv.symm⟩
          · exact .inr ⟨hf, h1, h2⟩
      · by_cases hret : ret.length < maxCount
        · obtain ⟨k, hk⟩ : ∃ k, maxCount - ret.length = k + 1 :=
            ⟨maxCount - ret.length - 1, by omega⟩
          rw [minedCommitmentsLoop_flat hm1 hmH hH hqh' hret, hk, List.take_succ_cons,
            List.map_cons, ancestorsOf]
          cases pindex.getAncestor (qh' : Int) with
          | none => rfl
          | some b =>
            dsimp only
            rw [hQl, List.length_append, List.length_singleton,
              show maxCount - (ret.length + 1) = k by omega]
            cases ancestorsOf pindex ((Q.take k).map (·.2)) <;> simp [Except.map]
        · rw [minedCommitmentsLoop, if_neg hret, Nat.sub_eq_zero_of_le (by omega), List.take_zero]
          simp [ancestorsOf, Except.map]
    · -- 別の型か高さ 0 の項目：型 `t` の高さ 1 以上の平らなキーのすべてより後ろ
      refine minedCommitmentsLoop_spec_of_above hs (fun m h1 _ => ?_)
        fun curKey hk hlt _ hty => ?_
      · rw [bytesLt_flatKey (by omega) hm'32]
        by_cases ht : t = t'
        · subst ht
          exact .inr ⟨rfl, Nat.lt_of_lt_of_le (Nat.lt_of_not_le fun h => hq ⟨rfl, h⟩) h1⟩
        · rw [uint8_eq_iff] at ht
          exact .inl (by omega)
      · rw [getKey_flatKey, Option.some.injEq] at hk
        subst hk
        change t' = t at hty
        subst hty
        exact hq ⟨rfl, Nat.pos_of_ne_zero ((lt_lastKey hm'32).1 hlt)⟩

end loop

/-! ## 走査の正しさ -/

/-- `GetMinedCommitmentsUntilBlock(t, pindex, maxCount)` は、型 `t` の平らな項目 `(m, qh)` のうち
`1 ≤ m ≤ pindex->nHeight` のものを `m` の下がる順に並べ（`L`）、始めの `maxCount` 個について
`pindex->GetAncestor(qh)` を返す。evoDb の項目は別の名前空間のキーか `ProcessCommitment` が書く
平らな項目で、高さは `int`。 -/
theorem getMinedCommitmentsUntilBlock_spec (db : Db) (hdb : ∀ e ∈ db.entries, WellFormedEntry e)
    (t : LLMQType) (pindex : BlockIndex) (hH : pindex.nHeight < 2147483648) (maxCount : Nat) :
    ∃ L : List (Nat × Int), L.Pairwise (fun a b => b.1 < a.1) ∧
      (∀ m qh, (m, qh) ∈ L ↔ HasFlatEntry db.entries t m qh ∧ 1 ≤ m ∧ m ≤ pindex.nHeight) ∧
      getMinedCommitmentsUntilBlock db t pindex maxCount =
        ancestorsOf pindex ((L.take maxCount).map (·.2)) := by
  obtain ⟨Q, hQs, hQm, hQl⟩ := @minedCommitmentsLoop_spec t pindex maxCount hH _
    (seek_sorted db (flatKey t pindex.nHeight))
    fun e he => ⟨hdb e (mem_seek.1 he).1, (mem_seek.1 he).2⟩
  refine ⟨Q, hQs, fun m qh => ?_, ?_⟩
  · rw [hQm]
    constructor
    · rintro ⟨⟨v, hv, hval⟩, h1, h2⟩
      obtain ⟨hv, hle⟩ := mem_seek.1 hv
      rw [← Bool.not_eq_true, bytesLt_flatKey (by omega) (by omega)] at hle
      exact ⟨⟨v, hv, hval⟩, h1, Nat.le_of_not_lt fun h => hle (.inr ⟨rfl, h⟩)⟩
    · rintro ⟨⟨v, hv, hval⟩, h1, h2⟩
      refine ⟨⟨v, mem_seek.2 ⟨hv, ?_⟩, hval⟩, h1, by omega⟩
      rw [← Bool.not_eq_true, bytesLt_flatKey (by omega) (by omega)]
      rintro (h | ⟨-, h⟩)
      · exact Nat.lt_irrefl _ h
      · omega
  · change minedCommitmentsLoop t pindex maxCount (buildInversedHeightKeyTuple t 0)
      (db.seek (flatKey t pindex.nHeight)) [] = _
    rw [hQl, List.length_nil, Nat.sub_zero]
    cases ancestorsOf pindex ((Q.take maxCount).map (·.2)) <;> rfl

/-- 走査の例の evoDb：`"q_mc"` と `"q_bbu2"` のキー、型 1 の高さ 9、7、6、0 の項目、型 2 の高さ 5 の
項目、`"q_mcihi"` のキー。 -/
def scanDb : Db where
  entries :=
    [(serString [113, 95, 109, 99] ++ [1, 171], [0]),
     (serString [113, 95, 98, 98, 117, 50], [2]),
     (flatKey 1 9, serInt 3), (flatKey 1 7, serInt 4), (flatKey 1 6, serInt 4),
     (flatKey 1 0, serInt 0), (flatKey 2 5, serInt 3),
     (serString [113, 95, 109, 99, 105, 104, 105] ++ [1], [5])]
  sorted := by decide

theorem scanDb_wellFormed : ∀ e ∈ scanDb.entries, WellFormedEntry e := by
  intro e he
  simp only [scanDb, List.mem_cons, List.mem_singleton, List.not_mem_nil, or_false] at he
  rcases he with rfl | rfl | rfl | rfl | rfl | rfl | rfl | rfl
  · exact .inl ⟨_, _, by decide, rfl⟩
  · exact .inl ⟨_, [], by decide, (List.append_nil _).symm⟩
  · exact .inr ⟨1, 9, 3, by decide, by decide, rfl⟩
  · exact .inr ⟨1, 7, 4, by decide, by decide, rfl⟩
  · exact .inr ⟨1, 6, 4, by decide, by decide, rfl⟩
  · exact .inr ⟨1, 0, 0, by decide, by decide, rfl⟩
  · exact .inr ⟨2, 5, 3, by decide, by decide, rfl⟩
  · exact .inl ⟨_, _, by decide, rfl⟩

theorem getMinedCommitmentsUntilBlock_spec_demo :
    (∀ e ∈ scanDb.entries, WellFormedEntry e) ∧ (demoBlockIndex 8).nHeight < 2147483648 ∧
      ∃ L : List (Nat × Int), L.Pairwise (fun a b => b.1 < a.1) ∧
        (∀ m qh, (m, qh) ∈ L ↔
          HasFlatEntry scanDb.entries 1 m qh ∧ 1 ≤ m ∧ m ≤ (demoBlockIndex 8).nHeight) ∧
        getMinedCommitmentsUntilBlock scanDb 1 (demoBlockIndex 8) 5 =
          ancestorsOf (demoBlockIndex 8) ((L.take 5).map (·.2)) :=
  ⟨scanDb_wellFormed, by decide,
    getMinedCommitmentsUntilBlock_spec scanDb scanDb_wellFormed 1 (demoBlockIndex 8) (by decide) 5⟩

/-- 高さ 8 からの走査：高さ 9 の項目は `Seek` で飛ばされ、高さ 7 と 6 の項目を取り、高さ 0 の
項目（`lastKey`）で止まる。 -/
example :
    (getMinedCommitmentsUntilBlock scanDb 1 (demoBlockIndex 8) 5).toOption.map
      (·.map BlockIndex.nHeight) = some [4, 4] := by
  decide

end QuorumBlockProcessor
