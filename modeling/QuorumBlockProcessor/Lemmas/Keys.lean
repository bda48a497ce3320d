import QuorumBlockProcessor.State

/-!
# 逆順の高さ

`htobe32` は 4 バイトの順を逆にするので、二度かけると元に戻る（`htobe32_htobe32`）。逆順の高さ
`UINT32_MAX - nMinedHeight` は `2^32` より低い高さを区別し（`inversedHeightKey_inj`）、`be32toh` の
後に `UINT32_MAX` から引くと高さに戻る（`nMinedHeight_flat`）。
-/

namespace QuorumBlockProcessor

/-! ## 256 進の桁 -/

theorem digits_base256 {a b c d : Nat} (ha : a < 256) (hb : b < 256) (hc : c < 256)
    (hd : d < 256) :
    (a * 16777216 + b * 65536 + c * 256 + d) % 256 = d ∧
      (a * 16777216 + b * 65536 + c * 256 + d) / 256 % 256 = c ∧
      (a * 16777216 + b * 65536 + c * 256 + d) / 65536 % 256 = b ∧
      (a * 16777216 + b * 65536 + c * 256 + d) / 16777216 % 256 = a :=
  ⟨by omega, by omega, by omega, by omega⟩

theorem eq_digits_base256 {x : Nat} (hx : x < 4294967296) :
    x = x / 16777216 % 256 * 16777216 + x / 65536 % 256 * 65536 + x / 256 % 256 * 256 +
      x % 256 := by
  omega

theorem lex_digits_base256 {a b c d a' b' c' d' : Nat} (hb : b < 256) (hc : c < 256)
    (hd : d < 256) (hb' : b' < 256) (hc' : c' < 256) (hd' : d' < 256) :
    (a < a' ∨ a = a' ∧ (b < b' ∨ b = b' ∧ (c < c' ∨ c = c' ∧ d < d'))) ↔
      a * 16777216 + b * 65536 + c * 256 + d < a' * 16777216 + b' * 65536 + c' * 256 + d' := by
  omega

theorem htobe32_digits (x : Nat) :
    htobe32 x % 256 = x / 16777216 % 256 ∧ htobe32 x / 256 % 256 = x / 65536 % 256 ∧
      htobe32 x / 65536 % 256 = x / 256 % 256 ∧ htobe32 x / 16777216 % 256 = x % 256 :=
  have h (n : Nat) : n % 256 < 256 := Nat.mod_lt n (by decide)
  digits_base256 (h _) (h _) (h _) (h _)

/-! ## `htobe32` -/

theorem htobe32_lt (x : Nat) : htobe32 x < 4294967296 := by
  unfold htobe32
  omega

theorem htobe32_htobe32 {x : Nat} (hx : x < 4294967296) : htobe32 (htobe32 x) = x := by
  obtain ⟨h₀, h₁, h₂, h₃⟩ := htobe32_digits x
  generalize htobe32 x = z at h₀ h₁ h₂ h₃
  rw [htobe32, h₀, h₁, h₂, h₃]
  exact (eq_digits_base256 hx).symm

/-- `htobe32` は 32 ビットの値を区別する。 -/
theorem htobe32_inj_of_lt {v v' : Nat} (hv : v < 4294967296) (hv' : v' < 4294967296)
    (h : htobe32 v = htobe32 v') : v = v' := by
  rw [← htobe32_htobe32 hv, h, htobe32_htobe32 hv']

/-! ## 逆順の高さ -/

theorem inversedHeight_lt (m : Nat) : inversedHeight m < 4294967296 := by
  unfold inversedHeight UINT32_MAX
  omega

theorem inversedHeight_of_lt {m : Nat} (hm : m < 4294967296) :
    inversedHeight m = 4294967295 - m := by
  rw [inversedHeight, UINT32_MAX, Nat.mod_eq_of_lt hm]

theorem inversedHeightKey_mod {m m' : Nat}
    (h : htobe32 (inversedHeight m) = htobe32 (inversedHeight m')) :
    m % 4294967296 = m' % 4294967296 := by
  have h' := htobe32_inj_of_lt (inversedHeight_lt m) (inversedHeight_lt m') h
  unfold inversedHeight UINT32_MAX at h'
  omega

/-- 逆順の高さのキーは `2^32` より低い高さを区別する。 -/
theorem inversedHeightKey_inj {m m' : Nat} (hm : m < 4294967296) (hm' : m' < 4294967296)
    (h : htobe32 (inversedHeight m) = htobe32 (inversedHeight m')) : m = m' := by
  have := inversedHeightKey_mod h
  rwa [Nat.mod_eq_of_lt hm, Nat.mod_eq_of_lt hm'] at this

theorem htobe32_inversedHeight_lt_zero {m : Nat} (hm : m < 4294967296) :
    htobe32 (inversedHeight m) < htobe32 (inversedHeight 0) ↔ m ≠ 0 := by
  have hmax : htobe32 4294967295 = 4294967295 := by decide
  have hinv := htobe32_htobe32 (inversedHeight_lt m)
  have hlt := htobe32_lt (inversedHeight m)
  rw [inversedHeight_of_lt (by decide : 0 < 4294967296), Nat.sub_zero, hmax]
  rw [inversedHeight_of_lt hm] at hinv hlt ⊢
  constructor
  · rintro h rfl
    rw [Nat.sub_zero, hmax] at h
    exact Nat.lt_irrefl _ h
  · intro h0
    refine Nat.lt_of_le_of_ne (Nat.le_of_lt_succ hlt) fun he => h0 ?_
    rw [he, hmax] at hinv
    omega

theorem nMinedHeight_flat {m : Nat} (hm : m < 4294967296) :
    UINT32_MAX - htobe32 (htobe32 (inversedHeight m)) = m := by
  rw [htobe32_htobe32 (inversedHeight_lt m), inversedHeight_of_lt hm, UINT32_MAX]
  omega

end QuorumBlockProcessor
