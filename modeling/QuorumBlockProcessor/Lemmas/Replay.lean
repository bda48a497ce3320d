import QuorumBlockProcessor.Lemmas.Reorg
import QuorumBlockProcessor.Lemmas.Cache
import QuorumBlockProcessor.Lemmas.Keys

/-!
# 実行と再生

`ChainStep` の実行の各状態は、残っているブロックを空の状態から順につなぎ直したものと同じものが
見える（`RunInv`）。先端の子をつないですぐ切り離すと見えるものが戻り（`undoBlock_processBlock`）、
印 `DB_BEST_BLOCK_UPGRADE` だけは先端のハッシュになる。
-/

namespace QuorumBlockProcessor

variable {env : Env}

/-! ## 逆順の高さのキー -/

theorem mem_flatKeysOf {qcs : List FinalCommitment} {nHeight : Nat} {rot : FinalCommitment → Bool}
    {k : LLMQType × Nat} (h : k ∈ flatKeysOf env qcs nHeight rot) :
    ∃ t, k = buildInversedHeightKey t nHeight := by
  obtain ⟨qc, -, rfl⟩ := List.mem_map.1 h
  exact ⟨_, rfl⟩

theorem mem_indexedKeysOf {qcs : List FinalCommitment} {nHeight : Nat}
    {rot : FinalCommitment → Bool} {k : LLMQType × Int × Nat}
    (h : k ∈ indexedKeysOf env qcs nHeight rot) :
    ∃ t qi, k = buildInversedHeightKeyIndexed t nHeight qi := by
  obtain ⟨qc, -, rfl⟩ := List.mem_map.1 h
  exact ⟨_, _, rfl⟩

/-! ## 索引の高さ -/

/-- 逆順の高さの索引の項目は、どれも高さ `n` より低いブロックのもの。 -/
structure IndexBelow (s : State) (n : Nat) : Prop where
  flat : ∀ t x, s.evoDb.minedByInversedHeight (t, x) ≠ none →
    ∃ m < n, x = htobe32 (inversedHeight m)
  indexed : ∀ t qi x, s.evoDb.minedByInversedHeightIndexed (t, qi, x) ≠ none →
    ∃ m < n, x = htobe32 (inversedHeight m)

namespace IndexBelow

variable {s : State} {n : Nat}

theorem empty : IndexBelow State.empty n :=
  ⟨fun _ _ h => absurd rfl h, fun _ _ _ h => absurd rfl h⟩

theorem mono (h : IndexBelow s n) {n' : Nat} (hle : n ≤ n') : IndexBelow s n' :=
  ⟨fun t x hx => let ⟨m, hm, e⟩ := h.flat t x hx; ⟨m, by omega, e⟩,
    fun t qi x hx => let ⟨m, hm, e⟩ := h.indexed t qi x hx; ⟨m, by omega, e⟩⟩

theorem of_sameView {r : State} (h : IndexBelow r n) (hs : s.SameView r) : IndexBelow s n :=
  ⟨fun t x => hs.flat ▸ h.flat t x, fun t qi x => hs.indexed ▸ h.indexed t qi x⟩

theorem flat_none (h : IndexBelow s n) (hn : n < 4294967296) (t : LLMQType) :
    s.evoDb.minedByInversedHeight (buildInversedHeightKey t n) = none := by
  by_contra hne
  obtain ⟨m, hm, e⟩ := h.flat t _ hne
  have := inversedHeightKey_inj hn (by omega) e
  omega

theorem indexed_none (h : IndexBelow s n) (hn : n < 4294967296) (t : LLMQType) (qi : Int) :
    s.evoDb.minedByInversedHeightIndexed (buildInversedHeightKeyIndexed t n qi) = none := by
  by_contra hne
  obtain ⟨m, hm, e⟩ := h.indexed t qi _ hne
  have := inversedHeightKey_inj hn (by omega) e
  omega

theorem processBlock {chain : Chain} {s' : State} {block : Block} {pindex : BlockIndex}
    {fBLSChecks : Bool} (h : IndexBelow s n) (hlt : pindex.nHeight < n)
    (hp : QuorumBlockProcessor.processBlock env chain s block pindex false fBLSChecks =
      (.ok (), s')) :
    IndexBelow s' n := by
  obtain ⟨-, qcs, -, -, -, -, wf⟩ := processBlock_frame hp
  constructor
  · intro t x hx
    by_cases hk : (t, x) ∈ flatKeysOf env qcs pindex.nHeight (rotationAtBase env)
    · obtain ⟨_, e⟩ := mem_flatKeysOf hk
      exact ⟨_, hlt, (Prod.ext_iff.1 e).2⟩
    · exact h.flat t x (wf.flat _ hk ▸ hx)
  · intro t qi x hx
    by_cases hk : (t, qi, x) ∈ indexedKeysOf env qcs pindex.nHeight (rotationAtBase env)
    · obtain ⟨_, _, e⟩ := mem_indexedKeysOf hk
      exact ⟨_, hlt, (Prod.ext_iff.1 (Prod.ext_iff.1 e).2).2⟩
    · exact h.indexed t qi x (wf.indexed _ hk ▸ hx)

end IndexBelow

/-! ## つないですぐ切り離す -/

theorem BlockIndex.child_nHeight (chain : Chain) (hash : Nat) :
    (BlockIndex.child chain hash).nHeight = chain.length := by
  simp [BlockIndex.child, BlockIndex.nHeight]

theorem IndexBelow.connect {chain : Chain} {s s' : State} {block : Block} {fBLSChecks : Bool}
    (h : IndexBelow s chain.length)
    (hp : QuorumBlockProcessor.processBlock env chain s block (BlockIndex.child chain block.hash)
      false fBLSChecks = (.ok (), s')) :
    IndexBelow s' (chain ++ [block.hash]).length := by
  rw [List.length_append, List.length_singleton]
  exact (h.mono (Nat.le_succ _)).processBlock
    (by rw [BlockIndex.child_nHeight]; exact Nat.lt_succ_self _) hp

theorem BlockIndex.child_pprev {chain : Chain} (hne : chain ≠ []) (hash : Nat) :
    (BlockIndex.child chain hash).pprev = some ⟨chain, hne⟩ := by
  have hlen : 0 < chain.length := List.length_pos.2 hne
  simp only [BlockIndex.pprev, BlockIndex.getAncestor, BlockIndex.child_nHeight]
  rw [if_pos (by omega)]
  congr
  rw [show ((chain.length : Int) - 1).toNat + 1 = chain.length by omega]
  simp [BlockIndex.child]

theorem BlockIndex.child_getBlockHash (chain : Chain) (hash : Nat) :
    (BlockIndex.child chain hash).getBlockHash = hash := by
  simp [BlockIndex.child, BlockIndex.getBlockHash]

/-- つなぐ一歩も切り離す一歩も、印を新しい先端のハッシュにする。切り離した後もチェーンは空で
ない：ジェネシスを切り離す `UndoBlock` は `pprev` がなく、成功しない。 -/
theorem ChainStep.bestBlockUpgrade {n n' : Node} (h : ChainStep env n n') :
    ∃ tip, n'.chain.tip = some tip ∧ n'.state.evoDb.bestBlockUpgrade = some tip.getBlockHash := by
  cases h with
  | connect block _ _ _ h =>
    refine ⟨BlockIndex.child _ block.hash, dif_neg (by simp), ?_⟩
    rw [(processBlock_frame h).1, BlockIndex.child_getBlockHash]
  | @disconnect chain _ _ _ block _ h =>
    obtain ⟨-, pprev, -, hp, hm, -⟩ := undoBlock_frame h
    by_cases hne : chain = []
    · subst hne
      simp [BlockIndex.pprev, BlockIndex.getAncestor, BlockIndex.child_nHeight] at hp
    · rw [BlockIndex.child_pprev hne, Option.some.injEq] at hp
      exact ⟨pprev, hp ▸ dif_neg hne, hm⟩

section undo

variable (hrot : env.RotationPerCycle) (hidx : env.VerifyIndexNonneg) {chain : Chain}
  (hact : env.ActiveChain chain) (hne : chain ≠ [])

include hrot hidx hact in
/-- 先端の子をつないで、同じものが見える状態から切り離すと、つなぐ前の三つの表と
`HasMinedCommitment` の答えに戻り、印は先端のハッシュになる。つなぐ前の状態では、キャッシュが
evoDb と一致し、索引の項目がどれも先端の子より低い。 -/
theorem undoBlock_processBlock (hint : chain.length < 4294967296) {r r₁ s s' : State}
    {block : Block} {fBLSChecks : Bool} (hcoh : r.CacheCoherent)
    (hbelow : IndexBelow r chain.length)
    (hp : processBlock env chain r block (BlockIndex.child chain block.hash) false fBLSChecks =
      (.ok (), r₁))
    (hs : s.SameView r₁)
    (hu : undoBlock env s block (BlockIndex.child chain block.hash) = (.ok (), s')) :
    s'.SameView r ∧ s'.evoDb.bestBlockUpgrade = some (chain.getLast hne) := by
  obtain ⟨-, qcs, hget, hchk, hfresh, -, wf⟩ := processBlock_frame hp
  obtain ⟨qcs', pprev, hget', hpprev, hmark, er⟩ := undoBlock_frame hu
  obtain rfl := hget qcs' hget'
  have hm := BlockIndex.child_nHeight chain block.hash
  have hagree : ∀ qc ∈ qcs', env.isNull qc = false →
      rotationAtBase env qc = rotationAt env (BlockIndex.child chain block.hash) qc :=
    fun qc hq hn => rotationAtBase_eq_rotationAt hrot hidx hact hne _ (hm ▸ hchk qc hq) hn
  have hF := flatKeysOf_congr env qcs' (BlockIndex.child chain block.hash).nHeight hagree
  have hI := indexedKeysOf_congr env qcs' (BlockIndex.child chain block.hash).nHeight hagree
  refine ⟨⟨funext fun k => ?_, funext fun k => ?_, funext fun k => ?_, funext fun k => ?_⟩, ?_⟩
  · rw [er.mined k]
    split
    · rename_i hk
      have := hfresh k hk
      rw [State.minedView_of_coherent hcoh] at this
      exact (Option.not_isSome_iff_eq_none.1 (by simp [this])).symm
    · rename_i hk; rw [hs.mined, wf.mined k hk]
  · rw [er.flat k]
    split
    · rename_i hk
      obtain ⟨t, rfl⟩ := mem_flatKeysOf hk
      rw [hm]; exact (hbelow.flat_none hint t).symm
    · rename_i hk; rw [hs.flat, wf.flat k (hF ▸ hk)]
  · rw [er.indexed k]
    split
    · rename_i hk
      obtain ⟨t, qi, rfl⟩ := mem_indexedKeysOf hk
      rw [hm]; exact (hbelow.indexed_none hint t qi).symm
    · rename_i hk; rw [hs.indexed, wf.indexed k (hI ▸ hk)]
  · rw [er.minedView k]
    split
    · rename_i hk; exact (hfresh k hk).symm
    · rename_i hk; rw [hs.minedView, wf.minedView k hk]
  · rw [BlockIndex.child_pprev hne, Option.some.injEq] at hpprev
    subst hpprev
    exact hmark

end undo

/-! ## 再生 -/

theorem connectBlocks_append_singleton {block : Block} {fBLSChecks : Bool} {r' : State} :
    ∀ {chain : Chain} {bs : List (Block × Bool)} {s : State},
    connectBlocks env chain (bs ++ [(block, fBLSChecks)]) s = some r' ↔
      ∃ r, connectBlocks env chain bs s = some r ∧
        processBlock env (chain ++ bs.map (·.1.hash)) r block
          (BlockIndex.child (chain ++ bs.map (·.1.hash)) block.hash) false fBLSChecks = (.ok (), r')
  | chain, [], s => by
    simp only [List.nil_append, connectBlocks, List.map_nil, List.append_nil]
    split <;> rename_i heq <;> simp [heq]
  | chain, (block₀, f₀) :: bs, s => by
    simp only [List.cons_append, connectBlocks, List.map_cons]
    split
    · simp only [List.append_eq]
      rw [connectBlocks_append_singleton]; simp [List.append_assoc]
    · simp

/-- 再生：キャッシュが evoDb と一致し、索引の項目がどれもチェーンの高さより低い状態からつなげば、
そのどちらも保たれ、印は最後につないだブロックのハッシュになる。 -/
theorem connectBlocks_spec : ∀ {chain : Chain} {bs : List (Block × Bool)} {s r : State},
    connectBlocks env chain bs s = some r → s.CacheCoherent → IndexBelow s chain.length →
    r.CacheCoherent ∧ IndexBelow r (chain.length + bs.length) ∧
      (bs ≠ [] → r.evoDb.bestBlockUpgrade = (bs.map (·.1.hash)).getLast?)
  | chain, [], s, r, h, hc, hb => by
    cases h; exact ⟨hc, hb, fun h => absurd rfl h⟩
  | chain, (block, f) :: bs, s, r, h, hc, hb => by
    simp only [connectBlocks] at h
    split at h
    · rename_i s₁ hp
      obtain ⟨hc', hb', hm'⟩ := connectBlocks_spec h (processBlock_coherent hc hp) (hb.connect hp)
      refine ⟨hc', by simpa [Nat.add_assoc, Nat.add_comm 1] using hb', fun _ => ?_⟩
      cases bs with
      | nil => cases h; simp [(processBlock_frame hp).1]
      | cons b bs => rw [hm' (List.cons_ne_nil _ _)]; simp
    · cases h

theorem Env.ActiveChain.snoc {chain : Chain} {hash : Nat} (h : env.ActiveChain chain)
    (hidx : env.lookupBlockIndex hash = some (BlockIndex.child chain hash)) :
    env.ActiveChain (chain ++ [hash]) := by
  intro i hi
  rw [List.length_append, List.length_singleton] at hi
  rcases Nat.lt_succ_iff_lt_or_eq.1 hi with hi | rfl
  · simp only [List.getElem_append_left hi, h i hi, Option.some.injEq, BlockIndex.mk.injEq]
    exact (List.take_append_of_le_length hi).symm
  · simp [hidx, BlockIndex.child]

theorem Env.ActiveChain.of_append {chain l : Chain}
    (h : env.ActiveChain (chain ++ l)) : env.ActiveChain chain := by
  intro i hi
  have := h i (by simp; omega)
  simp only [List.getElem_append_left hi] at this
  simp only [this, Option.some.injEq, BlockIndex.mk.injEq]
  exact List.take_append_of_le_length hi

theorem Env.ActiveChain.of_snoc {chain : Chain} {hash : Nat}
    (h : env.ActiveChain (chain ++ [hash])) : env.ActiveChain chain :=
  h.of_append

theorem Env.ActiveChain.index_unique {chain : Chain} (h : env.ActiveChain chain) {i j x : Nat}
    (hi : chain[i]? = some x) (hj : chain[j]? = some x) : i = j := by
  obtain ⟨hi', ei⟩ := List.getElem?_eq_some_iff.1 hi
  obtain ⟨hj', ej⟩ := List.getElem?_eq_some_iff.1 hj
  have e :=
    (h i hi').symm.trans ((congrArg env.lookupBlockIndex (ei.trans ej.symm)).trans (h j hj'))
  simp only [Option.some.injEq, BlockIndex.mk.injEq] at e
  have := congrArg List.length e
  simp only [List.length_take] at this
  omega

theorem demoChain_active_of_lookup {n : Nat}
    (h : ∀ i ≤ n, env.lookupBlockIndex (i + 100) = some (demoBlockIndex i)) :
    env.ActiveChain (demoChain n) := by
  intro i hi
  have hi' : i < n + 1 := by simpa [demoChain] using hi
  simp only [demoChain, List.getElem_map, List.getElem_range, h i (by omega), demoBlockIndex,
    Option.some.injEq, BlockIndex.mk.injEq]
  rw [← List.map_take, List.take_range, Nat.min_eq_left (by omega)]

theorem demoChain_active (verify : FinalCommitment → Option BlockIndex → Bool → Bool) {n : Nat}
    (hn : n ≤ 100) : (demoEnvWith verify).ActiveChain (demoChain n) :=
  demoChain_active_of_lookup fun i hi => by
    simp only [demoEnvWith]
    rw [if_pos (by omega), Nat.add_sub_cancel]

/-! ## 実行 -/

/-- `ChainStep` の実行の不変条件：チェーンは始まりのチェーンにつないだブロックを並べたもので、
有効であり、状態は残っているブロックの再生と同じものが見える。この実行でつないだブロックが
残っていれば、印も再生と同じ。 -/
structure RunInv (env : Env) (chain₀ : Chain) (n : Node) : Prop where
  chain_eq : n.chain = chain₀ ++ n.connected.map (·.1.hash)
  active : env.ActiveChain n.chain
  bound : n.connected ≠ [] → n.chain.length ≤ 2147483648
  replay : ∃ r, connectBlocks env chain₀ n.connected State.empty = some r ∧ n.state.SameView r ∧
    (n.connected ≠ [] → n.state.evoDb.bestBlockUpgrade = r.evoDb.bestBlockUpgrade)

namespace RunInv

variable {chain₀ : Chain}

theorem init (hact : env.ActiveChain chain₀) : RunInv env chain₀ (Node.init chain₀) :=
  ⟨by simp [Node.init], hact, fun h => absurd rfl h,
    ⟨State.empty, rfl, ⟨rfl, rfl, rfl, rfl⟩, fun h => absurd rfl h⟩⟩

theorem connect {chain : Chain} {connected : List (Block × Bool)} {s s' : State} {block : Block}
    {fBLSChecks : Bool} (inv : RunInv env chain₀ ⟨chain, connected, s⟩)
    (hindex : env.lookupBlockIndex block.hash = some (BlockIndex.child chain block.hash))
    (hint : chain.length < 2147483648)
    (h : processBlock env chain s block (BlockIndex.child chain block.hash) false fBLSChecks =
      (.ok (), s')) :
    RunInv env chain₀ ⟨chain ++ [block.hash], connected ++ [(block, fBLSChecks)], s'⟩ := by
  obtain ⟨r, hr, hsv, -⟩ := inv.replay
  have hchain : chain = chain₀ ++ connected.map (·.1.hash) := inv.chain_eq
  have hc : (processBlock env chain s block (BlockIndex.child chain block.hash) false
      fBLSChecks).1 = (processBlock env chain r block (BlockIndex.child chain block.hash) false
      fBLSChecks).1 ∧ _ := processBlock_congr hsv
  rw [h] at hc
  obtain ⟨h₁, h₂⟩ := hc
  have hr' : processBlock env chain r block (BlockIndex.child chain block.hash) false fBLSChecks =
      (.ok (), (processBlock env chain r block (BlockIndex.child chain block.hash) false
        fBLSChecks).2) := Prod.ext h₁.symm rfl
  refine ⟨by simp [hchain], inv.active.snoc hindex, fun _ => by simp; omega, _,
    connectBlocks_append_singleton.2 ⟨r, hr, hchain ▸ hr'⟩, h₂, fun _ => ?_⟩
  rw [(processBlock_frame h).1, (processBlock_frame hr').1]

theorem disconnect (hrot : env.RotationPerCycle) (hidx : env.VerifyIndexNonneg)
    (hne : chain₀ ≠ []) {chain : Chain} {connected : List (Block × Bool)} {s s' : State}
    {block : Block} {fBLSChecks : Bool}
    (inv : RunInv env chain₀ ⟨chain ++ [block.hash], connected ++ [(block, fBLSChecks)], s⟩)
    (h : undoBlock env s block (BlockIndex.child chain block.hash) = (.ok (), s')) :
    RunInv env chain₀ ⟨chain, connected, s'⟩ := by
  have hchain : chain = chain₀ ++ connected.map (·.1.hash) := by
    have := inv.chain_eq
    simp only [List.map_append, List.map_cons, List.map_nil, ← List.append_assoc] at this
    exact List.append_cancel_right this
  have hne' : chain ≠ [] := by rw [hchain]; simp [hne]
  have hlen : chain.length < 2147483648 := by
    have := inv.bound (by simp); simp at this; omega
  obtain ⟨rf, hrf, hsv, -⟩ := inv.replay
  obtain ⟨r, hr, hp⟩ := connectBlocks_append_singleton.1 hrf
  rw [← hchain] at hp
  obtain ⟨hcoh, hbelow, hmark⟩ := connectBlocks_spec hr .empty .empty
  rw [show chain₀.length + connected.length = chain.length by simp [hchain]] at hbelow
  obtain ⟨hsame, hm⟩ := undoBlock_processBlock hrot hidx inv.active.of_snoc hne' (by omega)
    hcoh hbelow hp hsv h
  refine ⟨hchain, inv.active.of_snoc, fun _ => by show chain.length ≤ _; omega, r, hr, hsame,
    fun hc => ?_⟩
  have e : chain.getLast? = (connected.map (·.1.hash)).getLast? := by
    rw [hchain]; exact List.getLast?_append_of_ne_nil _ (by simpa using hc)
  rw [hm, hmark hc, ← e, List.getLast?_eq_getLast _ hne']

/-- 始まりのノードから `ChainStep` で届くノードは、不変条件を満たす。 -/
theorem of_steps (hrot : env.RotationPerCycle) (hidx : env.VerifyIndexNonneg)
    (hact : env.ActiveChain chain₀) (hne : chain₀ ≠ []) {n : Node}
    (h : Relation.ReflTransGen (ChainStep env) (Node.init chain₀) n) : RunInv env chain₀ n := by
  induction h with
  | refl => exact .init hact
  | tail _ hs ih =>
    cases hs with
    | connect block _ hindex hint hp => exact ih.connect hindex hint hp
    | disconnect block _ hu => exact ih.disconnect hrot hidx hne hu

end RunInv

/-- `quorumIndex` を確かめない `Verify`：基のブロックのハッシュと署名者の数だけを見る。 -/
def demoVerifyAnyIndex (qc : FinalCommitment) (base : Option BlockIndex) (_ : Bool) : Bool :=
  match base with
  | none => false
  | some b => b.getBlockHash == qc.quorumHash && qc.signers.length == 12

/-- 高さ 6 のブロック：前の周期の高さ 3 と 2 のクォーラムのコミットメントを、負の
`quorumIndex` で持つ。 -/
def negIndexBlock : Block :=
  ⟨106, [demoTx 6 (demoCommitment 103 (-1) 12), demoTx 6 (demoCommitment 102 (-2) 12)]⟩

/-- `demoVerifyAnyIndex` の構成で、空の状態から `negIndexBlock` をつないだ状態。 -/
def negIndexConnected : State :=
  (processBlock (demoEnvWith demoVerifyAnyIndex) (demoChain 5) State.empty negIndexBlock
    (BlockIndex.child (demoChain 5) 106) false true).2

/-- 空の状態から `goodBlock` をつなぎ、すぐ切り離したノード。 -/
def reorgNode : Node :=
  ⟨demoChain 5, [],
    (undoBlock demoEnv afterGoodBlock goodBlock (BlockIndex.child (demoChain 5) 106)).2⟩

/-- 同じものが見え、印も等しい二つの状態の evoDb は等しい。 -/
theorem State.SameView.evoDb_eq {s r : State} (h : s.SameView r)
    (hm : s.evoDb.bestBlockUpgrade = r.evoDb.bestBlockUpgrade) : s.evoDb = r.evoDb := by
  obtain ⟨h₁, h₂, h₃, -⟩ := h
  cases hs : s.evoDb
  cases hr : r.evoDb
  simp only [hs, hr] at h₁ h₂ h₃ hm
  rw [h₁, h₂, h₃, hm]

/-- 実行の途中で先端の子をつなぎ、それを切り離した後、同じブロックをもう一度つなぐと成功し、
evoDb は一度目につないだ後と等しく、`HasMinedCommitment` の答えも等しい：切り離した状態は
つなぐ前と同じものが見え、`ProcessBlock` は見えるものだけで決まる。仮定は
`chainSteps_match_replay` と同じ。 -/
theorem processBlock_after_undoBlock (hrot : env.RotationPerCycle)
    (hidx : env.VerifyIndexNonneg) {chain₀ : Chain} (hact : env.ActiveChain chain₀)
    (hne : chain₀ ≠ []) {n : Node} (hn : Relation.ReflTransGen (ChainStep env) (Node.init chain₀) n)
    {block : Block} {fBLSChecks : Bool} {s₁ s₂ : State}
    (hindex : env.lookupBlockIndex block.hash = some (BlockIndex.child n.chain block.hash))
    (hint : n.chain.length < 2147483648)
    (hp : processBlock env n.chain n.state block (BlockIndex.child n.chain block.hash) false
      fBLSChecks = (.ok (), s₁))
    (hu : undoBlock env s₁ block (BlockIndex.child n.chain block.hash) = (.ok (), s₂)) :
    ∃ s₃, processBlock env n.chain s₂ block (BlockIndex.child n.chain block.hash) false
        fBLSChecks = (.ok (), s₃) ∧ s₃.evoDb = s₁.evoDb ∧ s₃.minedView = s₁.minedView := by
  have hn₂ : Relation.ReflTransGen (ChainStep env) (Node.init chain₀) ⟨n.chain, n.connected, s₂⟩ :=
    (hn.tail (.connect block fBLSChecks hindex hint hp)).tail (.disconnect block fBLSChecks hu)
  obtain ⟨r, hr, hsv, -⟩ := (RunInv.of_steps hrot hidx hact hne hn).replay
  obtain ⟨r₂, hr₂, hsv₂, -⟩ := (RunInv.of_steps hrot hidx hact hne hn₂).replay
  obtain rfl : r₂ = r := Option.some.inj (hr₂.symm.trans hr)
  -- 切り離した状態は、つなぐ前の状態と同じものが見える
  obtain ⟨hfst, hsnd⟩ := @processBlock_congr env n.chain false fBLSChecks s₂ n.state block
    (BlockIndex.child n.chain block.hash) (hsv₂.trans hsv.symm)
  rw [hp] at hfst hsnd
  have hp₃ : processBlock env n.chain s₂ block (BlockIndex.child n.chain block.hash) false
      fBLSChecks = (.ok (), (processBlock env n.chain s₂ block _ false fBLSChecks).2) :=
    Prod.ext hfst rfl
  refine ⟨_, hp₃, hsnd.evoDb_eq ?_, hsnd.minedView⟩
  rw [(processBlock_frame hp).1, (processBlock_frame hp₃).1]

/-- `goodBlock` を空の状態につなぎ、切り離し、もう一度つなぐと、一度目と同じ evoDb に戻る。 -/
theorem processBlock_after_undoBlock_good :
    Relation.ReflTransGen (ChainStep demoEnv) (Node.init (demoChain 5)) (Node.init (demoChain 5)) ∧
      processBlock demoEnv (demoChain 5) State.empty goodBlock
          (BlockIndex.child (demoChain 5) goodBlock.hash) false true = (.ok (), afterGoodBlock) ∧
      undoBlock demoEnv afterGoodBlock goodBlock (BlockIndex.child (demoChain 5) goodBlock.hash) =
        (.ok (), reorgNode.state) ∧
      ∃ s₃, processBlock demoEnv (demoChain 5) reorgNode.state goodBlock
          (BlockIndex.child (demoChain 5) goodBlock.hash) false true = (.ok (), s₃) ∧
        s₃.evoDb = afterGoodBlock.evoDb ∧ s₃.minedView = afterGoodBlock.minedView :=
  have hp : processBlock demoEnv (demoChain 5) State.empty goodBlock
      (BlockIndex.child (demoChain 5) goodBlock.hash) false true = (.ok (), afterGoodBlock) :=
    Prod.ext (by decide) rfl
  have hu : undoBlock demoEnv afterGoodBlock goodBlock
      (BlockIndex.child (demoChain 5) goodBlock.hash) = (.ok (), reorgNode.state) :=
    Prod.ext (by decide) rfl
  have hn : Relation.ReflTransGen (ChainStep demoEnv) (Node.init (demoChain 5))
      (Node.init (demoChain 5)) := .refl
  ⟨hn, hp, hu, processBlock_after_undoBlock (demoEnvWith_rotationPerCycle _)
    demoEnv_verifyIndexNonneg (demoChain_active _ (by decide)) (by decide) hn (by decide)
    (by decide) hp hu⟩

end QuorumBlockProcessor
