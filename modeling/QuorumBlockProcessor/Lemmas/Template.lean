import QuorumBlockProcessor.Lemmas.Replay

/-!
# ブロックのひな形

`GetMineableCommitments` と `GetNumCommitmentsRequired` は有効なチェーンで同じクォーラムを見る
（`collectMineable_spec`）。`Verify` が負の `quorumIndex` を受け入れず、`signingActiveQuorumCount`
が `2^15` 以下なら、表の候補の `quorumIndex` は基のブロックの周期の中の位置（`TemplateInv`）。
-/

namespace QuorumBlockProcessor

variable {env : Env}

/-! ## ハッシュの null -/

theorem Env.ActiveChain.zero_not_mem {chain : Chain} (h : env.ActiveChain chain) : 0 ∉ chain := by
  intro h0
  obtain ⟨i, hi, e⟩ := List.getElem_of_mem h0
  have := h i hi
  rw [e, env.lookup_null] at this
  cases this

theorem getQuorumBlockHash_natCast (chain : Chain) (llmqParams : LLMQParams) (nHeight q : Nat) :
    getQuorumBlockHash chain llmqParams nHeight q =
      chain[nHeight - nHeight % llmqParams.dkgInterval + q]?.getD 0 := by
  have e : ((nHeight - nHeight % llmqParams.dkgInterval : Nat) : Int) + (q : Int) =
      ((nHeight - nHeight % llmqParams.dkgInterval + q : Nat) : Int) := by omega
  simp only [getQuorumBlockHash, Chain.getBlockHash, e, Int.toNat_ofNat,
    if_pos (Int.natCast_nonneg _)]

theorem getQuorumBlockHash_eq_zero_iff {chain : Chain} (h0 : 0 ∉ chain) (llmqParams : LLMQParams)
    (nHeight q : Nat) :
    getQuorumBlockHash chain llmqParams nHeight q = 0 ↔
      chain.length ≤ nHeight - nHeight % llmqParams.dkgInterval + q := by
  rw [getQuorumBlockHash_natCast, ← List.getElem?_eq_none_iff]
  cases hx : chain[nHeight - nHeight % llmqParams.dkgInterval + q]? with
  | none => simp
  | some x =>
    obtain ⟨hlt, hx'⟩ := List.getElem?_eq_some_iff.1 hx
    have : x ≠ 0 := fun e => h0 (e ▸ hx' ▸ List.getElem_mem hlt)
    simp [this]

theorem cycle_offset_mod {d n q : Nat} (hq : q < d) : (n - n % d + q) % d = q := by
  have h := Nat.div_add_mod n d
  rw [show n - n % d = d * (n / d) by omega, Nat.mul_add_mod, Nat.mod_eq_of_lt hq]

theorem toInt16_of_lt {n : Nat} (h : n < 32768) : toInt16 n = n := by
  unfold toInt16
  omega

/-! ## ひな形のループ -/

/-- `GetMineableCommitments` がクォーラム `quorumIndex` のために入れるコミットメント `c`：表に
候補があればそれ、なければ null のコミットメント。 -/
def SlotFill (env : Env) (chain : Chain) (llmqParams : LLMQParams) (nHeight : Nat)
    (rotationEnabled basicBlsEnabled : Bool) (s : State) (quorumIndex : Nat)
    (c : FinalCommitment) : Prop :=
  let quorumHash := getQuorumBlockHash chain llmqParams nHeight quorumIndex
  match s.minableCommitmentsByQuorum (llmqParams.type, quorumHash) with
  | none => c = { FinalCommitment.ofParams llmqParams quorumHash with
      quorumIndex := toInt16 quorumIndex
      nVersion := env.getVersion rotationEnabled basicBlsEnabled }
  | some h => s.minableCommitments h = some c

section template

variable {chain : Chain} {llmqParams : LLMQParams} {nHeight : Nat}

theorem SlotFill.of_cacheFill {rotationEnabled basicBlsEnabled : Bool} {s s' : State}
    (hf : s.CacheFill s') :
    SlotFill env chain llmqParams nHeight rotationEnabled basicBlsEnabled s' =
      SlotFill env chain llmqParams nHeight rotationEnabled basicBlsEnabled s := by
  unfold SlotFill
  rw [hf.byQuorum, hf.minable]

theorem SlotFill.slot {rotationEnabled basicBlsEnabled : Bool} {s : State}
    (hp : PoolIntegrity env s) {q : Nat} {c : FinalCommitment}
    (h : SlotFill env chain llmqParams nHeight rotationEnabled basicBlsEnabled s q c) :
    c.llmqType = llmqParams.type ∧
      c.quorumHash = getQuorumBlockHash chain llmqParams nHeight q := by
  dsimp only [SlotFill] at h
  split at h
  · subst h
    exact ⟨rfl, rfl⟩
  · rename_i hk
    obtain ⟨c', hc', hck⟩ := hp.byQuorum _ _ hk
    rw [hc', Option.some.injEq] at h
    subst h
    simpa [Prod.mk.injEq] using hck

/-- `GetMineableCommitments` のループは、上に閉じた null のハッシュのもとで、並んだクォーラムの
うち数えるもの（`RequiredSlot`）に一つずつコミットメントを入れる。 -/
theorem collectMineable_spec (rotationEnabled basicBlsEnabled : Bool)
    (hup : ∀ q q' : Nat, q ≤ q' → getQuorumBlockHash chain llmqParams nHeight q = 0 →
      getQuorumBlockHash chain llmqParams nHeight q' = 0) :
    ∀ (qs : List Nat) (ret : List FinalCommitment) {s : State}, PoolIntegrity env s →
      qs.Pairwise (· < ·) →
      ∃ l, (collectMineable env chain llmqParams nHeight rotationEnabled basicBlsEnabled qs ret
          s).1 = .ok (ret ++ l) ∧
        List.Forall₂ (SlotFill env chain llmqParams nHeight rotationEnabled basicBlsEnabled s)
          (qs.filter (RequiredSlot chain llmqParams nHeight s.minedView)) l
  | [], ret, _, _, _ => ⟨[], by simp [collectMineable], .nil⟩
  | q :: qs, ret, s, hp, hsort => by
    obtain ⟨hlt, hsort⟩ := List.pairwise_cons.1 hsort
    have hf := hasMinedCommitment_cacheFill s llmqParams.type
      (getQuorumBlockHash chain llmqParams nHeight q)
    have hrest := fun ret =>
      collectMineable_spec rotationEnabled basicBlsEnabled hup qs ret (hp.cacheFill hf) hsort
    rw [hf.minedView, SlotFill.of_cacheFill hf] at hrest
    dsimp only [collectMineable]
    split
    · rename_i h0
      refine ⟨[], by simp, ?_⟩
      rw [List.filter_eq_nil_iff.2]
      · exact .nil
      intro q' hq'
      rcases List.mem_cons.1 hq' with rfl | hq'
      · simp [RequiredSlot, h0]
      · simp [RequiredSlot, hup q q' (hlt q' hq').le h0]
    rename_i h0
    split
    · rename_i hm
      rw [hasMinedCommitment_fst] at hm
      obtain ⟨l, hl, hfa⟩ := hrest ret
      refine ⟨l, hl, ?_⟩
      rwa [List.filter_cons_of_neg (by simp [RequiredSlot, hm])]
    rename_i hm
    rw [hasMinedCommitment_fst] at hm
    have hreq : RequiredSlot chain llmqParams nHeight s.minedView q = true := by
      simpa [RequiredSlot, h0] using hm
    rw [List.filter_cons_of_pos hreq]
    split
    · rename_i hk
      obtain ⟨l, hl, hfa⟩ := hrest (ret ++ [_])
      refine ⟨_ :: l, by simpa using hl, .cons ?_ hfa⟩
      rw [← SlotFill.of_cacheFill hf]
      simp only [SlotFill, hk]
    · rename_i h hk
      split
      · rename_i hm'
        obtain ⟨c, hc, -⟩ := (hp.cacheFill hf).byQuorum _ _ hk
        simp [hm'] at hc
      · rename_i c hc
        obtain ⟨l, hl, hfa⟩ := hrest (ret ++ [c])
        refine ⟨c :: l, by simpa using hl, .cons ?_ hfa⟩
        rw [← SlotFill.of_cacheFill hf]
        simp only [SlotFill, hk, hc]

end template

theorem exists_of_forall₂_of_mem_right {α β : Type} {R : α → β → Prop} {xs : List α}
    {ys : List β} (h : List.Forall₂ R xs ys) {b : β} (hb : b ∈ ys) : ∃ a ∈ xs, R a b := by
  induction h with
  | nil => cases hb
  | cons hab _ ih =>
    rcases List.mem_cons.1 hb with rfl | hb
    · exact ⟨_, List.mem_cons_self _ _, hab⟩
    · obtain ⟨a, ha, h⟩ := ih hb
      exact ⟨a, List.mem_cons_of_mem _ ha, h⟩

theorem exists_of_forall₂_of_mem_left {α β : Type} {R : α → β → Prop} {xs : List α}
    {ys : List β} (h : List.Forall₂ R xs ys) {a : α} (ha : a ∈ xs) : ∃ b ∈ ys, R a b :=
  have h' : List.Forall₂ (flip R) ys xs := List.Forall₂.flip h
  exists_of_forall₂_of_mem_right h' ha

/-- `GetMineableCommitments` は、`GetNumCommitmentsRequired` が 0 なら `nullopt`、そうでなければ
数えるクォーラムに一つずつ入れた列を返す。 -/
theorem getMineableCommitments_spec {chain : Chain} {llmqParams : LLMQParams} {nHeight : Nat}
    {s s₁ : State} {N : Nat} (hp : PoolIntegrity env s) (h0 : 0 ∉ chain)
    (hN : getNumCommitmentsRequired env chain llmqParams nHeight s = (.ok N, s₁)) :
    (N = 0 ∧ (getMineableCommitments env chain llmqParams nHeight s).1 = .ok none) ∨
      (N ≠ 0 ∧ ∃ pindex l, chain.blockForHeight nHeight = some pindex ∧
        (getMineableCommitments env chain llmqParams nHeight s).1 = .ok (some l) ∧
        N = l.length ∧
        List.Forall₂ (SlotFill env chain llmqParams nHeight
            (env.isQuorumRotationEnabled llmqParams pindex) (env.isV19Active pindex) s)
          ((List.range (quorumsNum env llmqParams pindex)).filter
            (RequiredSlot chain llmqParams nHeight s.minedView)) l) := by
  obtain ⟨hf, hcases⟩ := getNumCommitmentsRequired_spec hN
  unfold getMineableCommitments
  rw [hN]
  dsimp only
  by_cases hN0 : N = 0
  · exact .inl ⟨hN0, by simp [hN0]⟩
  rcases hcases with ⟨-, rfl⟩ | ⟨-, pindex, hpi, rfl⟩
  · exact absurd rfl hN0
  have hup : ∀ q q' : Nat, q ≤ q' → getQuorumBlockHash chain llmqParams nHeight q = 0 →
      getQuorumBlockHash chain llmqParams nHeight q' = 0 := by
    intro q q' hle
    simp only [getQuorumBlockHash_eq_zero_iff h0]
    omega
  obtain ⟨l, hl, hfa⟩ := collectMineable_spec (env.isQuorumRotationEnabled llmqParams pindex)
    (env.isV19Active pindex) hup _ [] (hp.cacheFill hf) (List.pairwise_lt_range _)
  rw [hf.minedView, SlotFill.of_cacheFill hf] at hfa
  have hlen := hfa.length_eq
  refine .inr ⟨hN0, pindex, l, hpi, ?_, hlen, hfa⟩
  rw [if_neg hN0, hpi]
  dsimp only
  rcases hc : collectMineable env chain llmqParams nHeight
    (env.isQuorumRotationEnabled llmqParams pindex) (env.isV19Active pindex)
    (List.range (quorumsNum env llmqParams pindex)) [] s₁ with ⟨r, s₂⟩
  rw [hc] at hl
  subst hl
  have hl0 : l ≠ [] := by
    rintro rfl
    exact hN0 (by simpa using hlen)
  simp [hl0]

theorem getNumCommitmentsRequired_next {chain : Chain} (hne : chain ≠ [])
    (llmqParams : LLMQParams) (s : State) :
    ∃ N s₁, getNumCommitmentsRequired env chain llmqParams chain.length s = (.ok N, s₁) := by
  have hm : isMiningPhase chain llmqParams chain.length ≠ .error .assertion := by
    unfold isMiningPhase
    rw [if_pos (by simp [Chain.height])]
    simp
  have hb : chain.blockForHeight chain.length = some ⟨chain, hne⟩ := by
    unfold Chain.blockForHeight
    rw [if_pos (by simp only [Chain.height]; omega)]
    simp [Chain.tip, hne]
  unfold getNumCommitmentsRequired
  split
  · rename_i e he
    exact absurd (isMiningPhase_error he ▸ he) hm
  · exact ⟨0, s, rfl⟩
  · rw [hb]
    exact ⟨_, _, rfl⟩

/-! ## 表の候補の `quorumIndex` -/

/-- 候補の `quorumIndex` は、基のブロックの周期の中の位置。 -/
def CandidateIndexed (env : Env) (c : FinalCommitment) : Prop :=
  ∃ llmqParams base, env.getLLMQParams c.llmqType = some llmqParams ∧
    env.lookupBlockIndex c.quorumHash = some base ∧
    c.quorumIndex = (base.nHeight % llmqParams.dkgInterval : Nat)

/-- 表 `minableCommitments` のどの候補も `CandidateIndexed`。 -/
def PoolIndexed (env : Env) (s : State) : Prop :=
  ∀ h c, s.minableCommitments h = some c → CandidateIndexed env c

theorem addMineableCommitment_minable {s : State} {qc c : FinalCommitment} {x : Nat}
    (h : (addMineableCommitment env s qc).2.minableCommitments x = some c) :
    s.minableCommitments x = some c ∨ c = qc := by
  dsimp only [addMineableCommitment] at h
  split at h
  · rcases mapEmplace_eq_some.1 h with h | ⟨-, -, rfl⟩
    · exact .inl h
    · exact .inr rfl
  split at h
  · exact .inl h
  split at h
  · rcases mapEmplace_eq_some.1 h with h | ⟨-, -, rfl⟩
    · by_cases hx : x = env.serializeHash qc
      · subst hx
        simp at h
      · exact .inl (by rwa [Function.update_noteq hx] at h)
    · exact .inr rfl
  · exact .inl h

theorem MessageAdmits.candidateIndexed {qc : FinalCommitment} (h : MessageAdmits env qc) :
    CandidateIndexed env qc := by
  obtain ⟨p, hp, base, hb, he, -⟩ := h.params
  have := Nat.mod_le base.nHeight p.dkgInterval
  exact ⟨p, base, hp, hb, by omega⟩

theorem CommitmentChecked.candidateIndexed (hidx : env.VerifyIndexNonneg) {chain : Chain}
    (hact : env.ActiveChain chain) (hne : chain ≠ []) {fBLSChecks : Bool} {qc : FinalCommitment}
    (hchk : CommitmentChecked env chain chain.length fBLSChecks qc)
    (hnull : env.isNull qc = false) :
    CandidateIndexed env qc := by
  obtain ⟨p, hres, -, hv⟩ := hchk.resolved
  obtain ⟨base, hb, -, hlt, hh⟩ := hres.base hact hne
  have hqi := hidx _ _ _ (hv hnull).2
  have hd := Nat.mod_lt chain.length p.dkgInterval_pos
  have hk : base.nHeight =
      chain.length - chain.length % p.dkgInterval + qc.quorumIndex.toNat := by omega
  refine ⟨p, base, hres.params, hb, ?_⟩
  rw [hk, cycle_offset_mod (by omega)]
  omega

namespace PoolIndexed

variable {s s' : State}

theorem empty : PoolIndexed env State.empty := fun _ _ h => by simp [State.empty] at h

theorem of_poolSub (h : PoolIndexed env s) (hs : s'.PoolSub s) : PoolIndexed env s' :=
  fun x c hc => h x c (hs.2 x c hc)

theorem of_cacheFill (h : PoolIndexed env s) (hf : s.CacheFill s') : PoolIndexed env s' :=
  fun x c hc => h x c (hf.minable ▸ hc)

theorem add (h : PoolIndexed env s) {qc : FinalCommitment} (hqc : CandidateIndexed env qc) :
    PoolIndexed env (addMineableCommitment env s qc).2 := fun x c hc => by
  rcases addMineableCommitment_minable hc with hc | rfl
  · exact h x c hc
  · exact hqc

theorem processMessage (h : PoolIndexed env s) (chain : Chain) (qc : FinalCommitment) :
    PoolIndexed env (QuorumBlockProcessor.processMessage env chain s qc).2 := by
  rcases hm : QuorumBlockProcessor.processMessage env chain s qc with ⟨r, s'⟩
  rcases processMessage_cases hm with hf | ⟨s₁, hf, hadm, rfl⟩
  · exact h.of_cacheFill hf
  · exact (h.of_cacheFill hf).add hadm.candidateIndexed

theorem undoCommitments {pindex : BlockIndex} : ∀ {qcs : List FinalCommitment} {s s' : State},
    PoolIndexed env s → (∀ qc ∈ qcs, env.isNull qc = false → CandidateIndexed env qc) →
    QuorumBlockProcessor.undoCommitments env pindex qcs s = (.ok (), s') → PoolIndexed env s'
  | [], _, _, hs, _, h => by cases h; exact hs
  | qc :: qcs, s, s', hs, hqcs, h => by
    have hrest := fun c hc => hqcs c (List.mem_cons_of_mem qc hc)
    unfold QuorumBlockProcessor.undoCommitments at h
    split at h
    · exact undoCommitments hs hrest h
    rename_i hnull
    split at h
    · cases h
    rename_i llmqParams _
    have h0 : PoolIndexed env (eraseMinedCommitment env pindex llmqParams qc s) := hs
    have h1 := h0.add (hqcs qc (List.mem_cons_self _ _) (by simpa using hnull))
    split at h
    · cases h
    · rename_i heq
      rw [heq] at h1
      exact undoCommitments h1 hrest h

end PoolIndexed

/-- ブロック `block` を `chain` の先端の子としたとき、取り出した null でないコミットメントはどれも
`CandidateIndexed`。 -/
def BlockIndexed (env : Env) (chain : Chain) (block : Block) : Prop :=
  ∀ qcs, getCommitmentsFromBlock env block (BlockIndex.child chain block.hash) = .ok qcs →
    ∀ qc ∈ qcs, env.isNull qc = false → CandidateIndexed env qc

/-- つないだブロックの列のどれもが、つないだときのチェーンで `BlockIndexed`。 -/
def BlocksIndexed (env : Env) : Chain → List (Block × Bool) → Prop
  | _, [] => True
  | chain, (block, _) :: rest =>
    BlockIndexed env chain block ∧ BlocksIndexed env (chain ++ [block.hash]) rest

theorem blocksIndexed_snoc {block : Block} {fBLSChecks : Bool} :
    ∀ {chain : Chain} {connected : List (Block × Bool)},
      BlocksIndexed env chain (connected ++ [(block, fBLSChecks)]) ↔
        BlocksIndexed env chain connected ∧
          BlockIndexed env (chain ++ connected.map (·.1.hash)) block
  | _, [] => by simp [BlocksIndexed]
  | _, (_, _) :: _ => by
    simp only [List.cons_append, List.append_eq, BlocksIndexed, blocksIndexed_snoc,
      List.map_cons, List.append_assoc, List.singleton_append, List.nil_append, and_assoc]

theorem PoolIndexed.undoBlock {chain : Chain} {block : Block} {s s' : State}
    (hs : PoolIndexed env s) (hb : BlockIndexed env chain block)
    (h : QuorumBlockProcessor.undoBlock env s block (BlockIndex.child chain block.hash) =
      (.ok (), s')) :
    PoolIndexed env s' := by
  unfold QuorumBlockProcessor.undoBlock at h
  split at h
  · cases h
  rename_i qcs hq
  split at h
  · cases h
  rename_i s₁ hu
  split at h
  · cases h
  · cases h
    have := hs.undoCommitments (hb qcs hq) hu
    exact this

theorem processBlock_blockIndexed (hidx : env.VerifyIndexNonneg) {chain : Chain}
    (hact : env.ActiveChain chain) (hne : chain ≠ []) {s s' : State} {block : Block}
    {fBLSChecks : Bool}
    (h : processBlock env chain s block (BlockIndex.child chain block.hash) false fBLSChecks =
      (.ok (), s')) :
    BlockIndexed env chain block := by
  intro qcs hq qc hqc hnull
  by_cases hdip : env.dip0003Height ≤ (BlockIndex.child chain block.hash).nHeight
  · obtain ⟨qcs', hq', -, hchk, -⟩ := processBlock_ok_spec h hdip hne
    rw [hq] at hq'
    cases hq'
    have := hchk qc hqc
    rw [BlockIndex.child_nHeight] at this
    exact this.candidateIndexed hidx hact hne hnull
  · cases getCommitmentsFromBlock_premature (Nat.lt_of_not_le hdip) hq
    cases hqc

/-! ## 届くノードの不変条件 -/

/-- 届くノードの不変条件：チェーンは始まりのチェーンにつないだブロックを並べたもので有効、表は
整合し（`PoolIntegrity`）、候補の `quorumIndex` は基のブロックの周期の中の位置、つないだブロックは
`BlockIndexed`。 -/
structure TemplateInv (env : Env) (chain₀ : Chain) (n : Node) : Prop where
  chain_eq : n.chain = chain₀ ++ n.connected.map (·.1.hash)
  active : env.ActiveChain n.chain
  integrity : PoolIntegrity env n.state
  pool : PoolIndexed env n.state
  blocks : BlocksIndexed env chain₀ n.connected

namespace TemplateInv

variable {chain₀ : Chain} {n : Node}

theorem init (hact : env.ActiveChain chain₀) : TemplateInv env chain₀ (Node.init chain₀) :=
  ⟨by simp [Node.init], hact, .empty, .empty, trivial⟩

theorem chain_ne (inv : TemplateInv env chain₀ n) (hne : chain₀ ≠ []) : n.chain ≠ [] := by
  rw [inv.chain_eq]
  simp [hne]

theorem of_pool (inv : TemplateInv env chain₀ n) {s' : State} (hp : PoolIntegrity env s')
    (hpool : PoolIndexed env s') : TemplateInv env chain₀ { n with state := s' } :=
  ⟨inv.chain_eq, inv.active, hp, hpool, inv.blocks⟩

theorem of_cacheFill (inv : TemplateInv env chain₀ n) {s' : State} (hf : n.state.CacheFill s') :
    TemplateInv env chain₀ { n with state := s' } :=
  inv.of_pool (inv.integrity.cacheFill hf) (inv.pool.of_cacheFill hf)

section steps

variable (hinj : Function.Injective env.serializeHash)
include hinj

theorem processBlock (inv : TemplateInv env chain₀ n) {block : Block} {pindex : BlockIndex}
    {fJustCheck fBLSChecks : Bool} {r : Except Failure Unit} {s' : State}
    (h : QuorumBlockProcessor.processBlock env n.chain n.state block pindex fJustCheck fBLSChecks =
      (r, s')) :
    PoolIntegrity env s' ∧ PoolIndexed env s' := by
  have hp : PoolIntegrity env (QuorumBlockProcessor.processBlock env n.chain n.state block pindex
    fJustCheck fBLSChecks).2 := inv.integrity.processBlock hinj _ _
  have hsub : (QuorumBlockProcessor.processBlock env n.chain n.state block pindex fJustCheck
    fBLSChecks).2.PoolSub n.state := processBlock_poolSub _
  rw [h] at hp hsub
  exact ⟨hp, inv.pool.of_poolSub hsub⟩

variable (hidx : env.VerifyIndexNonneg) (hne : chain₀ ≠ [])
include hidx hne

theorem chainStep {n' : Node} (inv : TemplateInv env chain₀ n) (h : ChainStep env n n') :
    TemplateInv env chain₀ n' := by
  cases h with
  | @connect chain connected s s' block fBLSChecks hindex _ h =>
    obtain ⟨hp, hpool⟩ := inv.processBlock hinj h
    have hblk := processBlock_blockIndexed hidx inv.active (inv.chain_ne hne) h
    rw [inv.chain_eq] at hblk
    refine ⟨?_, inv.active.snoc hindex, hp, hpool, blocksIndexed_snoc.2 ⟨inv.blocks, hblk⟩⟩
    have hc : chain = chain₀ ++ connected.map (·.1.hash) := inv.chain_eq
    simp [hc]
  | @disconnect chain connected s s' block fBLSChecks h =>
    have heq : chain = chain₀ ++ connected.map (·.1.hash) := List.append_cancel_right
      (by simpa only [List.map_append, List.map_singleton, ← List.append_assoc] using inv.chain_eq)
    obtain ⟨hblocks, hblk⟩ := blocksIndexed_snoc.1 inv.blocks
    have hp : PoolIntegrity env (undoBlock env s block (BlockIndex.child chain block.hash)).2 :=
      inv.integrity.undoBlock hinj _ _
    rw [h] at hp
    rw [← heq] at hblk
    exact ⟨heq, inv.active.of_snoc, hp, inv.pool.undoBlock hblk h, hblocks⟩

theorem step {n' : Node} (inv : TemplateInv env chain₀ n) (h : Step env n n') :
    TemplateInv env chain₀ n' := by
  cases h with
  | chain h => exact inv.chainStep hinj hidx hne h
  | check block pindex fBLSChecks h =>
    obtain ⟨hp, hpool⟩ := inv.processBlock hinj h
    exact inv.of_pool hp hpool
  | message qc =>
    exact inv.of_pool (inv.integrity.processMessage hinj qc) (inv.pool.processMessage n.chain qc)
  | hasMined t q => exact inv.of_cacheFill (hasMinedCommitment_cacheFill n.state t q)
  | numRequired p h =>
    exact inv.of_cacheFill (getNumCommitmentsRequired_cacheFill n.chain p h n.state)
  | mineable p h => exact inv.of_cacheFill (getMineableCommitments_cacheFill n.chain p h n.state)
  | evict k => exact inv.of_pool (inv.integrity.congr rfl rfl) inv.pool

/-- どの届くノードでも不変条件が成り立つ。失敗した `ProcessBlock` の後も、表は項目を失うだけ。 -/
theorem of_reachable (hact : env.ActiveChain chain₀) (h : Reachable env chain₀ n) :
    TemplateInv env chain₀ n := by
  induction h with
  | init => exact .init hact
  | step _ hs ih => exact ih.step hinj hidx hne hs
  | reject block pindex fJustCheck fBLSChecks e _ h ih =>
    obtain ⟨hp, hpool⟩ := ih.processBlock hinj h
    exact ih.of_pool (hp.congr rfl rfl) hpool

end steps

end TemplateInv

/-! ## ひな形と数の一致 -/

section slots

variable {chain : Chain} {llmqParams : LLMQParams}

theorem getElem?_of_getQuorumBlockHash_ne_zero {nHeight q : Nat}
    (hq : getQuorumBlockHash chain llmqParams nHeight q ≠ 0) :
    chain[nHeight - nHeight % llmqParams.dkgInterval + q]? =
      some (getQuorumBlockHash chain llmqParams nHeight q) := by
  rw [getQuorumBlockHash_natCast] at hq ⊢
  cases h : chain[nHeight - nHeight % llmqParams.dkgInterval + q]? with
  | none => rw [h] at hq; exact absurd rfl hq
  | some x => rfl

theorem requiredQuorumHashes_nodup (hact : env.ActiveChain chain) (nHeight : Nat)
    (view : LLMQType × Nat → Bool) :
    (requiredQuorumHashes env chain llmqParams nHeight view).Nodup := by
  unfold requiredQuorumHashes
  split
  · exact List.nodup_nil
  refine ((List.nodup_range _).filter _).map_on fun q hq q' hq' e => ?_
  simp only [List.mem_filter, RequiredSlot, Bool.and_eq_true, decide_eq_true_eq] at hq hq'
  have := hact.index_unique (getElem?_of_getQuorumBlockHash_ne_zero hq.2.1)
    (e ▸ getElem?_of_getQuorumBlockHash_ne_zero hq'.2.1)
  omega

theorem slot_base (hact : env.ActiveChain chain) {q : Nat}
    (hq : getQuorumBlockHash chain llmqParams chain.length q ≠ 0) :
    q < llmqParams.dkgInterval ∧ ∃ base,
      env.lookupBlockIndex (getQuorumBlockHash chain llmqParams chain.length q) = some base ∧
      base.nHeight = chain.length - chain.length % llmqParams.dkgInterval + q := by
  obtain ⟨hlt, hx⟩ := List.getElem?_eq_some_iff.1 (getElem?_of_getQuorumBlockHash_ne_zero hq)
  have hd := Nat.mod_lt chain.length llmqParams.dkgInterval_pos
  have hb := hact _ hlt
  rw [hx] at hb
  refine ⟨by omega, _, hb, ?_⟩
  simp only [BlockIndex.nHeight, List.length_take]
  omega

theorem SlotFill.quorumIndex_eq (hact : env.ActiveChain chain)
    {rotationEnabled basicBlsEnabled : Bool} {s : State} (hp : PoolIntegrity env s)
    (hpool : PoolIndexed env s) (hparams : env.getLLMQParams llmqParams.type = some llmqParams)
    {q : Nat} (hq16 : q < 32768) (hq : getQuorumBlockHash chain llmqParams chain.length q ≠ 0)
    {c : FinalCommitment}
    (h : SlotFill env chain llmqParams chain.length rotationEnabled basicBlsEnabled s q c) :
    c.quorumIndex = q := by
  have hslot := h.slot hp
  dsimp only [SlotFill] at h
  split at h
  · subst h
    exact toInt16_of_lt hq16
  · obtain ⟨p, base, hp', hb, hqi⟩ := hpool _ _ h
    rw [hslot.1, hparams, Option.some.injEq] at hp'
    subst hp'
    obtain ⟨hqd, base', hb', hbh⟩ := slot_base hact hq
    rw [hslot.2, hb', Option.some.injEq] at hb
    subst hb
    rw [hqi, hbh, cycle_offset_mod hqd]

end slots

/-- ひな形と数の一致。`SerializeHash` が単射で、`Verify` が負の `quorumIndex` を受け入れず、
始まりのチェーンが空でなく有効なら、届くどのノードでも、設定されたパラメータ（`signingActiveQuorumCount`
が `2^15` 以下）と先端の子の高さ `h` について：`GetNumCommitmentsRequired(h)` は `N` を返し、
`GetMineableCommitments(h)` は `N = 0` なら `nullopt`、そうでなければ `N` 個の列を返す。その
`quorumHash` の列は数えるクォーラムのハッシュの列（`HasMinedCommitment` で採掘されていない、null
でないもの）に等しく、互いに異なる。どのコミットメントも型が `llmqParams.type` で、
`GetQuorumBlockHash(h, quorumIndex)` が自分の `quorumHash` になり、`ProcessCommitment` の
`bad-qc-block` の確認を通る。 -/
theorem getMineableCommitments_matches_required (hinj : Function.Injective env.serializeHash)
    (hidx : env.VerifyIndexNonneg) {chain₀ : Chain} (hact : env.ActiveChain chain₀)
    (hne : chain₀ ≠ []) {n : Node} (hn : Reachable env chain₀ n) {llmqParams : LLMQParams}
    (hparams : env.getLLMQParams llmqParams.type = some llmqParams)
    (hq : llmqParams.signingActiveQuorumCount ≤ 32768) :
    ∃ N, (getNumCommitmentsRequired env n.chain llmqParams n.chain.length n.state).1 = .ok N ∧
      ((N = 0 ∧
          (getMineableCommitments env n.chain llmqParams n.chain.length n.state).1 = .ok none) ∨
        (N ≠ 0 ∧ ∃ l, (getMineableCommitments env n.chain llmqParams n.chain.length n.state).1 =
            .ok (some l) ∧ l.length = N ∧ countType l llmqParams.type = N ∧
          l.map (·.quorumHash) =
            requiredQuorumHashes env n.chain llmqParams n.chain.length n.state.minedView ∧
          (l.map (·.quorumHash)).Nodup ∧
          ∀ c ∈ l, getQuorumBlockHash n.chain llmqParams n.chain.length c.quorumIndex =
              c.quorumHash ∧ HashResolved env n.chain n.chain.length c llmqParams)) := by
  have inv := TemplateInv.of_reachable hinj hidx hne hact hn
  have hchain := inv.chain_ne hne
  obtain ⟨N, s₁, hN⟩ := getNumCommitmentsRequired_next hchain llmqParams n.state
  refine ⟨N, by rw [hN], ?_⟩
  rcases getMineableCommitments_spec inv.integrity inv.active.zero_not_mem hN with
    h | ⟨hN0, pindex, l, hpi, hl, rfl, hfa⟩
  · exact .inl h
  have hslot : ∀ c ∈ l, ∃ q, getQuorumBlockHash n.chain llmqParams n.chain.length q ≠ 0 ∧
      c.llmqType = llmqParams.type ∧
      c.quorumHash = getQuorumBlockHash n.chain llmqParams n.chain.length q ∧
      c.quorumIndex = q := by
    intro c hc
    obtain ⟨q, hqx, hqc⟩ := exists_of_forall₂_of_mem_right hfa hc
    simp only [List.mem_filter, List.mem_range, RequiredSlot, Bool.and_eq_true,
      decide_eq_true_eq] at hqx
    obtain ⟨hqn, hq0, -⟩ := hqx
    have hq16 : q < 32768 := by
      unfold quorumsNum at hqn
      split at hqn <;> omega
    exact ⟨q, hq0, (hqc.slot inv.integrity).1, (hqc.slot inv.integrity).2,
      hqc.quorumIndex_eq inv.active inv.integrity inv.pool hparams hq16 hq0⟩
  have hmap : l.map (·.quorumHash) =
      requiredQuorumHashes env n.chain llmqParams n.chain.length n.state.minedView := by
    have : List.Forall₂ (· = ·)
        (((List.range (quorumsNum env llmqParams pindex)).filter (RequiredSlot n.chain llmqParams
          n.chain.length n.state.minedView)).map
            fun q : Nat => getQuorumBlockHash n.chain llmqParams n.chain.length q)
        (l.map (·.quorumHash)) :=
      List.rel_map (fun _ _ h => (h.slot inv.integrity).2.symm) hfa
    rw [List.forall₂_eq_eq_eq] at this
    simp only [requiredQuorumHashes, hpi]
    exact this.symm
  refine .inr ⟨hN0, l, hl, rfl, ?_, hmap, ?_, fun c hc => ?_⟩
  · unfold countType
    rw [List.countP_eq_length]
    intro c hc
    obtain ⟨q, -, ht, -⟩ := hslot c hc
    simp [ht]
  · rw [hmap]
    exact requiredQuorumHashes_nodup inv.active _ _
  · obtain ⟨q, hq0, ht, hh, hi⟩ := hslot c hc
    have hr :
        getQuorumBlockHash n.chain llmqParams n.chain.length c.quorumIndex = c.quorumHash := by
      rw [hi, hh]
    exact ⟨hr, ⟨by rw [ht]; exact hparams, by simp [expectedQuorumHash, hchain, hr], hh ▸ hq0⟩⟩

/-- ネットワークからクォーラム 104 の 12 人が署名した候補を受け取ったノード。 -/
def pooledNode : Node :=
  { Node.init (demoChain 5) with
    state := (processMessage demoEnv (demoChain 5) State.empty (demoCommitment 104 0 12)).2 }

theorem getMineableCommitments_matches_required_demo :
    Function.Injective demoEnv.serializeHash ∧ demoEnv.VerifyIndexNonneg ∧
      demoEnv.ActiveChain (demoChain 5) ∧ demoChain 5 ≠ [] ∧
      Reachable demoEnv (demoChain 5) pooledNode ∧
      demoEnv.getLLMQParams demoParams.type = some demoParams ∧
      demoParams.signingActiveQuorumCount ≤ 32768 ∧
      ∃ N, (getNumCommitmentsRequired demoEnv pooledNode.chain demoParams pooledNode.chain.length
          pooledNode.state).1 = .ok N ∧
        ((N = 0 ∧ (getMineableCommitments demoEnv pooledNode.chain demoParams
            pooledNode.chain.length pooledNode.state).1 = .ok none) ∨
          (N ≠ 0 ∧ ∃ l, (getMineableCommitments demoEnv pooledNode.chain demoParams
              pooledNode.chain.length pooledNode.state).1 = .ok (some l) ∧
            l.length = N ∧ countType l demoParams.type = N ∧
            l.map (·.quorumHash) = requiredQuorumHashes demoEnv pooledNode.chain demoParams
              pooledNode.chain.length pooledNode.state.minedView ∧
            (l.map (·.quorumHash)).Nodup ∧
            ∀ c ∈ l, getQuorumBlockHash pooledNode.chain demoParams pooledNode.chain.length
                c.quorumIndex = c.quorumHash ∧
              HashResolved demoEnv pooledNode.chain pooledNode.chain.length c demoParams)) :=
  have hinj : Function.Injective demoEnv.serializeHash := FinalCommitment.encode_injective
  have hact : demoEnv.ActiveChain (demoChain 5) := demoChain_active _ (by decide)
  have hn : Reachable demoEnv (demoChain 5) pooledNode :=
    .step .init (.message (Node.init (demoChain 5)) (demoCommitment 104 0 12))
  ⟨hinj, demoEnv_verifyIndexNonneg, hact, by decide, hn, by decide, by decide,
    getMineableCommitments_matches_required hinj demoEnv_verifyIndexNonneg hact (by decide) hn
      (by decide) (by decide)⟩

/-! ### 合わない二つの場合 -/

/-- 高さ 7 のブロック：クォーラム 104 と 105 の null のコミットメント。 -/
def nullPairBlock : Block := ⟨107, [demoTx 7 (demoNull 104 0), demoTx 7 (demoNull 105 1)]⟩

/-- 高さ 8 の、コミットメントのないブロック。 -/
def emptyBlock : Block := ⟨108, []⟩

/-- 高さ 9 のブロック：前の周期のクォーラム 105 のコミットメントを `quorumIndex` -3 で持つ。 -/
def lateNegBlock : Block := ⟨109, [demoTx 9 (demoCommitment 105 (-3) 12)]⟩

/-- `demoVerifyAnyIndex` の構成で、チェーン 100..106 に三つのブロックをつないだ状態。 -/
def lateNegConnected : State :=
  (processBlock (demoEnvWith demoVerifyAnyIndex) (demoChain 6 ++ [107] ++ [108])
    (processBlock (demoEnvWith demoVerifyAnyIndex) (demoChain 6 ++ [107])
      (processBlock (demoEnvWith demoVerifyAnyIndex) (demoChain 6) State.empty nullPairBlock
        (BlockIndex.child (demoChain 6) 107) false true).2
      emptyBlock (BlockIndex.child (demoChain 6 ++ [107]) 108) false true).2
    lateNegBlock (BlockIndex.child (demoChain 6 ++ [107] ++ [108]) 109) false true).2

/-- 三つのブロックを切り離して、チェーン 100..106 に戻った状態。 -/
def lateNegUndone : State :=
  (undoBlock (demoEnvWith demoVerifyAnyIndex)
    (undoBlock (demoEnvWith demoVerifyAnyIndex)
      (undoBlock (demoEnvWith demoVerifyAnyIndex) lateNegConnected lateNegBlock
        (BlockIndex.child (demoChain 6 ++ [107] ++ [108]) 109)).2
      emptyBlock (BlockIndex.child (demoChain 6 ++ [107]) 108)).2
    nullPairBlock (BlockIndex.child (demoChain 6) 107)).2

theorem lateNegUndone_reachable :
    Reachable (demoEnvWith demoVerifyAnyIndex) (demoChain 6) ⟨demoChain 6, [], lateNegUndone⟩ :=
  .step (.step (.step (.step (.step (.step .init
    (.chain (.connect nullPairBlock true (by decide) (by decide) (Prod.ext (by decide) rfl))))
    (.chain (.connect emptyBlock true (by decide) (by decide) (Prod.ext (by decide) rfl))))
    (.chain (.connect lateNegBlock true (by decide) (by decide) (Prod.ext (by decide) rfl))))
    (.chain (.disconnect lateNegBlock true (Prod.ext (by decide) rfl))))
    (.chain (.disconnect emptyBlock true (Prod.ext (by decide) rfl))))
    (.chain (.disconnect nullPairBlock true (Prod.ext (by decide) rfl)))

/-- `Verify` が負の `quorumIndex` を受け入れると、切り離したブロックから表に戻った候補が、
ひな形で別のクォーラムの位置を指す。 -/
theorem lateNegUndone_template :
    (getMineableCommitments (demoEnvWith demoVerifyAnyIndex) (demoChain 6) demoParams 7
        lateNegUndone).1 = .ok (some [demoNull 104 0, demoCommitment 105 (-3) 12]) ∧
      getQuorumBlockHash (demoChain 6) demoParams 7 (-3) = 101 ∧
      (processBlock (demoEnvWith demoVerifyAnyIndex) (demoChain 6) lateNegUndone
        ⟨107, [demoTx 7 (demoNull 104 0), demoTx 7 (demoCommitment 105 (-3) 12)]⟩
        (BlockIndex.child (demoChain 6) 107) false true).1 = .error (.invalid "bad-qc-block") := by
  decide

/-- 周期 65536 で、採掘の窓が周期の始めから 1 から 65535、回転のときのクォーラムが 32769 の型 2。 -/
def wideParams : LLMQParams := ⟨2, 12, 65536, 1, 65535, 32769, by decide⟩

/-- `wideParams` だけを持ち、ブロックを高さ 40000 まで引け、回転がどこでも有効な構成。 -/
def wideEnv : Env :=
  { demoEnv with
    llmqs := [wideParams]
    llmqs_nodup := by decide
    lookupBlockIndex := fun h =>
      if 100 ≤ h ∧ h ≤ 40100 then some (demoBlockIndex (h - 100)) else none
    lookup_null := by decide
    lookup_hash := fun h b hb => by
      simp only at hb
      split at hb
      · cases hb
        simp [demoBlockIndex, BlockIndex.getBlockHash, List.range_succ]
        omega
      · cases hb
    isQuorumRotationEnabled := fun _ _ => true }

theorem wideChain_active : wideEnv.ActiveChain (demoChain 32769) :=
  demoChain_active_of_lookup fun i hi => by
    simp only [wideEnv]
    rw [if_pos (by omega), Nat.add_sub_cancel]

theorem wide_getQuorumBlockHash {q : Nat} (hq : q < 32770) :
    getQuorumBlockHash (demoChain 32769) wideParams 32770 q = q + 100 := by
  rw [getQuorumBlockHash_natCast,
    show 32770 - 32770 % wideParams.dkgInterval + q = q by simp [wideParams]]
  simp [demoChain, hq]

/-- `signingActiveQuorumCount` が 32769 なら、高さ 32770 のひな形はクォーラム 32768 に
`quorumIndex` が `int16_t` で -32768 になった null のコミットメントを入れ、`GetQuorumBlockHash` は
そこで null になる。 -/
theorem wideTemplate_wraps :
    ∃ l, (getMineableCommitments wideEnv (demoChain 32769) wideParams 32770 State.empty).1 =
        .ok (some l) ∧
      ∃ c ∈ l, c.quorumIndex = -32768 ∧ c.quorumHash = 32868 ∧
        getQuorumBlockHash (demoChain 32769) wideParams 32770 c.quorumIndex = 0 := by
  have hlen : (demoChain 32769).length = 32770 := by simp [demoChain]
  have hreq : ∀ q < 32769,
      RequiredSlot (demoChain 32769) wideParams 32770 State.empty.minedView q = true := by
    intro q hq
    simp [RequiredSlot, wide_getQuorumBlockHash (show q < 32770 by omega), State.minedView,
      State.empty, EvoDb.empty]
  have hmem : ∀ pindex, 32768 ∈ (List.range (quorumsNum wideEnv wideParams pindex)).filter
      (RequiredSlot (demoChain 32769) wideParams 32770 State.empty.minedView) := fun _ =>
    List.mem_filter.2 ⟨List.mem_range.2 (by simp [quorumsNum, wideEnv, wideParams]),
      hreq 32768 (by decide)⟩
  obtain ⟨N, s₁, hN⟩ : ∃ N s₁, getNumCommitmentsRequired wideEnv (demoChain 32769) wideParams
      (demoChain 32769).length State.empty = (.ok N, s₁) :=
    getNumCommitmentsRequired_next (by simp [demoChain]) wideParams State.empty
  rw [hlen] at hN
  rcases getMineableCommitments_spec PoolIntegrity.empty wideChain_active.zero_not_mem hN with
    ⟨rfl, -⟩ | ⟨-, pindex, l, -, hl, -, hfa⟩
  · obtain ⟨-, ⟨hm, -⟩ | ⟨-, pindex, -, hN0⟩⟩ := getNumCommitmentsRequired_spec hN
    · simp [isMiningPhase, Chain.height, hlen, wideParams] at hm
    · exact absurd hN0.symm (List.length_pos_of_mem (hmem pindex)).ne'
  obtain ⟨c, hc, hfill⟩ := exists_of_forall₂_of_mem_left hfa (hmem pindex)
  dsimp only [SlotFill, State.empty] at hfill
  subst hfill
  refine ⟨_, hl, _, hc, show toInt16 32768 = -32768 by decide, ?_, ?_⟩
  · dsimp only [FinalCommitment.ofParams]
    rw [wide_getQuorumBlockHash (show 32768 < 32770 by decide)]
  · show getQuorumBlockHash (demoChain 32769) wideParams 32770 (toInt16 32768) = 0
    simp [getQuorumBlockHash, Chain.getBlockHash, wideParams, toInt16]

/-- `GetMineableCommitments` が `GetQuorumBlockHash` と合わない二つの場合。

`Verify` が負の `quorumIndex` を受け入れると（`demoVerifyAnyIndex`）、チェーン 100..106 に
つないだ高さ 9 のブロックはクォーラム 105 のコミットメントを `quorumIndex` -3（周期の始め 8 から
-3）で持てる。三つのブロックを切り離すと、`UndoBlock` がそれを表に戻し、高さ 7 のひな形は
クォーラム 105 にこの候補を入れる。高さ 7 の周期の始め 4 から -3 はクォーラム 101 で、ひな形の
ブロックは `bad-qc-block` で拒まれる。

`signingActiveQuorumCount` が 32769 なら、チェーン 100..32869 の上の高さ 32770 のひな形は、
クォーラム 32768 に `quorumIndex` が -32768 の null のコミットメントを入れ、`GetQuorumBlockHash` は
そこで null になる。どちらでも、他の前提（`SerializeHash` の単射、有効なチェーン、設定された
パラメータ）は成り立つ。 -/
theorem getMineableCommitments_index_mismatch :
    Function.Injective (demoEnvWith demoVerifyAnyIndex).serializeHash ∧
      (demoEnvWith demoVerifyAnyIndex).ActiveChain (demoChain 6) ∧
      (demoEnvWith demoVerifyAnyIndex).getLLMQParams demoParams.type = some demoParams ∧
      Reachable (demoEnvWith demoVerifyAnyIndex) (demoChain 6) ⟨demoChain 6, [], lateNegUndone⟩ ∧
      (getMineableCommitments (demoEnvWith demoVerifyAnyIndex) (demoChain 6) demoParams 7
        lateNegUndone).1 = .ok (some [demoNull 104 0, demoCommitment 105 (-3) 12]) ∧
      getQuorumBlockHash (demoChain 6) demoParams 7 (-3) = 101 ∧
      (processBlock (demoEnvWith demoVerifyAnyIndex) (demoChain 6) lateNegUndone
        ⟨107, [demoTx 7 (demoNull 104 0), demoTx 7 (demoCommitment 105 (-3) 12)]⟩
        (BlockIndex.child (demoChain 6) 107) false true).1 = .error (.invalid "bad-qc-block") ∧
      Function.Injective wideEnv.serializeHash ∧ wideEnv.VerifyIndexNonneg ∧
      wideEnv.ActiveChain (demoChain 32769) ∧
      wideEnv.getLLMQParams wideParams.type = some wideParams ∧
      Reachable wideEnv (demoChain 32769) (Node.init (demoChain 32769)) ∧
      ∃ l, (getMineableCommitments wideEnv (demoChain 32769) wideParams 32770 State.empty).1 =
          .ok (some l) ∧
        ∃ c ∈ l, c.quorumIndex = -32768 ∧ c.quorumHash = 32868 ∧
          getQuorumBlockHash (demoChain 32769) wideParams 32770 c.quorumIndex = 0 :=
  ⟨FinalCommitment.encode_injective, demoChain_active _ (by decide), by decide,
    lateNegUndone_reachable, lateNegUndone_template.1, lateNegUndone_template.2.1,
    lateNegUndone_template.2.2, FinalCommitment.encode_injective, demoEnv_verifyIndexNonneg,
    wideChain_active, by decide, .init, wideTemplate_wraps⟩

end QuorumBlockProcessor
