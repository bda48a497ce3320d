import QuorumBlockProcessor.State

/-!
# 周期とクォーラムの数

`IsMiningPhase`、`GetQuorumBlockHash`、`GetNumCommitmentsRequired`。問い合わせは状態を
キャッシュを埋めることでしか変えない（`State.CacheFill`）。
-/

namespace QuorumBlockProcessor

/-! ## キャッシュを埋めるだけの変化 -/

/-- `s'` は `s` のキャッシュを、`HasMinedCommitment` の返す値で埋めただけのもの。 -/
structure State.CacheFill (s s' : State) : Prop where
  evoDb : s'.evoDb = s.evoDb
  byQuorum : s'.minableCommitmentsByQuorum = s.minableCommitmentsByQuorum
  minable : s'.minableCommitments = s.minableCommitments
  minedView : s'.minedView = s.minedView
  coherent : s.CacheCoherent → s'.CacheCoherent

namespace State.CacheFill

theorem refl (s : State) : CacheFill s s := ⟨rfl, rfl, rfl, rfl, id⟩

theorem trans {s₁ s₂ s₃ : State} (h₁ : CacheFill s₁ s₂) (h₂ : CacheFill s₂ s₃) :
    CacheFill s₁ s₃ :=
  ⟨h₂.evoDb.trans h₁.evoDb, h₂.byQuorum.trans h₁.byQuorum, h₂.minable.trans h₁.minable,
    h₂.minedView.trans h₁.minedView, h₂.coherent ∘ h₁.coherent⟩

theorem pool {s s' : State} (h : CacheFill s s') : s'.pool = s.pool := by
  simp [State.pool, h.byQuorum, h.minable]

end State.CacheFill

theorem hasMinedCommitment_cacheFill (s : State) (t : LLMQType) (h : Nat) :
    s.CacheFill (hasMinedCommitment s t h).2 :=
  ⟨by simp, by simp, by simp, by simp, hasMinedCommitment_coherent t h⟩

/-! ## 周期 -/

/-- `IsMiningPhase(llmqParams, nHeight)`：周期の採掘の窓にあるか。
`nHeight <= ChainActive().Height() + 1` を assert する。 -/
def isMiningPhase (chain : Chain) (llmqParams : LLMQParams) (nHeight : Nat) : Except Failure Bool :=
  if (nHeight : Int) ≤ chain.height + 1 then
    let quorumCycleStartHeight := nHeight - nHeight % llmqParams.dkgInterval
    let quorumCycleMiningStartHeight := quorumCycleStartHeight + llmqParams.dkgMiningWindowStart
    let quorumCycleMiningEndHeight := quorumCycleStartHeight + llmqParams.dkgMiningWindowEnd
    .ok (decide (quorumCycleMiningStartHeight ≤ nHeight ∧ nHeight ≤ quorumCycleMiningEndHeight))
  else .error .assertion

/-- `GetQuorumBlockHash(llmqParams, nHeight, quorumIndex)`：周期の始めから `quorumIndex` 先の
ブロックのハッシュ。まだ届かないときは null。 -/
def getQuorumBlockHash (chain : Chain) (llmqParams : LLMQParams) (nHeight : Nat)
    (quorumIndex : Int) : Nat :=
  let quorumStartHeight : Int := (nHeight - nHeight % llmqParams.dkgInterval : Nat) + quorumIndex
  (chain.getBlockHash quorumStartHeight).getD 0

/-- `ChainActive().Height() < nHeight ? Tip() : Tip()->GetAncestor(nHeight)`。 -/
def Chain.blockForHeight (chain : Chain) (nHeight : Nat) : Option BlockIndex :=
  if chain.height < nHeight then chain.tip else chain.tip.bind (·.getAncestor nHeight)

/-- `rotation_enabled ? signingActiveQuorumCount : 1`。 -/
def quorumsNum (env : Env) (llmqParams : LLMQParams) (pindex : BlockIndex) : Nat :=
  if env.isQuorumRotationEnabled llmqParams pindex then llmqParams.signingActiveQuorumCount else 1

/-- `GetNumCommitmentsRequired` のループ。ハッシュが null でなく、採掘されていないものを数える。 -/
def countRequired (chain : Chain) (llmqParams : LLMQParams) (nHeight : Nat) :
    List Nat → Nat → State → Nat × State
  | [], ret, s => (ret, s)
  | quorumIndex :: rest, ret, s =>
    let quorumHash := getQuorumBlockHash chain llmqParams nHeight quorumIndex
    if quorumHash = 0 then countRequired chain llmqParams nHeight rest ret s
    else
      let r := hasMinedCommitment s llmqParams.type quorumHash
      countRequired chain llmqParams nHeight rest (if r.1 then ret else ret + 1) r.2

/-- `GetNumCommitmentsRequired(llmqParams, nHeight)`。二度目の同じ assert は一度目から従うので
書かない。`Tip()` が null なら参照で止まる。 -/
def getNumCommitmentsRequired (env : Env) (chain : Chain) (llmqParams : LLMQParams)
    (nHeight : Nat) (s : State) : Except Failure Nat × State :=
  match isMiningPhase chain llmqParams nHeight with
  | .error e => (.error e, s)
  | .ok false => (.ok 0, s)
  | .ok true =>
    match chain.blockForHeight nHeight with
    | none => (.error .assertion, s)
    | some pindex =>
      let r := countRequired chain llmqParams nHeight
        (List.range (quorumsNum env llmqParams pindex)) 0 s
      (.ok r.1, r.2)

/-! ## 仕様の補題 -/

/-- 数えるクォーラム：ハッシュが null でなく、`view` で採掘されていない。 -/
def RequiredSlot (chain : Chain) (llmqParams : LLMQParams) (nHeight : Nat)
    (view : LLMQType × Nat → Bool) (quorumIndex : Nat) : Bool :=
  getQuorumBlockHash chain llmqParams nHeight quorumIndex ≠ 0 &&
    !view (llmqParams.type, getQuorumBlockHash chain llmqParams nHeight quorumIndex)

/-- 高さ `nHeight` で求められるクォーラムのハッシュ：`quorumIndex < quorums_num` のうち、
ハッシュが null でなく、`view` で採掘されていないもの。 -/
def requiredQuorumHashes (env : Env) (chain : Chain) (llmqParams : LLMQParams) (nHeight : Nat)
    (view : LLMQType × Nat → Bool) : List Nat :=
  match chain.blockForHeight nHeight with
  | none => []
  | some pindex =>
    ((List.range (quorumsNum env llmqParams pindex)).filter
      (RequiredSlot chain llmqParams nHeight view)).map
        fun quorumIndex : Nat => getQuorumBlockHash chain llmqParams nHeight quorumIndex

section countRequired

variable {chain : Chain} {llmqParams : LLMQParams} {nHeight : Nat}

theorem countRequired_spec (qs : List Nat) (ret : Nat) (s : State) :
    (countRequired chain llmqParams nHeight qs ret s).1 =
        ret + (qs.filter (RequiredSlot chain llmqParams nHeight s.minedView)).length ∧
      s.CacheFill (countRequired chain llmqParams nHeight qs ret s).2 := by
  induction qs generalizing ret s with
  | nil => exact ⟨rfl, .refl s⟩
  | cons q qs ih =>
    simp only [countRequired]
    split
    · rename_i h0
      obtain ⟨h1, h2⟩ := ih ret s
      refine ⟨?_, h2⟩
      simp [h1, List.filter_cons, RequiredSlot, h0]
    · rename_i h0
      have hf := hasMinedCommitment_cacheFill s llmqParams.type
        (getQuorumBlockHash chain llmqParams nHeight q)
      obtain ⟨h1, h2⟩ := ih _ (hasMinedCommitment s llmqParams.type _).2
      refine ⟨?_, hf.trans h2⟩
      rw [h1, hf.minedView]
      cases hv : s.minedView (llmqParams.type, getQuorumBlockHash chain llmqParams nHeight q) <;>
        simp [List.filter_cons, RequiredSlot, h0, hv]
      omega

end countRequired

/-- `GetNumCommitmentsRequired` は、採掘の窓の中では数えるクォーラムの数を返し、
キャッシュを埋めるだけ。 -/
theorem getNumCommitmentsRequired_spec {env : Env} {chain : Chain} {llmqParams : LLMQParams}
    {nHeight : Nat} {s s' : State} {n : Nat}
    (h : getNumCommitmentsRequired env chain llmqParams nHeight s = (.ok n, s')) :
    s.CacheFill s' ∧
      ((isMiningPhase chain llmqParams nHeight = .ok false ∧ n = 0) ∨
        (isMiningPhase chain llmqParams nHeight = .ok true ∧
          ∃ pindex, chain.blockForHeight nHeight = some pindex ∧
            n = ((List.range (quorumsNum env llmqParams pindex)).filter
              (RequiredSlot chain llmqParams nHeight s.minedView)).length)) := by
  unfold getNumCommitmentsRequired at h
  split at h
  · cases h
  · cases h; exact ⟨.refl s, .inl ⟨‹_›, rfl⟩⟩
  · rename_i hm
    split at h
    · cases h
    · rename_i pindex hp
      simp only [Prod.mk.injEq, Except.ok.injEq] at h
      obtain ⟨rfl, rfl⟩ := h
      obtain ⟨h1, h2⟩ : _ ∧ s.CacheFill (countRequired chain llmqParams nHeight
          (List.range (quorumsNum env llmqParams pindex)) 0 s).2 := countRequired_spec _ 0 s
      exact ⟨h2, .inr ⟨hm, pindex, hp, by simpa using h1⟩⟩

end QuorumBlockProcessor
