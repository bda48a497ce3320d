import QuorumBlockProcessor.Lemmas.Block

/-!
# つなぎ直し

`ProcessBlock` の結果は evoDb の三つの表と `HasMinedCommitment` の答え（`SameView`）だけで決まり
（`processBlock_congr`）、書き込みと消去が触るキーは `processBlock_frame` と `undoBlock_frame` が
与える。回転は `ProcessCommitment` が基のブロックで、`UndoBlock` が採掘したブロックで評価し、
`quorumIndex` が負でなければ一致する。
-/

namespace QuorumBlockProcessor

variable {env : Env}

/-! ## 読まれるもの -/

/-- 二つの状態の evoDb の三つの表と `HasMinedCommitment` の答えが等しい。 -/
structure State.SameView (s r : State) : Prop where
  mined : s.evoDb.minedCommitment = r.evoDb.minedCommitment
  flat : s.evoDb.minedByInversedHeight = r.evoDb.minedByInversedHeight
  indexed : s.evoDb.minedByInversedHeightIndexed = r.evoDb.minedByInversedHeightIndexed
  minedView : s.minedView = r.minedView

namespace State.SameView

theorem symm {s r : State} (h : s.SameView r) : r.SameView s :=
  ⟨h.mined.symm, h.flat.symm, h.indexed.symm, h.minedView.symm⟩

theorem trans {s₁ s₂ s₃ : State} (h₁ : s₁.SameView s₂) (h₂ : s₂.SameView s₃) : s₁.SameView s₃ :=
  ⟨h₁.mined.trans h₂.mined, h₁.flat.trans h₂.flat, h₁.indexed.trans h₂.indexed,
    h₁.minedView.trans h₂.minedView⟩

theorem setBestBlockUpgrade {s r : State} (h : s.SameView r) (a b : Nat) :
    (s.setBestBlockUpgrade a).SameView (r.setBestBlockUpgrade b) :=
  ⟨h.mined, h.flat, h.indexed, h.minedView⟩

theorem commitToStore {s r : State} (h : s.SameView r) {llmqParams : LLMQParams}
    {nHeight blockHash : Nat} {qc : FinalCommitment} {base : BlockIndex}
    (htype : llmqParams.type = qc.llmqType) :
    (QuorumBlockProcessor.commitToStore env s llmqParams nHeight blockHash qc qc.quorumHash
      base).SameView
      (QuorumBlockProcessor.commitToStore env r llmqParams nHeight blockHash qc qc.quorumHash
        base) := by
  refine ⟨?_, ?_, ?_, ?_⟩
  · simp [QuorumBlockProcessor.commitToStore, h.mined]
  · simp [QuorumBlockProcessor.commitToStore, h.flat]
  · simp [QuorumBlockProcessor.commitToStore, h.indexed]
  · rw [commitToStore_minedView _ htype, commitToStore_minedView _ htype, h.minedView]

end State.SameView

theorem State.CacheFill.sameView {s s' : State} (h : s.CacheFill s') : s'.SameView s :=
  ⟨by rw [h.evoDb], by rw [h.evoDb], by rw [h.evoDb], h.minedView⟩

section congr

variable {chain : Chain} {nHeight blockHash : Nat} {fJustCheck fBLSChecks : Bool}

theorem processCommitment_congr {s r : State} {qc : FinalCommitment} (h : s.SameView r) :
    (processCommitment env chain s nHeight blockHash qc fJustCheck fBLSChecks).1 =
        (processCommitment env chain r nHeight blockHash qc fJustCheck fBLSChecks).1 ∧
      (processCommitment env chain s nHeight blockHash qc fJustCheck fBLSChecks).2.SameView
        (processCommitment env chain r nHeight blockHash qc fJustCheck fBLSChecks).2 := by
  have h₁ : ∀ t q, (hasMinedCommitment s t q).2.SameView (hasMinedCommitment r t q).2 :=
    fun t q => (hasMinedCommitment_cacheFill s t q).sameView.trans
      (h.trans (hasMinedCommitment_cacheFill r t q).sameView.symm)
  unfold processCommitment
  cases hp : env.getLLMQParams qc.llmqType with
  | none => exact ⟨rfl, h⟩
  | some p =>
  dsimp only
  simp only [hasMinedCommitment_fst, h.minedView]
  by_cases h0 : expectedQuorumHash chain p nHeight qc = 0
  · rw [if_pos h0, if_pos h0]; exact ⟨rfl, h⟩
  rw [if_neg h0, if_neg h0]
  by_cases hq : expectedQuorumHash chain p nHeight qc ≠ qc.quorumHash
  · rw [if_pos hq, if_pos hq]; exact ⟨rfl, h⟩
  rw [if_neg hq, if_neg hq, not_not.1 hq]
  repeat' split
  all_goals first
    | with_reducible exact ⟨rfl, h⟩
    | with_reducible exact ⟨rfl, h₁ _ _⟩
    | exact ⟨rfl, (h₁ _ _).commitToStore (Env.getLLMQParams_type hp)⟩

theorem processCommitments_congr : ∀ (qcs : List FinalCommitment) {s r : State}, s.SameView r →
    (processCommitments env chain nHeight blockHash fJustCheck fBLSChecks qcs s).1 =
        (processCommitments env chain nHeight blockHash fJustCheck fBLSChecks qcs r).1 ∧
      (processCommitments env chain nHeight blockHash fJustCheck fBLSChecks qcs s).2.SameView
        (processCommitments env chain nHeight blockHash fJustCheck fBLSChecks qcs r).2
  | [], _, _, h => ⟨rfl, h⟩
  | qc :: qcs, s, r, h => by
    have hc : (processCommitment env chain s nHeight blockHash qc fJustCheck fBLSChecks).1 =
          (processCommitment env chain r nHeight blockHash qc fJustCheck fBLSChecks).1 ∧
        (processCommitment env chain s nHeight blockHash qc fJustCheck fBLSChecks).2.SameView
          (processCommitment env chain r nHeight blockHash qc fJustCheck fBLSChecks).2 :=
      processCommitment_congr h
    unfold processCommitments
    generalize processCommitment env chain s nHeight blockHash qc fJustCheck fBLSChecks = x at hc ⊢
    generalize processCommitment env chain r nHeight blockHash qc fJustCheck fBLSChecks = y at hc ⊢
    rcases x with ⟨a, s₁⟩
    rcases y with ⟨b, r₁⟩
    obtain ⟨rfl, hc⟩ := hc
    rcases a with e | ⟨⟩
    · exact ⟨rfl, hc⟩
    · exact processCommitments_congr qcs hc

theorem checkCommitmentCounts_congr {qcs : List FinalCommitment} :
    ∀ (ps : List LLMQParams) {s r : State}, s.SameView r →
      (checkCommitmentCounts env chain nHeight qcs ps s).1 =
          (checkCommitmentCounts env chain nHeight qcs ps r).1 ∧
        (checkCommitmentCounts env chain nHeight qcs ps s).2.SameView
          (checkCommitmentCounts env chain nHeight qcs ps r).2
  | [], _, _, h => ⟨rfl, h⟩
  | p :: ps, s, r, h => by
    have hn : (getNumCommitmentsRequired env chain p nHeight s).1 =
        (getNumCommitmentsRequired env chain p nHeight r).1 :=
      getNumCommitmentsRequired_fst_congr h.minedView
    have hs : (getNumCommitmentsRequired env chain p nHeight s).2.SameView s :=
      (getNumCommitmentsRequired_cacheFill chain p nHeight s).sameView
    have hr : (getNumCommitmentsRequired env chain p nHeight r).2.SameView r :=
      (getNumCommitmentsRequired_cacheFill chain p nHeight r).sameView
    unfold checkCommitmentCounts
    split_ifs
    · exact ⟨rfl, h⟩
    generalize getNumCommitmentsRequired env chain p nHeight s = x at hn hs ⊢
    generalize getNumCommitmentsRequired env chain p nHeight r = y at hn hr ⊢
    rcases x with ⟨a, s₁⟩
    rcases y with ⟨b, r₁⟩
    obtain rfl : a = b := hn
    have h₁ : s₁.SameView r₁ := hs.trans (h.trans hr.symm)
    rcases a with e | n
    · exact ⟨rfl, h₁⟩
    · dsimp only
      split_ifs
      · exact ⟨rfl, h₁⟩
      · exact ⟨rfl, h₁⟩
      · exact checkCommitmentCounts_congr ps h₁

/-- `ProcessBlock` の結果は `SameView` で決まる：表とキャッシュの中身は読まない。 -/
theorem processBlock_congr {s r : State} {block : Block} {pindex : BlockIndex} (h : s.SameView r) :
    (processBlock env chain s block pindex fJustCheck fBLSChecks).1 =
        (processBlock env chain r block pindex fJustCheck fBLSChecks).1 ∧
      (processBlock env chain s block pindex fJustCheck fBLSChecks).2.SameView
        (processBlock env chain r block pindex fJustCheck fBLSChecks).2 := by
  dsimp only [processBlock]
  split
  · exact ⟨rfl, h.setBestBlockUpgrade _ _⟩
  split
  · exact ⟨rfl, h⟩
  rename_i qcs _
  have hc : (checkCommitmentCounts env chain pindex.nHeight qcs
        (env.getEnabledQuorumParams pindex.pprev) s).1 =
      (checkCommitmentCounts env chain pindex.nHeight qcs
        (env.getEnabledQuorumParams pindex.pprev) r).1 ∧
      (checkCommitmentCounts env chain pindex.nHeight qcs
        (env.getEnabledQuorumParams pindex.pprev) s).2.SameView
      (checkCommitmentCounts env chain pindex.nHeight qcs
        (env.getEnabledQuorumParams pindex.pprev) r).2 := checkCommitmentCounts_congr _ h
  generalize checkCommitmentCounts env chain pindex.nHeight qcs
    (env.getEnabledQuorumParams pindex.pprev) s = x at hc ⊢
  generalize checkCommitmentCounts env chain pindex.nHeight qcs
    (env.getEnabledQuorumParams pindex.pprev) r = y at hc ⊢
  rcases x with ⟨a, s₁⟩
  rcases y with ⟨b, r₁⟩
  obtain ⟨rfl, hc⟩ := hc
  rcases a with e | ⟨⟩
  · exact ⟨rfl, hc⟩
  have hp :
      (processCommitments env chain pindex.nHeight block.hash fJustCheck fBLSChecks qcs s₁).1 =
        (processCommitments env chain pindex.nHeight block.hash fJustCheck fBLSChecks qcs r₁).1 ∧
      (processCommitments env chain pindex.nHeight block.hash fJustCheck fBLSChecks qcs
        s₁).2.SameView
        (processCommitments env chain pindex.nHeight block.hash fJustCheck fBLSChecks qcs r₁).2 :=
    processCommitments_congr qcs hc
  dsimp only
  generalize processCommitments env chain pindex.nHeight block.hash fJustCheck fBLSChecks qcs s₁ = x
    at hp ⊢
  generalize processCommitments env chain pindex.nHeight block.hash fJustCheck fBLSChecks qcs r₁ = y
    at hp ⊢
  rcases x with ⟨a, s₂⟩
  rcases y with ⟨b, r₂⟩
  obtain ⟨rfl, hp⟩ := hp
  rcases a with e | ⟨⟩
  · exact ⟨rfl, hp⟩
  · exact ⟨rfl, hp.setBestBlockUpgrade _ _⟩

end congr

/-! ## 書き込みと消去が触るキー -/

/-- `ProcessCommitment` が使う回転：基のブロックで評価する。 -/
def rotationAtBase (env : Env) (qc : FinalCommitment) : Bool :=
  match env.getLLMQParams qc.llmqType, env.lookupBlockIndex qc.quorumHash with
  | some p, some base => env.isQuorumRotationEnabled p base
  | _, _ => false

/-- `UndoBlock` が使う回転：採掘したブロック `pindex` で評価する。 -/
def rotationAt (env : Env) (pindex : BlockIndex) (qc : FinalCommitment) : Bool :=
  match env.getLLMQParams qc.llmqType with
  | some p => env.isQuorumRotationEnabled p pindex
  | none => false

/-- 高さ `nHeight` のブロックの null でないコミットメントのうち、回転 `rot` が偽のものの
平らな索引のキー。 -/
def flatKeysOf (env : Env) (qcs : List FinalCommitment) (nHeight : Nat)
    (rot : FinalCommitment → Bool) : List (LLMQType × Nat) :=
  (qcs.filter fun qc => !env.isNull qc && !rot qc).map
    fun qc => buildInversedHeightKey qc.llmqType nHeight

/-- 回転 `rot` が真のものの、番号つきの索引のキー。 -/
def indexedKeysOf (env : Env) (qcs : List FinalCommitment) (nHeight : Nat)
    (rot : FinalCommitment → Bool) : List (LLMQType × Int × Nat) :=
  (qcs.filter fun qc => !env.isNull qc && rot qc).map
    fun qc => buildInversedHeightKeyIndexed qc.llmqType nHeight qc.quorumIndex

section keys

variable (env) (l₁ l₂ : List FinalCommitment) (nHeight : Nat) (rot : FinalCommitment → Bool)

@[simp] theorem slotsOf_append : slotsOf env (l₁ ++ l₂) = slotsOf env l₁ ++ slotsOf env l₂ := by
  simp [slotsOf]

@[simp] theorem flatKeysOf_append :
    flatKeysOf env (l₁ ++ l₂) nHeight rot =
      flatKeysOf env l₁ nHeight rot ++ flatKeysOf env l₂ nHeight rot := by
  simp [flatKeysOf]

@[simp] theorem indexedKeysOf_append :
    indexedKeysOf env (l₁ ++ l₂) nHeight rot =
      indexedKeysOf env l₁ nHeight rot ++ indexedKeysOf env l₂ nHeight rot := by
  simp [indexedKeysOf]

theorem flatKeysOf_congr {rot rot' : FinalCommitment → Bool}
    (h : ∀ qc ∈ l₁, env.isNull qc = false → rot qc = rot' qc) :
    flatKeysOf env l₁ nHeight rot = flatKeysOf env l₁ nHeight rot' := by
  unfold flatKeysOf
  congr 1
  refine List.filter_congr fun qc hqc => ?_
  cases hn : env.isNull qc <;> simp [hn, h qc hqc]

theorem indexedKeysOf_congr {rot rot' : FinalCommitment → Bool}
    (h : ∀ qc ∈ l₁, env.isNull qc = false → rot qc = rot' qc) :
    indexedKeysOf env l₁ nHeight rot = indexedKeysOf env l₁ nHeight rot' := by
  unfold indexedKeysOf
  congr 1
  refine List.filter_congr fun qc hqc => ?_
  cases hn : env.isNull qc <;> simp [hn, h qc hqc]

variable {env} {qc : FinalCommitment}

theorem slotsOf_singleton (h : env.isNull qc = false) :
    slotsOf env [qc] = [(qc.llmqType, qc.quorumHash)] := by
  simp [slotsOf, h]

theorem flatKeysOf_singleton (h : env.isNull qc = false) :
    flatKeysOf env [qc] nHeight rot =
      if rot qc then [] else [buildInversedHeightKey qc.llmqType nHeight] := by
  cases hr : rot qc <;> simp [flatKeysOf, h, hr]

theorem indexedKeysOf_singleton (h : env.isNull qc = false) :
    indexedKeysOf env [qc] nHeight rot =
      if rot qc then [buildInversedHeightKeyIndexed qc.llmqType nHeight qc.quorumIndex]
      else [] := by
  cases hr : rot qc <;> simp [indexedKeysOf, h, hr]

theorem keysOf_cons_null (qcs : List FinalCommitment) (h : env.isNull qc = true) :
    slotsOf env (qc :: qcs) = slotsOf env qcs ∧
      flatKeysOf env (qc :: qcs) nHeight rot = flatKeysOf env qcs nHeight rot ∧
      indexedKeysOf env (qc :: qcs) nHeight rot = indexedKeysOf env qcs nHeight rot := by
  simp [slotsOf, flatKeysOf, indexedKeysOf, List.filter_cons, h]

theorem ite_mem_update {α β : Type} [DecidableEq α] (l : List α) (a k : α) (f : α → β) (d : β)
    [Decidable (k ∈ l)] [Decidable (k ∈ [a] ∨ k ∈ l)] :
    (if k ∈ l then d else Function.update f a d k) = if k ∈ [a] ∨ k ∈ l then d else f k := by
  by_cases h : k = a
  · subst h; simp
  · simp [h]

end keys

/-! ## 書き込みの枠 -/

/-- `s` から `s'` で変わりうるのは、コミットメントの列 `qcs` のクォーラムと、回転 `rot` で選んだ
その索引のキーだけ。 -/
structure WriteFrame (env : Env) (qcs : List FinalCommitment) (nHeight : Nat)
    (rot : FinalCommitment → Bool) (s s' : State) : Prop where
  mined : ∀ k ∉ slotsOf env qcs, s'.evoDb.minedCommitment k = s.evoDb.minedCommitment k
  minedView : ∀ k ∉ slotsOf env qcs, s'.minedView k = s.minedView k
  flat : ∀ k ∉ flatKeysOf env qcs nHeight rot,
    s'.evoDb.minedByInversedHeight k = s.evoDb.minedByInversedHeight k
  indexed : ∀ k ∉ indexedKeysOf env qcs nHeight rot,
    s'.evoDb.minedByInversedHeightIndexed k = s.evoDb.minedByInversedHeightIndexed k

namespace WriteFrame

variable {qcs : List FinalCommitment} {nHeight : Nat} {rot : FinalCommitment → Bool}

theorem of_sameView {s s' : State} (h : s'.SameView s) : WriteFrame env qcs nHeight rot s s' :=
  ⟨fun k _ => by rw [h.mined], fun k _ => by rw [h.minedView], fun k _ => by rw [h.flat],
    fun k _ => by rw [h.indexed]⟩

theorem sameView_left {s₀ s s' : State} (h : WriteFrame env qcs nHeight rot s s')
    (h₀ : s.SameView s₀) : WriteFrame env qcs nHeight rot s₀ s' :=
  ⟨fun k hk => by rw [h.mined k hk, h₀.mined], fun k hk => by rw [h.minedView k hk, h₀.minedView],
    fun k hk => by rw [h.flat k hk, h₀.flat], fun k hk => by rw [h.indexed k hk, h₀.indexed]⟩

theorem sameView_right {s s' s'' : State} (h : WriteFrame env qcs nHeight rot s s')
    (h'' : s''.SameView s') : WriteFrame env qcs nHeight rot s s'' :=
  ⟨fun k hk => by rw [h''.mined, h.mined k hk], fun k hk => by rw [h''.minedView, h.minedView k hk],
    fun k hk => by rw [h''.flat, h.flat k hk], fun k hk => by rw [h''.indexed, h.indexed k hk]⟩

theorem append {l₁ l₂ : List FinalCommitment} {s₁ s₂ s₃ : State}
    (h₁ : WriteFrame env l₁ nHeight rot s₁ s₂) (h₂ : WriteFrame env l₂ nHeight rot s₂ s₃) :
    WriteFrame env (l₁ ++ l₂) nHeight rot s₁ s₃ := by
  refine ⟨fun k hk => ?_, fun k hk => ?_, fun k hk => ?_, fun k hk => ?_⟩ <;>
    simp only [slotsOf_append, flatKeysOf_append, indexedKeysOf_append, List.mem_append,
      not_or] at hk
  · rw [h₂.mined k hk.2, h₁.mined k hk.1]
  · rw [h₂.minedView k hk.2, h₁.minedView k hk.1]
  · rw [h₂.flat k hk.2, h₁.flat k hk.1]
  · rw [h₂.indexed k hk.2, h₁.indexed k hk.1]

end WriteFrame

section frame

variable {chain : Chain} {nHeight blockHash : Nat} {fBLSChecks : Bool}

theorem processCommitment_frame {s s' : State} {qc : FinalCommitment}
    (h : processCommitment env chain s nHeight blockHash qc false fBLSChecks = (.ok (), s')) :
    WriteFrame env [qc] nHeight (rotationAtBase env) s s' := by
  obtain ⟨p, hres, ⟨-, -, rfl⟩ | ⟨hnull, -, -, -, ⟨hj, -⟩ | ⟨-, s₁, base, hf, hb, rfl⟩⟩⟩ :=
    processCommitment_ok h
  · exact .of_sameView ⟨rfl, rfl, rfl, rfl⟩
  · cases hj
  have htype := Env.getLLMQParams_type hres.params
  have hrot : rotationAtBase env qc = env.isQuorumRotationEnabled p base := by
    simp [rotationAtBase, hres.params, hb]
  refine ⟨fun k hk => ?_, fun k hk => ?_, fun k hk => ?_, fun k hk => ?_⟩
  · rw [slotsOf_singleton hnull, List.mem_singleton] at hk
    simp [commitToStore, hf.evoDb, Function.update_noteq (htype ▸ hk)]
  · rw [slotsOf_singleton hnull, List.mem_singleton] at hk
    rw [commitToStore_minedView _ htype, hf.minedView, Function.update_noteq hk]
  · rw [flatKeysOf_singleton _ _ hnull, hrot] at hk
    simp only [commitToStore, EvoDb.writeCommitment_minedByInversedHeight, hf.evoDb]
    cases hr : env.isQuorumRotationEnabled p base
    · simp only [hr, Bool.false_eq_true, ite_false, List.mem_singleton] at hk ⊢
      rw [htype]; exact Function.update_noteq hk _ _
    · simp
  · rw [indexedKeysOf_singleton _ _ hnull, hrot] at hk
    simp only [commitToStore, EvoDb.writeCommitment_minedByInversedHeightIndexed, hf.evoDb]
    cases hr : env.isQuorumRotationEnabled p base
    · simp
    · simp only [hr, ite_true, List.mem_singleton] at hk ⊢
      rw [htype]; exact Function.update_noteq hk _ _

theorem processCommitments_frame : ∀ {qcs : List FinalCommitment} {s s' : State},
    processCommitments env chain nHeight blockHash false fBLSChecks qcs s = (.ok (), s') →
    WriteFrame env qcs nHeight (rotationAtBase env) s s'
  | [], _, _, h => by cases h; exact .of_sameView ⟨rfl, rfl, rfl, rfl⟩
  | qc :: qcs, s, s', h => by
    unfold processCommitments at h
    split at h
    · cases h
    rename_i s₁ h₁
    exact (processCommitment_frame h₁).append (processCommitments_frame h)

end frame

theorem getCommitmentsFromBlock_premature {block : Block} {pindex : BlockIndex}
    {qcs : List FinalCommitment} (hdip : pindex.nHeight < env.dip0003Height)
    (h : getCommitmentsFromBlock env block pindex = .ok qcs) : qcs = [] := by
  unfold getCommitmentsFromBlock at h
  split at h
  · cases h
  split at h
  · cases h
  · rename_i hne; cases h
    by_contra hq; exact hne ⟨hdip, hq⟩

/-- 成功した `ProcessBlock(fJustCheck = false)`：印をブロックのハッシュにし、取り出した
コミットメントはどれも確かめられ、そのクォーラムは前に採掘されておらず互いに違う。変わりうるのは
それらのキーだけ。 -/
theorem processBlock_frame {chain : Chain} {s s' : State} {block : Block} {pindex : BlockIndex}
    {fBLSChecks : Bool}
    (h : processBlock env chain s block pindex false fBLSChecks = (.ok (), s')) :
    s'.evoDb.bestBlockUpgrade = some block.hash ∧
    ∃ qcs, (∀ qcs', getCommitmentsFromBlock env block pindex = .ok qcs' → qcs' = qcs) ∧
      (∀ qc ∈ qcs, CommitmentChecked env chain pindex.nHeight fBLSChecks qc) ∧
      (∀ k ∈ slotsOf env qcs, s.minedView k = false) ∧ (slotsOf env qcs).Nodup ∧
      WriteFrame env qcs pindex.nHeight (rotationAtBase env) s s' := by
  dsimp only [processBlock] at h
  split at h
  · rename_i hdip
    cases h
    exact ⟨rfl, [], fun _ hq => getCommitmentsFromBlock_premature hdip hq, by simp, by simp,
      List.nodup_nil, .of_sameView ⟨rfl, rfl, rfl, rfl⟩⟩
  split at h
  · cases h
  rename_i qcs hqcs
  split at h
  · cases h
  rename_i s₁ hcounts
  split at h
  · cases h
  rename_i s₂ hcomm
  cases h
  have hf : s.CacheFill (checkCommitmentCounts env chain pindex.nHeight qcs
      (env.getEnabledQuorumParams pindex.pprev) s).2 := checkCommitmentCounts_cacheFill _ s
  rw [hcounts] at hf
  obtain ⟨hchecked, hfresh, hnodup⟩ := processCommitments_ok hcomm
  refine ⟨rfl, qcs, fun _ hq => by rw [hqcs] at hq; cases hq; rfl, hchecked,
    fun k hk => hf.minedView ▸ hfresh k hk, hnodup rfl, ?_⟩
  exact ((processCommitments_frame hcomm).sameView_left hf.sameView).sameView_right
    ⟨rfl, rfl, rfl, rfl⟩

/-! ## 消去の枠 -/

/-- `s'` は `s` から、コミットメントの列 `qcs` のクォーラムのレコードと、回転 `rot` で選んだその
索引のキーを消し、そのクォーラムを採掘されていないと答える。他は変わらない。 -/
structure Erased (env : Env) (qcs : List FinalCommitment) (nHeight : Nat)
    (rot : FinalCommitment → Bool) (s s' : State) : Prop where
  mined : ∀ k, s'.evoDb.minedCommitment k =
    if k ∈ slotsOf env qcs then none else s.evoDb.minedCommitment k
  minedView : ∀ k, s'.minedView k = if k ∈ slotsOf env qcs then false else s.minedView k
  flat : ∀ k, s'.evoDb.minedByInversedHeight k =
    if k ∈ flatKeysOf env qcs nHeight rot then none else s.evoDb.minedByInversedHeight k
  indexed : ∀ k, s'.evoDb.minedByInversedHeightIndexed k =
    if k ∈ indexedKeysOf env qcs nHeight rot then none else s.evoDb.minedByInversedHeightIndexed k

section undo

variable {pindex : BlockIndex}

theorem undoCommitments_frame : ∀ {qcs : List FinalCommitment} {s s' : State},
    undoCommitments env pindex qcs s = (.ok (), s') →
    Erased env qcs pindex.nHeight (rotationAt env pindex) s s'
  | [], _, _, h => by cases h; constructor <;> simp [flatKeysOf, indexedKeysOf]
  | qc :: qcs, s, s', h => by
    unfold undoCommitments at h
    split at h
    · rename_i hnull
      obtain ⟨hR, hV, hF, hI⟩ := undoCommitments_frame h
      obtain ⟨h₁, h₂, h₃⟩ := keysOf_cons_null pindex.nHeight (rotationAt env pindex) qcs hnull
      exact ⟨fun k => by rw [h₁]; exact hR k, fun k => by rw [h₁]; exact hV k,
        fun k => by rw [h₂]; exact hF k, fun k => by rw [h₃]; exact hI k⟩
    rename_i hnull
    replace hnull : env.isNull qc = false := by simpa using hnull
    split at h
    · cases h
    rename_i p hp
    split at h
    · cases h
    rename_i s₁ hadd
    obtain ⟨hR, hV, hF, hI⟩ := undoCommitments_frame h
    have hs₁ : (addMineableCommitment env (eraseMinedCommitment env pindex p qc s) qc).2 = s₁ := by
      rw [hadd]
    have hrot : rotationAt env pindex qc = env.isQuorumRotationEnabled p pindex := by
      simp [rotationAt, hp]
    subst hs₁
    have hl : qc :: qcs = [qc] ++ qcs := rfl
    refine ⟨fun k => ?_, fun k => ?_, fun k => ?_, fun k => ?_⟩
    · rw [hR, hl, slotsOf_append, slotsOf_singleton hnull, addMineableCommitment_evoDb]
      simp only [eraseMinedCommitment, EvoDb.eraseInversedHeight_minedCommitment, EvoDb.eraseRecord,
        List.mem_append]
      exact ite_mem_update _ _ _ _ _
    · rw [hV, hl, slotsOf_append, slotsOf_singleton hnull,
        addMineableCommitment_minedView, eraseMinedCommitment_minedView]
      simp only [List.mem_append]
      exact ite_mem_update _ _ _ _ _
    · rw [hF, hl, flatKeysOf_append, flatKeysOf_singleton _ _ hnull, hrot,
        addMineableCommitment_evoDb]
      simp only [eraseMinedCommitment, EvoDb.eraseInversedHeight_minedByInversedHeight,
        EvoDb.eraseRecord, List.mem_append]
      cases env.isQuorumRotationEnabled p pindex
      · simp only [Bool.false_eq_true, ite_false]; exact ite_mem_update _ _ _ _ _
      · simp
    · rw [hI, hl, indexedKeysOf_append, indexedKeysOf_singleton _ _ hnull, hrot,
        addMineableCommitment_evoDb]
      simp only [eraseMinedCommitment, EvoDb.eraseInversedHeight_minedByInversedHeightIndexed,
        EvoDb.eraseRecord, List.mem_append]
      cases env.isQuorumRotationEnabled p pindex
      · simp
      · simp only [ite_true]; exact ite_mem_update _ _ _ _ _

/-- 成功した `UndoBlock`：取り出したコミットメントのキーを消し、印を親のハッシュにする。 -/
theorem undoBlock_frame {s s' : State} {block : Block}
    (h : undoBlock env s block pindex = (.ok (), s')) :
    ∃ qcs pprev, getCommitmentsFromBlock env block pindex = .ok qcs ∧ pindex.pprev = some pprev ∧
      s'.evoDb.bestBlockUpgrade = some pprev.getBlockHash ∧
      Erased env qcs pindex.nHeight (rotationAt env pindex) s s' := by
  unfold undoBlock at h
  split at h
  · cases h
  rename_i qcs hqcs
  split at h
  · cases h
  rename_i s₁ hundo
  split at h
  · cases h
  rename_i pprev hpprev
  cases h
  obtain ⟨hR, hV, hF, hI⟩ := undoCommitments_frame hundo
  exact ⟨qcs, pprev, hqcs, hpprev, rfl, hR, hV, hF, hI⟩

end undo

/-! ## 回転の基準

`quorumIndex` が負でなければ基のブロックは採掘するブロックと同じ周期にあり、回転が周期ごとに
決まる限り、基のブロックでの判定と採掘したブロックでの判定は一致する。 -/

/-- 回転の仮定：一つのチェーンの同じ DKG 周期の二つのブロックで、`IsQuorumRotationEnabled` は
同じ値。 -/
def Env.RotationPerCycle (env : Env) : Prop :=
  ∀ p ∈ env.llmqs, ∀ b₁ b₂ : BlockIndex, b₁.hashes <+: b₂.hashes →
    b₁.nHeight / p.dkgInterval = b₂.nHeight / p.dkgInterval →
    env.isQuorumRotationEnabled p b₁ = env.isQuorumRotationEnabled p b₂

/-- `Verify` は負の `quorumIndex` を受け入れない。 -/
def Env.VerifyIndexNonneg (env : Env) : Prop :=
  ∀ qc base fBLSChecks, env.verify qc base fBLSChecks = true → 0 ≤ qc.quorumIndex

theorem demoEnvWith_rotationPerCycle (verify : FinalCommitment → Option BlockIndex → Bool → Bool) :
    (demoEnvWith verify).RotationPerCycle := by
  intro p hp b₁ b₂ _ hcyc
  simp only [demoEnvWith, List.mem_singleton] at hp ⊢
  subst hp
  simp only [demoParams] at hcyc
  simp only [decide_eq_decide]
  omega

theorem demoEnv_verifyIndexNonneg : demoEnv.VerifyIndexNonneg := by
  intro qc base _ h
  simp only [demoEnv, demoEnvWith, demoVerify] at h
  split at h
  · cases h
  · simp only [Bool.and_eq_true, beq_iff_eq] at h
    omega

theorem div_eq_of_cycle {d L b : Nat} (hd : 0 < d) (hlo : L - L % d ≤ b) (hhi : b < L) :
    b / d = L / d := by
  have h₁ := Nat.div_add_mod L d
  have h₂ := Nat.mod_lt L hd
  refine Nat.div_eq_of_lt_le ?_ ?_
  · rw [Nat.mul_comm]; omega
  · rw [Nat.add_mul, Nat.one_mul, Nat.mul_comm]; omega

/-- 有効なチェーンの上で解決したハッシュの基のブロックは、チェーンの始めの部分で、その高さは
周期の始めに `quorumIndex` を足したもの。 -/
theorem HashResolved.base {chain : Chain} (hact : env.ActiveChain chain) (hne : chain ≠ [])
    {nHeight : Nat} {qc : FinalCommitment} {p : LLMQParams}
    (h : HashResolved env chain nHeight qc p) :
    ∃ base, env.lookupBlockIndex qc.quorumHash = some base ∧ base.hashes <+: chain ∧
      base.nHeight < chain.length ∧
      (base.nHeight : Int) = (nHeight - nHeight % p.dkgInterval : Nat) + qc.quorumIndex := by
  have hq := h.resolved
  simp only [expectedQuorumHash, if_neg hne, getQuorumBlockHash, Chain.getBlockHash] at hq
  generalize ((nHeight - nHeight % p.dkgInterval : Nat) : Int) + qc.quorumIndex = x at hq ⊢
  split at hq
  · rename_i hx
    cases hj : chain[x.toNat]? with
    | none => rw [hj] at hq; exact absurd hq.symm h.nonNull
    | some y =>
      rw [hj, Option.getD_some] at hq
      obtain ⟨hlt, hy⟩ := List.getElem?_eq_some_iff.1 hj
      refine ⟨_, hq ▸ hy ▸ hact _ hlt, List.take_prefix _ _, ?_, ?_⟩ <;>
        simp only [BlockIndex.nHeight, List.length_take] <;> omega
  · exact absurd hq.symm h.nonNull

theorem rotationAtBase_eq_rotationAt (hrot : env.RotationPerCycle) (hidx : env.VerifyIndexNonneg)
    {chain : Chain} (hact : env.ActiveChain chain) (hne : chain ≠ []) (hash : Nat)
    {fBLSChecks : Bool} {qc : FinalCommitment}
    (hchk : CommitmentChecked env chain chain.length fBLSChecks qc)
    (hnull : env.isNull qc = false) :
    rotationAtBase env qc = rotationAt env (BlockIndex.child chain hash) qc := by
  obtain ⟨p, hres, -, hv⟩ := hchk.resolved
  obtain ⟨base, hb, hpre, hlt, hh⟩ := hres.base hact hne
  have hqi := hidx _ _ _ (hv hnull).2
  simp only [rotationAtBase, rotationAt, hres.params, hb]
  refine hrot p (Env.getLLMQParams_mem hres.params) base _ (hpre.trans (List.prefix_append _ _)) ?_
  have hchild : (BlockIndex.child chain hash).nHeight = chain.length := by
    simp [BlockIndex.child, BlockIndex.nHeight]
  rw [hchild]
  exact div_eq_of_cycle p.dkgInterval_pos (by omega) hlt

end QuorumBlockProcessor
