import QuorumBlockProcessor.Scheduler

/-!
# 採掘できるコミットメント

`AddMineableCommitment`、`HasMineableCommitment`、`GetMineableCommitmentByHash`、
`GetMineableCommitments`、`GetMineableCommitmentsTx` と、ネットワークから届くコミットメントを
扱う `ProcessMessage`。
-/

namespace QuorumBlockProcessor

/-- `std::map::emplace`：キーがまだないときだけ入れる。 -/
def mapEmplace {α β : Type} [DecidableEq α] (m : α → Option β) (k : α) (v : β) : α → Option β :=
  if (m k).isSome then m else Function.update m k (some v)

/-! ## 表への追加 -/

/-- `AddMineableCommitment(fqc)`。返す `Bool` は `relay`。置き換えの枝は表の値を新しいハッシュに
書き換えてから `minableCommitments.erase(ins.first->second)` を呼ぶので、消すのは新しいハッシュの
項目で、古い候補は残る。`minableCommitments.at` が見つけられなければ `std::out_of_range`。 -/
def addMineableCommitment (env : Env) (s : State) (fqc : FinalCommitment) :
    Except Failure Bool × State :=
  let commitmentHash := env.serializeHash fqc
  let k := (fqc.llmqType, fqc.quorumHash)
  match s.minableCommitmentsByQuorum k with
  | none =>
    (.ok true, { s with
      minableCommitmentsByQuorum :=
        Function.update s.minableCommitmentsByQuorum k (some commitmentHash)
      minableCommitments := mapEmplace s.minableCommitments commitmentHash fqc })
  | some oldHash =>
    match s.minableCommitments oldHash with
    | none => (.error .outOfRange, s)
    | some oldFqc =>
      if fqc.countSigners > oldFqc.countSigners then
        let erased := Function.update s.minableCommitments commitmentHash none
        (.ok true, { s with
          minableCommitmentsByQuorum :=
            Function.update s.minableCommitmentsByQuorum k (some commitmentHash)
          minableCommitments := mapEmplace erased commitmentHash fqc })
      else (.ok false, s)

/-- `HasMineableCommitment(hash)`。 -/
def hasMineableCommitment (s : State) (hash : Nat) : Bool := (s.minableCommitments hash).isSome

/-- `GetMineableCommitmentByHash(commitmentHash, ret)`。 -/
def getMineableCommitmentByHash (s : State) (commitmentHash : Nat) : Option FinalCommitment :=
  s.minableCommitments commitmentHash

/-! ## ブロックのひな形 -/

/-- `static_cast<int16_t>(quorumIndex)`。 -/
def toInt16 (n : Nat) : Int := ((n + 32768) % 65536 : Nat) - 32768

/-- `GetMineableCommitments` のループ。ハッシュが null のクォーラムで止まり（`break`）、採掘済みの
ものは飛ばし（`continue`）、表にあればその候補、なければ null のコミットメントを入れる。 -/
def collectMineable (env : Env) (chain : Chain) (llmqParams : LLMQParams) (nHeight : Nat)
    (rotationEnabled basicBlsEnabled : Bool) :
    List Nat → List FinalCommitment → State → Except Failure (List FinalCommitment) × State
  | [], ret, s => (.ok ret, s)
  | quorumIndex :: rest, ret, s =>
    let quorumHash := getQuorumBlockHash chain llmqParams nHeight quorumIndex
    if quorumHash = 0 then (.ok ret, s)
    else
      let r := hasMinedCommitment s llmqParams.type quorumHash
      if r.1 then
        collectMineable env chain llmqParams nHeight rotationEnabled basicBlsEnabled rest ret r.2
      else
        match r.2.minableCommitmentsByQuorum (llmqParams.type, quorumHash) with
        | none =>
          let cf := { FinalCommitment.ofParams llmqParams quorumHash with
            quorumIndex := toInt16 quorumIndex
            nVersion := env.getVersion rotationEnabled basicBlsEnabled }
          collectMineable env chain llmqParams nHeight rotationEnabled basicBlsEnabled rest
            (ret ++ [cf]) r.2
        | some h =>
          match r.2.minableCommitments h with
          | none => (.error .outOfRange, r.2)
          | some cf =>
            collectMineable env chain llmqParams nHeight rotationEnabled basicBlsEnabled rest
              (ret ++ [cf]) r.2

/-- `GetMineableCommitments(llmqParams, nHeight)`：採掘すべきものがなければ `nullopt`。 -/
def getMineableCommitments (env : Env) (chain : Chain) (llmqParams : LLMQParams) (nHeight : Nat)
    (s : State) : Except Failure (Option (List FinalCommitment)) × State :=
  match getNumCommitmentsRequired env chain llmqParams nHeight s with
  | (.error e, s₁) => (.error e, s₁)
  | (.ok required, s₁) =>
    if required = 0 then (.ok none, s₁)
    else
      match chain.blockForHeight nHeight with
      | none => (.error .assertion, s₁)
      | some pindex =>
        let rotationEnabled := env.isQuorumRotationEnabled llmqParams pindex
        let basicBlsEnabled := env.isV19Active pindex
        match collectMineable env chain llmqParams nHeight rotationEnabled basicBlsEnabled
            (List.range (quorumsNum env llmqParams pindex)) [] s₁ with
        | (.error e, s₂) => (.error e, s₂)
        | (.ok ret, s₂) => (.ok (if ret = [] then none else some ret), s₂)

/-- `GetMineableCommitmentsTx`：各コミットメントを版 3 の特別なトランザクションに包む。 -/
def getMineableCommitmentsTx (env : Env) (chain : Chain) (llmqParams : LLMQParams) (nHeight : Nat)
    (s : State) : Except Failure (Option (List Transaction)) × State :=
  match getMineableCommitments env chain llmqParams nHeight s with
  | (.error e, s₁) => (.error e, s₁)
  | (.ok qcs, s₁) =>
    (.ok (qcs.map fun l => l.map fun f =>
      { nVersion := 3, nType := env.txTypeQuorumCommitment, payload := some ⟨nHeight, f⟩ }), s₁)

/-! ## ネットワークから届くコミットメント -/

/-- `ProcessMessage` の結果：`Misbehaving(peer, howmuch)`、何もせず戻る、表に渡した。 -/
inductive MessageResult where
  | misbehaving (howmuch : Nat)
  | ignored
  | added (relay : Bool)
  deriving DecidableEq, Repr

/-- 検証の前の確認（「既により良いものを持っているか」）。表の候補の署名者の数が `qc` の
それ以下のとき真で、そのとき `ProcessMessage` は戻る。 -/
def betterKnownLocally (s : State) (k : LLMQType × Nat) (qc : FinalCommitment) : Bool :=
  match s.minableCommitmentsByQuorum k with
  | none => false
  | some h =>
    match s.minableCommitments h with
    | none => false
    | some c => c.countSigners ≤ qc.countSigners

/-- `ProcessMessage` の `QFCOMMITMENT` の処理。`EraseObjectRequest` とログは扱わない。 -/
def processMessage (env : Env) (chain : Chain) (s : State) (qc : FinalCommitment) :
    Except Failure MessageResult × State :=
  if env.isNull qc then (.ok (.misbehaving 100), s)
  else
    match env.getLLMQParams qc.llmqType with
    | none => (.ok (.misbehaving 100), s)
    | some llmqParams =>
      match env.lookupBlockIndex qc.quorumHash with
      | none => (.ok .ignored, s)
      | some pQuorumBaseBlockIndex =>
        match chain.tip with
        | none => (.error .assertion, s)
        | some tip =>
          let baseHeight := pQuorumBaseBlockIndex.nHeight
          if tip.getAncestor baseHeight ≠ some pQuorumBaseBlockIndex then (.ok .ignored, s)
          else
            let quorumHeight : Int :=
              (baseHeight - baseHeight % llmqParams.dkgInterval : Nat) + qc.quorumIndex
            if quorumHeight ≠ baseHeight then (.ok (.misbehaving 100), s)
            else if (baseHeight : Int) < chain.height - llmqParams.dkgInterval then
              (.ok .ignored, s)
            else
              let r := hasMinedCommitment s qc.llmqType qc.quorumHash
              if r.1 then (.ok .ignored, r.2)
              else if betterKnownLocally r.2 (qc.llmqType, qc.quorumHash) qc then
                (.ok .ignored, r.2)
              else if !env.verify qc (some pQuorumBaseBlockIndex) true then
                (.ok (.misbehaving 100), r.2)
              else
                match addMineableCommitment env r.2 qc with
                | (.ok relay, s') => (.ok (.added relay), s')
                | (.error e, s') => (.error e, s')

end QuorumBlockProcessor
