import HandshakeNode.Proofs.ChainStore

/-!
# The record of the best state along runs

Along every run of calls the record has the hash and height of the tip and the number of
transactions up to it. A block that is connected leaves its own work sum in the record, and a block
that is disconnected does so too, although the tip is then its parent. The main results are
`ChainStore.record_describes_tip_iff` and `ChainStore.record_keeps_work_of_disconnected_block`.
-/

namespace HandshakeNode

open List Finmap UInt64

lemma calcWork_le (bits : UInt32) : calcWork bits ≤ 2 ^ 256 := by
  unfold calcWork
  dsimp only
  split_ifs
  · exact Nat.zero_le _
  · exact Nat.div_le_self _ _

def IndexOk (w : BlockData) (nodes : GoMap Hash (List Hash)) : Prop :=
  ∀ h ancestors, nodes.lookup h = some ancestors → w.Branch (h :: ancestors)

lemma indexOk_empty (w : BlockData) : IndexOk w ∅ := by
  intro h a ha
  cases ha

lemma IndexOk.insert (h : IndexOk w nodes) (hbranch : w.Branch (node :: ancestors)) :
    IndexOk w (nodes.insert node ancestors) := by
  intro n a ha
  by_cases hn : n = node
  · subst hn
    rw [lookup_insert] at ha
    cases ha
    exact hbranch
  · rw [lookup_insert_of_ne _ hn] at ha
    exact h n a ha

lemma ChainDb.branch_of_mem {db : ChainDb} (hmem : h ∈ db.nodes) :
    db.nodes.lookup h = some (db.branch h).tail := by
  obtain ⟨ancestors, hanc⟩ := Option.isSome_iff_exists.1 (lookup_isSome.2 hmem)
  rw [branch, hanc]
  rfl

/-- The work of every block is that of some target. -/
def BlockTree.Mined (t : BlockTree) : Prop := ∀ h, ∃ bits, t.work h = calcWork bits

namespace ChainStore

variable (w : BlockData) (mem : Memory) (order : RangeOrder OutPoint)

inductive Call where
  | connect (hash : Hash) (stxos : List SpentTxOut)
  | disconnect (hash : Hash) (view : UtxoViewpoint)

namespace Call

def hash : Call → Hash
  | connect hash _ => hash
  | disconnect hash _ => hash

def isConnect : Call → Bool
  | connect _ _ => true
  | disconnect _ _ => false

def perform (env : CallEnv) (s : ChainStore) : Call → Result Unit × ChainStore
  | connect hash stxos =>
    connectBlock w mem order env (w.block hash (s.db.branch hash).tail.length) stxos s
  | disconnect hash view =>
    disconnectBlock w mem order env (w.block hash (s.db.branch hash).tail.length) view s

end Call

/-- The stores that successful calls lead to from the genesis block. Between the calls blocks may be
stored, nodes added and the cache changed. -/
inductive CallRun : ChainStore → Prop
  | genesis (max : UInt64) (utxo : UtxoDb) :
      CallRun (createChainState w mem max ⟨none, ∅, ∅, ∅, utxo⟩)
  | other {s s' : ChainStore} (h : CallRun s) (hchain : s'.bestChain = s.bestChain)
      (htotal : s'.totalTxns = s.totalTxns) (hrecord : s'.db.bestState = s.db.bestState)
      (hgrow : ∀ h a, s.db.nodes.lookup h = some a → s'.db.nodes.lookup h = some a)
      (hindex : IndexOk w s'.db.nodes) : CallRun s'
  | call {s s' : ChainStore} (h : CallRun s) (env : CallEnv) (call : Call)
      (hnode : call.hash ∈ s.db.nodes) (hgenesis : call.hash ≠ w.genesis)
      (hok : call.perform w mem order env s = (.ok (), s')) : CallRun s'

def txCount (chain : List Hash) : ℕ := (chain.map fun h => (w.transactions h).length).sum

/-- The record decodes to the tip, its height, and the transactions and the work up to it. -/
def DescribesTip (s : ChainStore) : Prop :=
  ∃ record state, s.db.bestState = some record ∧ deserializeBestChainState record = .ok state ∧
    s.bestChain.head? = some state.hash ∧ state.height.toNat = s.bestChain.tail.length ∧
    state.totalTxns.toNat = txCount w s.bestChain ∧ state.workSum = w.workSum s.bestChain

structure Recorded (s : ChainStore) (workSum : ℕ) : Prop where
  branch : w.Branch s.bestChain
  index : IndexOk w s.db.nodes
  nodes : ∀ h ∈ s.bestChain, h ∈ s.db.nodes
  total : s.totalTxns = ofNat (txCount w s.bestChain)
  record : s.db.bestState =
    some (serializeBestChainState (newBestState s.bestChain s.totalTxns workSum))

variable {w mem order} {s s' : ChainStore} {env : CallEnv} {workSum : ℕ}

lemma Recorded.branch_tip (h : Recorded w s workSum) {tip : Hash}
    (htip : s.bestChain.head? = some tip) : s.db.branch tip = s.bestChain := by
  obtain ⟨rest, hrest⟩ := List.head?_eq_some_iff.1 htip
  have hmem : tip ∈ s.db.nodes := h.nodes tip (hrest ▸ mem_cons_self)
  have hbranch := h.branch
  rw [hrest] at hbranch ⊢
  have := hbranch.unique (h.index _ _ (ChainDb.branch_of_mem hmem))
  rw [ChainDb.branch] at this ⊢
  rw [tail_cons] at this
  rw [this]

lemma Recorded.branch_child (h : Recorded w s workSum) {node : Hash} (hnode : node ∈ s.db.nodes)
    (hgenesis : node ≠ w.genesis) (hprev : s.bestChain.head? = some (w.prevBlock node)) :
    s.db.branch node = node :: s.bestChain := by
  obtain ⟨rest, hrest⟩ := List.head?_eq_some_iff.1 hprev
  have hbranch := h.index _ _ (ChainDb.branch_of_mem hnode)
  have hchain : w.Branch (node :: s.bestChain) := by
    rw [hrest]
    exact .cons hgenesis (hrest ▸ h.branch)
  have := hbranch.unique hchain
  rw [ChainDb.branch, tail_cons] at this
  rw [ChainDb.branch, this]

lemma txCount_cons (h : Hash) (chain : List Hash) :
    txCount w (h :: chain) = (w.transactions h).length + txCount w chain := by
  simp [txCount]

lemma connectCommit_recorded {block : Block} (h : Recorded w s workSum)
    (hnode : block.hash ∈ s.db.nodes) (hgenesis : block.hash ≠ w.genesis)
    (hprev : block.prevBlock = w.prevBlock block.hash)
    (htxs : block.transactions = w.transactions block.hash)
    (hok : connectCommit w mem order env block stxos s = (.ok (), s')) :
    Recorded w s' (w.workSum s'.bestChain) := by
  obtain ⟨hhead, -, cache, db, hbody, rfl⟩ := connectCommit_eq_ok hok
  obtain ⟨db1, hprune, rfl⟩ := connectUpdate_eq_ok hbody
  rw [hprev] at hhead
  have hbranch := h.branch_child hnode hgenesis hhead
  have hnodes : db1.nodes = s.db.nodes := by
    rcases pruneUpdate_eq_ok hprune with ⟨-, rfl, -⟩ | ⟨utxo, -, rfl⟩ <;> rfl
  have hindex : IndexOk w db1.nodes := hnodes ▸ h.index
  refine ⟨?_, hindex, ?_, ?_, rfl⟩
  · have := h.index _ _ (ChainDb.branch_of_mem hnode)
    exact this
  · intro h' hh'
    rw [hbranch] at hh'
    rcases mem_cons.1 hh' with rfl | hh'
    · exact hnodes ▸ hnode
    · exact hnodes ▸ h.nodes h' hh'
  · rw [hbranch, txCount_cons, totalWith, h.total, htxs, ← ofNat_add, Nat.add_comm]

lemma disconnectBlock_recorded (h : Recorded w s workSum)
    (htxs : block.transactions = w.transactions block.hash)
    (hok : disconnectBlock w mem order env block view s = (.ok (), s')) :
    Recorded w s' (w.workSum s.bestChain) ∧ s.bestChain = block.hash :: s'.bestChain := by
  obtain ⟨hhead, p, rest, hprev, -, cache, db, hbody, rfl⟩ := disconnectBlock_eq_ok hok
  obtain ⟨flushed, utxo, -, -, -, rfl⟩ := disconnectUpdate_eq_ok hbody
  have hbranch := h.branch_tip hhead
  obtain ⟨rest', hrest'⟩ := List.head?_eq_some_iff.1 hhead
  rw [hbranch, hrest'] at hprev
  subst hprev
  have hchain := h.branch
  have hnodes := h.nodes
  have htotal := h.total
  rw [hrest'] at hchain hnodes htotal
  refine ⟨⟨hchain.tail.2.2, h.index, fun h' hh' => hnodes h' (mem_cons_of_mem _ hh'), ?_, ?_⟩,
    hrest'⟩
  · rw [htotal, txCount_cons, htxs, UInt64.ofNat_add, UInt64.add_comm]
    exact UInt64.add_sub_cancel _ _
  · rw [hbranch]

lemma Recorded.of_frame (h : Recorded w s workSum) (hchain : s'.bestChain = s.bestChain)
    (htotal : s'.totalTxns = s.totalTxns) (hrecord : s'.db.bestState = s.db.bestState)
    (hgrow : ∀ h a, s.db.nodes.lookup h = some a → s'.db.nodes.lookup h = some a)
    (hindex : IndexOk w s'.db.nodes) : Recorded w s' workSum where
  branch := hchain ▸ h.branch
  index := hindex
  nodes n hn := by
    rw [hchain] at hn
    have := hgrow n _ (ChainDb.branch_of_mem (h.nodes n hn))
    exact lookup_isSome.1 (by rw [this]; rfl)
  total := by rw [htotal, hchain, h.total]
  record := by rw [hrecord, hchain, htotal, h.record]

lemma Call.recorded (h : Recorded w s workSum) {call : Call} (hnode : call.hash ∈ s.db.nodes)
    (hgenesis : call.hash ≠ w.genesis) (hok : call.perform w mem order env s = (.ok (), s')) :
    (call.isConnect = true ∧ Recorded w s' (w.workSum s'.bestChain)) ∨
      (call.isConnect = false ∧ Recorded w s' (w.workSum (call.hash :: s'.bestChain))) := by
  cases call with
  | connect hash stxos =>
    obtain ⟨s1, hcommit, hflush⟩ := connectBlock_eq_ok hok
    have hrec := connectCommit_recorded h hnode hgenesis rfl rfl hcommit
    obtain ⟨cache, utxo, -, rfl⟩ := flushUtxoCache_eq_ok hflush
    exact .inl ⟨rfl, hrec.of_frame rfl rfl rfl (fun _ _ h => h) hrec.index⟩
  | disconnect hash view =>
    obtain ⟨hrec, hchain⟩ := disconnectBlock_recorded h rfl hok
    rw [hchain] at hrec
    exact .inr ⟨rfl, hrec⟩

lemma CallRun.recorded (h : CallRun w mem order s) : ∃ workSum, Recorded w s workSum := by
  induction h with
  | genesis max utxo =>
    refine ⟨w.workSum [w.genesis], .root, ?_, ?_, ?_, rfl⟩
    · exact (indexOk_empty w).insert .root
    · intro h hh
      rw [mem_singleton.1 hh]
      exact mem_insert.2 (.inl rfl)
    · simp [createChainState, txCount]
  | other _ hchain htotal hrecord hgrow hindex ih =>
    obtain ⟨workSum, ih⟩ := ih
    exact ⟨workSum, ih.of_frame hchain htotal hrecord hgrow hindex⟩
  | call _ env call hnode hgenesis hok ih =>
    obtain ⟨workSum, ih⟩ := ih
    rcases Call.recorded ih hnode hgenesis hok with ⟨-, h⟩ | ⟨-, h⟩
    · exact ⟨_, h⟩
    · exact ⟨_, h⟩

lemma workSum_cons (h : Hash) (chain : List Hash) :
    w.workSum (h :: chain) = w.work h + w.workSum chain := by
  simp [BlockTree.workSum]

lemma workSum_le (hmined : w.Mined) (chain : List Hash) :
    w.workSum chain ≤ chain.length * 2 ^ 256 := by
  induction chain with
  | nil => simp [BlockTree.workSum]
  | cons h chain ih =>
    obtain ⟨bits, hbits⟩ := hmined h
    have hle := calcWork_le bits
    rw [workSum_cons, length_cons]
    omega

lemma Recorded.describesTip_iff (h : Recorded w s workSum)
    (hlen : (bigBytes workSum).length < 2 ^ 32) (hheight : s.bestChain.length ≤ 2 ^ 31)
    (htotal : txCount w s.bestChain < 2 ^ 64) :
    DescribesTip w s ↔ workSum = w.workSum s.bestChain := by
  have hread := deserializeBestChainState_serialize (newBestState s.bestChain s.totalTxns workSum) hlen
  obtain ⟨tip, rest, hchain⟩ := exists_cons_of_ne_nil h.branch.ne_nil
  constructor
  · rintro ⟨record, state, hrecord, hstate, -, -, -, hwork⟩
    rw [h.record, Option.some.injEq] at hrecord
    rw [← hrecord, hread, Except.ok.injEq] at hstate
    rw [← hwork, ← hstate]
    rfl
  · intro hwork
    refine ⟨_, _, h.record, hread, ?_, ?_, ?_, hwork⟩
    · rw [hchain]
      rfl
    · have hlt : s.bestChain.tail.length < 2 ^ 32 := by
        rw [length_tail]
        omega
      exact UInt32.toNat_ofNat_of_lt' hlt
    · rw [h.total]
      exact toNat_ofNat_of_lt' htotal

def sampleData : BlockData where
  genesis := Hash.ofBytes [1]
  prevBlock _ := Hash.ofBytes [1]
  work _ := calcWork 0x207fffff
  nameRoot _ := Hash.zero
  transactions h := [⟨h, [], []⟩]

def sampleMemory : Memory := ⟨fun _ => 1, fun _ => 1, fun _ => 10⟩

def sampleEnv : CallEnv := ⟨fun _ => none, 0, none, 0⟩

def sampleGenesis : ChainStore :=
  createChainState sampleData sampleMemory 1000 ⟨none, ∅, ∅, ∅, ⟨∅, none⟩⟩

def sampleStore : ChainStore :=
  { sampleGenesis with
    db :=
      { sampleGenesis.db with
        nodes := sampleGenesis.db.nodes.insert (Hash.ofBytes [2]) [Hash.ofBytes [1]]
        blocks := insert (Hash.ofBytes [2]) sampleGenesis.db.blocks } }

lemma callRun_sampleStore : CallRun sampleData sampleMemory outPointOrder sampleStore := by
  have hnone : sampleGenesis.db.nodes.lookup (Hash.ofBytes [2]) = none := by decide +kernel
  refine .other (.genesis 1000 ⟨∅, none⟩) rfl rfl rfl ?_ ?_
  · intro h a ha
    have hne : h ≠ Hash.ofBytes [2] := by
      rintro rfl
      cases hnone.symm.trans ha
    exact (lookup_insert_of_ne _ hne).trans ha
  · exact ((indexOk_empty sampleData).insert .root).insert (.cons (by decide) .root)

def sampleConnected : ChainStore :=
  ((Call.connect (Hash.ofBytes [2]) []).perform sampleData sampleMemory outPointOrder sampleEnv
    sampleStore).2

def sampleDisconnected : ChainStore :=
  ((Call.disconnect (Hash.ofBytes [2]) ⟨∅, Hash.ofBytes [2]⟩).perform sampleData sampleMemory
    outPointOrder sampleEnv sampleConnected).2

lemma callRun_sampleConnected : CallRun sampleData sampleMemory outPointOrder sampleConnected :=
  .call callRun_sampleStore sampleEnv (.connect (Hash.ofBytes [2]) []) (by decide +kernel)
    (by decide +kernel) (eq_ok_of_isOk (by decide +kernel))

/-- After the only block above the genesis block was disconnected, the tip is the genesis block with
work 2, and the record says 4. -/
theorem record_keeps_work_of_disconnected_block :
    CallRun sampleData sampleMemory outPointOrder sampleDisconnected ∧
      sampleDisconnected.bestChain = [Hash.ofBytes [1]] ∧
      sampleData.workSum sampleDisconnected.bestChain = 2 ∧
      (sampleDisconnected.db.bestState.bind fun r =>
        (deserializeBestChainState r).toOption.map (·.workSum)) = some 4 ∧
      ¬ DescribesTip sampleData sampleDisconnected := by
  have hchain : sampleDisconnected.bestChain = [Hash.ofBytes [1]] := by decide +kernel
  have hwork : sampleData.workSum sampleDisconnected.bestChain = 2 := by decide +kernel
  have hrecord : (sampleDisconnected.db.bestState.bind fun r =>
      (deserializeBestChainState r).toOption.map (·.workSum)) = some 4 := by decide +kernel
  refine ⟨.call callRun_sampleConnected sampleEnv (.disconnect (Hash.ofBytes [2]) ⟨∅, Hash.ofBytes [2]⟩)
    (by decide +kernel) (by decide +kernel) (eq_ok_of_isOk (by decide +kernel)), hchain, hwork,
    hrecord, ?_⟩
  rintro ⟨record, state, hr, hs, -, -, -, hw⟩
  rw [hr, Option.bind_some, hs] at hrecord
  have hfour : state.workSum = 4 := Option.some.inj hrecord
  omega

/-- After a call the record describes the tip if the call connected a block, or if the block it
disconnected stands for no work, and not otherwise. -/
theorem record_describes_tip_iff (hmined : ∀ h, ∃ bits, w.work h = calcWork bits)
    (h : CallRun w mem order s) (call : Call) (hnode : call.hash ∈ s.db.nodes)
    (hgenesis : call.hash ≠ w.genesis) (hok : call.perform w mem order env s = (.ok (), s'))
    (hheight : s'.bestChain.length ≤ 2 ^ 31) (htotal : txCount w s'.bestChain < 2 ^ 64) :
    DescribesTip w s' ↔ call.isConnect = true ∨ w.work call.hash = 0 := by
  obtain ⟨workSum, hrec⟩ := h.recorded
  have hfits : ∀ chain : List Hash, chain.length ≤ 2 ^ 31 + 1 →
      (bigBytes (w.workSum chain)).length < 2 ^ 32 := by
    intro chain hchain
    have hle := workSum_le hmined chain
    have hlt : w.workSum chain < 256 ^ 40 := by
      calc w.workSum chain ≤ chain.length * 2 ^ 256 := hle
        _ ≤ (2 ^ 31 + 1) * 2 ^ 256 := Nat.mul_le_mul_right _ hchain
        _ < 256 ^ 40 := by decide +kernel
    exact lt_of_le_of_lt (length_bigBytes_le hlt) (by decide)
  rcases Call.recorded hrec hnode hgenesis hok with ⟨hc, h'⟩ | ⟨hc, h'⟩
  · rw [h'.describesTip_iff (hfits _ (by omega)) hheight htotal]
    simp [hc]
  · rw [h'.describesTip_iff (hfits _ (by rw [length_cons]; omega)) hheight htotal, workSum_cons, hc]
    simp

theorem record_describes_tip_iff_connected :
    DescribesTip sampleData sampleConnected ↔ (Call.connect (Hash.ofBytes [2]) []).isConnect = true ∨
      sampleData.work (Hash.ofBytes [2]) = 0 :=
  record_describes_tip_iff (fun _ => ⟨0x207fffff, rfl⟩) callRun_sampleStore
    (.connect (Hash.ofBytes [2]) []) (by decide +kernel) (by decide +kernel)
    (eq_ok_of_isOk (by decide +kernel)) (by decide +kernel) (by decide +kernel)

end ChainStore

end HandshakeNode
