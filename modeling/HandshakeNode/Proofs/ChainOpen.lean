import HandshakeNode.Proofs.BestState
import HandshakeNode.Proofs.UtxoDetach

/-!
# The UTXO set after a crash

Between any two database transactions the database has the set of some block of its chain, with the
blocks above it stored, so that opening it connects them again. A prune breaks that when it trusts a
flush hash in memory that the database does not have: `InitConsistentState` leaves such a hash. The
main results are `ChainMachine.reopens_of_guarded` and `ChainMachine.reopen_fails_after_prune`.
-/

namespace HandshakeNode

open Ledger UtxoCache List Finmap Option

/-! ### The set of a chain -/

/-- The set that connecting the blocks of a chain, the tip first, leads to. The outputs of the
genesis block are not in it. -/
def coinsAt (w : BlockData) : List Hash → UtxoSet
  | [] => fun _ => none
  | h :: below =>
    if below = [] then fun _ => none
    else applyAll (w.block h below.length).steps (coinsAt w below)

structure ValidOn (w : BlockData) (h : Hash) (below : List Hash) : Prop where
  coinbase : ∃ cb txs, w.transactions h = cb :: txs ∧ cb.isCoinBase = true ∧
    ∀ tx ∈ txs, ¬ tx.isCoinBase = true
  held : InputsHeld (w.block h below.length).steps (coinsAt w below)
  once : ∀ t ∈ (w.block h below.length).steps, t.inputs.Nodup
  new : ∀ t ∈ (w.block h below.length).steps, ∀ o ∈ t.created, coinsAt w below o = none

/-- The spend journal of a block on a chain. -/
def journalOn (w : BlockData) (h : Hash) (below : List Hash) : List SpentTxOut :=
  journalAll (w.block h below.length).steps (coinsAt w below)

/-- The database names the tip of the chain. -/
def ChainDb.Records (db : ChainDb) (chain : List Hash) : Prop :=
  ∃ total workSum, workSum < 256 ^ 40 ∧
    db.bestState = some (serializeBestChainState (ChainStore.newBestState chain total workSum))

/-- No output of the block was unspent at an earlier block of the chain. -/
def NeverUnspent (w : BlockData) (h : Hash) (below : List Hash) : Prop :=
  ∀ c, c <:+ below → ∀ t ∈ (w.block h below.length).steps, ∀ o ∈ t.created, coinsAt w c o = none

section

variable {w : BlockData}

lemma coinsAt_cons (hbelow : below ≠ []) :
    coinsAt w (h :: below) = applyAll (w.block h below.length).steps (coinsAt w below) :=
  if_neg hbelow

lemma height_pos (hbelow : below ≠ []) (hlen : below.length < 2 ^ 31) :
    0 < (w.block h below.length).height := by
  have hpos := length_pos_of_ne_nil hbelow
  have hval : (Int32.ofNat below.length).toInt = below.length := by
    rw [Int32.toInt_ofNat_of_lt hlen]
  change 0 < Int32.ofNat below.length
  rw [Int32.lt_iff_toInt_lt, hval]
  change (0 : ℤ) < below.length
  omega

lemma coinsAt_sound : ∀ {chain}, chain.length ≤ 2 ^ 31 → Holding SpentTxOut.Sound (coinsAt w chain)
  | [], _ => fun _ _ h => by cases h
  | h :: below, hlen => by
    by_cases hbelow : below = []
    · subst hbelow
      exact fun _ _ h => by cases h
    rw [length_cons] at hlen
    rw [coinsAt_cons hbelow]
    have hsound : Holding SpentTxOut.Sound (coinsAt w below) := coinsAt_sound (by omega)
    refine hsound.applyAll fun s hs => ?_
    obtain ⟨tx, -, rfl⟩ := mem_map.1 hs
    exact sound_newCoins (height_pos (w := w) (h := h) hbelow (by omega))

lemma notStored_of_coins (h : ∀ t ∈ block.steps, ∀ o ∈ t.created, db.coins o = none) :
    NotStored U db block := by
  intro t ht o ho
  have hnone := h t ht o ho
  rw [UtxoDb.coins_eq, map_eq_none_iff] at hnone
  exact hnone

end

structure Stored (w : BlockData) (db : ChainDb) (chain : List Hash) : Prop where
  branch : w.Branch chain
  index : IndexOk w db.nodes
  nodes : ∀ h ∈ chain, h ∈ db.nodes
  short : chain.length ≤ 2 ^ 31
  record : db.Records chain
  tip : ∀ h ∈ chain.head?, h ∈ db.blocks
  valid : ∀ h below, h :: below <:+ chain → below ≠ [] → ValidOn w h below ∧ NeverUnspent w h below
  journal : ∀ h below, h :: below <:+ chain → below ≠ [] → ∀ js ∈ db.spendJournal.lookup h,
    js = journalOn w h below

/-- The UTXO set of the database is the one at `below`, and the blocks above it are stored. -/
structure FlushedAt (w : BlockData) (db : ChainDb) (above below : List Hash) : Prop where
  ne_nil : below ≠ []
  coins : db.utxo.coins = coinsAt w below
  stored : ∀ h ∈ above, h ∈ db.blocks

/-- A database as a crash may leave it. Before the first start there is no flush hash. -/
def Durable (w : BlockData) (db : ChainDb) (chain : List Hash) : Prop :=
  Stored w db chain ∧ ∃ above below, chain = above ++ below ∧ FlushedAt w db above below ∧
    (db.utxo.consistency = below.head? ∨ db.utxo.consistency = none ∧ above = [])

namespace Stored

section

variable (hs : Stored w db chain)
include hs

lemma ne_nil : chain ≠ [] := hs.branch.ne_nil

lemma lookup_nodes (hsuffix : h :: below <:+ chain) : db.nodes.lookup h = some below := by
  have hmem := hs.nodes h (hsuffix.mem mem_cons_self)
  have hbranch := hs.index _ _ (ChainDb.branch_of_mem hmem)
  obtain ⟨p, rfl⟩ := hsuffix
  rw [ChainDb.branch_of_mem hmem, hbranch.unique hs.branch.of_append]

lemma branch_eq (hsuffix : h :: below <:+ chain) : db.branch h = h :: below := by
  rw [ChainDb.branch, hs.lookup_nodes hsuffix]
  rfl

lemma fetchBlock (hsuffix : h :: below <:+ chain)
    (hstored : h ∈ db.blocks) : db.dbFetchBlockByNode w h = .ok (w.block h below.length) := by
  rw [ChainDb.dbFetchBlockByNode, if_pos hstored, hs.branch_eq hsuffix]
  rfl

lemma branch_child (hnode : h ∈ db.nodes) (hgenesis : h ≠ w.genesis)
    (hprev : chain.head? = some (w.prevBlock h)) : db.branch h = h :: chain := by
  obtain ⟨rest, rfl⟩ := List.head?_eq_some_iff.1 hprev
  have hbranch := hs.index _ _ (ChainDb.branch_of_mem hnode)
  have := hbranch.unique (.cons hgenesis hs.branch)
  rw [ChainDb.branch, tail_cons] at this
  rw [ChainDb.branch, this]

lemma of_frame (hrecord : db'.bestState = db.bestState)
    (hindex : IndexOk w db'.nodes) (hnodes : ∀ h ∈ db.nodes, h ∈ db'.nodes)
    (hblocks : db.blocks ⊆ db'.blocks) (hjournal : db'.spendJournal = db.spendJournal) :
    Stored w db' chain where
  branch := hs.branch
  index := hindex
  nodes h hh := hnodes h (hs.nodes h hh)
  short := hs.short
  record := by
    rw [ChainDb.Records, hrecord]
    exact hs.record
  tip h hh := hblocks (hs.tip h hh)
  valid := hs.valid
  journal := by
    rw [hjournal]
    exact hs.journal

lemma connect (hnode : h ∈ db.nodes) (hgenesis : h ≠ w.genesis)
    (hprev : chain.head? = some (w.prevBlock h)) (hshort : chain.length < 2 ^ 31)
    (hvalid : ValidOn w h chain) (hnever : NeverUnspent w h chain) (hnodes : db'.nodes = db.nodes)
    (hstored : h ∈ db'.blocks) (hrecord : db'.Records (h :: chain))
    (hjournal : ∀ js ∈ db'.spendJournal.lookup h, js = journalOn w h chain)
    (hothers : ∀ x, x ≠ h → ∀ js ∈ db'.spendJournal.lookup x, js ∈ db.spendJournal.lookup x) :
    Stored w db' (h :: chain) := by
  have hbranch : w.Branch (h :: chain) := by
    obtain ⟨rest, rfl⟩ := List.head?_eq_some_iff.1 hprev
    exact .cons hgenesis hs.branch
  refine ⟨hbranch, hnodes ▸ hs.index, ?_, ?_, hrecord, ?_, ?_, ?_⟩
  · rw [hnodes]
    exact forall_mem_cons.2 ⟨hnode, hs.nodes⟩
  · rw [length_cons]
    omega
  · intro x hx
    cases hx
    exact hstored
  · intro x below hsuffix hne
    rcases suffix_cons_iff.1 hsuffix with heq | hsuffix
    · cases heq
      exact ⟨hvalid, hnever⟩
    · exact hs.valid x below hsuffix hne
  · intro x below hsuffix hne js hjs
    rcases suffix_cons_iff.1 hsuffix with heq | hbelow
    · cases heq
      exact hjournal js hjs
    · have hx : x ≠ h := by
        rintro rfl
        exact (nodup_cons.1 hbranch.nodup).1 (hbelow.mem mem_cons_self)
      exact hs.journal x below hbelow hne js (hothers x hx js hjs)

end

lemma disconnect (hs : Stored w db (h :: chain)) (hne : chain ≠ [])
    (hnodes : db'.nodes = db.nodes) (hstored : ∀ x ∈ chain.head?, x ∈ db'.blocks)
    (hrecord : db'.Records chain)
    (hjournal : ∀ x, x ≠ h → ∀ js ∈ db'.spendJournal.lookup x, js ∈ db.spendJournal.lookup x) :
    Stored w db' chain := by
  obtain ⟨p, rest, rfl⟩ := exists_cons_of_ne_nil hne
  refine ⟨hs.branch.tail.2.2, hnodes ▸ hs.index, ?_, ?_, hrecord, hstored, ?_, ?_⟩
  · rw [hnodes]
    exact fun x hx => hs.nodes x (mem_cons_of_mem _ hx)
  · have := hs.short
    rw [length_cons] at this
    omega
  · intro x below hsuffix hne
    exact hs.valid x below (suffix_cons_iff.2 (.inr hsuffix)) hne
  · intro x below hsuffix hne js hjs
    have hx : x ≠ h := by
      rintro rfl
      exact (nodup_cons.1 hs.branch.nodup).1 (hsuffix.mem mem_cons_self)
    exact hs.journal x below (suffix_cons_iff.2 (.inr hsuffix)) hne js (hjournal x hx js hjs)

lemma setUtxo (hs : Stored w db chain) (utxo : UtxoDb) : Stored w { db with utxo := utxo } chain :=
  hs.of_frame rfl hs.index (fun _ hh => hh) (Finset.Subset.refl _) rfl

end Stored

structure Opened (w : BlockData) (s : ChainStore) : Prop where
  durable : Durable w s.db s.bestChain
  empty : ∃ n, s.utxoCache.cachedEntries.maps = [⟨∅, n⟩]

/-- The cache stands for the set of the chain without the blocks that are still to be connected. -/
structure Ready (w : BlockData) (s : ChainStore) (pending : List Hash) : Prop where
  stored : Stored w s.db s.bestChain
  flushed : ∃ mid below, s.bestChain = pending.reverse ++ (mid ++ below) ∧
    FlushedAt w s.db (pending.reverse ++ mid) below ∧ s.db.utxo.consistency = below.head? ∧
    s.utxoCache.Refines s.db.utxo (coinsAt w (mid ++ below))

lemma UtxoCache.Refines.of_entries {s s' : UtxoCache} (h : s.Refines db U)
    (he : s'.cachedEntries = s.cachedEntries) : s'.Refines db U where
  wf := he ▸ h.wf
  coherent := he ▸ h.coherent
  scripted := he ▸ h.scripted
  effective := he ▸ h.effective

namespace Ready

lemma durable (h : Ready w s pending) : Durable w s.db s.bestChain := by
  obtain ⟨mid, below, hchain, hflushed, hcons, -⟩ := h.flushed
  exact ⟨h.stored, pending.reverse ++ mid, below, by rw [hchain, append_assoc], hflushed,
    .inl hcons⟩

lemma refines (h : Ready w s []) : s.utxoCache.Refines s.db.utxo (coinsAt w s.bestChain) := by
  obtain ⟨mid, below, hchain, -, -, hrefines⟩ := h.flushed
  rw [hchain]
  exact hrefines

lemma flushedAt (h : Ready w s pending) (hash : Hash) (now : ℤ) :
    Ready w (s.flushedAt hash now) pending := by
  obtain ⟨mid, below, hchain, hflushed, hcons, hrefines⟩ := h.flushed
  exact ⟨h.stored, mid, below, hchain, hflushed, hcons, hrefines.of_entries rfl⟩

end Ready

namespace ChainStore

variable {w : BlockData} {db : ChainDb} {s : ChainStore} {h : Hash} {env : CallEnv}

lemma length_bigBytes_of_lt (h : workSum < 256 ^ 40) : (bigBytes workSum).length < 2 ^ 32 :=
  lt_of_le_of_lt (length_bigBytes_le h) (by decide)

lemma initChainState_ok (mem : Memory) (max : UInt64) (h : Durable w db chain) :
    ∃ s, initChainState w mem max db = .ok s ∧ Opened w s ∧ s.db = db ∧ s.bestChain = chain := by
  obtain ⟨total, workSum, hwork, hrecord⟩ := h.1.record
  obtain ⟨tip, rest, rfl⟩ := exists_cons_of_ne_nil h.1.ne_nil
  have hread := deserializeBestChainState_serialize (newBestState (tip :: rest) total workSum)
    (length_bigBytes_of_lt hwork)
  refine ⟨⟨db, tip :: rest, total, newUtxoCache mem max⟩, ?_, ⟨h, _, rfl⟩, rfl, rfl⟩
  have hlookup := h.1.lookup_nodes suffix_rfl
  have hfetch := h.1.fetchBlock suffix_rfl (h.1.tip tip rfl)
  rw [initChainState, hrecord]
  dsimp only
  rw [hread]
  simp only [ok_bind, newBestState, headD_cons, hlookup, hfetch]
  rfl

def blankDb : ChainDb := ⟨none, ∅, ∅, ∅, ⟨∅, none⟩⟩

lemma coins_blank : blankDb.utxo.coins = fun _ => none := by
  rfl

lemma workSum_lt (hmined : w.Mined) (hlen : chain.length ≤ 2 ^ 31) : w.workSum chain < 256 ^ 40 := by
  calc w.workSum chain ≤ chain.length * 2 ^ 256 := workSum_le hmined chain
    _ ≤ 2 ^ 31 * 2 ^ 256 := Nat.mul_le_mul_right _ hlen
    _ < 256 ^ 40 := by decide +kernel

lemma opened_createChainState (mem : Memory) (max : UInt64) (hmined : w.Mined) :
    Opened w (createChainState w mem max blankDb) := by
  have hsuffix : ∀ {h} {below}, h :: below <:+ [w.genesis] → below = [] := by
    intro h below hs
    have := hs.length_le
    simpa using this
  refine ⟨⟨?_, [], [w.genesis], rfl, ⟨by simp, coins_blank, by simp⟩, .inr ⟨rfl, rfl⟩⟩, _, rfl⟩
  refine ⟨.root, (indexOk_empty w).insert .root, ?_, by simp [createChainState],
    ⟨_, _, workSum_lt hmined (by simp), rfl⟩, ?_, ?_, ?_⟩
  · intro h hh
    rw [mem_singleton.1 hh]
    exact mem_insert.2 (.inl rfl)
  · intro h hh
    cases hh
    exact Finset.mem_insert_self _ _
  · intro h below hs hne
    exact absurd (hsuffix hs) hne
  · intro h below hs hne
    exact absurd (hsuffix hs) hne

lemma startReplay_ok (now : ℤ) (h : Opened w s) :
    ∃ s' nodes, startReplay now s = .ok (s', nodes) ∧ s'.bestChain = s.bestChain ∧
      Ready w s' (nodes.getD []) := by
  obtain ⟨⟨hstored, above, below, hchain, hflushed, hcons⟩, n, hempty⟩ := h
  obtain ⟨f, rest, rfl⟩ := exists_cons_of_ne_nil hflushed.ne_nil
  have hrefines : s.utxoCache.Refines s.db.utxo (coinsAt w (f :: rest)) := by
    rw [← hflushed.coins]
    exact refines_of_empty hempty _
  unfold startReplay
  rcases hcons with hcons | ⟨hcons, rfl⟩
  · rw [List.head?_cons] at hcons
    rw [hcons]
    dsimp only
    split_ifs with htip hnode
    · -- a flush point at the tip has nothing above it
      have habove : above = [] := by
        rcases above with - | ⟨x, above⟩
        · rfl
        · have hnodup := hstored.branch.nodup
          rw [hchain] at htip hnodup
          exact absurd (htip ▸ mem_append_right _ mem_cons_self)
            (nodup_cons.1 hnodup).1
      subst habove
      have hready : Ready w s [] := ⟨hstored, [], f :: rest, hchain, hflushed, hcons, hrefines⟩
      exact ⟨_, none, rfl, rfl, hready.flushedAt _ now⟩
    · have hsuffix : f :: rest <:+ s.bestChain := ⟨above, hchain.symm⟩
      have hfork : ChainState.findFork s.bestChain (s.db.branch f) = some f := by
        rw [hstored.branch_eq hsuffix, ChainState.findFork, dropWhile_cons_of_neg]
        · rfl
        · simpa using hsuffix.mem mem_cons_self
      have habove : ChainState.above (some f) s.bestChain = above := by
        have hnodup := hstored.branch.nodup
        rw [hchain] at hnodup ⊢
        have hnot : ∀ x ∈ above, x ≠ f := fun x hx heq =>
          (nodup_append.1 hnodup).2.2 x hx f mem_cons_self heq
        rw [ChainState.above, takeWhile_append_of_pos (by simpa using hnot),
          takeWhile_cons_of_neg (by simp), append_nil]
      rw [hfork]
      dsimp only
      rw [habove]
      refine ⟨s, some above.reverse, rfl, rfl, hstored, [], f :: rest, ?_, ?_, hcons, hrefines⟩
      · rw [getD_some, reverse_reverse]
        exact hchain
      · rw [getD_some, reverse_reverse, append_nil]
        exact hflushed
    · exact absurd (hstored.nodes f (hchain ▸ mem_append_right _ mem_cons_self)) hnode
  · rw [hcons]
    have hhead : s.bestChain.headD default = f := by
      rw [hchain]
      rfl
    rw [hhead]
    set utxo := s.db.utxo.dbPutUtxoStateConsistency f
    have hcoins : utxo.coins = coinsAt w (f :: rest) := hflushed.coins
    have hready : Ready w { s with db := { s.db with utxo := utxo } } [] := by
      refine ⟨hstored.setUtxo utxo, [], f :: rest, hchain,
        ⟨hflushed.ne_nil, hcoins, hflushed.stored⟩, rfl, ?_⟩
      rw [nil_append, ← hcoins]
      exact refines_of_empty hempty utxo
    exact ⟨_, none, rfl, rfl, hready.flushedAt _ now⟩

lemma connectTransactions_ok (mem : Memory) {cache : UtxoCache}
    (hflushed : FlushedAt w db pending below) (hvalid : ValidOn w h (mid ++ below))
    (hnever : NeverUnspent w h (mid ++ below))
    (hcache : cache.Refines db.utxo (coinsAt w (mid ++ below))) :
    ∃ cache', cache.connectTransactions mem db.utxo (w.block h (mid ++ below).length) [] =
        .ok (cache', journalOn w h (mid ++ below)) ∧
      cache'.Refines db.utxo (coinsAt w (h :: (mid ++ below))) := by
  have hne : mid ++ below ≠ [] := append_ne_nil_of_right_ne_nil _ hflushed.ne_nil
  rw [coinsAt_cons hne]
  refine hcache.connectTransactions hvalid.held hvalid.once (notStored_of_coins ?_)
  rw [hflushed.coins]
  exact hnever below (suffix_append mid below)

lemma replayBlock_ok (mem : Memory) (order : RangeOrder OutPoint) (now : ℤ)
    (h : Ready w s (node :: pending)) :
    ∃ s', replayBlock w mem order now s node = .ok s' ∧ s'.bestChain = s.bestChain ∧
      Ready w s' pending := by
  obtain ⟨mid, below, hchain, hflushed, hcons, hrefines⟩ := h.flushed
  rw [reverse_cons, append_assoc] at hchain hflushed
  have hsuffix : node :: (mid ++ below) <:+ s.bestChain := ⟨_, hchain.symm⟩
  have hne : mid ++ below ≠ [] := append_ne_nil_of_right_ne_nil _ hflushed.ne_nil
  have hfetch := h.stored.fetchBlock hsuffix (hflushed.stored node (by simp))
  obtain ⟨hvalid, hnever⟩ := h.stored.valid node _ hsuffix hne
  obtain ⟨cache, hconnect, hcache⟩ := connectTransactions_ok mem hflushed hvalid hnever
    hrefines
  obtain ⟨cache', utxo, hflush, hcases⟩ := hcache.flush_cases mem order .ifNeeded node now
  refine ⟨{ s with utxoCache := cache', db := { s.db with utxo := utxo } }, ?_, rfl, ?_⟩
  · rw [replayBlock, hfetch, ok_bind, hconnect, ok_bind]
    dsimp only
    rw [hflush]
    rfl
  rcases hcases with ⟨hsame, -⟩ | hdone
  · cases hsame
    exact ⟨h.stored, node :: mid, below, hchain, hflushed, hcons, hcache⟩
  · refine ⟨h.stored.setUtxo _, [], node :: (mid ++ below), hchain, ⟨by simp, hdone.coins, ?_⟩,
      hdone.consistency, hdone.refines⟩
    intro x hx
    refine hflushed.stored x ?_
    simp only [append_nil] at hx
    exact mem_append_left _ hx

lemma reopen_ok (mem : Memory) (order : RangeOrder OutPoint) (max : UInt64) (now : ℤ)
    (hdb : Durable w db chain) :
    ∃ s, reopen w mem order max now db = .ok s ∧ s.bestChain = chain ∧ Ready w s [] := by
  obtain ⟨s0, hinit, hopened, -, hchain0⟩ := initChainState_ok mem max hdb
  obtain ⟨s1, nodes, hstart, hchain1, hready⟩ := startReplay_ok now hopened
  rw [reopen, hinit, ok_bind, initConsistentState, hstart]
  rcases nodes with - | nodes
  · exact ⟨s1, rfl, hchain1.trans hchain0, hready⟩
  have hloop : ∀ pending (s : ChainStore), Ready w s pending → ∃ s',
      pending.foldlM (replayBlock w mem order now) s = .ok s' ∧ s'.bestChain = s.bestChain ∧
        Ready w s' [] := by
    intro pending
    induction pending with
    | nil => exact fun s h => ⟨s, rfl, rfl, h⟩
    | cons node pending ih =>
      intro s h
      obtain ⟨s', hok, hchain, h'⟩ := replayBlock_ok mem order now h
      obtain ⟨s'', hok', hchain', h''⟩ := ih s' h'
      refine ⟨s'', ?_, hchain'.trans hchain, h''⟩
      rw [foldlM_cons, hok]
      exact hok'
  obtain ⟨s2, hok, hchain2, hready2⟩ := hloop nodes s1 hready
  refine ⟨s2.flushedAt (s2.bestChain.headD default) now, ?_,
    hchain2.trans (hchain1.trans hchain0), hready2.flushedAt _ now⟩
  change (nodes.foldlM (replayBlock w mem order now) s1 >>= _) = _
  rw [hok]
  rfl

lemma flushUtxoCache_ready (h : Ready w s [])
    (hok : s.flushUtxoCache mem order env mode (s.bestChain.headD default) = (.ok (), s')) :
    Ready w s' [] ∧ s'.bestChain = s.bestChain := by
  obtain ⟨cache, utxo, hflush, rfl⟩ := flushUtxoCache_eq_ok hok
  obtain ⟨_, _, hflush', hcases⟩ := h.refines.flush_cases mem order mode
    (s.bestChain.headD default) env.now
  cases hflush'.symm.trans hflush
  refine ⟨?_, rfl⟩
  rcases hcases with ⟨hsame, -⟩ | hdone
  · cases hsame
    exact h
  · obtain ⟨tip, rest, hchain⟩ := exists_cons_of_ne_nil h.stored.ne_nil
    have hcons := hdone.consistency
    rw [hchain] at hcons
    refine ⟨h.stored.setUtxo _, [], s.bestChain, rfl, ⟨h.stored.ne_nil, hdone.coins, by simp⟩, ?_,
      hdone.refines⟩
    rw [hchain]
    exact hcons

lemma nodeHeight_eq (hs : Stored w db chain) (hsuffix : h :: below <:+ chain) :
    db.nodeHeight h = some below.length := by
  rw [ChainDb.nodeHeight, hs.lookup_nodes hsuffix]
  rfl

/-- The loop body of `flushNeededAfterPrune`. -/
def higherBlock (db : ChainDb) (highest : ℤ) (hash : Hash) : ℤ :=
  match db.nodeHeight hash with
  | none => highest
  | some height => if (height : ℤ) > highest then height else highest

lemma le_higherBlock {hash : Hash} : highest ≤ higherBlock db highest hash := by
  unfold higherBlock
  split
  · exact le_rfl
  · split_ifs with hlt
    · exact hlt.le
    · exact le_rfl

/-- Blocks that are deleted without a flush lie below the block of the last flush. -/
theorem lt_of_not_flushNeeded {lastFlushHash : Hash}
    (h : flushNeededAfterPrune db lastFlushHash deleted = false)
    (hlast : db.nodeHeight lastFlushHash = some n) (hx : x ∈ deleted)
    (hheight : db.nodeHeight x = some k) : k < n := by
  have hreach : ∀ (l : List Hash) (highest : ℤ), highest ≤ l.foldl (higherBlock db) highest ∧
      (x ∈ l → (k : ℤ) ≤ l.foldl (higherBlock db) highest) := by
    intro l
    induction l with
    | nil => simp
    | cons y l ih =>
      intro highest
      obtain ⟨hle, hmem⟩ := ih (higherBlock db highest y)
      refine ⟨le_higherBlock.trans hle, fun hxl => ?_⟩
      rcases mem_cons.1 hxl with rfl | hxl
      · refine le_trans ?_ hle
        simp only [higherBlock, hheight]
        split_ifs with hlt
        · exact le_rfl
        · exact not_lt.1 hlt
      · exact hmem hxl
  have hk := (hreach deleted (-1)).2 hx
  unfold flushNeededAfterPrune at h
  rw [hlast] at h
  have hlt := of_decide_eq_false h
  rw [not_le] at hlt
  have hkn := lt_of_le_of_lt hk hlt
  exact_mod_cast hkn

lemma lookup_prunedJournal {deleted : List Hash} {journal : GoMap Hash (List SpentTxOut)} :
    (deleted.foldl (fun journal h => journal.erase h) journal).lookup h = some js →
      journal.lookup h = some js := by
  refine foldlRecOn (motive := fun j : GoMap Hash _ => j.lookup h = _ → _) deleted _ id ?_
  intro j ih d _ hjs
  refine ih ?_
  by_cases hd : h = d
  · subst hd
    rw [lookup_erase] at hjs
    cases hjs
  · rwa [lookup_erase_ne hd] at hjs

structure Connectable (w : BlockData) (s : ChainStore) (hash : Hash) : Prop where
  node : hash ∈ s.db.nodes
  not_genesis : hash ≠ w.genesis
  short : s.bestChain.length < 2 ^ 31
  valid : ValidOn w hash s.bestChain

/-- The block makes no output again that was unspent before, its data is stored and stays so, and
when blocks are deleted the flush hash in memory is the one in the database. -/
structure Guarded (w : BlockData) (s : ChainStore) (hash : Hash) (env : CallEnv) : Prop
    extends Connectable w s hash where
  never : NeverUnspent w hash s.bestChain
  stored : hash ∈ s.db.blocks
  kept : hash ∉ env.deleted.getD []
  flushed : env.deleted.getD [] ≠ [] → s.db.utxo.consistency = some s.utxoCache.lastFlushHash

lemma attachBlock_ready {hash : Hash} (hmined : w.Mined)
    (h : Ready w s []) (hg : Guarded w s hash env)
    (hok : attachBlock w mem order env hash s = .ok s') :
    Ready w s' [] ∧ s'.bestChain = hash :: s.bestChain := by
  obtain ⟨mid, below, hchain, hflushed, hcons, hrefines⟩ := h.flushed
  rw [reverse_nil, nil_append] at hchain hflushed
  obtain ⟨⟨cache, stxos⟩, hconnect, hok⟩ := bind_eq_ok.1 hok
  dsimp only at hok
  generalize hcommit : connectCommit w mem order env _ stxos _ = r at hok
  obtain ⟨e | ⟨⟩, s1⟩ := r
  · cases hok
  cases hok
  obtain ⟨hhead, -, cache', db', hbody, rfl⟩ := connectCommit_eq_ok hcommit
  have hbranch : s.db.branch hash = hash :: s.bestChain :=
    h.stored.branch_child hg.node hg.not_genesis hhead
  obtain ⟨cache1, hconnect1, hcache⟩ := connectTransactions_ok mem (h := hash) hflushed
    (hchain ▸ hg.valid) (hchain ▸ hg.never) hrefines
  rw [hbranch, tail_cons] at hconnect hbody
  rw [← hchain] at hconnect1 hcache
  rw [hconnect1] at hconnect
  cases hconnect
  obtain ⟨db1, hprune, rfl⟩ := connectUpdate_eq_ok hbody
  refine ⟨?_, hbranch⟩
  change Ready w ⟨_, s.db.branch hash, _, cache'⟩ []
  rw [hbranch]
  have hblocks : ∀ x, x ∈ s.db.blocks → x ∉ env.deleted.getD [] →
      x ∈ (s.db.pruned (env.deleted.getD [])).blocks := by
    intro x hx hdel
    exact Finset.mem_sdiff.2 ⟨hx, by simpa using hdel⟩
  -- the record, the index and the journals are the same with and without a flush
  have hstored : ∀ utxo : UtxoDb, Stored w { s.db.pruned (env.deleted.getD []) with
      bestState := some (serializeBestChainState (newBestState (s.db.branch hash)
        (s.totalWith (w.block hash s.bestChain.length)) (w.workSum (s.db.branch hash))))
      spendJournal := (s.db.pruned (env.deleted.getD [])).spendJournal.insert hash
        (journalOn w hash s.bestChain)
      utxo := utxo } (hash :: s.bestChain) := by
    intro utxo
    refine h.stored.connect hg.node hg.not_genesis hhead hg.short hg.valid hg.never rfl
      (hblocks hash hg.stored hg.kept) ?_ ?_ ?_
    · rw [hbranch]
      refine ⟨_, _, workSum_lt hmined ?_, rfl⟩
      have := hg.short
      rw [length_cons]
      omega
    · intro js hjs
      rw [lookup_insert] at hjs
      cases hjs
      rfl
    · intro x hx js hjs
      rw [lookup_insert_of_ne _ hx] at hjs
      exact lookup_prunedJournal hjs
  rcases pruneUpdate_eq_ok hprune with ⟨rfl, rfl, hkeep⟩ | ⟨utxo, hflush, rfl⟩
  · refine ⟨hstored s.db.utxo, hash :: mid, below, by rw [hchain]; rfl,
      ⟨hflushed.ne_nil, hflushed.coins, ?_⟩, hcons, ?_⟩
    · intro x hx
      rcases mem_cons.1 hx with rfl | hx
      · exact hblocks x hg.stored hg.kept
      refine hblocks x (hflushed.stored x hx) fun hdel => ?_
      -- a block above the flush point is higher than it, and would have caused a flush
      have hne : env.deleted.getD [] ≠ [] := ne_nil_of_mem hdel
      obtain ⟨f, rest, rfl⟩ := exists_cons_of_ne_nil hflushed.ne_nil
      have hlast : cache'.lastFlushHash = f := by
        rw [lastFlushHash_connectTxs hconnect1]
        exact some.inj ((hg.flushed hne).symm.trans hcons)
      obtain ⟨p, q, rfl⟩ := append_of_mem hx
      have hf : f :: rest <:+ s.bestChain := ⟨p ++ x :: q, by rw [hchain]⟩
      have hxs : x :: (q ++ f :: rest) <:+ s.bestChain := ⟨p, by rw [hchain]; simp⟩
      have hlt := lt_of_not_flushNeeded (hkeep hne) (hlast ▸ nodeHeight_eq h.stored hf) hdel
        (nodeHeight_eq h.stored hxs)
      rw [length_append, length_cons] at hlt
      omega
    · rw [cons_append, ← hchain]
      exact hcache
  · have hdone := hcache.flush_required hflush
    exact ⟨hstored utxo, [], hash :: s.bestChain, rfl, ⟨by simp, hdone.coins, by simp⟩,
      hdone.consistency, hdone.refines⟩

lemma fetchedJournal_eq (hs : Stored w db chain) (hsuffix : h :: below <:+ chain)
    (hne : below ≠ []) (hok : db.dbFetchSpendJournalEntry (w.block h below.length) = .ok stxos) :
    stxos = journalOn w h below := by
  obtain ⟨hvalid, -⟩ := hs.valid h below hsuffix hne
  obtain ⟨cb, txs, htxs, hcb, hrest⟩ := hvalid.coinbase
  have hlen : (journalOn w h below).length = (txs.map fun tx => tx.txIn.length).sum :=
    UtxoViewpoint.length_journalAll_steps htxs hcb hrest hvalid.held
  have hcount : countSpentOutputs (w.block h below.length) =
      .ok (txs.map fun tx => tx.txIn.length).sum := by
    unfold countSpentOutputs
    rw [show (w.block h below.length).transactions = cb :: txs from htxs]
  unfold ChainDb.dbFetchSpendJournalEntry at hok
  rw [hcount, ok_bind] at hok
  rcases hjournal : db.spendJournal.lookup (w.block h below.length).hash with - | js <;>
    rw [hjournal] at hok
  · obtain ⟨_, hzero, hok⟩ := bind_eq_ok.1 hok
    have hsum := not_not.1 (failIf_eq_ok.1 hzero)
    cases hok
    exact (length_eq_zero_iff.1 (hlen.trans hsum)).symm
  · cases hok
    exact hs.journal h below hsuffix hne stxos hjournal

open UtxoViewpoint in
lemma detachBlock_ready (hmined : w.Mined) (h : Ready w s [])
    (hview : ViewOk ∅ (coinsAt w s.bestChain) view)
    (hok : detachBlock w mem order byHash env view s = .ok (s', view')) :
    Ready w s' [] ∧ ViewOk ∅ (coinsAt w s'.bestChain) view' := by
  obtain ⟨tip, below, hchain⟩ := exists_cons_of_ne_nil h.stored.ne_nil
  have hrefines := h.refines
  have hstored := h.stored
  rw [hchain] at hrefines hstored hview
  have hfetch := hstored.fetchBlock suffix_rfl (hstored.tip tip rfl)
  have htip : s.bestChain.headD default = tip := by
    rw [hchain]
    rfl
  obtain ⟨block, hblock, hok⟩ := bind_eq_ok.1 hok
  rw [htip, hfetch] at hblock
  cases hblock
  obtain ⟨stxos, hstxos, hok⟩ := bind_eq_ok.1 hok
  dsimp only at hok
  obtain ⟨view1, hdisconnect, hok⟩ := bind_eq_ok.1 hok
  generalize hcommit : disconnectBlock w mem order env _ view1 _ = r at hok
  obtain ⟨e | ⟨⟩, s1⟩ := r
  · cases hok
  cases hok
  obtain ⟨-, p, rest, htail, hp, cache', db', hbody, rfl⟩ := disconnectBlock_eq_ok hcommit
  have hbranch : s.db.branch tip = tip :: below := hstored.branch_eq suffix_rfl
  obtain rfl : below = p :: rest := by
    rw [← htail]
    exact (congrArg List.tail hbranch).symm
  have hne : p :: rest ≠ [] := by simp
  have hlen := hstored.short
  rw [length_cons] at hlen
  obtain ⟨hvalid, -⟩ := hstored.valid tip _ suffix_rfl hne
  obtain ⟨cb, txs, htxs, hcb, hothers⟩ := hvalid.coinbase
  obtain rfl := fetchedJournal_eq hstored suffix_rfl hne hstxos
  obtain ⟨hcache, view2, hdisconnect2, hdetached⟩ := detach_ok mem
    (byHash s.db.utxo) (w.block tip (p :: rest).length) htxs hcb hothers
    (height_pos hne (by omega)) hvalid.held hvalid.new (coinsAt_sound (by omega)) hrefines hview
  cases hdisconnect2.symm.trans hdisconnect
  rw [show s.db.branch (w.block tip (p :: rest).length).hash = _ from hbranch] at hbody
  obtain ⟨flushed, utxo, hflush, hput, -, rfl⟩ := disconnectUpdate_eq_ok hbody
  have hdone := hcache.flush_required hflush
  obtain ⟨utxo1, hput1, hcoins, hcons⟩ := dbPutUtxoView_ok hdetached order hdone.coins
  cases hput1.symm.trans hput
  refine ⟨⟨?_, [], p :: rest, rfl, ⟨hne, hcoins, by simp⟩, hcons.trans hdone.consistency, ?_⟩,
    hdetached.commit order⟩
  · refine hstored.disconnect hne rfl ?_ ⟨_, _, workSum_lt hmined hstored.short, rfl⟩ ?_
    · intro x hx
      cases hx
      exact hp
    · intro x hx js hjs
      exact (lookup_erase_ne hx).symm.trans hjs
  · obtain ⟨n, hempty⟩ := hdone.empty
    rw [nil_append, ← hcoins]
    exact refines_of_empty hempty utxo

end ChainStore

namespace ChainMachine

open ChainStore UtxoViewpoint

variable (w : BlockData) (byHash : UtxoDb → Hash → Result (Option UtxoEntry))

/-- The machines that steps lead to whose connects satisfy `P`. How maps are visited, how much
memory entries take and how much the cache may take can change with every step. -/
inductive Reached (P : ChainStore → Hash → CallEnv → Prop) : ChainMachine → Prop
  | blank (mem : Memory) (max : UInt64) : Reached P (blank mem max)
  | step {c c' : ChainMachine} (h : Reached P c) (mem : Memory) (order : RangeOrder OutPoint)
      (max : UInt64) (a : ChainAction)
      (hconnect : ∀ hash env, a = .connect hash env → P c.store hash env)
      (hstep : c.step w mem order max byHash a = some c') : Reached P c'

def Inv (c : ChainMachine) : Prop :=
  match c.phase with
  | .closed => c.store.db = blankDb ∨ ∃ chain, Durable w c.store.db chain
  | .opened => Opened w c.store
  | .replaying pending => Ready w c.store pending
  | .running view => Ready w c.store [] ∧ ViewOk ∅ (coinsAt w c.store.bestChain) view

variable {w byHash} {c : ChainMachine} {mem : Memory} {max : UInt64} {db : ChainDb} {s : ChainStore}

/-- A crash at any time leaves a database that can be opened, with the chain that was in memory. -/
theorem Inv.durable (h : Inv w c) : c.store.db = blankDb ∧ c.phase = .closed ∨
    ∃ chain, Durable w c.store.db chain ∧ (c.phase ≠ .closed → chain = c.store.bestChain) := by
  unfold Inv at h
  rcases hphase : c.phase with - | - | pending | view <;> rw [hphase] at h
  · rcases h with h | ⟨chain, h⟩
    · exact .inl ⟨h, rfl⟩
    · exact .inr ⟨chain, h, fun hne => absurd rfl hne⟩
  · exact .inr ⟨_, h.durable, fun _ => rfl⟩
  · exact .inr ⟨_, Ready.durable h, fun _ => rfl⟩
  · exact .inr ⟨_, h.1.durable, fun _ => rfl⟩

lemma ok_of_toOption {r : Result α} (h : r.toOption.map f = some b) : ∃ a, r = .ok a ∧ f a = b := by
  rcases r with e | a
  · cases h
  · exact ⟨a, rfl, some.inj h⟩

lemma openDb_inv (hmined : w.Mined)
    (h : db = blankDb ∨ ∃ chain, Durable w db chain) (hok : initChainState w mem max db = .ok s) :
    Opened w s := by
  rcases h with rfl | ⟨chain, hdurable⟩
  · cases hok
    exact opened_createChainState _ _ hmined
  · obtain ⟨s', hok', hopened, -⟩ := initChainState_ok mem max hdurable
    cases hok'.symm.trans hok
    exact hopened

lemma grow_inv (h : Ready w s []) (hindex : IndexOk w nodes)
    (hnodes : ∀ h ∈ s.db.nodes, h ∈ nodes) (hblocks : s.db.blocks ⊆ blocks) :
    Ready w { s with db := { s.db with nodes := nodes, blocks := blocks } } [] := by
  obtain ⟨mid, below, hchain, hflushed, hcons, hrefines⟩ := h.flushed
  exact ⟨h.stored.of_frame rfl hindex hnodes hblocks rfl, mid, below, hchain,
    ⟨hflushed.ne_nil, hflushed.coins, fun x hx => hblocks (hflushed.stored x hx)⟩, hcons, hrefines⟩

lemma step_inv (hmined : w.Mined) (h : Inv w c) {a : ChainAction}
    (hconnect : ∀ hash env, a = .connect hash env → Guarded w c.store hash env)
    (hstep : c.step w mem order max byHash a = some c') : Inv w c' := by
  obtain ⟨s, phase⟩ := c
  cases a with
  | crash =>
    cases hstep
    rcases h.durable with ⟨hblank, -⟩ | ⟨chain, hdurable, -⟩
    · exact .inl hblank
    · exact .inr ⟨chain, hdurable⟩
  | openDb =>
    rcases phase with - | - | pending | view <;> try cases hstep
    obtain ⟨s', hok, rfl⟩ := ok_of_toOption hstep
    exact openDb_inv hmined h hok
  | start now =>
    rcases phase with - | - | pending | view <;> try cases hstep
    obtain ⟨⟨s', nodes⟩, hok, rfl⟩ := ok_of_toOption hstep
    obtain ⟨s'', nodes', hok', -, hready⟩ := startReplay_ok now h
    cases hok'.symm.trans hok
    rcases nodes with - | nodes
    · exact ⟨hready, viewOk_empty _ _⟩
    · exact hready
  | replay now =>
    rcases phase with - | - | ⟨- | ⟨node, pending⟩⟩ | view <;> try cases hstep
    obtain ⟨s', hok, rfl⟩ := ok_of_toOption hstep
    obtain ⟨s'', hok', -, hready⟩ := replayBlock_ok mem order now h
    cases hok'.symm.trans hok
    exact hready
  | finish now =>
    rcases phase with - | - | ⟨- | ⟨node, pending⟩⟩ | view <;> try cases hstep
    exact ⟨Ready.flushedAt h _ now, viewOk_empty _ _⟩
  | storeBlock hash =>
    rcases phase with - | - | pending | view <;> try cases hstep
    exact ⟨grow_inv h.1 h.1.stored.index (fun _ hh => hh) (Finset.subset_insert hash _), h.2⟩
  | addNode hash =>
    rcases phase with - | - | pending | view <;> try cases hstep
    rcases hprev : s.db.nodes.lookup (w.prevBlock hash) with - | ancestors
    · simp [step, hprev] at hstep
    by_cases hmem : hash ∈ s.db.nodes
    · simp [step, hprev, hmem] at hstep
    simp only [step, hprev, hmem, if_false, some.injEq] at hstep
    subst hstep
    have hgenesis : hash ≠ w.genesis := by
      rintro rfl
      exact hmem (h.1.stored.nodes _ h.1.stored.branch.root_mem)
    have hbranch : w.Branch (hash :: w.prevBlock hash :: ancestors) :=
      .cons hgenesis (h.1.stored.index _ _ hprev)
    exact ⟨grow_inv h.1 (h.1.stored.index.insert hbranch)
      (fun x hx => mem_insert.2 (.inr hx)) (Finset.Subset.refl _), h.2⟩
  | connect hash env =>
    rcases phase with - | - | pending | view <;> try cases hstep
    obtain ⟨s', hok, rfl⟩ := ok_of_toOption hstep
    obtain ⟨hready, -⟩ := attachBlock_ready hmined h.1 (hconnect hash env rfl) hok
    exact ⟨hready, viewOk_empty _ _⟩
  | flush mode env =>
    rcases phase with - | - | pending | view <;> try cases hstep
    rcases hok : s.flushUtxoCache mem order env mode (s.bestChain.headD default) with ⟨e | ⟨⟩, s'⟩
    · simp only [step, hok, reduceCtorEq] at hstep
    simp only [step, hok, some.injEq] at hstep
    subst hstep
    obtain ⟨hready, hchain⟩ := flushUtxoCache_ready h.1 hok
    refine ⟨hready, ?_⟩
    rw [show ChainStore.bestChain _ = _ from hchain]
    exact h.2
  | disconnect new env =>
    rcases phase with - | - | pending | view <;> try cases hstep
    obtain ⟨⟨s', view'⟩, hok, rfl⟩ := ok_of_toOption hstep
    refine detachBlock_ready hmined h.1 ?_ hok
    split_ifs
    · exact viewOk_empty _ _
    · exact h.2

lemma Reached.inv (hmined : w.Mined)
    (h : Reached w byHash (Guarded w) c) : Inv w c := by
  induction h with
  | blank mem max => exact .inl rfl
  | step _ mem order max a hconnect hstep ih => exact step_inv hmined ih hconnect hstep

/-- The chain whose tip the record names, the genesis block alone before there is a record. -/
def storedChain (w : BlockData) (db : ChainDb) : Option (List Hash) :=
  match db.bestState with
  | none => some [w.genesis]
  | some record => (deserializeBestChainState record).toOption.map fun state => db.branch state.hash

lemma storedChain_eq (h : Stored w db chain) : storedChain w db = some chain := by
  obtain ⟨total, workSum, hwork, hrecord⟩ := h.record
  obtain ⟨tip, rest, rfl⟩ := exists_cons_of_ne_nil h.ne_nil
  have hread := deserializeBestChainState_serialize (newBestState (tip :: rest) total workSum)
    (length_bigBytes_of_lt hwork)
  rw [storedChain, hrecord]
  dsimp only
  rw [hread]
  exact congrArg some (h.branch_eq suffix_rfl)

/-- What reopening a database has to give: the set of the stored chain; and the flush hash is on
that chain, with every block above it stored. -/
structure Reopens (w : BlockData) (db : ChainDb) (s : ChainStore) : Prop where
  chain : storedChain w db = some s.bestChain
  effective : s.utxoCache.effectiveSet s.db.utxo = coinsAt w s.bestChain
  flushed : ∀ hash ∈ db.utxo.consistency, ∃ above below, s.bestChain = above ++ hash :: below ∧
    ∀ h ∈ above, h ∈ db.blocks

lemma reopens_of_durable (mem : Memory) (order : RangeOrder OutPoint) (max : UInt64)
    (hdb : Durable w db chain) (now : ℤ) :
    ∃ s, reopen w mem order max now db = .ok s ∧ s.bestChain = chain ∧ Reopens w db s := by
  obtain ⟨s, hok, rfl, hready⟩ := reopen_ok mem order max now hdb
  refine ⟨s, hok, rfl, storedChain_eq hdb.1, hready.refines.effective, ?_⟩
  obtain ⟨-, above, below, hchain, hflushed, hcons⟩ := hdb
  intro hash hhash
  rcases hcons with hcons | ⟨hcons, -⟩
  · obtain ⟨rest, rfl⟩ := List.head?_eq_some_iff.1 (hcons.symm.trans hhash)
    exact ⟨above, rest, hchain, hflushed.stored⟩
  · rw [hcons] at hhash
    cases hhash

lemma reopens_blank (mem : Memory) (order : RangeOrder OutPoint) (max : UInt64)
    (hmined : w.Mined) (now : ℤ) :
    ∃ s, reopen w mem order max now blankDb = .ok s ∧ Reopens w blankDb s := by
  obtain ⟨s, nodes, hstart, hchain, hready⟩ := startReplay_ok now
    (opened_createChainState mem max hmined)
  cases hstart
  exact ⟨_, rfl, congrArg some hchain.symm, hready.refines.effective, by simp [blankDb]⟩

/-- Along every run whose connects are guarded, a crash at any point leaves a database that opens
to the set of its chain. -/
theorem reopens_of_guarded (hmined : ∀ h, ∃ bits, w.work h = calcWork bits)
    (h : Reached w byHash (Guarded w) c) (mem : Memory) (order : RangeOrder OutPoint) (max : UInt64)
    (now : ℤ) : ∃ s, reopen w mem order max now c.store.db = .ok s ∧ Reopens w c.store.db s ∧
      (c.phase ≠ .closed → s.bestChain = c.store.bestChain) := by
  rcases (h.inv hmined).durable with ⟨hblank, hclosed⟩ | ⟨chain, hdurable, hchain⟩
  · rw [hblank]
    obtain ⟨s, hok, hreopens⟩ := reopens_blank mem order max hmined now
    exact ⟨s, hok, hreopens, fun hne => absurd hclosed hne⟩
  · obtain ⟨s, hok, hs, hreopens⟩ := reopens_of_durable mem order max hdurable now
    exact ⟨s, hok, hreopens, fun hne => hs.trans (hchain hne)⟩

def numberedData : BlockData where
  genesis := Hash.ofBytes [1]
  prevBlock h := if h = Hash.ofBytes [2] then Hash.ofBytes [1]
    else if h = Hash.ofBytes [3] then Hash.ofBytes [2]
    else if h = Hash.ofBytes [4] then Hash.ofBytes [3]
    else Hash.zero
  work _ := calcWork 0x207fffff
  nameRoot _ := Hash.zero
  transactions h := [⟨h, [⟨⟨Hash.zero, 0xffffffff⟩, []⟩], [plainOut]⟩]

def noByHash (_ : UtxoDb) (_ : Hash) : Result (Option UtxoEntry) := .ok none

def runNumbered (c : ChainMachine) (as : List ChainAction) : Option ChainMachine :=
  c.run numberedData sampleMemory outPointOrder 1000 noByHash as

def after (c : ChainMachine) (as : List ChainAction) : ChainMachine := (c.runNumbered as).getD c

lemma Reached.run : ∀ {as} {c c'},
    Reached numberedData noByHash P c → (∀ hash env, .connect hash env ∉ as) →
    c.runNumbered as = some c' → Reached numberedData noByHash P c'
  | [], _, _, h, _, hrun => by
    cases hrun
    exact h
  | a :: as, c, c', h, hquiet, hrun => by
    obtain ⟨c1, hstep, hrun⟩ := bind_eq_some_iff.1 hrun
    have h1 : Reached numberedData noByHash P c1 := by
      refine .step h _ _ _ a (fun hash env ha => ?_) hstep
      exact absurd (ha ▸ mem_cons_self) (hquiet hash env)
    exact h1.run (fun hash env ha => hquiet hash env (mem_cons_of_mem _ ha)) hrun

lemma runNumbered_eq (h : (c.runNumbered as).isSome = true) :
    c.runNumbered as = some (c.after as) := by
  rw [after, ← some_get h, getD_some]

lemma Reached.connect {hash : Hash} (h : Reached numberedData noByHash P c)
    (hP : P c.store hash env) (hsome : (c.runNumbered [.connect hash env]).isSome = true) :
    Reached numberedData noByHash P (c.after [.connect hash env]) := by
  obtain ⟨c', hstep, hrun⟩ := bind_eq_some_iff.1 (runNumbered_eq hsome)
  cases hrun
  refine .step h _ _ _ _ (fun hash' env' heq => ?_) hstep
  cases heq
  exact hP

def receive (n : UInt8) : List ChainAction :=
  [.storeBlock (Hash.ofBytes [n]), .addNode (Hash.ofBytes [n])]

def numbered₂ : ChainMachine :=
  (blank sampleMemory 1000).after ([.openDb, .start 0] ++ receive 2)

def numbered₃ : ChainMachine :=
  (numbered₂.after [.connect (Hash.ofBytes [2]) sampleEnv]).after (receive 3)

def numbered₄ : ChainMachine :=
  (numbered₃.after [.connect (Hash.ofBytes [3]) sampleEnv]).after
    ([.crash, .openDb, .start 0, .replay 0, .replay 0, .finish 0] ++ receive 4)

def pruneEnv : CallEnv := { sampleEnv with deleted := some [Hash.ofBytes [2]] }

/-- The fourth block connected, with the second one pruned. -/
def numbered₅ : ChainMachine := numbered₄.after [.connect (Hash.ofBytes [4]) pruneEnv]

lemma connectable_numbered (chain : List Hash) (hchain : s.bestChain = chain)
    (hnode : Hash.ofBytes [n] ∈ s.db.nodes) (hne : Hash.ofBytes [n] ≠ Hash.ofBytes [1])
    (hlen : chain.length < 2 ^ 31)
    (hheld : InputsHeld (numberedData.block (Hash.ofBytes [n]) chain.length).steps
      (coinsAt numberedData chain))
    (honce : ∀ t ∈ (numberedData.block (Hash.ofBytes [n]) chain.length).steps, t.inputs.Nodup)
    (hnew : ∀ t ∈ (numberedData.block (Hash.ofBytes [n]) chain.length).steps, ∀ o ∈ t.created,
      coinsAt numberedData chain o = none) : Connectable numberedData s (Hash.ofBytes [n]) := by
  subst hchain
  exact ⟨hnode, hne, hlen, ⟨_, _, rfl, rfl, by simp⟩, hheld, honce, hnew⟩

lemma reached_numbered₂ : Reached numberedData noByHash P numbered₂ :=
  .run (.blank sampleMemory 1000) (by simp [receive]) (runNumbered_eq (by decide +kernel))

/-- After two blocks were connected again at the start, a prune deletes one of them although the
database has no later flush, and the next start fails. -/
theorem reopen_fails_after_prune :
    Reached numberedData noByHash (fun s hash _ => Connectable numberedData s hash) numbered₅ ∧
      numbered₅.store.db.utxo.consistency = some (Hash.ofBytes [1]) ∧
      numbered₅.store.bestChain =
        [Hash.ofBytes [4], Hash.ofBytes [3], Hash.ofBytes [2], Hash.ofBytes [1]] ∧
      Hash.ofBytes [2] ∉ numbered₅.store.db.blocks ∧
      (reopen numberedData sampleMemory outPointOrder 1000 0 numbered₅.store.db).isOk = false := by
  have h3 : Reached numberedData noByHash (fun s hash _ => Connectable numberedData s hash)
      numbered₃ := by
    refine .run (reached_numbered₂.connect (connectable_numbered [Hash.ofBytes [1]]
      ?_ ?_ ?_ ?_ ?_ ?_ ?_) ?_) (by simp [receive]) (runNumbered_eq ?_)
    all_goals decide +kernel
  have h4 : Reached numberedData noByHash (fun s hash _ => Connectable numberedData s hash)
      numbered₄ := by
    refine .run (h3.connect (connectable_numbered [Hash.ofBytes [2], Hash.ofBytes [1]]
      ?_ ?_ ?_ ?_ ?_ ?_ ?_) ?_) (by simp [receive]) (runNumbered_eq ?_)
    all_goals decide +kernel
  refine ⟨h4.connect (connectable_numbered
    [Hash.ofBytes [3], Hash.ofBytes [2], Hash.ofBytes [1]] ?_ ?_ ?_ ?_ ?_ ?_ ?_) ?_, ?_, ?_, ?_, ?_⟩
  all_goals decide +kernel

lemma guarded_numbered : Guarded numberedData numbered₂.store (Hash.ofBytes [2]) sampleEnv := by
  have hchain : numbered₂.store.bestChain = [Hash.ofBytes [1]] := by decide +kernel
  refine ⟨connectable_numbered [Hash.ofBytes [1]] hchain ?_ ?_ ?_ ?_ ?_ ?_, ?_, ?_, ?_, ?_⟩
  case refine_7 =>
    intro c hc t _ o _
    rw [hchain] at hc
    rcases c with - | ⟨h, below⟩
    · rfl
    · have hlen := hc.length_le
      have hnil : below = [] := by simpa using hlen
      rw [hnil]
      rfl
  all_goals decide +kernel

/-- The node is stopped after its first block was connected and not flushed. -/
theorem reopens_of_guarded_numbered : ∃ s, reopen numberedData sampleMemory outPointOrder 1000 7
      (numbered₂.after [.connect (Hash.ofBytes [2]) sampleEnv]).store.db = .ok s ∧
    s.bestChain = [Hash.ofBytes [2], Hash.ofBytes [1]] ∧
    s.utxoCache.effectiveSet s.db.utxo =
      coinsAt numberedData [Hash.ofBytes [2], Hash.ofBytes [1]] := by
  have hrun : Reached numberedData noByHash (Guarded numberedData)
      (numbered₂.after [.connect (Hash.ofBytes [2]) sampleEnv]) :=
    reached_numbered₂.connect guarded_numbered (by decide +kernel)
  have hstored : storedChain numberedData
      (numbered₂.after [.connect (Hash.ofBytes [2]) sampleEnv]).store.db =
        some [Hash.ofBytes [2], Hash.ofBytes [1]] := by decide +kernel
  obtain ⟨s, hok, hreopens, -⟩ := reopens_of_guarded (fun _ => ⟨0x207fffff, rfl⟩) hrun sampleMemory
    outPointOrder 1000 7
  have hchain := some.inj (hreopens.chain.symm.trans hstored)
  exact ⟨s, hok, hchain, hchain ▸ hreopens.effective⟩

end ChainMachine

end HandshakeNode
