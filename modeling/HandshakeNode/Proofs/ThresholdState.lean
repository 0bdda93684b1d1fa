import HandshakeNode.Proofs.BestChain
import HandshakeNode.ThresholdState
import Mathlib.Data.UInt

/-!
# The cached threshold states are those of the branch

`branchState` folds the transitions over the ends of the windows of a branch. A walk that stops at a
cached window, or at one that has not started, comes to the same state, since the entries of the
cache are states of their branches (`CacheOk`) and a rule change that has not started at a node had
not started or ended below it (`TimedOn`).
-/

namespace HandshakeNode

open List HeaderTree BranchNode Option

namespace BranchNode

lemma getAncestorHeight_le : getAncestorHeight n ≤ n - 1 :=
  calc getAncestorHeight n ≤ invertLowestOne n := Nat.and_le_left
    _ ≤ n - 1 := Nat.and_le_right

lemma ancestorLoop_eq : ∀ fuel (node : BranchNode) (k : ℕ), node.length ≤ fuel →
    k < node.length → ancestorLoop fuel node k = node.drop (node.length - (k + 1))
  | 0, node, k, hfuel, hk => by omega
  | fuel + 1, [], k, _, hk => by simp at hk
  | fuel + 1, n :: parent, k, hfuel, hk => by
    simp only [length_cons] at hfuel hk
    unfold ancestorLoop
    by_cases hhere : parent.length = k
    · subst hhere
      simp
    · have hlt : k < parent.length := by omega
      have hdrop : (n :: parent).drop ((n :: parent).length - (k + 1)) =
          parent.drop (parent.length - (k + 1)) := by
        have hsub : parent.length + 1 - (k + 1) = parent.length - (k + 1) + 1 := by omega
        rw [length_cons, hsub, drop_succ_cons]
      have hle := getAncestorHeight_le (n := parent.length)
      have hskip := ancestorLoop_eq fuel parent (getAncestorHeight parent.length) (by omega)
        (by omega)
      have hin : ¬ (getAncestorHeight parent.length : ℤ) > height parent := by
        unfold height
        omega
      have hhere' : ¬ ((parent.length : ℤ) = k) := by omega
      simp only [hskip]
      split_ifs with hjump
      · rw [ancestorLoop_eq fuel _ k (by rw [length_drop]; omega)
          (by rw [length_drop]; omega), drop_drop, length_drop, hdrop]
        congr 1
        omega
      · rw [ancestorLoop_eq fuel parent k (by omega) hlt, hdrop]

variable {node : BranchNode}

lemma ancestor_eq (hk : k < node.length) : ancestor node k = node.drop (node.length - (k + 1)) := by
  have hin : ¬ ((k : ℤ) < 0 ∨ (k : ℤ) > height node) := by
    unfold height
    omega
  rw [ancestor, if_neg hin, ancestorLoop_eq _ _ _ le_rfl hk]

lemma ancestor_of_neg (hneg : h < 0) : ancestor node h = [] := by
  rw [ancestor, if_pos (Or.inl hneg)]

lemma relativeAncestor_eq (hw : w ≤ node.length) (hpos : 0 < w) :
    relativeAncestor node w = node.drop w := by
  unfold relativeAncestor
  rcases Nat.lt_or_ge w node.length with hlt | hge
  · have hheight : height node - (w : ℤ) = ((node.length - w - 1 : ℕ) : ℤ) := by
      unfold height
      omega
    rw [hheight, ancestor_eq (by omega)]
    congr 1
    omega
  · rw [ancestor_of_neg (by unfold height; omega), drop_eq_nil_of_le hge]

end BranchNode

/-- Where the rule change stands after the node, by the branch of the node alone: from `defined`,
one transition at the end of each window. -/
def branchState (checker : ThresholdConditionChecker) (w : ℕ) : BranchNode → Result ThresholdState
  | [] => .ok .defined
  | node :: parent =>
    if (parent.length + 1) % w = 0 then do
      let state ← branchState checker w parent
      thresholdStateTransition checker state (node :: parent) w
    else branchState checker w parent

lemma branchState_append_of_div_eq : ∀ {p}, (p ++ node).length / w = node.length / w →
    branchState checker w (p ++ node) = branchState checker w node
  | [], _ => rfl
  | x :: p, h => by
    have hle : node.length / w ≤ (p ++ node).length / w :=
      Nat.div_le_div_right (by simp)
    have hsucc := Nat.succ_div (a := (p ++ node).length) (b := w)
    rw [cons_append, length_cons] at h
    have hend : ¬ w ∣ (p ++ node).length + 1 := by
      intro hdvd
      rw [if_pos hdvd] at hsucc
      omega
    rw [cons_append, branchState, if_neg (fun h0 => hend (Nat.dvd_of_mod_eq_zero h0))]
    exact branchState_append_of_div_eq (by omega)

lemma branchState_drop (node : BranchNode) :
    branchState checker w (node.drop (node.length % w)) = branchState checker w node := by
  conv_rhs => rw [← take_append_drop (node.length % w) node]
  refine (branchState_append_of_div_eq ?_).symm
  rw [take_append_drop, length_drop, ← Nat.div_eq_sub_mod_div]

lemma branchState_of_lt (h : node.length < w) : branchState checker w node = .ok .defined := by
  rw [← append_nil node, branchState_append_of_div_eq (by simp [Nat.div_eq_of_lt h])]
  rfl

lemma branchState_append_of_terminal (h : branchState checker w node = .ok state)
    (hstate : state = .active ∨ state = .failed) :
    ∀ p, branchState checker w (p ++ node) = .ok state
  | [] => h
  | x :: p => by
    have ih := branchState_append_of_terminal h hstate p
    rw [cons_append, branchState, ih]
    rcases hstate with rfl | rfl <;> split_ifs <;> rfl

lemma branchState_of_end (hw : 0 < w) (hnode : node ≠ []) (hend : node.length % w = 0) :
    branchState checker w node = (branchState checker w (node.drop w) >>=
      fun state => thresholdStateTransition checker state node w) := by
  obtain ⟨x, parent, rfl⟩ := exists_cons_of_ne_nil hnode
  rw [length_cons] at hend
  have hmod : parent.length % w = w - 1 := by
    have hlt := Nat.mod_lt parent.length hw
    have hdvd : w ∣ parent.length % w + 1 := by
      rw [Nat.dvd_iff_mod_eq_zero, Nat.mod_add_mod]
      exact hend
    have := Nat.le_of_dvd (Nat.succ_pos _) hdvd
    omega
  obtain ⟨v, rfl⟩ : ∃ v, w = v + 1 := ⟨w - 1, by omega⟩
  rw [branchState, if_pos hend, drop_succ_cons, ← branchState_drop parent, hmod, Nat.add_sub_cancel]

lemma le_length_of_end (hnode : node ≠ []) (hend : node.length % w = 0) : w ≤ node.length :=
  Nat.le_of_dvd (length_pos_iff.2 hnode) (Nat.dvd_of_mod_eq_zero hend)

structure TimedOn (t : BlockTree) (checker : ThresholdConditionChecker) : Prop where
  started : ∀ {x y : Hash} {l : BranchNode}, t.Branch (x :: y :: l) →
    checker.hasStarted (y :: l) → checker.hasStarted (x :: y :: l)
  ended : ∀ {l : BranchNode}, t.Branch l → checker.hasEnded l → checker.hasStarted l
  counted : ∀ x l, ∃ c, checker.condition (x :: l) = .ok c

namespace TimedOn
variable {w : ℕ}

lemma countVotes_ok (h : TimedOn t checker) : ∀ n (node : BranchNode), n ≤ node.length →
    ∃ c, countVotes checker n node = .ok c
  | 0, _, _ => ⟨0, rfl⟩
  | n + 1, [], hn => by simp at hn
  | n + 1, x :: l, hn => by
    obtain ⟨c, hc⟩ := h.counted x l
    obtain ⟨count, hcount⟩ := h.countVotes_ok n l (by simpa using hn)
    exact ⟨if c then count + 1 else count, by simp [countVotes, hc, hcount]⟩

lemma transition_ok (h : TimedOn t checker) (hw : w ≤ node.length) (state : ThresholdState) :
    ∃ state', thresholdStateTransition checker state node w = .ok state' := by
  obtain ⟨c, hc⟩ := h.countVotes_ok w node hw
  cases state with
  | defined | lockedIn =>
    unfold thresholdStateTransition
    dsimp only
    split_ifs <;> exact ⟨_, rfl⟩
  | started =>
    unfold thresholdStateTransition
    simp only [Int.toNat_natCast, hc, Bind.bind, Except.bind]
    split_ifs <;> exact ⟨_, rfl⟩
  | active | failed => exact ⟨_, rfl⟩

lemma branchState_ok (h : TimedOn t checker) : ∀ node,
    ∃ state, branchState checker w node = .ok state
  | [] => ⟨_, rfl⟩
  | x :: parent => by
    obtain ⟨state, hstate⟩ := h.branchState_ok parent
    by_cases hend : (parent.length + 1) % w = 0
    · rw [branchState, if_pos hend, hstate]
      have hle : w ≤ (x :: parent).length := le_length_of_end (by simp) hend
      exact h.transition_ok hle state
    · exact ⟨state, by rw [branchState, if_neg hend, hstate]⟩

/-- Before the start there was no transition: nothing below had started, so nothing had ended. -/
theorem branchState_of_not_started (h : TimedOn t checker) : ∀ {node}, t.Branch node →
    checker.hasStarted node = false → branchState checker w node = .ok .defined
  | [], hb, _ => absurd rfl hb.ne_nil
  | x :: parent, hb, hstart => by
    have hend : checker.hasEnded (x :: parent) = false := by
      by_contra hne
      simp [h.ended hb (by simpa using hne)] at hstart
    have hparent : branchState checker w parent = .ok .defined := by
      cases parent with
      | nil => rfl
      | cons y l =>
        refine h.branchState_of_not_started hb.tail.2.2 ?_
        by_contra hne
        simp [h.started hb (by simpa using hne)] at hstart
    rw [branchState, hparent]
    split_ifs
    · simp [thresholdStateTransition, hstart, hend]
    · rfl

end TimedOn

/-- Every entry of the cache is the state of the branch of its block. -/
def CacheOk (t : BlockTree) (checker : ThresholdConditionChecker) (w : ℕ)
    (cache : ThresholdStateCache) : Prop :=
  ∀ x l state, cache.lookup x = some state → t.Branch (x :: l) →
    branchState checker w (x :: l) = .ok state

def BlockTree.IsNode (t : BlockTree) (node : BranchNode) : Prop := node = [] ∨ t.Branch node

section
variable {t : BlockTree} {checker : ThresholdConditionChecker} {w : ℕ}
  {cache cache' : ThresholdStateCache} {state : ThresholdState}

lemma BlockTree.IsNode.drop (h : t.IsNode node) (k : ℕ) : t.IsNode (node.drop k) := by
  rcases h with rfl | h
  · exact .inl drop_nil
  · cases hd : node.drop k with
    | nil => exact .inl rfl
    | cons x l =>
      rw [← take_append_drop k node, hd] at h
      exact .inr h.of_append

lemma cacheOk_empty : CacheOk t checker w ∅ := by
  intro x l state hx
  simp at hx

lemma CacheOk.insert (h : CacheOk t checker w cache) (hb : t.Branch (x :: l))
    (hstate : branchState checker w (x :: l) = .ok state) :
    CacheOk t checker w (cache.insert x state) := by
  intro y m state' hy hm
  by_cases hyx : y = x
  · subst hyx
    rw [Finmap.lookup_insert, some.injEq] at hy
    rw [hm.unique hb, hstate, hy]
  · rw [Finmap.lookup_insert_of_ne _ hyx] at hy
    exact h y m state' hy hm

lemma updateStates_append : ∀ {early} {start : ThresholdState} {cache : ThresholdStateCache},
    updateStates checker window early start cache = (.ok state, cache') →
    updateStates checker window (early ++ nodes) start cache =
      updateStates checker window nodes state cache'
  | [], _, _, h => by
    simp only [updateStates, Prod.mk.injEq, Except.ok.injEq] at h
    rw [nil_append, h.1, h.2]
  | [] :: _, _, _, h => by simp [updateStates] at h
  | (x :: l) :: early, start, cache, h => by
    rw [updateStates] at h
    rw [cons_append, updateStates]
    cases hnext : thresholdStateTransition checker start (x :: l) window with
    | error e => simp [hnext] at h
    | ok next =>
      rw [hnext] at h
      exact updateStates_append h

structure Walked (t : BlockTree) (checker : ThresholdConditionChecker) (w : ℕ) (node : BranchNode)
    (walk : List BranchNode × BranchNode × ThresholdStateCache) (start state : ThresholdState)
    (cache' : ThresholdStateCache) : Prop where
  starts : startingState walk.2.2 walk.2.1 = .ok start
  update : updateStates checker w walk.1.reverse start walk.2.2 = (.ok state, cache')
  branch : branchState checker w node = .ok state
  cache : CacheOk t checker w cache'

/-- By induction on the number of windows: the walk stops at a state of the branch, and each step of
the loop adds the state of the branch at the end of the next window. -/
theorem TimedOn.walked (h : TimedOn t checker) (hw : 0 < w) : ∀ fuel (node : BranchNode)
    (cache : ThresholdStateCache), t.IsNode node → node.length % w = 0 → node.length < fuel →
    CacheOk t checker w cache →
    ∃ start state cache', Walked t checker w node (findCached checker w fuel node cache) start state
      cache'
  | 0, node, cache, _, _, hfuel, _ => by omega
  | fuel + 1, [], cache, _, _, _, hc => ⟨.defined, .defined, cache, ⟨rfl, rfl, rfl, hc⟩⟩
  | fuel + 1, x :: parent, cache, hnode, hend, hfuel, hc => by
    have hb : t.Branch (x :: parent) := hnode.resolve_left (by simp)
    unfold findCached
    by_cases hcached : (cache.lookup x).isSome
    · obtain ⟨state, hstate⟩ := isSome_iff_exists.1 hcached
      rw [if_pos hcached]
      exact ⟨state, state, cache, ⟨by simp [startingState, hstate], rfl,
        hc x parent state hstate hb, hc⟩⟩
    · rw [if_neg hcached]
      by_cases hstart : checker.hasStarted (x :: parent) = false
      · have hstate := h.branchState_of_not_started (w := w) hb hstart
        rw [if_pos (by simp [hstart])]
        exact ⟨.defined, .defined, _, ⟨by simp [startingState], rfl, hstate, hc.insert hb hstate⟩⟩
      · have hle := le_length_of_end (cons_ne_nil x parent) hend
        have hend' : ((x :: parent).drop w).length % w = 0 := by
          rw [length_drop]
          exact Nat.sub_mod_eq_zero_of_mod_eq (by rw [hend, Nat.mod_self])
        obtain ⟨start, state, cache', hwalk⟩ := TimedOn.walked h hw fuel ((x :: parent).drop w)
          cache (hnode.drop w) hend' (by rw [length_drop]; omega) hc
        obtain ⟨next, hnext⟩ := h.transition_ok hle state
        have hbranch : branchState checker w (x :: parent) = .ok next := by
          rw [branchState_of_end hw (by simp) hend, hwalk.branch]
          exact hnext
        rw [if_neg (by simp [hstart]), relativeAncestor_eq hle hw]
        refine ⟨start, next, cache'.insert x next, ⟨hwalk.starts, ?_, hbranch,
          hwalk.cache.insert hb hbranch⟩⟩
        rw [reverse_cons, updateStates_append hwalk.update]
        simp [updateStates, hnext]

def branchAnswer (checker : ThresholdConditionChecker) (w : ℕ) (node : BranchNode) :
    Result ThresholdState :=
  if checker.forceActive node then .ok .active else branchState checker w node

lemma TimedOn.thresholdState_eq (h : TimedOn t checker) (hw : 0 < w)
    (hwindow : checker.minerConfirmationWindow.toInt32.toInt = w) (hnode : t.IsNode node)
    (hc : CacheOk t checker w cache) :
    (thresholdState checker node cache).1 = branchAnswer checker w node ∧
      CacheOk t checker w (thresholdState checker node cache).2 := by
  unfold thresholdState branchAnswer
  by_cases hforce : checker.forceActive node
  · simp [hforce, hc]
  rw [if_neg hforce, if_neg hforce, hwindow]
  dsimp only
  have hheight : height node + 1 = node.length := by simp [height]
  rw [hheight]
  by_cases hearly : node.length < w
  · rw [if_pos (.inr (by exact_mod_cast hearly)), branchState_of_lt hearly]
    exact ⟨rfl, hc⟩
  have hne : node ≠ [] := by
    rintro rfl
    simp [hw] at hearly
  rw [if_neg (by push Not; exact ⟨hne, by exact_mod_cast not_lt.1 hearly⟩),
    if_neg (by exact_mod_cast hw.ne')]
  -- the end of the last full window
  have hlast : ancestor node (node.height - (node.length : ℤ).tmod w) =
      node.drop (node.length % w) := by
    have hmod := Nat.mod_lt node.length hw
    have hcast : height node - (node.length : ℤ).tmod w =
        ((node.length - node.length % w - 1 : ℕ) : ℤ) := by
      rw [← Int.ofNat_tmod]
      omega
    rw [hcast, ancestor_eq (by omega)]
    congr 1
    omega
  rw [hlast]
  have hend : (node.drop (node.length % w)).length % w = 0 := by
    rw [length_drop]
    exact Nat.sub_mod_eq_zero_of_mod_eq (Nat.mod_mod _ _).symm
  obtain ⟨start, state, cache', hwalk⟩ := h.walked hw
    ((node.drop (node.length % w)).length + 1) _ cache (hnode.drop _) hend (Nat.lt_succ_self _) hc
  rw [hwalk.starts]
  dsimp only
  rw [hwalk.update, ← branchState_drop node, hwalk.branch]
  exact ⟨rfl, hwalk.cache⟩

lemma TimedOn.thresholdStates_eq (h : TimedOn t checker) (hw : 0 < w)
    (hwindow : checker.minerConfirmationWindow.toInt32.toInt = w) : ∀ {nodes}
    {cache : ThresholdStateCache}, (∀ node ∈ nodes, t.IsNode node) → CacheOk t checker w cache →
    (thresholdStates checker nodes cache).1 = nodes.map (branchAnswer checker w)
  | [], _, _, _ => rfl
  | node :: nodes, cache, hnodes, hc => by
    obtain ⟨hfirst, hc'⟩ := h.thresholdState_eq hw hwindow (hnodes node (by simp)) hc
    rw [thresholdStates, map_cons]
    rw [hfirst, h.thresholdStates_eq hw hwindow (fun n hn => hnodes n (by simp [hn])) hc']

end

def HeaderTree.MedianOrdered (t : HeaderTree) : Prop :=
  ∀ x y l, t.Branch (x :: y :: l) →
    t.calcPastMedianTime (y :: l) ≤ t.calcPastMedianTime (x :: y :: l)

def ConsensusDeployment.StartsByEnd (d : ConsensusDeployment) : Prop :=
  ∃ startTime, d.deploymentStarter = some startTime ∧
    ∀ start ∈ startTime, ∀ finish, d.deploymentEnder = some (some finish) → start ≤ finish

section
variable {t : HeaderTree}

lemma any_pastMedianTime : (t.pastMedianTime node).any (time ≤ ·) = true ↔
      2 ≤ node.length ∧ time ≤ t.calcPastMedianTime node := by
  match node with
  | [] | [_] | _ :: _ :: _ => simp [pastMedianTime]

/-- The genesis block has no median time, so nothing but a zero start has started there. -/
theorem timedOn_deploymentChecker (hmedian : t.MedianOrdered) (hd : d.StartsByEnd) :
    TimedOn t.toBlockTree (deploymentChecker t params d) := by
  obtain ⟨startTime, hstarter, hle⟩ := hd
  refine ⟨?_, ?_, fun x l => ⟨_, rfl⟩⟩
  · intro x y l hb hstart
    simp only [deploymentChecker, hstarter, any_some] at hstart ⊢
    cases startTime with
    | none => rfl
    | some start =>
      simp only [starterHasStarted, any_pastMedianTime] at hstart ⊢
      exact ⟨by simp, hstart.2.trans (hmedian x y l hb)⟩
  · intro l _ hend
    simp only [deploymentChecker, hstarter, any_some] at hend ⊢
    cases startTime with
    | none => rfl
    | some start =>
      obtain ⟨endTime, hender, hend⟩ := (any_eq_true _ _).1 hend
      cases endTime with
      | none => simp [enderHasEnded] at hend
      | some finish =>
        simp only [enderHasEnded, any_pastMedianTime] at hend
        simp only [starterHasStarted, any_pastMedianTime]
        exact ⟨hend.1, (hle start rfl finish hender).trans hend.2⟩

lemma toInt32_toInt {n : UInt32} (h : n.toNat < 2 ^ 31) : n.toInt32.toInt = n.toNat := by
  have hlt : 2 * n.toBitVec.toNat < 2 ^ 32 := by
    have : n.toBitVec.toNat = n.toNat := rfl
    omega
  exact BitVec.toInt_eq_toNat_of_lt hlt

lemma calcPastMedianTime_of_const (h : ∀ x, t.timestamp x = 0) (node : BranchNode) :
    t.calcPastMedianTime node = 0 := by
  have hzero : ∀ time ∈ ((node.take medianTimeBlocks).map t.timestamp).insertionSort
      (· ≤ ·), time = 0 := by
    intro time hmem
    obtain ⟨x, -, hx⟩ := mem_map.1 ((mem_insertionSort _).1 hmem)
    rw [← hx, h]
  unfold calcPastMedianTime
  rw [eq_replicate_of_mem hzero, getD_eq_getElem?_getD, List.getElem?_replicate]
  split_ifs <;> rfl

end

/-- An entry of a sorted list is at least `m` when no more entries are below `m` than precede it. -/
theorem le_getElem_iff_countP (m : ℤ) : ∀ {l : List ℤ}, l.Pairwise (· ≤ ·) →
    ∀ {i} hi, m ≤ l[i] ↔ l.countP (· < m) ≤ i
  | a :: l, hl, i, hi => by
    obtain ⟨ha, hl⟩ := pairwise_cons.1 hl
    rcases lt_or_ge a m with ham | ham
    · rw [countP_cons_of_pos (by simpa using ham)]
      cases i with
      | zero => simp [ham]
      | succ i => simpa using le_getElem_iff_countP m hl (Nat.lt_of_succ_lt_succ hi)
    · have hall : ∀ x ∈ a :: l, m ≤ x :=
        forall_mem_cons.2 ⟨ham, fun x hx => ham.trans (ha x hx)⟩
      have hcount : (a :: l).countP (· < m) = 0 := countP_eq_zero.2 fun x hx => by
        simpa using hall x hx
      simp [hcount, hall _ (getElem_mem hi)]

namespace HeaderTree

variable {t : HeaderTree} {x y : Hash} {l chain upper lower : BranchNode}

lemma le_calcPastMedianTime_iff (hne : node ≠ []) : m ≤ t.calcPastMedianTime node ↔
    ((node.take medianTimeBlocks).map t.timestamp).countP (· < m) ≤
      (node.take medianTimeBlocks).length / 2 := by
  have hperm := perm_insertionSort (· ≤ ·) ((node.take medianTimeBlocks).map t.timestamp)
  have hlen := hperm.length_eq
  rw [length_map] at hlen
  have hpos : 0 < (node.take medianTimeBlocks).length := by
    have := length_pos_iff.2 hne
    simp [medianTimeBlocks]
    omega
  unfold calcPastMedianTime
  rw [getD_eq_getElem _ _ (by omega),
    le_getElem_iff_countP m (pairwise_insertionSort _ _), hperm.countP_eq, hlen]

/-- The window slides by one block, and the new time is above the old median. -/
theorem calcPastMedianTime_le_cons (h : t.calcPastMedianTime (y :: l) < t.timestamp x) :
    t.calcPastMedianTime (y :: l) ≤ t.calcPastMedianTime (x :: y :: l) := by
  have hold := (le_calcPastMedianTime_iff (t := t) (cons_ne_nil y l)).1 le_rfl
  have hsub : (((y :: l).take 10).map t.timestamp).Sublist
      (((y :: l).take medianTimeBlocks).map t.timestamp) :=
    (take_isPrefix_take.2 (.inl (by decide))).sublist.map _
  have hcount := hsub.countP_le (p := (· < t.calcPastMedianTime (y :: l)))
  rw [le_calcPastMedianTime_iff (cons_ne_nil _ _), medianTimeBlocks, take_succ_cons,
    map_cons, countP_cons_of_neg (by simpa using h.le)]
  simp only [medianTimeBlocks, length_take, length_cons] at *
  omega

/-- Every block of the chain is later than the median time of its parent. -/
def TimesAboveMedian (t : HeaderTree) : BranchNode → Prop
  | x :: y :: l => t.calcPastMedianTime (y :: l) < t.timestamp x ∧ TimesAboveMedian t (y :: l)
  | _ => True

lemma TimesAboveMedian.suffix (h : t.TimesAboveMedian chain) (hu : upper <:+ chain) :
    t.TimesAboveMedian upper := by
  induction chain with
  | nil => rwa [suffix_nil.1 hu]
  | cons x l ih =>
    rcases suffix_cons_iff.1 hu with rfl | hu
    · exact h
    · cases l with
      | nil => exact ih trivial hu
      | cons y l => exact ih h.2 hu

/-- The median time never goes back along a chain whose blocks pass the check of their times. -/
theorem medianTime_never_goes_back (h : t.TimesAboveMedian chain) (hu : upper <:+ chain)
    (hl : lower <:+ upper) (hne : lower ≠ []) :
    t.calcPastMedianTime lower ≤ t.calcPastMedianTime upper := by
  have hupper := h.suffix hu
  clear hu
  induction upper with
  | nil => exact absurd (suffix_nil.1 hl) hne
  | cons x l ih =>
    rcases suffix_cons_iff.1 hl with rfl | hl
    · exact le_rfl
    · cases l with
      | nil => exact absurd (suffix_nil.1 hl) hne
      | cons y l => exact (ih hl hupper.2).trans (calcPastMedianTime_le_cons hupper.1)

/-- The times of its first blocks are 0, 10, 20 and 11. -/
def clockTree : HeaderTree where
  toBlockTree := sampleTree []
  version _ := 1
  timestamp x := [0, 10, 20, 11].getD (x.bytes.getD 0 0).toNat 0

theorem medianTime_never_goes_back_clockTree :
    clockTree.calcPastMedianTime [sampleHash 0] ≤
      clockTree.calcPastMedianTime ([3, 2, 1, 0].map sampleHash) :=
  @medianTime_never_goes_back clockTree ([3, 2, 1, 0].map sampleHash) _ _
    ⟨by decide, by decide, by decide, trivial⟩ suffix_rfl
    (drop_suffix 3 ([3, 2, 1, 0].map sampleHash)) (cons_ne_nil _ _)

end HeaderTree

/-! ## Three windows and a fork -/

def voteTree : HeaderTree where
  toBlockTree := sampleTree [(1, 0, 1), (2, 1, 1), (3, 2, 1), (4, 3, 1), (5, 4, 1), (6, 3, 1)]
  version _ := 1
  timestamp _ := 0

def voteDeployment : ConsensusDeployment where
  bitNumber := 0
  minActivationHeight := 0
  customActivationThreshold := 0
  alwaysActiveHeight := 0
  deploymentStarter := some (some 0)
  deploymentEnder := some (some 5)

lemma medianOrdered_voteTree : voteTree.MedianOrdered := by
  intro x y l _
  rw [calcPastMedianTime_of_const (fun _ => rfl), calcPastMedianTime_of_const (fun _ => rfl)]

lemma startsByEnd_voteDeployment : voteDeployment.StartsByEnd := by
  refine ⟨some 0, rfl, ?_⟩
  rintro start ⟨⟩ finish ⟨⟩
  decide

def voteNodes : List BranchNode :=
  [[5, 4, 3, 2, 1, 0], [6, 3, 2, 1, 0], [2, 1, 0]].map (List.map sampleHash)

/-- A window of 2 ^ 32 - 1 blocks becomes one of -1, every block is the end of a window and the
states follow from a single transition. -/
theorem window_of_negative_int32_has_started : voteTree.MedianOrdered ∧ voteDeployment.StartsByEnd ∧
      voteTree.Branch [sampleHash 1, sampleHash 0] ∧
      (thresholdState (deploymentChecker voteTree ⟨2, 2 ^ 32 - 1⟩ voteDeployment)
        [sampleHash 1, sampleHash 0] ∅).1 = .ok .started ∧
      branchState (deploymentChecker voteTree ⟨2, 2 ^ 32 - 1⟩ voteDeployment) (2 ^ 32 - 1)
        [sampleHash 1, sampleHash 0] = .ok .defined := by
  refine ⟨medianOrdered_voteTree, startsByEnd_voteDeployment, ?_, by decide +kernel,
    by decide +kernel⟩
  exact .cons (by decide +kernel) .root

/-- Every answer of a run of queries that share a cache is that of the node's own branch. -/
theorem thresholdStates_eq_branch_answers {t : HeaderTree} {params : VoteParams}
    {d : ConsensusDeployment} {w : ℕ} (hmedian : t.MedianOrdered) (hd : d.StartsByEnd)
    (hparams : params.minerConfirmationWindow.toNat = w) (hw : 1 ≤ w) (hlt : w < 2 ^ 31) :
    (∀ nodes : List BranchNode, (∀ node ∈ nodes, t.IsNode node) →
      (thresholdStates (deploymentChecker t params d) nodes ∅).1 =
        nodes.map (branchAnswer (deploymentChecker t params d) w)) ∧
    (∀ node, ∃ state, branchState (deploymentChecker t params d) w node = .ok state) ∧
    (∀ p node : BranchNode, (p ++ node).length / w = node.length / w →
      branchState (deploymentChecker t params d) w (p ++ node) =
        branchState (deploymentChecker t params d) w node) ∧
    (∀ (p node : BranchNode) (state : ThresholdState), state = .active ∨ state = .failed →
      branchState (deploymentChecker t params d) w node = .ok state →
      branchState (deploymentChecker t params d) w (p ++ node) = .ok state) := by
  have htimed : TimedOn t.toBlockTree (deploymentChecker t params d) :=
    timedOn_deploymentChecker hmedian hd
  have hwindow : (deploymentChecker t params d).minerConfirmationWindow.toInt32.toInt = w := by
    rw [← hparams]
    exact toInt32_toInt (n := params.minerConfirmationWindow) (by omega)
  refine ⟨fun nodes hnodes => htimed.thresholdStates_eq hw hwindow hnodes cacheOk_empty,
    htimed.branchState_ok, fun p node h => branchState_append_of_div_eq h,
    fun p node state hstate h => branchState_append_of_terminal h hstate p⟩

theorem thresholdStates_eq_branch_answers_voteTree :
    (thresholdStates (deploymentChecker voteTree ⟨2, 2⟩ voteDeployment) voteNodes ∅).1 =
        voteNodes.map (branchAnswer (deploymentChecker voteTree ⟨2, 2⟩ voteDeployment) 2) ∧
      (thresholdStates (deploymentChecker voteTree ⟨2, 2⟩ voteDeployment) voteNodes ∅).1 =
        [.ok .active, .ok .lockedIn, .ok .started] := by
  refine ⟨(thresholdStates_eq_branch_answers medianOrdered_voteTree startsByEnd_voteDeployment rfl
    (by decide) (by decide)).1 voteNodes ?_, by decide +kernel⟩
  have hthree : voteTree.Branch ([3, 2, 1, 0].map sampleHash) :=
    .cons (by decide +kernel) (.cons (by decide +kernel) (.cons (by decide +kernel) .root))
  simp only [voteNodes, map_cons, map_nil, mem_cons, not_mem_nil, or_false,
    forall_eq_or_imp, forall_eq]
  exact ⟨.inr (.cons (by decide +kernel) (.cons (by decide +kernel) hthree)),
    .inr (.cons (by decide +kernel) hthree), .inr hthree.tail.2.2⟩

end HandshakeNode
