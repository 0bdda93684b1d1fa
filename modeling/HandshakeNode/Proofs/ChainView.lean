import HandshakeNode.ChainView
import HandshakeNode.Proofs.ThresholdState

/-!
# The view and the skip list agree with walking parents

After any calls of `setTip` the entry at a height is the ancestor of the last tip there (`Shows`).
The walk of `setTip` may stop at an entry that is right, since the entries below it belong to the
branch of the tip before, and that branch runs through the entry.
-/

namespace HandshakeNode

open List Option

namespace BranchNode

variable {i : ℕ}

lemma iterate_parent (k : ℕ) (node : BranchNode) : parent^[k] node = node.drop k := by
  induction k generalizing node with
  | zero => rfl
  | succ k ih => rw [Function.iterate_succ_apply, ih, parent, drop_tail]

lemma ancestor_of_length_le (h : node.length ≤ i) : ancestor node i = [] := by
  rw [ancestor, if_pos]
  unfold height
  omega

lemma ancestor_suffix (node : BranchNode) (i : ℕ) : ancestor node i <:+ node := by
  rcases Nat.lt_or_ge i node.length with hi | hi
  · rw [ancestor_eq hi]
    exact drop_suffix _ _
  · rw [ancestor_of_length_le hi]
    exact nil_suffix

lemma ancestor_of_suffix (h : n :: old <:+ node) : ancestor node old.length = n :: old := by
  obtain ⟨p, rfl⟩ := h
  rw [ancestor_eq (by simp; omega), length_append, length_cons, Nat.add_sub_cancel, drop_left]

/-- Below a node of its branch, a node has the ancestors of that node. -/
theorem ancestor_congr (h : old <:+ node) (hi : i < old.length) :
    ancestor old i = ancestor node i := by
  obtain ⟨p, rfl⟩ := h
  rw [ancestor_eq hi, ancestor_eq (by simp; omega), length_append,
    show p.length + old.length - (i + 1) = p.length + (old.length - (i + 1)) by omega,
    drop_length_add_append]

end BranchNode

namespace ChainView

open BranchNode

variable {c : ChainView} {tip node : BranchNode}

structure Shows (c : ChainView) (tip : BranchNode) : Prop where
  length : c.length = tip.length
  le : c.length ≤ c.array.length
  entry : ∀ i < tip.length, c.array.getD i [] = ancestor tip i

lemma length_fill : ∀ node (array : List BranchNode),
    (fill array node).length = array.length
  | [], _ => rfl
  | n :: parent, array => by
    unfold fill
    split_ifs
    · rfl
    · rw [length_fill parent, length_set]

/-- By induction on the node. The entries that are still to be compared are those of the tip
before. -/
theorem getD_fill (old : BranchNode) (i : ℕ) : ∀ node (array : List BranchNode),
    node.length ≤ array.length → (∀ j < node.length, array.getD j [] = ancestor old j) →
      (fill array node).getD i [] = if i < node.length then ancestor node i else array.getD i []
  | [], array, _, _ => by simp [fill]
  | n :: parent, array, hlen, h => by
    simp only [length_cons] at hlen h ⊢
    unfold fill
    split_ifs with hmeet hi hi
    · rw [h _ (by omega)] at hmeet
      have hsuffix : n :: parent <:+ old := hmeet ▸ ancestor_suffix old _
      rw [h i hi, ancestor_congr hsuffix hi]
    · rfl
    all_goals
      rw [getD_fill old i parent _ (by simp; omega) (fun j hj => by
        rw [getD_eq_getElem?_getD, getElem?_set_ne (by omega)]
        exact h j (by omega))]
    · rcases Nat.lt_or_ge i parent.length with hlt | hge
      · rw [if_pos hlt]
        exact ancestor_congr (suffix_cons n parent) hlt
      · obtain rfl : i = parent.length := by omega
        rw [ancestor_of_suffix suffix_rfl]
        simp [getElem?_set_self (show parent.length < array.length by omega)]
    · rw [if_neg (by omega), getD_eq_getElem?_getD, getElem?_set_ne (by omega),
        getD_eq_getElem?_getD]

lemma Shows.resize (h : c.Shows old) (needed : ℕ) {i : ℕ} (hi : i < needed) :
    (c.resize needed).array.getD i [] = ancestor old i := by
  have hstale : c.length ≤ i → ancestor old i = [] := fun hle =>
    ancestor_of_length_le (h.length ▸ hle)
  have hkept : i < c.length → c.array[i]?.getD [] = ancestor old i := fun hlt => by
    rw [← getD_eq_getElem?_getD, h.entry i (h.length ▸ hlt)]
  rw [getD_eq_getElem?_getD]
  unfold ChainView.resize
  split_ifs with hcap
  · rw [getElem?_map, getElem?_range (by omega), map_some, nodes,
      getD_eq_getElem?_getD, getElem?_take]
    split_ifs with hlt
    · exact hkept hlt
    · exact (hstale (by omega)).symm
  · rw [getElem?_mapIdx]
    have hin := getElem?_eq_getElem (show i < c.array.length by omega)
    rw [hin] at hkept
    rw [hin]
    split_ifs with hnew
    · exact (hstale hnew.1).symm
    · exact hkept (by omega)

lemma Shows.setTip (h : c.Shows old) (node : BranchNode) : (c.setTip node).Shows node := by
  unfold ChainView.setTip
  split_ifs with hne
  · subst hne
    exact ⟨rfl, Nat.zero_le _, by simp⟩
  · have hcap : node.length ≤ (c.resize node.length).array.length := by
      unfold ChainView.resize
      split_ifs with hcap
      · simp
      · simpa using hcap
    refine ⟨rfl, ?_, fun i hi => ?_⟩
    · rw [length_fill]
      exact hcap
    · rw [getD_fill old i node _ hcap fun j hj => h.resize _ hj, if_pos hi]

lemma shows_setTips (calls : List BranchNode) :
    (calls.foldl setTip new).Shows (calls.getLastD []) := by
  induction calls using reverseRecOn with
  | nil => exact ⟨rfl, le_rfl, by simp⟩
  | append_singleton calls node ih =>
    rw [foldl_append, getLastD_concat]
    exact ih.setTip node

lemma Shows.length_nodes (h : c.Shows tip) : c.nodes.length = tip.length := by
  rw [nodes, length_take, min_eq_left h.le, h.length]

lemma Shows.getD_nodes (h : c.Shows tip) {i : ℕ} (hi : i < tip.length) :
    c.nodes.getD i [] = ancestor tip i := by
  rw [nodes, getD_eq_getElem?_getD, getElem?_take, if_pos (h.length ▸ hi),
    ← getD_eq_getElem?_getD, h.entry i hi]

lemma Shows.contains_iff (h : c.Shows tip) {n : Hash} {parent : BranchNode} :
    c.contains (n :: parent) = true ↔ n :: parent <:+ tip := by
  have hheight : BranchNode.height (n :: parent) = parent.length := by simp [BranchNode.height]
  rw [contains, decide_eq_true_eq, hheight, nodeByHeight, h.length_nodes]
  split_ifs with hout
  · refine ⟨by rintro ⟨⟩, fun hs => ?_⟩
    have := hs.length_le
    rw [length_cons] at this
    omega
  · rw [h.getD_nodes (by omega)]
    exact ⟨fun heq => heq ▸ ancestor_suffix tip _, ancestor_of_suffix⟩

/-- The highest common ancestor of two nodes, nil when there is none. -/
structure IsFork (fork node tip : BranchNode) : Prop where
  ofNode : fork <:+ node
  ofTip : fork <:+ tip
  highest : ∀ other, other <:+ node → other <:+ tip → other <:+ fork

lemma Shows.isFork_findForkLoop (h : c.Shows tip) : ∀ node,
    IsFork (c.findForkLoop node) node tip
  | [] => ⟨suffix_rfl, nil_suffix, fun _ ho _ => ho⟩
  | n :: parent => by
    unfold findForkLoop
    split_ifs with hin
    · exact ⟨suffix_rfl, h.contains_iff.1 hin, fun _ ho _ => ho⟩
    · have ih := h.isFork_findForkLoop parent
      refine ⟨ih.ofNode.trans (suffix_cons n parent), ih.ofTip, fun other ho htip => ?_⟩
      rcases suffix_cons_iff.1 ho with rfl | ho
      · exact absurd (h.contains_iff.2 htip) hin
      · exact ih.highest other ho htip

/-- No common ancestor is lost by starting at the height of the view. -/
theorem Shows.ancestor_height (h : c.Shows tip) (habove : BranchNode.height node > c.height) :
    ancestor node c.height <:+ node ∧
      ∀ other, other <:+ node → other <:+ tip → other <:+ ancestor node c.height := by
  unfold ChainView.height BranchNode.height at *
  rw [h.length_nodes] at *
  rcases tip with - | ⟨x, below⟩
  · exact ⟨nil_suffix, fun _ _ ho => ho⟩
  · rw [length_cons, Nat.cast_succ, Int.add_sub_cancel] at *
    refine ⟨ancestor_suffix node _, fun other ho htip => ?_⟩
    refine suffix_of_suffix_length_le ho (ancestor_suffix node _) ?_
    have hle := htip.length_le
    rw [length_cons] at hle
    rw [ancestor_eq (by omega), length_drop]
    omega

lemma Shows.isFork_findFork (h : c.Shows tip) (node : BranchNode) :
    IsFork (c.findFork node) node tip := by
  unfold findFork
  split_ifs with hne habove
  · subst hne
    exact ⟨suffix_rfl, nil_suffix, fun _ ho _ => ho⟩
  · obtain ⟨hsuffix, hreach⟩ := h.ancestor_height habove
    have hfork := h.isFork_findForkLoop (ancestor node c.height)
    exact ⟨hfork.ofNode.trans hsuffix, hfork.ofTip,
      fun other ho htip => hfork.highest other (hreach other ho htip) htip⟩
  · exact h.isFork_findForkLoop node

/-- After any calls of `setTip` the slice is the branch of the last tip, `Ancestor` follows the
parents, and `findFork` finds the highest common ancestor. -/
theorem view_follows_parents (calls : List BranchNode) :
    ((calls.foldl setTip new).nodes.length = (calls.getLastD []).length ∧
      ∀ i < (calls.getLastD []).length, (calls.foldl setTip new).nodes.getD i [] =
        parent^[(calls.getLastD []).length - 1 - i] (calls.getLastD [])) ∧
    (∀ (node : BranchNode) (i : ℕ), i < node.length →
      ancestor node i = parent^[node.length - 1 - i] node) ∧
    ∀ node, IsFork ((calls.foldl setTip new).findFork node) node (calls.getLastD []) := by
  have h := shows_setTips calls
  have hancestor : ∀ (node : BranchNode) (i : ℕ), i < node.length →
      ancestor node i = parent^[node.length - 1 - i] node := by
    intro node i hi
    rw [ancestor_eq hi, iterate_parent]
    congr 1
    omega
  refine ⟨⟨h.length_nodes, fun i hi => ?_⟩, hancestor, h.isFork_findFork⟩
  rw [h.getD_nodes hi, hancestor _ i hi]

end ChainView

end HandshakeNode
