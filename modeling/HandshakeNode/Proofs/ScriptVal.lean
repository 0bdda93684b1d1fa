import HandshakeNode.ScriptVal
import Mathlib.Algebra.BigOperators.Fin
import Mathlib.Algebra.BigOperators.Group.Finset.Piecewise
import Mathlib.Data.Multiset.Range

/-!
# The verdict of parallel validation

While the loop runs, each item that has been sent is with exactly one goroutine or among the results
received. The main result is `TxValidator.returns_sequential_verdict`; `TxValidator.exists_step`
says that the loop never gets stuck.
-/

namespace HandshakeNode

open List HandlerAt Option

def HandlerAt.holds : HandlerAt → Multiset ℕ
  | .validating i => {i}
  | .sending i _ => {i}
  | _ => 0

namespace TxValidator

variable {Engine : Type} {workers i : ℕ} {view : UtxoViewpoint} {scripts : Scripts Engine}
  {items : List TxValidateItem} {v : TxValidator workers} {a : Action workers} {w : Fin workers}
  {result : Result Unit}

def collected (v : TxValidator workers) (items : List TxValidateItem) (w : Fin workers) (i : ℕ)
    (result : Result Unit) : TxValidator workers :=
  { v with
    processedItems := v.processedItems + 1
    main := afterReceive items (v.processedItems + 1) result
    received := (i, result) :: v.received }.setHandler w (afterSend result)

lemma step_cases (h : v.step view scripts items a = some v') :
    (∃ w, v.main = .selecting ∧ v.handlers w = .selecting ∧ v.currentItem < items.length ∧
      v' = { v with currentItem := v.currentItem + 1 }.setHandler w (.validating v.currentItem)) ∨
    (∃ w i item, v.handlers w = .validating i ∧ items[i]? = some item ∧
      v' = v.setHandler w (.sending i (validateItem view scripts item))) ∨
    (∃ w i result, v.main = .selecting ∧ v.handlers w = .sending i result ∧
      v' = v.collected items w i result) ∨
    (∃ w h, v.quit = true ∧ v' = v.setHandler w h ∧ (h = .exited ∨ h = .selecting)) ∨
    (∃ result, v.main = .closing result ∧ v' = { v with quit := true, main := .returned result }) := by
  rcases a with w | w | w | w | _
  · rcases hm : v.main with _ | r | r <;> rcases hh : v.handlers w with _ | i | ⟨i, r'⟩ | _ <;>
      simp only [step, hm, hh, reduceCtorEq] at h
    split at h
    · exact .inl ⟨w, rfl, hh, by assumption, (some.inj h).symm⟩
    · cases h
  · rcases hh : v.handlers w with _ | i | ⟨i, r'⟩ | _ <;> simp only [step, hh, reduceCtorEq] at h
    obtain ⟨item, hitem, rfl⟩ := map_eq_some_iff.1 h
    exact .inr (.inl ⟨w, i, item, hh, hitem, rfl⟩)
  · rcases hm : v.main with _ | r | r <;> rcases hh : v.handlers w with _ | i | ⟨i, r'⟩ | _ <;>
      simp only [step, hm, hh, reduceCtorEq] at h
    exact .inr (.inr (.inl ⟨w, i, r', rfl, hh, (some.inj h).symm⟩))
  · simp only [step] at h
    split at h
    · rename_i hquit
      refine .inr (.inr (.inr (.inl ⟨w, ?_⟩)))
      rcases hh : v.handlers w with _ | i | ⟨i, r'⟩ | _ <;> simp only [hh, reduceCtorEq] at h
      · exact ⟨_, hquit, (some.inj h).symm, .inl rfl⟩
      · refine ⟨_, hquit, (some.inj h).symm, ?_⟩
        rcases r' with e | _
        · exact .inl rfl
        · exact .inr rfl
    · cases h
  · rcases hm : v.main with _ | r | r <;> simp only [step, hm, reduceCtorEq] at h
    exact .inr (.inr (.inr (.inr ⟨r, rfl, (some.inj h).symm⟩)))

/-! ### Where the items are -/

def held (v : TxValidator workers) : Multiset ℕ := ∑ w, (v.handlers w).holds

def done (v : TxValidator workers) : Multiset ℕ := (v.received.map Prod.fst : List ℕ)

lemma held_setHandler (v : TxValidator workers) (w : Fin workers) (h : HandlerAt) :
    (v.setHandler w h).held + (v.handlers w).holds = v.held + h.holds := by
  have hnew : (v.setHandler w h).held = h.holds + ∑ x ∈ Finset.univ \ {w}, (v.handlers x).holds := by
    rw [setHandler, ← Finset.sum_update_of_mem (Finset.mem_univ w)]
    refine Finset.sum_congr rfl fun x _ => ?_
    by_cases hx : x = w
    · subst hx
      simp
    · simp [Function.update_of_ne hx]
  have hold : v.held = (v.handlers w).holds + ∑ x ∈ Finset.univ \ {w}, (v.handlers x).holds := by
    rw [held, ← Finset.sum_update_of_mem (Finset.mem_univ w), Function.update_eq_self]
  rw [hnew, hold, add_right_comm, add_comm (v.handlers w).holds, add_right_comm,
    add_comm h.holds, add_right_comm]

def Correct (view : UtxoViewpoint) (scripts : Scripts Engine) (items : List TxValidateItem)
    (i : ℕ) (result : Result Unit) : Prop :=
  ∃ item, items[i]? = some item ∧ result = validateItem view scripts item

structure Feeding (items : List TxValidateItem) (v : TxValidator workers) : Prop where
  open_quit : v.quit = false
  more : v.processedItems < items.length
  current_le : v.currentItem ≤ items.length
  all_ok : ∀ p ∈ v.received, p.2 = .ok ()
  accounted : v.held + v.done = Multiset.range v.currentItem
  running : ∀ w, v.handlers w ≠ .exited

structure Finished (items : List TxValidateItem) (v : TxValidator workers) (result : Result Unit) :
    Prop where
  nodup : v.done.Nodup
  verdict : result = .ok () ∧ (∀ p ∈ v.received, p.2 = .ok ()) ∧
      v.done = Multiset.range items.length ∨
    ∃ p ∈ v.received, ∃ e, p.2 = .error e ∧ result = .error e

structure Inv (view : UtxoViewpoint) (scripts : Scripts Engine) (items : List TxValidateItem)
    (v : TxValidator workers) : Prop where
  received : ∀ p ∈ v.received, Correct view scripts items p.1 p.2
  sending : ∀ w i result, v.handlers w = .sending i result → Correct view scripts items i result
  processed : v.processedItems = v.received.length
  selecting : v.main = .selecting → v.Feeding items
  closing : ∀ result, v.main = .closing result → v.Finished items result
  returned : ∀ result, v.main = .returned result → v.Finished items result

lemma handlers_setHandler : (v.setHandler w h).handlers x = if x = w then h else v.handlers x := by
  exact Function.update_apply _ _ _ _

lemma inv_start (workers : ℕ) (items : List TxValidateItem) :
    (start workers items).Inv view scripts items := by
  refine ⟨by simp [start], by simp [start], rfl, ?_, ?_, ?_⟩
  · intro hmain
    rw [start] at hmain
    have hlen : 0 < items.length := by
      rcases hn : items.length with _ | n
      · simp [hn] at hmain
      · omega
    exact ⟨rfl, hlen, Nat.zero_le _, by simp [start], by simp [held, done, start, holds],
      by simp [start]⟩
  · intro result hmain
    simp only [start] at hmain
    split at hmain <;> cases hmain
  · intro result hmain
    simp only [start] at hmain
    split at hmain
    · rename_i hlen
      cases hmain
      exact ⟨by simp [done, start], .inl ⟨rfl, by simp [start], by simp [done, start, hlen]⟩⟩
    · cases hmain

section

variable (h : v.Feeding items)
include h

lemma Feeding.feed (hw : v.handlers w = .selecting) (hlt : v.currentItem < items.length) :
    ({ v with currentItem := v.currentItem + 1 }.setHandler w
      (.validating v.currentItem)).Feeding items := by
  refine ⟨h.open_quit, h.more, hlt, h.all_ok, ?_, ?_⟩
  · have hheld := held_setHandler { v with currentItem := v.currentItem + 1 } w
      (.validating v.currentItem)
    simp only [hw, HandlerAt.holds, add_zero] at hheld
    rw [hheld]
    change v.held + {v.currentItem} + v.done = Multiset.range (v.currentItem + 1)
    rw [Multiset.range_succ, ← h.accounted, add_right_comm, Multiset.add_comm,
      Multiset.singleton_add]
  · intro x
    rw [handlers_setHandler]
    split
    · exact fun h => HandlerAt.noConfusion h
    · exact h.running x

lemma Feeding.validate (hw : v.handlers w = .validating i) :
    (v.setHandler w (.sending i result)).Feeding items := by
  refine ⟨h.open_quit, h.more, h.current_le, h.all_ok, ?_, ?_⟩
  · have hheld := held_setHandler v w (.sending i result)
    simp only [hw, HandlerAt.holds, add_left_inj] at hheld
    rw [hheld]
    exact h.accounted
  · intro x
    rw [handlers_setHandler]
    split
    · exact fun h => HandlerAt.noConfusion h
    · exact h.running x

lemma Feeding.accounted_collected (hw : v.handlers w = .sending i result) :
    (v.collected items w i result).held + (v.collected items w i result).done =
      Multiset.range v.currentItem := by
  have hheld := held_setHandler { v with
    processedItems := v.processedItems + 1
    main := afterReceive items (v.processedItems + 1) result
    received := (i, result) :: v.received } w (afterSend result)
  have hafter : (afterSend result).holds = 0 := by
    rcases result with e | _ <;> rfl
  have hdone : (v.collected items w i result).done = i ::ₘ v.done := rfl
  rw [hafter, add_zero] at hheld
  simp only [hw] at hheld
  rw [hdone, Multiset.add_cons, ← Multiset.singleton_add, ← h.accounted, ← add_assoc,
    Multiset.add_comm {i}]
  exact congrArg (· + v.done) hheld

lemma Feeding.nodup_collected (hw : v.handlers w = .sending i result) :
    (v.collected items w i result).done.Nodup := by
  refine Multiset.nodup_of_le ?_ (Multiset.nodup_range v.currentItem)
  rw [← h.accounted_collected hw]
  exact Multiset.le_add_left _ _

end

lemma Inv.collect (h : v.Inv view scripts items) (hmain : v.main = .selecting)
    (hw : v.handlers w = .sending i result) :
    (v.collected items w i result).Inv view scripts items := by
  have hf := h.selecting hmain
  have hok := h.sending w i result hw
  have hcount : (v.collected items w i result).processedItems =
      (v.collected items w i result).received.length :=
    congrArg (· + 1) h.processed
  refine ⟨?_, ?_, hcount, ?_, ?_, ?_⟩
  · intro p hp
    rcases mem_cons.1 hp with rfl | hp
    · exact hok
    · exact h.received p hp
  · intro x j r hx
    rw [collected, handlers_setHandler] at hx
    split at hx
    · rcases result with e | _ <;> cases hx
    · exact h.sending x j r hx
  · intro hsel
    change afterReceive items (v.processedItems + 1) result = .selecting at hsel
    rcases result with e | _
    · cases hsel
    rw [afterReceive] at hsel
    split at hsel
    · rename_i hmore
      refine ⟨hf.open_quit, hmore, hf.current_le, ?_, hf.accounted_collected hw, ?_⟩
      · intro p hp
        rcases mem_cons.1 hp with rfl | hp
        · rfl
        · exact hf.all_ok p hp
      · intro x
        rw [collected, handlers_setHandler]
        split
        · exact fun h => HandlerAt.noConfusion h
        · exact hf.running x
    · cases hsel
  · intro r hcl
    change afterReceive items (v.processedItems + 1) result = .closing r at hcl
    refine ⟨hf.nodup_collected hw, ?_⟩
    rcases result with e | _
    · cases hcl
      exact .inr ⟨(i, .error e), mem_cons_self, e, rfl, rfl⟩
    rw [afterReceive] at hcl
    split at hcl
    · cases hcl
    rename_i hlast
    cases hcl
    have hle : (v.collected items w i (.ok ())).done ≤ Multiset.range items.length := by
      refine le_trans ?_ (Multiset.range_le.2 hf.current_le)
      rw [← hf.accounted_collected hw]
      exact Multiset.le_add_left _ _
    have hcard : items.length ≤ Multiset.card (v.collected items w i (.ok ())).done := by
      rw [done, Multiset.coe_card, length_map, ← hcount]
      exact not_lt.1 hlast
    refine .inl ⟨rfl, ?_, Multiset.eq_of_le_of_card_le hle (by rwa [Multiset.card_range])⟩
    intro p hp
    rcases mem_cons.1 hp with rfl | hp
    · rfl
    · exact hf.all_ok p hp
  · intro r hret
    change afterReceive items (v.processedItems + 1) result = .returned r at hret
    rcases result with e | _
    · cases hret
    · rw [afterReceive] at hret
      split at hret <;> cases hret

lemma Inv.setHandler (hinv : v.Inv view scripts items)
    (hcorrect : ∀ i result, h = .sending i result → Correct view scripts items i result)
    (hfeed : v.main = .selecting → (v.setHandler w h).Feeding items) :
    (v.setHandler w h).Inv view scripts items := by
  refine ⟨hinv.received, ?_, hinv.processed, hfeed,
    fun result hm => ⟨(hinv.closing result hm).nodup, (hinv.closing result hm).verdict⟩,
    fun result hm => ⟨(hinv.returned result hm).nodup, (hinv.returned result hm).verdict⟩⟩
  intro x i result hx
  rw [handlers_setHandler] at hx
  split at hx
  · exact hcorrect i result hx
  · exact hinv.sending x i result hx

lemma Inv.step (h : v.Inv view scripts items) (hstep : v.step view scripts items a = some v') :
    v'.Inv view scripts items := by
  rcases step_cases hstep with ⟨w, hm, hw, hlt, rfl⟩ | ⟨w, i, item, hw, hitem, rfl⟩ |
    ⟨w, i, result, hm, hw, rfl⟩ | ⟨w, hnew, hquit, rfl, hcase⟩ | ⟨result, hm, rfl⟩
  · refine ⟨h.received, ?_, h.processed, fun _ => (h.selecting hm).feed hw hlt, ?_, ?_⟩
    · intro x i result hx
      rw [handlers_setHandler] at hx
      split at hx
      · cases hx
      · exact h.sending x i result hx
    · intro result hcl
      rw [hm] at hcl
      cases hcl
    · intro result hret
      rw [hm] at hret
      cases hret
  · refine h.setHandler ?_ fun hm => (h.selecting hm).validate hw
    rintro j result hj
    cases hj
    exact ⟨item, hitem, rfl⟩
  · exact h.collect hm hw
  · refine h.setHandler ?_ fun hm => ?_
    · rintro i result rfl
      rcases hcase with hc | hc <;> cases hc
    · have := (h.selecting hm).open_quit
      rw [hquit] at this
      cases this
  · refine ⟨h.received, h.sending, h.processed, fun hs => (by cases hs), fun r hr => (by cases hr), ?_⟩
    rintro r hr
    cases hr
    exact ⟨(h.closing result hm).nodup, (h.closing result hm).verdict⟩

lemma Reached.inv (h : Reached view scripts items v) : v.Inv view scripts items := by
  induction h with
  | start => exact inv_start workers items
  | step _ hstep ih => exact ih.step hstep

/-- Whatever the number of goroutines and their interleaving, `Validate` returns nil exactly when
every item validates, and otherwise the error of an item that fails. No result is received twice,
and on nil one has been received for every item. -/
theorem returns_sequential_verdict {result : Result Unit} (h : Reached view scripts items v)
    (hret : v.main = .returned result) :
    (result = .ok () ↔ ∀ item ∈ items, validateItem view scripts item = .ok ()) ∧
    (∀ e, result = .error e → ∃ item ∈ items, validateItem view scripts item = .error e) ∧
    (v.received.map Prod.fst).Nodup ∧
    (result = .ok () → (v.received.map Prod.fst).Perm (List.range items.length)) := by
  have hinv := h.inv
  obtain ⟨hnodup, hverdict⟩ := hinv.returned result hret
  have hfail : ∀ e, result = .error e → ∃ item ∈ items, validateItem view scripts item = .error e := by
    rintro e rfl
    rcases hverdict with ⟨hok, -, -⟩ | ⟨p, hp, e', hpe, he⟩
    · cases hok
    · cases he
      obtain ⟨item, hitem, hr⟩ := hinv.received p hp
      exact ⟨item, mem_of_getElem? hitem, hr ▸ hpe⟩
  have hall : result = .ok () → (v.received.map Prod.fst).Perm (List.range items.length) := by
    rintro rfl
    rcases hverdict with ⟨-, -, hdone⟩ | ⟨p, hp, e, hpe, he⟩
    · exact Multiset.coe_eq_coe.1 hdone
    · cases he
  refine ⟨⟨?_, ?_⟩, hfail, hnodup, hall⟩
  · rintro rfl item hitem
    obtain ⟨i, hi, rfl⟩ := mem_iff_getElem.1 hitem
    have hmem : i ∈ v.received.map Prod.fst := (hall rfl).mem_iff.2 (mem_range.2 hi)
    obtain ⟨p, hp, rfl⟩ := mem_map.1 hmem
    obtain ⟨item, hitem, hr⟩ := hinv.received p hp
    rw [List.getElem?_eq_getElem hi, some.injEq] at hitem
    rw [hitem, ← hr]
    rcases hverdict with ⟨-, hok, -⟩ | ⟨q, hq, e, hqe, he⟩
    · exact hok p hp
    · cases he
  · intro hok
    rcases result with e | _
    · obtain ⟨item, hitem, he⟩ := hfail e rfl
      rw [hok item hitem] at he
      cases he
    · rfl

def oneCoinView : UtxoViewpoint where
  entries := Finmap.singleton ⟨Hash.zero, 0⟩ (some ⟨5, ⟨0, []⟩, ⟨.none, []⟩, [], 1, {}⟩)
  bestHash := Hash.zero

def acceptAll : Scripts Unit := ⟨fun _ _ _ _ => .ok (), fun _ => .ok ()⟩

def twoItems : List TxValidateItem :=
  [⟨0, ⟨⟨Hash.zero, 0⟩, []⟩, ⟨Hash.zero, [], []⟩⟩, ⟨1, ⟨⟨Hash.zero, 1⟩, []⟩, ⟨Hash.zero, [], []⟩⟩]

def runOf (v : TxValidator 2) (as : List (Action 2)) : Option (TxValidator 2) :=
  as.foldlM (fun v a => v.step oneCoinView acceptAll twoItems a) v

lemma reached_runOf : ∀ {as} {v v'},
    Reached oneCoinView acceptAll twoItems v → runOf v as = some v' →
    Reached oneCoinView acceptAll twoItems v'
  | [], v, v', h, hrun => by
    cases hrun
    exact h
  | a :: as, v, v', h, hrun => by
    obtain ⟨u, hu, hrest⟩ := bind_eq_some_iff.1 hrun
    exact reached_runOf (h.step hu) hrest

/-- The failure of the second item is received while the first one is still being validated. -/
theorem returns_sequential_verdict_twoItems :
    ∃ (v : TxValidator 2) (e : Err), Reached oneCoinView acceptAll twoItems v ∧
      v.main = .returned (.error e) ∧
      ∃ item ∈ twoItems, validateItem oneCoinView acceptAll item = .error e := by
  obtain ⟨v, hrun, e, hmain⟩ : ∃ v, runOf (start 2 twoItems)
      [.feed 0, .feed 1, .validate 1, .collect 1, .close] = some v ∧
      ∃ e, v.main = .returned (.error e) := ⟨_, rfl, _, rfl⟩
  have hreached := reached_runOf .start hrun
  exact ⟨v, e, hreached, hmain, (returns_sequential_verdict hreached hmain).2.1 e rfl⟩

lemma mem_held (h : i ∈ (v.handlers w).holds) : i ∈ v.held :=
  Multiset.mem_sum.2 ⟨w, Finset.mem_univ w, h⟩

lemma Feeding.lt_of_held (h : v.Feeding items) (hi : i ∈ v.held) : i < items.length := by
  have hmem : i ∈ Multiset.range v.currentItem := by
    rw [← h.accounted]
    exact Multiset.mem_add.2 (.inl hi)
  exact (Multiset.mem_range.1 hmem).trans_le h.current_le

/-- The loop never gets stuck: until it has returned, some goroutine can take a step. -/
theorem exists_step (hworkers : 0 < workers) (h : Reached view scripts items v)
    (hret : ∀ result, v.main ≠ .returned result) :
    ∃ a v', v.step view scripts items a = some v' := by
  have hinv := h.inv
  rcases hm : v.main with _ | result | result
  · have hf := hinv.selecting hm
    by_cases hall : ∀ w, v.handlers w = .selecting
    · -- nothing is in flight, so the items received are those that have been sent
      have hheld : v.held = 0 := Finset.sum_eq_zero fun w _ => by rw [hall w]; rfl
      have hcount : v.processedItems = v.currentItem := by
        have hdone := hf.accounted
        rw [hheld, zero_add] at hdone
        rw [hinv.processed, ← length_map (f := Prod.fst)]
        change Multiset.card v.done = _
        rw [hdone, Multiset.card_range]
      have hlt : v.currentItem < items.length := hcount ▸ hf.more
      exact ⟨.feed ⟨0, hworkers⟩, _, by simp only [step, hm, hall, if_pos hlt]; rfl⟩
    · obtain ⟨w, hw⟩ := not_forall.1 hall
      rcases hh : v.handlers w with _ | i | ⟨i, result⟩ | _
      · exact absurd hh hw
      · have hlt := hf.lt_of_held (mem_held (w := w) (i := i) (by simp [hh, holds]))
        exact ⟨.validate w, _, by simp only [step, hh, List.getElem?_eq_getElem hlt]; rfl⟩
      · exact ⟨.collect w, _, by simp only [step, hm, hh]; rfl⟩
      · exact absurd hh (hf.running w)
  · exact ⟨.close, _, by simp only [step, hm]; rfl⟩
  · exact absurd hm (hret result)

/-- The first item is being validated and the result of the second one waits to be received. -/
theorem exists_step_pending : ∃ (v : TxValidator 2) (result : Result Unit),
    Reached oneCoinView acceptAll twoItems v ∧ v.handlers 0 = .validating 0 ∧
      v.handlers 1 = .sending 1 result ∧
      ∃ a v', v.step oneCoinView acceptAll twoItems a = some v' := by
  obtain ⟨v, hrun, h0, result, h1, hmain⟩ : ∃ v, runOf (start 2 twoItems)
      [.feed 0, .feed 1, .validate 1] = some v ∧ v.handlers 0 = .validating 0 ∧
      ∃ result, v.handlers 1 = .sending 1 result ∧ v.main = .selecting := ⟨_, rfl, rfl, _, rfl, rfl⟩
  have hreached := reached_runOf .start hrun
  exact ⟨v, result, hreached, h0, h1, exists_step (by decide) hreached (by simp [hmain])⟩

end TxValidator

end HandshakeNode
