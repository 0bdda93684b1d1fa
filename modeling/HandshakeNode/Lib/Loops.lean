import Mathlib.Data.List.Forall2
import Mathlib.Logic.Function.Basic

/-!
# Loops that may fail

Rules for `foldlM` in `Except`: an invariant of the rounds, rounds that all succeed, and rounds that
each write one key of a store.
-/

namespace Loops

open List Function

universe u v

variable {σ ι κ : Type u} {f : σ → ι → Except ε σ} {P : σ → Prop} {xs : List ι}
  {g : ι → Except ε κ} {ys : List κ}

lemma foldlM_cons_ok (h : (i :: xs).foldlM f s = .ok s') :
    ∃ s1, f s i = .ok s1 ∧ xs.foldlM f s1 = .ok s' := by
  rw [foldlM_cons] at h
  cases hf : f s i with
  | error e =>
    rw [hf] at h
    cases h
  | ok s1 =>
    rw [hf] at h
    exact ⟨s1, rfl, h⟩

lemma foldlM_inv : ∀ (xs : List ι) {s s' : σ},
    (∀ i ∈ xs, ∀ s s', P s → f s i = .ok s' → P s') → P s → xs.foldlM f s = .ok s' → P s'
  | [], s, s', _, hs, h => by
    cases h
    exact hs
  | i :: xs, s, s', hstep, hs, h => by
    obtain ⟨hi, hxs⟩ := forall_mem_cons.1 hstep
    obtain ⟨s1, hf, hrest⟩ := foldlM_cons_ok h
    exact foldlM_inv xs hxs (hi s s1 hs hf) hrest

lemma foldlM_each : ∀ (xs : List ι) {s s' : σ}, xs.foldlM f s = .ok s' →
    ∀ i ∈ xs, ∃ s1 s2, f s1 i = .ok s2
  | [], _, _, _, i, hi => by cases hi
  | j :: xs, s, s', h, i, hi => by
    obtain ⟨s1, hf, hrest⟩ := foldlM_cons_ok h
    rcases mem_cons.1 hi with rfl | hi
    · exact ⟨s, s1, hf⟩
    · exact foldlM_each xs hrest i hi

lemma forM_each {g : κ → Except ε PUnit.{u + 1}} : ∀ (xs : List κ) {r : PUnit},
    xs.forM g = .ok r → ∀ x ∈ xs, g x = .ok ⟨⟩
  | [], _, _, x, hx => by cases hx
  | y :: xs, r, h, x, hx => by
    rw [forM_eq_forM, forM_cons] at h
    cases hy : g y with
    | error e =>
      rw [hy] at h
      cases h
    | ok u =>
      rw [hy] at h
      rcases mem_cons.1 hx with rfl | hx
      · exact hy
      · exact forM_each xs h x hx

lemma foldlM_rounds {Q : List ι → σ → Prop}
    (hstep : ∀ past i rest, xs = past ++ i :: rest → ∀ s s', Q past s → f s i = .ok s' →
      Q (past ++ [i]) s') (hs : Q [] s) (h : xs.foldlM f s = .ok s') : Q xs s' := by
  have hrest : ∀ (rest past : List ι) (s : σ), xs = past ++ rest → Q past s →
      rest.foldlM f s = .ok s' → Q xs s' := by
    intro rest
    induction rest with
    | nil =>
      intro past s hxs hs h
      cases h
      rwa [hxs, append_nil]
    | cons i rest ih =>
      intro past s hxs hs h
      obtain ⟨s1, hf, hloop⟩ := foldlM_cons_ok h
      exact ih (past ++ [i]) s1 (by rw [hxs, append_assoc]; rfl)
        (hstep past i rest hxs s s1 hs hf) hloop
  exact hrest xs [] s rfl hs h

lemma foldlM_congr_ok {g : σ → ι → Except ε σ} : ∀ (xs : List ι) {s s' : σ},
    (∀ i ∈ xs, ∀ s s', P s → f s i = .ok s' → g s i = .ok s' ∧ P s') → P s →
    xs.foldlM f s = .ok s' → xs.foldlM g s = .ok s'
  | [], _, _, _, _, h => h
  | i :: xs, s, s', hstep, hs, h => by
    obtain ⟨hi, hxs⟩ := forall_mem_cons.1 hstep
    obtain ⟨s1, hf, hrest⟩ := foldlM_cons_ok h
    obtain ⟨hg, hs1⟩ := hi s s1 hs hf
    rw [foldlM_cons, hg]
    exact foldlM_congr_ok xs hxs hs1 hrest

section Writes

variable {β : Type*} [DecidableEq ι] {r : σ → ι → β} {n : ι → β}

/-- Rounds that each write one key. -/
theorem foldl_write {t : σ → ι → σ} (ht : ∀ s k, r (t s k) = update (r s) k (n k)) (j : ι) :
    ∀ (ks : List ι) (s : σ), r (ks.foldl t s) j = if j ∈ ks then n j else r s j
  | [], s => by simp
  | k :: ks, s => by
    rw [foldl_cons, foldl_write ht j ks, ht]
    by_cases hj : j = k
    · subst hj
      simp
    · simp [hj]

/-- Rounds that each write another key, and succeed when what they find there satisfies `Q`. -/
theorem foldlM_write {Q : ι → β → Prop} {c : σ → γ} (hf : ∀ s k, Q k (r s k) →
      ∃ s', f s k = .ok s' ∧ r s' = update (r s) k (n k) ∧ c s' = c s) :
    ∀ {xs : List ι} {s : σ}, xs.Nodup → (∀ k ∈ xs, Q k (r s k)) →
    ∃ s', xs.foldlM f s = .ok s' ∧ (∀ k, r s' k = if k ∈ xs then n k else r s k) ∧ c s' = c s
  | [], s, _, _ => ⟨s, rfl, by simp, rfl⟩
  | k :: xs, s, hnodup, hxs => by
    obtain ⟨hk, hnodup⟩ := nodup_cons.1 hnodup
    obtain ⟨hok, hxs⟩ := forall_mem_cons.1 hxs
    obtain ⟨s1, hs1, hread, hkeep⟩ := hf s k hok
    have hsame : ∀ j, j ≠ k → r s1 j = r s j := fun j hj => by rw [hread, update_of_ne hj]
    obtain ⟨s', hrest, hread', hkeep'⟩ := foldlM_write hf hnodup fun j hj => by
      rw [hsame j (ne_of_mem_of_not_mem hj hk)]
      exact hxs j hj
    refine ⟨s', by rw [foldlM_cons, hs1]; exact hrest, fun j => ?_, hkeep'.trans hkeep⟩
    rw [hread']
    by_cases hj : j = k
    · subst hj
      simp [hread]
    · simp [hj, hsame j hj]

end Writes

lemma foldlM_map_filter (p : κ → Bool) (g : κ → ι) : ∀ (xs : List κ) (s : σ),
    ((xs.filter p).map g).foldlM f s = xs.foldlM (fun s x => if p x then f s (g x) else .ok s) s
  | [], _ => rfl
  | x :: xs, s => by
    cases hx : p x with
    | false =>
      rw [filter_cons_of_neg (by simp [hx]), foldlM_map_filter p g xs s, foldlM_cons, hx]
      rfl
    | true =>
      rw [filter_cons_of_pos hx, map_cons, foldlM_cons, foldlM_cons, hx]
      exact bind_congr fun s1 => foldlM_map_filter p g xs s1

lemma mapM_ok : ∀ {xs : List ι} {ys : List κ},
    xs.mapM g = .ok ys → List.Forall₂ (fun x y => g x = .ok y) xs ys
  | [], ys, h => by
    cases h
    exact .nil
  | x :: xs, ys, h => by
    rw [mapM_cons] at h
    cases hx : g x with
    | error e =>
      rw [hx] at h
      cases h
    | ok y =>
      rw [hx] at h
      cases hrest : xs.mapM g with
      | error e =>
        rw [hrest] at h
        cases h
      | ok ys' =>
        rw [hrest] at h
        cases h
        exact .cons hx (mapM_ok hrest)

lemma mapM_mem (h : xs.mapM g = .ok ys) (hy : y ∈ ys) : ∃ x ∈ xs, g x = .ok y := by
  obtain ⟨i, hi, rfl⟩ := getElem_of_mem hy
  have hall := mapM_ok h
  have hlen : i < xs.length := hall.length_eq ▸ hi
  exact ⟨xs[i], getElem_mem hlen, hall.get hlen hi⟩

lemma mapM_map (h : xs.mapM g = .ok ys) (hab : ∀ x y, g x = .ok y → b y = a x) :
    ys.map b = xs.map a := by
  have hall : List.Forall₂ (fun x y => a x = b y) xs ys :=
    (mapM_ok h).imp fun x y hxy => (hab x y hxy).symm
  rw [← forall₂_map_right_iff, ← forall₂_map_left_iff, forall₂_eq_eq_eq] at hall
  exact hall.symm

lemma mapM_eq_ok_iff {V : ι → Prop} (hg : ∀ i k, g i = .ok k ↔ V i ∧ k = h i) :
    xs.mapM g = .ok ys ↔ (∀ i ∈ xs, V i) ∧ ys = xs.map h := by
  constructor
  · intro hys
    have hall := (mapM_ok hys).imp fun i k => (hg i k).1
    refine ⟨((forall₂_and_left _ _).1 hall).1, ?_⟩
    simpa using mapM_map (b := id) hys fun i k hik => ((hg i k).1 hik).2
  · rintro ⟨hV, rfl⟩
    induction xs with
    | nil => rfl
    | cons i xs ih =>
      obtain ⟨hi, hxs⟩ := forall_mem_cons.1 hV
      rw [mapM_cons, (hg i _).2 ⟨hi, rfl⟩, ih hxs]
      rfl

end Loops
