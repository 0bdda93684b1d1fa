import Mathlib.Data.List.Basic
import Mathlib.Algebra.Order.Group.Nat

/-!
# Lawful codecs

A decoder reads a value off the front of its input and returns what is left. It is lawful for an
encoder and a domain when it reads back what the encoder writes of a value in the domain, whatever
follows, and when whatever it reads is in the domain and was written by the encoder. So on its
domain the encoding is a bijection onto what the decoder accepts. Lawful codecs compose along the
sequence of reads of a decoder.
-/

namespace Codec

open List

universe u

variable {ε σ α β : Type u} {P : α → Prop} {enc : α → List σ} {n : ℕ}

structure Lawful (P : α → Prop) (enc : α → List σ) (dec : List σ → Except ε (α × List σ)) :
    Prop where
  dec_enc : ∀ a r, P a → dec (enc a ++ r) = .ok (a, r)
  enc_dec : ∀ s a r, dec s = .ok (a, r) → P a ∧ s = enc a ++ r

structure Whole (P : α → Prop) (enc : α → List σ) (dec : List σ → Except ε α) : Prop where
  dec_enc : ∀ a, P a → dec (enc a) = .ok a
  enc_dec : ∀ s a, dec s = .ok a → P a ∧ s = enc a

structure Sized (P : α → Prop) (enc : α → List σ) (n : ℕ) (dec : List σ → Except ε α) :
    Prop where
  length : ∀ a, P a → (enc a).length = n
  dec_enc : ∀ a, P a → dec (enc a) = .ok a
  enc_dec : ∀ s a, s.length = n → dec s = .ok a → P a ∧ s = enc a

def readN (dec : List σ → Except ε (α × List σ)) : ℕ → List σ → Except ε (List α × List σ)
  | 0, s => .ok ([], s)
  | n + 1, s => do
    let (a, s) ← dec s
    let (as, s) ← readN dec n s
    return (a :: as, s)

lemma bind_eq_ok_iff {f : α → Except ε β} : (x >>= f) = .ok b ↔ ∃ a, x = .ok a ∧ f a = .ok b := by
  cases x with
  | error e => exact ⟨nofun, nofun⟩
  | ok a => exact ⟨fun h => ⟨a, rfl, h⟩, fun ⟨_, ha, h⟩ => Except.ok.inj ha ▸ h⟩

namespace Lawful

variable {P : α → Prop} {enc : α → List σ} {dec : List σ → Except ε (α × List σ)}

lemma ret (h : ∀ a, P a ↔ a = c) :
    Lawful P (fun _ => ([] : List σ)) fun r => (.ok (c, r) : Except ε (α × List σ)) where
  dec_enc a r ha := by rw [(h a).1 ha]; rfl
  enc_dec s a r hs := by
    cases hs
    exact ⟨(h c).2 rfl, rfl⟩

lemma bind {enc' : β → List σ}
    {k : α × List σ → Except ε (β × List σ)} (π : β → α) (hdec : Lawful P enc dec)
    (hk : ∀ a, P a → Lawful (fun b => Q b ∧ π b = a) enc' fun r => k (a, r))
    (hQ : ∀ b, Q b → P (π b)) :
    Lawful Q (fun b => enc (π b) ++ enc' b) fun s => dec s >>= k where
  dec_enc b r hb := by
    rw [append_assoc, hdec.dec_enc _ _ (hQ b hb)]
    exact (hk (π b) (hQ b hb)).dec_enc b r ⟨hb, rfl⟩
  enc_dec s b r hs := by
    obtain ⟨⟨a, s'⟩, hs, hk'⟩ := bind_eq_ok_iff.1 hs
    obtain ⟨ha, rfl⟩ := hdec.enc_dec s a s' hs
    obtain ⟨⟨hb, rfl⟩, rfl⟩ := (hk a ha).enc_dec s' b r hk'
    exact ⟨hb, by rw [append_assoc]⟩

lemma read {enc' : β → List σ} {k : α × List σ → Except ε (β × List σ)} (π : β → α)
    (hdec : Lawful (fun _ => True) enc dec)
    (hk : ∀ a, Lawful (fun b => Q b ∧ π b = a) enc' fun r => k (a, r)) :
    Lawful Q (fun b => enc (π b) ++ enc' b) fun s => dec s >>= k :=
  hdec.bind π (fun a _ => hk a) fun _ _ => trivial

lemma guard {g : List σ → Except ε PUnit} (hg : ∀ a r, P a → g (enc a ++ r) = .ok ⟨⟩)
    (hdec : ∀ s, g s = .ok ⟨⟩ → Lawful P enc dec) :
    Lawful P enc fun s => g s >>= fun _ => dec s where
  dec_enc a r ha := by
    have h := hg a r ha
    rw [h]
    exact (hdec _ h).dec_enc a r ha
  enc_dec s a r hs := by
    obtain ⟨⟨⟩, h, hs⟩ := bind_eq_ok_iff.1 hs
    exact (hdec s h).enc_dec s a r hs

lemma congr (hdec : Lawful P enc dec) (h : ∀ a, Q a ↔ P a)
    (henc : ∀ a, P a → enc' a = enc a) : Lawful Q enc' dec where
  dec_enc a r ha := by
    rw [henc a ((h a).1 ha)]
    exact hdec.dec_enc a r ((h a).1 ha)
  enc_dec s a r hs := by
    obtain ⟨ha, rfl⟩ := hdec.enc_dec s a r hs
    exact ⟨(h a).2 ha, by rw [henc a ha]⟩

lemma iso (hdec : Lawful P enc dec) (f : α → β) (g : β → α) (hg : ∀ b, P (g b))
    (hfg : ∀ b, f (g b) = b) (hgf : ∀ a, P a → g (f a) = a) :
    Lawful (fun _ => True) (fun b => enc (g b)) fun s => dec s >>= fun x => .ok (f x.1, x.2) where
  dec_enc b r _ := by
    rw [hdec.dec_enc _ _ (hg b)]
    change Except.ok (f (g b), r) = _
    rw [hfg]
  enc_dec s b r hs := by
    obtain ⟨⟨a, s'⟩, ha, hb⟩ := bind_eq_ok_iff.1 hs
    cases hb
    obtain ⟨hPa, rfl⟩ := hdec.enc_dec _ _ _ ha
    exact ⟨trivial, by rw [hgf a hPa]⟩

lemma subtype [DecidablePred P] (hdec : Lawful P enc dec) (e : ε) :
    Lawful (fun _ => True) (fun x : { a // P a } => enc x.1) fun s => dec s >>= fun x =>
      if h : P x.1 then .ok (⟨x.1, h⟩, x.2) else .error e where
  dec_enc x r _ := by
    rw [hdec.dec_enc _ _ x.2]
    exact dif_pos x.2
  enc_dec s x r hs := by
    obtain ⟨⟨a, r'⟩, ha, hx⟩ := bind_eq_ok_iff.1 hs
    obtain ⟨hP, rfl⟩ := hdec.enc_dec _ _ _ ha
    rw [dif_pos hP] at hx
    cases hx
    exact ⟨trivial, rfl⟩

lemma nil {decs : List σ → Except ε (List α × List σ)} (h : ∀ s, decs s = .ok ([], s)) :
    Lawful (fun l => l.length = 0 ∧ ∀ a ∈ l, P a) (fun l => (l.map enc).flatten) decs where
  dec_enc l r hl := by
    rw [length_eq_zero_iff.1 hl.1, h]
    rfl
  enc_dec s l r hs := by
    rw [h] at hs
    cases hs
    exact ⟨⟨rfl, by simp⟩, rfl⟩

lemma cons {n : ℕ} (hdec : Lawful P enc dec)
    (hdecs : Lawful (fun l => l.length = n ∧ ∀ a ∈ l, P a) (fun l => (l.map enc).flatten) decs) :
    Lawful (fun l => l.length = n + 1 ∧ ∀ a ∈ l, P a) (fun l => (l.map enc).flatten) fun s => do
      let (a, s) ← dec s
      let (l, s) ← decs s
      return (a :: l, s) where
  dec_enc l r hl := by
    obtain _ | ⟨a, l⟩ := l
    · cases hl.1
    obtain ⟨ha, hall⟩ := forall_mem_cons.1 hl.2
    rw [map_cons, flatten_cons, append_assoc, hdec.dec_enc _ _ ha]
    change (decs _ >>= _) = _
    rw [hdecs.dec_enc l r ⟨by simpa using hl.1, hall⟩]
    rfl
  enc_dec s l r hs := by
    obtain ⟨⟨a, s'⟩, ha, hrest⟩ := bind_eq_ok_iff.1 hs
    obtain ⟨⟨l', r'⟩, hl, heq⟩ := bind_eq_ok_iff.1 hrest
    cases heq
    obtain ⟨hPa, rfl⟩ := hdec.enc_dec _ _ _ ha
    obtain ⟨⟨hlen, hall⟩, rfl⟩ := hdecs.enc_dec _ _ _ hl
    exact ⟨⟨by simp [hlen], by simpa using ⟨hPa, hall⟩⟩, by simp⟩

lemma readN (hdec : Lawful P enc dec) : ∀ n,
    Lawful (fun l => l.length = n ∧ ∀ a ∈ l, P a) (fun l => (l.map enc).flatten) (Codec.readN dec n)
  | 0 => nil fun _ => rfl
  | n + 1 => hdec.cons (readN hdec n)

lemma append_inj (hdec : Lawful P enc dec) (ha : P a) (hb : P b)
    (h : enc a ++ r = enc b ++ r') : a = b ∧ r = r' := by
  have hread := hdec.dec_enc a r ha
  rw [h, hdec.dec_enc b r' hb] at hread
  cases hread
  exact ⟨rfl, rfl⟩

lemma inj (hdec : Lawful P enc dec) (ha : P a) (hb : P b) (h : enc a = enc b) : a = b :=
  (hdec.append_inj ha hb (congrArg (· ++ []) h)).1

lemma flatten_inj (hdec : Lawful P enc dec) (hne : ∀ a, P a → enc a ≠ []) :
    ∀ {l l' : List α}, (∀ a ∈ l, P a) → (∀ a ∈ l', P a) →
      (l.map enc).flatten = (l'.map enc).flatten → l = l'
  | [], [], _, _, _ => rfl
  | [], b :: l', _, hl', h => by
    have hnil := (append_eq_nil_iff.1 h.symm).1
    exact absurd hnil (hne b (hl' b mem_cons_self))
  | a :: l, [], hl, _, h => by
    have hnil := (append_eq_nil_iff.1 h).1
    exact absurd hnil (hne a (hl a mem_cons_self))
  | a :: l, b :: l', hl, hl', h => by
    obtain ⟨rfl, hrest⟩ := hdec.append_inj (hl a mem_cons_self) (hl' b mem_cons_self) h
    rw [hdec.flatten_inj hne (fun x hx => hl x (mem_cons_of_mem _ hx))
      (fun x hx => hl' x (mem_cons_of_mem _ hx)) hrest]

end Lawful

namespace Whole

variable {g : List σ → Except ε PUnit}

lemma bind {Q : β → Prop} {dec : List σ → Except ε (α × List σ)}
    (π : β → α) (hdec : Lawful P enc dec)
    (hk : ∀ a, P a → Whole (fun b => Q b ∧ π b = a) enc' fun r => k (a, r))
    (hQ : ∀ b, Q b → P (π b)) : Whole Q (fun b => enc (π b) ++ enc' b) fun s => dec s >>= k where
  dec_enc b hb := by
    rw [hdec.dec_enc _ _ (hQ b hb)]
    exact (hk (π b) (hQ b hb)).dec_enc b ⟨hb, rfl⟩
  enc_dec s b hs := by
    obtain ⟨⟨a, s'⟩, hs, hk'⟩ := bind_eq_ok_iff.1 hs
    obtain ⟨ha, rfl⟩ := hdec.enc_dec s a s' hs
    obtain ⟨⟨hb, rfl⟩, rfl⟩ := (hk a ha).enc_dec s' b hk'
    exact ⟨hb, rfl⟩

lemma read {Q : β → Prop} {dec : List σ → Except ε (α × List σ)}
    (π : β → α) (hdec : Lawful (fun _ => True) enc dec)
    (hk : ∀ a, Whole (fun b => Q b ∧ π b = a) enc' fun r => k (a, r)) :
    Whole Q (fun b => enc (π b) ++ enc' b) fun s => dec s >>= k :=
  bind π hdec (fun a _ => hk a) fun _ _ => trivial

lemma guard (hg : ∀ a, P a → g (enc a) = .ok ⟨⟩) (hdec : ∀ s, g s = .ok ⟨⟩ → Whole P enc dec) :
    Whole P enc fun s => g s >>= fun _ => dec s where
  dec_enc a ha := by
    have h := hg a ha
    rw [h]
    exact (hdec _ h).dec_enc a ha
  enc_dec s a hs := by
    obtain ⟨⟨⟩, h, hs⟩ := bind_eq_ok_iff.1 hs
    exact (hdec s h).enc_dec s a hs

lemma congr (hdec : Whole P enc dec) (h : ∀ a, Q a ↔ P a)
    (henc : ∀ a, P a → enc' a = enc a) :
    Whole Q enc' dec where
  dec_enc a ha := by
    rw [henc a ((h a).1 ha)]
    exact hdec.dec_enc a ((h a).1 ha)
  enc_dec s a hs := by
    obtain ⟨ha, rfl⟩ := hdec.enc_dec s a hs
    exact ⟨(h a).2 ha, (henc a ha).symm⟩

lemma rest {f : List σ → α} (h : ∀ a, P a ↔ a = f (enc a)) (henc : ∀ s, enc (f s) = s) :
    Whole P enc fun s => (.ok (f s) : Except ε α) where
  dec_enc a ha := by rw [← (h a).1 ha]
  enc_dec s a hs := by
    cases hs
    exact ⟨(h _).2 (by rw [henc]), (henc s).symm⟩

lemma checked {P : List σ → Prop} {enc : List σ → List σ} (hg : ∀ s, g s = .ok ⟨⟩ ↔ P s)
    (henc : ∀ s, enc s = s) :
    Whole P enc fun s => g s >>= fun _ => .ok s where
  dec_enc s hs := by
    rw [henc, (hg s).2 hs]
    rfl
  enc_dec s s' hs := by
    obtain ⟨⟨⟩, h, heq⟩ := bind_eq_ok_iff.1 hs
    cases heq
    exact ⟨(hg s).1 h, (henc s).symm⟩

lemma end_of_input (hg : ∀ s, g s = .ok ⟨⟩ ↔ s = []) (h : ∀ a, P a ↔ a = c) :
    Whole P (fun _ => []) fun s => g s >>= fun _ => .ok c where
  dec_enc a ha := by
    rw [(hg []).2 rfl, (h a).1 ha]
    rfl
  enc_dec s a hs := by
    obtain ⟨⟨⟩, hend, ha⟩ := bind_eq_ok_iff.1 hs
    cases ha
    exact ⟨(h c).2 rfl, (hg s).1 hend⟩

lemma map {Q : β → Prop} {f : α → β} (hdec : Whole P enc dec)
    (hP : ∀ a, P a → Q (f a) ∧ enc' (f a) = enc a) (hQ : ∀ b, Q b → ∃ a, P a ∧ f a = b) :
    Whole Q enc' fun s => dec s >>= fun a => .ok (f a) where
  dec_enc b hb := by
    obtain ⟨a, ha, rfl⟩ := hQ b hb
    rw [(hP a ha).2, hdec.dec_enc a ha]
    rfl
  enc_dec s b hs := by
    obtain ⟨a, ha, hb⟩ := bind_eq_ok_iff.1 hs
    cases hb
    obtain ⟨hPa, rfl⟩ := hdec.enc_dec s a ha
    exact ⟨(hP a hPa).1, (hP a hPa).2.symm⟩

end Whole

lemma Whole.sized (hdec : Whole P enc dec)
    (hlen : ∀ a, P a → (enc a).length = n) : Sized P enc n dec where
  length := hlen
  dec_enc := hdec.dec_enc
  enc_dec s a _ := hdec.enc_dec s a

lemma Lawful.sized (hdec : Lawful P enc dec) (hlen : ∀ a, P a → (enc a).length = n) :
    Sized P enc n fun s => dec s >>= fun x => .ok x.1 where
  length := hlen
  dec_enc a ha := by
    have h := hdec.dec_enc a [] ha
    rw [append_nil] at h
    rw [h]
    rfl
  enc_dec s a hn hs := by
    obtain ⟨⟨a', r⟩, ha', ha⟩ := bind_eq_ok_iff.1 hs
    cases ha
    obtain ⟨hPa, rfl⟩ := hdec.enc_dec _ _ _ ha'
    rw [length_append, hlen _ hPa, Nat.add_eq_left, length_eq_zero_iff] at hn
    exact ⟨hPa, by rw [hn, append_nil]⟩

lemma Sized.exact {g : List σ → Except ε PUnit}
    (hdec : Sized P enc n dec) (hg : ∀ s, g s = .ok ⟨⟩ ↔ s.length = n) :
    Whole P enc fun s => g s >>= fun _ => dec s where
  dec_enc a ha := by
    rw [(hg _).2 (hdec.length a ha)]
    exact hdec.dec_enc a ha
  enc_dec s a hs := by
    obtain ⟨⟨⟩, hn, ha⟩ := bind_eq_ok_iff.1 hs
    exact hdec.enc_dec s a ((hg s).1 hn) ha

end Codec
