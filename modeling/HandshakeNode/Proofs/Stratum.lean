import HandshakeNode.Stratum
import HandshakeNode.Urkel

/-!
# Work is credited once where templates differ

The shares of a job are told apart by their keys, and a key is kept with its job. Two jobs whose
templates differ in no field but those that a share fills credit one header twice.
-/

namespace HandshakeNode.Stratum

open List

/-- What no share changes in the header of a job. -/
def Job.fixed (job : Job) : BlockHeader :=
  { job.block.header with extraNonce := ⟨replicate 24 0, rfl⟩, timestamp := 0, nonce := 0 }

def Apart (a b : Job) : Prop := a.id ≠ b.id ∧ a.fixed ≠ b.fixed

/-- The counter of jobs does not wrap, what no share changes in a new job differs from that of all
jobs before it, and the tip does not change while a call is between the look of `recordShare` at it
and the mutex. -/
def Action.Allowed (s : Server) : Action → Prop
  | .numberJob _ => s.jobSeq.toNat + 1 < 2 ^ 64
  | .createJob job => ∀ old ∈ s.created, job.fixed ≠ old.fixed
  | .setTip _ => ∀ w, .recording w ∉ s.calls
  | _ => True

inductive Run (cfg : Config) : Server → Prop
  | start (tip : Hash) : Run cfg { tip }
  | step (run : Run cfg s) (a : Action) (allowed : a.Allowed s) : Run cfg (step cfg s a)

def Work.MeetsTarget (cfg : Config) (w : Work) : Prop :=
  w.isBlock cfg = true ∨ w.hashNum cfg ≤ cfg.shareTarget

/-- At most `maxJobsPerPrevBlock` jobs, on one tip. -/
def Jobs.Kept (jobs : Jobs) : Prop :=
  jobs.length ≤ maxJobsPerPrevBlock ∧ ∃ hash, ∀ x ∈ jobs, x.1.prevBlock = hash

def Call.job : Call → Job
  | .found job _ _ => job
  | .checked w | .recording w => w.job

def Call.Sound (cfg : Config) (tip : Hash) : Call → Prop
  | .found .. => True
  | .checked w => w.MeetsTarget cfg
  | .recording w => w.job.prevBlock = tip ∧ w.MeetsTarget cfg

structure Inv (cfg : Config) (s : Server) : Prop where
  seqs : ((s.pending ++ s.created).map Job.seq).Nodup
  numbered : ∀ job ∈ s.pending ++ s.created, job.seq.toNat ≤ s.jobSeq.toNat
  apart : s.created.Pairwise Apart
  jobs : ∀ x ∈ s.jobs, x.1 ∈ s.created
  calls : ∀ c ∈ s.calls, c.job ∈ s.created ∧ c.Sound cfg s.tip
  recorded : ∀ r ∈ s.recorded, r.1.job ∈ s.created ∧ r.1.job.prevBlock = r.2 ∧ r.1.MeetsTarget cfg
  submitted : ∀ r ∈ s.recorded, ∀ x ∈ s.jobs, x.1 = r.1.job → formatShareKey r.1.share ∈ x.2
  headers : (s.recorded.map fun r => r.1.block.header).Nodup
  accepted : s.accepted.Sublist (s.recorded.map Prod.fst)
  processed : s.processed = ((s.recorded.map Prod.fst).filter (Work.isProcessed cfg)).map Work.block
  kept : s.jobs.Kept

lemma Work.eq_of_header {w w' : Work} (h : w.block.header = w'.block.header) :
    w.job.fixed = w'.job.fixed ∧ w.share = w'.share := by
  obtain ⟨job, ⟨e1, e2, ntime, nonce⟩⟩ := w
  obtain ⟨job', ⟨e1', e2', ntime', nonce'⟩⟩ := w'
  simp only [Work.block, BlockHeader.mk.injEq, Share.extraNonce, Subtype.mk.injEq] at h
  obtain ⟨hv, hp, hm, ht, hb, rfl, hn, he, hr, hw, hk⟩ := h
  obtain rfl : ntime = ntime' := congrArg Int64.toUInt64 ht
  obtain ⟨h1, h2⟩ := append_inj he (e1.2.trans e1'.2.symm)
  exact ⟨by simp [Job.fixed, hv, hp, hm, hb, hn, hr, hw, hk],
    by rw [Subtype.ext h1, Subtype.ext h2]⟩

lemma eq_of_not_apart {created : List Job} {a b : Job} (h : created.Pairwise Apart)
    (ha : a ∈ created) (hb : b ∈ created) (hab : ¬ Apart a b) : a = b := by
  by_contra hne
  have : Std.Symm Apart := ⟨fun _ _ h => ⟨h.1.symm, h.2.symm⟩⟩
  exact hab (h.forall ha hb hne)

lemma toDigits_injective : ∀ {m n : ℕ}, Nat.toDigits 16 m = Nat.toDigits 16 n → m = n := by
  have hdigit : ∀ a < 16, ∀ b < 16, Nat.digitChar a = Nat.digitChar b → a = b := by decide
  intro m
  induction m using Nat.strong_induction_on with
  | _ m ih =>
    intro n h
    rw [Nat.toDigits_eq_if (n := m) (by decide), Nat.toDigits_eq_if (n := n) (by decide)] at h
    split_ifs at h with hm hn hn
    · exact hdigit m hm n hn (List.singleton_inj.1 h)
    · exact absurd (congrArg length h) (by simp)
    · exact absurd (congrArg length h) (by simp)
    · obtain ⟨hdiv, hmod⟩ := append_inj' h rfl
      have hdiv := ih (m / 16) (by omega) hdiv
      have hmod := hdigit _ (Nat.mod_lt m (by decide)) _ (Nat.mod_lt n (by decide))
        (List.singleton_inj.1 hmod)
      omega

lemma seq_of_id {a b : Job} (h : a.id = b.id) : a.seq = b.seq :=
  UInt64.toNat_inj.1 (toDigits_injective (String.ofList_injective h))

lemma Jobs.get_eq_some {jobs : Jobs} {jobID : String} {x : Job × List String}
    (h : jobs.get jobID = some x) : x ∈ jobs ∧ x.1.id = jobID :=
  ⟨mem_of_find?_eq_some h, by simpa using find?_some h⟩

lemma mem_pruneJobsLocked {hash : Hash} {jobs : Jobs} {x : Job × List String}
    (h : x ∈ pruneJobsLocked hash jobs) : x ∈ jobs ∧ x.1.prevBlock = hash := by
  have hmem : x ∈ jobs.filter fun x => x.1.prevBlock = hash := by
    simp only [pruneJobsLocked] at h
    split_ifs at h
    · exact h
    · exact (mem_insertionSort _).1 (mem_of_mem_take h)
  simpa using hmem

lemma pruneJobsLocked_kept (hash : Hash) (jobs : Jobs) : (pruneJobsLocked hash jobs).Kept := by
  refine ⟨?_, hash, fun x hx => (mem_pruneJobsLocked hx).2⟩
  simp only [pruneJobsLocked]
  split_ifs with h
  · exact h
  · exact length_take_le _ _

lemma check_ok (h : check cfg now tip job extraNonce1 text = .ok w) :
    w.job = job ∧ w.MeetsTarget cfg := by
  simp only [check, bind_eq_ok, exists_failIf_ok, pure_eq_ok] at h
  obtain ⟨-, _, -, _, -, _, -, _, -, hlow, rfl⟩ := h
  refine ⟨rfl, ?_⟩
  rw [not_and_or, Bool.not_eq_false, not_lt] at hlow
  exact hlow

lemma recordShare_ok (h : recordShare jobs w = .ok jobs') :
    ∃ x, jobs.get w.job.id = some x ∧ formatShareKey w.share ∉ x.2 ∧ jobs' = jobs.map fun x =>
      if x.1.id = w.job.id then (x.1, formatShareKey w.share :: x.2) else x := by
  unfold recordShare at h
  split at h
  · cases h
  · simp only [bind_eq_ok, exists_failIf_ok, pure_eq_ok] at h
    exact ⟨_, by assumption, h.2.1, h.2.2.symm⟩

section

variable {cfg : Config} {s : Server}

lemma Inv.setTip (h : Inv cfg s) (hash : Hash) (hcalls : ∀ w, .recording w ∉ s.calls) :
    Inv cfg (step cfg s (.setTip hash)) :=
  { h with
    calls c hc := by
      refine ⟨(h.calls c hc).1, ?_⟩
      cases c with
      | found => trivial
      | checked w => exact (h.calls _ hc).2
      | recording w => exact absurd hc (hcalls w) }

lemma Inv.numberJob (h : Inv cfg s) (block : MsgBlock) (hwrap : s.jobSeq.toNat + 1 < 2 ^ 64) :
    Inv cfg (step cfg s (.numberJob block)) := by
  have hnext : (s.jobSeq + 1).toNat = s.jobSeq.toNat + 1 := by
    rw [UInt64.toNat_add, UInt64.toNat_one, Nat.mod_eq_of_lt hwrap]
  refine
    { h with
      seqs := nodup_cons.2 ⟨fun hmem => ?_, h.seqs⟩
      numbered := forall_mem_cons.2 ⟨le_rfl, fun job hjob => ?_⟩ }
  · obtain ⟨job, hjob, hseq⟩ := mem_map.1 hmem
    have hle := h.numbered job hjob
    rw [hseq, hnext] at hle
    omega
  · rw [step, hnext]
    exact (h.numbered job hjob).trans (Nat.le_succ _)

/-- No share is recorded for a job before it is stored. -/
theorem Inv.createJob (h : Inv cfg s) (job : Job)
    (hnew : ∀ old ∈ s.created, job.fixed ≠ old.fixed) :
    Inv cfg (step cfg s (.createJob job)) := by
  rw [step]
  split_ifs with hpending
  case neg => exact h
  have hperm : s.pending.erase job ++ job :: s.created ~ s.pending ++ s.created :=
    perm_middle.trans ((perm_cons_erase hpending).symm.append_right s.created)
  have hnew : ∀ old ∈ s.created, Apart job old := fun old hold =>
    ⟨fun hid => (nodup_append.1 (map_append ▸ h.seqs)).2.2 _ (mem_map_of_mem hpending) _
      (mem_map_of_mem hold) (seq_of_id hid), hnew old hold⟩
  set jobs := pruneJobsLocked job.prevBlock ((job, []) :: s.jobs.filter fun x => x.1.id ≠ job.id)
  have hmem : ∀ x ∈ jobs, x = (job, []) ∨ x ∈ s.jobs :=
    fun x hx => (mem_cons.1 (mem_pruneJobsLocked hx).1).imp_right mem_of_mem_filter
  exact
    { h with
      seqs := (hperm.map Job.seq).nodup_iff.2 h.seqs
      numbered := fun job hjob => h.numbered job (hperm.mem_iff.1 hjob)
      apart := .cons hnew h.apart
      jobs x hx := by
        obtain rfl | hold := hmem x hx
        · exact .head _
        · exact .tail _ (h.jobs x hold)
      calls c hc := (h.calls c hc).imp_left (.tail _)
      recorded r hr := (h.recorded r hr).imp_left (.tail _)
      submitted r hr x hx heq := by
        obtain rfl | hold := hmem x hx
        · exact absurd (congrArg Job.id heq) (hnew _ (h.recorded r hr).1).1
        · exact h.submitted r hr x hold heq
      kept := pruneJobsLocked_kept _ _ }

lemma Inv.withCall (h : Inv cfg s) (hjob : c.job ∈ s.created)
    (hsound : c.Sound cfg s.tip) : Inv cfg { s with calls := c :: s.calls } :=
  { h with calls := forall_mem_cons.2 ⟨⟨hjob, hsound⟩, h.calls⟩ }

lemma Inv.submit (h : Inv cfg s) (jobID : String) (extraNonce1 : Bytes) (text : ShareText) :
    Inv cfg (step cfg s (.submit jobID extraNonce1 text)) := by
  rw [step]
  split
  · exact h
  · split_ifs
    · exact h.withCall (h.jobs _ (Jobs.get_eq_some (by assumption)).1) trivial
    · exact h

/-- A share with the header of a recorded one is that share, so its key is with its job. -/
theorem Inv.header_new (h : Inv cfg s) {w : Work} {x : Job × List String} (hw : w.job ∈ s.created)
    (hx : s.jobs.get w.job.id = some x) (hkey : formatShareKey w.share ∉ x.2) :
    w.block.header ∉ s.recorded.map fun r => r.1.block.header := by
  intro hmem
  obtain ⟨r, hr, heq⟩ := mem_map.1 hmem
  obtain ⟨hfixed, hshare⟩ := Work.eq_of_header heq
  obtain ⟨hxs, hid⟩ := Jobs.get_eq_some hx
  have hxw : x.1 = w.job := eq_of_not_apart h.apart (h.jobs x hxs) hw fun ha => ha.1 hid
  have hrw : r.1.job = w.job :=
    eq_of_not_apart h.apart (h.recorded r hr).1 hw fun ha => ha.2 hfixed
  exact hkey (hshare ▸ h.submitted r hr x hxs (hxw.trans hrw.symm))

lemma Inv.record (h : Inv cfg s) (hjob : w.job ∈ s.created)
    (hsound : (Call.recording w).Sound cfg s.tip) (processed : Bool) :
    Inv cfg (runCall cfg now processed s (.recording w)) := by
  rw [runCall]
  split
  case h_2 => exact h
  case h_1 hrecord =>
    obtain ⟨x, hx, hkey, rfl⟩ := recordShare_ok hrecord
    exact
      { h with
        jobs := by
          rw [forall_mem_map]
          intro y hy
          split_ifs <;> exact h.jobs y hy
        recorded := forall_mem_cons.2 ⟨⟨hjob, hsound⟩, h.recorded⟩
        submitted := by
          rw [forall_mem_cons]
          refine ⟨?_, fun r hr => ?_⟩ <;> rw [forall_mem_map] <;> intro y hy
          · split_ifs with hid
            · exact fun _ => .head _
            · exact fun heq => absurd (congrArg Job.id heq) hid
          · split_ifs with hid
            · exact fun heq => .tail _ (h.submitted r hr y hy heq)
            · exact h.submitted r hr y hy
        headers := nodup_cons.2 ⟨h.header_new hjob hx hkey, h.headers⟩
        accepted := by
          dsimp only
          split_ifs
          · exact h.accepted.cons _
          · exact h.accepted.cons_cons _
        processed := by
          split_ifs with hblock <;> simp [hblock, h.processed]
        kept := by
          obtain ⟨hlen, hash, hkept⟩ := h.kept
          refine ⟨by simpa using hlen, hash, ?_⟩
          rw [forall_mem_map]
          intro y hy
          split_ifs <;> exact hkept y hy }

lemma Inv.runCall (h : Inv cfg s) (hjob : c.job ∈ s.created)
    (hsound : c.Sound cfg s.tip) (now : Int64) (processed : Bool) :
    Inv cfg (runCall cfg now processed s c) := by
  cases c with
  | found =>
    rw [Stratum.runCall]
    split
    · obtain ⟨rfl, hmeets⟩ := check_ok (by assumption)
      exact h.withCall hjob hmeets
    · exact h
  | checked w =>
    rw [Stratum.runCall]
    split_ifs with htip
    · exact h.withCall hjob ⟨htip, hsound⟩
    · exact h
  | recording w => exact h.record hjob hsound processed

lemma Inv.step (h : Inv cfg s) (a : Action) (allowed : a.Allowed s) : Inv cfg (step cfg s a) := by
  cases a with
  | setTip hash => exact h.setTip hash allowed
  | numberJob block => exact h.numberJob block allowed
  | createJob job => exact h.createJob job allowed
  | submit => exact h.submit _ _ _
  | run c now processed =>
    rw [Stratum.step]
    split_ifs with hc
    · have hrest : Inv cfg { s with calls := s.calls.erase c } :=
        { h with calls := fun c' hc' => h.calls c' (mem_of_mem_erase hc') }
      exact hrest.runCall (h.calls c hc).1 (h.calls c hc).2 now processed
    · exact h

lemma Run.inv (h : Run cfg s) : Inv cfg s := by
  induction h with
  | start tip =>
    exact ⟨.nil, by simp, .nil, by simp, by simp, by simp, by simp, .nil, .slnil, rfl,
      by simp [Jobs.Kept]⟩
  | step _ a allowed ih => exact ih.step a allowed

/-- What is accepted was recorded, no header twice; what is recorded is on the tip of that time and
meets a target. -/
theorem work_credited_once (h : Run cfg s) : (s.accepted.map fun w => w.block.header).Nodup ∧
      (∀ w ∈ s.accepted, ∃ tip, (w, tip) ∈ s.recorded) ∧
      (∀ r ∈ s.recorded, r.1.job.prevBlock = r.2 ∧ r.1.MeetsTarget cfg) ∧
      s.processed = ((s.recorded.map Prod.fst).filter (Work.isProcessed cfg)).map Work.block ∧
      s.jobs.Kept := by
  refine ⟨?_, fun w hw => ?_, fun r hr => (h.inv.recorded r hr).2, h.inv.processed, h.inv.kept⟩
  · have hsub := h.inv.accepted.map fun w => w.block.header
    rw [map_map] at hsub
    exact h.inv.headers.sublist hsub
  · obtain ⟨r, hr, rfl⟩ := mem_map.1 (h.inv.accepted.subset hw)
    exact ⟨r.2, hr⟩

end

def sampleCfg : Config where
  blockHash header := blake2bSum256 (header.witnessRoot.bytes ++ header.extraNonce.1)
  shareTarget := 2 ^ 256
  timeText _ := ""
  hasProcessBlock := true

def sampleText : ShareText := ⟨"01010101010101010101010101010101", "01010101", "01010101"⟩

def sampleJob (seq : UInt64) (timestamp : Int64) (witnessRoot : Hash) : Job where
  seq := seq
  block := ⟨⟨0, .zero, .zero, timestamp, 0, 0, .zero, ⟨replicate 24 0, rfl⟩, .zero,
    witnessRoot, .zero⟩, []⟩

def sampleWork (job : Job) : Work :=
  ⟨job, ⟨⟨replicate 8 1, rfl⟩, ⟨replicate 16 1, rfl⟩, 0x01010101, 0x01010101⟩⟩

/-- The sample share is submitted for a job that is created, up to the mutex. -/
def sampleCall (s : Server) (job : Job) : Server :=
  let s := step sampleCfg (step sampleCfg s (.numberJob job.block)) (.createJob job)
  let s := step sampleCfg s (.submit job.id (replicate 8 1) sampleText)
  let s := step sampleCfg s
    (.run (.found job ⟨replicate 8 1, rfl⟩ sampleText) 62152440000 true)
  step sampleCfg s (.run (.checked (sampleWork job)) 0 true)

lemma Run.sampleCall (h : Run sampleCfg s) (job : Job) (hwrap : s.jobSeq.toNat + 1 < 2 ^ 64)
    (hnew : ∀ old ∈ s.created, job.fixed ≠ old.fixed) : Run sampleCfg (sampleCall s job) := by
  simp only [Stratum.sampleCall]
  refine .step (.step (.step (.step (.step h (.numberJob _) hwrap) (.createJob job) hnew) _ ?_) _
    ?_) _ ?_ <;> trivial

theorem work_credited_once_twoTemplates :
    let job := sampleJob 1 0x01010000 .zero
    let other := sampleJob 2 0x0101001e (.ofBytes [1])
    let s := step sampleCfg (step sampleCfg (sampleCall (sampleCall { tip := .zero } job) other)
      (.run (.recording (sampleWork job)) 0 true)) (.run (.recording (sampleWork other)) 0 true)
    s.accepted = [sampleWork other, sampleWork job] ∧
      (s.accepted.map fun w => w.block.header).Nodup := by
  intro job other s
  have hcreated : (sampleCall { tip := .zero } job).created = [job] := by decide +kernel
  have hrun := ((Run.start .zero).sampleCall job (by decide) (by simp)).sampleCall other
    (by decide +kernel) (by rw [hcreated]; decide +kernel)
  have hs : Run sampleCfg s := by
    refine .step (.step hrun _ ?_) _ ?_ <;> trivial
  exact ⟨by decide +kernel, (work_credited_once hs).1⟩

/-- Two jobs with one template, the second thirty seconds later. A share is submitted for both, and
the tip changes between the look of the second call at it and the mutex. -/
theorem same_header_credited_twice :
    let job := sampleJob 1 0x01010000 .zero
    let later := sampleJob 2 0x0101001e .zero
    let s := step sampleCfg (step sampleCfg (step sampleCfg
      (sampleCall (sampleCall { tip := .zero } job) later)
      (.run (.recording (sampleWork job)) 0 true)) (.setTip (.ofBytes [1])))
      (.run (.recording (sampleWork later)) 0 true)
    s.accepted = [sampleWork later, sampleWork job] ∧
      (sampleWork later).block.header = (sampleWork job).block.header ∧
      later.prevBlock ≠ s.tip ∧ s.recorded.head? = some (sampleWork later, s.tip) := by
  decide +kernel

end HandshakeNode.Stratum
