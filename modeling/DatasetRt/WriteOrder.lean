import DatasetRt.WritePipeline

/-! # Commits in submission order

`Inv` is the invariant of a write pipeline under every interleaving: as long as it is open,
the numbers that were submitted and not committed are exactly those of the jobs, results and
pending items (`Tally.window`), so every commit pass takes up where the last one stopped.  An
error inside a commit pass leaves `nextSequence` behind by one; nothing is committed after it,
because its number has left `pending` for good.

`commits_in_submission_order` collects the results. -/

namespace DatasetRt

variable {ι β : Type}

/-- The items committed so far, against the items submitted: `ids` are the numbers that are
out on the pool. -/
structure Tally (submitted : List ι) (ids : List ℕ) (c : CommitState ι β) : Prop where
  committed : c.committed <+: submitted
  window : Window c.committed.length (submitted.length - c.committed.length) (ids ++ c.pending.keys)
  pending : ∀ k v, c.pending.lookup k = some v → submitted[k]? = some v

theorem CommitState.commitReady_of_missing (K : Committer ι β) {c : CommitState ι β} (fuel : ℕ)
    (h : c.nextSequence ∉ c.pending.keys) : c.commitReady K fuel = (c, .ok ()) := by
  have hl : c.pending.lookup c.nextSequence = none := AList.lookup_eq_none.mpr h
  cases fuel <;> simp [CommitState.commitReady, hl]

theorem getElem?_append_of_some {submitted : List ι} {item v : ι} {k : ℕ}
    (h : submitted[k]? = some v) : (submitted ++ [item])[k]? = some v := by
  obtain ⟨hk, -⟩ := List.getElem?_eq_some_iff.mp h
  rw [List.getElem?_append_left hk, h]

namespace Tally

variable {submitted : List ι} {ids : List ℕ} {c : CommitState ι β} {K : Committer ι β}

theorem insert {k : ℕ} {item : ι} (h : Tally submitted (k :: ids) c) (hitem : submitted[k]? = some item)
    (hnot : k ∉ c.pending.keys) :
    Tally submitted ids { c with pending := c.pending.insert k item } where
  committed := h.committed
  window := by
    refine h.window.perm ?_
    rw [AList.keys_insert, List.erase_of_not_mem hnot]
    exact List.perm_middle
  pending := by
    intro j v hj
    by_cases hjk : j = k
    · subst hjk
      rw [AList.lookup_insert] at hj
      rw [hitem, hj]
    · rw [AList.lookup_insert_ne hjk] at hj
      exact h.pending j v hj

theorem submit (h : Tally submitted ids c) (item : ι) :
    Tally (submitted ++ [item]) (submitted.length :: ids) c where
  committed := h.committed.trans (List.prefix_append _ _)
  window := by
    have hle := h.committed.length_le
    have hpush := h.window.push
    rw [Nat.add_sub_cancel' hle] at hpush
    rw [List.length_append, List.length_singleton, Nat.sub_add_comm hle]
    exact hpush
  pending := fun k v hk => getElem?_append_of_some (h.pending k v hk)

theorem commit_next (h : Tally submitted ids c) (hnext : c.nextSequence = c.committed.length) {item : ι}
    (hl : c.pending.lookup c.nextSequence = some item) (target : β) (nextSequence : ℕ) :
    Tally submitted ids
      { target
        pending := c.pending.erase c.nextSequence
        nextSequence
        committed := c.committed ++ [item] } where
  committed := by
    have hget := h.pending _ _ hl
    rw [hnext] at hget
    obtain ⟨rest, hrest⟩ := h.committed
    cases rest with
    | nil =>
        rw [← hrest, List.append_nil, List.getElem?_eq_none (le_refl _)] at hget
        cases hget
    | cons item' rest =>
        rw [← hrest, List.getElem?_append_right (le_refl _), Nat.sub_self] at hget
        simp only [List.getElem?_cons_zero, Option.some.injEq] at hget
        subst hget
        exact ⟨rest, by rw [← hrest, List.append_assoc]; rfl⟩
  window := by
    have hmem : c.nextSequence ∈ c.pending.keys := AList.lookup_isSome.mp (by rw [hl]; rfl)
    have hperm : (c.committed.length :: (ids ++ c.pending.keys.erase c.nextSequence)).Perm (ids ++ c.pending.keys) := by
      rw [← hnext]
      exact List.perm_middle.symm.trans ((List.perm_cons_erase hmem).symm.append_left _)
    have hw := h.window.perm hperm
    have hpop := hw.pop
    rw [Nat.sub_sub] at hpop
    rw [AList.keys_erase, List.length_append]
    exact hpop
  pending := by
    intro k v hk
    by_cases hke : k = c.nextSequence
    · subst hke; simp at hk
    · rw [AList.lookup_erase_ne hke] at hk
      exact h.pending k v hk

/-- A commit pass: the committed items stay a prefix, and either everything contiguous was
committed or the number that stopped the pass is gone. -/
theorem commitReady (K : Committer ι β) : ∀ (fuel : ℕ) {c : CommitState ι β}, Tally submitted ids c →
    c.nextSequence = c.committed.length → c.pending.keys.length ≤ fuel →
    Tally submitted ids (c.commitReady K fuel).1 ∧
    (c.commitReady K fuel).1.nextSequence ∉ (c.commitReady K fuel).1.pending.keys ∧
    (c.commitReady K fuel).1.nextSequence ≤ (c.commitReady K fuel).1.committed.length ∧
    ((c.commitReady K fuel).2 = .ok () →
      (c.commitReady K fuel).1.nextSequence = (c.commitReady K fuel).1.committed.length)
  | 0, c, h, hnext, hfuel => by
      have hnil : c.pending.keys = [] := List.eq_nil_of_length_eq_zero (by omega)
      exact ⟨h, by simp [CommitState.commitReady, hnil], le_of_eq hnext, fun _ => hnext⟩
  | fuel + 1, c, h, hnext, hfuel => by
      cases hl : c.pending.lookup c.nextSequence with
      | none =>
          have hnot : c.nextSequence ∉ c.pending.keys := AList.lookup_eq_none.mp hl
          simp only [CommitState.commitReady, hl]
          exact ⟨h, hnot, le_of_eq hnext, fun _ => hnext⟩
      | some item =>
          have hmem : c.nextSequence ∈ c.pending.keys := AList.lookup_isSome.mp (by rw [hl]; rfl)
          have hgone : c.nextSequence ∉ (c.pending.erase c.nextSequence).keys := by
            rw [AList.keys_erase]
            exact fun hc => absurd hc (List.Nodup.not_mem_erase c.pending.keys_nodup)
          cases hc : (K.commit c.target item).2 with
          | error e =>
              simp only [CommitState.commitReady, hl, hc]
              exact ⟨h.commit_next hnext hl _ _, hgone, by simp; omega, fun h => by cases h⟩
          | ok u =>
              cases hadd : checkedAdd c.nextSequence 1 with
              | none =>
                  simp only [CommitState.commitReady, hl, hc, hadd]
                  exact ⟨h.commit_next hnext hl _ _, hgone, by simp; omega, fun h => by cases h⟩
              | some n =>
                  obtain ⟨-, rfl⟩ := checkedAdd_eq_some.mp hadd
                  simp only [CommitState.commitReady, hl, hc, hadd]
                  refine commitReady K fuel (h.commit_next hnext hl _ _) ?_ ?_
                  · simp [hnext]
                  · have := List.length_erase_of_mem hmem
                    simp only [AList.keys_erase]
                    omega

end Tally

namespace WritePipeline

section spec

/-- `result` is the message of the item submitted as number `k`. -/
def Delivers (submitted : List ι) (result : CacheResult (Message ι)) (k : ℕ) : Prop :=
  ∃ item, submitted[k]? = some item ∧ result = .ok ⟨k, item⟩

/-- The accounting of an open pipeline, also after an error. -/
structure Ledger (s : WritePipeline ι β) : Prop where
  isOpen : s.pool.isOpen = true
  jobs : ∀ job ∈ s.pool.queued ++ s.pool.running, s.submitted[job.sequence]? = some job.item
  tally : ∃ ids, s.pool.Out Message.sequence (Delivers s.submitted) ids ∧
    ids.length = s.inFlight ∧ Tally s.submitted ids s.toCommitState
  parallelism_pos : 0 < s.parallelism
  inFlight_le : s.inFlight ≤ s.parallelism
  fresh : s.nextSequence ∉ s.pending.keys
  next_le : s.nextSequence ≤ s.committed.length

/-- What holds as long as no error was returned. -/
structure Settled (s : WritePipeline ι β) : Prop where
  next_eq : s.nextSequence = s.committed.length
  pending_gt : ∀ k ∈ s.pending.keys, s.nextSequence < k
  inFlight_le : s.inFlight ≤ s.parallelism
  count : s.inFlight + s.pending.keys.length + s.nextSequence = s.submitted.length

/-- The calling thread is where the numbers and errors say it is. -/
def PhaseOk (s : WritePipeline ι β) : Prop :=
  match s.phase with
  | .ready => s.errors = [] ∧ s.sequence = s.submitted.length
  | .crediting message => s.errors = [] ∧ s.sequence = s.submitted.length ∧
      message.sequence = s.submitted.length ∧ 0 < s.inFlight
  | .enqueueing message => s.errors = [] ∧ s.sequence = s.submitted.length ∧
      message.sequence = s.submitted.length ∧ s.inFlight < s.parallelism
  | .finishing => s.errors = []
  | .draining => True
  | .failed => s.errors ≠ []
  | .finished _ => False
  | .abandoned => False

/-- The pipeline was finished or given up. -/
structure Closed (s : WritePipeline ι β) : Prop where
  phase : s.phase = .abandoned ∨ ∃ result, s.phase = .finished result
  committed : s.committed <+: s.submitted
  settled : s.errors = [] → s.Settled
  finished : s.phase = .finished (.ok ()) → s.errors = [] ∧ s.committed = s.submitted

def Inv (s : WritePipeline ι β) : Prop :=
  (s.Ledger ∧ (s.errors = [] → s.nextSequence = s.committed.length) ∧ s.PhaseOk) ∨ s.Closed

end spec

namespace Ledger

variable {s : WritePipeline ι β}

theorem committed_prefix (h : s.Ledger) : s.committed <+: s.submitted := by
  obtain ⟨ids, -, -, ht⟩ := h.tally
  exact ht.committed

theorem settled (h : s.Ledger) (hnext : s.nextSequence = s.committed.length) : s.Settled where
  next_eq := hnext
  pending_gt := by
    intro k hk
    obtain ⟨ids, -, -, ht⟩ := h.tally
    have hmem := ht.window.mem_iff.mp (List.mem_append_right ids hk)
    have hne : k ≠ s.nextSequence := fun hc => h.fresh (hc ▸ hk)
    omega
  inFlight_le := h.inFlight_le
  count := by
    obtain ⟨ids, -, hlen, ht⟩ := h.tally
    have hcount := ht.window.length_eq
    have hle := ht.committed.length_le
    rw [List.length_append, hlen] at hcount
    omega

/-- Nothing is out and no error came up: everything was committed. -/
theorem all_committed (h : s.Ledger) (hnext : s.nextSequence = s.committed.length)
    (hout : s.inFlight = 0) : s.pending.keys = [] ∧ s.committed = s.submitted := by
  obtain ⟨ids, -, hlen, ht⟩ := h.tally
  have hids : ids = [] := List.eq_nil_of_length_eq_zero (hlen.trans hout)
  have hle := ht.committed.length_le
  have hfull : s.committed.length = s.submitted.length := by
    by_contra hne
    have hmem := (ht.window.mem_iff (k := s.committed.length)).mpr ⟨le_refl _, by omega⟩
    rw [hids, List.nil_append, ← hnext] at hmem
    exact h.fresh hmem
  have hcount := ht.window.length_eq
  rw [hids, List.nil_append, hfull, Nat.sub_self] at hcount
  exact ⟨List.eq_nil_of_length_eq_zero hcount, ht.committed.eq_of_length hfull⟩

theorem recv (h : s.Ledger) {r : CacheResult (Message ι)}
    {pool : Pool (Message ι) (CacheResult (Message ι))} (hr : s.pool.recv = some (r, pool)) :
    ∃ k item ids, r = .ok ⟨k, item⟩ ∧ s.submitted[k]? = some item ∧ k ∉ s.pending.keys ∧
      s.committed.length ≤ k ∧ ids.length + 1 = s.inFlight ∧
      pool.Out Message.sequence (Delivers s.submitted) ids ∧
      Tally s.submitted (k :: ids) s.toCommitState := by
  obtain ⟨ids, hout, hlen, ht⟩ := h.tally
  obtain ⟨k, ids', ⟨item, hitem, rfl⟩, hperm, hout'⟩ := hout.recv hr
  have ht' : Tally s.submitted (k :: ids') s.toCommitState :=
    { ht with window := ht.window.perm (hperm.symm.append_right _) }
  have hnodup := ht'.window.nodup
  rw [List.cons_append, List.nodup_cons] at hnodup
  have hmem := ht'.window.mem_iff.mp (List.mem_append_left _ List.mem_cons_self)
  have hcount := hperm.length_eq
  rw [List.length_cons] at hcount
  exact ⟨k, item, ids', rfl, hitem, fun hc => hnodup.1 (List.mem_append_right _ hc), hmem.1,
    by omega, hout', ht'⟩

end Ledger

/-! ### What one step does -/

section steps

variable {K : Committer ι β} {s s' : WritePipeline ι β}

/-- `complete_one` keeps the accounting, whether or not the commit pass fails. -/
theorem completeOne_ledger (h : s.Ledger) {r : CacheResult (Message ι)}
    {pool : Pool (Message ι) (CacheResult (Message ι))} (hr : s.pool.recv = some (r, pool)) :
    ∃ t result, completeOne K { s with pool } r = (t, result) ∧ t.Ledger ∧ t.inFlight + 1 = s.inFlight ∧
      (t.phase, t.errors, t.submitted, t.sequence, t.parallelism) =
        (s.phase, s.errors, s.submitted, s.sequence, s.parallelism) ∧
      (result = .ok () → s.nextSequence = s.committed.length → t.nextSequence = t.committed.length) := by
  obtain ⟨k, item, ids, rfl, hitem, hnot, hk, hlen, hout, ht⟩ := h.recv hr
  obtain ⟨rest, -, rfl⟩ := Pool.recv_eq_some hr
  have hzero : s.inFlight ≠ 0 := by omega
  have hl : s.pending.lookup k = none := AList.lookup_eq_none.mpr hnot
  have hins := ht.insert hitem hnot
  have hle := h.inFlight_le
  let c : CommitState ι β := { s.toCommitState with pending := s.pending.insert k item }
  let done := c.commitReady K c.pending.keys.length
  -- The commit pass, from a state that may have been stopped by an error before.
  have hpass : Tally s.submitted ids done.1 ∧ done.1.nextSequence ∉ done.1.pending.keys ∧
      done.1.nextSequence ≤ done.1.committed.length ∧
      (done.2 = .ok () → s.nextSequence = s.committed.length →
        done.1.nextSequence = done.1.committed.length) := by
    by_cases hnext : s.nextSequence = s.committed.length
    · obtain ⟨h₁, h₂, h₃, h₄⟩ := hins.commitReady K _ hnext (le_refl _)
      exact ⟨h₁, h₂, h₃, fun hok _ => h₄ hok⟩
    · have hlt := lt_of_le_of_ne h.next_le hnext
      have hstuck : c.nextSequence ∉ c.pending.keys := by
        show s.nextSequence ∉ (s.pending.insert k item).keys
        rw [AList.keys_insert, List.erase_of_not_mem hnot, List.mem_cons]
        exact fun hc => hc.elim (fun he => by omega) h.fresh
      have hdone : done = (c, .ok ()) := CommitState.commitReady_of_missing K _ hstuck
      rw [hdone]
      exact ⟨hins, hstuck, h.next_le, fun _ hc => absurd hc hnext⟩
  obtain ⟨h₁, h₂, h₃, h₄⟩ := hpass
  refine ⟨{ s with
    pool := { s.pool with output := rest }
    inFlight := s.inFlight - 1
    toCommitState := done.1 }, done.2, ?_, ?_, ?_, rfl, h₄⟩
  · simp only [completeOne, hzero, hl, if_false, Option.isSome_none, Bool.false_eq_true]
    rfl
  · exact { isOpen := h.isOpen
            jobs := h.jobs
            parallelism_pos := h.parallelism_pos
            tally := ⟨ids, hout, by show ids.length = s.inFlight - 1; omega, h₁⟩
            inFlight_le := by show s.inFlight - 1 ≤ s.parallelism; omega
            fresh := h₂
            next_le := h₃ }
  · show s.inFlight - 1 + 1 = s.inFlight
    omega

theorem start_ledger (h : s.Ledger) {pool : Pool (Message ι) (CacheResult (Message ι))}
    (hp : s.pool.start id = some pool) : Ledger { s with pool } := by
  obtain ⟨ids, hout, hlen, ht⟩ := h.tally
  have hout' := hout.start (fun _ => rfl) hp
  obtain ⟨job, rest, hq, -, rfl⟩ := Pool.start_eq_some hp
  refine { h with jobs := ?_, tally := ⟨ids, hout', hlen, ht⟩ }
  intro j hj
  refine h.jobs j ?_
  rw [hq]
  simp only [id_eq, List.mem_append, List.mem_cons, List.not_mem_nil, or_false] at hj ⊢
  tauto

theorem complete_ledger (h : s.Ledger) {i : ℕ} {pool : Pool (Message ι) (CacheResult (Message ι))}
    (hp : s.pool.complete .ok i = some pool) : Ledger { s with pool } := by
  obtain ⟨ids, hout, hlen, ht⟩ := h.tally
  have hD : ∀ job ∈ s.pool.running, Delivers s.submitted (.ok job) job.sequence := fun job hj =>
    ⟨job.item, h.jobs job (List.mem_append_right _ hj), rfl⟩
  have hout' := hout.complete h.isOpen hD hp
  obtain ⟨job, -, ⟨-, -, rfl⟩ | ⟨hcl, -⟩⟩ := Pool.complete_eq_some hp
  · refine { h with jobs := ?_, tally := ⟨ids, hout', hlen, ht⟩ }
    intro j hj
    rcases List.mem_append.mp hj with hj | hj
    · exact h.jobs j (List.mem_append_left _ hj)
    · exact h.jobs j (List.mem_append_right _ (List.mem_of_mem_eraseIdx hj))
  · rw [h.isOpen] at hcl; cases hcl

theorem enqueued_ledger (h : s.Ledger) {message : Message ι} (hseq : message.sequence = s.submitted.length)
    (hcredit : s.inFlight < s.parallelism) :
    Ledger { s with
      pool := s.pool.submit message
      inFlight := s.inFlight + 1
      submitted := s.submitted ++ [message.item] } := by
  obtain ⟨ids, hout, hlen, ht⟩ := h.tally
  have hmono : ∀ r k, Delivers s.submitted r k → Delivers (s.submitted ++ [message.item]) r k := by
    rintro r k ⟨item, hitem, rfl⟩
    exact ⟨item, getElem?_append_of_some hitem, rfl⟩
  refine { h with
    jobs := ?_
    tally := ⟨message.sequence :: ids, (hout.mono hmono).submit message, by simp [hlen], ?_⟩
    inFlight_le := hcredit }
  · intro job hj
    simp only [Pool.submit, List.append_assoc, List.mem_append, List.mem_cons, List.not_mem_nil,
      or_false] at hj
    rcases hj with hj | rfl | hj
    · exact getElem?_append_of_some (h.jobs job (List.mem_append_left _ hj))
    · simp [hseq]
    · exact getElem?_append_of_some (h.jobs job (List.mem_append_right _ hj))
  · rw [hseq]
    exact ht.submit message.item

/-- Whatever error comes up, the invariant holds after it is returned. -/
theorem raise_inv (h : s.Ledger) (e : CacheError) : Inv (s.raise K e) := by
  have hclosed : ∀ phase, (phase = .abandoned ∨ phase = .finished (.error e)) →
      Closed (abandon K { s with errors := s.errors ++ [e] } phase) := by
    intro phase hphase
    refine ⟨?_, h.committed_prefix, fun hc => absurd hc (by simp [abandon]), fun hf => ?_⟩
    · rcases hphase with rfl | rfl
      · exact .inl rfl
      · exact .inr ⟨_, rfl⟩
    · rcases hphase with rfl | rfl <;> cases hf
  have hfailed : Inv { s with errors := s.errors ++ [e], phase := .failed } := by
    refine .inl ⟨{ h with }, fun hc => absurd hc (by simp), ?_⟩
    show s.errors ++ [e] ≠ []
    simp
  unfold raise
  cases hp : s.phase with
  | finishing => exact .inr (hclosed _ (.inr rfl))
  | draining => exact .inr (hclosed _ (.inl rfl))
  | ready => exact hfailed
  | crediting message => exact hfailed
  | enqueueing message => exact hfailed
  | failed => exact hfailed
  | finished result => exact hfailed
  | abandoned => exact hfailed

theorem abandon_inv (h : s.Ledger)
    (hclean : s.errors = [] → s.nextSequence = s.committed.length) : Inv (abandon K s .abandoned) := by
  refine .inr ⟨.inl rfl, h.committed_prefix, fun he => ?_, fun hf => by cases hf⟩
  obtain ⟨h₁, h₂, h₃, h₄⟩ := h.settled (hclean he)
  exact ⟨h₁, h₂, h₃, h₄⟩

theorem send_inv (h : s.Ledger)
    (hclean : s.errors = [] → s.nextSequence = s.committed.length) (herr : s.errors = [])
    (hseq : s.sequence = s.submitted.length) (item : ι) : Inv (s.send K item) := by
  have hle := h.inFlight_le
  have hpos := h.parallelism_pos
  unfold send
  split_ifs with hover hfull
  · exact raise_inv h _
  · exact .inl ⟨{ h with }, hclean, herr, hseq, hseq, by show 0 < s.inFlight; omega⟩
  · exact .inl ⟨{ h with }, hclean, herr, hseq, hseq, by show s.inFlight < s.parallelism; omega⟩

theorem enqueued_inv (h : s.Ledger)
    (hclean : s.errors = [] → s.nextSequence = s.committed.length) (herr : s.errors = [])
    {message : Message ι} (hseq : s.sequence = s.submitted.length)
    (hmsg : message.sequence = s.submitted.length) (hcredit : s.inFlight < s.parallelism) :
    Inv (s.enqueued K message) := by
  have hl := enqueued_ledger h hmsg hcredit
  unfold enqueued
  cases hadd : checkedAdd s.sequence 1 with
  | none => exact raise_inv hl _
  | some n =>
      obtain ⟨-, rfl⟩ := checkedAdd_eq_some.mp hadd
      refine .inl ⟨{ hl with }, hclean, herr, ?_⟩
      show s.sequence + 1 = (s.submitted ++ [message.item]).length
      simp [hseq]

theorem receive_inv (h : s.Ledger)
    (hclean : s.errors = [] → s.nextSequence = s.committed.length) (hphase : s.PhaseOk)
    (hs : s.step K .receive = some s') : Inv s' := by
  simp only [step] at hs
  split_ifs at hs with hwant
  cases hr : s.pool.recv with
  | none => simp [hr] at hs
  | some rp =>
      obtain ⟨r, pool⟩ := rp
      obtain ⟨t, result, hone, hl, hin, hrest, hok⟩ := completeOne_ledger (K := K) h hr
      simp only [Prod.mk.injEq] at hrest
      obtain ⟨hph, herr, hsub, hseq, hpar⟩ := hrest
      simp only [hr, hone] at hs
      cases result with
      | error e =>
          obtain rfl := Option.some.inj hs
          exact raise_inv hl e
      | ok u =>
          obtain rfl := Option.some.inj hs
          refine .inl ⟨{ hl with }, ?_, ?_⟩
          · exact fun he => hok rfl (hclean (herr ▸ he))
          · have hle := h.inFlight_le
            unfold PhaseOk at hphase
            unfold wantsResult at hwant
            unfold PhaseOk
            simp only [hph, herr, hsub, hseq, hpar]
            cases hp : s.phase with
            | crediting message =>
                simp only [hp] at hphase
                obtain ⟨he, hs, hm, -⟩ := hphase
                exact ⟨he, hs, hm, by show t.inFlight < s.parallelism; omega⟩
            | finishing =>
                simp only [hp] at hphase
                exact hphase
            | draining => trivial
            | ready => simp [hp] at hwant
            | enqueueing message => simp [hp] at hwant
            | failed => simp [hp] at hwant
            | finished result => simp [hp] at hwant
            | abandoned => simp [hp] at hwant

theorem close_inv (h : s.Ledger)
    (hclean : s.errors = [] → s.nextSequence = s.committed.length) (herr : s.errors = [])
    (hout : s.inFlight = 0) : Inv (s.close K) := by
  obtain ⟨hnil, hall⟩ := h.all_committed (hclean herr) hout
  unfold close
  rw [if_neg (not_not.mpr hnil)]
  simp only
  cases hf : (K.finish s.target).2 with
  | error e =>
      have hl : Ledger { s with target := (K.finish s.target).1 } := by
        obtain ⟨ids, ho, hlen, ht⟩ := h.tally
        exact { h with tally := ⟨ids, ho, hlen, { ht with }⟩ }
      exact raise_inv hl e
  | ok u =>
      simp only
      refine .inr ⟨.inr ⟨_, rfl⟩, h.committed_prefix, fun _ => ?_, fun _ => ⟨herr, hall⟩⟩
      obtain ⟨h₁, h₂, h₃, h₄⟩ := h.settled (hclean herr)
      exact ⟨h₁, h₂, h₃, h₄⟩

theorem closed_step (h : s.Closed) {a : WriteAct ι} (hs : s.step K a = some s') : s'.Closed := by
  have hpool : ∀ pool, Closed { s with pool } := fun pool =>
    { phase := h.phase
      committed := h.committed
      settled := fun he => by obtain ⟨h₁, h₂, h₃, h₄⟩ := h.settled he; exact ⟨h₁, h₂, h₃, h₄⟩
      finished := h.finished }
  have hwant : s.wantsResult = false := by
    rcases h.phase with hp | ⟨r, hp⟩ <;> simp [wantsResult, hp]
  cases a with
  | start =>
      simp only [step] at hs
      split at hs
      · obtain rfl := Option.some.inj hs
        exact hpool _
      · cases hs
  | complete i =>
      simp only [step] at hs
      split at hs
      · obtain rfl := Option.some.inj hs
        exact hpool _
      · cases hs
  | receive => simp [step, hwant] at hs
  | interrupt e => simp [step, hwant] at hs
  | settle => rcases h.phase with hp | ⟨r, hp⟩ <;> simp [step, hp] at hs
  | submit item => rcases h.phase with hp | ⟨r, hp⟩ <;> simp [step, hp] at hs
  | enqueue accepted => rcases h.phase with hp | ⟨r, hp⟩ <;> simp [step, hp] at hs
  | finish => rcases h.phase with hp | ⟨r, hp⟩ <;> simp [step, hp] at hs
  | finishIncomplete => rcases h.phase with hp | ⟨r, hp⟩ <;> simp [step, hp] at hs
  | drop => rcases h.phase with hp | ⟨r, hp⟩ <;> simp [step, hp] at hs

theorem inv_step (h : s.Inv) {a : WriteAct ι} (hs : s.step K a = some s') : s'.Inv := by
  rcases h with ⟨hl, hclean, hphase⟩ | hc
  · cases a with
    | submit item =>
        cases hp : s.phase with
        | ready =>
            simp only [PhaseOk, hp] at hphase
            simp only [step, hp, Option.some.injEq] at hs
            exact hs ▸ send_inv hl hclean hphase.1 hphase.2 item
        | _ => simp [step, hp] at hs
    | enqueue accepted =>
        cases hp : s.phase with
        | enqueueing message =>
            simp only [PhaseOk, hp] at hphase
            obtain ⟨herr, hseq, hmsg, hcredit⟩ := hphase
            simp only [step, hp] at hs
            split_ifs at hs
            · obtain rfl := Option.some.inj hs
              exact enqueued_inv hl hclean herr hseq hmsg hcredit
            · obtain rfl := Option.some.inj hs
              exact raise_inv hl _
        | _ => simp [step, hp] at hs
    | receive => exact receive_inv hl hclean hphase hs
    | interrupt e =>
        simp only [step] at hs
        split_ifs at hs
        obtain rfl := Option.some.inj hs
        exact raise_inv hl e
    | finish =>
        cases hp : s.phase with
        | ready =>
            simp only [PhaseOk, hp] at hphase
            simp only [step, hp, Option.some.injEq] at hs
            exact hs ▸ .inl ⟨{ hl with }, hclean, hphase.1⟩
        | _ => simp [step, hp] at hs
    | finishIncomplete =>
        have hdrain : Inv { s with phase := .draining } := .inl ⟨{ hl with }, hclean, trivial⟩
        cases hp : s.phase with
        | ready =>
            simp only [step, hp, Option.some.injEq] at hs
            exact hs ▸ hdrain
        | failed =>
            simp only [step, hp, Option.some.injEq] at hs
            exact hs ▸ hdrain
        | _ => simp [step, hp] at hs
    | settle =>
        simp only [step] at hs
        split_ifs at hs with hzero
        cases hp : s.phase with
        | finishing =>
            simp only [PhaseOk, hp] at hphase
            simp only [hp, Option.some.injEq] at hs
            exact hs ▸ close_inv hl hclean hphase hzero
        | draining =>
            simp only [hp, Option.some.injEq] at hs
            exact hs ▸ abandon_inv hl hclean
        | _ => simp [hp] at hs
    | drop =>
        cases hp : s.phase with
        | ready =>
            simp only [step, hp, Option.some.injEq] at hs
            exact hs ▸ abandon_inv hl hclean
        | failed =>
            simp only [step, hp, Option.some.injEq] at hs
            exact hs ▸ abandon_inv hl hclean
        | _ => simp [step, hp] at hs
    | start =>
        simp only [step] at hs
        split at hs
        · rename_i pool hp
          obtain rfl := Option.some.inj hs
          exact .inl ⟨start_ledger hl hp, hclean, hphase⟩
        · cases hs
    | complete i =>
        simp only [step] at hs
        split at hs
        · rename_i pool hp
          obtain rfl := Option.some.inj hs
          exact .inl ⟨complete_ledger hl hp, hclean, hphase⟩
        · cases hs
  · exact .inr (closed_step hc hs)

@[simp] theorem raise_parallelism (e : CacheError) : (s.raise K e).parallelism = s.parallelism := by
  unfold raise
  cases s.phase <;> rfl

@[simp] theorem completeOne_parallelism (r : CacheResult (Message ι)) :
    (completeOne K s r).1.parallelism = s.parallelism := by
  cases r with
  | error e => rfl
  | ok message =>
      simp only [completeOne]
      split_ifs <;> rfl

theorem step_parallelism {a : WriteAct ι} (hs : s.step K a = some s') :
    s'.parallelism = s.parallelism := by
  cases a with
  | submit item =>
      cases hp : s.phase <;> simp only [step, hp, Option.some.injEq, reduceCtorEq] at hs
      subst hs
      unfold send
      split_ifs <;> simp
  | enqueue accepted =>
      cases hp : s.phase <;> simp only [step, hp, reduceCtorEq] at hs
      split_ifs at hs
      · obtain rfl := Option.some.inj hs
        unfold enqueued
        cases checkedAdd s.sequence 1 <;> simp
      · obtain rfl := Option.some.inj hs
        simp
  | receive =>
      simp only [step] at hs
      split_ifs at hs
      cases hr : s.pool.recv with
      | none => simp [hr] at hs
      | some rp =>
          have hone := completeOne_parallelism (K := K) (s := { s with pool := rp.2 }) rp.1
          simp only [hr] at hs
          split at hs
          · rename_i t heq
            obtain rfl := Option.some.inj hs
            rw [heq] at hone
            exact hone
          · rename_i t e heq
            obtain rfl := Option.some.inj hs
            rw [heq] at hone
            rw [raise_parallelism]
            exact hone
  | interrupt e =>
      simp only [step] at hs
      split_ifs at hs
      obtain rfl := Option.some.inj hs
      simp
  | finish =>
      cases hp : s.phase <;> simp only [step, hp, Option.some.injEq, reduceCtorEq] at hs
      exact hs ▸ rfl
  | finishIncomplete =>
      cases hp : s.phase <;> simp only [step, hp, Option.some.injEq, reduceCtorEq] at hs
      · exact hs ▸ rfl
      · exact hs ▸ rfl
  | settle =>
      simp only [step] at hs
      split_ifs at hs
      cases hp : s.phase <;> simp only [hp, Option.some.injEq, reduceCtorEq] at hs
      · subst hs
        unfold close
        split_ifs
        · simp
        · cases hf : (K.finish s.target).2 <;> simp [hf]
      · exact hs ▸ rfl
  | drop =>
      cases hp : s.phase <;> simp only [step, hp, Option.some.injEq, reduceCtorEq] at hs
      · exact hs ▸ rfl
      · exact hs ▸ rfl
  | start =>
      simp only [step] at hs
      split at hs
      · exact Option.some.inj hs ▸ rfl
      · cases hs
  | complete i =>
      simp only [step] at hs
      split at hs
      · exact Option.some.inj hs ▸ rfl
      · cases hs

end steps

/-! ### Whole runs -/

section runs

variable {K : Committer ι β} {target : β} {prefetchSize numWorkers : Positive} {s : WritePipeline ι β}

theorem inv_new : Inv (new target prefetchSize numWorkers : WritePipeline ι β) := by
  refine .inl ⟨?_, fun _ => rfl, rfl, rfl⟩
  exact { isOpen := rfl
          jobs := by simp [new, Pool.new]
          tally := ⟨[], Pool.out_new _ _, rfl,
            { committed := List.nil_prefix
              window := by simpa [new] using Window.nil 0
              pending := by simp [new] }⟩
          parallelism_pos := lt_min prefetchSize.2 numWorkers.2
          inFlight_le := Nat.zero_le _
          fresh := by simp [new]
          next_le := le_refl _ }

theorem inv_run {as : List (WriteAct ι)}
    (hrun : Machine.run (step K) (new target prefetchSize numWorkers) as = some s) : s.Inv :=
  Machine.run_invariant (step K) (fun _ _ _ hi hs => inv_step hi hs) inv_new hrun

theorem parallelism_run {as : List (WriteAct ι)}
    (hrun : Machine.run (step K) (new target prefetchSize numWorkers) as = some s) :
    s.parallelism = min prefetchSize.1 numWorkers.1 :=
  Machine.run_invariant (I := fun t => t.parallelism = min prefetchSize.1 numWorkers.1) (step K)
    (fun _ _ _ hi hs => (step_parallelism hs).trans hi) rfl hrun

theorem Inv.committed_prefix (h : s.Inv) : s.committed <+: s.submitted := by
  rcases h with ⟨hl, -⟩ | hc
  · exact hl.committed_prefix
  · exact hc.committed

theorem Inv.settled (h : s.Inv) (herr : s.errors = []) : s.Settled := by
  rcases h with ⟨hl, hclean, -⟩ | hc
  · exact hl.settled (hclean herr)
  · exact hc.settled herr

theorem Inv.ledger_of_wantsResult (h : s.Inv) (hwant : s.wantsResult = true) : s.Ledger := by
  rcases h with ⟨hl, -⟩ | hc
  · exact hl
  · rcases hc.phase with hp | ⟨r, hp⟩ <;> simp [wantsResult, hp] at hwant

/-- **Commits in submission order.**  For every committer (`sampleWritePipeline`,
`sourceListWritePipeline`), window and schedule, in every state reached: the items `commit` was
called on are a prefix of the submitted ones; until an error is returned the four counters agree;
a successful `finish` has committed everything; no received number is pending already, no result
arrives without credit, and `finish` never finds a pending item at its end. -/
theorem commits_in_submission_order (K : Committer ι β) (target : β)
    (prefetchSize numWorkers : Positive) (as : List (WriteAct ι)) (s : WritePipeline ι β)
    (hrun : Machine.run (step K) (new target prefetchSize numWorkers) as = some s) :
    s.committed <+: s.submitted ∧
    (s.errors = [] →
      s.nextSequence = s.committed.length ∧ (∀ k ∈ s.pending.keys, s.nextSequence < k) ∧
      s.inFlight ≤ min prefetchSize.1 numWorkers.1 ∧
      s.inFlight + s.pending.keys.length + s.nextSequence = s.submitted.length) ∧
    (s.phase = .finished (.ok ()) → s.committed = s.submitted) ∧
    (s.wantsResult = true → ∀ result pool, s.pool.recv = some (result, pool) →
      ∃ message, result = .ok message ∧ s.inFlight ≠ 0 ∧ s.pending.lookup message.sequence = none) ∧
    (s.phase = .finishing → s.inFlight = 0 → s.pending.keys = []) := by
  have hinv := inv_run hrun
  refine ⟨hinv.committed_prefix, ?_, ?_, ?_, ?_⟩
  · intro herr
    obtain ⟨hnext, hgt, hle, hcount⟩ := hinv.settled herr
    rw [parallelism_run hrun] at hle
    exact ⟨hnext, hgt, hle, hcount⟩
  · intro hfin
    rcases hinv with ⟨-, -, hphase⟩ | hc
    · simp [PhaseOk, hfin] at hphase
    · exact (hc.finished hfin).2
  · intro hwant result pool hr
    obtain ⟨k, item, ids, rfl, -, hnot, -, hlen, -⟩ := (hinv.ledger_of_wantsResult hwant).recv hr
    exact ⟨⟨k, item⟩, rfl, by omega, AList.lookup_eq_none.mpr hnot⟩
  · intro hfin hzero
    rcases hinv with ⟨hl, hclean, hphase⟩ | hc
    · simp only [PhaseOk, hfin] at hphase
      exact (hl.all_committed (hclean hphase) hzero).1
    · rcases hc.phase with hp | ⟨r, hp⟩ <;> simp [hp] at hfin

end runs

/-- A builder that records what it is given. -/
def recording : Committer ℕ (List ℕ) :=
  sampleWritePipeline (fun pushed item => (pushed ++ [item], .ok ())) fun pushed => (pushed, .ok ())

theorem commits_when_overtaken :
    ∃ s, Machine.run (step recording) (new [] ⟨2, by decide⟩ ⟨2, by decide⟩)
        [.submit 10, .enqueue true, .submit 11, .enqueue true, .start, .start, .complete 1, .submit 12,
          .receive, .enqueue true, .finish, .complete 0, .receive, .start, .complete 0, .receive,
          .settle] = some s ∧
      s.submitted = [10, 11, 12] ∧ s.committed = s.submitted := by
  have h : (Machine.run (step recording) (new [] ⟨2, by decide⟩ ⟨2, by decide⟩)
        [.submit 10, .enqueue true, .submit 11, .enqueue true, .start, .start, .complete 1, .submit 12,
          .receive, .enqueue true, .finish, .complete 0, .receive, .start, .complete 0, .receive,
          .settle]).map (fun s => (s.submitted, s.phase)) =
      some ([10, 11, 12], .finished (.ok ())) := by rfl
  obtain ⟨s, hrun, hs⟩ := Option.map_eq_some_iff.mp h
  simp only [Prod.mk.injEq] at hs
  exact ⟨s, hrun, hs.1, (commits_in_submission_order recording [] _ _ _ s hrun).2.2.1 hs.2⟩

end WritePipeline

end DatasetRt
