import DatasetRt.WriteBuffer

/-! # What the items are committed to

A property of the target that one commit preserves is preserved by every step of a pipeline.  Since the
items are committed in the order of their submission (`WriteOrder`), the property may speak about the items
committed so far, and the next one is the next of the submitted ones.

* `upheld_step`: the rule for one step, with what `finish` and `abandon` make of the property.
* `known`, `known_step`: the items that the caller has sent, the one in its hand included. -/

namespace DatasetRt

variable {ι β : Type} {K : Committer ι β} {J F A : β → List ι → Prop} {submitted : List ι}

/-! ### One commit pass -/

theorem Tally.commitReady_upholds
    (hcommit : ∀ t done item, done ++ [item] <+: submitted → J t done → J (K.commit t item).1 (done ++ [item]))
    {ids : List ℕ} : ∀ (fuel : ℕ) {c : CommitState ι β}, Tally submitted ids c →
      c.nextSequence = c.committed.length → J c.target c.committed →
      J (c.commitReady K fuel).1.target (c.commitReady K fuel).1.committed
  | 0, c, _, _, hJ => hJ
  | fuel + 1, c, h, hnext, hJ => by
      cases hl : c.pending.lookup c.nextSequence with
      | none =>
          simp only [CommitState.commitReady, hl]
          exact hJ
      | some item =>
          have hJ' := hcommit c.target c.committed item
            (h.commit_next hnext hl c.target c.nextSequence).committed hJ
          cases hc : (K.commit c.target item).2 with
          | error e =>
              simp only [CommitState.commitReady, hl, hc]
              exact hJ'
          | ok u =>
              cases hadd : checkedAdd c.nextSequence 1 with
              | none =>
                  simp only [CommitState.commitReady, hl, hc, hadd]
                  exact hJ'
              | some n =>
                  obtain ⟨-, rfl⟩ := checkedAdd_eq_some.mp hadd
                  simp only [CommitState.commitReady, hl, hc, hadd]
                  refine commitReady_upholds hcommit fuel (h.commit_next hnext hl _ _) ?_ hJ'
                  simp [hnext]

theorem Tally.commitReady_ok
    (hcommit : ∀ t done item, done ++ [item] <+: submitted → J t done →
      J (K.commit t item).1 (done ++ [item]) ∧ (K.commit t item).2 = .ok ())
    (hnumbers : submitted.length < wordSize) {ids : List ℕ} : ∀ (fuel : ℕ) {c : CommitState ι β},
      Tally submitted ids c → c.nextSequence = c.committed.length → J c.target c.committed →
      (c.commitReady K fuel).2 = .ok ()
  | 0, c, _, _, _ => rfl
  | fuel + 1, c, h, hnext, hJ => by
      cases hl : c.pending.lookup c.nextSequence with
      | none => simp only [CommitState.commitReady, hl]
      | some item =>
          have hnow := h.commit_next hnext hl c.target c.nextSequence
          obtain ⟨hJ', hc⟩ := hcommit c.target c.committed item hnow.committed hJ
          have hlen := hnow.committed.length_le
          rw [List.length_append, List.length_singleton] at hlen
          have hadd : checkedAdd c.nextSequence 1 = some (c.nextSequence + 1) :=
            checkedAdd_eq_some.mpr ⟨by omega, rfl⟩
          simp only [CommitState.commitReady, hl, hc, hadd]
          refine commitReady_ok hcommit hnumbers fuel (h.commit_next hnext hl _ _) ?_ hJ'
          simp [hnext]

/-- A pass that returns no error has committed without errors. -/
theorem CommitState.commitReady_clean
    (hcommit : ∀ t done item, J t done → (K.commit t item).2 = .ok () → J (K.commit t item).1 (done ++ [item])) :
    ∀ (fuel : ℕ) (c : CommitState ι β), J c.target c.committed → (c.commitReady K fuel).2 = .ok () →
      J (c.commitReady K fuel).1.target (c.commitReady K fuel).1.committed
  | 0, _, hJ, _ => hJ
  | fuel + 1, c, hJ, hok => by
      cases hl : c.pending.lookup c.nextSequence with
      | none =>
          simp only [CommitState.commitReady, hl]
          exact hJ
      | some item =>
          cases hc : (K.commit c.target item).2 with
          | error e => simp [CommitState.commitReady, hl, hc] at hok
          | ok u =>
              cases hadd : checkedAdd c.nextSequence 1 with
              | none => simp [CommitState.commitReady, hl, hc, hadd] at hok
              | some n =>
                  simp only [CommitState.commitReady, hl, hc, hadd] at hok ⊢
                  exact commitReady_clean hcommit fuel _ (hcommit _ _ _ hJ hc) hok

/-- A pass that returns an error stopped at a commit that failed, or ran out of numbers. -/
theorem Tally.commitReady_error {e : CacheError}
    (hcommit : ∀ t done item, J t done → (K.commit t item).2 = .ok () → J (K.commit t item).1 (done ++ [item]))
    {ids : List ℕ} : ∀ (fuel : ℕ) {c : CommitState ι β}, Tally submitted ids c →
      c.nextSequence = c.committed.length → J c.target c.committed → (c.commitReady K fuel).2 = .error e →
      (e = K.overflowed ∧ wordSize ≤ submitted.length) ∨ ∃ t done item, J t done ∧
        (K.commit t item).2 = .error e ∧ (c.commitReady K fuel).1.committed = done ++ [item]
  | 0, _, _, _, _, herror => nomatch herror
  | fuel + 1, c, h, hnext, hJ, herror => by
      cases hl : c.pending.lookup c.nextSequence with
      | none => simp [CommitState.commitReady, hl] at herror
      | some item =>
          cases hc : (K.commit c.target item).2 with
          | error e' =>
              simp only [CommitState.commitReady, hl, hc, Except.error.injEq] at herror ⊢
              exact .inr ⟨_, _, _, hJ, herror ▸ hc, rfl⟩
          | ok u =>
              have hlen := (h.commit_next hnext hl c.target c.nextSequence).committed.length_le
              rw [List.length_append, List.length_singleton] at hlen
              cases hadd : checkedAdd c.nextSequence 1 with
              | none =>
                  simp only [CommitState.commitReady, hl, hc, hadd, Except.error.injEq] at herror
                  have hmax : ¬ c.nextSequence + 1 < wordSize := fun hlt => by
                    simp [checkedAdd, hlt] at hadd
                  exact .inl ⟨herror.symm, by omega⟩
              | some n =>
                  obtain ⟨-, rfl⟩ := checkedAdd_eq_some.mp hadd
                  simp only [CommitState.commitReady, hl, hc, hadd] at herror ⊢
                  refine commitReady_error hcommit fuel (h.commit_next hnext hl _ _) ?_ (hcommit _ _ _ hJ hc) herror
                  simp [hnext]

namespace WritePipeline

variable {s s' t : WritePipeline ι β}

/-! ### One step -/

section upheld

/-- Once a pass failed, the number that it stopped at does not come back. -/
theorem Ledger.stuck_insert (h : s.Ledger) {k : ℕ} {item : ι} (hnot : k ∉ s.pending.keys)
    (hk : s.committed.length ≤ k) (hnext : s.nextSequence ≠ s.committed.length) :
    s.nextSequence ∉ (s.pending.insert k item).keys := by
  have hlt := lt_of_le_of_ne h.next_le hnext
  rw [AList.keys_insert, List.erase_of_not_mem hnot, List.mem_cons]
  exact fun hc => hc.elim (fun he => by omega) h.fresh

/-- A received result leads to a commit pass, which does nothing once an earlier pass failed. -/
theorem completeOne_upholds (h : s.Ledger)
    (hcommit : ∀ t done item, done ++ [item] <+: s.submitted → J t done → J (K.commit t item).1 (done ++ [item]))
    {r result : CacheResult _} {pool : Pool (Message ι) (CacheResult (Message ι))}
    (hr : s.pool.recv = some (r, pool)) (hone : completeOne K { s with pool } r = (t, result))
    (hJ : J s.target s.committed) : J t.target t.committed := by
  obtain ⟨k, item, ids, rfl, hitem, hnot, hk, hlen, -, ht⟩ := h.recv hr
  have hl : s.pending.lookup k = none := AList.lookup_eq_none.mpr hnot
  have hzero : s.inFlight ≠ 0 := by omega
  simp only [completeOne, hzero, hl, if_false, Option.isSome_none, Bool.false_eq_true, Prod.mk.injEq] at hone
  obtain ⟨rfl, -⟩ := hone
  by_cases hnext : s.nextSequence = s.committed.length
  · exact (ht.insert hitem hnot).commitReady_upholds hcommit _ hnext hJ
  · rw [CommitState.commitReady_of_missing]
    · exact hJ
    · exact h.stuck_insert hnot hk hnext

theorem completeOne_ok (h : s.Ledger)
    (hcommit : ∀ t done item, done ++ [item] <+: s.submitted → J t done →
      J (K.commit t item).1 (done ++ [item]) ∧ (K.commit t item).2 = .ok ())
    (hnumbers : s.submitted.length < wordSize)
    {r result : CacheResult _} {pool : Pool (Message ι) (CacheResult (Message ι))}
    (hr : s.pool.recv = some (r, pool)) (hone : completeOne K { s with pool } r = (t, result))
    (hJ : J s.target s.committed) : result = .ok () := by
  obtain ⟨k, item, ids, rfl, hitem, hnot, hk, hlen, -, ht⟩ := h.recv hr
  have hl : s.pending.lookup k = none := AList.lookup_eq_none.mpr hnot
  have hzero : s.inFlight ≠ 0 := by omega
  simp only [completeOne, hzero, hl, if_false, Option.isSome_none, Bool.false_eq_true, Prod.mk.injEq] at hone
  obtain ⟨-, rfl⟩ := hone
  by_cases hnext : s.nextSequence = s.committed.length
  · exact (ht.insert hitem hnot).commitReady_ok hcommit hnumbers _ hnext hJ
  · rw [CommitState.commitReady_of_missing]
    exact h.stuck_insert hnot hk hnext

theorem completeOne_sent (s : WritePipeline ι β) (result : CacheResult (Message ι)) :
    (completeOne K s result).1.phase = s.phase ∧ (completeOne K s result).1.submitted = s.submitted ∧
      (completeOne K s result).1.errors = s.errors := by
  cases result with
  | error error => exact ⟨rfl, rfl, rfl⟩
  | ok message =>
      simp only [completeOne]
      split_ifs <;> exact ⟨rfl, rfl, rfl⟩

/-- `J` holds while the pipeline is open, `F` once it is finished and `A` once it is given up. -/
def Upheld (J F A : β → List ι → Prop) (s : WritePipeline ι β) : Prop :=
  match s.phase with
  | .finished (.ok ()) => F s.target s.committed
  | .finished (.error _) => A s.target s.committed
  | .abandoned => A s.target s.committed
  | _ => J s.target s.committed

theorem upheld_same : s.Upheld J J J ↔ J s.target s.committed := by
  unfold Upheld
  split <;> exact Iff.rfl

/-- What a property needs to be upheld by a pipeline. -/
structure Upholds (K : Committer ι β) (J F A : β → List ι → Prop) (submitted : List ι) : Prop where
  commit : ∀ t done item, done ++ [item] <+: submitted → J t done → J (K.commit t item).1 (done ++ [item])
  finish : ∀ t, (K.finish t).2 = .ok () → J t submitted → F (K.finish t).1 submitted
  finishError : ∀ t e, (K.finish t).2 = .error e → J t submitted → A (K.abandon (K.finish t).1) submitted
  abandon : ∀ t done, J t done → A (K.abandon t) done

theorem upheld_raise (habandon : ∀ t done, J t done → A (K.abandon t) done) (hJ : J s.target s.committed)
    (e : CacheError) : Upheld J F A (s.raise K e) := by
  unfold raise
  cases hp : s.phase with
  | finishing => exact habandon _ _ hJ
  | draining => exact habandon _ _ hJ
  | _ => exact hJ

theorem upheld_of_wantsResult (h : s.Upheld J F A) (hwant : s.wantsResult = true) : J s.target s.committed := by
  cases hp : s.phase <;> simp only [wantsResult, hp, Bool.false_eq_true] at hwant
  all_goals simpa only [Upheld, hp] using h

/-- **Commit rule.** -/
theorem upheld_step (hinv : s.Inv) (hK : Upholds K J F A s.submitted) (h : s.Upheld J F A) {a : WriteAct ι}
    (hs : s.step K a = some s') : s'.Upheld J F A := by
  cases moves_of_step hs with
  | send item hphase =>
      simp only [Upheld, hphase] at h
      unfold send
      split_ifs
      · exact upheld_raise hK.abandon h _
      · exact h
      · exact h
  | @enqueued message hphase =>
      simp only [Upheld, hphase] at h
      unfold enqueued
      cases checkedAdd s.sequence 1 with
      | none =>
          refine upheld_raise hK.abandon ?_ _
          exact h
      | some n => exact h
  | refused hphase =>
      simp only [Upheld, hphase] at h
      exact upheld_raise hK.abandon h _
  | @received result pool t hwant hrecv hone =>
      have hJ := completeOne_upholds (hinv.ledger_of_wantsResult hwant) hK.commit hrecv hone
        (upheld_of_wantsResult h hwant)
      have hphase := (completeOne_frame (K := K) { s with pool } result).2
      rw [hone] at hphase
      simp only at hphase
      cases hp : s.phase <;> simp only [wantsResult, hp, Bool.false_eq_true] at hwant
      all_goals
        simp only [Upheld, hphase, hp, credited]
        exact hJ
  | broken hwant hrecv hone =>
      exact upheld_raise hK.abandon (completeOne_upholds (hinv.ledger_of_wantsResult hwant) hK.commit hrecv hone
        (upheld_of_wantsResult h hwant)) _
  | interrupted e hwant hrecv => exact upheld_raise hK.abandon (upheld_of_wantsResult h hwant) _
  | finish hphase =>
      simp only [Upheld, hphase] at h
      exact h
  | finishIncomplete hphase =>
      rcases hphase with hphase | hphase
      all_goals
        simp only [Upheld, hphase] at h
        exact h
  | closed hphase hout =>
      simp only [Upheld, hphase] at h
      rcases hinv with ⟨hl, hclean, hphaseOk⟩ | hc
      · simp only [PhaseOk, hphase] at hphaseOk
        obtain ⟨hnil, hall⟩ := hl.all_committed (hclean hphaseOk) hout
        unfold close
        rw [if_neg (not_not.mpr hnil)]
        simp only
        rw [hall] at h
        cases hf : (K.finish s.target).2 with
        | error e =>
            simp only [raise, hphase, WritePipeline.abandon, Upheld, hall]
            exact hK.finishError _ e hf h
        | ok u =>
            simp only [Upheld, hall]
            exact hK.finish _ hf h
      · rcases hc.phase with hp | ⟨r, hp⟩ <;> simp [hphase] at hp
  | drained hphase hout =>
      simp only [Upheld, hphase] at h
      exact hK.abandon _ _ h
  | dropped hphase =>
      rcases hphase with hphase | hphase
      all_goals
        simp only [Upheld, hphase] at h
        exact hK.abandon _ _ h
  | start hpool => exact h
  | complete hpool => exact h

/-- What a property needs to be upheld as long as no error is returned. -/
structure Cleans (K : Committer ι β) (J F A : β → List ι → Prop) : Prop where
  commit : ∀ t done item, J t done → (K.commit t item).2 = .ok () → J (K.commit t item).1 (done ++ [item])
  finish : ∀ t done, (K.finish t).2 = .ok () → J t done → F (K.finish t).1 done
  abandon : ∀ t done, J t done → A (K.abandon t) done

theorem completeOne_clean
    (hcommit : ∀ t done item, J t done → (K.commit t item).2 = .ok () → J (K.commit t item).1 (done ++ [item]))
    {r : CacheResult (Message ι)} (hone : completeOne K s r = (t, .ok ())) (hJ : J s.target s.committed) :
    J t.target t.committed := by
  cases r with
  | error e => simp [completeOne] at hone
  | ok message =>
      simp only [completeOne] at hone
      split_ifs at hone
      · simp at hone
      · simp at hone
      · rw [Prod.mk.injEq] at hone
        obtain ⟨rfl, hok⟩ := hone
        exact CommitState.commitReady_clean hcommit _ _ hJ hok

/-- A result is never wrong in itself: what fails is a commit, at most as far back as there are credits. -/
theorem completeOne_error (h : s.Ledger) (hnext : s.nextSequence = s.committed.length)
    (hcommit : ∀ t done item, J t done → (K.commit t item).2 = .ok () → J (K.commit t item).1 (done ++ [item]))
    {r : CacheResult (Message ι)} {pool : Pool (Message ι) (CacheResult (Message ι))} {e : CacheError}
    (hr : s.pool.recv = some (r, pool)) (hone : completeOne K { s with pool } r = (t, .error e))
    (hJ : J s.target s.committed) :
    (e = K.overflowed ∧ wordSize ≤ s.submitted.length) ∨ ∃ u done item, J u done ∧
      (K.commit u item).2 = .error e ∧ done ++ [item] <+: s.submitted ∧
      done.length + s.inFlight ≤ s.submitted.length := by
  obtain ⟨k, item, ids, rfl, hitem, hnot, hk, hlen, -, ht⟩ := h.recv hr
  obtain ⟨t', result, hone', hledger, hin, hsame, -⟩ := completeOne_ledger (K := K) h hr
  rw [hone, Prod.mk.injEq] at hone'
  obtain ⟨rfl, -⟩ := hone'
  simp only [Prod.mk.injEq] at hsame
  have hl : s.pending.lookup k = none := AList.lookup_eq_none.mpr hnot
  have hzero : s.inFlight ≠ 0 := by omega
  simp only [completeOne, hzero, hl, if_false, Option.isSome_none, Bool.false_eq_true, Prod.mk.injEq] at hone
  obtain ⟨rfl, herror⟩ := hone
  rcases (ht.insert hitem hnot).commitReady_error hcommit _ hnext hJ herror with
    hover | ⟨u, done, item', hJu, hfail, hdone⟩
  · exact .inl hover
  · have hpre := hledger.committed_prefix
    have hcount := hledger.buffered_eq
    rw [buffered, hledger.size_eq] at hcount
    simp only at hpre hcount
    rw [hdone] at hpre hcount
    simp only [List.length_append, List.length_singleton] at hcount
    exact .inr ⟨u, done, item', hJu, hfail, hpre, by omega⟩

@[simp] theorem errors_raise (s : WritePipeline ι β) (e : CacheError) : (s.raise K e).errors = s.errors ++ [e] := by
  unfold raise
  cases s.phase <;> rfl

/-- **Commit rule** for a pipeline that has returned no error. -/
theorem clean_step (hK : Cleans K J F A) (h : s.errors = [] → s.Upheld J F A) {a : WriteAct ι}
    (hs : s.step K a = some s') (hnone : s'.errors = []) : s'.Upheld J F A := by
  cases moves_of_step hs with
  | send item hphase =>
      simp only [Upheld, hphase] at h
      unfold send at hnone ⊢
      split_ifs at hnone ⊢
      · simp at hnone
      · exact h hnone
      · exact h hnone
  | @enqueued message hphase =>
      simp only [Upheld, hphase] at h
      unfold enqueued at hnone ⊢
      cases hadd : checkedAdd s.sequence 1 with
      | none => simp [hadd] at hnone
      | some n =>
          simp only [hadd] at hnone
          exact h hnone
  | refused hphase => simp at hnone
  | @received result pool t hwant hrecv hone =>
      have hframe := completeOne_sent (K := K) { s with pool } result
      rw [hone] at hframe
      obtain ⟨hphase, -, herrors⟩ := hframe
      simp only at hphase herrors hnone
      have hJ := completeOne_clean hK.commit hone (upheld_of_wantsResult (h (herrors ▸ hnone)) hwant)
      cases hp : s.phase <;> simp only [wantsResult, hp, Bool.false_eq_true] at hwant
      all_goals
        simp only [Upheld, hphase, hp, credited]
        exact hJ
  | broken hwant hrecv hone => simp at hnone
  | interrupted e hwant hrecv => simp at hnone
  | finish hphase =>
      simp only [Upheld, hphase] at h
      exact h hnone
  | finishIncomplete hphase =>
      rcases hphase with hphase | hphase
      all_goals
        simp only [Upheld, hphase] at h
        exact h hnone
  | closed hphase hout =>
      simp only [Upheld, hphase] at h
      unfold close at hnone ⊢
      split_ifs at hnone ⊢ with hpending
      · simp at hnone
      · cases hf : (K.finish s.target).2 with
        | error e => simp [hf] at hnone
        | ok u =>
            simp only [hf] at hnone ⊢
            exact hK.finish _ _ hf (h hnone)
  | drained hphase hout =>
      simp only [Upheld, hphase] at h
      exact hK.abandon _ _ (h hnone)
  | dropped hphase =>
      rcases hphase with hphase | hphase
      all_goals
        simp only [Upheld, hphase] at h
        exact hK.abandon _ _ (h hnone)
  | start hpool => exact h hnone
  | complete hpool => exact h hnone

end upheld

/-! ### What was sent -/

/-- The item in the caller's hand. -/
def inHand : WritePhase ι → List ι
  | .crediting message => [message.item]
  | .enqueueing message => [message.item]
  | _ => []

/-- The items that were sent and not refused. -/
def known (s : WritePipeline ι β) : List ι := s.submitted ++ inHand s.phase

theorem submitted_prefix_known (s : WritePipeline ι β) : s.submitted <+: s.known := List.prefix_append _ _

theorem known_raise (s : WritePipeline ι β) (e : CacheError) :
    (s.raise K e).errors ≠ [] ∧ (s.raise K e).known = s.submitted := by
  unfold raise
  cases s.phase <;> simp [known, inHand, abandon]

theorem known_step {a : WriteAct ι} (hs : s.step K a = some s') :
    (s'.errors ≠ [] ∧ s'.known <+: s.known) ∨ (s'.errors = s.errors ∧
      ((∃ item, a = .submit item ∧ s.phase = .ready ∧ s'.known = s.known ++ [item]) ∨
        (∀ item, a ≠ .submit item) ∧ s'.known = s.known)) := by
  have hraise : ∀ (t : WritePipeline ι β) e, t.submitted <+: s.known →
      (t.raise K e).errors ≠ [] ∧ (t.raise K e).known <+: s.known := by
    intro t e ht
    obtain ⟨herr, hknown⟩ := known_raise (K := K) t e
    exact ⟨herr, hknown ▸ ht⟩
  cases moves_of_step hs with
  | send item hphase =>
      unfold send
      split_ifs
      · exact .inl (hraise s _ (submitted_prefix_known s))
      · exact .inr ⟨rfl, .inl ⟨item, rfl, hphase, by simp [known, inHand, hphase]⟩⟩
      · exact .inr ⟨rfl, .inl ⟨item, rfl, hphase, by simp [known, inHand, hphase]⟩⟩
  | @enqueued message hphase =>
      unfold enqueued
      cases checkedAdd s.sequence 1 with
      | none => exact .inl (hraise _ _ (by simp [known, inHand, hphase]))
      | some n => exact .inr ⟨rfl, .inr ⟨by simp, by simp [known, inHand, hphase]⟩⟩
  | refused hphase => exact .inl (hraise s _ (submitted_prefix_known s))
  | @received result pool t hwant hrecv hone =>
      have hframe := completeOne_sent (K := K) { s with pool } result
      rw [hone] at hframe
      obtain ⟨hphase, hsubmitted, herrors⟩ := hframe
      refine .inr ⟨herrors, .inr ⟨by simp, ?_⟩⟩
      simp only at hphase hsubmitted
      simp only [known, hphase, hsubmitted]
      cases hp : s.phase <;> simp [credited, inHand]
  | @broken result pool t e hwant hrecv hone =>
      have hframe := completeOne_sent (K := K) { s with pool } result
      rw [hone] at hframe
      refine .inl (hraise t _ ?_)
      rw [hframe.2.1]
      exact submitted_prefix_known s
  | interrupted e hwant hrecv => exact .inl (hraise s _ (submitted_prefix_known s))
  | finish hphase => exact .inr ⟨rfl, .inr ⟨by simp, by simp [known, inHand, hphase]⟩⟩
  | finishIncomplete hphase =>
      refine .inr ⟨rfl, .inr ⟨by simp, ?_⟩⟩
      rcases hphase with hphase | hphase <;> simp [known, inHand, hphase]
  | closed hphase hout =>
      unfold close
      split_ifs
      · exact .inl (hraise s _ (submitted_prefix_known s))
      · cases hf : (K.finish s.target).2 with
        | error e =>
            simp only [hf]
            exact .inl (hraise { s with target := (K.finish s.target).1 } e (submitted_prefix_known s))
        | ok u =>
            simp only [hf]
            exact .inr ⟨trivial, .inr ⟨by simp, by simp [known, inHand, hphase]⟩⟩
  | drained hphase hout => exact .inr ⟨rfl, .inr ⟨by simp, by simp [known, inHand, hphase, abandon]⟩⟩
  | dropped hphase =>
      refine .inr ⟨rfl, .inr ⟨by simp, ?_⟩⟩
      rcases hphase with hphase | hphase <;> simp [known, inHand, hphase, abandon]
  | start hpool => exact .inr ⟨rfl, .inr ⟨by simp, rfl⟩⟩
  | complete hpool => exact .inr ⟨rfl, .inr ⟨by simp, rfl⟩⟩

/-- Where an error comes from. -/
inductive Fault (K : Committer ι β) (s : WritePipeline ι β) : WriteAct ι → CacheError → Prop where
  | overflow {item : ι} (hfirst : K.checksFirst = true) (hadd : checkedAdd s.sequence 1 = none) :
      Fault K s (.submit item) K.overflowed
  | overflowLate {message : Message ι} (hphase : s.phase = .enqueueing message)
      (hadd : checkedAdd s.sequence 1 = none) : Fault K s (.enqueue true) K.overflowed
  | refused : Fault K s (.enqueue false) .workerFailed
  | broken {r : CacheResult (Message ι)} {pool : Pool (Message ι) (CacheResult (Message ι))}
      {t : WritePipeline ι β} {error : CacheError} (hwant : s.wantsResult = true)
      (hrecv : s.pool.recv = some (r, pool)) (hone : completeOne K { s with pool } r = (t, .error error)) :
      Fault K s .receive error
  | interrupted (error : CacheError) : Fault K s (.interrupt error) error
  | pending (hphase : s.phase = .finishing) (hout : s.inFlight = 0) (hpending : s.pending.keys ≠ []) :
      Fault K s .settle .workerFailed
  | unfinished {error : CacheError} (hphase : s.phase = .finishing) (hout : s.inFlight = 0)
      (hfinish : (K.finish s.target).2 = .error error) : Fault K s .settle error

theorem errors_step {a : WriteAct ι} (hs : s.step K a = some s') :
    s'.errors = s.errors ∨ ∃ e, s'.errors = s.errors ++ [e] ∧ Fault K s a e := by
  cases moves_of_step hs with
  | send item hphase =>
      unfold send
      split_ifs with hover
      · exact .inr ⟨_, errors_raise _ _, .overflow hover.1 hover.2⟩
      · exact .inl rfl
      · exact .inl rfl
  | enqueued hphase =>
      unfold enqueued
      cases hadd : checkedAdd s.sequence 1 with
      | none => exact .inr ⟨_, errors_raise _ _, .overflowLate hphase hadd⟩
      | some n => exact .inl rfl
  | refused hphase => exact .inr ⟨_, errors_raise _ _, .refused⟩
  | @received result pool t hwant hrecv hone =>
      have hframe := completeOne_sent (K := K) { s with pool } result
      rw [hone] at hframe
      exact .inl hframe.2.2
  | @broken result pool t e hwant hrecv hone =>
      have hframe := completeOne_sent (K := K) { s with pool } result
      rw [hone] at hframe
      refine .inr ⟨e, ?_, .broken hwant hrecv hone⟩
      rw [errors_raise, hframe.2.2]
  | interrupted e hwant hrecv => exact .inr ⟨e, errors_raise _ _, .interrupted e⟩
  | finish hphase => exact .inl rfl
  | finishIncomplete hphase => exact .inl rfl
  | closed hphase hout =>
      unfold close
      split_ifs with hpending
      · exact .inr ⟨_, errors_raise _ _, .pending hphase hout hpending⟩
      · cases hf : (K.finish s.target).2 with
        | error e =>
            simp only [hf]
            exact .inr ⟨e, errors_raise _ _, .unfinished hphase hout hf⟩
        | ok u =>
            simp only [hf]
            exact .inl trivial
  | drained hphase hout => exact .inl rfl
  | dropped hphase => exact .inl rfl
  | start hpool => exact .inl rfl
  | complete hpool => exact .inl rfl

theorem submitted_raise (s : WritePipeline ι β) (e : CacheError) : (s.raise K e).submitted = s.submitted := by
  unfold raise
  cases s.phase <;> rfl

/-- Only a message that the pool took is submitted, and without an error there is a number after its own. -/
theorem submitted_cases {a : WriteAct ι} (hs : s.step K a = some s') :
    s'.submitted = s.submitted ∨ ∃ message, s.phase = .enqueueing message ∧
      s'.submitted = s.submitted ++ [message.item] ∧
      (s'.errors = [] → s'.phase = .ready ∧ s'.sequence = s.sequence + 1) := by
  cases moves_of_step hs with
  | send item hphase =>
      unfold send
      split_ifs
      · exact .inl (submitted_raise _ _)
      · exact .inl rfl
      · exact .inl rfl
  | @enqueued message hphase =>
      refine .inr ⟨message, hphase, ?_⟩
      unfold enqueued
      cases hadd : checkedAdd s.sequence 1 with
      | none => exact ⟨submitted_raise _ _, fun hnone => by simp at hnone⟩
      | some n => exact ⟨rfl, fun _ => ⟨rfl, (checkedAdd_eq_some.mp hadd).2.symm⟩⟩
  | refused hphase => exact .inl (submitted_raise _ _)
  | @received result pool t hwant hrecv hone =>
      have hframe := completeOne_sent (K := K) { s with pool } result
      rw [hone] at hframe
      exact .inl hframe.2.1
  | @broken result pool t e hwant hrecv hone =>
      have hframe := completeOne_sent (K := K) { s with pool } result
      rw [hone] at hframe
      exact .inl ((submitted_raise _ _).trans hframe.2.1)
  | interrupted e hwant hrecv => exact .inl (submitted_raise _ _)
  | finish hphase => exact .inl rfl
  | finishIncomplete hphase => exact .inl rfl
  | closed hphase hout =>
      refine .inl ?_
      unfold close
      split_ifs
      · exact submitted_raise _ _
      · cases hf : (K.finish s.target).2 with
        | error e =>
            simp only [hf]
            exact submitted_raise _ _
        | ok u => simp only [hf]
  | drained hphase hout => exact .inl rfl
  | dropped hphase => exact .inl rfl
  | start hpool => exact .inl rfl
  | complete hpool => exact .inl rfl

theorem submitted_step (hinv : s.Inv) (hnum : Numbered K s) (h : s.submitted.length ≤ K.numbers)
    {a : WriteAct ι} (hs : s.step K a = some s') : s'.submitted.length ≤ K.numbers := by
  rcases submitted_cases hs with heq | ⟨message, hphase, heq, -⟩
  · rw [heq]
    exact h
  · obtain ⟨-, -, hseq, -⟩ := hinv.enqueueing hphase
    have hlt := hnum.sequence_lt
    rw [heq, List.length_append, List.length_singleton]
    unfold Committer.numbers
    split_ifs with hfirst
    · have := hnum.succ_lt hfirst (by rw [hphase]; rfl)
      omega
    · omega

/-- How a step brings a pipeline to its end. -/
structure Ends (s : WritePipeline ι β) (a : WriteAct ι) (s' : WritePipeline ι β) : Prop where
  finishing : s'.phase = .finishing → s.phase = .finishing ∨ a = .finish ∧ s.phase = .ready
  finished : ∀ r, s'.phase = .finished r → s.phase = .finished r ∨
    s.phase = .finishing ∧ ∀ e, r = .error e → e ∈ s'.errors
  abandoned : s'.phase = .abandoned → s.phase = .abandoned ∨ s.phase = .draining ∨
    a = .drop ∧ (s.phase = .ready ∨ s.phase = .failed)
  draining : s'.phase = .draining → s.phase = .draining ∨ a = .finishIncomplete

theorem ends_raise (hphase : t.phase = s.phase) (e : CacheError) (a : WriteAct ι) : Ends s a (t.raise K e) := by
  have herrors := errors_raise (K := K) t e
  unfold raise at herrors ⊢
  rw [hphase] at herrors ⊢
  cases hp : s.phase <;> simp only [hp] at herrors ⊢
  case finishing =>
    refine ⟨by simp [abandon], fun r h => .inr ⟨hp, fun e' he' => ?_⟩, by simp [abandon], by simp [abandon]⟩
    rw [herrors]
    obtain rfl : .error e = r := by simpa [abandon] using h
    simp [Except.error.inj he']
  case draining => exact ⟨by simp [abandon], by simp [abandon], fun _ => .inr (.inl hp), by simp [abandon]⟩
  all_goals exact ⟨by simp, by simp, by simp, by simp⟩

theorem ends_step {a : WriteAct ι} (hs : s.step K a = some s') : Ends s a s' := by
  cases moves_of_step hs with
  | send item hphase =>
      unfold send
      split_ifs
      · exact ends_raise rfl _ _
      · exact ⟨by simp, by simp, by simp, by simp⟩
      · exact ⟨by simp, by simp, by simp, by simp⟩
  | @enqueued message hphase =>
      unfold enqueued
      cases checkedAdd s.sequence 1 with
      | none =>
          simp only
          refine ends_raise ?_ _ _
          rfl
      | some n => exact ⟨by simp, by simp, by simp, by simp⟩
  | refused hphase => exact ends_raise rfl _ _
  | @received result pool t hwant hrecv hone =>
      have hframe := completeOne_sent (K := K) { s with pool } result
      rw [hone] at hframe
      have hphase : t.phase = s.phase := hframe.1
      cases hp : s.phase <;> simp only [hp, wantsResult, Bool.false_eq_true] at hwant
      all_goals constructor <;> simp [hphase, hp, credited]
  | @broken result pool t e hwant hrecv hone =>
      have hframe := completeOne_sent (K := K) { s with pool } result
      rw [hone] at hframe
      have hphase : t.phase = s.phase := hframe.1
      exact ends_raise hphase _ _
  | interrupted e hwant hrecv => exact ends_raise rfl _ _
  | finish hphase => exact ⟨fun _ => .inr ⟨rfl, hphase⟩, by simp, by simp, by simp⟩
  | finishIncomplete hphase => exact ⟨by simp, by simp, by simp, fun _ => .inr rfl⟩
  | closed hphase hout =>
      unfold close
      split_ifs
      · exact ends_raise rfl _ _
      · cases hf : (K.finish s.target).2 with
        | error e =>
            simp only [hf]
            refine ends_raise ?_ _ _
            rfl
        | ok u =>
            simp only [hf]
            refine ⟨by simp, fun r h => .inr ⟨hphase, fun e he => ?_⟩, by simp, by simp⟩
            rw [he] at h
            cases h
  | drained hphase hout => exact ⟨by simp [abandon], by simp [abandon], fun _ => .inr (.inl hphase), by simp [abandon]⟩
  | dropped hphase => exact ⟨by simp [abandon], by simp [abandon], fun _ => .inr (.inr ⟨rfl, hphase⟩), by simp [abandon]⟩
  | start hpool => exact ⟨.inl, fun _ => .inl, .inl, .inl⟩
  | complete hpool => exact ⟨.inl, fun _ => .inl, .inl, .inl⟩

@[simp] theorem raise_pool (s : WritePipeline ι β) (e : CacheError) :
    (s.raise K e).pool.workers = s.pool.workers ∧ (s.raise K e).pool.capacity = s.pool.capacity := by
  unfold raise
  cases s.phase <;> exact ⟨rfl, rfl⟩

theorem pool_step {a : WriteAct ι} (hs : s.step K a = some s') :
    s'.pool.workers = s.pool.workers ∧ s'.pool.capacity = s.pool.capacity := by
  cases moves_of_step hs with
  | send item hphase =>
      unfold send
      split_ifs
      · exact raise_pool s _
      · exact ⟨rfl, rfl⟩
      · exact ⟨rfl, rfl⟩
  | @enqueued message hphase =>
      unfold enqueued
      cases checkedAdd s.sequence 1 with
      | none => exact raise_pool { s with
          pool := s.pool.submit message
          inFlight := s.inFlight + 1
          submitted := s.submitted ++ [message.item] } K.overflowed
      | some n => exact ⟨rfl, rfl⟩
  | refused hphase => exact raise_pool s _
  | @received result pool t hwant hrecv hone =>
      have hpool := (buffered_completeOne (K := K) { s with pool } result).2
      rw [hone] at hpool
      obtain ⟨rest, -, rfl⟩ := Pool.recv_eq_some hrecv
      show t.pool.workers = _ ∧ t.pool.capacity = _
      rw [hpool]
      exact ⟨rfl, rfl⟩
  | @broken result pool t e hwant hrecv hone =>
      have hpool := (buffered_completeOne (K := K) { s with pool } result).2
      rw [hone] at hpool
      obtain ⟨rest, -, rfl⟩ := Pool.recv_eq_some hrecv
      rw [(raise_pool t e).1, (raise_pool t e).2, hpool]
      exact ⟨rfl, rfl⟩
  | interrupted e hwant hrecv => exact raise_pool s e
  | finish hphase => exact ⟨rfl, rfl⟩
  | finishIncomplete hphase => exact ⟨rfl, rfl⟩
  | closed hphase hout =>
      unfold close
      split_ifs
      · exact raise_pool s _
      · cases hf : (K.finish s.target).2 with
        | error e =>
            simp only [hf]
            exact raise_pool { s with target := (K.finish s.target).1 } e
        | ok u =>
            simp only [hf]
            exact ⟨rfl, rfl⟩
  | drained hphase hout => exact ⟨rfl, rfl⟩
  | dropped hphase => exact ⟨rfl, rfl⟩
  | start hpool =>
      obtain ⟨job, rest, -, -, rfl⟩ := Pool.start_eq_some hpool
      exact ⟨rfl, rfl⟩
  | complete hpool =>
      obtain ⟨job, -, ⟨-, -, rfl⟩ | ⟨-, rfl⟩⟩ := Pool.complete_eq_some hpool <;> exact ⟨rfl, rfl⟩

theorem crediting_raise (s : WritePipeline ι β) (e : CacheError) (message : Message ι) :
    (s.raise K e).phase ≠ .crediting message := by
  unfold raise
  cases s.phase <;> simp [abandon]

/-- `submit` waits for a credit only when there is none left. -/
theorem crediting_step {a : WriteAct ι} (h : ∀ message, s.phase = .crediting message → s.inFlight = s.parallelism)
    (hs : s.step K a = some s') (message : Message ι) (hphase' : s'.phase = .crediting message) :
    s'.inFlight = s'.parallelism := by
  cases moves_of_step hs with
  | send item hphase =>
      unfold send at hphase' ⊢
      split_ifs at hphase' ⊢ with hover hfull
      · exact absurd hphase' (crediting_raise _ _ _)
      · exact hfull
  | enqueued hphase =>
      unfold enqueued at hphase' ⊢
      cases hadd : checkedAdd s.sequence 1 with
      | none =>
          simp only [hadd] at hphase'
          exact absurd hphase' (crediting_raise _ _ _)
      | some n =>
          simp only [hadd] at hphase'
          cases hphase'
  | refused hphase => exact absurd hphase' (crediting_raise _ _ _)
  | @received result pool t hwant hrecv hone =>
      have hcredited : credited t.phase ≠ .crediting message := by
        cases t.phase <;> simp [credited]
      exact absurd hphase' hcredited
  | broken hwant hrecv hone => exact absurd hphase' (crediting_raise _ _ _)
  | interrupted e hwant hrecv => exact absurd hphase' (crediting_raise _ _ _)
  | finish hphase => cases hphase'
  | finishIncomplete hphase => cases hphase'
  | closed hphase hout =>
      unfold close at hphase' ⊢
      split_ifs at hphase' ⊢
      · exact absurd hphase' (crediting_raise _ _ _)
      · cases hf : (K.finish s.target).2 with
        | error e =>
            simp only [hf] at hphase'
            exact absurd hphase' (crediting_raise _ _ _)
        | ok u =>
            simp only [hf] at hphase'
            cases hphase'
  | drained hphase hout => cases hphase'
  | dropped hphase => cases hphase'
  | start hpool => exact h message hphase'
  | complete hpool => exact h message hphase'

theorem ready_raise (s : WritePipeline ι β) (e : CacheError) : (s.raise K e).phase ≠ .ready := by
  unfold raise
  cases s.phase <;> simp [abandon]

/-- The caller gets back to its loop when an item was accepted. -/
theorem ready_step {a : WriteAct ι} (hs : s.step K a = some s') (hphase' : s'.phase = .ready) :
    (s.phase = .ready ∧ ∀ item, a ≠ .submit item) ∨
      ∃ message, s.phase = .enqueueing message ∧ s'.submitted = s.submitted ++ [message.item] := by
  cases moves_of_step hs with
  | send item hphase =>
      unfold send at hphase'
      split_ifs at hphase'
      exact absurd hphase' (ready_raise _ _)
  | @enqueued message hphase =>
      unfold enqueued at hphase' ⊢
      cases hadd : checkedAdd s.sequence 1 with
      | none =>
          simp only [hadd] at hphase'
          exact absurd hphase' (ready_raise _ _)
      | some n => exact .inr ⟨message, hphase, rfl⟩
  | refused hphase => exact absurd hphase' (ready_raise _ _)
  | @received result pool t hwant hrecv hone =>
      have hframe := completeOne_sent (K := K) { s with pool } result
      rw [hone] at hframe
      have hphase : t.phase = s.phase := hframe.1
      simp only [hphase] at hphase'
      cases hp : s.phase <;> simp [credited, hp, wantsResult] at hphase' hwant
  | broken hwant hrecv hone => exact absurd hphase' (ready_raise _ _)
  | interrupted e hwant hrecv => exact absurd hphase' (ready_raise _ _)
  | finish hphase => cases hphase'
  | finishIncomplete hphase => cases hphase'
  | closed hphase hout =>
      unfold close at hphase'
      split_ifs at hphase'
      · exact absurd hphase' (ready_raise _ _)
      · cases hf : (K.finish s.target).2 with
        | error e =>
            simp only [hf] at hphase'
            exact absurd hphase' (ready_raise _ _)
        | ok u =>
            simp only [hf] at hphase'
            cases hphase'
  | drained hphase hout => cases hphase'
  | dropped hphase => cases hphase'
  | start hpool => exact .inl ⟨hphase', by simp⟩
  | complete hpool => exact .inl ⟨hphase', by simp⟩

/-- The accounting of a pipeline, with the bound on its numbers, and a pool that works. -/
structure Counted (K : Committer ι β) (s : WritePipeline ι β) : Prop where
  inv : s.Inv
  numbered : Numbered K s
  submitted_le : s.submitted.length ≤ K.numbers
  workers : 0 < s.pool.workers
  capacity : 0 < s.pool.capacity

theorem counted_new (target : β) (prefetchSize numWorkers : Positive) :
    Counted K (new target prefetchSize numWorkers : WritePipeline ι β) :=
  ⟨inv_new, ⟨Nat.two_pow_pos 64, fun _ hsending => nomatch hsending⟩, Nat.zero_le _, numWorkers.2,
    lt_min prefetchSize.2 numWorkers.2⟩

theorem counted_step (h : Counted K s) {a : WriteAct ι} (hs : s.step K a = some s') : Counted K s' := by
  obtain ⟨hworkers, hcapacity⟩ := pool_step hs
  exact ⟨inv_step h.inv hs, numbered_step h.numbered hs, submitted_step h.inv h.numbered h.submitted_le hs,
    hworkers ▸ h.workers, hcapacity ▸ h.capacity⟩

/-- The accounting does not depend on what is committed to. -/
theorem Counted.withTarget (h : Counted K s) (target : β) : Counted K { s with target } := by
  refine ⟨?_, ⟨h.numbered.sequence_lt, h.numbered.succ_lt⟩, h.submitted_le, h.workers, h.capacity⟩
  rcases h.inv with ⟨hl, hclean, hphase⟩ | hc
  · obtain ⟨ids, hout, hlen, ht⟩ := hl.tally
    exact .inl ⟨{ hl with tally := ⟨ids, hout, hlen, { ht with }⟩ }, hclean, hphase⟩
  · refine .inr ⟨hc.phase, hc.committed, fun he => ?_, hc.finished⟩
    obtain ⟨h₁, h₂, h₃, h₄⟩ := hc.settled he
    exact ⟨h₁, h₂, h₃, h₄⟩

/-! ### Progress -/

/-- Whoever waits for a result gets one: it is there, or it is made, or its job is started. -/
theorem Counted.exists_step (h : Counted K s) (hwant : s.wantsResult = true) :
    (s.step K .receive).isSome = true ∨ (s.step K (.complete 0)).isSome = true ∨
      (s.step K .start).isSome = true := by
  have hl := h.inv.ledger_of_wantsResult hwant
  have hout : 0 < s.inFlight := by
    rcases h.inv with ⟨-, -, hphase⟩ | hc
    · cases hp : s.phase <;> simp_all [wantsResult, PhaseOk]
    · rcases hc.phase with hp | ⟨r, hp⟩ <;> simp [wantsResult, hp] at hwant
  have hsize := hl.size_eq
  unfold Pool.size at hsize
  cases ho : s.pool.output with
  | cons r rest =>
      left
      simp only [step, hwant, if_true, Pool.recv, ho]
      split <;> rfl
  | nil =>
      cases hr : s.pool.running with
      | cons job rest => exact .inr (.inl (by simp [step, Pool.complete, hr, hl.isOpen, ho, h.capacity]))
      | nil =>
          cases hq : s.pool.queued with
          | cons job rest => exact .inr (.inr (by simp [step, Pool.start, hq, hr, h.workers]))
          | nil =>
              rw [ho, hr, hq] at hsize
              simp at hsize
              omega

/-- The work that the jobs and results of a pipeline still make. -/
def jobWeight (s : WritePipeline ι β) : ℕ :=
  3 * s.pool.queued.length + 2 * s.pool.running.length + s.pool.output.length

/-- The steps that the calling thread is away from its return. -/
def phaseWeight : WritePhase ι → ℕ
  | .crediting _ => 9
  | .enqueueing _ => 8
  | .ready => 4
  | .failed => 3
  | .finishing => 2
  | .draining => 2
  | .finished _ => 0
  | .abandoned => 0

def weight (s : WritePipeline ι β) : ℕ := phaseWeight s.phase + s.jobWeight

theorem jobWeight_raise (s : WritePipeline ι β) (e : CacheError) : (s.raise K e).jobWeight ≤ s.jobWeight := by
  unfold raise
  cases s.phase <;> simp [jobWeight, abandon, Pool.close]

theorem phaseWeight_raise (s : WritePipeline ι β) (e : CacheError) :
    phaseWeight (s.raise K e).phase ≤ 3 ∧
      (s.wantsResult = true → phaseWeight (s.raise K e).phase < phaseWeight s.phase) := by
  unfold raise
  cases hp : s.phase <;> simp [phaseWeight, wantsResult, hp, abandon]

theorem jobWeight_received {result : CacheResult (Message ι)} {pool : Pool (Message ι) (CacheResult (Message ι))}
    (hrecv : s.pool.recv = some (result, pool)) (hpool : t.pool = pool) : t.jobWeight + 1 = s.jobWeight := by
  obtain ⟨rest, hout, rfl⟩ := Pool.recv_eq_some hrecv
  simp only [jobWeight, hpool, hout, List.length_cons]
  omega

theorem weight_send (hphase : s.phase = .ready) (item : ι) : (s.send K item).weight ≤ s.weight + 5 := by
  unfold send
  split_ifs
  · have hjob := jobWeight_raise (K := K) s K.overflowed
    have hph := (phaseWeight_raise (K := K) s K.overflowed).1
    unfold weight
    omega
  · simp only [weight, hphase, phaseWeight, jobWeight]
    omega
  · simp only [weight, hphase, phaseWeight, jobWeight]
    omega

theorem weight_enqueued {message : Message ι} (hphase : s.phase = .enqueueing message) :
    (s.enqueued K message).weight < s.weight := by
  have hsubmit : ∀ phase, ({ s with
      pool := s.pool.submit message
      inFlight := s.inFlight + 1
      submitted := s.submitted ++ [message.item]
      phase } : WritePipeline ι β).jobWeight = s.jobWeight + 3 := by
    intro phase
    simp only [jobWeight, Pool.submit, List.length_append, List.length_singleton]
    omega
  unfold enqueued
  cases checkedAdd s.sequence 1 with
  | none =>
      have hjob := (jobWeight_raise (K := K) { s with
        pool := s.pool.submit message
        inFlight := s.inFlight + 1
        submitted := s.submitted ++ [message.item] } K.overflowed).trans_eq (hsubmit s.phase)
      have hph := (phaseWeight_raise (K := K) { s with
        pool := s.pool.submit message
        inFlight := s.inFlight + 1
        submitted := s.submitted ++ [message.item] } K.overflowed).1
      simp only [weight, hphase, phaseWeight] at hjob hph ⊢
      omega
  | some n =>
      simp only [weight, hphase, phaseWeight, jobWeight, Pool.submit, List.length_append, List.length_singleton]
      omega

theorem weight_received {result : CacheResult (Message ι)} {pool : Pool (Message ι) (CacheResult (Message ι))}
    {outcome : CacheResult Unit} (hrecv : s.pool.recv = some (result, pool))
    (hone : completeOne K { s with pool } result = (t, outcome)) : t.phase = s.phase ∧ t.jobWeight + 1 = s.jobWeight := by
  have hpool := (buffered_completeOne (K := K) { s with pool } result).2
  have hframe := completeOne_sent (K := K) { s with pool } result
  rw [hone] at hpool hframe
  exact ⟨hframe.1, jobWeight_received hrecv hpool⟩

theorem weight_closed (hphase : s.phase = .finishing) : (s.close K).weight < s.weight := by
  unfold close
  split_ifs
  · simp only [weight, raise, hphase, abandon, phaseWeight, jobWeight, Pool.close, List.length_nil]
    omega
  · cases hf : (K.finish s.target).2 with
    | error e =>
        simp only [hf, weight, raise, hphase, abandon, phaseWeight, jobWeight, Pool.close, List.length_nil]
        omega
    | ok u =>
        simp only [hf, weight, hphase, phaseWeight, jobWeight, Pool.close, List.length_nil]
        omega

theorem weight_complete {i : ℕ} {pool : Pool (Message ι) (CacheResult (Message ι))}
    (hpool : s.pool.complete .ok i = some pool) : ({ s with pool } : WritePipeline ι β).weight < s.weight := by
  obtain ⟨job, hjob, ⟨-, -, rfl⟩ | ⟨-, rfl⟩⟩ := Pool.complete_eq_some hpool
  all_goals
    have hlen : (s.pool.running.eraseIdx i).length + 1 = s.pool.running.length := by
      obtain ⟨hi, -⟩ := List.getElem?_eq_some_iff.mp hjob
      rw [List.length_eraseIdx_of_lt hi]
      omega
    simp only [weight, jobWeight, List.length_append, List.length_singleton]
    omega

/-- Every step but a new submission brings the pipeline nearer to its end. -/
theorem weight_step {a : WriteAct ι} (hs : s.step K a = some s') :
    s'.weight < s.weight ∨ (∃ item, a = .submit item) ∧ s.phase = .ready ∧ s'.weight ≤ s.weight + 5 := by
  cases moves_of_step hs with
  | send item hphase => exact .inr ⟨⟨item, rfl⟩, hphase, weight_send hphase item⟩
  | enqueued hphase => exact .inl (weight_enqueued hphase)
  | refused hphase =>
      left
      have hjob := jobWeight_raise (K := K) s .workerFailed
      have hph := (phaseWeight_raise (K := K) s .workerFailed).1
      have hnow : phaseWeight s.phase = 8 := by rw [hphase]; rfl
      unfold weight
      omega
  | @received result pool t hwant hrecv hone =>
      left
      obtain ⟨hsame, hjobs⟩ := weight_received hrecv hone
      have hphase : phaseWeight (credited t.phase) ≤ phaseWeight s.phase := by
        rw [hsame]
        cases s.phase <;> simp [credited, phaseWeight]
      show phaseWeight (credited t.phase) + t.jobWeight < s.weight
      unfold weight
      omega
  | @broken result pool t e hwant hrecv hone =>
      left
      obtain ⟨hsame, hjobs⟩ := weight_received hrecv hone
      have hjob := jobWeight_raise (K := K) t e
      have hphase : phaseWeight (t.raise K e).phase ≤ phaseWeight s.phase := by
        cases hp : s.phase <;> simp_all [phaseWeight, wantsResult, raise, abandon]
      unfold weight
      omega
  | interrupted e hwant hrecv =>
      left
      have hjob := jobWeight_raise (K := K) s e
      have hph := (phaseWeight_raise (K := K) s e).2 hwant
      simp only [weight]
      omega
  | finish hphase =>
      left
      simp [weight, hphase, phaseWeight, jobWeight]
  | finishIncomplete hphase =>
      left
      rcases hphase with hphase | hphase <;> simp [weight, hphase, phaseWeight, jobWeight]
  | closed hphase hout => exact .inl (weight_closed hphase)
  | drained hphase hout =>
      left
      simp only [weight, hphase, abandon, phaseWeight, jobWeight, Pool.close, List.length_nil]
      omega
  | dropped hphase =>
      left
      rcases hphase with hphase | hphase <;>
        simp only [weight, hphase, abandon, phaseWeight, jobWeight, Pool.close, List.length_nil] <;> omega
  | start hpool =>
      left
      obtain ⟨job, rest, hq, -, rfl⟩ := Pool.start_eq_some hpool
      simp only [weight, jobWeight, hq, List.length_append, List.length_cons, List.length_nil]
      omega
  | complete hpool => exact .inl (weight_complete hpool)

end WritePipeline

end DatasetRt
