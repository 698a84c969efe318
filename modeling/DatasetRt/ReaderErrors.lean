import DatasetRt.ReaderOrder

/-! # What a drained reader reports

`Drains … items` says that some schedule makes `next()` return `items` and then `None`.  An
error result carries no sequence number and is returned as soon as it is received, so the
error of any number in the open window can overtake the samples before it: `drains_iff` lists
exactly what can be reported.  `reported` is the sequence that does not depend on the
schedule, and `drains_reported_iff` says when the reader keeps to it. -/

namespace DatasetRt

namespace Reader

variable {R : RandLib} {σ : Type}

/-- The results up to and including the first error. -/
def untilError : List (CacheResult σ) → List (CacheResult σ)
  | [] => []
  | .ok v :: rest => .ok v :: untilError rest
  | .error e :: _ => [.error e]

section spec

variable (plan : EpochPlan R) (read : ℕ → ℕ → CacheResult σ) (prefetchSize numWorkers : Positive)

/-- What the first `n` planned reads give. -/
def outcomes (n : ℕ) : List (CacheResult σ) := (List.range n).map (outcome plan read)

/-- The planned samples in order, up to the first one that cannot be read. -/
def reported : List (CacheResult σ) := untilError (outcomes plan read plan.len)

/-- Neither refused nor given up. -/
def isDraining : ReaderAct → Bool
  | .schedule accepted => accepted
  | .drop => false
  | _ => true

/-- Some schedule drains the reader to `items`. -/
def Drains (items : List (CacheResult σ)) : Prop :=
  ∃ as s, (∀ a ∈ as, isDraining a = true) ∧
    Machine.run (step read) (begin plan prefetchSize numWorkers) as = some s ∧
    s.returned = items.map some ++ [none]

/-- Some accepted schedule leads from `s` to `t`. -/
def Leads (s t : Reader R σ) : Prop :=
  ∃ as, (∀ a ∈ as, isDraining a = true) ∧ Machine.run (step read) s as = some t

/-- The job of planned number `k`. -/
def jobAt (k : ℕ) : ReadJob := ⟨k, (plan.planned k).getD 0, false⟩

/-- The first `emitted` samples are out; of the jobs up to number `scheduled` the oldest
`running` ones have been started and the others are queued. -/
def inOrder (emitted running scheduled : ℕ) (phase : Phase) : Reader R σ :=
  { pool :=
      { workers := numWorkers.1
        capacity := parallelismOf plan prefetchSize numWorkers
        queued := (List.range' (emitted + running) (scheduled - emitted - running)).map (jobAt plan)
        running := (List.range' emitted running).map (jobAt plan)
        output := []
        isOpen := true }
    plan := plan.after scheduled
    cancelled := false
    pending := ∅
    parallelism := parallelismOf plan prefetchSize numWorkers
    scheduled
    emitted
    total := plan.len
    phase
    returned := delivered plan read emitted }

end spec

section leads

variable {read : ℕ → ℕ → CacheResult σ} {s t u : Reader R σ}

theorem Leads.refl (s : Reader R σ) : Leads read s s := ⟨[], by simp, rfl⟩

theorem Leads.trans (h₁ : Leads read s t) (h₂ : Leads read t u) : Leads read s u := by
  obtain ⟨as, ha, hr⟩ := h₁
  obtain ⟨bs, hb, hr'⟩ := h₂
  refine ⟨as ++ bs, ?_, Machine.run_append _ hr hr'⟩
  intro a hmem
  rcases List.mem_append.mp hmem with h | h
  · exact ha a h
  · exact hb a h

theorem Leads.single {a : ReaderAct} (ha : isDraining a = true) (hs : s.step read a = some t) :
    Leads read s t :=
  ⟨[a], by simpa using ha, by rw [Machine.run_cons_of_step _ _ hs]; rfl⟩

end leads

variable {plan : EpochPlan R} {read : ℕ → ℕ → CacheResult σ} {prefetchSize numWorkers : Positive}

theorem delivered_eq (n : ℕ) : delivered plan read n = (outcomes plan read n).map some := by
  simp [delivered, outcomes]

/-! ### Driving the reader in order -/

section driving

variable {e m : ℕ}

variable (read) in
theorem jobAt_result (hplan : plan.Total) {k : ℕ} (hk : k < plan.len) :
    jobResult read false (jobAt plan k) = (outcome plan read k).map (LoadedResult.mk k) := by
  obtain ⟨p, hp⟩ := Option.isSome_iff_exists.mp (hplan k hk)
  simp only [jobResult, jobAt, hp, Option.getD_some, outcome]
  cases read k p <;> simp [Except.map]

theorem inOrder_schedule (hplan : plan.Total) {phase : Phase}
    (hphase : phase = .starting ∨ phase = .scheduling) (hem : e ≤ m)
    (hwin : m - e < parallelismOf plan prefetchSize numWorkers) (hlt : m < plan.len) :
    Leads read (inOrder plan read prefetchSize numWorkers e 0 m phase)
      (inOrder plan read prefetchSize numWorkers e 0 (m + 1) phase) := by
  refine Leads.single (a := .schedule true) rfl ?_
  obtain ⟨p, hp⟩ := Option.isSome_iff_exists.mp (hplan m hlt)
  have hnext : ((plan.after m).nextPhysicalIndex m).1 = some p := hp
  have hn : m + 1 - e = (m - e) + 1 := by omega
  have hq : e + (m - e) = m := by omega
  simp only [step, inOrder, hphase, if_true, wantsJob, hem, hwin, hlt, and_self, decide_true,
    scheduleNext, hnext, Pool.submit, Option.some.injEq, Nat.sub_zero, Nat.add_zero]
  rw [hn, List.range'_concat, List.map_append]
  simp [jobAt, hq, hp, EpochPlan.after]

theorem inOrder_fill (hplan : plan.Total) {phase : Phase}
    (hphase : phase = .starting ∨ phase = .scheduling) :
    ∀ (n m : ℕ), e ≤ m → m + n ≤ plan.len →
      m + n ≤ e + parallelismOf plan prefetchSize numWorkers →
      Leads read (inOrder plan read prefetchSize numWorkers e 0 m phase)
        (inOrder plan read prefetchSize numWorkers e 0 (m + n) phase)
  | 0, m, _, _, _ => Leads.refl _
  | n + 1, m, hem, hle, hwin => by
      have h₁ : Leads read (inOrder plan read prefetchSize numWorkers e 0 m phase)
          (inOrder plan read prefetchSize numWorkers e 0 (m + 1) phase) :=
        inOrder_schedule hplan hphase hem (by omega) (by omega)
      have h₂ := inOrder_fill hplan hphase n (m + 1) (by omega) (by omega) (by omega)
      rw [show m + 1 + n = m + (n + 1) by omega] at h₂
      exact h₁.trans h₂

/-- The end of the window that opens at `e`. -/
def windowEnd (plan : EpochPlan R) (prefetchSize numWorkers : Positive) (e : ℕ) : ℕ :=
  min plan.len (e + parallelismOf plan prefetchSize numWorkers)

/-- The scheduling loop, entered with any part of the window filled, runs to its end. -/
theorem inOrder_scheduled (hplan : plan.Total) {phase : Phase}
    (hphase : phase = .starting ∨ phase = .scheduling) (hem : e ≤ m)
    (hm : m ≤ windowEnd plan prefetchSize numWorkers e) :
    Leads read (inOrder plan read prefetchSize numWorkers e 0 m phase)
      (inOrder plan read prefetchSize numWorkers e 0 (windowEnd plan prefetchSize numWorkers e)
        (if phase = .starting then .idle else .receiving)) := by
  have hfill : Leads read (inOrder plan read prefetchSize numWorkers e 0 m phase)
      (inOrder plan read prefetchSize numWorkers e 0 (m + (windowEnd plan prefetchSize numWorkers e - m)) phase) :=
    inOrder_fill hplan hphase _ m hem (by unfold windowEnd at *; omega) (by unfold windowEnd at *; omega)
  rw [Nat.add_sub_cancel' hm] at hfill
  refine hfill.trans (Leads.single (a := .scheduleDone) rfl ?_)
  have hstop : ¬ (windowEnd plan prefetchSize numWorkers e - e <
      parallelismOf plan prefetchSize numWorkers ∧
        windowEnd plan prefetchSize numWorkers e < plan.len) := by
    unfold windowEnd
    omega
  simp [step, inOrder, hphase, wantsJob, hem.trans hm, hstop]

theorem inOrder_start {r : ℕ} {phase : Phase} (hr : r < m - e) (hw : r < numWorkers.1) :
    Leads read (inOrder plan read prefetchSize numWorkers e r m phase)
      (inOrder plan read prefetchSize numWorkers e (r + 1) m phase) := by
  refine Leads.single (a := .start) rfl ?_
  have hq : List.range' (e + r) (m - e - r) =
      (e + r) :: List.range' (e + (r + 1)) (m - e - (r + 1)) := by
    rw [show m - e - r = (m - e - (r + 1)) + 1 by omega, List.range'_succ, Nat.add_assoc]
  have hrun : List.range' e (r + 1) = List.range' e r ++ [e + r] := by
    rw [List.range'_concat]; simp
  simp [step, inOrder, Pool.start, hq, hrun, hw, jobAt]

theorem inOrder_starts {phase : Phase} :
    ∀ r : ℕ, r ≤ m - e → r ≤ numWorkers.1 →
      Leads read (inOrder plan read prefetchSize numWorkers e 0 m phase)
        (inOrder plan read prefetchSize numWorkers e r m phase)
  | 0, _, _ => Leads.refl _
  | r + 1, hr, hw =>
      (inOrder_starts r (by omega) (by omega)).trans (inOrder_start (by omega) (by omega))

theorem inOrder_call (hlen : e < plan.len) :
    Leads read (inOrder plan read prefetchSize numWorkers e 0 m .idle)
      (inOrder plan read prefetchSize numWorkers e 0 m .scheduling) := by
  refine Leads.single (a := .call) rfl ?_
  simp [step, inOrder, Nat.not_le.mpr hlen]

/-- With the window open, the awaited sample is read and returned. -/
theorem inOrder_emit (hplan : plan.Total) (hlen : e < plan.len) (hem : e < m)
    (hcap : 0 < parallelismOf plan prefetchSize numWorkers) {v : σ}
    (hv : outcome plan read e = .ok v) :
    Leads read (inOrder plan read prefetchSize numWorkers e 0 m .receiving)
      (inOrder plan read prefetchSize numWorkers (e + 1) 0 m .idle) := by
  have hstart : Leads read (inOrder plan read prefetchSize numWorkers e 0 m .receiving)
      (inOrder plan read prefetchSize numWorkers e 1 m .receiving) :=
    inOrder_starts 1 (by omega) numWorkers.2
  refine hstart.trans ?_
  have hres := jobAt_result read hplan hlen
  rw [hv] at hres
  refine ⟨[.complete 0, .receive], by simp [isDraining], ?_⟩
  simp [Machine.run, step, inOrder, Pool.complete, Pool.recv, hcap, hres, Except.map,
    receiveResult, emitSample, delivered_succ hv, Nat.sub_sub]

/-- With the window open, an error anywhere in it is returned first. -/
theorem inOrder_fail (hplan : plan.Total) {j : ℕ} (hj : j < plan.len) (hej : e ≤ j) (hjm : j < m)
    (hwin : j < e + parallelismOf plan prefetchSize numWorkers) {error : CacheError}
    (herr : outcome plan read j = .error error) :
    ∃ s, Leads read (inOrder plan read prefetchSize numWorkers e 0 m .receiving) s ∧
      s.phase = .idle ∧ s.total ≤ s.emitted ∧
      s.returned = delivered plan read e ++ [some (.error error)] := by
  have hw : j - e + 1 ≤ numWorkers.1 := by
    have : parallelismOf plan prefetchSize numWorkers ≤ numWorkers.1 := by
      unfold parallelismOf; omega
    omega
  have hstart : Leads read (inOrder plan read prefetchSize numWorkers e 0 m .receiving)
      (inOrder plan read prefetchSize numWorkers e (j - e + 1) m .receiving) :=
    inOrder_starts (j - e + 1) (by omega) hw
  have hres := jobAt_result read hplan hj
  rw [herr] at hres
  have hcap : 0 < parallelismOf plan prefetchSize numWorkers := by omega
  let t : Reader R σ := inOrder plan read prefetchSize numWorkers e (j - e + 1) m .receiving
  let pool := { t.pool with running := t.pool.running.eraseIdx (j - e) }
  refine ⟨{ t with pool }.fail error,
    hstart.trans ⟨[.complete (j - e), .receive], by simp [isDraining], ?_⟩, rfl, le_refl _, rfl⟩
  simp [Machine.run, step, t, pool, inOrder, Pool.complete, Pool.recv, hcap,
    Nat.add_sub_cancel' hej, hres, Except.map, receiveResult]

theorem inOrder_next (hplan : plan.Total) (hlen : e < plan.len) (hem : e ≤ m)
    (hm : m ≤ windowEnd plan prefetchSize numWorkers e) {v : σ}
    (hv : outcome plan read e = .ok v) :
    Leads read (inOrder plan read prefetchSize numWorkers e 0 m .idle)
      (inOrder plan read prefetchSize numWorkers (e + 1) 0
        (windowEnd plan prefetchSize numWorkers e) .idle) := by
  have hcap : 0 < parallelismOf plan prefetchSize numWorkers := parallelismOf_pos (by omega)
  have hend : e < windowEnd plan prefetchSize numWorkers e := by unfold windowEnd; omega
  exact ((inOrder_call hlen).trans (inOrder_scheduled hplan (.inr rfl) hem hm)).trans
    (inOrder_emit hplan hlen hend hcap hv)

variable (prefetchSize numWorkers) in
/-- The samples before the first failing one, one call after the other. -/
theorem begin_inOrder (hplan : plan.Total) :
    ∀ n : ℕ, n ≤ plan.len → ReadsOk plan read n →
      ∃ m, n ≤ m ∧ m ≤ windowEnd plan prefetchSize numWorkers n ∧
        Leads read (begin plan prefetchSize numWorkers)
          (inOrder plan read prefetchSize numWorkers n 0 m .idle)
  | 0, _, _ =>
      ⟨windowEnd plan prefetchSize numWorkers 0, Nat.zero_le _, le_refl _,
        inOrder_scheduled hplan (.inl rfl) (le_refl 0) (Nat.zero_le _)⟩
  | n + 1, hn, hok => by
      obtain ⟨m, hnm, hm, hlead⟩ := begin_inOrder hplan n (by omega) fun k hk => hok k (by omega)
      obtain ⟨v, hv⟩ := hok n (by omega)
      have hpos : 0 < parallelismOf plan prefetchSize numWorkers := parallelismOf_pos (by omega)
      refine ⟨windowEnd plan prefetchSize numWorkers n, ?_, ?_,
        hlead.trans (inOrder_next hplan (by omega) hnm hm hv)⟩
      · unfold windowEnd; omega
      · unfold windowEnd; omega

end driving

/-! ### What can be reported -/

theorem drains_of_leads {s : Reader R σ} {items : List (CacheResult σ)}
    (hlead : Leads read (begin plan prefetchSize numWorkers) s) (hphase : s.phase = .idle)
    (hdone : s.total ≤ s.emitted) (hret : s.returned = items.map some) :
    Drains plan read prefetchSize numWorkers items := by
  have hcall : Leads read s { s with returned := s.returned ++ [none] } :=
    Leads.single (a := .call) rfl (by simp [step, hphase, hdone])
  obtain ⟨as, hall, hrun⟩ := hlead.trans hcall
  exact ⟨as, _, hall, hrun, by simp [hret]⟩

theorem drains_outcomes (hplan : plan.Total) (hok : ReadsOk plan read plan.len) :
    Drains plan read prefetchSize numWorkers (outcomes plan read plan.len) := by
  obtain ⟨m, -, -, hlead⟩ := begin_inOrder prefetchSize numWorkers
    hplan plan.len (le_refl _) hok
  exact drains_of_leads hlead rfl (le_refl _) (delivered_eq _)

variable (read prefetchSize numWorkers) in
theorem drains_error (hplan : plan.Total) {n j : ℕ} {error : CacheError} (hok : ReadsOk plan read n)
    (hnj : n ≤ j) (hwin : j < n + parallelismOf plan prefetchSize numWorkers) (hj : j < plan.len)
    (herr : outcome plan read j = .error error) :
    Drains plan read prefetchSize numWorkers (outcomes plan read n ++ [.error error]) := by
  obtain ⟨m, hnm, hm, hlead⟩ := begin_inOrder prefetchSize numWorkers hplan n (by omega) hok
  have hcall : Leads read (inOrder plan read prefetchSize numWorkers n 0 m .idle)
      (inOrder plan read prefetchSize numWorkers n 0 m .scheduling) := inOrder_call (by omega)
  have hopen := hcall.trans (inOrder_scheduled hplan (.inr rfl) hnm hm)
  obtain ⟨s, hfail, hphase, hdone, hret⟩ := inOrder_fail hplan hj hnj
    (show j < windowEnd plan prefetchSize numWorkers n by unfold windowEnd; omega) hwin herr
  refine drains_of_leads ((hlead.trans hopen).trans hfail) hphase hdone ?_
  rw [hret, delivered_eq, List.map_append]
  rfl

theorem map_some_append_none {l l' : List (CacheResult σ)} {m : ℕ}
    (h : l.map some ++ List.replicate m none = l'.map some ++ [none]) : l = l' ∧ 0 < m := by
  have hl := congrArg (List.filterMap id) h
  have hm := congrArg List.length h
  simp only [List.filterMap_append, List.filterMap_map, Function.comp_def, id_eq,
    List.filterMap_some, List.filterMap_replicate_of_none, List.append_nil, List.filterMap_cons_none,
    List.filterMap_nil] at hl
  subst hl
  simp only [List.length_append, List.length_replicate, List.length_singleton] at hm
  exact ⟨rfl, by omega⟩

theorem drains_iff (hlen : 1 ≤ plan.len) (hplan : plan.Total) {items : List (CacheResult σ)} :
    Drains plan read prefetchSize numWorkers items ↔
      (ReadsOk plan read plan.len ∧ items = outcomes plan read plan.len) ∨
      ∃ n j e, ReadsOk plan read n ∧ n ≤ j ∧ j < n + parallelismOf plan prefetchSize numWorkers ∧
        j < plan.len ∧ outcome plan read j = .error e ∧
        items = outcomes plan read n ++ [.error e] := by
  constructor
  · rintro ⟨as, s, hall, hrun, hret⟩
    have hinv : Inv plan read prefetchSize numWorkers True s :=
      inv_run hlen (fun _ => hplan) (fun _ a ha hc => by have := hall a ha; rw [hc] at this; cases this)
        hrun
    have hshape := hinv.shape
    rw [hret] at hshape
    generalize hl : items.map some ++ [none] = returned at hshape
    cases hshape with
    | samples n m hok hle hm =>
        rw [delivered_eq] at hl
        obtain ⟨rfl, hpos⟩ := map_some_append_none hl.symm
        obtain rfl := hm hpos
        exact .inl ⟨hok, rfl⟩
    | failed n m e hok hcause =>
        have hl' : (outcomes plan read n ++ [Except.error e]).map some ++ List.replicate m none =
            items.map some ++ [none] := by
          rw [hl, delivered_eq]; simp
        obtain ⟨hitems, -⟩ := map_some_append_none hl'
        obtain ⟨j, hnj, hjw, hjl, herr⟩ := hcause trivial
        exact .inr ⟨n, j, e, hok, hnj, hjw, hjl, herr, hitems.symm⟩
  · rintro (⟨hok, rfl⟩ | ⟨n, j, e, hok, hnj, hwin, hj, herr, rfl⟩)
    · exact drains_outcomes hplan hok
    · exact drains_error read prefetchSize numWorkers hplan hok hnj hwin hj herr

theorem untilError_append {l r : List (CacheResult σ)} (h : ∀ x ∈ l, ∃ v, x = .ok v) :
    untilError (l ++ r) = l ++ untilError r := by
  induction l with
  | nil => rfl
  | cons x l ih =>
      obtain ⟨v, rfl⟩ := h x List.mem_cons_self
      rw [List.cons_append, untilError, ih fun y hy => h y (List.mem_cons_of_mem _ hy)]
      rfl

theorem outcomes_ok {n : ℕ} (hok : ReadsOk plan read n) :
    ∀ x ∈ outcomes plan read n, ∃ v, x = .ok v := by
  intro x hx
  obtain ⟨k, hk, rfl⟩ := List.mem_map.mp hx
  exact hok k (List.mem_range.mp hk)

theorem reported_of_reads (hok : ReadsOk plan read plan.len) :
    reported plan read = outcomes plan read plan.len := by
  have := untilError_append (r := []) (outcomes_ok hok)
  simpa [untilError, reported] using this

theorem reported_of_error {k : ℕ} {error : CacheError} (hok : ReadsOk plan read k)
    (hk : k < plan.len) (herr : outcome plan read k = .error error) :
    reported plan read = outcomes plan read k ++ [.error error] := by
  have hsplit : outcomes plan read plan.len =
      outcomes plan read k ++ .error error ::
        (List.range' (k + 1) (plan.len - (k + 1))).map (outcome plan read) := by
    have hrange : List.range plan.len =
        List.range k ++ k :: List.range' (k + 1) (plan.len - (k + 1)) := by
      have h := List.range'_append_1 (s := 0) (m := k) (n := plan.len - (k + 1) + 1)
      rw [show k + (plan.len - (k + 1) + 1) = plan.len by omega, Nat.zero_add,
        List.range'_succ] at h
      rw [List.range_eq_range', List.range_eq_range', h]
    simp [outcomes, hrange, herr]
  rw [reported, hsplit, untilError_append (outcomes_ok hok)]
  rfl

theorem exists_first_error (h : ¬ ReadsOk plan read plan.len) :
    ∃ k e, k < plan.len ∧ ReadsOk plan read k ∧ outcome plan read k = .error e := by
  have hex : ∃ k, k < plan.len ∧ ¬ ∃ v, outcome plan read k = .ok v := by
    simpa [ReadsOk] using h
  classical
  obtain ⟨hk, hne⟩ := Nat.find_spec hex
  refine ⟨Nat.find hex, ?_⟩
  cases ho : outcome plan read (Nat.find hex) with
  | ok v => exact absurd ⟨v, ho⟩ hne
  | error e =>
      refine ⟨e, hk, fun k hlt => ?_, rfl⟩
      by_contra hbad
      exact Nat.find_min hex hlt ⟨by omega, hbad⟩

/-- **Scheduling-independent reports.**  Draining the reader gives the planned samples up to
the first failing one, on every schedule, exactly when no planned read fails, or the window
holds one job, or the first planned read fails and every failing read of the first window
fails with the same error. -/
theorem drains_reported_iff (plan : EpochPlan R) (read : ℕ → ℕ → CacheResult σ)
    (prefetchSize numWorkers : Positive) (hlen : 1 ≤ plan.len) (hplan : plan.Total) :
    (∀ items, Drains plan read prefetchSize numWorkers items ↔ items = reported plan read) ↔
      (ReadsOk plan read plan.len ∨
        min (min numWorkers.1 prefetchSize.1) plan.len = 1 ∨
        ∃ e, outcome plan read 0 = .error e ∧
          ∀ j < min (min numWorkers.1 prefetchSize.1) plan.len, ∀ e',
            outcome plan read j = .error e' → e' = e) := by
  have hpos : 0 < parallelismOf plan prefetchSize numWorkers := parallelismOf_pos hlen
  have hle : parallelismOf plan prefetchSize numWorkers ≤ plan.len := Nat.min_le_right _ _
  constructor
  · intro hall
    by_cases hok : ReadsOk plan read plan.len
    · exact .inl hok
    obtain ⟨k, e, hk, hokk, herr⟩ := exists_first_error hok
    have hrep := reported_of_error hokk hk herr
    rcases Nat.eq_zero_or_pos k with rfl | hkpos
    · refine .inr (.inr ⟨e, herr, fun j hj e' he' => ?_⟩)
      have hd := drains_error read prefetchSize numWorkers hplan (n := 0) (j := j)
        (by simp [ReadsOk]) (Nat.zero_le _)
        (by rw [Nat.zero_add]; exact hj) (lt_of_lt_of_le hj hle) he'
      have := (hall _).mp hd
      rw [hrep] at this
      simpa using this
    · -- The error of `k` overtakes the sample before it as soon as two jobs are out.
      refine .inr (.inl ?_)
      by_contra hne
      have htwo : 2 ≤ parallelismOf plan prefetchSize numWorkers := by
        have : parallelismOf plan prefetchSize numWorkers ≠ 1 := hne
        omega
      have hd := drains_error read prefetchSize numWorkers hplan (n := k - 1) (j := k)
        (fun i hi => hokk i (by omega)) (by omega) (by omega) hk herr
      have := congrArg List.length ((hall _).mp hd)
      rw [hrep] at this
      simp only [outcomes, List.length_append, List.length_map, List.length_range,
        List.length_singleton] at this
      omega
  · intro hcond items
    rw [drains_iff hlen hplan]
    by_cases hok : ReadsOk plan read plan.len
    · rw [reported_of_reads hok]
      constructor
      · rintro (⟨-, h⟩ | ⟨n, j, e, -, -, -, hj, herr, -⟩)
        · exact h
        · obtain ⟨v, hv⟩ := hok j hj
          rw [hv] at herr; cases herr
      · exact fun h => .inl ⟨hok, h⟩
    · obtain ⟨k, e, hk, hokk, herr⟩ := exists_first_error hok
      rw [reported_of_error hokk hk herr]
      constructor
      · rintro (⟨hc, -⟩ | ⟨n, j, e', hokn, hnj, hwin, hj, herr', rfl⟩)
        · exact absurd hc hok
        rcases hcond with hc | hone | ⟨e₀, h₀, hsame⟩
        · exact absurd hc hok
        · -- One job at a time: the error is that of the awaited number.
          have hn : j = n := by
            have : parallelismOf plan prefetchSize numWorkers = 1 := hone
            omega
          subst hn
          have hjk : j = k := by
            rcases Nat.lt_trichotomy j k with h | h | h
            · obtain ⟨v, hv⟩ := hokk j h
              rw [hv] at herr'; cases herr'
            · exact h
            · obtain ⟨v, hv⟩ := hokn k h
              rw [hv] at herr; cases herr
          subst hjk
          rw [herr] at herr'
          cases herr'
          rfl
        · have hk0 : k = 0 := by
            by_contra hne
            obtain ⟨v, hv⟩ := hokk 0 (by omega)
            rw [hv] at h₀; cases h₀
          have hn0 : n = 0 := by
            by_contra hne
            obtain ⟨v, hv⟩ := hokn 0 (by omega)
            rw [hv] at h₀; cases h₀
          subst hk0 hn0
          rw [h₀] at herr
          cases herr
          rw [hsame j (by rw [Nat.zero_add] at hwin; exact hwin) e' herr']
      · exact fun h => .inr ⟨k, k, e, hokk, le_refl _, by omega, hk, herr, h⟩

/-- Of two samples the second cannot be read. -/
def secondFails (k p : ℕ) : CacheResult ℕ := if k = 1 then .error (.io "sample 1") else .ok p

/-- With one worker the window holds one job. -/
theorem drains_reported_one_worker :
    Drains twoSamples secondFails ⟨2, by decide⟩ ⟨1, by decide⟩ (reported twoSamples secondFails) := by
  have hplan : twoSamples.Total := by unfold EpochPlan.Total; decide
  exact ((drains_reported_iff twoSamples secondFails ⟨2, by decide⟩ ⟨1, by decide⟩ (by decide)
    hplan).mpr (.inr (.inl rfl)) _).mpr rfl

/-- With two workers the error of sample 1 is returned before sample 0, which is lost. -/
theorem error_overtakes_sample :
    Drains twoSamples secondFails ⟨2, by decide⟩ ⟨2, by decide⟩ [.error (.io "sample 1")] ∧
      [.error (.io "sample 1")] ≠ reported twoSamples secondFails := by
  let overtaken : List ReaderAct := [.schedule true, .schedule true, .scheduleDone, .call,
    .scheduleDone, .start, .start, .complete 1, .receive, .call]
  have h : (Machine.run (step secondFails) (begin twoSamples ⟨2, by decide⟩ ⟨2, by decide⟩)
      overtaken).map returned = some [some (.error (.io "sample 1")), none] := by rfl
  obtain ⟨s, hrun, hret⟩ := Option.map_eq_some_iff.mp h
  refine ⟨⟨overtaken, s, by decide, hrun, hret⟩, ?_⟩
  have hrep : reported twoSamples secondFails = [.ok 0, .error (.io "sample 1")] := by rfl
  rw [hrep]
  simp

end Reader

end DatasetRt
