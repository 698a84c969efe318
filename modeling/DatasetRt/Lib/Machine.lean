import Mathlib

/-! # Step machines

A concurrent component is modelled as a partial function `step : σ → α → Option σ`: an
action is either enabled in a state, and then leads to one state, or it is not.  All the
nondeterminism (which worker finishes, whether an operation fails) is in the choice of the
action, so a schedule is a list of actions and `run step s as` is the state it leads to.

* `run_invariant`: what every step preserves holds after every run.
* `run_invariant_of_guarded`: the same for the runs whose steps all meet a side condition.
* `run_length_le`: a measure that every step decreases bounds the length of every run.
* `run_simulation`: a machine each of whose steps another one does has its runs.
* `exists_run`: a machine with such a measure that can always go on until it is done gets there. -/

namespace DatasetRt.Machine

variable {σ α : Type*} (step : σ → α → Option σ)

/-- The state after a list of actions, if each of them is enabled when its turn comes. -/
def run : σ → List α → Option σ
  | s, [] => some s
  | s, a :: as => (step s a).bind fun s' => run s' as

/-- Every action of the run meets the side condition `ok` in the state it is taken in. -/
def Guarded (ok : σ → α → Prop) : σ → List α → Prop
  | _, [] => True
  | s, a :: as => ok s a ∧ ∀ s', step s a = some s' → Guarded ok s' as

@[simp] theorem run_nil (s : σ) : run step s [] = some s := rfl

theorem run_cons_of_step {s s₁ : σ} {a : α} (as : List α) (h : step s a = some s₁) :
    run step s (a :: as) = run step s₁ as := by
  simp [run, h]

theorem run_cons {s s' : σ} {a : α} {as : List α} (h : run step s (a :: as) = some s') :
    ∃ s₁, step s a = some s₁ ∧ run step s₁ as = some s' := by
  simpa [run, Option.bind_eq_some_iff] using h

theorem run_append {as bs : List α} : ∀ {s s₁ s₂ : σ}, run step s as = some s₁ →
    run step s₁ bs = some s₂ → run step s (as ++ bs) = some s₂ := by
  induction as with
  | nil =>
      intro s s₁ s₂ h₁ h₂
      obtain rfl : s = s₁ := by simpa using h₁
      exact h₂
  | cons a as ih =>
      intro s s₁ s₂ h₁ h₂
      obtain ⟨t, ht, hr⟩ := run_cons step h₁
      rw [List.cons_append, run_cons_of_step step _ ht]
      exact ih hr h₂

/-- **Invariant rule.** -/
theorem run_invariant {I : σ → Prop} (hstep : ∀ s a s', I s → step s a = some s' → I s') :
    ∀ {as : List α} {s s' : σ}, I s → run step s as = some s' → I s' := by
  intro as
  induction as with
  | nil =>
      intro s s' hs h
      obtain rfl : s = s' := by simpa using h
      exact hs
  | cons a as ih =>
      intro s s' hs h
      obtain ⟨t, ht, hr⟩ := run_cons step h
      exact ih (hstep s a t hs ht) hr

/-- **Simulation rule.**  What one step does is done by a run of the other machine, whose actions all meet `ok`. -/
theorem run_simulation {τ β : Type*} (step' : τ → β → Option τ) (R : σ → τ → Prop) (ok : β → Prop)
    (hstep : ∀ s a s' t, R s t → step s a = some s' → ∃ bs t', (∀ b ∈ bs, ok b) ∧ run step' t bs = some t' ∧ R s' t') :
    ∀ {as : List α} {s s' : σ} {t : τ}, R s t → run step s as = some s' →
      ∃ bs t', (∀ b ∈ bs, ok b) ∧ run step' t bs = some t' ∧ R s' t' := by
  intro as
  induction as with
  | nil =>
      intro s s' t hs h
      obtain rfl : s = s' := by simpa using h
      exact ⟨[], t, fun _ hb => (by cases hb), rfl, hs⟩
  | cons a as ih =>
      intro s s' t hs h
      obtain ⟨s₁, hfirst, hrest⟩ := run_cons step h
      obtain ⟨bs, t₁, hbs, hrun, hs₁⟩ := hstep s a s₁ t hs hfirst
      obtain ⟨cs, t', hcs, hrun', hs'⟩ := ih hs₁ hrest
      refine ⟨bs ++ cs, t', fun b hb => ?_, run_append step' hrun hrun', hs'⟩
      exact (List.mem_append.mp hb).elim (hbs b) (hcs b)

/-- **Invariant rule** for runs whose steps all meet `ok`. -/
theorem run_invariant_of_guarded {I : σ → Prop} {ok : σ → α → Prop}
    (hstep : ∀ s a s', I s → ok s a → step s a = some s' → I s') :
    ∀ {as : List α} {s s' : σ}, I s → Guarded step ok s as → run step s as = some s' → I s' := by
  intro as
  induction as with
  | nil =>
      intro s s' hs _ h
      obtain rfl : s = s' := by simpa using h
      exact hs
  | cons a as ih =>
      intro s s' hs hg h
      obtain ⟨t, ht, hr⟩ := run_cons step h
      exact ih (hstep s a t hs hg.1 ht) (hg.2 t ht) hr

theorem guarded_of_forall {ok : σ → α → Prop} : ∀ {as : List α} (s : σ),
    (∀ s, ∀ a ∈ as, ok s a) → Guarded step ok s as
  | [], _, _ => trivial
  | a :: _, s, h =>
      ⟨h s a List.mem_cons_self,
        fun s' _ => guarded_of_forall s' fun t b hb => h t b (List.mem_cons_of_mem _ hb)⟩

theorem forall_of_guarded {ok : α → Prop} : ∀ {as : List α} {s s' : σ}, Guarded step (fun _ => ok) s as →
    run step s as = some s' → ∀ a ∈ as, ok a
  | [], _, _, _, _, _, ha => (nomatch ha)
  | b :: as, s, s', hguard, hrun, a, ha => by
      obtain ⟨t, ht, hrest⟩ := run_cons step hrun
      rcases List.mem_cons.mp ha with rfl | ha
      · exact hguard.1
      · exact forall_of_guarded (hguard.2 t ht) hrest a ha

/-- **Termination rule** for runs whose steps all meet `ok`. -/
theorem run_length_le {I : σ → Prop} {ok : σ → α → Prop} (m : σ → ℕ)
    (hstep : ∀ s a s', I s → ok s a → step s a = some s' → I s' ∧ m s' < m s) :
    ∀ {as : List α} {s s' : σ}, I s → Guarded step ok s as → run step s as = some s' →
      as.length + m s' ≤ m s := by
  intro as
  induction as with
  | nil =>
      intro s s' _ _ h
      obtain rfl : s = s' := by simpa using h
      simp
  | cons a as ih =>
      intro s s' hs hg h
      obtain ⟨t, ht, hr⟩ := run_cons step h
      obtain ⟨hI, hlt⟩ := hstep s a t hs hg.1 ht
      have := ih hI (hg.2 t ht) hr
      simp only [List.length_cons]
      omega

theorem guarded_append {ok : σ → α → Prop} {bs : List α} : ∀ {as : List α} {s t : σ}, Guarded step ok s as →
    run step s as = some t → Guarded step ok t bs → Guarded step ok s (as ++ bs)
  | [], s, t, _, hrun, hbs => by
      obtain rfl : s = t := by simpa using hrun
      exact hbs
  | a :: as, s, t, has, hrun, hbs => by
      obtain ⟨s₁, hs, hrest⟩ := run_cons step hrun
      refine ⟨has.1, fun s₂ hs₂ => ?_⟩
      obtain rfl : s₁ = s₂ := Option.some.inj (hs.symm.trans hs₂)
      exact guarded_append (has.2 s₁ hs) hrest hbs

/-- **Progress rule.** -/
theorem exists_run {I done : σ → Prop} {ok : σ → α → Prop} (m : σ → ℕ)
    (hstep : ∀ s a s', I s → ok s a → step s a = some s' → I s' ∧ m s' < m s)
    (hnext : ∀ s, I s → ¬ done s → ∃ a, ok s a ∧ (step s a).isSome = true) {s : σ} (hs : I s) :
    ∃ as s', Guarded step ok s as ∧ run step s as = some s' ∧ done s' := by
  induction hm : m s using Nat.strong_induction_on generalizing s with
  | _ n ih =>
      by_cases hdone : done s
      · exact ⟨[], s, trivial, rfl, hdone⟩
      · obtain ⟨a, hok, hsome⟩ := hnext s hs hdone
        obtain ⟨t, ht⟩ := Option.isSome_iff_exists.mp hsome
        obtain ⟨hI, hlt⟩ := hstep s a t hs hok ht
        obtain ⟨as, s', hguard, hrun, hend⟩ := ih (m t) (hm ▸ hlt) hI rfl
        refine ⟨a :: as, s', ⟨hok, fun u hu => ?_⟩, ?_, hend⟩
        · obtain rfl : t = u := Option.some.inj (ht.symm.trans hu)
          exact hguard
        · rw [run_cons_of_step step _ ht]
          exact hrun

end DatasetRt.Machine
