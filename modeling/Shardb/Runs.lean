import Mathlib.Data.List.Basic

/-!
# Runs of a labelled step relation

A run is recorded with every step it takes, so that a law can speak of the
states and of the steps. `run_keeps` carries an invariant along the steps that
meet a condition, `run_holds` along all steps, and `run_keeps_iff` is for a law
that holds all along a run exactly when all steps meet the condition.
-/

namespace Shardb.Runs

variable {σ ι : Type}

/-- The runs from `start`: the steps taken, each with the states before and
    after it, and the last state. -/
inductive Run (step : σ → ι → σ → Prop) (start : σ) : List (σ × ι × σ) → σ → Prop
  | stay : Run step start [] start
  | next {trail : List (σ × ι × σ)} {s t : σ} {i : ι} (run : Run step start trail s) (taken : step s i t) :
      Run step start (trail ++ [(s, i, t)]) t

variable {step : σ → ι → σ → Prop} {start last : σ} {trail : List (σ × ι × σ)}

/-- Steps that meet a condition carry along an invariant of the run so far and
    the state it has reached. -/
theorem run_keeps (Inv : List (σ × ι × σ) → σ → Prop) (Fine : σ → ι → Prop)
    (keeps : ∀ trail s i t, Inv trail s → step s i t → Fine s i → Inv (trail ++ [(s, i, t)]) t) (holds : Inv [] start)
    (run : Run step start trail last) (fine : ∀ e ∈ trail, Fine e.1 e.2.1) : Inv trail last := by
  induction run with
  | stay => exact holds
  | next run taken ih =>
    have before := ih (fun e member => fine e (List.mem_append_left _ member))
    exact keeps _ _ _ _ before taken (fine _ (List.mem_append_right _ List.mem_cons_self))

/-- A run goes on where another ends. -/
theorem Run.append {rest : List (σ × ι × σ)} {final : σ} (run : Run step start trail last) (more : Run step last rest final) :
    Run step start (trail ++ rest) final := by
  induction more with
  | stay =>
    rw [List.append_nil]
    exact run
  | next _ taken ih =>
    rw [← List.append_assoc]
    exact ih.next taken

/-- A run up to one of its steps. -/
theorem Run.split {before after : List (σ × ι × σ)} {e : σ × ι × σ} (run : Run step start trail last)
    (split : trail = before ++ e :: after) : Run step start before e.1 ∧ step e.1 e.2.1 e.2.2 := by
  induction run generalizing after with
  | stay => simp at split
  | next run taken ih =>
    rcases List.eq_nil_or_concat after with rfl | ⟨rest, final, rfl⟩
    · obtain ⟨rfl, same⟩ := List.append_inj' split rfl
      obtain rfl := List.singleton_inj.mp same
      exact ⟨run, taken⟩
    · rw [List.concat_eq_append, ← List.cons_append, ← List.append_assoc] at split
      exact ih (List.append_inj' split rfl).1

/-- What every step keeps holds before all steps of a run. -/
theorem run_holds (Inv : σ → Prop) (keeps : ∀ s i t, Inv s → step s i t → Inv t) (holds : Inv start)
    (run : Run step start trail last) : ∀ e ∈ trail, Inv e.1 ∧ step e.1 e.2.1 e.2.2 := by
  refine (run_keeps (fun trail s => Inv s ∧ ∀ e ∈ trail, Inv e.1 ∧ step e.1 e.2.1 e.2.2) (fun _ _ => True) ?_
    ⟨holds, by simp⟩ run (fun _ _ => trivial)).2
  rintro trail s i t ⟨inv, before⟩ taken _
  exact ⟨keeps s i t inv taken, List.forall_mem_append.mpr ⟨before, List.forall_mem_singleton.mpr ⟨inv, taken⟩⟩⟩

/-- A law that the invariant implies holds in all states of a run exactly when
    every step meets the condition, if a step that does not breaks the law. -/
theorem run_keeps_iff (Inv : σ → Prop) (Fine : σ → ι → Prop) {Law : σ → Prop}
    (keeps : ∀ s i t, Inv s → step s i t → Fine s i → Inv t)
    (breaks : ∀ s i t, Inv s → step s i t → ¬ Fine s i → ¬ Law t) (implies : ∀ s, Inv s → Law s) (holds : Inv start)
    (run : Run step start trail last) :
    (Law start ∧ ∀ e ∈ trail, Law e.2.2) ↔ ∀ e ∈ trail, Fine e.1 e.2.1 := by
  suffices both : ((∀ e ∈ trail, Law e.2.2) ↔ ∀ e ∈ trail, Fine e.1 e.2.1) ∧
      ((∀ e ∈ trail, Fine e.1 e.2.1) → Inv last) by
    exact ⟨fun laws => both.1.mp laws.2, fun fine => ⟨implies _ holds, both.1.mpr fine⟩⟩
  induction run with
  | stay => exact ⟨by simp, fun _ => holds⟩
  | @next trail s t i run taken ih =>
    obtain ⟨same, kept⟩ := ih
    simp only [List.forall_mem_append, List.forall_mem_singleton]
    refine ⟨⟨?_, ?_⟩, ?_⟩
    · rintro ⟨laws, law⟩
      have fine := same.mp laws
      refine ⟨fine, ?_⟩
      by_contra rough
      exact breaks s i t (kept fine) taken rough law
    · rintro ⟨fine, last⟩
      exact ⟨same.mpr fine, implies _ (keeps s i t (kept fine) taken last)⟩
    · rintro ⟨fine, last⟩
      exact keeps s i t (kept fine) taken last

end Shardb.Runs
