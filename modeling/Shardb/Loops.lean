import Mathlib.Data.Nat.Basic
import Mathlib.Logic.Relation

/-!
# Loops of an imperative program

`loop` is a `while` loop that may go on, leave with a result or fail, run with a
bound on its passes; `forLoop` is a counting loop that a pass may leave early.
A loop is understood through what one pass preserves (`loop_ok`, `forLoop_ok`)
and through a measure that every pass lowers (`loop_total`, `loop_reached`).
-/

namespace Shardb.Loops

variable {σ α ε : Type}

/-- What a step that came to an end has computed on the way. -/
theorem bind_eq_ok {x : Except ε σ} {f : σ → Except ε α} {b : α} :
    (x >>= f) = .ok b ↔ ∃ a, x = .ok a ∧ f a = .ok b := by
  cases x with
  | error e => exact ⟨by rintro ⟨⟩, by rintro ⟨_, ⟨⟩, _⟩⟩
  | ok a => exact ⟨fun run => ⟨a, rfl, run⟩, by rintro ⟨_, ⟨⟩, run⟩; exact run⟩

/-- Where a step fails. -/
theorem bind_eq_error {x : Except ε σ} {f : σ → Except ε α} {e : ε} :
    (x >>= f) = .error e ↔ x = .error e ∨ ∃ a, x = .ok a ∧ f a = .error e := by
  cases x with
  | error e' =>
    show Except.error e' = Except.error e ↔ _
    simp
  | ok a =>
    show f a = .error e ↔ _
    simp

/-- At most `fuel` passes of `pass`, which goes on with a new state (`.inl`),
    leaves the loop with a result (`.inr`) or fails. A loop whose passes are
    used up before it leaves reports `dry`. -/
def loop (dry : ε) (pass : σ → Except ε (σ ⊕ α)) : Nat → σ → Except ε α
  | 0, _ => .error dry
  | fuel + 1, s =>
    match pass s with
    | .error e => .error e
    | .ok (.inl next) => loop dry pass fuel next
    | .ok (.inr result) => .ok result

/-- What every pass keeps until it leaves holds of the result. -/
theorem loop_ok {dry : ε} {pass : σ → Except ε (σ ⊕ α)} (Inv : σ → Prop) (Post : α → Prop)
    (goes : ∀ s next, Inv s → pass s = .ok (.inl next) → Inv next)
    (leaves : ∀ s result, Inv s → pass s = .ok (.inr result) → Post result) :
    ∀ {fuel : Nat} {s : σ} {result : α}, Inv s → loop dry pass fuel s = .ok result → Post result := by
  intro fuel
  induction fuel with
  | zero => intro s result _ run; simp [loop] at run
  | succ fuel ih =>
    intro s result inv run
    rw [loop] at run
    cases once : pass s with
    | error e => simp [once] at run
    | ok outcome =>
      cases outcome with
      | inl next =>
        simp only [once] at run
        exact ih (goes s next inv once) run
      | inr last =>
        simp only [once, Except.ok.injEq] at run
        exact run ▸ leaves s last inv once

/-- A loop that left within a bound leaves the same way within a larger one. -/
theorem loop_more {dry : ε} {pass : σ → Except ε (σ ⊕ α)} :
    ∀ {fuel more : Nat} {s : σ} {result : α}, fuel ≤ more → loop dry pass fuel s = .ok result →
      loop dry pass more s = .ok result := by
  intro fuel
  induction fuel with
  | zero => intro more s result _ run; simp [loop] at run
  | succ fuel ih =>
    intro more s result bound run
    obtain ⟨more, rfl⟩ := Nat.exists_eq_add_of_le' (show 1 ≤ more by omega)
    rw [loop] at run ⊢
    cases once : pass s with
    | error e => simp [once] at run
    | ok outcome =>
      cases outcome with
      | inl next =>
        simp only [once] at run ⊢
        exact ih (by omega) run
      | inr last =>
        simp only [once] at run ⊢
        exact run

/-- A loop whose every pass leaves, or goes on with a smaller measure, leaves
    when the bound exceeds the measure. -/
theorem loop_total {dry : ε} {pass : σ → Except ε (σ ⊕ α)} (Inv : σ → Prop) {Post : α → Prop} (measure : σ → Nat)
    (progress : ∀ s, Inv s →
      (∃ next, pass s = .ok (.inl next) ∧ Inv next ∧ measure next < measure s) ∨
      ∃ result, pass s = .ok (.inr result) ∧ Post result) :
    ∀ {fuel : Nat} {s : σ}, Inv s → measure s < fuel →
      ∃ result, loop dry pass fuel s = .ok result ∧ Post result := by
  intro fuel
  induction fuel with
  | zero => intro s _ bound; omega
  | succ fuel ih =>
    intro s inv bound
    rcases progress s inv with ⟨next, once, kept, smaller⟩ | ⟨result, once, post⟩
    · obtain ⟨result, run, post⟩ := ih kept (by omega)
      exact ⟨result, by rw [loop, once]; exact run, post⟩
    · exact ⟨result, by rw [loop, once], post⟩

/-- Passes that lower a measure are not used up, whether or not one of them fails. -/
theorem loop_finishes {dry : ε} {pass : σ → Except ε (σ ⊕ α)} (measure : σ → Nat)
    (lowers : ∀ s next, pass s = .ok (.inl next) → measure next < measure s) (fails : ∀ s, pass s ≠ .error dry) :
    ∀ {fuel : Nat} {s : σ}, measure s < fuel → loop dry pass fuel s ≠ .error dry := by
  intro fuel
  induction fuel with
  | zero => intro s bound; omega
  | succ fuel ih =>
    intro s bound
    rw [loop]
    cases once : pass s with
    | error e =>
      simp only [ne_eq, Except.error.injEq]
      rintro rfl
      exact fails s once
    | ok outcome =>
      cases outcome with
      | inl next => exact ih (by have := lowers s next once; omega)
      | inr result => simp

/-- The states in which the passes of a loop begin. -/
def Reaches (pass : σ → Except ε (σ ⊕ α)) : σ → σ → Prop :=
  Relation.ReflTransGen fun s t => pass s = .ok (.inl t)

/-- A pass that fails ends the loop with its error, when passes that lower a measure lead there. -/
theorem loop_reached {dry : ε} {pass : σ → Except ε (σ ⊕ α)} (measure : σ → Nat)
    (lowers : ∀ s next, pass s = .ok (.inl next) → measure next < measure s) {s t : σ} {e : ε}
    (reached : Reaches pass s t) (fails : pass t = .error e) :
    ∀ {fuel : Nat}, measure s < fuel → loop dry pass fuel s = .error e := by
  induction reached using Relation.ReflTransGen.head_induction_on with
  | refl =>
    intro fuel bound
    obtain ⟨fuel, rfl⟩ := Nat.exists_eq_add_of_le' (show 1 ≤ fuel by omega)
    rw [loop, fails]
  | @head s next once _ ih =>
    intro fuel bound
    obtain ⟨fuel, rfl⟩ := Nat.exists_eq_add_of_le' (show 1 ≤ fuel by omega)
    have smaller := lowers s next once
    rw [loop, once]
    exact ih (by omega)

/-- A loop whose passes were enough fails with what one of them fails with. -/
theorem loop_error {dry : ε} {pass : σ → Except ε (σ ⊕ α)} {e : ε} (other : e ≠ dry) :
    ∀ {fuel : Nat} {s : σ}, loop dry pass fuel s = .error e → ∃ t, Reaches pass s t ∧ pass t = .error e := by
  intro fuel
  induction fuel with
  | zero =>
    intro s run
    rw [loop, Except.error.injEq] at run
    exact absurd run.symm other
  | succ fuel ih =>
    intro s run
    rw [loop] at run
    cases once : pass s with
    | error e' =>
      simp only [once, Except.error.injEq] at run
      exact ⟨s, .refl, run ▸ once⟩
    | ok outcome =>
      cases outcome with
      | inl next =>
        simp only [once] at run
        obtain ⟨t, reached, fails⟩ := ih run
        exact ⟨t, .head once reached, fails⟩
      | inr result => simp [once] at run

/-- `count` passes with the index going up from `i`; a pass goes on with a new
    state (`.inl`), leaves the loop with a result (`.inr`) or fails. -/
def forLoop (pass : Nat → σ → Except ε (σ ⊕ α)) : Nat → Nat → σ → Except ε (σ ⊕ α)
  | 0, _, s => .ok (.inl s)
  | count + 1, i, s =>
    match pass i s with
    | .error e => .error e
    | .ok (.inl next) => forLoop pass count (i + 1) next
    | .ok (.inr result) => .ok (.inr result)

/-- What every pass keeps holds at the end, and a pass that leaves early
    decides what holds then. -/
theorem forLoop_ok {pass : Nat → σ → Except ε (σ ⊕ α)} {n : Nat} (Inv : Nat → σ → Prop) (Post : α → Prop)
    (goes : ∀ i s next, i < n → Inv i s → pass i s = .ok (.inl next) → Inv (i + 1) next)
    (leaves : ∀ i s result, i < n → Inv i s → pass i s = .ok (.inr result) → Post result) :
    ∀ {count i : Nat} {s : σ}, i + count = n → Inv i s →
      ∀ {outcome : σ ⊕ α}, forLoop pass count i s = .ok outcome →
        (∀ last, outcome = .inl last → Inv n last) ∧ ∀ result, outcome = .inr result → Post result := by
  intro count
  induction count with
  | zero =>
    intro i s bound inv outcome run
    simp only [forLoop, Except.ok.injEq] at run
    subst run
    constructor
    · rintro last ⟨⟩
      rw [← bound]
      exact inv
    · intro result bad; cases bad
  | succ count ih =>
    intro i s bound inv outcome run
    rw [forLoop] at run
    cases once : pass i s with
    | error e => simp [once] at run
    | ok first =>
      cases first with
      | inl next =>
        simp only [once] at run
        exact ih (by omega) (goes i s next (by omega) inv once) run
      | inr early =>
        simp only [once, Except.ok.injEq] at run
        subst run
        constructor
        · intro last bad; cases bad
        · rintro result ⟨⟩
          exact leaves i s early (by omega) inv once

/-- A counting loop whose passes all go on reaches its end. -/
theorem forLoop_total (pass : Nat → σ → Except ε (σ ⊕ α)) {n : Nat} (Inv : Nat → σ → Prop)
    (goes : ∀ i s, i < n → Inv i s → ∃ next, pass i s = .ok (.inl next) ∧ Inv (i + 1) next) :
    ∀ {count i : Nat} {s : σ}, i + count = n → Inv i s →
      ∃ last, forLoop pass count i s = .ok (.inl last) ∧ Inv n last := by
  intro count
  induction count with
  | zero => intro i s bound inv; exact ⟨s, rfl, by rw [← bound]; exact inv⟩
  | succ count ih =>
    intro i s bound inv
    obtain ⟨next, once, kept⟩ := goes i s (by omega) inv
    obtain ⟨last, run, final⟩ := ih (by omega) kept
    exact ⟨last, by rw [forLoop, once]; exact run, final⟩

/-- A counting loop whose passes never fail does not fail. -/
theorem forLoop_returns (pass : Nat → σ → Except ε (σ ⊕ α)) (answers : ∀ i s, ∃ outcome, pass i s = .ok outcome) :
    ∀ (count i : Nat) (s : σ), ∃ outcome, forLoop pass count i s = .ok outcome := by
  intro count
  induction count with
  | zero => intro i s; exact ⟨_, rfl⟩
  | succ count ih =>
    intro i s
    obtain ⟨first, once⟩ := answers i s
    rw [forLoop, once]
    cases first with
    | inl next => exact ih (i + 1) next
    | inr early => exact ⟨_, rfl⟩

/-- What a step comes to: a value with the one property or an error with the other. -/
def Yields (Post : σ → Prop) (Err : ε → Prop) : Except ε σ → Prop
  | .ok s => Post s
  | .error e => Err e

theorem Yields.mono {Post Post' : σ → Prop} {Err Err' : ε → Prop} {x : Except ε σ} (yields : Yields Post Err x)
    (post : ∀ s, Post s → Post' s) (err : ∀ e, Err e → Err' e) : Yields Post' Err' x := by
  cases x with
  | error e => exact err e yields
  | ok s => exact post s yields

theorem Yields.bind {Mid : σ → Prop} {Post : α → Prop} {Err : ε → Prop} {x : Except ε σ} {f : σ → Except ε α}
    (first : Yields Mid Err x) (second : ∀ s, Mid s → Yields Post Err (f s)) : Yields Post Err (x >>= f) := by
  cases x with
  | error e => exact first
  | ok s => exact second s first

/-- What each pass over a list keeps, of the elements to come and of the state,
    holds at the end, unless a pass fails. -/
theorem foldlM_yields {f : σ → α → Except ε σ} (Inv : List α → σ → Prop) {Err : ε → Prop}
    (goes : ∀ a rest s, Inv (a :: rest) s → Yields (Inv rest) Err (f s a)) :
    ∀ {l : List α} {s : σ}, Inv l s → Yields (Inv []) Err (l.foldlM f s) := by
  intro l
  induction l with
  | nil => exact fun inv => inv
  | cons a rest ih =>
    intro s inv
    rw [List.foldlM_cons]
    exact (goes a rest s inv).bind fun next kept => ih kept

theorem foldlM_ok {f : σ → α → Except ε σ} (Inv : List α → σ → Prop)
    (goes : ∀ a rest s next, Inv (a :: rest) s → f s a = .ok next → Inv rest next) {l : List α} {s last : σ}
    (inv : Inv l s) (run : l.foldlM f s = .ok last) : Inv [] last := by
  have yields : Yields (Inv []) (fun _ => True) (l.foldlM f s) := by
    refine foldlM_yields Inv (fun a rest s inv => ?_) inv
    cases once : f s a with
    | error e => trivial
    | ok next => exact goes a rest s next inv once
  rw [run] at yields
  exact yields

/-- When every pass succeeds and keeps the invariant, all of them do. -/
theorem foldlM_goes {f : σ → α → Except ε σ} (Inv : List α → σ → Prop)
    (goes : ∀ a rest s, Inv (a :: rest) s → ∃ next, f s a = .ok next ∧ Inv rest next) {l : List α} {s : σ} (inv : Inv l s) :
    ∃ last, l.foldlM f s = .ok last ∧ Inv [] last := by
  have yields : Yields (Inv []) (fun _ => False) (l.foldlM f s) := by
    refine foldlM_yields Inv (fun a rest s inv => ?_) inv
    obtain ⟨next, once, kept⟩ := goes a rest s inv
    rw [once]
    exact kept
  cases run : l.foldlM f s with
  | error e =>
    rw [run] at yields
    exact yields.elim
  | ok last =>
    rw [run] at yields
    exact ⟨last, rfl, yields⟩

/-- One pass over a list fails first, and those before it succeed. -/
theorem foldlM_error {f : σ → α → Except ε σ} {e : ε} : ∀ {l : List α} {s : σ}, l.foldlM f s = .error e →
    ∃ before a after t, l = before ++ a :: after ∧ before.foldlM f s = .ok t ∧ f t a = .error e := by
  intro l
  induction l with
  | nil => intro s run; cases run
  | cons a l ih =>
    intro s run
    rw [List.foldlM_cons] at run
    cases once : f s a with
    | error e' =>
      rw [once] at run
      cases run
      exact ⟨[], a, l, s, rfl, rfl, once⟩
    | ok next =>
      rw [once] at run
      obtain ⟨before, b, after, t, rfl, run, fails⟩ := ih run
      refine ⟨a :: before, b, after, t, rfl, ?_, fails⟩
      rw [List.foldlM_cons, once]
      exact run

/-- A loop in a loop is one over the pairs. -/
theorem foldlM_pairs {β : Type} (f : σ → α → β → Except ε σ) (bs : List β) (l : List α) (s : σ) :
    l.foldlM (fun s a => bs.foldlM (fun s b => f s a b) s) s =
      (l.flatMap fun a => bs.map fun b => (a, b)).foldlM (fun s p => f s p.1 p.2) s := by
  induction l generalizing s with
  | nil => rfl
  | cons a l ih =>
    rw [List.flatMap_cons, List.foldlM_append, List.foldlM_map, List.foldlM_cons]
    exact bind_congr fun s => ih s

/-- A loop that checks each element. -/
theorem forM_ok {f : α → Except ε PUnit} {l : List α} : l.forM f = .ok ⟨⟩ ↔ ∀ a ∈ l, f a = .ok ⟨⟩ := by
  induction l with
  | nil => exact ⟨fun _ a member => absurd member List.not_mem_nil, fun _ => rfl⟩
  | cons a l ih =>
    rw [List.forall_mem_cons, ← ih]
    show (f a >>= fun _ => l.forM f) = _ ↔ _
    cases f a with
    | error e => exact ⟨(by cases ·), (by cases ·.1)⟩
    | ok u => exact ⟨fun rest => ⟨rfl, rest⟩, fun both => both.2⟩

end Shardb.Loops
