import Mathlib.Logic.Function.Basic
import Shardb.Runs

/-!
# Threads over a shared state

A thread is a tree of calls: a call names an operation and goes on with the
reply. `Prog.run` is a thread alone, `Step` lets any thread make its next call on
the state they share. `separate` is for threads that work on parts of the state
of their own: each of them finds what it would find alone, as long as every call
meets a condition under which it respects the parts of the others.
-/

namespace Shardb.Threads
open Shardb.Runs

variable {Op ε α β σ ι : Type} {Rep : Op → Type}

/-- A thread that makes calls `op`, each answered with a `Rep op`, and comes to
    a result or to a fault. -/
inductive Prog {Op : Type} (Rep : Op → Type) (ε α : Type) where
  | ret (a : α)
  | fault (e : ε)
  | call (op : Op) (next : Rep op → Prog Rep ε α)

def Prog.bind : Prog Rep ε α → (α → Prog Rep ε β) → Prog Rep ε β
  | .ret a, f => f a
  | .fault e, _ => .fault e
  | .call op next, f => .call op (fun r => (next r).bind f)

instance : Monad (Prog Rep ε) where
  pure := .ret
  bind := Prog.bind

/-- A thread alone: what it comes to and the state it leaves. -/
def Prog.run (perform : (op : Op) → σ → Rep op × σ) : Prog Rep ε α → σ → Except ε α × σ
  | .ret a, s => (.ok a, s)
  | .fault e, s => (.error e, s)
  | .call op next, s => (next (perform op s).1).run perform (perform op s).2

/-- The result of a thread that has ended. -/
def Prog.result : Prog Rep ε α → Option α
  | .ret a => some a
  | .fault _ => none
  | .call _ _ => none

theorem ret_of_result {p : Prog Rep ε α} {a : α} (ended : p.result = some a) : p = .ret a := by
  cases p with
  | ret b => exact congrArg Prog.ret (Option.some.inj ended)
  | fault e => cases ended
  | call op next => cases ended

/-! ### A thread and a function -/

/-- What a run comes to is related to what a function comes to: results by `R`,
    and faults are the same. -/
def Comes (R : α → σ → β → Prop) : Except ε α × σ → Except ε β → Prop
  | (.ok a, s), .ok b => R a s b
  | (.error e, _), .error e' => e = e'
  | _, _ => False

section Run
variable {perform : (op : Op) → σ → Rep op × σ} {s : σ}

theorem run_call (op : Op) (next : Rep op → Prog Rep ε α) :
    ((Prog.call op .ret : Prog Rep ε (Rep op)) >>= next).run perform s =
      (next (perform op s).1).run perform (perform op s).2 := rfl

theorem run_bind (p : Prog Rep ε α) (f : α → Prog Rep ε β) :
    (p >>= f).run perform s =
      match p.run perform s with
      | (.ok a, s) => (f a).run perform s
      | (.error e, s) => (.error e, s) := by
  induction p generalizing s with
  | ret a => rfl
  | fault e => rfl
  | call op next ih => exact ih (perform op s).1

/-- A thread alone that comes to a result, in two parts. -/
theorem run_bind_ok {p : Prog Rep ε α} {f : α → Prog Rep ε β} {b : β} {s' : σ} :
    (p >>= f).run perform s = (.ok b, s') ↔
      ∃ a s₁, p.run perform s = (.ok a, s₁) ∧ (f a).run perform s₁ = (.ok b, s') := by
  rw [run_bind]
  constructor
  · intro run
    cases first : p.run perform s with
    | mk outcome s₁ =>
      rw [first] at run
      cases outcome with
      | ok a => exact ⟨a, s₁, rfl, run⟩
      | error e => cases run
  · rintro ⟨a, s₁, first, run⟩
    rw [first]
    exact run

theorem comes_bind {β' α' : Type} {R : α → σ → β → Prop} {R' : α' → σ → β' → Prop} {p : Prog Rep ε α}
    {f : α → Prog Rep ε α'} {x : Except ε β} {g : β → Except ε β'} (first : Comes R (p.run perform s) x)
    (next : ∀ a s b, R a s b → Comes R' ((f a).run perform s) (g b)) :
    Comes R' ((p >>= f).run perform s) (x >>= g) := by
  rw [run_bind]
  cases ran : p.run perform s with
  | mk outcome s' =>
    rw [ran] at first
    cases outcome with
    | ok a =>
      cases x with
      | ok b => exact next a s' b first
      | error e => exact first.elim
    | error e =>
      cases x with
      | ok b => exact first.elim
      | error e' => exact first

end Run

/-! ### The calls of a thread -/

/-- All calls of a thread are `Good` and its result meets `Post`, as long as the
    replies are `Fit`. -/
def Uses (Good : Op → Prop) (Fit : (op : Op) → Rep op → Prop) (Post : α → Prop) : Prog Rep ε α → Prop
  | .ret a => Post a
  | .fault _ => True
  | .call op next => Good op ∧ ∀ r, Fit op r → Uses Good Fit Post (next r)

theorem uses_bind {Good : Op → Prop} {Fit : (op : Op) → Rep op → Prop} {Mid : α → Prop} {Post : β → Prop}
    {p : Prog Rep ε α} {f : α → Prog Rep ε β} (first : Uses Good Fit Mid p)
    (next : ∀ a, Mid a → Uses Good Fit Post (f a)) : Uses Good Fit Post (p >>= f) := by
  induction p with
  | ret a => exact next a first
  | fault e => trivial
  | call op more ih => exact ⟨first.1, fun r fit => ih r (first.2 r fit)⟩

/-! ### Several threads -/

/-- What is left of the threads, and the state they share. -/
structure Config {Op : Type} (Rep : Op → Type) (ε α σ ι : Type) where
  threads : ι → Prog Rep ε α
  state : σ

section Threads
variable [DecidableEq ι] (perform : ι → (op : Op) → σ → Rep op × σ)

/-- Thread `i` makes its next call. -/
def Step (c : Config Rep ε α σ ι) (i : ι) (c' : Config Rep ε α σ ι) : Prop :=
  ∃ op next, c.threads i = .call op next ∧
    c' = ⟨Function.update c.threads i (next (perform i op c.state).1), (perform i op c.state).2⟩

/-- The call that thread `i` makes next meets a condition on the state it finds. -/
def NextFine (Fine : σ → ι → Op → Prop) (c : Config Rep ε α σ ι) (i : ι) : Prop :=
  ∀ op next, c.threads i = .call op next → Fine c.state i op

section Separate
variable {perform} {Good : ι → Op → Prop} {Fit : ι → (op : Op) → Rep op → Prop} {Agree : ι → σ → σ → Prop}
  {Fine : σ → ι → Op → Prop}

/-- Threads that use the state each in a part of its own are separate: `Agree i`
    says that thread `i` finds two states the same. A call of a thread is
    answered alike in states that agree for it and leaves them so (`own`), and it
    leaves them so for the other threads (`others`). Whatever order the calls
    were made in, each thread has then got as far as it gets alone. -/
theorem separate {start last : Config Rep ε α σ ι} {trail : List (Config Rep ε α σ ι × ι × Config Rep ε α σ ι)}
    (same : ∀ i s, Agree i s s)
    (own : ∀ i op s a, Good i op → Fine s i op → Agree i s a →
      (perform i op s).1 = (perform i op a).1 ∧ Fit i op (perform i op s).1 ∧
        Agree i (perform i op s).2 (perform i op a).2)
    (others : ∀ i j op s a, j ≠ i → Good j op → Fine s j op → Agree i s a → Agree i (perform j op s).2 a)
    (uses : ∀ i, Uses (Good i) (Fit i) (fun _ => True) (start.threads i)) (run : Run (Step perform) start trail last)
    (fine : ∀ e ∈ trail, NextFine Fine e.1 e.2.1) (i : ι) :
    ∃ alone, (start.threads i).run (perform i) start.state = (last.threads i).run (perform i) alone ∧
      Agree i last.state alone := by
  have inv : ∀ i, Uses (Good i) (Fit i) (fun _ => True) (last.threads i) ∧
      ∃ alone, (start.threads i).run (perform i) start.state = (last.threads i).run (perform i) alone ∧
        Agree i last.state alone := by
    refine run_keeps (fun _ (c : Config Rep ε α σ ι) => ∀ i, Uses (Good i) (Fit i) (fun _ => True) (c.threads i) ∧
      ∃ alone, (start.threads i).run (perform i) start.state = (c.threads i).run (perform i) alone ∧
        Agree i c.state alone) (NextFine Fine) ?_ (fun i => ⟨uses i, start.state, rfl, same i start.state⟩) run fine
    rintro trail c j c' before ⟨op, next, at_op, rfl⟩ meets i
    have calm := meets op next at_op
    obtain ⟨good, rest⟩ : Good j op ∧ ∀ r, Fit j op r → Uses (Good j) (Fit j) (fun _ => True) (next r) := by
      have := (before j).1
      rw [at_op] at this
      exact this
    obtain ⟨uses, alone, reaches, agree⟩ := before i
    by_cases here : i = j
    · subst here
      obtain ⟨reply, fit, kept⟩ := own i op c.state alone good calm agree
      rw [at_op] at reaches
      refine ⟨by simpa using rest _ fit, (perform i op alone).2, ?_, kept⟩
      simp only [Function.update_self]
      rw [reaches, reply]
      rfl
    · refine ⟨by simpa [Function.update_of_ne here] using uses, alone, ?_, others i j op c.state alone (Ne.symm here) good calm agree⟩
      simpa only [Function.update_of_ne here] using reaches
  exact (inv i).2

end Separate

/-! ### Schedules -/

/-- One turn of thread `i`; nothing happens when the thread has ended. -/
def turn (c : Config Rep ε α σ ι) (i : ι) : Config Rep ε α σ ι :=
  match c.threads i with
  | .call op next => ⟨Function.update c.threads i (next (perform i op c.state).1), (perform i op c.state).2⟩
  | .ret _ => c
  | .fault _ => c

/-- Whether all turns of a schedule meet a condition. -/
def orderly (Fine : σ → ι → Op → Prop) [∀ s i op, Decidable (Fine s i op)] : List ι → Config Rep ε α σ ι → Bool
  | [], _ => true
  | i :: turns, c =>
    (match c.threads i with
      | .call op _ => decide (Fine c.state i op)
      | .ret _ => true
      | .fault _ => true) && orderly Fine turns (turn perform c i)

theorem schedule_extends {start c : Config Rep ε α σ ι} {trail : List (Config Rep ε α σ ι × ι × Config Rep ε α σ ι)}
    (run : Run (Step perform) start trail c) (Fine : σ → ι → Op → Prop) [∀ s i op, Decidable (Fine s i op)] :
    ∀ turns : List ι, orderly perform Fine turns c = true → (∀ e ∈ trail, NextFine Fine e.1 e.2.1) →
      ∃ trail', Run (Step perform) start trail' (turns.foldl (turn perform) c) ∧ ∀ e ∈ trail', NextFine Fine e.1 e.2.1 := by
  intro turns
  induction turns generalizing trail c with
  | nil => exact fun _ fine => ⟨trail, run, fine⟩
  | cons i turns ih =>
    intro ordered fine
    obtain ⟨first, rest⟩ := Bool.and_eq_true_iff.mp ordered
    have ended : turn perform c i = c → ∃ trail', Run (Step perform) start trail' ((i :: turns).foldl (turn perform) c) ∧
        ∀ e ∈ trail', NextFine Fine e.1 e.2.1 := by
      intro stays
      rw [stays] at rest
      rw [List.foldl_cons, stays]
      exact ih run rest fine
    cases at_op : c.threads i with
    | ret a => exact ended (by simp only [turn, at_op])
    | fault e => exact ended (by simp only [turn, at_op])
    | call op next =>
      have taken : Step perform c i (turn perform c i) := ⟨op, next, at_op, by simp only [turn, at_op]⟩
      refine ih (.next run taken) rest (List.forall_mem_append.mpr ⟨fine, List.forall_mem_singleton.mpr ?_⟩)
      intro op' next' at_op'
      rw [at_op] at first at_op'
      cases at_op'
      exact of_decide_eq_true first

/-- A schedule is a run; when all its turns meet a condition, so do its steps. -/
theorem schedule_run (start : Config Rep ε α σ ι) (Fine : σ → ι → Op → Prop) [∀ s i op, Decidable (Fine s i op)]
    (turns : List ι) (ordered : orderly perform Fine turns start = true) :
    ∃ trail, Run (Step perform) start trail (turns.foldl (turn perform) start) ∧ ∀ e ∈ trail, NextFine Fine e.1 e.2.1 :=
  schedule_extends perform .stay Fine turns ordered fun _ none => absurd none List.not_mem_nil

end Threads

end Shardb.Threads
