import Shardb.Loops

/-!
# Calls that may be refused

A program asks its environment for one thing after another and ends when one is
refused. Whether it is may depend on all that was asked before (`Taken`). A program
that is made of parts comes to its end exactly when each of them does (`parts_ok`), and
one that asks for more in some of its parts goes the same way, if it gets it
(`guarded_ok`).
-/

namespace Shardb.Calls
open Shardb.Loops

variable {κ ε σ α : Type} {refused : List κ → κ → Bool} {e : ε}

/-- Another call in the log. -/
def ask (refused : List κ → κ → Bool) (e : ε) (log : List κ) (c : κ) : Except ε (List κ) :=
  if refused log c then .error e else .ok (log ++ [c])

/-- None of the calls is refused. -/
def Taken (refused : List κ → κ → Bool) : (log calls : List κ) → Prop
  | _, [] => True
  | log, c :: calls => refused log c = false ∧ Taken refused (log ++ [c]) calls

@[simp] theorem taken_nil (log : List κ) : Taken refused log [] := trivial

theorem taken_append {log before after : List κ} :
    Taken refused log (before ++ after) ↔ Taken refused log before ∧ Taken refused (log ++ before) after := by
  induction before generalizing log with
  | nil => simp
  | cons c before ih => simp only [List.cons_append, Taken, ih, and_assoc, List.append_assoc, List.nil_append]

theorem ask_ok {log log' : List κ} {c : κ} : ask refused e log c = .ok log' ↔ refused log c = false ∧ log' = log ++ [c] := by
  unfold ask
  cases refused log c with
  | true => simp
  | false => simp [eq_comm]

/-- A loop comes to its end exactly when each pass does, where that does not depend on
    the passes before. -/
theorem parts_ok {f : σ → α → Except ε σ} {Fine : α → Prop} {l : List α}
    (part : ∀ a ∈ l, ∀ s, (∃ s', f s a = .ok s') ↔ Fine a) (s : σ) :
    (∃ last, l.foldlM f s = .ok last) ↔ ∀ a ∈ l, Fine a := by
  constructor
  · rintro ⟨last, run⟩ a member
    obtain ⟨before, after, rfl⟩ := List.append_of_mem member
    rw [List.foldlM_append, bind_eq_ok] at run
    obtain ⟨t, -, run⟩ := run
    rw [List.foldlM_cons, bind_eq_ok] at run
    obtain ⟨next, once, -⟩ := run
    exact (part a member t).mp ⟨next, once⟩
  · intro fine
    have goes : ∀ a rest s, a :: rest ⊆ l → ∃ next, f s a = .ok next ∧ rest ⊆ l := fun a rest s inside => by
      obtain ⟨next, once⟩ := (part a (inside List.mem_cons_self) s).mpr (fine a (inside List.mem_cons_self))
      exact ⟨next, once, fun b member => inside (List.mem_cons_of_mem a member)⟩
    obtain ⟨last, run, -⟩ := foldlM_goes (fun rest _ => rest ⊆ l) goes (List.Subset.refl l)
    exact ⟨last, run⟩

/-- A loop that asks for something more in each pass does what it would do without, and
    gets what it asks for. -/
theorem guarded_ok {f g : σ → α → Except ε σ} (Inv : σ → Prop) {Fine : α → Prop}
    (pass : ∀ {s a s'}, Inv s → (g s a = .ok s' ↔ f s a = .ok s' ∧ Fine a))
    (keeps : ∀ {s a s'}, Inv s → f s a = .ok s' → Inv s') {l : List α} {s s' : σ} (start : Inv s) :
    l.foldlM g s = .ok s' ↔ l.foldlM f s = .ok s' ∧ ∀ a ∈ l, Fine a := by
  induction l generalizing s with
  | nil => simp
  | cons a l ih =>
    rw [List.foldlM_cons, List.foldlM_cons, bind_eq_ok, bind_eq_ok, List.forall_mem_cons]
    constructor
    · rintro ⟨next, once, rest⟩
      obtain ⟨once, fine⟩ := (pass start).mp once
      obtain ⟨rest, all⟩ := (ih (keeps start once)).mp rest
      exact ⟨⟨next, once, rest⟩, fine, all⟩
    · rintro ⟨⟨next, once, rest⟩, fine, all⟩
      exact ⟨next, (pass start).mpr ⟨once, fine⟩, (ih (keeps start once)).mpr ⟨rest, all⟩⟩

end Shardb.Calls
