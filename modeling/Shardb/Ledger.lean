import Mathlib.Data.List.Basic

/-!
# Resources that are acquired and released

A ledger lists what happens to resources of type `η`, each acquired from an owner
in `ρ`. It is orderly when a resource is used and released only while it is held,
and an owner is shut only when nothing acquired from it is held any more.
-/

namespace Shardb.Ledger

variable {ρ η : Type}

inductive Entry (ρ η : Type)
  | acquire (owner : ρ) (h : η)
  | use (h : η)
  | release (h : η)
  | shut (owner : ρ)
  deriving DecidableEq

/-- The resource was acquired and not released since. -/
structure Held (ledger : List (Entry ρ η)) (h : η) : Prop where
  acquired : ∃ owner, .acquire owner h ∈ ledger
  kept : .release h ∉ ledger

/-- What may be entered next. -/
def Allowed (ledger : List (Entry ρ η)) : Entry ρ η → Prop
  | .acquire _ h => ∀ owner, .acquire owner h ∉ ledger
  | .use h => Held ledger h
  | .release h => Held ledger h
  | .shut owner => ∀ h, .acquire owner h ∈ ledger → .release h ∈ ledger

/-- Every entry was allowed by those before it. -/
def Orderly (ledger : List (Entry ρ η)) : Prop :=
  ∀ before e after, ledger = before ++ e :: after → Allowed before e

section Orderly
variable {ledger : List (Entry ρ η)}

theorem orderly_nil : Orderly ([] : List (Entry ρ η)) := by
  intro before e after split
  simp at split

theorem orderly_snoc {e : Entry ρ η} : Orderly (ledger ++ [e]) ↔ Orderly ledger ∧ Allowed ledger e := by
  constructor
  · intro orderly
    constructor
    · intro before e' after split
      exact orderly before e' (after ++ [e]) (by simp [split])
    · exact orderly ledger e [] rfl
  · rintro ⟨orderly, allowed⟩ before e' after split
    rcases List.eq_nil_or_concat after with rfl | ⟨rest, last, rfl⟩
    · obtain ⟨rfl, same⟩ := List.append_inj' split rfl
      cases same
      exact allowed
    · rw [List.concat_eq_append, ← List.cons_append, ← List.append_assoc] at split
      obtain ⟨earlier, -⟩ := List.append_inj' split rfl
      exact orderly before e' rest earlier

/-- A resource is acquired from one owner. -/
theorem orderly_owner (orderly : Orderly ledger) {h : η} {o o' : ρ} (first : .acquire o h ∈ ledger)
    (second : .acquire o' h ∈ ledger) : o = o' := by
  obtain ⟨before, after, rfl⟩ := List.append_of_mem first
  have fresh : ∀ owner, Entry.acquire owner h ∉ before := orderly before _ after rfl
  rcases List.mem_append.mp second with earlier | later
  · exact absurd earlier (fresh o')
  · rcases List.mem_cons.mp later with same | later
    · cases same
      rfl
    · -- the second would have been acquired again
      obtain ⟨middle, rest, rfl⟩ := List.append_of_mem later
      have again : ∀ owner, Entry.acquire owner h ∉ before ++ .acquire o h :: middle :=
        orderly (before ++ .acquire o h :: middle) (.acquire o' h) rest (by simp)
      exact absurd (by simp) (again o)

/-- A resource is released once at most. -/
theorem orderly_released [DecidableEq ρ] [DecidableEq η] (orderly : Orderly ledger) {h : η}
    (released : .release h ∈ ledger) : ledger.count (.release h) = 1 := by
  obtain ⟨before, after, rfl⟩ := List.append_of_mem released
  have held : Held before h := orderly before (.release h) after rfl
  have never : Entry.release h ∉ after := by
    intro later
    obtain ⟨middle, rest, rfl⟩ := List.append_of_mem later
    have again : Held (before ++ .release h :: middle) h :=
      orderly (before ++ .release h :: middle) (.release h) rest (by simp)
    exact again.kept (by simp)
  rw [List.count_append, List.count_cons_self, List.count_eq_zero.mpr held.kept, List.count_eq_zero.mpr never]

end Orderly
end Shardb.Ledger
