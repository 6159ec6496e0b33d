import Mathlib.Data.List.Basic

/-!
# Journals, save points and working copies

Two accounts of a transaction over contents of any kind. The transaction holds
back a batch of writes and keeps, for every save point, the batch of that time.
A reader imagines a working copy of the contents and a stack of snapshots.
`view` takes the first account to the second, and every operation of one is the
operation of the other (`view_add`, `view_save`, `view_restore`).
-/

namespace Shardb.Journal

variable {ω C : Type}

/-- The contents after a journal of writes, applied in order. -/
def replay (apply : C → ω → C) (base : C) (writes : List ω) : C := writes.foldl apply base


@[simp] theorem replay_append (apply : C → ω → C) (base : C) (earlier later : List ω) :
    replay apply base (earlier ++ later) = replay apply (replay apply base earlier) later :=
  List.foldl_append

/-- The writes a transaction holds back and, newest first, those it held back
    at each of its save points. -/
structure Batch (ω : Type) where
  writes : List ω
  saved : List (List ω)
  deriving DecidableEq

def Batch.empty : Batch ω := ⟨[], []⟩
def Batch.add (b : Batch ω) (w : ω) : Batch ω := { b with writes := b.writes ++ [w] }
def Batch.save (b : Batch ω) : Batch ω := { b with saved := b.writes :: b.saved }
/-- Back to the newest save point, which is given up; there may be none. -/
def Batch.restore (b : Batch ω) : Option (Batch ω) :=
  match b.saved with
  | [] => none
  | writes :: saved => some ⟨writes, saved⟩

/-- A working copy and the snapshots taken of it, newest first. -/
structure Workspace (C : Type) where
  copy : C
  snapshots : List C

def Workspace.write (ws : Workspace C) (copy : C) : Workspace C := { ws with copy := copy }
def Workspace.push (ws : Workspace C) : Workspace C := { ws with snapshots := ws.copy :: ws.snapshots }
def Workspace.pop (ws : Workspace C) : Option (Workspace C) :=
  match ws.snapshots with
  | [] => none
  | copy :: snapshots => some ⟨copy, snapshots⟩

/-- The working copy and the snapshots a batch stands for over committed contents. -/
def Batch.view (apply : C → ω → C) (base : C) (b : Batch ω) : Workspace C :=
  ⟨replay apply base b.writes, b.saved.map (replay apply base)⟩

section View
variable (apply : C → ω → C) (base : C) (b : Batch ω)

theorem view_add (w : ω) : (b.add w).view apply base =
    (b.view apply base).write (apply (b.view apply base).copy w) := by
  simp only [Batch.view, Batch.add, Workspace.write, replay_append]
  rfl

theorem view_save : b.save.view apply base = (b.view apply base).push := rfl

theorem view_restore : b.restore.map (Batch.view apply base) = (b.view apply base).pop := by
  cases saved : b.saved <;> simp [Batch.restore, Workspace.pop, Batch.view, saved]

@[simp] theorem view_snapshots_length : (b.view apply base).snapshots.length = b.saved.length :=
  List.length_map ..

end View

/-! ### Batches whose oldest save point is empty -/

/-- The oldest save point holds back nothing; without save points nothing is
    held back at all. -/
def Batch.Grounded (b : Batch ω) : Prop := (b.writes :: b.saved).getLast? = some []

theorem grounded_save {b : Batch ω} (grounded : b.Grounded) : b.save.Grounded := by
  simpa [Batch.Grounded, Batch.save, List.getLast?_cons] using grounded

theorem grounded_add {b : Batch ω} (grounded : b.Grounded) (w : ω) (deep : b.saved ≠ []) : (b.add w).Grounded := by
  obtain ⟨saved, rest, split⟩ := List.exists_cons_of_ne_nil deep
  simpa [Batch.Grounded, Batch.add, split, List.getLast?_cons_cons] using grounded

theorem grounded_restore {b b' : Batch ω} (grounded : b.Grounded) (restored : b.restore = some b') : b'.Grounded := by
  unfold Batch.restore at restored
  split at restored
  · cases restored
  · rename_i writes saved split
    cases restored
    simpa [Batch.Grounded, split, List.getLast?_cons_cons] using grounded

/-- A batch whose save points are used up holds back nothing. -/
theorem grounded_spent {b : Batch ω} (grounded : b.Grounded) (spent : b.saved = []) : b.writes = [] := by
  simpa [Batch.Grounded, spent] using grounded

/-! ### What all writes of a batch satisfy -/

/-- Every write held back, now or at a save point, satisfies `P`. -/
structure Batch.All (P : ω → Prop) (b : Batch ω) : Prop where
  writes : ∀ w ∈ b.writes, P w
  saved : ∀ writes ∈ b.saved, ∀ w ∈ writes, P w

section All
variable {P : ω → Prop} {b : Batch ω}

theorem all_begun : Batch.All P ⟨[], [[]]⟩ := ⟨by simp, by simp⟩

theorem all_save (all : b.All P) : b.save.All P :=
  ⟨all.writes, List.forall_mem_cons.mpr ⟨all.writes, all.saved⟩⟩

theorem all_add (all : b.All P) {w : ω} (new : P w) : (b.add w).All P :=
  ⟨List.forall_mem_append.mpr ⟨all.writes, List.forall_mem_singleton.mpr new⟩, all.saved⟩

theorem all_restore {b' : Batch ω} (all : b.All P) (restored : b.restore = some b') : b'.All P := by
  unfold Batch.restore at restored
  split at restored
  · cases restored
  · rename_i writes saved split
    cases restored
    have inside := all.saved
    rw [split] at inside
    exact ⟨inside writes List.mem_cons_self, fun later member => inside later (List.mem_cons_of_mem _ member)⟩

end All

/-! ### Writes in order -/

/-- The stamps of the writes do not go down, and none is above `now`. -/
structure Stamped (stamp : ω → Nat) (now : Nat) (writes : List ω) : Prop where
  order : (writes.map stamp).Pairwise (· ≤ ·)
  past : ∀ w ∈ writes, stamp w ≤ now

/-- What a batch holds back, now or at a save point, goes on from `base` in order. -/
structure Batch.Stamped (stamp : ω → Nat) (now : Nat) (base : List ω) (b : Batch ω) : Prop where
  writes : Journal.Stamped stamp now (base ++ b.writes)
  saved : ∀ writes ∈ b.saved, Journal.Stamped stamp now (base ++ writes)

section Stamped
variable {stamp : ω → Nat} {now later : Nat} {base writes : List ω} {b : Batch ω}

theorem Stamped.snoc (stamped : Stamped stamp now writes) {w : ω} (new : stamp w = now) :
    Stamped stamp now (writes ++ [w]) := by
  refine ⟨?_, List.forall_mem_append.mpr ⟨stamped.past, List.forall_mem_singleton.mpr (Nat.le_of_eq new)⟩⟩
  rw [List.map_append, List.map_singleton, new]
  refine List.pairwise_append.mpr ⟨stamped.order, List.pairwise_singleton _ _, fun a old b last => ?_⟩
  obtain ⟨w', member, rfl⟩ := List.mem_map.mp old
  rw [List.mem_singleton.mp last]
  exact stamped.past w' member

theorem Stamped.mono (stamped : Stamped stamp now writes) (before : now ≤ later) : Stamped stamp later writes :=
  ⟨stamped.order, fun w member => Nat.le_trans (stamped.past w member) before⟩

theorem Batch.Stamped.mono (stamped : b.Stamped stamp now base) (before : now ≤ later) : b.Stamped stamp later base :=
  ⟨stamped.writes.mono before, fun writes saved => (stamped.saved writes saved).mono before⟩

theorem stamped_begun (stamped : Stamped stamp now base) : Batch.Stamped stamp now base ⟨[], [[]]⟩ := by
  have nothing : Stamped stamp now (base ++ []) := by rwa [List.append_nil]
  exact ⟨nothing, List.forall_mem_singleton.mpr nothing⟩

theorem stamped_add (stamped : b.Stamped stamp now base) {w : ω} (new : stamp w = now) : (b.add w).Stamped stamp now base := by
  refine ⟨?_, stamped.saved⟩
  rw [Batch.add, ← List.append_assoc]
  exact stamped.writes.snoc new

theorem stamped_save (stamped : b.Stamped stamp now base) : b.save.Stamped stamp now base :=
  ⟨stamped.writes, List.forall_mem_cons.mpr ⟨stamped.writes, stamped.saved⟩⟩

theorem stamped_restore {b' : Batch ω} (stamped : b.Stamped stamp now base) (restored : b.restore = some b') :
    b'.Stamped stamp now base := by
  unfold Batch.restore at restored
  split at restored
  · cases restored
  · rename_i writes saved split
    cases restored
    have inside := stamped.saved
    rw [split] at inside
    exact ⟨inside writes List.mem_cons_self, fun later member => inside later (List.mem_cons_of_mem _ member)⟩

end Stamped

end Shardb.Journal
