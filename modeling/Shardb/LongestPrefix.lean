import Mathlib.Algebra.Ring.Nat
import Mathlib.Data.List.Induction
import Mathlib.Data.Set.Basic

/-!
# Longest prefix match

A route is for the words that agree with its own in the first `depth` of `width`
bits. A table holds one route for a prefix, a route that is added takes the place of
the one before, and of the routes for a word the longest counts. What a table
answers that was filled route by route is told by the routes alone (`route`): it is
the last of the longest (`filled_answers`, `route_iff`).
-/

namespace Shardb.LongestPrefix

variable {η : Type}

structure Route (η : Type) where
  word : Nat
  depth : Nat
  hop : η
  deriving DecidableEq

/-- The first `depth` of `width` bits. -/
def lead (width depth word : Nat) : Nat := word / 2 ^ (width - depth)

/-- The route is for the word. -/
def Route.Covers (width : Nat) (r : Route η) (dst : Nat) : Prop := lead width r.depth dst = lead width r.depth r.word

instance (width : Nat) (r : Route η) (dst : Nat) : Decidable (r.Covers width dst) :=
  inferInstanceAs (Decidable (_ = _))

/-- The routes have the same prefix. -/
def Route.Alike (width : Nat) (r s : Route η) : Prop :=
  r.depth = s.depth ∧ lead width r.depth r.word = lead width s.depth s.word

/-- Of two routes for a word the longer has another prefix, and of the same length
    they have the same. -/
theorem alike_of_covers {width dst : Nat} {r s : Route η} (first : r.Covers width dst) (second : s.Covers width dst)
    (same : r.depth = s.depth) : r.Alike width s := by
  refine ⟨same, first.symm.trans ?_⟩
  rw [same]
  exact second

theorem covers_of_alike {width dst : Nat} {r s : Route η} (alike : r.Alike width s) (covers : s.Covers width dst) :
    r.Covers width dst := by
  obtain ⟨depth, prefixes⟩ := alike
  refine Eq.trans ?_ prefixes.symm
  rw [depth]
  exact covers

/-! ### Tables -/

/-- The table after a route was added. -/
def added (width : Nat) (table : Set (Route η)) (r : Route η) : Set (Route η) :=
  { s | s = r ∨ (s ∈ table ∧ ¬ r.Alike width s) }

/-- What a table answers for a word. -/
def Answers (width : Nat) (table : Set (Route η)) (dst : Nat) : Option η → Prop
  | none => ∀ r ∈ table, ¬ r.Covers width dst
  | some hop => ∃ r ∈ table, r.Covers width dst ∧ r.hop = hop ∧ ∀ s ∈ table, s.Covers width dst → s.depth ≤ r.depth

/-- The table that the routes make, added one after another. -/
def filled (width : Nat) (routes : List (Route η)) : Set (Route η) := routes.foldl (added width) ∅

@[simp] theorem filled_snoc (width : Nat) (routes : List (Route η)) (r : Route η) :
    filled width (routes ++ [r]) = added width (filled width routes) r := by
  simp [filled]

/-! ### Routes one after another -/

/-- A route takes the place of one that is not longer. -/
def better (width dst : Nat) (best : Option (Route η)) (r : Route η) : Option (Route η) :=
  if r.Covers width dst ∧ best.all (fun b => b.depth ≤ r.depth) then some r else best

/-- The last of the longest routes for a word. -/
def route (width : Nat) (routes : List (Route η)) (dst : Nat) : Option (Route η) := routes.foldl (better width dst) none

@[simp] theorem route_nil (width dst : Nat) : route width ([] : List (Route η)) dst = none := rfl

@[simp] theorem route_snoc (width : Nat) (routes : List (Route η)) (r : Route η) (dst : Nat) :
    route width (routes ++ [r]) dst = better width dst (route width routes dst) r := by
  simp [route]

theorem better_cases (width dst : Nat) (best : Option (Route η)) (r : Route η) :
    (better width dst best r = some r ∧ r.Covers width dst ∧ ∀ b, best = some b → b.depth ≤ r.depth) ∨
      (better width dst best r = best ∧ (r.Covers width dst → ∃ b, best = some b ∧ r.depth < b.depth)) := by
  unfold better
  split_ifs with longest
  · obtain ⟨covers, all⟩ := longest
    refine .inl ⟨rfl, covers, ?_⟩
    rintro b rfl
    simpa using all
  · refine .inr ⟨rfl, fun covers => ?_⟩
    cases best with
    | none => exact absurd ⟨covers, rfl⟩ longest
    | some b => exact ⟨b, rfl, by simpa [covers] using longest⟩

/-- The route is the only longest one that the table has for the word. -/
structure Best (width : Nat) (table : Set (Route η)) (dst : Nat) (r : Route η) : Prop where
  held : r ∈ table
  covers : r.Covers width dst
  longest : ∀ s ∈ table, s.Covers width dst → s.depth ≤ r.depth
  only : ∀ s ∈ table, s.Covers width dst → s.depth = r.depth → s = r

theorem route_best (width : Nat) (routes : List (Route η)) (dst : Nat) :
    (route width routes dst = none → ∀ r ∈ filled width routes, ¬ r.Covers width dst) ∧
      ∀ r, route width routes dst = some r → Best width (filled width routes) dst r := by
  induction routes using List.reverseRecOn with
  | nil => exact ⟨by rintro - r ⟨⟩, by rintro r ⟨⟩⟩
  | append_singleton routes r ih =>
    obtain ⟨nothing, best⟩ := ih
    rw [route_snoc, filled_snoc]
    rcases better_cases width dst (route width routes dst) r with ⟨now, covers, before⟩ | ⟨now, shorter⟩
    · rw [now]
      -- what is left of the table is shorter, or it would have made room
      have behind : ∀ s ∈ filled width routes, ¬ r.Alike width s → s.Covers width dst → s.depth < r.depth := by
        intro s held other here
        cases found : route width routes dst with
        | none => exact absurd here (nothing found s held)
        | some b =>
          have under := Nat.le_trans ((best b found).longest s held here) (before b found)
          exact Nat.lt_of_le_of_ne under fun same => other (alike_of_covers covers here same.symm)
      refine ⟨by rintro ⟨⟩, ?_⟩
      rintro _ ⟨⟩
      refine ⟨.inl rfl, covers, ?_, ?_⟩
      · rintro s (rfl | ⟨held, other⟩) here
        · exact Nat.le_refl _
        · exact Nat.le_of_lt (behind s held other here)
      · rintro s (rfl | ⟨held, other⟩) here same
        · rfl
        · exact absurd same (Nat.ne_of_lt (behind s held other here))
    · rw [now]
      refine ⟨fun none s held here => ?_, fun b found => ?_⟩
      · rcases held with rfl | ⟨held, -⟩
        · obtain ⟨b, found, -⟩ := shorter here
          rw [none] at found
          cases found
        · exact nothing none s held here
      · obtain ⟨held, covers, longest, only⟩ := best b found
        have under : r.Covers width dst → r.depth < b.depth := fun here => by
          obtain ⟨b', found', below⟩ := shorter here
          rw [found] at found'
          cases found'
          exact below
        have apart : ¬ r.Alike width b := fun alike =>
          absurd alike.1 (Nat.ne_of_lt (under (covers_of_alike alike covers)))
        refine ⟨.inr ⟨held, apart⟩, covers, ?_, ?_⟩
        · rintro s (rfl | ⟨held, -⟩) here
          · exact Nat.le_of_lt (under here)
          · exact longest s held here
        · rintro s (rfl | ⟨held, -⟩) here same
          · exact absurd same (Nat.ne_of_lt (under here))
          · exact only s held here same

/-- A table that was filled route by route answers with the last of the longest. -/
theorem filled_answers {width : Nat} {routes : List (Route η)} {dst : Nat} {answer : Option η}
    (answers : Answers width (filled width routes) dst answer) : answer = (route width routes dst).map Route.hop := by
  obtain ⟨nothing, best⟩ := route_best width routes dst
  cases found : route width routes dst with
  | none =>
    cases answer with
    | none => rfl
    | some hop =>
      obtain ⟨r, held, covers, -⟩ := answers
      exact absurd covers (nothing found r held)
  | some b =>
    obtain ⟨held, covers, longest, only⟩ := best b found
    cases answer with
    | none => exact absurd covers (answers b held)
    | some hop =>
      obtain ⟨r, here, also, rfl, most⟩ := answers
      rw [only r here also (Nat.le_antisymm (longest r here also) (most b held covers))]
      rfl

/-- What counts is one of the routes, and for the word. -/
theorem route_some {width : Nat} {routes : List (Route η)} {dst : Nat} {b : Route η} (found : route width routes dst = some b) :
    b ∈ routes ∧ b.Covers width dst := by
  induction routes using List.reverseRecOn with
  | nil => cases found
  | append_singleton routes last ih =>
    rw [route_snoc] at found
    rcases better_cases width dst (route width routes dst) last with ⟨now, covers, -⟩ | ⟨now, -⟩
    · rw [now] at found
      cases found
      exact ⟨List.mem_append_right _ List.mem_cons_self, covers⟩
    · obtain ⟨member, covers⟩ := ih (now ▸ found)
      exact ⟨List.mem_append_left _ member, covers⟩

/-- No route for the word is longer than the one that counts. -/
theorem route_longest {width : Nat} {routes : List (Route η)} {dst : Nat} {s : Route η} (member : s ∈ routes)
    (here : s.Covers width dst) : ∃ b, route width routes dst = some b ∧ s.depth ≤ b.depth := by
  induction routes using List.reverseRecOn with
  | nil => cases member
  | append_singleton routes last ih =>
    rw [route_snoc]
    rcases better_cases width dst (route width routes dst) last with ⟨now, -, before⟩ | ⟨now, shorter⟩
    · rw [now]
      refine ⟨last, rfl, ?_⟩
      rcases List.mem_append.mp member with earlier | same
      · obtain ⟨b, found, below⟩ := ih earlier
        exact Nat.le_trans below (before b found)
      · rw [List.mem_singleton.mp same]
    · rw [now]
      rcases List.mem_append.mp member with earlier | same
      · exact ih earlier
      · obtain ⟨b, found, below⟩ := shorter (List.mem_singleton.mp same ▸ here)
        exact ⟨b, found, Nat.le_of_lt (List.mem_singleton.mp same ▸ below)⟩

/-- The route that counts: those before it are not longer, those behind it shorter. -/
theorem route_iff {width : Nat} {routes : List (Route η)} {dst : Nat} {r : Route η} :
    route width routes dst = some r ↔ ∃ before after, routes = before ++ r :: after ∧ r.Covers width dst ∧
      (∀ s ∈ before, s.Covers width dst → s.depth ≤ r.depth) ∧ ∀ s ∈ after, s.Covers width dst → s.depth < r.depth := by
  constructor
  · induction routes using List.reverseRecOn with
    | nil => rintro ⟨⟩
    | append_singleton routes last ih =>
      rw [route_snoc]
      rcases better_cases width dst (route width routes dst) last with ⟨now, covers, before⟩ | ⟨now, shorter⟩
      · rw [now]
        rintro ⟨⟩
        refine ⟨routes, [], rfl, covers, fun s member here => ?_, by rintro s ⟨⟩⟩
        obtain ⟨b, found, below⟩ := route_longest member here
        exact Nat.le_trans below (before b found)
      · rw [now]
        intro found
        obtain ⟨before, after, rfl, covers, earlier, later⟩ := ih found
        refine ⟨before, after ++ [last], by simp, covers, earlier,
          List.forall_mem_append.mpr ⟨later, List.forall_mem_singleton.mpr fun here => ?_⟩⟩
        obtain ⟨b, found', below⟩ := shorter here
        rw [found] at found'
        cases found'
        exact below
  · rintro ⟨before, after, rfl, covers, earlier, later⟩
    have taken : better width dst (route width before dst) r = some r := by
      rcases better_cases width dst (route width before dst) r with ⟨now, -⟩ | ⟨-, shorter⟩
      · exact now
      · obtain ⟨b, found, below⟩ := shorter covers
        obtain ⟨member, also⟩ := route_some found
        exact absurd below (Nat.not_lt.mpr (earlier b member also))
    rw [route, List.foldl_append, List.foldl_cons, ← route, taken]
    induction after with
    | nil => rfl
    | cons s after ih =>
      obtain ⟨here, rest⟩ := List.forall_mem_cons.mp later
      rw [List.foldl_cons]
      rcases better_cases width dst (some r) s with ⟨-, also, before⟩ | ⟨now, -⟩
      · exact absurd (here also) (Nat.not_lt.mpr (before r rfl))
      · rw [now]
        exact ih rest

end Shardb.LongestPrefix
