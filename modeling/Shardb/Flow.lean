import Mathlib.Data.List.Basic
import Mathlib.Data.List.Nodup
import Mathlib.Logic.Relation

/-!
# Items on their way through queues

A network has places, each of them a queue. Items arrive at the back of one, and
some off the front of one place are put at the back of another. Wherever they
go, none is lost or doubled, and items of one kind, which have the same way, stay
in the order in which they arrived (`Sound`, `moves_sound`).
-/

namespace Shardb.Flow

/-- `b` stands right before `a`. -/
def Next {ι : Type*} (way : List ι) (b a : ι) : Prop := ∃ front back, way = front ++ b :: a :: back

/-- The ways of the items, each from its exit back to where items arrive. Items
    may leave their way for a sink. -/
structure Network (ι α κ : Type*) where
  kind : α → κ
  way : κ → List ι
  sink : ι → Prop
  straight : ∀ k, (way k).Nodup
  ends : ∀ k a, a ∈ way k → ¬ sink a

/-- What has arrived, and what each place holds of it, the oldest first. -/
structure Stock (ι α : Type*) where
  arrived : List α
  held : ι → List α

section Flow
variable {ι α κ : Type*} [DecidableEq ι]

/-- `items`, from the front of `a`, where they leave `rest`, to the back of `b`. -/
def Stock.shift (stock : Stock ι α) (a b : ι) (items rest : List α) : Stock ι α :=
  { stock with held := Function.update (Function.update stock.held a rest) b (stock.held b ++ items) }

def Stock.arrive (stock : Stock ι α) (a : ι) (items : List α) : Stock ι α :=
  ⟨stock.arrived ++ items, Function.update stock.held a (stock.held a ++ items)⟩

section Stock
variable (stock : Stock ι α) {a b : ι} (items rest : List α)

@[simp] theorem shift_arrived : (stock.shift a b items rest).arrived = stock.arrived := rfl

@[simp] theorem shift_target : (stock.shift a b items rest).held b = stock.held b ++ items := Function.update_self ..

theorem shift_source (apart : a ≠ b) : (stock.shift a b items rest).held a = rest := by
  show Function.update (Function.update stock.held a rest) b _ a = rest
  rw [Function.update_of_ne apart, Function.update_self]

theorem shift_other {c : ι} (source : c ≠ a) (target : c ≠ b) :
    (stock.shift a b items rest).held c = stock.held c := by
  show Function.update (Function.update stock.held a rest) b _ c = stock.held c
  rw [Function.update_of_ne target, Function.update_of_ne source]

@[simp] theorem arrive_self : (stock.arrive a items).held a = stock.held a ++ items := Function.update_self ..

theorem arrive_other {c : ι} (other : c ≠ a) : (stock.arrive a items).held c = stock.held c :=
  Function.update_of_ne other ..

end Stock

/-- One move. What is on its way goes to the next place of it, or to a sink. -/
inductive Move (net : Network ι α κ) : Stock ι α → Stock ι α → Prop
  | arrive {stock : Stock ι α} {a : ι} {items : List α} (fresh : (stock.arrived ++ items).Nodup)
      (entry : ∀ m ∈ items, ∃ front, net.way (net.kind m) = front ++ [a]) : Move net stock (stock.arrive a items)
  | shift {stock : Stock ι α} {a b : ι} {items rest : List α} (apart : a ≠ b) (inside : ¬ net.sink a)
      (front : stock.held a = items ++ rest)
      (forth : ∀ m ∈ items, a ∈ net.way (net.kind m) → net.sink b ∨ Next (net.way (net.kind m)) b a) :
      Move net stock (stock.shift a b items rest)

section Moves
variable {net : Network ι α κ} {stock stock' : Stock ι α}

/-- A shift, place by place. -/
theorem Move.of_shift (a b : ι) (items : List α) (apart : a ≠ b) (inside : ¬ net.sink a)
    (arrived : stock'.arrived = stock.arrived) (source : stock.held a = items ++ stock'.held a)
    (target : stock'.held b = stock.held b ++ items) (other : ∀ c, c ≠ a → c ≠ b → stock'.held c = stock.held c)
    (forth : ∀ m ∈ items, a ∈ net.way (net.kind m) → net.sink b ∨ Next (net.way (net.kind m)) b a) :
    Move net stock stock' := by
  have same : stock' = stock.shift a b items (stock'.held a) := by
    obtain ⟨arrived', held'⟩ := stock'
    congr 1
    funext c
    by_cases here : c = b
    · rw [here, Function.update_self]
      exact target
    · rw [Function.update_of_ne here]
      by_cases here' : c = a
      · rw [here', Function.update_self]
      · rw [Function.update_of_ne here']
        exact other c here' here
  rw [same]
  exact .shift apart inside source forth

/-- An arrival, place by place. -/
theorem Move.of_arrive (a : ι) (items : List α) (arrived : stock'.arrived = stock.arrived ++ items)
    (here : stock'.held a = stock.held a ++ items) (other : ∀ c, c ≠ a → stock'.held c = stock.held c)
    (fresh : stock'.arrived.Nodup) (entry : ∀ m ∈ items, ∃ front, net.way (net.kind m) = front ++ [a]) :
    Move net stock stock' := by
  have same : stock' = stock.arrive a items := by
    obtain ⟨arrived', held'⟩ := stock'
    cases arrived
    congr 1
    funext c
    by_cases same : c = a
    · rw [same, Function.update_self]
      exact here
    · rw [Function.update_of_ne same]
      exact other c same
  rw [same]
  exact .arrive (arrived ▸ fresh) entry

end Moves

abbrev Moves (net : Network ι α κ) : Stock ι α → Stock ι α → Prop := Relation.ReflTransGen (Move net)

/-- Every item that has arrived is in one place, once. -/
structure Conserved (stock : Stock ι α) : Prop where
  whole : ∀ m, m ∈ stock.arrived ↔ ∃ a, m ∈ stock.held a
  single : ∀ {a b m}, m ∈ stock.held a → m ∈ stock.held b → a = b
  once : ∀ a, (stock.held a).Nodup

variable [DecidableEq κ]

/-- The items of one kind, along their way. -/
def line (net : Network ι α κ) (k : κ) (held : ι → List α) : List α :=
  (net.way k).flatMap fun a => (held a).filter (net.kind · = k)

/-- Nothing is lost, everything is on its way or in a sink, and in its order. -/
structure Sound (net : Network ι α κ) (stock : Stock ι α) : Prop where
  conserved : Conserved stock
  onWay : ∀ {a m}, m ∈ stock.held a → a ∈ net.way (net.kind m) ∨ net.sink a
  ordered : ∀ k, (line net k stock.held).Sublist stock.arrived

variable {net : Network ι α κ}

/-! ### Moves conserve -/

/-- Where a shifted item is was where an item was, and back. -/
theorem shift_mem {stock : Stock ι α} {a b : ι} {items rest : List α} (apart : a ≠ b)
    (front : stock.held a = items ++ rest) (m : α) (c : ι) :
    m ∈ (stock.shift a b items rest).held c ↔
      (c = a ∧ m ∈ rest) ∨ (c = b ∧ (m ∈ stock.held b ∨ m ∈ items)) ∨ (c ≠ a ∧ c ≠ b ∧ m ∈ stock.held c) := by
  by_cases source : c = a
  · subst source
    rw [shift_source _ _ _ apart]
    simp [apart]
  · by_cases target : c = b
    · subst target
      simp [source]
    · rw [shift_other _ _ _ source target]
      simp [source, target]

theorem shift_conserved {stock : Stock ι α} {a b : ι} {items rest : List α} (apart : a ≠ b)
    (front : stock.held a = items ++ rest) (conserved : Conserved stock) : Conserved (stock.shift a b items rest) := by
  have split : (items ++ rest).Nodup := front ▸ conserved.once a
  have mem := shift_mem apart front
  have source : ∀ {m}, m ∈ items ∨ m ∈ rest → m ∈ stock.held a := fun member => by
    rw [front, List.mem_append]
    exact member
  have apart' : ∀ {m}, m ∈ items → m ∉ rest := fun here there => List.disjoint_of_nodup_append split here there
  refine ⟨fun m => ?_, ?_, fun c => ?_⟩
  · rw [shift_arrived, conserved.whole]
    constructor
    · rintro ⟨c, held⟩
      by_cases here : c = a
      · subst here
        rw [front, List.mem_append] at held
        rcases held with moved | left
        · exact ⟨b, (mem m b).mpr (.inr (.inl ⟨rfl, .inr moved⟩))⟩
        · exact ⟨c, (mem m c).mpr (.inl ⟨rfl, left⟩)⟩
      · by_cases there : c = b
        · subst there
          exact ⟨c, (mem m c).mpr (.inr (.inl ⟨rfl, .inl held⟩))⟩
        · exact ⟨c, (mem m c).mpr (.inr (.inr ⟨here, there, held⟩))⟩
    · rintro ⟨c, held⟩
      rcases (mem m c).mp held with ⟨rfl, left⟩ | ⟨rfl, before | moved⟩ | ⟨_, _, held⟩
      · exact ⟨c, source (.inr left)⟩
      · exact ⟨c, before⟩
      · exact ⟨a, source (.inl moved)⟩
      · exact ⟨c, held⟩
  · intro c d m shifted shifted'
    -- an item of `a` is in `items` or in `rest`, never in both
    rcases (mem m c).mp shifted with ⟨rfl, left⟩ | ⟨rfl, here⟩ | ⟨notA, notB, here⟩ <;>
      rcases (mem m d).mp shifted' with ⟨rfl, left'⟩ | ⟨rfl, there⟩ | ⟨notA', notB', there⟩
    · rfl
    · rcases there with before | moved
      · exact conserved.single (source (.inr left)) before
      · exact absurd left (apart' moved)
    · exact conserved.single (source (.inr left)) there
    · rcases here with before | moved
      · exact conserved.single before (source (.inr left'))
      · exact absurd left' (apart' moved)
    · rfl
    · rcases here with before | moved
      · exact conserved.single before there
      · exact absurd (conserved.single there (source (.inl moved))) notA'
    · exact conserved.single here (source (.inr left'))
    · rcases there with before | moved
      · exact conserved.single here before
      · exact absurd (conserved.single here (source (.inl moved))) notA
    · exact conserved.single here there
  · by_cases here : c = a
    · subst here
      rw [shift_source _ _ _ apart]
      exact (List.nodup_append.mp split).2.1
    · by_cases there : c = b
      · subst there
        rw [shift_target]
        refine List.Nodup.append (conserved.once c) (List.nodup_append.mp split).1 fun m before moved => ?_
        exact here (conserved.single before (source (.inl moved)))
      · rw [shift_other _ _ _ here there]
        exact conserved.once c

theorem arrive_conserved {stock : Stock ι α} {a : ι} {items : List α} (fresh : (stock.arrived ++ items).Nodup)
    (conserved : Conserved stock) : Conserved (stock.arrive a items) := by
  have new : ∀ {m c}, m ∈ items → m ∉ stock.held c := fun item held =>
    List.disjoint_of_nodup_append fresh ((conserved.whole _).mpr ⟨_, held⟩) item
  have mem : ∀ m c, m ∈ (stock.arrive a items).held c ↔ m ∈ stock.held c ∨ (c = a ∧ m ∈ items) := by
    intro m c
    by_cases here : c = a
    · subst here
      simp
    · rw [arrive_other _ _ here]
      simp [here]
  refine ⟨fun m => ?_, ?_, fun c => ?_⟩
  · show m ∈ stock.arrived ++ items ↔ _
    rw [List.mem_append, conserved.whole]
    constructor
    · rintro (⟨c, held⟩ | item)
      · exact ⟨c, (mem m c).mpr (.inl held)⟩
      · exact ⟨a, (mem m a).mpr (.inr ⟨rfl, item⟩)⟩
    · rintro ⟨c, held⟩
      rcases (mem m c).mp held with held | ⟨_, item⟩
      · exact .inl ⟨c, held⟩
      · exact .inr item
  · intro c d m arrived arrived'
    rcases (mem m c).mp arrived with here | ⟨rfl, item⟩ <;> rcases (mem m d).mp arrived' with there | ⟨rfl, item'⟩
    · exact conserved.single here there
    · exact absurd here (new item')
    · exact absurd there (new item)
    · rfl
  · by_cases here : c = a
    · subst here
      rw [arrive_self]
      exact List.Nodup.append (conserved.once c) (List.nodup_append.mp fresh).2.1 fun m held item => new item held
    · rw [arrive_other _ _ here]
      exact conserved.once c

omit [DecidableEq κ] in
theorem moves_conserved {stock stock' : Stock ι α} (conserved : Conserved stock) (moves : Moves net stock stock') :
    Conserved stock' := by
  induction moves with
  | refl => exact conserved
  | tail _ move ih =>
    cases move with
    | arrive fresh entry => exact arrive_conserved fresh ih
    | shift apart inside front forth => exact shift_conserved apart front ih

/-- Something that has arrived is nowhere. -/
def Lost {ι α : Type*} (stock : Stock ι α) : Prop := ∃ m ∈ stock.arrived, ∀ a, m ∉ stock.held a

omit [DecidableEq ι] in
theorem Lost.not_conserved {stock : Stock ι α} (lost : Lost stock) : ¬ Conserved stock := by
  intro conserved
  obtain ⟨m, arrived, nowhere⟩ := lost
  obtain ⟨a, held⟩ := (conserved.whole m).mp arrived
  exact nowhere a held

omit [DecidableEq κ] in
/-- What is lost stays lost. -/
theorem moves_lost {stock stock' : Stock ι α} (lost : Lost stock) (moves : Moves net stock stock') : Lost stock' := by
  induction moves with
  | refl => exact lost
  | tail _ move ih =>
    obtain ⟨m, arrived, nowhere⟩ := ih
    cases move with
    | @arrive a items fresh entry =>
      refine ⟨m, List.mem_append_left _ arrived, fun c => ?_⟩
      by_cases here : c = a
      · rw [here, arrive_self, List.mem_append]
        rintro (held | item)
        · exact nowhere a held
        · exact List.disjoint_of_nodup_append fresh arrived item
      · rw [arrive_other _ _ here]
        exact nowhere c
    | @shift a b items rest apart inside front forth =>
      have source : m ∉ items ++ rest := front ▸ nowhere a
      refine ⟨m, arrived, fun c held => ?_⟩
      rcases (shift_mem apart front m c).mp held with ⟨-, left⟩ | ⟨-, before | moved⟩ | ⟨-, -, held⟩
      · exact source (List.mem_append_right _ left)
      · exact nowhere b before
      · exact source (List.mem_append_left _ moved)
      · exact nowhere c held

/-! ### Moves keep the order -/

omit [DecidableEq ι] in
private theorem line_sublist {k : κ} {held held' : ι → List α}
    (fewer : ∀ a ∈ net.way k, ((held' a).filter (net.kind · = k)).Sublist ((held a).filter (net.kind · = k))) :
    (line net k held').Sublist (line net k held) := by
  have along : ∀ way : List ι, (∀ a ∈ way, ((held' a).filter (net.kind · = k)).Sublist ((held a).filter (net.kind · = k))) →
      (way.flatMap fun a => (held' a).filter (net.kind · = k)).Sublist
        (way.flatMap fun a => (held a).filter (net.kind · = k)) := by
    intro way
    induction way with
    | nil => intro _; exact .refl _
    | cons a way ih =>
      intro fewer
      rw [List.flatMap_cons, List.flatMap_cons]
      exact (fewer a List.mem_cons_self).append (ih fun b member => fewer b (List.mem_cons_of_mem a member))
  exact along _ fewer

/-- A block that goes on to the next place stays where it is in its line. -/
theorem shift_line {stock : Stock ι α} {a b : ι} {items rest : List α} (apart : a ≠ b)
    (front : stock.held a = items ++ rest) (onWay : ∀ m ∈ items, a ∈ net.way (net.kind m))
    (forth : ∀ m ∈ items, a ∈ net.way (net.kind m) → net.sink b ∨ Next (net.way (net.kind m)) b a) (k : κ) :
    (line net k (stock.shift a b items rest).held).Sublist (line net k stock.held) := by
  by_cases none : items.filter (net.kind · = k) = []
  · -- no item of this kind moves
    refine line_sublist fun c _ => ?_
    by_cases source : c = a
    · subst source
      rw [shift_source _ _ _ apart, front, List.filter_append, none, List.nil_append]
    · by_cases target : c = b
      · subst target
        rw [shift_target, List.filter_append, none, List.append_nil]
      · rw [shift_other _ _ _ source target]
  · obtain ⟨m, member⟩ := List.exists_mem_of_ne_nil _ none
    rw [List.mem_filter, decide_eq_true_eq] at member
    obtain ⟨item, rfl⟩ := member
    rcases forth m item (onWay m item) with sink | ⟨ahead, behind, way⟩
    · refine line_sublist fun c along => ?_
      have notTarget : c ≠ b := by
        rintro rfl
        exact net.ends _ c along sink
      by_cases source : c = a
      · subst source
        rw [shift_source _ _ _ apart, front, List.filter_append]
        exact List.sublist_append_right ..
      · rw [shift_other _ _ _ source notTarget]
    · have straight := net.straight (net.kind m)
      rw [way, List.nodup_append] at straight
      obtain ⟨-, tail, across⟩ := straight
      obtain ⟨notB, tail⟩ := List.nodup_cons.mp tail
      obtain ⟨notA, -⟩ := List.nodup_cons.mp tail
      have sameAhead : ∀ c ∈ ahead, (stock.shift a b items rest).held c = stock.held c := fun c member =>
        shift_other _ _ _ (across c member a (by simp)) (across c member b (by simp))
      have sameBehind : ∀ c ∈ behind, (stock.shift a b items rest).held c = stock.held c := fun c member =>
        shift_other _ _ _ (fun same => notA (same ▸ member)) (fun same => notB (same ▸ List.mem_cons_of_mem a member))
      have ahead_eq := List.flatMap_congr (l := ahead) fun c member =>
        congrArg (List.filter (net.kind · = net.kind m)) (sameAhead c member)
      have behind_eq := List.flatMap_congr (l := behind) fun c member =>
        congrArg (List.filter (net.kind · = net.kind m)) (sameBehind c member)
      rw [line, line, way]
      simp only [List.flatMap_append, List.flatMap_cons, ahead_eq, behind_eq, shift_target, shift_source _ _ _ apart,
        front, List.filter_append, List.append_assoc]
      exact .refl _

theorem arrive_line {stock : Stock ι α} {a : ι} {items : List α}
    (entry : ∀ m ∈ items, ∃ front, net.way (net.kind m) = front ++ [a]) (k : κ) :
    (line net k (stock.arrive a items).held).Sublist (line net k stock.held ++ items) := by
  by_cases none : items.filter (net.kind · = k) = []
  · refine .trans (line_sublist fun c _ => ?_) (List.sublist_append_left ..)
    by_cases here : c = a
    · subst here
      rw [arrive_self, List.filter_append, none, List.append_nil]
    · rw [arrive_other _ _ here]
  · obtain ⟨m, member⟩ := List.exists_mem_of_ne_nil _ none
    rw [List.mem_filter, decide_eq_true_eq] at member
    obtain ⟨item, rfl⟩ := member
    obtain ⟨front, way⟩ := entry m item
    have straight := net.straight (net.kind m)
    rw [way, List.nodup_append] at straight
    have sameFront : ∀ c ∈ front, (stock.arrive a items).held c = stock.held c := fun c member =>
      arrive_other _ _ (straight.2.2 c member a List.mem_cons_self)
    have front_eq := List.flatMap_congr (l := front) fun c member =>
      congrArg (List.filter (net.kind · = net.kind m)) (sameFront c member)
    rw [line, line, way]
    simp only [List.flatMap_append, List.flatMap_cons, List.flatMap_nil, List.append_nil, front_eq, arrive_self,
      List.filter_append, List.append_assoc]
    exact .append_left (.append_left (List.filter_sublist ..) _) _

/-! ### Runs of moves -/

theorem move_sound {stock stock' : Stock ι α} (sound : Sound net stock) (move : Move net stock stock') :
    Sound net stock' := by
  cases move with
  | @arrive a items fresh entry =>
    refine ⟨arrive_conserved fresh sound.conserved, ?_, fun k => ?_⟩
    · intro c m held
      by_cases here : c = a
      · subst here
        rw [arrive_self, List.mem_append] at held
        rcases held with held | item
        · exact sound.onWay held
        · obtain ⟨front, way⟩ := entry m item
          exact .inl (by rw [way]; simp)
      · rw [arrive_other _ _ here] at held
        exact sound.onWay held
    · exact (arrive_line entry k).trans ((sound.ordered k).append_right items)
  | @shift a b items rest apart inside front forth =>
    have onWay : ∀ m ∈ items, a ∈ net.way (net.kind m) := fun m item =>
      (sound.onWay (by rw [front]; exact List.mem_append_left _ item)).resolve_right inside
    refine ⟨shift_conserved apart front sound.conserved, ?_, fun k => ?_⟩
    · intro c m held
      rcases (shift_mem apart front m c).mp held with ⟨rfl, left⟩ | ⟨rfl, before | moved⟩ | ⟨_, _, held⟩
      · exact sound.onWay (by rw [front]; exact List.mem_append_right _ left)
      · exact sound.onWay before
      · rcases forth m moved (onWay m moved) with sink | ⟨_, _, way⟩
        · exact .inr sink
        · exact .inl (by rw [way]; simp)
      · exact sound.onWay held
    · exact (shift_line apart front onWay forth k).trans (sound.ordered k)

theorem moves_sound {stock stock' : Stock ι α} (sound : Sound net stock) (moves : Moves net stock stock') :
    Sound net stock' := by
  induction moves with
  | refl => exact sound
  | tail _ move ih => exact move_sound ih move

omit [DecidableEq ι] in
theorem empty_sound {stock : Stock ι α} (none : stock.arrived = []) (empty : ∀ a, stock.held a = []) :
    Sound net stock := by
  refine ⟨⟨fun m => ?_, ?_, fun a => ?_⟩, ?_, fun k => ?_⟩
  · simp [none, empty]
  · intro a b m held
    simp [empty] at held
  · rw [empty]
    exact List.nodup_nil
  · intro a m held
    simp [empty] at held
  · have nothing : line net k stock.held = [] := by simp [line, empty]
    rw [nothing]
    exact List.nil_sublist _

omit [DecidableEq ι] in
/-- Items of one kind in one place of their way stand as they arrived. -/
theorem Sound.inOrder {stock : Stock ι α} (sound : Sound net stock) {a : ι} {k : κ} (along : a ∈ net.way k)
    {items : List α} (here : items.Sublist (stock.held a)) (kinds : ∀ m ∈ items, net.kind m = k) :
    items.Sublist stock.arrived := by
  have kept : items.filter (net.kind · = k) = items := List.filter_eq_self.mpr fun m item => by simp [kinds m item]
  have part : ((stock.held a).filter (net.kind · = k)).Sublist (line net k stock.held) :=
    List.sublist_flatten_of_mem (List.mem_map_of_mem along)
  rw [← kept]
  exact ((here.filter _).trans part).trans (sound.ordered k)

end Flow
end Shardb.Flow
