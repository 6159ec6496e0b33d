import Shardb.Interpreter
import Shardb.Messages
import Shardb.Routing
import Shardb.Runs

/-!
# `savepoint_count` under the multi-partition handlers

The counter of a shard is meant to be the number of save points of its
transaction, and 0 when there is none. The handlers keep it so (`Sound`), except
`handle_multidb_rollback`: it counts down on shards that have nothing to roll
back, and a shard whose last save point is rolled back keeps its transaction
with the counter at 0.
-/

namespace Shardb.Savepoints
open Shardb.Bytes Shardb.CStrings Shardb.Loops Shardb.Journal Shardb.Rocks Shardb.Datastore Shardb.Handlers Shardb.Tokens
open Shardb.Messages Shardb.Interpreter Shardb.Routing Shardb.Runs

/-! ### Access to the shard of a key -/

section Access
variable {i : Nat} {op : Cell → Result (Int × Cell)} {c : Cell}

theorem access_counting (counting : c.savepoint_count ≠ 0) : access i op c = op c := by
  rw [access, if_neg counting]

theorem access_busy (zero : c.savepoint_count = 0) (busy : c.tx_db = false ∨ c.tx ≠ none) :
    access i op c = .ok (-1, c) := by
  simp [access, zero, begin_busy busy]

theorem access_faulty (zero : c.savepoint_count = 0) (opened : c.tx_db = true) (empty : c.tx = none)
    (faulty : c.lib.fails .begin = true) : access i op c = .ok (-1, { c with lib := c.lib.tick (.begin i none) }) := by
  have idle : ∀ body, onTransaction body { c with lib := c.lib.tick (.begin i none) } =
      (-1, { c with lib := c.lib.tick (.begin i none) }) := onTransaction_idle (.inr empty)
  simp [access, zero, begin_faulty opened empty i faulty, set_savepoint, idle, delete_transaction, opened, empty]

theorem access_fresh (zero : c.savepoint_count = 0) (opened : c.tx_db = true) (empty : c.tx = none)
    (fine : c.lib.fails .begin = false) : access i op c = op { begunCell i c with savepoint_count := 1 } := by
  have begins : (begin_transaction i c).1 = 0 := by rw [begin_fresh opened empty i fine]
  simp [access, zero, begins, begun_savepoint opened empty fine i]

end Access

/-- The key of a data command, when its handler found one. -/
def keyOf : Command → Option Text
  | .read key | .write key _ | .delete key => key
  | .savepoint | .rollback => none

/-- A data command works on shard 0 for the keys of the first slice. -/
theorem multi_data {cmd : Command} (data : isData cmd) (rocks : Env) : multi cmd rocks = (do
    let key ← need (keyOf cmd)
    if 0 ≤ atoi key ∧ atoi key < slice rocks.num_workers then onShardM rocks 0 (access 0 (singleCell cmd))
    else .ok (-1, rocks)) := by
  cases cmd with
  | read key =>
    cases key with
    | none => rfl
    | some key => exact multidb_loop_eq ..
  | write key val =>
    cases key with
    | none => rfl
    | some key => exact multidb_loop_eq ..
  | delete key =>
    cases key with
    | none => rfl
    | some key => exact multidb_loop_eq ..
  | savepoint => cases data
  | rollback => cases data

theorem countChange_data {cmd : Command} (data : isData cmd) : countChange cmd = 0 := by
  cases cmd with
  | savepoint => cases data
  | rollback => cases data
  | _ => rfl

/-! ### The counter of a shard -/

/-- The number of save points on what is in `tx[i]`. -/
def depth : Option Transaction → Nat
  | none => 0
  | some tx => tx.saved.length

/-- What the counter is meant to say about a shard. -/
structure Sound (s : Shard) : Prop where
  count : s.savepoint_count = depth s.tx
  slot : s.savepoint_count = 0 → s.tx = none
  opened : s.tx ≠ none → s.tx_db = true

theorem sound_empty {s : Shard} (empty : s.tx = none) (zero : s.savepoint_count = 0) : Sound s :=
  ⟨by rw [zero, empty]; rfl, fun _ => empty, fun taken => absurd empty taken⟩

/-- A transaction with as many save points as the counter says. -/
theorem sound_serving {c : Cell} {tx : Transaction} (serving : Serving c tx) (count : c.savepoint_count = tx.saved.length)
    (positive : 0 < c.savepoint_count) : Sound c.toShard :=
  ⟨by rw [serving.slot]; exact count, fun zero => by omega, fun _ => serving.opened⟩

theorem Sound.serving {c : Cell} (sound : Sound c.toShard) (counting : c.savepoint_count ≠ 0) :
    ∃ tx, Serving c tx ∧ c.savepoint_count = tx.saved.length ∧ 0 < c.savepoint_count := by
  have count := sound.count
  cases slot : c.tx with
  | none =>
    rw [slot] at count
    exact absurd count counting
  | some tx =>
    rw [slot] at count
    have opened := sound.opened (by rw [slot]; exact Option.some_ne_none tx)
    have count' : c.savepoint_count = (tx.saved.length : Int) := count
    exact ⟨tx, ⟨opened, slot⟩, count', by omega⟩

/-- A command that leaves save points keeps the counter sound. -/
private theorem effect_sound {cmd : Command} {c c' : Cell} {tx : Transaction} {ret : Int} (forward : cmd ≠ .rollback)
    (serving : Serving c tx) (count : c.savepoint_count = tx.saved.length) (positive : 0 < c.savepoint_count)
    (effect : Effect cmd c tx ret c') : Sound c'.toShard ∧ c'.lib.faults = c.lib.faults := by
  cases effect with
  | carried accepted done =>
    have kept := carriedOut_kept serving done
    have same := kept.depth
    have more := countChange_forward forward
    refine ⟨sound_serving kept.serving (by omega) ?_, kept.faults⟩
    simp only [carriedOut]
    omega
  | failed ok reason => exact ⟨sound_serving ⟨serving.opened, serving.slot⟩ count positive, rfl⟩

theorem access_sound {cmd : Command} {i : Nat} {c c' : Cell} {ret : Int} (data : isData cmd) (sound : Sound c.toShard)
    (ran : access i (singleCell cmd) c = .ok (ret, c')) : Sound c'.toShard ∧ c'.lib.faults = c.lib.faults := by
  have notRollback : cmd ≠ .rollback := by rintro rfl; cases data
  by_cases zero : c.savepoint_count = 0
  · have empty : c.tx = none := sound.slot zero
    cases opened : c.tx_db with
    | false =>
      rw [access_busy zero (.inl opened)] at ran
      cases ran
      exact ⟨sound, rfl⟩
    | true =>
      cases fine : c.lib.fails .begin with
      | true =>
        rw [access_faulty zero opened empty fine] at ran
        cases ran
        exact ⟨sound, rfl⟩
      | false =>
        rw [access_fresh zero opened empty fine] at ran
        have serving : Serving { begunCell i c with savepoint_count := 1 }
            { writes := [], saved := [[]], id := c.lib.next } := ⟨opened, rfl⟩
        obtain ⟨sound', faults⟩ := effect_sound notRollback serving rfl Int.one_pos (singleCell_effect serving ran)
        exact ⟨sound', faults⟩
  · obtain ⟨tx, serving, count, positive⟩ := sound.serving zero
    rw [access_counting zero] at ran
    exact effect_sound notRollback serving count positive (singleCell_effect serving ran)

theorem setsavepoint_shard_sound {c : Cell} (sound : Sound c.toShard) :
    Sound (setsavepoint_shard c).2.toShard ∧ (setsavepoint_shard c).2.lib.faults = c.lib.faults := by
  unfold setsavepoint_shard
  split_ifs with positive
  · obtain ⟨tx, serving, count, _⟩ := sound.serving (by omega)
    have ran : singleCell .savepoint c = .ok ((counted_savepoint c).1, (counted_savepoint c).2) := rfl
    exact effect_sound (by simp) serving count positive (singleCell_effect serving ran)
  · exact ⟨sound, rfl⟩

/-- What a rollback makes of a shard: one save point less, in any case on the counter. -/
structure Sunk (s s' : Shard) : Prop where
  count : s'.savepoint_count = s.savepoint_count - 1
  depth : depth s'.tx = depth s.tx - 1
  slot : s'.tx = none ↔ s.tx = none
  opened : s'.tx_db = s.tx_db

theorem rollback_shard_sunk {c : Cell} (sound : Sound c.toShard) (calm : ∀ t, c.lib.faults t .rollback = false) :
    0 ≤ (rollback_shard c).1 ∧ Sunk c.toShard (rollback_shard c).2.toShard ∧
      (rollback_shard c).2.lib.faults = c.lib.faults := by
  unfold rollback_shard
  split_ifs with positive
  · obtain ⟨tx, serving, count, _⟩ := sound.serving (by omega)
    cases saved : tx.saved with
    | nil => rw [saved] at count; simp at count; omega
    | cons newest older =>
      have restored : tx.restore = some ⟨newest, older⟩ := by simp [Batch.restore, saved]
      have accepted : c.lib.fails .rollback = false := calm _
      simp only [rollback_serving serving, restored, accepted]
      refine ⟨Int.le_refl 0, ⟨rfl, ?_, ?_, rfl⟩, rfl⟩
      · simp [depth, serving.slot, saved]
      · simp [serving.slot]
  · have zero : c.savepoint_count = 0 := by
      have := sound.count
      omega
    have empty := sound.slot zero
    refine ⟨Int.le_refl 0, ⟨rfl, ?_, Iff.rfl, rfl⟩, rfl⟩
    change depth c.tx = depth c.tx - 1
    rw [empty]
    rfl

/-! ### All shards -/

/-- The counters of all shards are sound, and rollbacks fail for want of a save
    point only. -/
structure AllSound (rocks : Env) : Prop where
  sound : ∀ i, Sound (rocks.shard i)
  calm : ∀ t, rocks.lib.faults t .rollback = false

theorem AllSound.put {rocks : Env} (all : AllSound rocks) {i : Nat} {c : Cell} (sound : Sound c.toShard)
    (faults : c.lib.faults = rocks.lib.faults) : AllSound (rocks.put i c) where
  sound j := by
    by_cases here : j = i
    · rw [here, put_shard_self]
      exact sound
    · rw [put_shard_other rocks i c here]
      exact all.sound j
  calm t := by rw [put_lib, faults]; exact all.calm t

/-- What every shard's turn keeps is kept by the loop over the shards. -/
theorem every_shard_keeps {f : Cell → Int × Cell} {Inv : Env → Prop}
    (keeps : ∀ i rocks, Inv rocks → Inv (rocks.onShard i f).2) {rocks rocks' : Env} {ret : Int} (inv : Inv rocks)
    (ran : every_shard f rocks = .ok (ret, rocks')) : Inv rocks' := by
  obtain ⟨done, looped, ran⟩ := bind_eq_ok.mp ran
  have kept := forLoop_ok (n := rocks.num_workers) (fun _ => Inv) (fun answer => Inv answer.2)
    (by
      intro i s next _ holds once
      simp only at once
      split_ifs at once
      · cases once
      · cases once
        exact keeps i s holds)
    (by
      intro i s answer _ holds once
      simp only at once
      split_ifs at once
      · cases once
        exact keeps i s holds
      · cases once) (Nat.zero_add _) inv looped
  cases done with
  | inl last => cases ran; exact kept.1 _ rfl
  | inr answer => cases ran; exact kept.2 _ rfl

/-- When no shard reports an error all of them have their turn. -/
theorem every_shard_all {f : Cell → Int × Cell} {rocks : Env} (Inv : Nat → Env → Prop)
    (fine : ∀ i s, i < rocks.num_workers → Inv i s → 0 ≤ (s.onShard i f).1 ∧ Inv (i + 1) (s.onShard i f).2)
    (inv : Inv 0 rocks) : ∃ rocks', every_shard f rocks = .ok (0, rocks') ∧ Inv rocks.num_workers rocks' := by
  obtain ⟨last, looped, holds⟩ := forLoop_total (ε := Fault) (α := Int × Env) (n := rocks.num_workers)
    (fun i (rocks : Env) =>
      if (rocks.onShard i f).1 < 0 then Except.ok (Sum.inr ((-1 : Int), (rocks.onShard i f).2))
      else .ok (.inl (rocks.onShard i f).2)) Inv
    (by
      intro i s inside holds
      obtain ⟨zero, next⟩ := fine i s inside holds
      exact ⟨_, if_neg (by omega), next⟩) (Nat.zero_add _) inv
  exact ⟨last, by simp only [every_shard, looped]; rfl, holds⟩

/-- The handlers other than `handle_multidb_rollback` keep the counters sound. -/
theorem multi_sound {cmd : Command} (other : cmd ≠ .rollback) {rocks rocks' : Env} {ret : Int} (all : AllSound rocks)
    (ran : multi cmd rocks = .ok (ret, rocks')) : AllSound rocks' := by
  by_cases data : isData cmd
  · rw [multi_data data] at ran
    cases given : keyOf cmd with
    | none => rw [given] at ran; cases ran
    | some key =>
      simp only [given, need_some, bind_ok] at ran
      split_ifs at ran
      · obtain ⟨answer, accessed, left⟩ := bind_eq_ok.mp ran
        cases left
        obtain ⟨sound, faults⟩ := access_sound data (c := rocks.cell 0) (all.sound 0) accessed
        exact all.put sound faults
      · cases ran
        exact all
  · obtain rfl : cmd = .savepoint := by
      cases cmd with
      | savepoint => rfl
      | rollback => exact absurd rfl other
      | _ => exact absurd rfl data
    refine every_shard_keeps (f := setsavepoint_shard) (fun i rocks all => ?_) all ran
    obtain ⟨sound, faults⟩ := setsavepoint_shard_sound (c := rocks.cell i) (all.sound i)
    exact all.put sound faults

/-- `handle_multidb_rollback` takes one from the counter of every shard. -/
theorem rollback_all {rocks rocks' : Env} {ret : Int} (all : AllSound rocks)
    (ran : multi .rollback rocks = .ok (ret, rocks')) :
    rocks'.lib.faults = rocks.lib.faults ∧
      ∀ i, (i < rocks.num_workers → Sunk (rocks.shard i) (rocks'.shard i)) ∧
        (rocks.num_workers ≤ i → rocks'.shard i = rocks.shard i) := by
  obtain ⟨last, looped, faults, behind, ahead⟩ := every_shard_all (f := rollback_shard)
    (fun i s => s.lib.faults = rocks.lib.faults ∧ (∀ j, j < i → Sunk (rocks.shard j) (s.shard j)) ∧
      ∀ j, i ≤ j → s.shard j = rocks.shard j)
    (by
      rintro i s inside ⟨faults, behind, ahead⟩
      have sound : Sound (s.cell i).toShard := by
        change Sound (s.shard i)
        rw [ahead i (Nat.le_refl i)]
        exact all.sound i
      obtain ⟨zero, sunk, faults'⟩ := rollback_shard_sunk sound (by
        intro t
        change s.lib.faults t .rollback = false
        rw [faults]
        exact all.calm t)
      refine ⟨zero, faults'.trans faults, fun j before => ?_, fun j after => ?_⟩
      · rw [onShard_eq]
        by_cases here : j = i
        · rw [here, put_shard_self, ← ahead i (Nat.le_refl i)]
          exact sunk
        · rw [put_shard_other s i _ here]
          exact behind j (by omega)
      · rw [onShard_eq, put_shard_other s i _ (by omega)]
        exact ahead j (by omega))
    ⟨rfl, fun j before => absurd before (Nat.not_lt_zero j), fun j _ => rfl⟩
  have same : multi .rollback rocks = .ok (0, last) := looped
  rw [same] at ran
  cases ran
  exact ⟨faults, fun i => ⟨behind i, ahead i⟩⟩

/-! ### Runs of the handlers -/

/-- The handlers. -/
inductive Handler
  | read
  | write
  | delete
  | setsavepoint
  | rollback
  deriving DecidableEq

/-- One call of a handler that returns. -/
inductive Called (rocks : Env) : Handler → Env → Prop
  | read (mem : Mem Buf) (key : Ptr Buf) {a : Answer Env} (ran : handle_multidb_read rocks mem key = .ok a) :
      Called rocks .read a.rocks
  | write (mem : Mem Buf) (key : Ptr Buf) {a : Answer Env} (ran : handle_multidb_write rocks mem key = .ok a) :
      Called rocks .write a.rocks
  | delete (mem : Mem Buf) (key : Ptr Buf) {a : Answer Env} (ran : handle_multidb_delete rocks mem key = .ok a) :
      Called rocks .delete a.rocks
  | setsavepoint {ret : Int} {rocks' : Env} (ran : handle_multidb_setsavepoint rocks = .ok (ret, rocks')) :
      Called rocks .setsavepoint rocks'
  | rollback {ret : Int} {rocks' : Env} (ran : handle_multidb_rollback rocks = .ok (ret, rocks')) :
      Called rocks .rollback rocks'

/-- What the counters are meant to say: they are not negative, they count the
    save points, and there is no transaction where they are 0. -/
def Counted (rocks : Env) : Prop :=
  ∀ i, 0 ≤ (rocks.shard i).savepoint_count ∧ (rocks.shard i).savepoint_count = depth (rocks.shard i).tx ∧
    ((rocks.shard i).savepoint_count = 0 → (rocks.shard i).tx = none)

/-- Every shard has a transaction with two save points or more. -/
def Deep (rocks : Env) : Prop := ∀ i, i < rocks.num_workers → 2 ≤ (rocks.shard i).savepoint_count

/-- A handler carries out one command. -/
theorem called_multi {rocks rocks' : Env} {h : Handler} (called : Called rocks h rocks') :
    ∃ cmd ret, multi cmd rocks = .ok (ret, rocks') ∧ (h = .rollback ↔ cmd = .rollback) := by
  -- the answer of a handler that takes arguments is that of its command
  have unanswered : ∀ {cmd : Command} {mem' : Mem Buf} {a : Answer Env},
      (multi cmd rocks).map (fun a => (⟨some cmd, some a.1, mem', a.2⟩ : Answer Env)) = .ok a →
        ∃ ret, multi cmd rocks = .ok (ret, a.rocks) := by
    intro cmd mem' a ran
    obtain ⟨⟨ret, left⟩, answered, rfl⟩ := ok_of_map ran
    exact ⟨ret, answered⟩
  cases called with
  | read mem key ran =>
    obtain ⟨mem', c, handled, _⟩ := key_handler_eq multi .read mem key
    obtain ⟨ret, answered⟩ := unanswered ((handled rocks).symm.trans ran)
    exact ⟨_, ret, answered, by simp⟩
  | write mem key ran =>
    obtain ⟨mem', c, handled, _⟩ := keyval_handler_eq multi mem key
    obtain ⟨ret, answered⟩ := unanswered ((handled rocks).symm.trans ran)
    exact ⟨_, ret, answered, by simp⟩
  | delete mem key ran =>
    obtain ⟨mem', c, handled, _⟩ := key_handler_eq multi .delete mem key
    obtain ⟨ret, answered⟩ := unanswered ((handled rocks).symm.trans ran)
    exact ⟨_, ret, answered, by simp⟩
  | setsavepoint ran => exact ⟨_, _, ran, by simp⟩
  | rollback ran => exact ⟨_, _, ran, by simp⟩

theorem AllSound.counted {rocks : Env} (all : AllSound rocks) : Counted rocks := fun i =>
  ⟨by have := (all.sound i).count; omega, (all.sound i).count, (all.sound i).slot⟩

/-- From shards without transactions, the counters are right in all states of a
    run of the handlers exactly when `handle_multidb_rollback` is only called
    with two save points or more on every shard. -/
theorem counted_iff {start last : Env} {calls : List (Env × Handler × Env)}
    (empty : ∀ i, (start.shard i).tx = none) (zero : ∀ i, (start.shard i).savepoint_count = 0)
    (calm : ∀ t, start.lib.faults t .rollback = false) (run : Run Called start calls last) :
    (Counted start ∧ ∀ call ∈ calls, Counted call.2.2) ↔ ∀ call ∈ calls, call.2.1 = .rollback → Deep call.1 := by
  refine run_keeps_iff AllSound (fun rocks h => h = .rollback → Deep rocks) ?_ ?_
    (fun rocks all => all.counted) ⟨fun i => sound_empty (empty i) (zero i), calm⟩ run
  · intro rocks h rocks' all called deep
    obtain ⟨cmd, ret, ran, same⟩ := called_multi called
    by_cases other : cmd = .rollback
    · subst other
      obtain ⟨faults, sunk⟩ := rollback_all all ran
      refine ⟨fun i => ?_, fun t => by rw [faults]; exact all.calm t⟩
      rcases Nat.lt_or_ge i rocks.num_workers with inside | outside
      · have below := (sunk i).1 inside
        have two := deep (same.mpr rfl) i inside
        have count := (all.sound i).count
        have deeper := below.depth
        refine ⟨by rw [below.count]; omega, fun spent => ?_, fun taken => ?_⟩
        · rw [below.count] at spent
          omega
        · rw [below.opened]
          exact (all.sound i).opened (fun none => taken (below.slot.mpr none))
      · rw [(sunk i).2 outside]
        exact all.sound i
    · exact multi_sound other all ran
  · intro rocks h rocks' all called shallow counted
    obtain ⟨cmd, ret, ran, same⟩ := called_multi called
    simp only [Classical.not_imp, Deep, not_forall] at shallow
    obtain ⟨isRollback, i, inside, few⟩ := shallow
    obtain rfl := same.mp isRollback
    have below := ((rollback_all all ran).2 i).1 inside
    obtain ⟨nonneg, _, slot⟩ := counted i
    rw [below.count] at nonneg slot
    -- one save point at least was counted, so its transaction is still there
    have one : (rocks.shard i).savepoint_count = 1 := by omega
    have left := below.slot.mp (slot (by omega))
    have count := (all.sound i).count
    rw [left, one] at count
    cases count

/-- `handle_multidb_write`, `handle_multidb_setsavepoint` and `handle_multidb_rollback` in
    turn. -/
theorem write_savepoint_counted :
    ∃ middle before last, Called (untouched 1 (by decide)) .write middle ∧ Called middle .setsavepoint before ∧
      Called before .rollback last ∧ Counted last := by
  have played : (handle_multidb_write (untouched 1 (by decide)) ⟨fun _ => ascii " 1 a" ++ [0], none⟩ ⟨.val, 0⟩ >>= fun a =>
      (handle_multidb_setsavepoint a.rocks).map fun b => (b.2.num_workers, (b.2.shard 0).savepoint_count)) = .ok (1, 2) := by
    decide +kernel
  obtain ⟨a, wrote, played⟩ := bind_eq_ok.mp played
  obtain ⟨⟨ret, before⟩, saved, known⟩ := ok_of_map played
  obtain ⟨workers, count⟩ := Prod.mk.inj known
  obtain ⟨⟨ret', last⟩, rolled⟩ := every_shard_returns rollback_shard before
  have writes : Called (untouched 1 (by decide)) .write a.rocks := .write _ _ wrote
  have saves : Called a.rocks .setsavepoint before := .setsavepoint saved
  have rolls : Called before .rollback last := .rollback rolled
  have deep : Deep before := fun i inside => by
    obtain rfl : i = 0 := by
      rw [workers] at inside
      omega
    exact Int.le_of_eq count.symm
  have counted := (counted_iff (fun _ => rfl) (fun _ => rfl) (fun _ => rfl)
    (((Run.stay.next writes).next saves).next rolls)).mpr (by simpa using deep)
  exact ⟨a.rocks, before, last, writes, saves, rolls, counted.2 (before, .rollback, last) (by simp)⟩

/-- On a shard without a transaction the rollback handler counts below 0. -/
theorem rollback_counts_below_zero :
    ∃ start last, (∀ i, (start.shard i).tx = none) ∧ (∀ i, (start.shard i).savepoint_count = 0) ∧
      (∀ t, start.lib.faults t .rollback = false) ∧ Run Called start [(start, .rollback, last)] last ∧ ¬ Counted last := by
  refine ⟨untouched 1 (by decide), _, fun _ => rfl, fun _ => rfl, fun _ => rfl, .next .stay (.rollback rfl), ?_⟩
  intro counted
  exact absurd (counted 0).1 (by decide)

end Shardb.Savepoints
