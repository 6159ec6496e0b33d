import Shardb.Tokens

/-!
# Which shard a key is sent to

The `handle_multidb_*` handlers look for the shard of a key by moving a lower
bound, and compare with an upper bound that stays at the end of the first
slice. So the loop finds shard 0 or nothing (`multidb_loop_eq`).
-/

namespace Shardb.Routing
open Shardb.Bytes (Text ascii)
open Shardb.CStrings Shardb.Loops Shardb.Rocks Shardb.Datastore Shardb.Handlers Shardb.Tokens

/-- The number of keys of one shard. -/
def slice (n : Nat) : Nat := MAX_NUM_KEYS / n

/-- The loop runs `op` on shard 0 for the keys of the first slice and gives up
    on all other keys. -/
theorem multidb_loop_eq (op : Cell → Result (Int × Cell)) (k : Int) (rocks : Env) :
    multidb_loop op k rocks =
      if 0 ≤ k ∧ k < slice rocks.num_workers then onShardM rocks 0 (access 0 op) else .ok (-1, rocks) := by
  by_cases first : 0 ≤ k ∧ k < slice rocks.num_workers
  · obtain ⟨m, workers⟩ := Nat.exists_eq_add_of_le' rocks.staffed
    have here : 0 ≤ k ∧ k < ((MAX_NUM_KEYS / (m + 1) : Nat) : Int) := by rw [← workers]; exact first
    rw [if_pos first]
    simp only [multidb_loop, workers, forLoop, here, and_self, if_true]
    cases onShardM rocks 0 (access 0 op) <;> rfl
  · rw [if_neg first]
    -- every pass goes on: the lower bound never falls below 0
    obtain ⟨last, run, _⟩ := forLoop_total (ε := Fault) (α := Int × Env) (n := rocks.num_workers)
      (fun i lower_bound =>
        if lower_bound ≤ k ∧ k < ((MAX_NUM_KEYS / rocks.num_workers : Nat) : Int) then
          (onShardM rocks i (access i op)).map .inr
        else .ok (.inl (lower_bound + ((MAX_NUM_KEYS / rocks.num_workers : Nat) : Int))))
      (fun _ lower_bound => 0 ≤ lower_bound)
      (by
        intro i lower_bound _ low
        refine ⟨_, if_neg ?_, Int.add_nonneg low (Int.natCast_nonneg _)⟩
        intro both
        exact first ⟨by omega, both.2⟩) (Nat.zero_add _) (Int.le_refl 0)
    simp only [multidb_loop, run, bind_ok]
    rfl

/-- `op` on the shard whose slice holds key `k`; keys of no shard are refused. -/
def route (op : Cell → Result (Int × Cell)) (k : Int) (rocks : Env) : Result (Int × Env) :=
  if 0 ≤ k ∧ k < MAX_NUM_KEYS then
    let i := (k / slice rocks.num_workers).toNat
    onShardM rocks i (access i op)
  else .ok (-1, rocks)

/-- A function of a shard that leaves the counter alone. -/
def KeepsCount (op : Cell → Result (Int × Cell)) : Prop :=
  ∀ c a, op c = .ok a → a.2.savepoint_count = c.savepoint_count

theorem onTransaction_count {body : Transaction → Int × Cell} {c : Cell}
    (keeps : ∀ tx, (body tx).2.savepoint_count = c.savepoint_count) :
    (onTransaction body c).2.savepoint_count = c.savepoint_count := by
  unfold onTransaction
  split_ifs
  · rfl
  · split
    · rfl
    · exact keeps _

theorem read_keepsCount (key : Text) : KeepsCount (fun c => .ok (read_keyval_pair key c)) := by
  rintro c a ⟨⟩
  exact onTransaction_count fun _ => rfl

theorem write_keepsCount (key : Text) (val : Option Text) :
    KeepsCount (fun c => do let v ← need val; return write_keyval_pair key v c) := by
  rintro c a ran
  cases val with
  | none => cases ran
  | some v =>
    cases ran
    exact onTransaction_count fun _ => rfl

theorem delete_keepsCount (key : Text) : KeepsCount (fun c => .ok (delete_keyval_pair key c)) := by
  rintro c a ⟨⟩
  exact onTransaction_count fun _ => rfl

/-- `n` open shards on which nothing has happened. -/
def untouched (n : Nat) (staffed : 0 < n) : Env where
  num_workers := n
  workers := fun _ => { transaction_lock := false, transaction_done := 0 }
  shard := fun _ => { tx_db := true, tx := none, savepoint_count := 0, committed := [] }
  lib := { faults := fun _ _ => false, clock := 0, next := 0, message := 0, trace := [] }
  staffed := staffed

/-- The loop agrees with the routing of keys to slices for the keys of the first
    slice and for those of no shard. -/
theorem multidb_loop_routes_iff {op : Cell → Result (Int × Cell)} (keeps : KeepsCount op) {n : Nat} (staffed : 0 < n)
    (k : Int) :
    (∀ rocks : Env, rocks.num_workers = n → multidb_loop op k rocks = route op k rocks) ↔
      ¬ (slice n ≤ k ∧ k < MAX_NUM_KEYS) := by
  have small : slice n ≤ MAX_NUM_KEYS := Nat.div_le_self _ _
  constructor
  · rintro agrees ⟨behind, inside⟩
    have same := agrees (untouched n staffed) rfl
    have nonneg : 0 ≤ k := by omega
    rw [multidb_loop_eq, if_neg (by rintro ⟨_, first⟩; exact absurd first (by change ¬ k < slice n; omega)), route,
      if_pos ⟨nonneg, inside⟩] at same
    -- the refused key would have begun a transaction on its shard
    simp only [onShardM] at same
    generalize (k / slice (untouched n staffed).num_workers).toNat = i at same
    have begun : access i op ((untouched n staffed).cell i) =
        op { tx_db := true, tx := some { writes := [], saved := [[]], id := 0 }, savepoint_count := 1, committed := [],
             lib := ⟨fun _ _ => false, 2, 1, 0, [.begin i (some 0), .setSavepoint 0]⟩ } := rfl
    rw [begun] at same
    cases ran : op { tx_db := true, tx := some { writes := [], saved := [[]], id := 0 }, savepoint_count := 1,
                     committed := [], lib := ⟨fun _ _ => false, 2, 1, 0, [.begin i (some 0), .setSavepoint 0]⟩ } with
    | error e => rw [ran] at same; cases same
    | ok answer =>
      rw [ran] at same
      have counted := keeps _ _ ran
      have left : (untouched n staffed).shard i = ((untouched n staffed).put i answer.2).shard i := by
        simp only [bind_ok, pure, Except.pure, Except.ok.injEq, Prod.mk.injEq] at same
        rw [← same.2]
      rw [put_shard_self] at left
      have zero : (0 : Int) = answer.2.savepoint_count := congrArg Shard.savepoint_count left
      rw [counted] at zero
      cases zero
  · intro outside rocks workers
    rw [multidb_loop_eq, route, workers]
    by_cases first : 0 ≤ k ∧ k < slice n
    · rw [if_pos first, if_pos ⟨first.1, by omega⟩, Int.ediv_eq_zero_of_lt first.1 first.2]
      rfl
    · rw [if_neg first, if_neg (by omega)]

/-- Return value and environment of a handler. -/
def outcome (answer : Result (Answer Env)) : Result (Option Int × Env) := answer.map (fun a => (a.ret, a.rocks))

/-- `handle_multidb_read`, `handle_multidb_write` and `handle_multidb_delete`
    work on the shard `k / (MAX_NUM_KEYS / n)` alone, and refuse the keys that
    no shard holds, exactly for the keys outside the slices of the shards 1 to
    `n - 1`. -/
theorem handlers_route_iff {n : Nat} (staffed : 0 < n) {mem : Mem Buf} {key : Ptr Buf} {text : Text}
    (given : word (mem.str key) = some text) :
    ((∀ rocks : Env, rocks.num_workers = n → outcome (handle_multidb_read rocks mem key) =
        (route (fun c => .ok (read_keyval_pair text c)) (atoi text) rocks).map (fun a => (some a.1, a.2))) ↔
      ¬ (slice n ≤ atoi text ∧ atoi text < MAX_NUM_KEYS)) ∧
    ((∀ rocks : Env, rocks.num_workers = n → outcome (handle_multidb_write rocks mem key) =
        (route (fun c => do let v ← need (word (behindWord (mem.str key))); return write_keyval_pair text v c)
          (atoi text) rocks).map (fun a => (some a.1, a.2))) ↔
      ¬ (slice n ≤ atoi text ∧ atoi text < MAX_NUM_KEYS)) ∧
    ((∀ rocks : Env, rocks.num_workers = n → outcome (handle_multidb_delete rocks mem key) =
        (route (fun c => .ok (delete_keyval_pair text c)) (atoi text) rocks).map (fun a => (some a.1, a.2))) ↔
      ¬ (slice n ≤ atoi text ∧ atoi text < MAX_NUM_KEYS)) := by
  -- what a handler leaves, compared with a routed operation
  have compared : ∀ {call : Command} {mem' : Mem Buf} {x y : Result (Int × Env)},
      outcome (x.map (fun a => ⟨some call, some a.1, mem', a.2⟩)) = y.map (fun a => (some a.1, a.2)) ↔ x = y := by
    intro call mem' x y
    cases x <;> cases y <;> simp [outcome, Except.map, Prod.ext_iff]
  refine ⟨?_, ?_, ?_⟩
  · obtain ⟨mem', c, handled, _⟩ := key_handler_eq multi .read mem key
    rw [← multidb_loop_routes_iff (read_keepsCount text) staffed]
    refine forall_congr' fun rocks => imp_congr_right fun _ => ?_
    rw [handle_multidb_read, handled, given, compared]
    rfl
  · obtain ⟨mem', c, handled, _⟩ := keyval_handler_eq multi mem key
    rw [← multidb_loop_routes_iff (write_keepsCount text (word (behindWord (mem.str key)))) staffed]
    refine forall_congr' fun rocks => imp_congr_right fun _ => ?_
    rw [handle_multidb_write, handled, given, compared]
    rfl
  · obtain ⟨mem', c, handled, _⟩ := key_handler_eq multi .delete mem key
    rw [← multidb_loop_routes_iff (delete_keepsCount text) staffed]
    refine forall_congr' fun rocks => imp_congr_right fun _ => ?_
    rw [handle_multidb_delete, handled, given, compared]
    rfl

/-- With two workers key 7 is read on shard 0. -/
theorem seven_read_routed :
    outcome (handle_multidb_read (untouched 2 (by decide)) ⟨fun _ => ascii " 7" ++ [0], none⟩ ⟨.val, 0⟩) =
      (route (fun c => .ok (read_keyval_pair (ascii "7") c)) (atoi (ascii "7")) (untouched 2 (by decide))).map
        (fun a => (some a.1, a.2)) := by
  have given : word (Mem.str ⟨fun _ => ascii " 7" ++ [0], none⟩ (⟨.val, 0⟩ : Ptr Buf)) = some (ascii "7") := by decide
  exact (handlers_route_iff (n := 2) (by decide) given).1.mpr (by decide) (untouched 2 (by decide)) rfl

/-- With two workers key 2000 belongs to shard 1, and `handle_multidb_write` refuses it. -/
theorem second_slice_refused :
    2 ∣ MAX_NUM_KEYS ∧ (0 ≤ atoi (ascii "2000") ∧ atoi (ascii "2000") < MAX_NUM_KEYS) ∧
    ∃ rocks : Env, rocks.num_workers = 2 ∧
      outcome (handle_multidb_write rocks ⟨fun _ => ascii " 2000 x" ++ [0], none⟩ ⟨.val, 0⟩) ≠
        (route (fun c => .ok (write_keyval_pair (ascii "2000") (ascii "x") c)) (atoi (ascii "2000")) rocks).map
          (fun a => (some a.1, a.2)) := by
  refine ⟨by decide, by decide, untouched 2 (by decide), rfl, fun same => ?_⟩
  have answers : (Except.ok (some (-1)) : Result (Option Int)) = .ok (some 0) := congrArg (Except.map Prod.fst) same
  cases answers

end Shardb.Routing
