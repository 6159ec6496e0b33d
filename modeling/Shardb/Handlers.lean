import Mathlib.Algebra.Group.Int.Defs
import Shardb.Loops
import Shardb.CStrings
import Shardb.Datastore

/-!
# `datastore.c`: the command handlers

A handler first takes its arguments out of the text it is given, with `strtok`,
and then works on the datastore. The first half is the same for every handler
of a command (`key_handler`, `keyval_handler`); the second is `single` for
`handle_read`, `handle_write`, `handle_delete` and the `s` and `b` branches of the
single-partition loop, and `multi` for the `handle_multidb_*` functions.
-/

namespace Shardb.Handlers
open Shardb.Bytes (Text ascii)
open Shardb.CStrings Shardb.Loops Shardb.Rocks Shardb.Datastore

/-- What keeps a call from returning: `NULL` where a string is needed, a wait
    that nobody ends, a loop whose passes are used up. -/
inductive Fault
  | null
  | blocked
  | unfinished
  deriving DecidableEq

abbrev Result := Except Fault

/-- A pointer that is dereferenced. -/
def need {α : Type} : Option α → Result α
  | some a => .ok a
  | none => .error .null

@[simp] theorem pure_ok {α : Type} (a : α) : (pure a : Result α) = .ok a := rfl
@[simp] theorem bind_ok {α β : Type} (a : α) (f : α → Result β) : (Except.ok a >>= f) = f a := rfl
@[simp] theorem bind_error {α β : Type} (e : Fault) (f : α → Result β) : (Except.error e >>= f) = .error e := rfl
@[simp] theorem need_some {α : Type} (a : α) : need (some a) = .ok a := rfl

/-- What is known of a part of an answer is known of an answer. -/
theorem ok_of_map {α β : Type} {a : Result α} {f : α → β} {b : β} (known : a.map f = .ok b) :
    ∃ x, a = .ok x ∧ f x = b := by
  cases a with
  | error e => cases known
  | ok x => exact ⟨x, rfl, by simpa [Except.map] using known⟩

theorem bind_returns {α β : Type} {a : Result α} {f : α → Result β} (first : ∃ x, a = .ok x)
    (next : ∀ x, ∃ b, f x = .ok b) : ∃ b, a >>= f = .ok b := by
  obtain ⟨x, rfl⟩ := first
  exact next x

/-- The two character arrays of `handle_db_message`. -/
inductive Buf
  | message
  | val
  deriving DecidableEq

/-- A datastore command with the arguments its handler found, `none` for `NULL`. -/
inductive Command
  | read (key : Option Text)
  | write (key val : Option Text)
  | delete (key : Option Text)
  | savepoint
  | rollback
  deriving DecidableEq

/-- Runs a function of one shard that may not return on shard `db_id`. -/
def onShardM (rocks : Env) (db_id : Nat) (f : Cell → Result (Int × Cell)) : Result (Int × Env) := do
  let (ret, c) ← f (rocks.cell db_id)
  return (ret, rocks.put db_id c)

@[simp] theorem put_onShardM (rocks : Env) (i : Nat) (c : Cell) (f : Cell → Result (Int × Cell)) :
    onShardM (rocks.put i c) i f = (f c).map (fun answer => (answer.1, rocks.put i answer.2)) := by
  simp only [onShardM, put_cell_self]
  cases f c <;> simp [Except.map]

/-! ### Single-partition commands -/

/-- `set_savepoint`, and `savepoint_count[i]++` when it succeeds. -/
def counted_savepoint (c : Cell) : Int × Cell :=
  let (ret, c) := set_savepoint c
  if 0 ≤ ret then (ret, { c with savepoint_count := c.savepoint_count + 1 }) else (ret, c)

/-- `rollback_to_last_savepoint`, and `savepoint_count[i]--` when it succeeds. -/
def counted_rollback (c : Cell) : Int × Cell :=
  let (ret, c) := rollback_to_last_savepoint c
  if 0 ≤ ret then (ret, { c with savepoint_count := c.savepoint_count - 1 }) else (ret, c)

/-- A command on its shard. -/
def singleCell : Command → Cell → Result (Int × Cell)
  | .read key, c => do
    let str ← need key
    return read_keyval_pair str c
  | .write key val, c => do
    let k ← need key
    let v ← need val
    return write_keyval_pair k v c
  | .delete key, c => do
    let str ← need key
    return delete_keyval_pair str c
  | .savepoint, c => .ok (counted_savepoint c)
  | .rollback, c => .ok (counted_rollback c)

/-- A single-partition command on shard `db_id`. -/
def single (db_id : Nat) (command : Command) (rocks : Env) : Result (Int × Env) :=
  onShardM rocks db_id (singleCell command)

/-! ### Multi-partition commands -/

def MAX_NUM_KEYS : Nat := 4000

def isspace (c : UInt8) : Bool := c == 32 || (9 ≤ c && c ≤ 13)
def isdigit (c : UInt8) : Bool := 48 ≤ c && c ≤ 57

/-- `atoi`: the `long` that `strtol` reads (blanks, a sign, digits; clamped on
    overflow), converted to a 32-bit `int`. -/
def atoi (text : Text) : Int :=
  let text := text.dropWhile isspace
  let negative := text.head? = some 45
  let digits := if negative ∨ text.head? = some 43 then text.drop 1 else text
  let magnitude : Int := (digits.takeWhile isdigit).foldl (fun n c => n * 10 + (c.toNat - 48 : Nat)) 0
  let long := if negative then max (-magnitude) (-2 ^ 63) else min magnitude (2 ^ 63 - 1)
  Int.bmod long (2 ^ 32)

/-- The body of the handlers' loops once shard `i` is chosen: a transaction with
    one savepoint is begun when `savepoint_count[i]` is 0, and `op` runs in it. -/
def access (i : Nat) (op : Cell → Result (Int × Cell)) (c : Cell) : Result (Int × Cell) :=
  if c.savepoint_count = 0 then
    let (ret, c) := begin_transaction i c
    if 0 ≤ ret then
      let (ret, c) := set_savepoint c
      if ret < 0 then
        let (_, c) := delete_transaction c
        .ok (-1, c)
      else op { c with savepoint_count := 1 }
    else .ok (-1, c)
  else op c

/-- The loop of `handle_multidb_read`, `handle_multidb_write` and
    `handle_multidb_delete`: shard `i` is chosen when `k` is at least the lower
    bound, which moves, and below the upper bound, which does not. -/
def multidb_loop (op : Cell → Result (Int × Cell)) (k : Int) (rocks : Env) : Result (Int × Env) := do
  let slice : Int := (MAX_NUM_KEYS / rocks.num_workers : Nat)
  let found ← forLoop (fun i lower_bound =>
    if lower_bound ≤ k ∧ k < slice then
      (onShardM rocks i (access i op)).map .inr
    else .ok (.inl (lower_bound + slice))) rocks.num_workers 0 (0 : Int)
  match found with
  | .inl _ => return (-1, rocks)
  | .inr answer => return answer

/-- One shard of `handle_multidb_setsavepoint`: shards without a transaction are
    left out. The checks before `rocksdb_transaction_set_savepoint` are those of
    `set_savepoint`. -/
def setsavepoint_shard (c : Cell) : Int × Cell :=
  if 0 < c.savepoint_count then counted_savepoint c else (0, c)

/-- One shard of `handle_multidb_rollback`: `savepoint_count[i]--` stands behind
    the block for shards with a transaction. -/
def rollback_shard (c : Cell) : Int × Cell :=
  if 0 < c.savepoint_count then
    let (ret, c) := rollback_to_last_savepoint c
    if ret < 0 then (-1, c) else (0, { c with savepoint_count := c.savepoint_count - 1 })
  else (0, { c with savepoint_count := c.savepoint_count - 1 })

/-- All shards in turn, until one reports an error. -/
def every_shard (f : Cell → Int × Cell) (rocks : Env) : Result (Int × Env) := do
  let done ← forLoop (fun i rocks =>
    let (ret, rocks) := rocks.onShard i f
    if ret < 0 then .ok (.inr (-1, rocks)) else .ok (.inl rocks)) rocks.num_workers 0 rocks
  match done with
  | .inl rocks => return (0, rocks)
  | .inr answer => return answer

/-- A multi-partition command on the shards it concerns. -/
def multi : Command → Env → Result (Int × Env)
  | .read key, rocks => do
    let str ← need key
    multidb_loop (fun c => .ok (read_keyval_pair str c)) (atoi str) rocks
  | .write key val, rocks => do
    let k ← need key
    multidb_loop (fun c => do let v ← need val; return write_keyval_pair k v c) (atoi k) rocks
  | .delete key, rocks => do
    let str ← need key
    multidb_loop (fun c => .ok (delete_keyval_pair str c)) (atoi str) rocks
  | .savepoint, rocks => every_shard setsavepoint_shard rocks
  | .rollback, rocks => every_shard rollback_shard rocks

/-! ### The handlers -/

/-- What a handler leaves: its return value and, for the record, the command it
    carried out. -/
structure Answer (σ : Type) where
  call : Option Command
  ret : Option Int
  mem : Mem Buf
  rocks : σ

section
variable {σ : Type}

/-- A handler with one argument, `char *str = strtok(key, " ")`. -/
def key_handler (command : Option Text → Command) (op : Command → σ → Result (Int × σ)) (rocks : σ) (mem : Mem Buf)
    (key : Ptr Buf) : Result (Answer σ) := do
  let (str, mem) ← need (mem.strtok (some key) (ascii " "))
  let call := command (str.map mem.str)
  let (ret, rocks) ← op call rocks
  return ⟨some call, some ret, mem, rocks⟩

/-- A handler with two arguments, `k = strtok(key, " ")` and `v = strtok(NULL, " ")`. -/
def keyval_handler (op : Command → σ → Result (Int × σ)) (rocks : σ) (mem : Mem Buf) (key : Ptr Buf) :
    Result (Answer σ) := do
  let (k, mem) ← need (mem.strtok (some key) (ascii " "))
  let (v, mem) ← need (mem.strtok none (ascii " "))
  let call := .write (k.map mem.str) (v.map mem.str)
  let (ret, rocks) ← op call rocks
  return ⟨some call, some ret, mem, rocks⟩

end

section
variable (rocks : Env) (mem : Mem Buf) (key : Ptr Buf)

def handle_read (db_id : Nat) : Result (Answer Env) := key_handler .read (single db_id) rocks mem key
def handle_write (db_id : Nat) : Result (Answer Env) := keyval_handler (single db_id) rocks mem key
def handle_delete (db_id : Nat) : Result (Answer Env) := key_handler .delete (single db_id) rocks mem key
def handle_multidb_read : Result (Answer Env) := key_handler .read multi rocks mem key
def handle_multidb_write : Result (Answer Env) := keyval_handler multi rocks mem key
def handle_multidb_delete : Result (Answer Env) := key_handler .delete multi rocks mem key
def handle_multidb_setsavepoint : Result (Int × Env) := multi .savepoint rocks
def handle_multidb_rollback : Result (Int × Env) := multi .rollback rocks

end

/-- The functions a command loop calls. -/
structure Callees (σ : Type) where
  handle_read : σ → Mem Buf → Ptr Buf → Result (Answer σ)
  handle_write : σ → Mem Buf → Ptr Buf → Result (Answer σ)
  handle_delete : σ → Mem Buf → Ptr Buf → Result (Answer σ)
  set_savepoint : σ → Result (Int × σ)
  rollback : σ → Result (Int × σ)

/-- The loop of a single-partition message on shard `db_id`. -/
def singleCallees (db_id : Nat) : Callees Env where
  handle_read rocks mem key := handle_read rocks mem key db_id
  handle_write rocks mem key := handle_write rocks mem key db_id
  handle_delete rocks mem key := handle_delete rocks mem key db_id
  set_savepoint rocks := single db_id .savepoint rocks
  rollback rocks := single db_id .rollback rocks

/-- The loop of a multi-partition message. -/
def multiCallees : Callees Env where
  handle_read := handle_multidb_read
  handle_write := handle_multidb_write
  handle_delete := handle_multidb_delete
  set_savepoint := handle_multidb_setsavepoint
  rollback := handle_multidb_rollback

/-- Handlers whose second half is `op`. -/
def Callees.of {σ : Type} (op : Command → σ → Result (Int × σ)) : Callees σ where
  handle_read := key_handler .read op
  handle_write := keyval_handler op
  handle_delete := key_handler .delete op
  set_savepoint := op .savepoint
  rollback := op .rollback

end Shardb.Handlers
