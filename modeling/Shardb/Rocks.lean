import Shardb.Bytes
import Shardb.Journal
import Mathlib.Logic.Function.Basic

/-!
# RocksDB as the program uses it

RocksDB is not part of the repository. What a call does to a transaction or to
the committed contents when it reports no error is the documented behaviour and
is written out here; which calls report an error is not known, so the pattern
of errors (`Lib.faults`) is a parameter of every result. The functions carry
the names of the C API. `Event` records the calls, for statements about what
was called.
-/

namespace Shardb.Rocks
open Shardb.Bytes (Text)
open Shardb.Journal

/-- The calls of the C API that can report an error, or return `NULL` for one. -/
inductive Call
  | openDb | begin | put | get | delete | rollback | commit
  deriving DecidableEq

/-- A put (`val` is the value) or a delete (`none`), and the number of the
    message it was made for. -/
structure Write where
  key : Text
  val : Option Text
  message : Nat
  deriving DecidableEq

/-- The contents of a database: what every key holds. -/
abbrev Contents := Text → Option Text

def Write.apply (c : Contents) (w : Write) : Contents := Function.update c w.key w.val

/-- The contents a list of committed writes amounts to, oldest first. -/
def contents (committed : List Write) : Contents := replay Write.apply (fun _ => none) committed

/-- A `rocksdb_transaction_t`, with the number of its handle. -/
structure Transaction extends Batch Write where
  id : Nat
  deriving DecidableEq

/-- The library calls of a run. `ok` is false when the call reports an error. -/
inductive Event
  | openDb (db : Nat) (ok : Bool)
  | begin (db : Nat) (tx : Option Nat)
  | setSavepoint (tx : Nat)
  | rollback (tx : Nat) (ok : Bool)
  | put (tx : Nat) (key val : Text) (ok : Bool)
  | get (tx : Nat) (key : Text) (ok : Bool)
  | delete (tx : Nat) (key : Text) (ok : Bool)
  | commit (tx : Nat) (ok : Bool)
  | destroy (tx : Nat)
  | lock (worker : Nat)
  | unlock (worker : Nat)
  | signal (worker : Nat)
  deriving DecidableEq

/-- The state of the libraries: the pattern of errors, the number of calls made
    so far, the next transaction handle, the number of the message being
    handled and the calls made. -/
structure Lib where
  faults : Nat → Call → Bool
  clock : Nat
  next : Nat
  message : Nat
  trace : List Event

def Lib.fails (lib : Lib) (c : Call) : Bool := lib.faults lib.clock c

/-- One more call was made. -/
def Lib.tick (lib : Lib) (e : Event) : Lib := { lib with clock := lib.clock + 1, trace := lib.trace ++ [e] }

section Tick
variable (lib : Lib) (e : Event)
@[simp] theorem tick_clock : (lib.tick e).clock = lib.clock + 1 := rfl
@[simp] theorem tick_message : (lib.tick e).message = lib.message := rfl
@[simp] theorem tick_trace : (lib.tick e).trace = lib.trace ++ [e] := rfl
end Tick

/-- `NULL` on an error. -/
def rocksdb_transaction_begin (db : Nat) (lib : Lib) : Option Transaction × Lib :=
  if lib.fails .begin then (none, lib.tick (.begin db none))
  else (some { toBatch := .empty, id := lib.next }, { lib.tick (.begin db (some lib.next)) with next := lib.next + 1 })

def rocksdb_transaction_set_savepoint (tx : Transaction) (lib : Lib) : Transaction × Lib :=
  ({ tx with toBatch := tx.save }, lib.tick (.setSavepoint tx.id))

/-- The first component of the answer says whether `*errptr` was set, here and
    below. There is an error when no save point is left. -/
def rocksdb_transaction_rollback_to_savepoint (tx : Transaction) (lib : Lib) : Bool × Transaction × Lib :=
  match tx.restore with
  | none => (true, tx, lib.tick (.rollback tx.id false))
  | some batch =>
    if lib.fails .rollback then (true, tx, lib.tick (.rollback tx.id false))
    else (false, { tx with toBatch := batch }, lib.tick (.rollback tx.id true))

def rocksdb_transaction_put (tx : Transaction) (key val : Text) (lib : Lib) : Bool × Transaction × Lib :=
  if lib.fails .put then (true, tx, lib.tick (.put tx.id key val false))
  else (false, { tx with toBatch := tx.add ⟨key, some val, lib.message⟩ }, lib.tick (.put tx.id key val true))

def rocksdb_transaction_delete (tx : Transaction) (key : Text) (lib : Lib) : Bool × Transaction × Lib :=
  if lib.fails .delete then (true, tx, lib.tick (.delete tx.id key false))
  else (false, { tx with toBatch := tx.add ⟨key, none, lib.message⟩ }, lib.tick (.delete tx.id key true))

/-- The value under the transaction's own writes; `none` when the key is absent. -/
def rocksdb_transaction_get (committed : List Write) (tx : Transaction) (key : Text) (lib : Lib) :
    Bool × Option Text × Lib :=
  if lib.fails .get then (true, none, lib.tick (.get tx.id key false))
  else (false, contents (committed ++ tx.writes) key, lib.tick (.get tx.id key true))

def rocksdb_transaction_commit (committed : List Write) (tx : Transaction) (lib : Lib) : Bool × List Write × Lib :=
  if lib.fails .commit then (true, committed, lib.tick (.commit tx.id false))
  else (false, committed ++ tx.writes, lib.tick (.commit tx.id true))

def rocksdb_transaction_destroy (tx : Transaction) (lib : Lib) : Lib := lib.tick (.destroy tx.id)

/-- Whether the database was opened. -/
def rocksdb_transactiondb_open (db : Nat) (lib : Lib) : Bool × Lib :=
  if lib.fails .openDb then (false, lib.tick (.openDb db false)) else (true, lib.tick (.openDb db true))

end Shardb.Rocks
