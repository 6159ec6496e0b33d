import Mathlib.Data.List.Dedup
import Shardb.CommandLine
import Shardb.Datastore

/-!
# How many workers a command line makes

`--w` counts the entries of one list, and everything after it the lcores that all
lists name (`workers_length`). The dispatch wants a power of two, `workers[]` has
room for four and four databases are opened, so that one, two or four workers can
be used (`usable_iff`).
-/

namespace Shardb.WorkerCount
open Shardb.Bytes (Text ascii)
open Shardb.Lcores (worker_of APP_MAX_LCORES APP_MAX_WORKER_LCORES)
open Shardb.Wiring Shardb.Config Shardb.Options Shardb.CommandLine
open Shardb.Rocks (Call Write)
open Shardb.Datastore (init_database_env opened_iff MAX_WORKER_CORE)

/-! ### The dispatch -/

section Dispatch
variable {n : Nat}

private theorem worker_of_mask (some : 0 < n) (few : n < 2 ^ 32) (pos_lb : Nat) (data : List UInt8) :
    worker_of n pos_lb data = (data.getD pos_lb 0).toNat &&& (n - 1) := by
  have mask : (n + (2 ^ 32 - 1)) % 2 ^ 32 = n - 1 := by omega
  rw [worker_of, mask]

theorem worker_of_lt (some : 0 < n) (few : n < 2 ^ 32) (pos_lb : Nat) (data : List UInt8) :
    worker_of n pos_lb data < n := by
  rw [worker_of_mask some few]
  have below : (data.getD pos_lb 0).toNat &&& (n - 1) ≤ n - 1 := Nat.and_le_right
  omega

/-- A packet whose byte is the id of the worker. -/
theorem worker_of_hits {k id : Nat} (few : 2 ^ k < 2 ^ 32) (pos_lb : Nat) (small : id < min (2 ^ k) 256) :
    ∃ data, worker_of (2 ^ k) pos_lb data = id := by
  refine ⟨List.replicate (pos_lb + 1) (UInt8.ofNat id), ?_⟩
  have byte : (UInt8.ofNat id).toNat = id := by
    rw [UInt8.toNat_ofNat']
    omega
  rw [worker_of_mask (Nat.two_pow_pos k) few, List.getD_replicate _ (Nat.lt_succ_self pos_lb), byte,
    Nat.and_two_pow_sub_one_eq_mod]
  exact Nat.mod_eq_of_lt (by omega)

end Dispatch

/-! ### The number of workers -/

/-- A number of workers that the dispatch, `workers[]` and the databases can serve. -/
structure Usable (n : Nat) : Prop where
  power : ∃ k, n = 2 ^ k
  valid : ∀ pos_lb data, worker_of n pos_lb data < n
  hit : ∀ pos_lb id, id < min n 256 → ∃ data, worker_of n pos_lb data = id
  within : n ≤ MAX_WORKER_CORE
  opened : ∀ (staffed : 0 < n) (disk : Nat → List Write) (faults : Nat → Call → Bool),
    (∀ clock, faults clock .openDb = false) →
      ∀ id, id < n → ((init_database_env n staffed disk faults).shard id).tx_db = true

theorem usable_iff {n : Nat} : Usable n ↔ n = 1 ∨ n = 2 ∨ n = 4 := by
  constructor
  · intro usable
    obtain ⟨k, rfl⟩ := usable.power
    have small : 2 ^ k ≤ 2 ^ 2 := usable.within
    have few : k ≤ 2 := (Nat.pow_le_pow_iff_right (by omega)).mp small
    have cases_k : k = 0 ∨ k = 1 ∨ k = 2 := by omega
    rcases cases_k with rfl | rfl | rfl
    · exact .inl rfl
    · exact .inr (.inl rfl)
    · exact .inr (.inr rfl)
  · intro count
    have power : ∃ k, n = 2 ^ k := by
      rcases count with rfl | rfl | rfl
      · exact ⟨0, rfl⟩
      · exact ⟨1, rfl⟩
      · exact ⟨2, rfl⟩
    have bounds : 0 < n ∧ n ≤ 4 := by omega
    constructor
    · exact power
    · exact worker_of_lt bounds.1 (by omega)
    · obtain ⟨k, rfl⟩ := power
      exact fun pos_lb id small => worker_of_hits (by omega) pos_lb small
    · exact bounds.2
    · exact fun staffed disk faults fine id inside => (opened_iff staffed disk fine id).mpr (by omega)

section Count
variable {μ : Type} [Inhabited μ] {eal : Eal} {opts : List (Option (Opt × Text))} {app : App}

private theorem mem_workers_typed {roles : Nat → Role} {l : Nat} :
    l ∈ workers (typed (μ := μ) roles) ↔ l < APP_MAX_LCORES ∧ Config.isWorker (roles l) = true := by
  unfold workers typed
  rw [List.mem_filter, List.mem_range]
  refine and_congr_right fun inside => ?_
  rw [if_pos inside]
  cases roles l with
  | disabled => exact Iff.rfl
  | io nic_queues nic_ports => exact Iff.rfl
  | worker => exact Iff.rfl

/-- The workers are the lcores that the lists name, each once. -/
theorem workers_length (parsed : app_parse_args eal opts = .ok app) :
    (workers (typed (μ := μ) app.lcore_params)).length = (workersListed opts).dedup.length := by
  have left := accepted parsed
  refine ((List.perm_ext_iff_of_nodup (workers_nodup _) (List.nodup_dedup _)).mpr fun l => ?_).length_eq
  rw [List.mem_dedup, ← left.workers l]
  refine mem_workers_typed.trans (and_iff_right_of_imp fun worker => left.inside l fun off => ?_)
  rw [off] at worker
  cases worker

/-- The number of workers can be used exactly when the lists of all `--w` name one,
    two or four lcores. -/
theorem worker_count_usable_iff (parsed : app_parse_args eal opts = .ok app) :
    (∃ n, app_get_lcores_worker (typed (μ := μ) app.lcore_params) = .ok n ∧ Usable n) ↔
      (workersListed opts).dedup.length = 1 ∨ (workersListed opts).dedup.length = 2 ∨
        (workersListed opts).dedup.length = 4 := by
  have length := workers_length (μ := μ) parsed
  unfold app_get_lcores_worker
  simp only [length, usable_iff]
  constructor
  · rintro ⟨n, counted, few⟩
    split_ifs at counted
    cases counted
    exact few
  · intro few
    have room : ¬ APP_MAX_WORKER_LCORES < (workersListed opts).dedup.length := by
      unfold APP_MAX_WORKER_LCORES
      omega
    exact ⟨_, if_neg room, few⟩

/-- Each lcore named once, and no more than there are databases. -/
theorem four_workers_usable : ∃ app, app_parse_args (Eal.first 12) (one_port (ascii "2,3,4,5")) = .ok app ∧
    ∃ n, app_get_lcores_worker (typed (μ := Nat) app.lcore_params) = .ok n ∧ Usable n := by
  have accepts : (app_parse_args (Eal.first 12) (one_port (ascii "2,3,4,5"))).toOption.isSome = true := by decide +kernel
  obtain ⟨app, parsed⟩ := Option.isSome_iff_exists.mp accepts
  rw [toOption_some] at parsed
  exact ⟨app, parsed, (worker_count_usable_iff parsed).mpr (.inr (.inr (by decide +kernel)))⟩

private theorem counted_unusable {w : Text} {n : Nat} (few : ¬ (n = 1 ∨ n = 2 ∨ n = 4))
    (starts : ((app_parse_args (Eal.first 12) (one_port w)).toOption.bind fun app =>
      (app_get_lcores_worker (typed (μ := Nat) app.lcore_params)).toOption) = some n) :
    ∃ app, app_parse_args (Eal.first 12) (one_port w) = .ok app ∧
      app_get_lcores_worker (typed (μ := Nat) app.lcore_params) = .ok n ∧
      ¬ ∃ n, app_get_lcores_worker (typed (μ := Nat) app.lcore_params) = .ok n ∧ Usable n := by
  obtain ⟨app, parsed, counted⟩ := Option.bind_eq_some_iff.mp starts
  rw [toOption_some] at parsed counted
  refine ⟨app, parsed, counted, ?_⟩
  rintro ⟨n', counted', usable⟩
  rw [counted] at counted'
  cases counted'
  exact few (usable_iff.mp usable)

/-- Four entries that name three lcores, and eight workers. -/
theorem three_and_eight_unusable :
    (∃ app, app_parse_args (Eal.first 12) (one_port (ascii "2,2,3,4")) = .ok app ∧
      app_get_lcores_worker (typed (μ := Nat) app.lcore_params) = .ok 3 ∧
      ¬ ∃ n, app_get_lcores_worker (typed (μ := Nat) app.lcore_params) = .ok n ∧ Usable n) ∧
    ∃ app, app_parse_args (Eal.first 12) (one_port (ascii "2,3,4,5,6,7,8,9")) = .ok app ∧
      app_get_lcores_worker (typed (μ := Nat) app.lcore_params) = .ok 8 ∧
      ¬ ∃ n, app_get_lcores_worker (typed (μ := Nat) app.lcore_params) = .ok n ∧ Usable n :=
  ⟨counted_unusable (by omega) (by decide +kernel), counted_unusable (by omega) (by decide +kernel)⟩

end Count
end Shardb.WorkerCount
