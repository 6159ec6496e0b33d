import Mathlib.Data.List.TakeWhile
import Shardb.Tuples

/-!
# The burst sizes that `--bsz` accepts

Six numbers of 32 bits are compared with `APP_MBUF_ARRAY_SIZE`, and one of them is
doubled first. The product loses its highest bit, so that next to the sizes up to
half of the array those from 2^31 on pass (`doubled_iff`). What the parser stores is
in range exactly when the number in that place of the argument is not one of these
(`sizes_in_range_iff`).
-/

namespace Shardb.BurstSizes
open Shardb.Bytes (Text ascii)
open Shardb.Wiring Shardb.Config Shardb.Options Shardb.Tuples
open Shardb.Loops (bind_eq_ok)
open Shardb.Lcores (APP_MBUF_ARRAY_SIZE)

/-- The burst sizes fit the arrays, and two bursts of the transmitting lcores do. -/
structure InRange (app : Params) : Prop where
  io_rx_read : 1 ≤ app.burst_size_io_rx_read ∧ app.burst_size_io_rx_read ≤ APP_MBUF_ARRAY_SIZE
  io_rx_write : 1 ≤ app.burst_size_io_rx_write ∧ app.burst_size_io_rx_write ≤ APP_MBUF_ARRAY_SIZE
  worker_read : 1 ≤ app.burst_size_worker_read ∧ app.burst_size_worker_read ≤ APP_MBUF_ARRAY_SIZE
  worker_write : 1 ≤ app.burst_size_worker_write ∧ app.burst_size_worker_write ≤ APP_MBUF_ARRAY_SIZE
  io_tx_read : 1 ≤ app.burst_size_io_tx_read ∧ app.burst_size_io_tx_read ≤ APP_MBUF_ARRAY_SIZE
  io_tx_write : 1 ≤ app.burst_size_io_tx_write ∧ app.burst_size_io_tx_write ≤ APP_MBUF_ARRAY_SIZE
  io_tx_half : app.burst_size_io_tx_read ≤ APP_MBUF_ARRAY_SIZE / 2

/-- The numbers whose double passes the test. -/
theorem doubled_iff {x : Nat} (bits : x < 2 ^ 32) :
    2 * x % 2 ^ 32 ≤ APP_MBUF_ARRAY_SIZE ↔
      x ≤ APP_MBUF_ARRAY_SIZE / 2 ∨ 2 ^ 31 ≤ x ∧ x ≤ 2 ^ 31 + APP_MBUF_ARRAY_SIZE / 2 := by
  have size : APP_MBUF_ARRAY_SIZE = 512 := rfl
  omega

/-! ### Where the number stands -/

/-- What stands behind the first such character. -/
def behind (c : UInt8) (s : Text) : Text := (s.dropWhile (· != c)).drop 1

/-- The text from the third opening bracket to the next comma or closing bracket,
    where an opening bracket counts only behind the pair before. -/
def io_tx_read_field (arg : Text) : Text :=
  (behind 40 (behind 41 (behind 40 (behind 41 arg)))).takeWhile fun c => c != 44 && c != 41

/-- The number of 64 bits that it spells. -/
def io_tx_read_given (arg : Text) : Nat := (strtoul (io_tx_read_field arg) 0).value

private theorem strchr_eq {s rest : Text} {c : UInt8} (found : strchr s c = some rest) :
    rest = s.dropWhile (· != c) ∧ rest = c :: behind c s := by
  have is : s.dropWhile (· != c) = rest := by
    unfold strchr at found
    split at found
    · cases found
    · cases found
      rfl
  obtain ⟨first, -, -⟩ := strchr_some found
  obtain ⟨tail, rfl⟩ := List.head?_eq_some_iff.mp first
  exact ⟨is.symm, by rw [behind, is]; rfl⟩

/-- Another character is looked for behind the one that was found. -/
private theorem strchr_next {s p q : Text} {c d : UInt8} (found : strchr s c = some p) (next : strchr p d = some q)
    (apart : c ≠ d) : q = (behind c s).dropWhile (· != d) ∧ behind d p = behind d (behind c s) := by
  have passes : (c != d) = true := by simpa using apart
  obtain ⟨-, is⟩ := strchr_eq found
  have skipped : p.dropWhile (· != d) = (behind c s).dropWhile (· != d) := by
    simp only [is, List.dropWhile_cons, passes, if_true]
  refine ⟨(strchr_eq next).1.trans skipped, ?_⟩
  show (p.dropWhile (· != d)).drop 1 = ((behind c s).dropWhile (· != d)).drop 1
  rw [skipped]

private theorem take_before {s q : Text} {c : UInt8} (is : q = s.dropWhile (· != c)) :
    s.take (s.length - q.length) = s.takeWhile (· != c) := by
  have parts : s.takeWhile (· != c) ++ q = s := by
    rw [is]
    exact List.takeWhile_append_dropWhile
  have count : s.length - q.length = (s.takeWhile (· != c)).length := by
    rw [← congrArg List.length parts, List.length_append]
    omega
  have taken : (s.takeWhile (· != c) ++ q).take (s.takeWhile (· != c)).length = s.takeWhile (· != c) := List.take_left
  rw [parts] at taken
  rw [count, taken]

section Accepted
variable {eal : Eal} {arg : Text} {app app' : App} (splits : Splits eal)
include splits

/-- The first number of a pair is that of the text up to the comma. -/
private theorem burst_pair_first {p p0 : Text} {ret : Int} {sizes : Nat × Nat}
    (run : burst_pair eal p p0 ret = .ok sizes) :
    sizes.1 = stored ((p.take (p.length - p0.length)).takeWhile (· != 44)) := by
  unfold burst_pair at run
  split_ifs at run
  simp only [bind_eq_ok, refuse_ok, not_not] at run
  obtain ⟨vals, read, -, two, run⟩ := run
  cases run
  rw [@str_to_unsigned_vals_tokens _ ⟨p, p.length - p0.length, 44, 2⟩ splits] at read
  split_ifs at read
  cases read
  by_cases empty : p.take (p.length - p0.length) = []
  · simp [tokens, empty, strsplit] at two
  · show ((tokens _).map stored).getD 0 0 = _
    rw [tokens, strsplit, if_neg empty, if_neg (by omega)]
    rfl

private theorem io_tx_read_stored (accepted : parse_arg_bsz eal arg app = .ok app') :
    app'.burst_size_io_tx_read = io_tx_read_given arg % 2 ^ 32 := by
  simp only [parse_arg_bsz, bind_eq_ok, refuse_ok, expect_ok] at accepted
  obtain ⟨-, -, p0, closes, io_rx, -, p, opens, p0', closes', worker, -, p', opens', p0'', closes'', ⟨e, f⟩, last,
    -, -, -, -, is⟩ := accepted
  cases is
  obtain ⟨-, first⟩ := strchr_next closes opens (by decide)
  obtain ⟨-, second⟩ := strchr_next opens closes' (by decide)
  obtain ⟨-, third⟩ := strchr_next closes' opens' (by decide)
  obtain ⟨ends, -⟩ := strchr_next opens' closes'' (by decide)
  have front : p'.drop 1 = behind 40 p0' := by
    rw [(strchr_eq opens').2]
    rfl
  have before : (p'.drop 1).take ((p'.drop 1).length - p0''.length) = (p'.drop 1).takeWhile (· != 41) :=
    take_before (front ▸ ends)
  have text : ((p'.drop 1).take ((p'.drop 1).length - p0''.length)).takeWhile (· != 44) = io_tx_read_field arg := by
    have both : (fun c : UInt8 => decide ((c != 44) = true ∧ (c != 41) = true)) = fun c => c != 44 && c != 41 := by
      funext c
      rw [Bool.decide_and, Bool.decide_eq_true, Bool.decide_eq_true]
    rw [before, List.takeWhile_takeWhile, both, front, third, second, first, io_tx_read_field]
  have read := burst_pair_first splits last
  rw [text] at read
  exact read

/-- What is stored is in range exactly when the number that is doubled has 31 bits. -/
theorem sizes_in_range_iff (accepted : parse_arg_bsz eal arg app = .ok app') :
    InRange app'.toParams ↔ io_tx_read_given arg % 2 ^ 32 < 2 ^ 31 := by
  rw [← io_tx_read_stored splits accepted]
  have size : APP_MBUF_ARRAY_SIZE = 512 := rfl
  cases parse_arg_bsz_edit accepted with
  | bsz sizes others =>
    obtain ⟨io_rx_read, io_rx_write, worker_read, worker_write, ⟨positive, bits, double⟩, io_tx_write⟩ := sizes
    have passed := (doubled_iff bits).mp double
    constructor
    · intro range
      have half := range.io_tx_half
      omega
    · intro small
      exact ⟨io_rx_read, io_rx_write, worker_read, worker_write, ⟨positive, by omega⟩, io_tx_write, by omega⟩

end Accepted

/-- The default sizes, given as an argument. -/
theorem default_in_range : ∃ app, parse_arg_bsz (Eal.first 4) (ascii "(144,144),(144,144),(144,144)") zeroed = .ok app ∧
    InRange app.toParams := by
  have some : ∃ app, parse_arg_bsz (Eal.first 4) (ascii "(144,144),(144,144),(144,144)") zeroed = .ok app := ⟨_, rfl⟩
  obtain ⟨app, accepted⟩ := some
  exact ⟨app, accepted, (sizes_in_range_iff (fun _ _ _ => rfl) accepted).mpr (by decide)⟩

/-- Twice 2^31 is 0 in 32 bits. -/
theorem doubled_size_wraps : ∃ app,
    parse_arg_bsz (Eal.first 4) (ascii "(144,144),(144,144),(2147483648,144)") zeroed = .ok app ∧
    app.burst_size_io_tx_read = 2 ^ 31 ∧ ¬ InRange app.toParams := by
  refine ⟨_, rfl, rfl, fun range => ?_⟩
  exact absurd range.io_tx_half (by decide)

end Shardb.BurstSizes
