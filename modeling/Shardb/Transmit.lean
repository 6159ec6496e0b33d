import Mathlib.Algebra.Order.Group.Nat
import Shardb.Runs
import Shardb.Options

/-!
# The transmit buffers

`app_lcore_io_tx` adds a read burst to the buffer of a port until there is a write
burst, and only then looks at the count. The parser of `--bsz` looks at each size
by itself: the buffer has room exactly when the write burst, rounded up to whole
read bursts, is no more than the array (`takes_fit_iff`).
-/

namespace Shardb.Transmit
open Shardb.Rings Shardb.Loops Shardb.Runs Shardb.Lcores
open Shardb.Bytes (Text ascii)
open Shardb.Config (App Eal parse_arg_bsz zeroed)
open Shardb.Options (Sizes parse_arg_bsz_edit Edit)

/-- The most objects that `rte_ring_create` makes room for. -/
def RTE_RING_SZ_MASK : Nat := 0x7fffffff

section Rounds
variable {μ : Type}

/-- The passes through the loops of `app_lcore_io_tx`, each for a worker and a port. -/
def tx_rounds (n_workers : Nat) (nic_ports : List Nat) : List (Nat × Nat) :=
  (List.range n_workers).flatMap fun worker => nic_ports.map fun port => (worker, port)

def run_rounds (tx_burst : Nat → List μ → Nat) (bsz_rd bsz_wr : Nat) (rounds : List (Nat × Nat)) (s : Tx μ × Net μ) :
    Result (Tx μ × Net μ) :=
  rounds.foldlM (fun s round => io_tx_ring tx_burst bsz_rd bsz_wr round.1 round.2 s) s

theorem app_lcore_io_tx_eq (tx_burst : Nat → List μ → Nat) (n_workers bsz_rd bsz_wr : Nat) (lp : Tx μ) (net : Net μ) :
    app_lcore_io_tx tx_burst n_workers bsz_rd bsz_wr lp net =
      run_rounds tx_burst bsz_rd bsz_wr (tx_rounds n_workers lp.nic_ports) (lp, net) := by
  unfold app_lcore_io_tx run_rounds tx_rounds
  exact foldlM_pairs (fun s worker port => io_tx_ring tx_burst bsz_rd bsz_wr worker port s) _ _ _

/-! ### Runs -/

/-- A bulk dequeue of `app_lcore_io_tx`, called in this state, writes into the array
    only: behind the count there is room for a read burst. -/
def TakesFit (n_workers bsz_rd bsz_wr : Nat) (s : Tx μ × Net μ) : Prop :=
  ∀ tx_burst done worker port rest, tx_rounds n_workers s.1.nic_ports = done ++ (worker, port) :: rest →
    ∀ s', run_rounds tx_burst bsz_rd bsz_wr done s = .ok s' →
      ∀ id, s'.1.rings port worker = some id →
        ∀ taken, (s'.2.rings id).dequeueBulk bsz_rd = some taken →
          (s'.1.mbuf_out port).items.length + bsz_rd ≤ APP_MBUF_ARRAY_SIZE

inductive Call
  | arrivals
  | app_lcore_io_tx
  | app_lcore_io_tx_flush

/-- The rings were created. -/
def Created (net : Net μ) : Prop := ∀ id, (net.rings id).capacity ≤ RTE_RING_SZ_MASK

/-- Between the calls the rings may change in any way. -/
inductive Step (n_workers bsz_rd bsz_wr : Nat) : Tx μ × Net μ → Call → Tx μ × Net μ → Prop
  | arrivals {lp : Tx μ} {net net' : Net μ} (created : Created net') :
      Step n_workers bsz_rd bsz_wr (lp, net) .arrivals (lp, net')
  | app_lcore_io_tx {tx_burst : Nat → List μ → Nat} {lp : Tx μ} {net : Net μ} {s : Tx μ × Net μ}
      (run : app_lcore_io_tx tx_burst n_workers bsz_rd bsz_wr lp net = .ok s) :
      Step n_workers bsz_rd bsz_wr (lp, net) .app_lcore_io_tx s
  | app_lcore_io_tx_flush {tx_burst : Nat → List μ → Nat} {lp : Tx μ} {net : Net μ} {s : Tx μ × Net μ}
      (run : app_lcore_io_tx_flush tx_burst lp net = .ok s) :
      Step n_workers bsz_rd bsz_wr (lp, net) .app_lcore_io_tx_flush s

/-- Nothing was taken from a ring yet. -/
def Initial (s : Tx μ × Net μ) : Prop := (∀ port, (s.1.mbuf_out port).items = []) ∧ Created s.2

/-! ### Whole read bursts -/

/-- The buffers hold whole read bursts and less than a write burst. -/
structure Filled (bsz_rd bsz_wr : Nat) (s : Tx μ × Net μ) : Prop where
  whole : ∀ port, bsz_rd ∣ (s.1.mbuf_out port).items.length
  below : ∀ port, (s.1.mbuf_out port).items.length < bsz_wr
  created : Created s.2

section Filled
variable {n_workers bsz_rd bsz_wr : Nat} {tx_burst : Nat → List μ → Nat} {s s' : Tx μ × Net μ}

theorem Filled.initial (write : 0 < bsz_wr) (initial : Initial s) : Filled bsz_rd bsz_wr s := by
  obtain ⟨empty, created⟩ := initial
  constructor
  · intro port
    rw [empty port]
    exact Nat.dvd_zero _
  · intro port
    rw [empty port]
    exact write
  · exact created

/-- One buffer has another content. -/
private theorem Filled.update {lp lp' : Tx μ} {net net' : Net μ} (port : Nat) (filled : Filled bsz_rd bsz_wr (lp, net))
    (others : ∀ p, p ≠ port → lp'.mbuf_out p = lp.mbuf_out p) (whole : bsz_rd ∣ (lp'.mbuf_out port).items.length)
    (below : (lp'.mbuf_out port).items.length < bsz_wr) (created : Created net') : Filled bsz_rd bsz_wr (lp', net') := by
  have each : ∀ p, bsz_rd ∣ (lp'.mbuf_out p).items.length ∧ (lp'.mbuf_out p).items.length < bsz_wr := by
    intro p
    by_cases same : p = port
    · subst same
      exact ⟨whole, below⟩
    · rw [others p same]
      exact ⟨filled.whole p, filled.below p⟩
  exact ⟨fun p => (each p).1, fun p => (each p).2, created⟩

private theorem Filled.reset {lp : Tx μ} {net net' : Net μ} {port : Nat} {flush : Bool}
    (filled : Filled bsz_rd bsz_wr (lp, net)) (created : Created net') :
    Filled bsz_rd bsz_wr ({ lp with toOutputs := lp.reset port flush }, net') := by
  have empty : ((lp.reset port flush).mbuf_out port).items = [] := by
    simp [Outputs.reset, Buffer.empty]
  refine filled.update port (fun p other => Function.update_of_ne other ..) ?_ ?_ created
  · rw [empty]
    exact Nat.dvd_zero _
  · rw [empty]
    exact Nat.zero_lt_of_lt (filled.below port)

private theorem Filled.ring {worker port : Nat} (filled : Filled bsz_rd bsz_wr s)
    (run : io_tx_ring tx_burst bsz_rd bsz_wr worker port s = .ok s') : Filled bsz_rd bsz_wr s' := by
  obtain ⟨lp, net⟩ := s
  simp only [io_tx_ring, bind_eq_ok] at run
  obtain ⟨-, -, -, -, -, -, id, -, run⟩ := run
  cases taken : (net.rings id).dequeueBulk bsz_rd with
  | none =>
    simp only [taken] at run
    cases run
    exact filled
  | some pair =>
    obtain ⟨mbufs, ring⟩ := pair
    obtain ⟨burst, -, room⟩ := BulkRing.dequeued_all taken
    have created : Created (net.setRing id ring) := by
      intro id'
      by_cases same : id' = id
      · subst same
        rw [show (net.setRing id' ring).rings id' = ring from Function.update_self .., room]
        exact filled.created id'
      · rw [show (net.setRing id ring).rings id' = net.rings id' from Function.update_of_ne same ..]
        exact filled.created id'
    simp only [taken] at run
    cases pushed : (lp.mbuf_out port).push mbufs with
    | none => simp only [pushed] at run; cases run
    | some out =>
      simp only [pushed] at run
      by_cases few : out.items.length < bsz_wr
      · rw [if_pos few] at run
        cases run
        have here : (lp.store port out).mbuf_out port = out := Function.update_self ..
        refine filled.update port (fun p other => Function.update_of_ne other ..) ?_ ?_ created
        · rw [here, Buffer.pushed pushed, List.length_append, burst]
          exact Nat.dvd_add (filled.whole port) (Nat.dvd_refl _)
        · rw [here]
          exact few
      · rw [if_neg few] at run
        cases run
        exact filled.reset created

private theorem Filled.rounds {rounds : List (Nat × Nat)} (filled : Filled bsz_rd bsz_wr s)
    (run : run_rounds tx_burst bsz_rd bsz_wr rounds s = .ok s') : Filled bsz_rd bsz_wr s' :=
  foldlM_ok (fun _ s => Filled bsz_rd bsz_wr s) (fun _ _ _ _ filled once => filled.ring once) filled run

private theorem Filled.flush_port {port : Nat} (filled : Filled bsz_rd bsz_wr s)
    (run : io_tx_flush_port tx_burst port s = .ok s') : Filled bsz_rd bsz_wr s' := by
  obtain ⟨lp, net⟩ := s
  simp only [io_tx_flush_port, bind_eq_ok] at run
  obtain ⟨-, -, run⟩ := run
  split at run
  · cases run
    exact ⟨filled.whole, filled.below, filled.created⟩
  · cases run
    exact filled.reset filled.created

theorem Filled.step {call : Call} (filled : Filled bsz_rd bsz_wr s) (step : Step n_workers bsz_rd bsz_wr s call s') :
    Filled bsz_rd bsz_wr s' := by
  cases step with
  | arrivals created => exact ⟨filled.whole, filled.below, created⟩
  | app_lcore_io_tx run =>
    rw [app_lcore_io_tx_eq] at run
    exact filled.rounds run
  | app_lcore_io_tx_flush run =>
    exact foldlM_ok (fun _ s => Filled bsz_rd bsz_wr s) (fun _ _ _ _ filled once => filled.flush_port once) filled run

end Filled

/-! ### When the buffers have room -/

section Room
variable {n_workers bsz_rd bsz_wr : Nat}

/-- Whole read bursts, less than a write burst of them, and one more are no more
    than the write burst rounded up. -/
private theorem burst_rounded {len : Nat} (read : 0 < bsz_rd) (whole : bsz_rd ∣ len) (below : len < bsz_wr) :
    len + bsz_rd ≤ (bsz_wr + bsz_rd - 1) / bsz_rd * bsz_rd := by
  obtain ⟨q, rfl⟩ := whole
  have more : q + 1 ≤ (bsz_wr + bsz_rd - 1) / bsz_rd := by
    rw [Nat.le_div_iff_mul_le read, Nat.add_mul, Nat.one_mul, Nat.mul_comm q]
    omega
  calc bsz_rd * q + bsz_rd = (q + 1) * bsz_rd := by rw [Nat.add_mul, Nat.one_mul, Nat.mul_comm q]
    _ ≤ (bsz_wr + bsz_rd - 1) / bsz_rd * bsz_rd := Nat.mul_le_mul_right _ more

private theorem Filled.fit {s : Tx μ × Net μ} (filled : Filled bsz_rd bsz_wr s)
    (room : RTE_RING_SZ_MASK < bsz_rd ∨ (0 < bsz_rd ∧ (bsz_wr + bsz_rd - 1) / bsz_rd * bsz_rd ≤ APP_MBUF_ARRAY_SIZE)) :
    TakesFit n_workers bsz_rd bsz_wr s := by
  rintro tx_burst done worker port rest - s' run id - ⟨mbufs, ring⟩ taken
  have filled' := filled.rounds run
  obtain ⟨-, held, -⟩ := BulkRing.dequeued_all taken
  have small := filled'.created id
  rcases room with large | ⟨read, room⟩
  · omega
  · exact (burst_rounded read (filled'.whole port) (filled'.below port)).trans room

end Room

/-! ### Filling a buffer -/

section Full
variable {bsz_rd bsz_wr : Nat}

/-- An lcore that serves port 0 for one worker, before it runs. -/
def idle (μ : Type) : Tx μ × Net μ :=
  (⟨⟨fun _ => .empty, fun _ => false⟩, [0], fun _ _ => some (.tx 0 0)⟩, ⟨fun _ => .create 0, [], fun _ => [], []⟩)

private theorem idle_initial : Initial (idle μ) := ⟨fun _ => rfl, fun _ => Nat.zero_le _⟩

variable [Inhabited μ]

/-- Rings with just one read burst. -/
def refilled (bsz_rd : Nat) (net : Net μ) : Net μ :=
  { net with rings := fun _ => ⟨bsz_rd, List.replicate bsz_rd default, by rw [List.length_replicate]⟩ }

private theorem refilled_taken (read : 0 < bsz_rd) (net : Net μ) (id : RingId) :
    ∃ ring, ((refilled bsz_rd net).rings id).dequeueBulk bsz_rd = some (List.replicate bsz_rd default, ring) := by
  have there : 0 < bsz_rd ∧ bsz_rd ≤ ((refilled bsz_rd net).rings id).items.length := by
    refine ⟨read, ?_⟩
    simp [refilled]
  have taken : ((refilled bsz_rd net).rings id).dequeueBulk bsz_rd =
      some ((List.replicate bsz_rd default).take bsz_rd, ⟨bsz_rd, (List.replicate bsz_rd default).drop bsz_rd, by simp⟩) :=
    if_pos there
  rw [List.take_replicate, Nat.min_self] at taken
  exact ⟨_, taken⟩

/-- The lcore has `len` mbufs in the buffer of port 0, and its ring a read burst. -/
structure Loaded (bsz_rd len : Nat) (s : Tx μ × Net μ) : Prop where
  nic_ports : s.1.nic_ports = [0]
  rings : s.1.rings 0 0 = some (.tx 0 0)
  length : (s.1.mbuf_out 0).items.length = len
  net : ∃ net, s.2 = refilled bsz_rd net

private theorem Loaded.ring {len : Nat} {s : Tx μ × Net μ} (loaded : Loaded bsz_rd len s) (read : 0 < bsz_rd)
    (below : len + bsz_rd < bsz_wr) (room : bsz_wr ≤ APP_MBUF_ARRAY_SIZE) :
    ∃ lp net, app_lcore_io_tx (fun _ _ => 0) 1 bsz_rd bsz_wr s.1 s.2 = .ok (lp, net) ∧
      Loaded bsz_rd (len + bsz_rd) (lp, refilled bsz_rd net) := by
  obtain ⟨lp, net⟩ := s
  obtain ⟨nic_ports, rings, length, net, rfl⟩ := loaded
  obtain ⟨ring, taken⟩ := refilled_taken read net (.tx 0 0)
  cases pushed : (lp.mbuf_out 0).push (List.replicate bsz_rd default) with
  | none =>
    rw [Buffer.push_eq_none, length, List.length_replicate] at pushed
    omega
  | some out =>
    have grown : out.items.length = len + bsz_rd := by
      rw [Buffer.pushed pushed, List.length_append, length, List.length_replicate]
    refine ⟨{ lp with toOutputs := lp.store 0 out }, (refilled bsz_rd net).setRing (.tx 0 0) ring, ?_, ?_⟩
    · have one : tx_rounds 1 lp.nic_ports = [(0, 0)] := by
        rw [nic_ports]
        rfl
      have few : out.items.length < bsz_wr := by omega
      have served : lp.rings 0 0 = some (.tx 0 0) := rings
      show app_lcore_io_tx _ 1 bsz_rd bsz_wr lp (refilled bsz_rd net) = _
      rw [app_lcore_io_tx_eq, one]
      simp only [run_rounds, List.foldlM_cons, List.foldlM_nil, io_tx_ring, bind_eq_ok]
      refine ⟨_, ⟨(), rfl, (), rfl, (), rfl, .tx 0 0, congrArg deref served, ?_⟩, rfl⟩
      simp only [taken, pushed, if_pos few]
      rfl
    · constructor
      · exact nic_ports
      · exact rings
      · show ((lp.store 0 out).mbuf_out 0).items.length = _
        simpa [Outputs.store] using grown
      · exact ⟨_, rfl⟩

private theorem refilled_created (small : bsz_rd ≤ RTE_RING_SZ_MASK) (net : Net μ) : Created (refilled bsz_rd net) :=
  fun _ => small

variable (μ) in
/-- Any number of read bursts below a write burst comes into the buffer. -/
private theorem loaded (read : 0 < bsz_rd) (small : bsz_rd ≤ RTE_RING_SZ_MASK) (room : bsz_wr ≤ APP_MBUF_ARRAY_SIZE)
    (bursts : Nat) (below : bursts * bsz_rd < bsz_wr) :
    ∃ trail s, Run (Step 1 bsz_rd bsz_wr) (idle μ) trail s ∧ Loaded bsz_rd (bursts * bsz_rd) s := by
  induction bursts with
  | zero =>
    refine ⟨_, _, .next .stay (.arrivals (refilled_created small (idle μ).2)), ?_⟩
    constructor
    · rfl
    · rfl
    · simp [Buffer.empty]
    · exact ⟨_, rfl⟩
  | succ bursts ih =>
    have sum : (bursts + 1) * bsz_rd = bursts * bsz_rd + bsz_rd := Nat.succ_mul ..
    obtain ⟨trail, s, run, here⟩ := ih (by omega)
    obtain ⟨lp, net, taken, next⟩ := here.ring read (by omega) room
    rw [sum]
    exact ⟨_, _, .next (.next run (.app_lcore_io_tx taken)) (.arrivals (refilled_created small _)), next⟩

private theorem Loaded.too_full {len : Nat} {s : Tx μ × Net μ} (loaded : Loaded bsz_rd len s) (read : 0 < bsz_rd)
    (full : APP_MBUF_ARRAY_SIZE < len + bsz_rd) : ¬ TakesFit 1 bsz_rd bsz_wr s := by
  intro fit
  obtain ⟨lp, net⟩ := s
  obtain ⟨nic_ports, rings, length, net, rfl⟩ := loaded
  obtain ⟨ring, taken⟩ := refilled_taken read net (.tx 0 0)
  have one : tx_rounds 1 lp.nic_ports = [] ++ (0, 0) :: [] := by
    rw [nic_ports]
    rfl
  have room := fit (fun _ _ => 0) [] 0 0 [] one _ rfl _ rings _ taken
  rw [show (lp.mbuf_out 0).items.length = len from length] at room
  omega

variable (μ) in
/-- The buffer overflows when the write burst rounded up is more than the array. -/
private theorem overfilled (read : 0 < bsz_rd) (small : bsz_rd ≤ RTE_RING_SZ_MASK) (write : 0 < bsz_wr)
    (room : bsz_wr ≤ APP_MBUF_ARRAY_SIZE) (full : APP_MBUF_ARRAY_SIZE < (bsz_wr + bsz_rd - 1) / bsz_rd * bsz_rd) :
    ∃ trail s, Run (Step 1 bsz_rd bsz_wr) (idle μ) trail s ∧ ¬ TakesFit 1 bsz_rd bsz_wr s := by
  obtain ⟨bursts, is⟩ : ∃ bursts, (bsz_wr + bsz_rd - 1) / bsz_rd = bursts + 1 :=
    Nat.exists_eq_add_one.mpr (Nat.div_pos (by omega) read)
  have sum : (bursts + 1) * bsz_rd = bursts * bsz_rd + bsz_rd := Nat.succ_mul ..
  have most : (bsz_wr + bsz_rd - 1) / bsz_rd * bsz_rd ≤ bsz_wr + bsz_rd - 1 := Nat.div_mul_le_self ..
  rw [is] at full most
  obtain ⟨trail, s, run, here⟩ := loaded μ read small room bursts (by omega)
  exact ⟨trail, s, run, here.too_full read (by omega)⟩

end Full

/-! ### The parser of `--bsz` -/

section Accepted
variable [Inhabited μ] {eal : Eal} {arg : Text} {app app' : App}

/-- Burst sizes that the parser accepts leave room in every buffer of every run
    exactly when the write burst rounded up to whole read bursts is no more than the
    array, or when a read burst is more than any ring holds. -/
theorem takes_fit_iff (accepted : parse_arg_bsz eal arg app = .ok app') :
    (∀ n_workers (start : Tx μ × Net μ), Initial start → ∀ trail last,
      Run (Step n_workers app'.burst_size_io_tx_read app'.burst_size_io_tx_write) start trail last →
        TakesFit n_workers app'.burst_size_io_tx_read app'.burst_size_io_tx_write last) ↔
    (APP_MBUF_ARRAY_SIZE < app'.burst_size_io_tx_read ∨
      (app'.burst_size_io_tx_write + app'.burst_size_io_tx_read - 1) / app'.burst_size_io_tx_read *
        app'.burst_size_io_tx_read ≤ APP_MBUF_ARRAY_SIZE) := by
  have size : APP_MBUF_ARRAY_SIZE = 512 := rfl
  have mask : RTE_RING_SZ_MASK = 2 ^ 31 - 1 := rfl
  cases parse_arg_bsz_edit accepted with
  | bsz sizes others =>
    obtain ⟨-, -, -, -, ⟨read, bits, double⟩, write, room⟩ := sizes
    constructor
    · intro fits
      by_contra both
      obtain ⟨few, full⟩ := not_or.mp both
      obtain ⟨trail, last, run, bad⟩ := overfilled μ read (by omega) write room (by omega)
      exact bad (fits 1 (idle μ) idle_initial trail last run)
    · intro bound n_workers start initial trail last run
      have filled := run_keeps (fun _ s => Filled app'.burst_size_io_tx_read app'.burst_size_io_tx_write s)
        (fun _ _ => True) (fun _ _ _ _ filled step _ => filled.step step) (.initial write initial) run
        (fun _ _ => trivial)
      refine filled.fit ?_
      rcases bound with large | bound
      -- twice the size wraps around, so it is more than any ring holds
      · exact .inl (by omega)
      · exact .inr ⟨read, bound⟩

end Accepted
end Rounds

/-- The default sizes, but for the lcores that transmit. -/
def sized (io_tx_read io_tx_write : Nat) : App :=
  { zeroed with
    burst_size_io_rx_read := 144
    burst_size_io_rx_write := 144
    burst_size_worker_read := 144
    burst_size_worker_write := 144
    burst_size_io_tx_read := io_tx_read
    burst_size_io_tx_write := io_tx_write }

/-- The default sizes leave room when a burst has arrived. -/
theorem default_takes_fit : TakesFit 1 144 144 ((idle Nat).1, refilled 144 (idle Nat).2) := by
  have accepted : parse_arg_bsz (Eal.first 4) (ascii "(144,144),(144,144),(144,144)") zeroed = .ok (sized 144 144) := rfl
  have small : 144 ≤ RTE_RING_SZ_MASK := by decide
  exact (takes_fit_iff accepted).mpr (.inr (by decide)) 1 (idle Nat) idle_initial _ _
    (.next .stay (.arrivals (refilled_created small (idle Nat).2)))

/-- Three read bursts of 200 come into the buffer before a write burst of 512. -/
theorem third_burst_overflows :
    parse_arg_bsz (Eal.first 4) (ascii "(144,144),(144,144),(200,512)") zeroed = .ok (sized 200 512) ∧
    Initial (idle Nat) ∧
    ∃ trail last, Run (Step 1 200 512) (idle Nat) trail last ∧ ¬ TakesFit 1 200 512 last := by
  refine ⟨rfl, idle_initial, ?_⟩
  exact overfilled Nat (by decide) (by decide) (by decide) (by decide) (by decide)

end Shardb.Transmit
