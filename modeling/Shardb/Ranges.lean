import Shardb.Program
import Shardb.Receive
import Shardb.Transmit

/-!
# The arrays of the I/O lcores

An array of the I/O lcores is as long as one quantity and its index is another:
slots against a burst and two more, ports of an lcore against port numbers, I/O
lcores against those that receive. The options bound the first of each pair, so
the second stays inside for some accepted command lines only, and for those with
which `app_init` stops before the array is used (`in_range_iff`).
-/

namespace Shardb.Ranges
open Shardb.Bytes (Text ascii)
open Shardb.Loops Shardb.Lcores Shardb.Wiring Shardb.Config Shardb.Options Shardb.CommandLine Shardb.Startup Shardb.Calls
open Shardb.Program (Machine Initialised Planned Startable create_ring_rx create_rings_rx create_ring_rx_ok create_rings_rx_ok
  init_rings_rx_planned init_ring_rx_planned zeroed numbered receivers receivers_length kept_iff app_init_iff app_init_parts
  receives_congr created_ok ring_rx_loop rings_rx_loop RingSize calm calm_documented)
open Shardb.Sockets (Tables isEnabled app_init_mbuf_pools app_init_lpm_tables)
open Shardb.WorkerIds (HasRoom Receiving Receiving.goes)
open Shardb.WorkerCount (workers_length)
open Shardb.Receive (rx_reads rx_reads_inside)
open Shardb.Transmit (tx_rounds)

variable {μ : Type}

/-- The element of a list behind `k` others that pass the test. -/
theorem split_filter {α : Type} {p : α → Bool} : ∀ {l : List α} {k : Nat}, k < (l.filter p).length →
    ∃ done a rest, l = done ++ a :: rest ∧ p a = true ∧ (done.filter p).length = k := by
  intro l
  induction l with
  | nil => intro k inside; cases inside
  | cons b l ih =>
    intro k inside
    by_cases passes : p b = true
    · rcases k with _ | k
      · exact ⟨[], b, l, rfl, passes, rfl⟩
      · rw [List.filter_cons, if_pos passes, List.length_cons] at inside
        obtain ⟨done, a, rest, rfl, here, count⟩ := ih (Nat.lt_of_succ_lt_succ inside)
        refine ⟨b :: done, a, rest, rfl, here, ?_⟩
        rw [List.filter_cons, if_pos passes, List.length_cons, count]
    · rw [List.filter_cons, if_neg passes] at inside
      obtain ⟨done, a, rest, rfl, here, count⟩ := ih inside
      refine ⟨b :: done, a, rest, rfl, here, ?_⟩
      rw [List.filter_cons, if_neg passes, count]

/-! ### The stores into `rings_in` -/

/-- Each store into a worker's `rings_in` that the loops reach is inside, when every
    ring is had. -/
def WiredInside (s : System μ) : Prop :=
  ∀ done lcore rest, List.range APP_MAX_LCORES = done ++ lcore :: rest →
    ∀ s₁, done.foldlM (fun s o => init_rings_rx o s) s = .ok s₁ → (s₁.lcore_params lcore).receives = true →
      ∀ done' w rest', List.range APP_MAX_LCORES = done' ++ w :: rest' →
        ∀ s₂, done'.foldlM (fun s w => init_ring_rx lcore w s) s₁ = .ok s₂ →
          ∀ lp, s₂.lcore_params w = .worker lp → lp.rings_in.length < APP_MAX_IO_LCORES

private theorem init_ring_rx_idle {lcore w : Nat} {s : System μ} (other : (s.lcore_params w).isWorker = false) :
    init_ring_rx lcore w s = .ok s := by
  rw [init_ring_rx]
  cases s.lcore_params lcore with
  | disabled => rfl
  | worker lp => rfl
  | io rx tx =>
    cases kind : s.lcore_params w with
    | disabled => rfl
    | io rx' tx' => rfl
    | worker lp => rw [kind] at other; cases other

private theorem init_rings_rx_idle {lcore : Nat} {s : System μ} : ∀ {ws : List Nat},
    (∀ w ∈ ws, (s.lcore_params w).isWorker = false) → ws.foldlM (fun s w => init_ring_rx lcore w s) s = .ok s := by
  intro ws
  induction ws with
  | nil => intro _; rfl
  | cons w ws ih =>
    intro others
    rw [List.foldlM_cons, init_ring_rx_idle (others w List.mem_cons_self)]
    exact ih fun w' member => others w' (List.mem_cons_of_mem _ member)

/-- An lcore has no more rings for receiving than it has room for. -/
def Fits (s : System μ) : Prop := ∀ l rx tx, s.lcore_params l = .io rx tx → rx.rings.length ≤ APP_MAX_WORKER_LCORES

private theorem init_ring_rx_fits {lcore w : Nat} {s s' : System μ} (fits : Fits s)
    (run : init_ring_rx lcore w s = .ok s') : Fits s' := by
  rw [init_ring_rx] at run
  cases kind : s.lcore_params lcore with
  | disabled => simp only [kind, Except.ok.injEq] at run; exact run ▸ fits
  | worker lp => simp only [kind, Except.ok.injEq] at run; exact run ▸ fits
  | io rx tx =>
    cases kind' : s.lcore_params w with
    | disabled => simp only [kind, kind', Except.ok.injEq] at run; exact run ▸ fits
    | io rx' tx' => simp only [kind, kind', Except.ok.injEq] at run; exact run ▸ fits
    | worker lp =>
      simp only [kind, kind', bind_eq_ok, index_eq_ok] at run
      obtain ⟨-, room, -, -, run⟩ := run
      cases run
      intro l rx' tx' is
      by_cases here : l = w
      · subst here
        rw [setLcore_self] at is
        cases is
      · rw [setLcore_other _ _ here] at is
        by_cases here' : l = lcore
        · subst here'
          rw [setLcore_self] at is
          cases is
          rw [List.length_append, List.length_singleton]
          exact room
        · rw [setLcore_other _ _ here'] at is
          exact fits l rx' tx' is

private theorem init_rings_rx_fits {os : List Nat} {s s' : System μ} (fits : Fits s)
    (run : os.foldlM (fun s o => init_rings_rx o s) s = .ok s') : Fits s' := by
  refine foldlM_ok (fun _ s => Fits s) (fun o _ s next fits once => ?_) fits run
  rw [init_rings_rx] at once
  by_cases receives : (s.lcore_params o).receives = true
  · rw [if_pos receives] at once
    exact foldlM_ok (fun _ s => Fits s) (fun w _ s next fits once => init_ring_rx_fits fits once) fits once
  · rw [if_neg receives] at once
    cases once
    exact fits

section Stores
variable {lcores : Nat → Lcore μ} (bare : ∀ l, (lcores l).Bare) (app : Params) (net : Net μ)
include bare

/-- At a store the array has a ring from each receiving lcore that was wired before. -/
private theorem store_index {done done' rest' : List Nat} {lcore w : Nat} {s₁ s₂ : System μ}
    (order' : List.range APP_MAX_LCORES = done' ++ w :: rest')
    (reached : done.foldlM (fun s o => init_rings_rx o s) (⟨app, lcores, net⟩ : System μ) = .ok s₁)
    (receives : (s₁.lcore_params lcore).receives = true)
    (reached' : done'.foldlM (fun s w => init_ring_rx lcore w s) s₁ = .ok s₂) {lp : Worker μ}
    (is : s₂.lcore_params w = .worker lp) : lp.rings_in.length = (done.filter fun o => (lcores o).receives).length := by
  have inside : w < APP_MAX_LCORES := List.mem_range.mp (by rw [order']; simp)
  have fresh : w ∉ done' := by
    have once : (done' ++ w :: rest').Nodup := order' ▸ List.nodup_range
    exact fun member => (List.nodup_append.mp once).2.2 w member w List.mem_cons_self rfl
  have none : done'.filter (· = w) = [] := by
    refine List.filter_eq_nil_iff.mpr fun o member => ?_
    rintro same
    rw [of_decide_eq_true same] at member
    exact fresh member
  rw [init_rings_rx_loop receives reached', none] at is
  obtain ⟨lp₁, is₁, rings₁, -⟩ := add_worker is
  rw [init_rings_rx_all reached] at is₁
  obtain ⟨lp₀, is₀, rings₀, -⟩ := add_worker is₁
  have empty : lp₀.rings_in = [] := by
    have none := bare w
    rw [show lcores w = .worker lp₀ from is₀] at none
    exact none.1
  rw [rings₁, rings₀, empty, if_pos inside]
  simp

/-- With too many workers no lcore that receives comes through the loop: it would
    have more rings than it has room for. -/
private theorem none_wired {done : List Nat} {s₁ : System μ} (many : APP_MAX_WORKER_LCORES < (workers lcores).length)
    (once : done.Nodup)
    (reached : done.foldlM (fun s o => init_rings_rx o s) (⟨app, lcores, net⟩ : System μ) = .ok s₁) :
    done.filter (fun o => (lcores o).receives) = [] := by
  refine List.filter_eq_nil_iff.mpr fun o member receives => ?_
  have only : done.filter (· = o) = [o] := by
    rw [List.filter_eq, List.count_eq_one_of_mem once member]
    rfl
  have start : Fits (⟨app, lcores, net⟩ : System μ) := by
    intro l rx tx is
    have empty := bare l
    rw [show lcores l = .io rx tx from is] at empty
    rw [empty.1]
    exact Nat.zero_le _
  have left := init_rings_rx_all reached o
  dsimp only at left
  rw [completed, only, List.filter_cons, if_pos receives, List.filter_nil, List.flatMap_cons, List.flatMap_nil,
    List.append_nil] at left
  obtain ⟨rx, tx, kind, -⟩ := receives_iff.mp receives
  rw [kind] at left
  have room := init_rings_rx_fits start reached o _ _ left
  rw [List.length_append, List.length_map] at room
  omega

/-- The first worker has no room for the ring of the seventeenth lcore. -/
private theorem seventeenth_store (some : workers lcores ≠ []) (few : (workers lcores).length ≤ APP_MAX_WORKER_LCORES)
    (many : APP_MAX_IO_LCORES < app_get_lcores_io_rx lcores) : ¬ WiredInside ⟨app, lcores, net⟩ := by
  intro inside
  obtain ⟨done, lcore, rest, order, receives, count⟩ := split_filter many
  obtain ⟨done', w, rest', order', worker, none⟩ := split_filter (List.length_pos_iff.mpr some)
  have once : (done ++ lcore :: rest).Nodup := order ▸ List.nodup_range
  obtain ⟨s₁, reached, -⟩ := foldlM_goes Receiving Receiving.goes
    (Receiving.start bare (List.nodup_append.mp once).1 few (Nat.le_of_eq count) app net)
  have left := init_rings_rx_all reached
  have here : (s₁.lcore_params lcore).receives = true := by
    rw [left, completed, receives_add]
    exact receives
  have reached' : done'.foldlM (fun s w => init_ring_rx lcore w s) s₁ = .ok s₁ := by
    refine init_rings_rx_idle fun o member => ?_
    rw [left, completed, isWorker_add]
    exact Bool.eq_false_of_not_eq_true (List.filter_eq_nil_iff.mp (List.length_eq_zero_iff.mp none) o member)
  have works : (s₁.lcore_params w).isWorker = true := by
    rw [left, completed, isWorker_add]
    exact worker
  obtain ⟨lp, kind⟩ := isWorker_iff.mp works
  have room := inside done lcore rest order s₁ reached here done' w rest' order' s₁ reached' lp kind
  rw [store_index bare app net order' reached here reached' kind, count] at room
  exact absurd room (Nat.lt_irrefl _)

/-- The stores stay inside when sixteen lcores receive at most, or when more than
    sixteen workers stop the loops at the first that does. -/
theorem wired_inside_iff (some : workers lcores ≠ []) : WiredInside ⟨app, lcores, net⟩ ↔
    app_get_lcores_io_rx lcores ≤ APP_MAX_IO_LCORES ∨ APP_MAX_WORKER_LCORES < (workers lcores).length := by
  constructor
  · intro inside
    by_contra both
    rw [not_or, Nat.not_le, Nat.not_lt] at both
    exact seventeenth_store bare app net some both.2 both.1 inside
  · intro cond done lcore rest order s₁ reached receives done' w rest' order' s₂ reached' lp is
    have once : (done ++ lcore :: rest).Nodup := order ▸ List.nodup_range
    rw [store_index bare app net order' reached receives reached' is]
    rcases cond with few | many
    · have here : (lcores lcore).receives = true := by
        rw [init_rings_rx_all reached, completed, receives_add] at receives
        exact receives
      have all : app_get_lcores_io_rx lcores =
          (done.filter fun o => (lcores o).receives).length + ((lcore :: rest).filter fun o => (lcores o).receives).length := by
        unfold app_get_lcores_io_rx
        rw [order, List.filter_append, List.length_append]
      rw [List.filter_cons, if_pos here, List.length_cons] at all
      omega
    · rw [none_wired bare app net many (List.nodup_append.mp once).1 reached]
      exact Nat.zero_lt_succ _

end Stores

section Machines
variable {π τ ρ : Type} {m : Machine π τ ρ} {s : System μ}

variable (m) in
/-- Each store into a worker's `rings_in` that the loops of `app_init_rings_rx` reach
    is inside. The ring that is stored was had. -/
def StoresInside (s : System μ) : Prop :=
  ∀ done lcore rest, List.range APP_MAX_LCORES = done ++ lcore :: rest →
    ∀ s₁, done.foldlM (fun s o => create_rings_rx m o s) s = .ok s₁ → (s₁.lcore_params lcore).receives = true →
      ∀ done' w rest', List.range APP_MAX_LCORES = done' ++ w :: rest' →
        ∀ s₂, done'.foldlM (fun s w => create_ring_rx m lcore w s) s₁ = .ok s₂ →
          ∀ lp, s₂.lcore_params w = .worker lp →
            m.created s₂.app.ring_rx_size (m.dpdk.rte_lcore_to_socket_id lcore) = .ok () → lp.rings_in.length < APP_MAX_IO_LCORES

section Loops
variable {done done' : List Nat} {lcore : Nat} {s₁ s₂ : System μ}

/-- The loops come as far as they do when every ring is had. -/
private theorem reached_plain (run : done.foldlM (fun s o => create_rings_rx m o s) s = .ok s₁)
    (receives : (s₁.lcore_params lcore).receives = true)
    (run' : done'.foldlM (fun s w => create_ring_rx m lcore w s) s₁ = .ok s₂) :
    done.foldlM (fun s o => init_rings_rx o s) s = .ok s₁ ∧ done'.foldlM (fun s w => init_ring_rx lcore w s) s₁ = .ok s₂ ∧
      s₂.app = s.app := by
  have plain := (rings_rx_loop.mp run).1
  have planned : Planned s s₁ := foldlM_ok (fun _ => Planned s) (fun _ _ _ _ before once => init_rings_rx_planned before once)
    ⟨rfl, fun _ => rfl⟩ plain
  have asked : (s.lcore_params lcore).receives = true := by rw [← receives_congr (planned.same lcore)]; exact receives
  have plain' := ((ring_rx_loop planned asked).mp run').1
  have wired : Planned s s₂ :=
    foldlM_ok (fun _ => Planned s) (fun _ _ _ _ before once => init_ring_rx_planned before asked once) planned plain'
  exact ⟨plain, plain', wired.app⟩

private theorem plain_reached (made : ∀ socket, m.rte_ring_create s.app.ring_rx_size socket = true)
    (run : done.foldlM (fun s o => init_rings_rx o s) s = .ok s₁) (receives : (s₁.lcore_params lcore).receives = true)
    (run' : done'.foldlM (fun s w => init_ring_rx lcore w s) s₁ = .ok s₂) :
    done.foldlM (fun s o => create_rings_rx m o s) s = .ok s₁ ∧
      done'.foldlM (fun s w => create_ring_rx m lcore w s) s₁ = .ok s₂ ∧ s₂.app = s.app := by
  have planned : Planned s s₁ := foldlM_ok (fun _ => Planned s) (fun _ _ _ _ before once => init_rings_rx_planned before once)
    ⟨rfl, fun _ => rfl⟩ run
  have asked : (s.lcore_params lcore).receives = true := by rw [← receives_congr (planned.same lcore)]; exact receives
  have had := (ring_rx_loop planned asked).mpr ⟨run', fun _ _ _ => made _⟩
  have went := rings_rx_loop.mpr ⟨run, fun _ _ _ _ _ _ => made _⟩
  exact ⟨went, had, (reached_plain went receives had).2.2⟩

end Loops

theorem stores_inside_made (made : ∀ socket, m.rte_ring_create s.app.ring_rx_size socket = true) :
    StoresInside m s ↔ WiredInside s := by
  constructor
  · intro inside done lcore rest order s₁ run receives done' w rest' order' s₂ run' lp is
    obtain ⟨went, had, same⟩ := plain_reached made run receives run'
    exact inside done lcore rest order s₁ went receives done' w rest' order' s₂ had lp is
      (created_ok.mpr (by rw [same]; exact made _))
  · intro inside done lcore rest order s₁ run receives done' w rest' order' s₂ run' lp is _
    obtain ⟨went, had, -⟩ := reached_plain run receives run'
    exact inside done lcore rest order s₁ went receives done' w rest' order' s₂ had lp is

/-- Nothing is stored when the first ring is not had. -/
theorem stores_inside_refused (none : ∀ socket, m.rte_ring_create s.app.ring_rx_size socket ≠ true) : StoresInside m s := by
  intro done lcore rest _ s₁ run receives done' w rest' _ s₂ run' lp _ made
  obtain ⟨-, -, same⟩ := reached_plain run receives run'
  rw [created_ok, same] at made
  exact absurd made (none _)

end Machines

/-! ### After a command line -/

variable (μ) in
/-- The arrays are used inside: for receiving and for sending once `app_init` is
    through, and `rings_in` once it has come to the rings. -/
structure InRange {π τ ρ : Type} [Inhabited μ] (m : Machine π τ ρ) (app : App) : Prop where
  app_lcore_io_rx : ∀ init : Initialised π τ ρ μ, Program.app_init m app = .ok init → ∀ l rx tx,
    init.system.lcore_params l = .io rx tx → rx.nic_queues ≠ [] → ∀ n_mbufs, 0 < n_mbufs → n_mbufs ≤ app.burst_size_io_rx_read →
      ∀ k ∈ rx_reads n_mbufs, k < APP_MBUF_ARRAY_SIZE
  app_lcore_io_tx : ∀ init : Initialised π τ ρ μ, Program.app_init m app = .ok init → ∀ l rx tx,
    init.system.lcore_params l = .io rx tx → ∀ n_workers, app_get_lcores_worker init.system.lcore_params = .ok n_workers →
      ∀ round ∈ tx_rounds n_workers tx.nic_ports, round.2 < APP_MAX_NIC_TX_PORTS_PER_IO_LCORE
  app_lcore_io_tx_flush : ∀ init : Initialised π τ ρ μ, Program.app_init m app = .ok init → ∀ l rx tx,
    init.system.lcore_params l = .io rx tx → ∀ port ∈ tx.nic_ports, port < APP_MAX_NIC_TX_PORTS_PER_IO_LCORE
  app_init_rings_rx : ∀ t t' : Tables π τ, app_init_mbuf_pools m.dpdk app.lcore_params zeroed = .ok t →
    app_init_lpm_tables m.dpdk app.lcore_params app.lpm_rules t = .ok t' → StoresInside m (numbered (μ := μ) app)

/-- `app_init` comes to the rings, and through the loops with them as long as a worker
    has room for the lcores. -/
structure Wires {π τ ρ : Type} (m : Machine π τ ρ) (opts : List (Option (Opt × Text))) (app : App) : Prop where
  workers : (workersListed opts).dedup.length ≤ APP_MAX_WORKER_LCORES
  lcores : ∀ lcore, isEnabled (app.lcore_params lcore) = true → m.Equipped app lcore
  rings : RingSize app.ring_rx_size

section Accepted
variable {π τ ρ : Type} [Inhabited μ] {m : Machine π τ ρ} {eal : Eal} {opts : List (Option (Opt × Text))} {app : App}

variable (μ) in
/-- The stores, when the pools and tables are made. -/
private theorem stores_inside_iff (documented : m.Documented) (parsed : app_parse_args eal opts = .ok app) :
    StoresInside m (numbered (μ := μ) app) ↔ (RingSize app.ring_rx_size →
      (workersListed opts).dedup.length ≤ APP_MAX_WORKER_LCORES → (receivers app).length ≤ APP_MAX_IO_LCORES) := by
  have count := workers_length (μ := μ) parsed
  by_cases had : RingSize app.ring_rx_size
  · have some : workers (app_assign_worker_ids (typed (μ := μ) app.lcore_params)) ≠ [] := by
      rw [assigned_workers, ← List.length_pos_iff]
      exact Program.staffed parsed
    rw [stores_inside_made fun socket => (documented.rings _ socket).mpr had]
    refine (wired_inside_iff (fun l => (assigned_blank app.lcore_params l).2) app.toParams _ some).trans ?_
    rw [assigned_workers, count, assigned_receiving, receivers_length, forall_prop_of_true had, or_comm, ← Nat.not_le,
      ← imp_iff_not_or]
  · exact iff_of_true (stores_inside_refused fun socket made => had ((documented.rings _ socket).mp made))
      fun here => absurd here had

/-- What the options have to be. -/
private theorem inside_of_range (documented : m.Documented) (parsed : app_parse_args eal opts = .ok app)
    (range : InRange μ m app) : (Wires m opts app → (receivers app).length ≤ APP_MAX_IO_LCORES) ∧
      (Startable m opts app → app.burst_size_io_rx_read < APP_MBUF_ARRAY_SIZE ∧
        ∀ port, app.nic_tx_port_mask port = true → port < APP_MAX_NIC_TX_PORTS_PER_IO_LCORE) := by
  have left := accepted parsed
  refine ⟨fun wires => ?_, fun startable => ?_⟩
  · obtain ⟨t, t', pools, tables⟩ := (kept_iff left.inside).mpr wires.lcores
    exact (stores_inside_iff μ documented parsed).mp (range.app_init_rings_rx t t' pools tables) wires.rings wires.workers
  · obtain ⟨init, run⟩ := (app_init_iff (μ := μ) documented parsed).mpr startable
    obtain ⟨-, ready, -⟩ := app_init_parts documented parsed run
    refine ⟨?_, fun port enabled => ?_⟩
    · obtain ⟨port, queue, enabled⟩ := some_queue parsed
      obtain ⟨l, ⟨rx, tx, is, member⟩, -⟩ := queue_served parsed ready enabled
      exact (rx_reads_inside left.sizes.io_rx_read.2).mp
        (range.app_lcore_io_rx init run l rx tx is (List.ne_nil_of_mem member))
    · obtain ⟨l, ⟨rx, tx, is, member⟩, -⟩ := port_served parsed ready enabled
      exact range.app_lcore_io_tx_flush init run l rx tx is port member

/-- The arrays are used inside exactly when at most sixteen lcores receive, if `app_init`
    comes to the rings, and, if it gets through, the read burst is below the size of the
    array and the ports are below sixteen. -/
theorem in_range_iff (documented : m.Documented) (parsed : app_parse_args eal opts = .ok app) : InRange μ m app ↔
    (Wires m opts app → (receivers app).length ≤ APP_MAX_IO_LCORES) ∧
      (Startable m opts app → app.burst_size_io_rx_read < APP_MBUF_ARRAY_SIZE ∧
        ∀ port, app.nic_tx_port_mask port = true → port < APP_MAX_NIC_TX_PORTS_PER_IO_LCORE) := by
  have left := accepted parsed
  constructor
  · exact inside_of_range documented parsed
  · rintro ⟨few_io, inside⟩
    have started : ∀ init : Initialised π τ ρ μ, Program.app_init m app = .ok init →
        Wiring.app_init app.toParams app.lcore_params = .ok init.system ∧ app.burst_size_io_rx_read < APP_MBUF_ARRAY_SIZE ∧
          ∀ port, app.nic_tx_port_mask port = true → port < APP_MAX_NIC_TX_PORTS_PER_IO_LCORE := fun init run =>
      ⟨(app_init_parts documented parsed run).2.1, inside ((app_init_iff (μ := μ) documented parsed).mp ⟨init, run⟩)⟩
    constructor
    · intro init run l rx tx is receives
      obtain ⟨-, small, -⟩ := started init run
      exact (rx_reads_inside left.sizes.io_rx_read.2).mpr small
    · intro init run l rx tx is n_workers counted round member
      obtain ⟨ready, -, ports⟩ := started init run
      obtain ⟨worker, -, member⟩ := List.mem_flatMap.mp member
      obtain ⟨port, sends, rfl⟩ := List.mem_map.mp member
      exact ports port (sends_enabled parsed ready is sends)
    · intro init run l rx tx is port sends
      obtain ⟨ready, -, ports⟩ := started init run
      exact ports port (sends_enabled parsed ready is sends)
    · intro t t' pools tables
      have lcores := (kept_iff left.inside).mp ⟨t, t', pools, tables⟩
      exact (stores_inside_iff μ documented parsed).mpr fun rings workers => few_io ⟨workers, lcores, rings⟩

end Accepted

/-- Bursts of the size of the array, with rings of 1000. -/
def odd_burst : List (Option (Opt × Text)) := Program.odd_rings ++ [some (.bsz, ascii "(512,144),(144,144),(144,144)")]

/-- The first starts and stays inside. With the other `app_init` stops at the first ring,
    whatever the burst. -/
theorem one_port_in_range :
    (∃ app, app_parse_args (Eal.first 4) (one_port (ascii "2")) = .ok app ∧ Startable calm (one_port (ascii "2")) app ∧
      InRange Nat calm app) ∧
    ∃ app, app_parse_args (Eal.first 4) odd_burst = .ok app ∧ app.burst_size_io_rx_read = APP_MBUF_ARRAY_SIZE ∧
      InRange Nat calm app := by
  constructor
  · have starts : (app_parse_args (Eal.first 4) (one_port (ascii "2"))).toOption.any (fun app =>
        (Program.app_init (μ := Nat) calm app).toOption.isSome ∧ app.burst_size_io_rx_read < APP_MBUF_ARRAY_SIZE ∧
          ∀ port ∈ List.range APP_MAX_NIC_PORTS, app.nic_tx_port_mask port = true →
            port < APP_MAX_NIC_TX_PORTS_PER_IO_LCORE) = true := by
      decide +kernel
    obtain ⟨app, parsed, starts⟩ := (Option.any_eq_true ..).mp starts
    obtain ⟨run, small, ports⟩ := of_decide_eq_true starts
    rw [toOption_some] at parsed
    obtain ⟨init, run⟩ := Option.isSome_iff_exists.mp run
    have startable := (app_init_iff calm_documented parsed).mp ⟨init, toOption_some.mp run⟩
    refine ⟨app, parsed, startable, (in_range_iff calm_documented parsed).mpr
      ⟨fun _ => startable.receivers, fun _ => ⟨small, fun port enabled => ?_⟩⟩⟩
    exact ports port (List.mem_range.mpr ((accepted parsed).tx_small port enabled)) enabled
  · have odd : (app_parse_args (Eal.first 4) odd_burst).toOption.any (fun app =>
        app.burst_size_io_rx_read = APP_MBUF_ARRAY_SIZE ∧ calm.rte_ring_create app.ring_rx_size 0 = false) = true := by
      decide +kernel
    obtain ⟨app, parsed, odd⟩ := (Option.any_eq_true ..).mp odd
    obtain ⟨burst, refused⟩ := of_decide_eq_true odd
    rw [toOption_some] at parsed
    have none : ¬ RingSize app.ring_rx_size := fun size => by
      have made := (calm_documented.rings _ 0).mpr size
      rw [refused] at made
      cases made
    exact ⟨app, parsed, burst, (in_range_iff calm_documented parsed).mpr
      ⟨fun wires => absurd wires.rings none, fun startable => absurd startable.rings.1 none⟩⟩

private theorem started_out_of_range {opts : List (Option (Opt × Text))}
    (starts : (app_parse_args (Eal.first 24) opts).toOption.any (fun app =>
      (Program.app_init (μ := Nat) calm app).toOption.isSome ∧ (app.burst_size_io_rx_read < APP_MBUF_ARRAY_SIZE →
        ∃ port ∈ List.range APP_MAX_NIC_PORTS, app.nic_tx_port_mask port = true ∧
          APP_MAX_NIC_TX_PORTS_PER_IO_LCORE ≤ port)) = true) :
    ∃ app, app_parse_args (Eal.first 24) opts = .ok app ∧ ¬ InRange Nat calm app := by
  obtain ⟨app, parsed, starts⟩ := (Option.any_eq_true ..).mp starts
  obtain ⟨run, outside⟩ := of_decide_eq_true starts
  rw [toOption_some] at parsed
  obtain ⟨init, run⟩ := Option.isSome_iff_exists.mp run
  refine ⟨app, parsed, fun range => ?_⟩
  obtain ⟨small, ports⟩ := (inside_of_range calm_documented parsed range).2
    ((app_init_iff calm_documented parsed).mp ⟨init, toOption_some.mp run⟩)
  obtain ⟨port, -, enabled, large⟩ := outside small
  have := ports port enabled
  omega

/-- Seventeen lcores that receive. -/
def seventeen : List (Option (Opt × Text)) :=
  [some (.rx, ascii "(0,0,1)(0,1,2)(0,2,3)(0,3,4)(0,4,5)(0,5,6)(0,6,7)(0,7,8)(0,8,9)(0,9,10)"),
    some (.rx, ascii "(0,10,11)(0,11,12)(0,12,13)(0,13,14)(0,14,15)(0,15,16)(0,16,17)"),
    some (.tx, ascii "(0,1)"), some (.w, ascii "20"), some (.lpm, ascii "10.0.0.0/8=>0;")]

/-- A read burst of the size of the array, a port above fifteen, and seventeen lcores
    that receive. -/
theorem burst_port_receivers_out_of_range :
    (∃ app, app_parse_args (Eal.first 24)
        (one_port (ascii "2") ++ [some (.bsz, ascii "(512,144),(144,144),(144,144)")]) = .ok app ∧ ¬ InRange Nat calm app) ∧
    (∃ app, app_parse_args (Eal.first 24)
        [some (.rx, ascii "(20,0,1)"), some (.tx, ascii "(20,1)"), some (.w, ascii "2"),
          some (.lpm, ascii "10.0.0.0/8=>20;")] = .ok app ∧ ¬ InRange Nat calm app) ∧
    ∃ app, app_parse_args (Eal.first 24) seventeen = .ok app ∧ ¬ InRange Nat calm app := by
  refine ⟨started_out_of_range (by decide +kernel), started_out_of_range (by decide +kernel), ?_⟩
  have starts : (app_parse_args (Eal.first 24) seventeen).toOption.any (fun app =>
      (app_init_mbuf_pools calm.dpdk app.lcore_params zeroed >>=
        app_init_lpm_tables calm.dpdk app.lcore_params app.lpm_rules).toOption.isSome ∧
      calm.rte_ring_create app.ring_rx_size 0 = true ∧ (workersListed seventeen).dedup.length ≤ APP_MAX_WORKER_LCORES ∧
      APP_MAX_IO_LCORES < (receivers app).length) = true := by
    decide +kernel
  obtain ⟨app, parsed, starts⟩ := (Option.any_eq_true ..).mp starts
  obtain ⟨kept, made, workers, many⟩ := of_decide_eq_true starts
  rw [toOption_some] at parsed
  obtain ⟨t', kept⟩ := Option.isSome_iff_exists.mp kept
  obtain ⟨t, pools, tables⟩ := bind_eq_ok.mp (toOption_some.mp kept)
  refine ⟨app, parsed, fun range => ?_⟩
  have few_io := (inside_of_range calm_documented parsed range).1
    ⟨workers, (kept_iff (accepted parsed).inside).mp ⟨t, t', pools, tables⟩, (calm_documented.rings _ 0).mp made⟩
  omega

end Shardb.Ranges
