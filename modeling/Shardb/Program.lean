import Shardb.Addresses
import Shardb.Boot
import Shardb.Ports
import Shardb.WorkerCount

/-!
# From `main` to the lcores

The server parses its options, initialises what the options ask for, opens the databases
and reads two addresses before it launches the lcores. It gets that far exactly when the
configuration fits into the arrays and the libraries take it (`launches_iff`), and then
whatever a worker looks up it has a ring for, to an lcore that sends to a port that was
started (`launched_routes`).
-/

namespace Shardb.Program
open Shardb.Loops Shardb.Lcores Shardb.Wiring Shardb.Config Shardb.CommandLine Shardb.Startup Shardb.Calls
open Shardb.Bytes (Text ascii)
open Shardb.Client (Sockaddr)
open Shardb.Datastore (MAX_WORKER_CORE)
open Shardb.Sockets (Tables isEnabled app_init_mbuf_pools app_init_lpm_tables init_lpm_table app_is_socket_used
  each_socket_iff each_lcore_iff each_serves APP_MAX_SOCKETS APP_DEFAULT_MEMPOOL_BUFFERS APP_DEFAULT_MEMPOOL_CACHE_SIZE)
open Shardb.Addresses (parse_arg_ip_address)

/-! ### The functions -/

/-- What the libraries answer; `lcore` is what the variable in `app_init_nics` holds. -/
structure Machine (π τ ρ : Type) where
  rte_eal_init : Int
  dpdk : Sockets.Platform π τ
  rte_ring_create : (count socket : Nat) → Bool
  eth : Ports.Ethdev π ρ
  link_status : List Ports.Event → Nat → Bool
  inet_pton : Addresses.Pton
  lcore : Nat

section Functions
variable {π τ ρ μ : Type} (m : Machine π τ ρ)

/-- `rte_panic` when there is no ring. -/
def Machine.created (count socket : Nat) : Result Unit :=
  if m.rte_ring_create count socket = true then .ok () else .error .panic

def create_ring_rx (lcore lcore_worker : Nat) (s : System μ) : Result (System μ) :=
  if (s.lcore_params lcore_worker).isWorker then do
    m.created s.app.ring_rx_size (m.dpdk.rte_lcore_to_socket_id lcore)
    init_ring_rx lcore lcore_worker s
  else .ok s

def create_rings_rx (lcore : Nat) (s : System μ) : Result (System μ) :=
  if (s.lcore_params lcore).receives then
    (List.range APP_MAX_LCORES).foldlM (fun s lcore_worker => create_ring_rx m lcore lcore_worker s) s
  else .ok s

def app_init_rings_rx (s : System μ) : Result (System μ) := do
  let s ← (List.range APP_MAX_LCORES).foldlM (fun s lcore => create_rings_rx m lcore s) s
  let n_workers ← app_get_lcores_worker s.lcore_params
  (List.range APP_MAX_LCORES).forM (check_rings_rx s.lcore_params n_workers)
  return s

/-- The ring is on the socket of the lcore that empties it. -/
def create_ring_tx (lcore port : Nat) (s : System μ) : Result (System μ) :=
  if (s.lcore_params lcore).isWorker = true ∧ s.app.nic_tx_port_mask port = true then
    match app_get_lcore_for_nic_tx s.lcore_params port with
    | none => .error .panic
    | some lcore_io => do
      m.created s.app.ring_tx_size (m.dpdk.rte_lcore_to_socket_id lcore_io)
      init_ring_tx lcore port s
  else .ok s

def app_init_rings_tx (s : System μ) : Result (System μ) := do
  let s ← (List.range APP_MAX_LCORES).foldlM (fun s lcore =>
    (List.range APP_MAX_NIC_PORTS).foldlM (fun s port => create_ring_tx m lcore port s) s) s
  let n_workers ← app_get_lcores_worker s.lcore_params
  (List.range APP_MAX_LCORES).forM fun lcore => check_rings_tx n_workers (s.lcore_params lcore)
  return s

/-- What `app_init` leaves. -/
structure Initialised (π τ ρ μ : Type) where
  tables : Tables π τ
  system : System μ
  nics : Ports.Nics π ρ
  links : (Bool × List Ports.Event) ⊕ List Ports.Event

/-- The static variable `app`, as far as pools and tables go. -/
def zeroed : Tables π τ := ⟨fun _ => none, fun _ => none, fun _ => none, fun _ => none⟩

/-- The lcores with the ids of the workers, which nothing reads before the rings. -/
def numbered [Inhabited μ] (app : App) : System μ :=
  ⟨app.toParams, app_assign_worker_ids (typed app.lcore_params), ⟨fun _ => .create 0, [], fun _ => [], []⟩⟩

def app_init_rings [Inhabited μ] (app : App) : Result (System μ) := app_init_rings_rx m (numbered app) >>= app_init_rings_tx m

def app_init [Inhabited μ] (app : App) : Result (Initialised π τ ρ μ) := do
  let t ← app_init_mbuf_pools m.dpdk app.lcore_params zeroed
  let t ← app_init_lpm_tables m.dpdk app.lcore_params app.lpm_rules t
  let s ← app_init_rings m app
  let nics ← Ports.app_init_nics m.eth m.dpdk app s.lcore_params t.pool m.lcore
  let links ← Ports.check_all_ports_link_status m.link_status app
  return ⟨t, s, nics, links⟩

/-- `app.server` and `app.client` before they are read. -/
def blank : Sockaddr := ⟨#v[0, 0], #v[0, 0, 0, 0]⟩

end Functions

/-! ### Rings that may not be had -/

section Rings
variable {π τ ρ μ : Type} {m : Machine π τ ρ} {s₀ s s' : System μ}

theorem created_ok {count socket : Nat} : m.created count socket = .ok () ↔ m.rte_ring_create count socket = true := by
  unfold Machine.created
  split_ifs with made <;> simp [made]

section Kinds
variable {p q : Lcore μ} (same : role p = role q)
include same

theorem isWorker_congr : p.isWorker = q.isWorker := by
  cases p <;> cases q <;> first | rfl | cases same

theorem receives_congr : p.receives = q.receives := by
  cases p with
  | io rx tx =>
    obtain ⟨rx', tx', rfl, queues, -⟩ := role_io same.symm
    rw [Lcore.receives, Lcore.receives, queues]
  | _ => cases q <;> first | rfl | cases same

theorem sends_congr (port : Nat) : p.sends port = q.sends port := by
  cases p with
  | io rx tx =>
    obtain ⟨rx', tx', rfl, -, ports⟩ := role_io same.symm
    rw [Lcore.sends, Lcore.sends, ports]
  | _ => cases q <;> first | rfl | cases same

end Kinds

/-- The options, and what the lcores are for, are what they were. -/
structure Planned (s₀ s : System μ) : Prop where
  app : s.app = s₀.app
  same : ∀ l, role (s.lcore_params l) = role (s₀.lcore_params l)

theorem Planned.tx_lcore (planned : Planned s₀ s) (port : Nat) :
    app_get_lcore_for_nic_tx s.lcore_params port = app_get_lcore_for_nic_tx s₀.lcore_params port := by
  unfold app_get_lcore_for_nic_tx
  simp only [sends_congr (planned.same _)]

section Rx
variable {lcore lcore_worker : Nat}

/-- Without a worker there is no ring to make. -/
theorem init_ring_rx_other (other : ¬ (s.lcore_params lcore_worker).isWorker = true) :
    init_ring_rx lcore lcore_worker s = .ok s := by
  rw [init_ring_rx]
  cases kind : s.lcore_params lcore_worker with
  | worker lp => exact absurd (by rw [kind]; rfl) other
  | disabled => cases s.lcore_params lcore <;> rfl
  | io rx tx => cases s.lcore_params lcore <;> rfl

theorem init_ring_rx_app (run : init_ring_rx lcore lcore_worker s = .ok s') : s'.app = s.app := by
  rw [init_ring_rx] at run
  split at run
  · simp only [bind_eq_ok] at run
    obtain ⟨-, -, -, -, run⟩ := run
    cases run
    rfl
  · cases run
    rfl

theorem init_ring_rx_planned (planned : Planned s₀ s) (receives : (s₀.lcore_params lcore).receives = true)
    (run : init_ring_rx lcore lcore_worker s = .ok s') : Planned s₀ s' := by
  refine ⟨(init_ring_rx_app run).trans planned.app, fun l => ?_⟩
  rw [init_ring_rx_spec ((receives_congr (planned.same lcore)).trans receives) run, role_add]
  exact planned.same l

theorem create_ring_rx_ok : create_ring_rx m lcore lcore_worker s = .ok s' ↔ init_ring_rx lcore lcore_worker s = .ok s' ∧
    ((s.lcore_params lcore_worker).isWorker = true →
      m.rte_ring_create s.app.ring_rx_size (m.dpdk.rte_lcore_to_socket_id lcore) = true) := by
  unfold create_ring_rx
  split_ifs with worker
  · rw [bind_eq_ok]
    constructor
    · rintro ⟨u, made, run⟩
      exact ⟨run, fun _ => created_ok.mp made⟩
    · rintro ⟨run, made⟩
      exact ⟨_, created_ok.mpr (made worker), run⟩
  · rw [init_ring_rx_other worker]
    exact (and_iff_left fun here => absurd here worker).symm

/-- What one I/O lcore asks for. -/
def Machine.RxMade (m : Machine π τ ρ) (s₀ : System μ) (lcore : Nat) : Prop :=
  (s₀.lcore_params lcore).receives = true → ∀ w ∈ List.range APP_MAX_LCORES, (s₀.lcore_params w).isWorker = true →
    m.rte_ring_create s₀.app.ring_rx_size (m.dpdk.rte_lcore_to_socket_id lcore) = true

/-- The loop over the workers. -/
theorem ring_rx_loop {ws : List Nat} (planned : Planned s₀ s) (receives : (s₀.lcore_params lcore).receives = true) :
    ws.foldlM (fun s w => create_ring_rx m lcore w s) s = .ok s' ↔ ws.foldlM (fun s w => init_ring_rx lcore w s) s = .ok s' ∧
      ∀ w ∈ ws, (s₀.lcore_params w).isWorker = true →
        m.rte_ring_create s₀.app.ring_rx_size (m.dpdk.rte_lcore_to_socket_id lcore) = true := by
  refine guarded_ok (Planned s₀) (fun before => ?_) (fun before once => init_ring_rx_planned before receives once) planned
  rw [create_ring_rx_ok, isWorker_congr (before.same _), before.app]

theorem create_rings_rx_ok (planned : Planned s₀ s) :
    create_rings_rx m lcore s = .ok s' ↔ init_rings_rx lcore s = .ok s' ∧ m.RxMade s₀ lcore := by
  unfold create_rings_rx init_rings_rx Machine.RxMade
  rw [receives_congr (planned.same lcore)]
  split_ifs with receives
  · rw [forall_prop_of_true receives]
    exact ring_rx_loop planned receives
  · exact (and_iff_left fun here => absurd here receives).symm

theorem init_rings_rx_planned (planned : Planned s₀ s) (run : init_rings_rx lcore s = .ok s') : Planned s₀ s' := by
  unfold init_rings_rx at run
  rw [receives_congr (planned.same lcore)] at run
  split_ifs at run with receives
  · exact foldlM_ok (fun _ => Planned s₀) (fun _ _ _ _ before once => init_ring_rx_planned before receives once) planned run
  · cases run
    exact planned

end Rx

/-- The loop over the lcores that receive. -/
theorem rings_rx_loop {os : List Nat} : os.foldlM (fun s lcore => create_rings_rx m lcore s) s = .ok s' ↔
    os.foldlM (fun s lcore => init_rings_rx lcore s) s = .ok s' ∧ ∀ lcore ∈ os, m.RxMade s lcore := by
  refine guarded_ok (Planned s) ?_ ?_ ⟨rfl, fun _ => rfl⟩
  · exact create_rings_rx_ok
  · exact init_rings_rx_planned

/-- Rings that may not be had are made where they are had. -/
theorem app_init_rings_rx_iff : app_init_rings_rx m s = .ok s' ↔
    Wiring.app_init_rings_rx s = .ok s' ∧ ∀ lcore ∈ List.range APP_MAX_LCORES, m.RxMade s lcore := by
  simp only [app_init_rings_rx, Wiring.app_init_rings_rx, bind_eq_ok, rings_rx_loop]
  constructor
  · rintro ⟨s₁, ⟨run, made⟩, rest⟩
    exact ⟨⟨s₁, run, rest⟩, made⟩
  · rintro ⟨⟨s₁, run, rest⟩, made⟩
    exact ⟨s₁, ⟨run, made⟩, rest⟩

section Tx
variable {lcore port : Nat}

theorem init_ring_tx_planned (planned : Planned s₀ s) (run : init_ring_tx lcore port s = .ok s') : Planned s₀ s' := by
  refine ⟨?_, fun l => (init_ring_tx_role run l).trans (planned.same l)⟩
  rcases init_ring_tx_cases run with ⟨rfl, -⟩ | ⟨-, -, -, -, -, -, -, rfl⟩
  · exact planned.app
  · exact planned.app

/-- Where no ring is asked for none is made. -/
theorem init_ring_tx_other (other : ¬ ((s.lcore_params lcore).isWorker = true ∧ s.app.nic_tx_port_mask port = true)) :
    init_ring_tx lcore port s = .ok s := by
  rw [init_ring_tx]
  cases kind : s.lcore_params lcore with
  | disabled => rfl
  | io rx tx => rfl
  | worker lp =>
    refine if_pos ?_
    rw [kind] at other
    simpa [Lcore.isWorker] using other

/-- What a worker asks for. -/
def Machine.TxMade (m : Machine π τ ρ) (s₀ : System μ) (lcore port : Nat) : Prop :=
  (s₀.lcore_params lcore).isWorker = true → s₀.app.nic_tx_port_mask port = true →
    ∀ l, app_get_lcore_for_nic_tx s₀.lcore_params port = some l →
      m.rte_ring_create s₀.app.ring_tx_size (m.dpdk.rte_lcore_to_socket_id l) = true

theorem create_ring_tx_ok (planned : Planned s₀ s) :
    create_ring_tx m lcore port s = .ok s' ↔ init_ring_tx lcore port s = .ok s' ∧ m.TxMade s₀ lcore port := by
  unfold create_ring_tx Machine.TxMade
  rw [← isWorker_congr (planned.same lcore), ← planned.app, ← planned.tx_lcore port]
  split_ifs with asked
  · obtain ⟨worker, enabled⟩ := asked
    cases found : app_get_lcore_for_nic_tx s.lcore_params port with
    | none =>
      refine iff_of_false (fun bad => by cases bad) fun both => ?_
      rcases init_ring_tx_cases both.1 with ⟨-, idle⟩ | ⟨lp, l, rx, tx, -, -, there, -⟩
      · obtain ⟨lp, is⟩ := isWorker_iff.mp worker
        rw [idle lp is] at enabled
        cases enabled
      · rw [found] at there
        cases there
    | some l =>
      rw [bind_eq_ok]
      constructor
      · rintro ⟨u, made, run⟩
        refine ⟨run, fun _ _ l' same => ?_⟩
        cases same
        exact created_ok.mp made
      · rintro ⟨run, made⟩
        exact ⟨_, created_ok.mpr (made worker enabled l rfl), run⟩
  · rw [init_ring_tx_other asked]
    exact (and_iff_left fun worker enabled => absurd ⟨worker, enabled⟩ asked).symm

end Tx

theorem app_init_rings_tx_iff : app_init_rings_tx m s = .ok s' ↔ Wiring.app_init_rings_tx s = .ok s' ∧
    ∀ lcore ∈ List.range APP_MAX_LCORES, ∀ port ∈ List.range APP_MAX_NIC_PORTS, m.TxMade s lcore port := by
  have ports : ∀ {t lcore t'}, Planned s t →
      ((List.range APP_MAX_NIC_PORTS).foldlM (fun s port => create_ring_tx m lcore port s) t = .ok t' ↔
        (List.range APP_MAX_NIC_PORTS).foldlM (fun s port => init_ring_tx lcore port s) t = .ok t' ∧
          ∀ port ∈ List.range APP_MAX_NIC_PORTS, m.TxMade s lcore port) := fun planned => by
    refine guarded_ok (Planned s) ?_ ?_ planned
    · exact create_ring_tx_ok
    · exact init_ring_tx_planned
  have kept : ∀ {t lcore t'}, Planned s t →
      (List.range APP_MAX_NIC_PORTS).foldlM (fun s port => init_ring_tx lcore port s) t = .ok t' → Planned s t' :=
    fun planned run => foldlM_ok (fun _ => Planned s) (fun _ _ _ _ before once => init_ring_tx_planned before once) planned run
  have loop : ∀ s₁, (List.range APP_MAX_LCORES).foldlM (fun s lcore =>
      (List.range APP_MAX_NIC_PORTS).foldlM (fun s port => create_ring_tx m lcore port s) s) s = .ok s₁ ↔
        (List.range APP_MAX_LCORES).foldlM (fun s lcore =>
          (List.range APP_MAX_NIC_PORTS).foldlM (fun s port => init_ring_tx lcore port s) s) s = .ok s₁ ∧
        ∀ lcore ∈ List.range APP_MAX_LCORES, ∀ port ∈ List.range APP_MAX_NIC_PORTS, m.TxMade s lcore port := fun s₁ => by
    refine guarded_ok (Planned s) ?_ ?_ ⟨rfl, fun _ => rfl⟩
    · exact ports
    · exact kept
  simp only [app_init_rings_tx, Wiring.app_init_rings_tx, bind_eq_ok, loop]
  constructor
  · rintro ⟨s₁, ⟨run, made⟩, rest⟩
    exact ⟨⟨s₁, run, rest⟩, made⟩
  · rintro ⟨⟨s₁, run, rest⟩, made⟩
    exact ⟨s₁, ⟨run, made⟩, rest⟩

theorem rings_rx_planned (run : Wiring.app_init_rings_rx s = .ok s') : Planned s s' :=
  foldlM_ok (fun _ => Planned s) (fun _ _ _ _ before once => init_rings_rx_planned before once) ⟨rfl, fun _ => rfl⟩
    (app_init_rings_rx_ok run)

theorem rings_tx_planned (run : Wiring.app_init_rings_tx s = .ok s') : Planned s s' :=
  app_init_rings_tx_keeps (Planned s) init_ring_tx_planned ⟨rfl, fun _ => rfl⟩ run

end Rings

/-! ### As many lcores as there is room for -/

section Room
variable {μ : Type}

/-- A worker has no more rings to read than it has room for. -/
def RoomIn (s : System μ) : Prop := ∀ w lp, s.lcore_params w = .worker lp → lp.rings_in.length ≤ APP_MAX_IO_LCORES

theorem init_ring_rx_room {lcore lcore_worker : Nat} {s s' : System μ} (room : RoomIn s)
    (run : init_ring_rx lcore lcore_worker s = .ok s') : RoomIn s' := by
  rw [init_ring_rx] at run
  split at run
  · simp only [bind_eq_ok, index_eq_ok] at run
    obtain ⟨-, -, -, free, run⟩ := run
    cases run
    intro w lp is
    by_cases here : w = lcore_worker
    · subst here
      rw [setLcore_self] at is
      cases is
      rw [List.length_append, List.length_singleton]
      exact free
    · rw [setLcore_other _ _ here] at is
      by_cases here' : w = lcore
      · subst here'
        rw [setLcore_self] at is
        cases is
      · rw [setLcore_other _ _ here'] at is
        exact room w lp is
  · cases run
    exact room

theorem init_rings_rx_room {lcore : Nat} {s s' : System μ} (room : RoomIn s) (run : init_rings_rx lcore s = .ok s') :
    RoomIn s' := by
  unfold init_rings_rx at run
  split_ifs at run
  · exact foldlM_ok (fun _ => RoomIn) (fun _ _ _ _ before once => init_ring_rx_room before once) room run
  · cases run
    exact room

/-- With a worker, no more than sixteen lcores that receive. -/
theorem app_init_few_io [Inhabited μ] {app : Params} {roles : Nat → Role} {s : System μ}
    (run : Wiring.app_init app roles = .ok s) (staffed : 0 < (workers (typed (μ := μ) roles)).length) :
    app_get_lcores_io_rx (typed (μ := μ) roles) ≤ APP_MAX_IO_LCORES := by
  obtain ⟨s₁, rx, -⟩ := bind_eq_ok.mp run
  have loop := app_init_rings_rx_ok rx
  have room : RoomIn s₁ := by
    refine foldlM_ok (fun _ => RoomIn) (fun _ _ _ _ before once => init_rings_rx_room before once) (fun w lp is => ?_) loop
    have bare := (assigned_blank (μ := μ) roles w).2
    rw [show app_assign_worker_ids (typed roles) w = .worker lp from is] at bare
    rw [bare.1]
    exact Nat.zero_le _
  obtain ⟨w, member⟩ := List.exists_mem_of_length_pos staffed
  have worker : (s₁.lcore_params w).isWorker = true := by
    rw [isWorker_congr ((rings_rx_planned rx).same w)]
    exact (assigned_isWorker _ w).trans (List.mem_filter.mp member).2
  obtain ⟨lp, is⟩ := isWorker_iff.mp worker
  have rings := (completed_worker (fun l => (assigned_blank roles l).2) (assigned_outside roles) (init_rings_rx_all loop) is).2.1
  have fits := room w lp is
  rw [rings, List.length_map] at fits
  rw [← assigned_receiving]
  exact fits

end Room

/-! ### When the lcores are launched -/

/-- The sizes that `rte_ring_create` takes. -/
def RingSize (count : Nat) : Prop := ∃ k ≤ 30, count = 2 ^ k

/-- The libraries refuse what they cannot do, and nothing else. -/
structure Machine.Documented {π τ ρ : Type} (m : Machine π τ ρ) : Prop where
  rings : ∀ count socket, m.rte_ring_create count socket = true ↔ RingSize count
  ports : Ports.Ready m.eth
  addresses : Addresses.Documented m.inet_pton

/-- The socket of an lcore has a place in the arrays, a pool, and a table with all rules. -/
structure Machine.Equipped {π τ ρ : Type} (m : Machine π τ ρ) (app : App) (lcore : Nat) : Prop where
  socket : m.dpdk.rte_lcore_to_socket_id lcore < APP_MAX_SOCKETS
  pool : ∃ pool, m.dpdk.rte_pktmbuf_pool_create APP_DEFAULT_MEMPOOL_BUFFERS APP_DEFAULT_MEMPOOL_CACHE_SIZE
    m.dpdk.RTE_MBUF_DEFAULT_BUF_SIZE (m.dpdk.rte_lcore_to_socket_id lcore) = some pool
  table : ∃ table, init_lpm_table m.dpdk app.lpm_rules (m.dpdk.rte_lcore_to_socket_id lcore) = .ok table

/-- The lcores that receive. -/
def receivers (app : App) : List Nat :=
  (List.range APP_MAX_LCORES).filter fun lcore => ! (queuesOf (app.lcore_params lcore)).isEmpty

/-- What has to hold of an accepted command line. -/
structure Startable {π τ ρ : Type} (m : Machine π τ ρ) (opts : List (Option (Opt × Text))) (app : App) : Prop where
  workers : (workersListed opts).dedup.length ≤ APP_MAX_WORKER_LCORES
  receivers : (receivers app).length ≤ APP_MAX_IO_LCORES
  lcores : ∀ lcore, isEnabled (app.lcore_params lcore) = true → m.Equipped app lcore
  rings : RingSize app.ring_rx_size ∧ RingSize app.ring_tx_size
  queues : ∀ port, ∃ n, ∀ queue, app.nic_rx_queue_mask port queue = true ↔ queue < n

section Launch
variable {π τ ρ μ : Type} [Inhabited μ] {m : Machine π τ ρ} {eal : Eal} {opts : List (Option (Opt × Text))} {app : App}

theorem receivers_length : app_get_lcores_io_rx (typed (μ := μ) app.lcore_params) = (receivers app).length := by
  unfold app_get_lcores_io_rx receivers
  congr 1
  refine List.filter_congr fun l below => ?_
  unfold typed
  rw [if_pos (List.mem_range.mp below)]
  cases app.lcore_params l <;> rfl

/-- The pools and the tables. -/
theorem kept_iff (inside : ∀ l, app.lcore_params l ≠ .disabled → l < APP_MAX_LCORES) :
    (∃ t t' : Tables π τ, app_init_mbuf_pools m.dpdk app.lcore_params zeroed = .ok t ∧
      app_init_lpm_tables m.dpdk app.lcore_params app.lpm_rules t = .ok t') ↔
      ∀ lcore, isEnabled (app.lcore_params lcore) = true → m.Equipped app lcore := by
  constructor
  · rintro ⟨t, t', pools, tables⟩ l enabled
    simp only [app_init_mbuf_pools, app_init_lpm_tables, bind_eq_ok] at pools tables
    obtain ⟨made, makes, given, gives, -⟩ := pools
    obtain ⟨filled, fills, -⟩ := tables
    have small : l < APP_MAX_LCORES := inside l fun off => by
      rw [off] at enabled
      cases enabled
    have few := each_lcore_iff.mp ⟨_, gives⟩ l (List.mem_range.mpr small) enabled
    have used : app_is_socket_used m.dpdk app.lcore_params (m.dpdk.rte_lcore_to_socket_id l) = true :=
      Sockets.socket_used small enabled
    obtain ⟨pool, is⟩ := each_socket_iff.mp ⟨_, makes⟩ _ (List.mem_range.mpr few) used
    exact ⟨few, ⟨pool, Sockets.demand_ok.mp is⟩, each_socket_iff.mp ⟨_, fills⟩ _ (List.mem_range.mpr few) used⟩
  · intro equipped
    obtain ⟨t, pools⟩ := @Sockets.app_init_mbuf_pools_goes π τ m.dpdk app.lcore_params zeroed
      fun l _ enabled => ⟨(equipped l enabled).socket, (equipped l enabled).pool⟩
    obtain ⟨t', tables⟩ := Sockets.app_init_lpm_tables_goes t
      fun l _ enabled => ⟨(equipped l enabled).socket, (equipped l enabled).table⟩
    exact ⟨t, t', pools, tables⟩

/-- Some lcore receives. -/
theorem some_receiver (parsed : app_parse_args eal opts = .ok app) :
    ∃ l < APP_MAX_LCORES, ((numbered (μ := μ) app).lcore_params l).receives = true := by
  have left := accepted parsed
  obtain ⟨port, queue, enabled⟩ := some_queue parsed
  obtain ⟨l, member⟩ := (left.rx.listed (port, queue)).mp enabled
  have inside : l < APP_MAX_LCORES := left.inside l fun off => by
    rw [off] at member
    cases member
  refine ⟨l, inside, (assigned_receives _ l).trans ?_⟩
  unfold typed
  rw [if_pos inside]
  cases is : app.lcore_params l with
  | disabled => rw [is] at member; cases member
  | worker => rw [is] at member; cases member
  | io nic_queues nic_ports =>
    have some : nic_queues ≠ [] := List.ne_nil_of_mem (is ▸ member)
    simpa [Lcore.receives, Role.params] using some

theorem staffed (parsed : app_parse_args eal opts = .ok app) : 0 < (workers (typed (μ := μ) app.lcore_params)).length := by
  rw [WorkerCount.workers_length parsed, List.length_pos_iff]
  exact fun none => some_worker parsed ((List.dedup_eq_nil _).mp none)

/-- The rings. -/
theorem app_init_rings_ok (documented : m.Documented) (parsed : app_parse_args eal opts = .ok app) {s : System μ} :
    app_init_rings m app = .ok s ↔ Wiring.app_init app.toParams app.lcore_params = .ok s ∧
      RingSize app.ring_rx_size ∧ RingSize app.ring_tx_size := by
  have split : Wiring.app_init app.toParams app.lcore_params = .ok s ↔
      ∃ s₁, Wiring.app_init_rings_rx (numbered app) = .ok s₁ ∧ Wiring.app_init_rings_tx s₁ = .ok s := bind_eq_ok
  rw [split, app_init_rings, bind_eq_ok]
  constructor
  · rintro ⟨s₁, rx, tx⟩
    obtain ⟨rx, rx_made⟩ := app_init_rings_rx_iff.mp rx
    obtain ⟨tx, tx_made⟩ := app_init_rings_tx_iff.mp tx
    have ready := split.mpr ⟨s₁, rx, tx⟩
    obtain ⟨w, member⟩ := List.exists_mem_of_length_pos (staffed (μ := μ) parsed)
    have is_worker : ((numbered (μ := μ) app).lcore_params w).isWorker = true :=
      (assigned_isWorker _ w).trans (List.mem_filter.mp member).2
    have below := (List.mem_filter.mp member).1
    refine ⟨⟨s₁, rx, tx⟩, ?_, ?_⟩
    · obtain ⟨l, inside, receives⟩ := some_receiver (μ := μ) parsed
      exact (documented.rings _ _).mp (rx_made l (List.mem_range.mpr inside) receives w below is_worker)
    · have left := accepted parsed
      obtain ⟨port, queue, enabled⟩ := some_queue parsed
      have sends := left.back port queue enabled
      obtain ⟨l, found⟩ := (Ports.all_found parsed ready).tx port sends
      have options : s₁.app = app.toParams := (rings_rx_planned rx).app
      rw [(rings_tx_planned tx).tx_lcore] at found
      have made := tx_made w below port (List.mem_range.mpr (left.tx_small port sends))
        ((isWorker_congr ((rings_rx_planned rx).same w)).trans is_worker) (by rw [options]; exact sends) l found
      rw [options] at made
      exact (documented.rings _ _).mp made
  · rintro ⟨⟨s₁, rx, tx⟩, rx_size, tx_size⟩
    have options : s₁.app = app.toParams := (rings_rx_planned rx).app
    exact ⟨s₁, app_init_rings_rx_iff.mpr ⟨rx, fun _ _ _ _ _ _ => (documented.rings _ _).mpr rx_size⟩,
      app_init_rings_tx_iff.mpr ⟨tx, fun _ _ _ _ _ _ _ _ => (documented.rings _ _).mpr (by rw [options]; exact tx_size)⟩⟩

/-- All of `app_init`. -/
theorem app_init_iff (documented : m.Documented) (parsed : app_parse_args eal opts = .ok app) :
    (∃ init : Initialised π τ ρ μ, app_init m app = .ok init) ↔ Startable m opts app := by
  have left := accepted parsed
  have count := WorkerCount.workers_length (μ := μ) parsed
  simp only [app_init, bind_eq_ok]
  constructor
  · rintro ⟨init, t, pools, t', tables, s, rings, nics, ports, -⟩
    obtain ⟨ready, sizes⟩ := (app_init_rings_ok documented parsed).mp rings
    refine ⟨?_, ?_, (kept_iff left.inside).mp ⟨t, t', pools, tables⟩, sizes, ?_⟩
    · rw [← count]
      exact app_init_few ready
    · rw [← receivers_length (μ := μ)]
      exact app_init_few_io ready (staffed parsed)
    · exact (Ports.nics_start_iff documented.ports parsed ready m.lcore).mp ⟨nics, ports⟩
  · intro startable
    obtain ⟨t, t', pools, tables⟩ := (kept_iff left.inside).mpr startable.lcores
    obtain ⟨s, ready⟩ := Boot.app_init_goes (μ := μ) left.toSound (by rw [count]; exact startable.workers)
      (by rw [receivers_length]; exact startable.receivers)
    obtain ⟨nics, ports⟩ : ∃ nics, Ports.app_init_nics m.eth m.dpdk app s.lcore_params t'.pool m.lcore = .ok nics :=
      (Ports.nics_start_iff documented.ports parsed ready m.lcore).mpr startable.queues
    obtain ⟨links, checked⟩ := @Ports.links_checked m.link_status app
    exact ⟨_, t, pools, t', tables, s, (app_init_rings_ok documented parsed).mpr ⟨ready, startable.rings⟩, nics, ports,
      links, checked, rfl⟩

/-- What was found of the tables and pools, the rings and the ports. -/
theorem app_init_parts (documented : m.Documented) (parsed : app_parse_args eal opts = .ok app)
    {init : Initialised π τ ρ μ} (run : app_init m app = .ok init) :
    (∃ t, app_init_lpm_tables m.dpdk app.lcore_params app.lpm_rules t = .ok init.tables) ∧
      Wiring.app_init app.toParams app.lcore_params = .ok init.system ∧
      Ports.app_init_nics m.eth m.dpdk app init.system.lcore_params init.tables.pool m.lcore = .ok init.nics := by
  simp only [app_init, bind_eq_ok] at run
  obtain ⟨t, -, t', tables, s, rings, nics, ports, links, -, run⟩ := run
  cases run
  exact ⟨⟨t, tables⟩, ((app_init_rings_ok documented parsed).mp rings).1, ports⟩

/-- The port that a packet from `port` leaves by. -/
def Leaves (lpm_rules : List LpmRule) (dst port out : Nat) : Prop :=
  (∃ rule, Sockets.Chosen lpm_rules dst rule ∧ out = rule.if_out) ∨
    (∀ rule ∈ lpm_rules, ¬ Sockets.Matches rule dst) ∧ out = port

/-- The port is enabled. -/
theorem Leaves.enabled {dst port queue out : Nat} (leaves : Leaves app.lpm_rules dst port out)
    (parsed : app_parse_args eal opts = .ok app) (on : app.nic_rx_queue_mask port queue = true) :
    app.nic_tx_port_mask out = true := by
  have left := accepted parsed
  rcases leaves with ⟨rule, chosen, rfl⟩ | ⟨-, rfl⟩
  · exact left.rules rule (Sockets.chosen_listed chosen)
  · exact left.back out queue on

end Launch

/-! ### Two command lines -/

/-- Two sockets, rings of all sizes that are powers of two. -/
def calm : Machine Nat (List (LongestPrefix.Route Nat)) Unit where
  rte_eal_init := 0
  dpdk := Sockets.two_sockets
  rte_ring_create count _ := (List.range 31).any fun k => count == 2 ^ k
  eth := Ports.strict
  link_status _ _ := true
  inet_pton := Addresses.dotted
  lcore := 0

theorem calm_documented : calm.Documented where
  rings count socket := by
    simp only [calm, List.any_eq_true, List.mem_range, beq_iff_eq, RingSize]
    exact exists_congr fun k => and_congr_left fun _ => Nat.lt_succ_iff
  ports := Ports.strict_ready
  addresses := Addresses.dotted_documented

def odd_rings : List (Option (Opt × Text)) := one_port (ascii "2") ++ [some (.rsz, ascii "1024, 1000, 1000, 1024")]

end Shardb.Program
