import Mathlib.Data.Finset.Card
import Mathlib.Data.Finset.Range
import Shardb.Calls
import Shardb.Sockets

/-!
# `init.c`: the ports

A port that packets come from or go to is configured for its queues, every queue gets
the mbufs and the socket of the lcore that polls it, and the port is started
(`queues_set_up`). The library has as many queues as are enabled and wants them numbered
from 0; the command line may number them otherwise (`nics_start_iff`). When all ports are
started the program waits for their links, 9 s at most (`links_reported`).
-/

namespace Shardb.Ports
open Shardb.Loops Shardb.Lcores Shardb.Wiring Shardb.Config Shardb.CommandLine Shardb.Startup Shardb.Calls
open Shardb.Bytes (Text ascii)

/-! ### The library -/

/-- What `struct rte_eth_conf` asks for besides its constants. -/
structure PortConf where
  rx_offloads : Nat
  rss_hf : Nat
  tx_offloads : Nat
  deriving DecidableEq

/-- `struct rte_eth_rxconf` and `struct rte_eth_txconf`: the offloads, and the rest. -/
structure QueueConf (ρ : Type) where
  rest : ρ
  offloads : Nat

/-- What is read of `struct rte_eth_dev_info`. -/
structure DevInfo (ρ : Type) where
  tx_offload_capa : Nat
  flow_type_rss_offloads : Nat
  default_rxconf : QueueConf ρ
  default_txconf : QueueConf ρ

/-- What is asked of the library, in the order of its arguments. -/
inductive Call (π ρ : Type)
  | rte_eth_dev_configure (port n_rx_queues n_tx_queues : Nat) (conf : PortConf)
  | rte_eth_promiscuous_enable (port : Nat)
  | rte_eth_dev_adjust_nb_rx_tx_desc (port nic_rx_ring_size nic_tx_ring_size : Nat)
  | rte_eth_rx_queue_setup (port queue nic_rx_ring_size socket : Nat) (conf : QueueConf ρ) (pool : Option π)
  | rte_eth_tx_queue_setup (port queue nic_tx_ring_size socket : Nat) (conf : QueueConf ρ)
  | rte_eth_dev_start (port : Nat)

/-- Its constants and answers; the latter may depend on all that was asked before.
    `adjusted` tells the sizes that an adjustment leaves. -/
structure Ethdev (π ρ : Type) where
  DEV_RX_OFFLOAD_CHECKSUM : Nat
  DEV_RX_OFFLOAD_CRC_STRIP : Nat
  DEV_TX_OFFLOAD_MBUF_FAST_FREE : Nat
  ETH_RSS_IP : Nat
  rte_eth_dev_info_get : (port : Nat) → DevInfo ρ
  answer : List (Call π ρ) → Call π ρ → Int
  adjusted : List (Call π ρ) → (port nic_rx_ring_size nic_tx_ring_size : Nat) → Nat × Nat

/-- The sizes in `struct app_params`, the variable `lcore`, and all that was asked. -/
structure Nics (π ρ : Type) where
  nic_rx_ring_size : Nat
  nic_tx_ring_size : Nat
  lcore : Nat
  calls : List (Call π ρ)

section Functions
variable {π ρ τ μ : Type} (eth : Ethdev π ρ) (dpdk : Sockets.Platform π τ) (app : App) (lcores : Nat → Lcore μ)
  (pool : Nat → Option π)

/-- One of the queues the lcore receives from. -/
def polls (port queue : Nat) : Lcore μ → Bool
  | .io rx _ => (rx.nic_queues.take APP_MAX_NIC_RX_QUEUES_PER_IO_LCORE).contains (port, queue)
  | _ => false

def app_get_lcore_for_nic_rx (port queue : Nat) : Option Nat :=
  (List.range APP_MAX_LCORES).find? fun l => polls port queue (lcores l)

/-- `port_conf`. -/
def Ethdev.port_conf : PortConf :=
  ⟨eth.DEV_RX_OFFLOAD_CHECKSUM ||| eth.DEV_RX_OFFLOAD_CRC_STRIP, eth.ETH_RSS_IP, 0⟩

def Ethdev.local_port_conf (port : Nat) : PortConf :=
  let dev_info := eth.rte_eth_dev_info_get port
  { eth.port_conf with
    tx_offloads :=
      if dev_info.tx_offload_capa &&& eth.DEV_TX_OFFLOAD_MBUF_FAST_FREE ≠ 0 then eth.DEV_TX_OFFLOAD_MBUF_FAST_FREE else 0
    rss_hf := eth.ETH_RSS_IP &&& dev_info.flow_type_rss_offloads }

def Ethdev.rxq_conf (port : Nat) : QueueConf ρ :=
  { (eth.rte_eth_dev_info_get port).default_rxconf with offloads := (eth.local_port_conf port).rx_offloads }

def Ethdev.txq_conf (port : Nat) : QueueConf ρ :=
  { (eth.rte_eth_dev_info_get port).default_txconf with offloads := (eth.local_port_conf port).tx_offloads }

/-- The answer is negative; `rte_eth_promiscuous_enable` has none. -/
def Ethdev.refused (log : List (Call π ρ)) : Call π ρ → Bool
  | .rte_eth_promiscuous_enable _ => false
  | c => decide (eth.answer log c < 0)

/-- A call, and `rte_panic` when it is refused. -/
def call (c : Call π ρ) (s : Nics π ρ) : Result (Nics π ρ) := do
  let calls ← ask eth.refused .panic s.calls c
  return { s with calls := calls }

/-- The sizes go through 16 bits. -/
def adjust_sizes (port : Nat) (s : Nics π ρ) : Result (Nics π ρ) := do
  let nic_rx_ring_size := s.nic_rx_ring_size % 2 ^ 16
  let nic_tx_ring_size := s.nic_tx_ring_size % 2 ^ 16
  let sizes := eth.adjusted s.calls port nic_rx_ring_size nic_tx_ring_size
  let s ← call eth (.rte_eth_dev_adjust_nb_rx_tx_desc port nic_rx_ring_size nic_tx_ring_size) s
  return { s with nic_rx_ring_size := sizes.1 % 2 ^ 16, nic_tx_ring_size := sizes.2 % 2 ^ 16 }

/-- `lcore` stays what it was when no lcore has the queue. -/
def init_rx_queue (port queue : Nat) (s : Nics π ρ) : Result (Nics π ρ) :=
  if app.nic_rx_queue_mask port queue = false then .ok s
  else do
    let lcore := (app_get_lcore_for_nic_rx lcores port queue).getD s.lcore
    index lcore APP_MAX_LCORES
    call eth (.rte_eth_rx_queue_setup port queue (s.nic_rx_ring_size % 2 ^ 16) (dpdk.rte_lcore_to_socket_id lcore)
      (eth.rxq_conf port) (pool lcore)) { s with lcore := lcore }

def init_tx_queue (port : Nat) (s : Nics π ρ) : Result (Nics π ρ) :=
  if app.nic_tx_port_mask port = true then
    let lcore := (app_get_lcore_for_nic_tx lcores port).getD s.lcore
    call eth (.rte_eth_tx_queue_setup port 0 (s.nic_tx_ring_size % 2 ^ 16) (dpdk.rte_lcore_to_socket_id lcore)
      (eth.txq_conf port)) { s with lcore := lcore }
  else .ok s

/-- The first part of a pass over the ports. -/
def configure_port (port n_rx_queues n_tx_queues : Nat) (s : Nics π ρ) : Result (Nics π ρ) := do
  let s ← call eth (.rte_eth_dev_configure port (n_rx_queues % 2 ^ 8) (n_tx_queues % 2 ^ 8) (eth.local_port_conf port)) s
  let s ← call eth (.rte_eth_promiscuous_enable port) s
  adjust_sizes eth port s

def init_port (port : Nat) (s : Nics π ρ) : Result (Nics π ρ) :=
  let n_rx_queues := app_get_nic_rx_queues_per_port app port
  let n_tx_queues := if app.nic_tx_port_mask port = true then 1 else 0
  if n_rx_queues = 0 ∧ n_tx_queues = 0 then .ok s
  else do
    let s ← configure_port eth port n_rx_queues n_tx_queues s
    let s ← (List.range APP_MAX_RX_QUEUES_PER_NIC_PORT).foldlM
      (fun s queue => init_rx_queue eth dpdk app lcores pool port queue s) s
    let s ← init_tx_queue eth dpdk app lcores port s
    call eth (.rte_eth_dev_start port) s

/-- The loop over the ports; `lcore` is whatever it is at first. -/
def app_init_nics (lcore : Nat) : Result (Nics π ρ) :=
  (List.range APP_MAX_NIC_PORTS).foldlM (fun s port => init_port eth dpdk app lcores pool port s)
    ⟨app.nic_rx_ring_size, app.nic_tx_ring_size, lcore, []⟩

/-! ### One port -/

/-- A port, the sizes that are asked for it and those it is given. -/
structure Sized where
  port : Nat
  asked : Nat × Nat
  given : Nat × Nat

/-- The queues that are enabled. -/
def queues (port : Nat) : List Nat := (List.range APP_MAX_RX_QUEUES_PER_NIC_PORT).filter (app.nic_rx_queue_mask port)

/-- The lcores that are found for a queue and a port. -/
def poller (port queue : Nat) : Nat := (app_get_lcore_for_nic_rx lcores port queue).getD 0

def sender (port : Nat) : Nat := (app_get_lcore_for_nic_tx lcores port).getD 0

def rx_call (p : Sized) (queue : Nat) : Call π ρ :=
  .rte_eth_rx_queue_setup p.port queue (p.given.1 % 2 ^ 16) (dpdk.rte_lcore_to_socket_id (poller lcores p.port queue))
    (eth.rxq_conf p.port) (pool (poller lcores p.port queue))

def tx_call (p : Sized) : Call π ρ :=
  .rte_eth_tx_queue_setup p.port 0 (p.given.2 % 2 ^ 16) (dpdk.rte_lcore_to_socket_id (sender lcores p.port)) (eth.txq_conf p.port)

/-- What is asked before the sizes are known. -/
def opening (port : Nat) : List (Call π ρ) :=
  [.rte_eth_dev_configure port (queues app port).length 1 (eth.local_port_conf port), .rte_eth_promiscuous_enable port]

/-- What is asked before the queues. -/
def configuring (p : Sized) : List (Call π ρ) :=
  opening eth app p.port ++ [.rte_eth_dev_adjust_nb_rx_tx_desc p.port p.asked.1 p.asked.2]

/-- All that is asked for a port. -/
def port_calls (p : Sized) : List (Call π ρ) :=
  configuring eth app p ++ (queues app p.port).map (rx_call eth dpdk lcores pool p) ++
    [tx_call eth dpdk lcores p, .rte_eth_dev_start p.port]

/-- The sizes of a port that comes now. -/
def sized (port : Nat) (s : Nics π ρ) : Sized where
  port := port
  asked := (s.nic_rx_ring_size % 2 ^ 16, s.nic_tx_ring_size % 2 ^ 16)
  given :=
    let sizes := eth.adjusted (s.calls ++ opening eth app port) port (s.nic_rx_ring_size % 2 ^ 16) (s.nic_tx_ring_size % 2 ^ 16)
    (sizes.1 % 2 ^ 16, sizes.2 % 2 ^ 16)

variable {eth dpdk app lcores pool} {s s' : Nics π ρ}

theorem queues_length (port : Nat) : (queues app port).length ≤ APP_MAX_RX_QUEUES_PER_NIC_PORT := by
  refine (List.length_filter_le ..).trans ?_
  rw [List.length_range]

theorem call_ok {c : Call π ρ} :
    call eth c s = .ok s' ↔ eth.refused s.calls c = false ∧ s' = { s with calls := s.calls ++ [c] } := by
  simp only [call, bind_eq_ok, ask_ok]
  constructor
  · rintro ⟨calls, ⟨taken, rfl⟩, made⟩
    cases made
    exact ⟨taken, rfl⟩
  · rintro ⟨taken, rfl⟩
    exact ⟨_, ⟨taken, rfl⟩, rfl⟩

/-- One queue that is enabled. -/
theorem init_rx_queue_ok {p : Sized} {queue l : Nat} (sizes : s.nic_rx_ring_size = p.given.1)
    (enabled : app.nic_rx_queue_mask p.port queue = true) (found : app_get_lcore_for_nic_rx lcores p.port queue = some l)
    (inside : l < APP_MAX_LCORES) :
    init_rx_queue eth dpdk app lcores pool p.port queue s = .ok s' ↔
      eth.refused s.calls (rx_call eth dpdk lcores pool p queue) = false ∧
      s' = { s with lcore := l, calls := s.calls ++ [rx_call eth dpdk lcores pool p queue] } := by
  have made : rx_call eth dpdk lcores pool p queue = .rte_eth_rx_queue_setup p.port queue (s.nic_rx_ring_size % 2 ^ 16)
      (dpdk.rte_lcore_to_socket_id l) (eth.rxq_conf p.port) (pool l) := by
    rw [rx_call, poller, found, sizes]
    rfl
  rw [made]
  rw [init_rx_queue, if_neg (by simp [enabled]), found, bind_eq_ok]
  simp only [Option.getD_some, call_ok]
  exact ⟨fun ⟨u, _, run⟩ => run, fun run => ⟨⟨⟩, index_eq_ok.mpr inside, run⟩⟩

/-- The loop over the queues. -/
theorem rx_queues_ok {p : Sized} (sizes : s.nic_rx_ring_size = p.given.1)
    (found : ∀ queue, app.nic_rx_queue_mask p.port queue = true →
      ∃ l, app_get_lcore_for_nic_rx lcores p.port queue = some l ∧ l < APP_MAX_LCORES) {qs : List Nat} :
    qs.foldlM (fun s queue => init_rx_queue eth dpdk app lcores pool p.port queue s) s = .ok s' ↔
      Taken eth.refused s.calls ((qs.filter (app.nic_rx_queue_mask p.port)).map (rx_call eth dpdk lcores pool p)) ∧
      s' = { s with
        lcore := ((qs.filter (app.nic_rx_queue_mask p.port)).map (poller lcores p.port)).getLastD s.lcore
        calls := s.calls ++ (qs.filter (app.nic_rx_queue_mask p.port)).map (rx_call eth dpdk lcores pool p) } := by
  induction qs generalizing s with
  | nil =>
    rw [List.foldlM_nil]
    simp only [List.filter_nil, List.map_nil, taken_nil, true_and, List.getLastD_nil, List.append_nil]
    exact ⟨fun run => by cases run; rfl, fun same => by rw [same]; rfl⟩
  | cons queue qs ih =>
    rw [List.foldlM_cons, bind_eq_ok]
    cases enabled : app.nic_rx_queue_mask p.port queue with
    | false =>
      rw [List.filter_cons_of_neg (by simp [enabled]), ← ih sizes]
      simp only [init_rx_queue, enabled, if_true]
      constructor
      · rintro ⟨next, once, rest⟩
        cases once
        exact rest
      · exact fun rest => ⟨s, rfl, rest⟩
    | true =>
      obtain ⟨l, is, inside⟩ := found queue enabled
      have polled : poller lcores p.port queue = l := by rw [poller, is]; rfl
      rw [List.filter_cons_of_pos enabled, List.map_cons, List.map_cons, List.getLastD_cons, polled]
      constructor
      · rintro ⟨next, once, rest⟩
        obtain ⟨taken, rfl⟩ := (init_rx_queue_ok sizes enabled is inside).mp once
        obtain ⟨takens, rfl⟩ := (ih (by exact sizes)).mp rest
        exact ⟨⟨taken, takens⟩, by simp⟩
      · rintro ⟨⟨taken, takens⟩, rfl⟩
        refine ⟨_, (init_rx_queue_ok sizes enabled is inside).mpr ⟨taken, rfl⟩, (ih (by exact sizes)).mpr ⟨takens, ?_⟩⟩
        simp

theorem init_tx_queue_ok {p : Sized} {l : Nat} (sizes : s.nic_tx_ring_size = p.given.2)
    (enabled : app.nic_tx_port_mask p.port = true) (found : app_get_lcore_for_nic_tx lcores p.port = some l) :
    init_tx_queue eth dpdk app lcores p.port s = .ok s' ↔ eth.refused s.calls (tx_call eth dpdk lcores p) = false ∧
      s' = { s with lcore := l, calls := s.calls ++ [tx_call eth dpdk lcores p] } := by
  have made : tx_call eth dpdk lcores p = .rte_eth_tx_queue_setup p.port 0 (s.nic_tx_ring_size % 2 ^ 16)
      (dpdk.rte_lcore_to_socket_id l) (eth.txq_conf p.port) := by
    rw [tx_call, sender, found, sizes]
    rfl
  rw [made, init_tx_queue, if_pos enabled, found]
  exact call_ok

theorem adjust_sizes_ok {port : Nat} :
    adjust_sizes eth port s = .ok s' ↔
      eth.refused s.calls (.rte_eth_dev_adjust_nb_rx_tx_desc port (s.nic_rx_ring_size % 2 ^ 16) (s.nic_tx_ring_size % 2 ^ 16))
        = false ∧
      s' = { s with
        nic_rx_ring_size := (eth.adjusted s.calls port (s.nic_rx_ring_size % 2 ^ 16) (s.nic_tx_ring_size % 2 ^ 16)).1 % 2 ^ 16
        nic_tx_ring_size := (eth.adjusted s.calls port (s.nic_rx_ring_size % 2 ^ 16) (s.nic_tx_ring_size % 2 ^ 16)).2 % 2 ^ 16
        calls := s.calls ++
          [.rte_eth_dev_adjust_nb_rx_tx_desc port (s.nic_rx_ring_size % 2 ^ 16) (s.nic_tx_ring_size % 2 ^ 16)] } := by
  simp only [adjust_sizes, bind_eq_ok, call_ok]
  constructor
  · rintro ⟨next, ⟨taken, rfl⟩, made⟩
    cases made
    exact ⟨taken, rfl⟩
  · rintro ⟨taken, rfl⟩
    exact ⟨_, ⟨taken, rfl⟩, rfl⟩

/-- The lcores that an accepted command line lets be found. -/
structure Found (app : App) (lcores : Nat → Lcore μ) : Prop where
  rx : ∀ port queue, app.nic_rx_queue_mask port queue = true →
    ∃ l, app_get_lcore_for_nic_rx lcores port queue = some l ∧ l < APP_MAX_LCORES
  tx : ∀ port, app.nic_tx_port_mask port = true → ∃ l, app_get_lcore_for_nic_tx lcores port = some l

theorem configure_port_ok {port : Nat} :
    configure_port eth port (queues app port).length 1 s = .ok s' ↔
      Taken eth.refused s.calls (configuring eth app (sized eth app port s)) ∧
      s' = ⟨(sized eth app port s).given.1, (sized eth app port s).given.2, s.lcore,
        s.calls ++ configuring eth app (sized eth app port s)⟩ := by
  have few : (queues app port).length % 2 ^ 8 = (queues app port).length :=
    Nat.mod_eq_of_lt ((queues_length port).trans_lt (by decide))
  have opened : s.calls ++ opening eth app port = s.calls ++ [.rte_eth_dev_configure port (queues app port).length 1
      (eth.local_port_conf port)] ++ [.rte_eth_promiscuous_enable port] := by simp [opening]
  simp only [configure_port, bind_eq_ok, call_ok, adjust_sizes_ok, few, show 1 % 2 ^ 8 = 1 from rfl]
  simp only [configuring, sized, taken_append, ← List.append_assoc, opened]
  constructor
  · rintro ⟨_, ⟨configured, rfl⟩, _, ⟨promiscuous, rfl⟩, adjusted, rfl⟩
    exact ⟨⟨⟨configured, promiscuous, trivial⟩, adjusted, trivial⟩, rfl⟩
  · rintro ⟨⟨⟨configured, promiscuous, -⟩, adjusted, -⟩, rfl⟩
    exact ⟨_, ⟨configured, rfl⟩, _, ⟨promiscuous, rfl⟩, adjusted, rfl⟩

/-- A port that packets go to. -/
theorem init_port_ok (found : Found app lcores) {port : Nat} (enabled : app.nic_tx_port_mask port = true) :
    init_port eth dpdk app lcores pool port s = .ok s' ↔
      Taken eth.refused s.calls (port_calls eth dpdk app lcores pool (sized eth app port s)) ∧
      s' = ⟨(sized eth app port s).given.1, (sized eth app port s).given.2, sender lcores port,
        s.calls ++ port_calls eth dpdk app lcores pool (sized eth app port s)⟩ := by
  obtain ⟨l, is⟩ := found.tx port enabled
  have sent : sender lcores port = l := by rw [sender, is]; rfl
  have counted : app_get_nic_rx_queues_per_port app port = (queues app port).length := rfl
  rw [init_port]
  simp only [enabled, if_true, counted]
  rw [if_neg (by simp), sent]
  simp only [bind_eq_ok, call_ok, configure_port_ok, port_calls, taken_append, ← List.append_assoc]
  set p := sized eth app port s
  have last : ∀ log : List (Call π ρ), log ++ [tx_call eth dpdk lcores p, .rte_eth_dev_start p.port] =
      log ++ [tx_call eth dpdk lcores p] ++ [.rte_eth_dev_start p.port] := fun log => List.append_cons ..
  constructor
  · rintro ⟨_, ⟨configured, rfl⟩, _, received, _, sends, started, rfl⟩
    obtain ⟨receives, rfl⟩ := (rx_queues_ok (p := p) rfl (found.rx port)).mp received
    obtain ⟨sending, rfl⟩ := (init_tx_queue_ok (p := p) rfl enabled is).mp sends
    refine ⟨⟨⟨configured, receives⟩, sending, started, trivial⟩, ?_⟩
    rw [last]
    rfl
  · rintro ⟨⟨⟨configured, receives⟩, sending, started, -⟩, rfl⟩
    refine ⟨_, ⟨configured, rfl⟩, _, (rx_queues_ok (p := p) rfl (found.rx port)).mpr ⟨receives, rfl⟩, _,
      (init_tx_queue_ok (p := p) rfl enabled is).mpr ⟨sending, rfl⟩, started, ?_⟩
    rw [last]
    rfl

/-- Another port is passed over. -/
theorem init_port_unused {port : Nat} (off : app.nic_tx_port_mask port = false) (empty : queues app port = []) :
    init_port eth dpdk app lcores pool port s = .ok s := by
  have counted : app_get_nic_rx_queues_per_port app port = 0 := congrArg List.length empty
  rw [init_port, counted, off]
  rfl

/-! ### All ports -/

/-- No queue is enabled of a port that nothing is sent to. -/
theorem queues_off {port : Nat} (back : ∀ port queue, app.nic_rx_queue_mask port queue = true → app.nic_tx_port_mask port = true)
    (off : app.nic_tx_port_mask port = false) : queues app port = [] := by
  refine List.filter_eq_nil_iff.mpr fun queue _ enabled => ?_
  rw [back port queue enabled] at off
  cases off

theorem ports_ok (found : Found app lcores)
    (back : ∀ port queue, app.nic_rx_queue_mask port queue = true → app.nic_tx_port_mask port = true) {ports : List Nat}
    (run : ports.foldlM (fun s port => init_port eth dpdk app lcores pool port s) s = .ok s') :
    ∃ ps : List Sized, ps.map Sized.port = ports.filter app.nic_tx_port_mask ∧
      s'.calls = s.calls ++ ps.flatMap (port_calls eth dpdk app lcores pool) := by
  induction ports generalizing s with
  | nil =>
    cases run
    exact ⟨[], rfl, by simp⟩
  | cons port ports ih =>
    rw [List.foldlM_cons, bind_eq_ok] at run
    obtain ⟨next, once, rest⟩ := run
    obtain ⟨ps, same, calls⟩ := ih rest
    cases enabled : app.nic_tx_port_mask port with
    | false =>
      rw [init_port_unused enabled (queues_off back enabled)] at once
      cases once
      exact ⟨ps, by rw [List.filter_cons_of_neg (by simp [enabled])]; exact same, calls⟩
    | true =>
      obtain ⟨-, rfl⟩ := (init_port_ok found enabled).mp once
      refine ⟨sized eth app port s :: ps, ?_, ?_⟩
      · rw [List.filter_cons_of_pos enabled, List.map_cons, same]
        rfl
      · rw [calls, List.flatMap_cons, List.append_assoc]

/-- The port that a call is for. -/
def Call.port : Call π ρ → Nat
  | .rte_eth_dev_configure port _ _ _ => port
  | .rte_eth_promiscuous_enable port => port
  | .rte_eth_dev_adjust_nb_rx_tx_desc port _ _ => port
  | .rte_eth_rx_queue_setup port _ _ _ _ _ => port
  | .rte_eth_tx_queue_setup port _ _ _ _ => port
  | .rte_eth_dev_start port => port

theorem port_of_calls {p : Sized} {c : Call π ρ} (member : c ∈ port_calls eth dpdk app lcores pool p) : c.port = p.port := by
  simp only [port_calls, configuring, opening, List.mem_append, List.mem_cons, List.mem_map, List.not_mem_nil, or_false] at member
  rcases member with (((rfl | rfl) | rfl) | ⟨queue, -, rfl⟩) | (rfl | rfl) <;> rfl

/-- Of all calls those for one port. -/
theorem calls_of_port {ps : List Sized} (nodup : (ps.map Sized.port).Nodup) {p : Sized} (member : p ∈ ps) :
    (ps.flatMap (port_calls eth dpdk app lcores pool)).filter (fun c => c.port = p.port) =
      port_calls eth dpdk app lcores pool p := by
  obtain ⟨before, after, rfl⟩ := List.append_of_mem member
  rw [List.map_append, List.map_cons, List.nodup_append, List.nodup_cons] at nodup
  obtain ⟨-, ⟨fresh, -⟩, apart⟩ := nodup
  have others : ∀ qs : List Sized, p.port ∉ qs.map Sized.port →
      (qs.flatMap (port_calls eth dpdk app lcores pool)).filter (fun c => c.port = p.port) = [] := fun qs absent => by
    refine List.filter_eq_nil_iff.mpr fun c called => ?_
    obtain ⟨q, listed, called⟩ := List.mem_flatMap.mp called
    rw [decide_eq_true_eq, port_of_calls called]
    exact fun same => absent (same ▸ List.mem_map_of_mem listed)
  have own : (port_calls eth dpdk app lcores pool p).filter (fun c => c.port = p.port) = port_calls eth dpdk app lcores pool p :=
    List.filter_eq_self.mpr fun c called => decide_eq_true (port_of_calls called)
  rw [List.flatMap_append, List.flatMap_cons, List.filter_append, List.filter_append, own,
    others before fun there => apart _ there _ List.mem_cons_self rfl, others after fresh, List.nil_append, List.append_nil]

/-! ### After the command line -/

/-- What is assigned to one lcore is found there. -/
theorem find_assigned {α : Type} {mask : α → Prop} {items : Nat → List α} (assigned : Assigned mask items) {has : Nat → Bool}
    {a : α} (lists : ∀ l < APP_MAX_LCORES, has l = true ↔ a ∈ items l) {l : Nat} (inside : l < APP_MAX_LCORES)
    (member : a ∈ items l) : (List.range APP_MAX_LCORES).find? has = some l := by
  obtain ⟨l', is⟩ : ∃ l', (List.range APP_MAX_LCORES).find? has = some l' :=
    Option.isSome_iff_exists.mp (List.find?_isSome.mpr ⟨l, List.mem_range.mpr inside, (lists l inside).mpr member⟩)
  have there := (lists l' (List.mem_range.mp (List.mem_of_find?_eq_some is))).mp (List.find?_some is)
  rw [is, assigned.unique a l' l there member]

section Start
variable [Inhabited μ] {eal : Eal} {opts : List (Option (Opt × Text))} {start : System μ}
  (parsed : app_parse_args eal opts = .ok app)
  (ready : app_init app.toParams app.lcore_params = .ok start)
include parsed ready

theorem poller_found {l port queue : Nat} (member : (port, queue) ∈ queuesOf (app.lcore_params l)) :
    app_get_lcore_for_nic_rx start.lcore_params port queue = some l ∧ l < APP_MAX_LCORES := by
  have left := accepted parsed
  have inside : l < APP_MAX_LCORES := left.inside l fun off => by
    rw [off] at member
    cases member
  refine ⟨find_assigned left.rx (fun l below => ?_) inside member, inside⟩
  have is := app_init_role ready l
  rw [if_pos below] at is
  rw [← List.take_of_length_le (queues_few parsed l), ← is]
  cases start.lcore_params l <;> simp [polls, role, queuesOf]

theorem sender_found {l port : Nat} (member : port ∈ portsOf (app.lcore_params l)) :
    app_get_lcore_for_nic_tx start.lcore_params port = some l := by
  have left := accepted parsed
  have inside : l < APP_MAX_LCORES := left.inside l fun off => by
    rw [off] at member
    cases member
  refine find_assigned left.tx (fun l below => ?_) inside member
  have is := app_init_role ready l
  rw [if_pos below] at is
  rw [← List.take_of_length_le (left.tx_few l), ← is]
  cases start.lcore_params l <;> simp [Lcore.sends, role, portsOf]

theorem all_found : Found app start.lcore_params := by
  have left := accepted parsed
  constructor
  · intro port queue enabled
    obtain ⟨l, member⟩ := (left.rx.listed (port, queue)).mp enabled
    exact ⟨l, poller_found parsed ready member⟩
  · intro port enabled
    obtain ⟨l, member⟩ := (left.tx.listed port).mp enabled
    exact ⟨l, sender_found parsed ready member⟩

/-- All that is asked for a port that packets go to. -/
theorem port_asked {lcore : Nat} {last : Nics π ρ} (run : app_init_nics eth dpdk app start.lcore_params pool lcore = .ok last)
    {port : Nat} (enabled : app.nic_tx_port_mask port = true) :
    ∃ p : Sized, p.port = port ∧
      last.calls.filter (fun c => c.port = port) = port_calls eth dpdk app start.lcore_params pool p := by
  have left := accepted parsed
  obtain ⟨ps, same, calls⟩ := ports_ok (all_found parsed ready) left.back run
  have member : port ∈ ps.map Sized.port := by
    rw [same]
    exact List.mem_filter.mpr ⟨List.mem_range.mpr (left.tx_small port enabled), enabled⟩
  obtain ⟨p, listed, rfl⟩ := List.mem_map.mp member
  refine ⟨p, rfl, ?_⟩
  rw [calls, List.nil_append]
  exact calls_of_port (by rw [same]; exact List.nodup_range.filter _) listed

/-- The call sets up the queue. -/
def Call.setsUp (port queue : Nat) : Call π ρ → Bool
  | .rte_eth_rx_queue_setup p q _ _ _ _ => p == port && q == queue
  | _ => false

/-- A queue that an lcore polls is set up once, with mbufs from the pool of that lcore and
    on its socket, after the port was configured for the queues that are enabled and
    before it is started. -/
theorem queues_set_up {t t' : Sockets.Tables π τ} (pools : Sockets.app_init_mbuf_pools dpdk app.lcore_params t = .ok t')
    {lcore : Nat} {last : Nics π ρ} (run : app_init_nics eth dpdk app start.lcore_params t'.pool lcore = .ok last)
    {l port queue : Nat} (polls : (port, queue) ∈ queuesOf (app.lcore_params l)) :
    ∃ pool size before after,
      dpdk.rte_pktmbuf_pool_create Sockets.APP_DEFAULT_MEMPOOL_BUFFERS Sockets.APP_DEFAULT_MEMPOOL_CACHE_SIZE
        dpdk.RTE_MBUF_DEFAULT_BUF_SIZE (dpdk.rte_lcore_to_socket_id l) = some pool ∧
      last.calls.filter (fun c => c.port = port) =
        .rte_eth_dev_configure port (queues app port).length 1 (eth.local_port_conf port) :: before ++
          .rte_eth_rx_queue_setup port queue size (dpdk.rte_lcore_to_socket_id l) (eth.rxq_conf port) (some pool) ::
          after ++ [.rte_eth_dev_start port] ∧
      ∀ c ∈ before ++ after, c.setsUp port queue = false ∧ ∀ port, c ≠ .rte_eth_dev_start port := by
  have left := accepted parsed
  have enabled := (left.rx.listed (port, queue)).mpr ⟨l, polls⟩
  obtain ⟨found, inside⟩ := poller_found parsed ready polls
  obtain ⟨made, created, given⟩ := Sockets.pools_served pools inside (by
    cases is : app.lcore_params l with
    | io nic_queues nic_ports => rfl
    | disabled => rw [is] at polls; cases polls
    | worker => rw [is] at polls; cases polls)
  obtain ⟨p, rfl, asked⟩ := port_asked parsed ready run (left.back port queue enabled)
  have own : rx_call eth dpdk start.lcore_params t'.pool p queue = .rte_eth_rx_queue_setup p.port queue (p.given.1 % 2 ^ 16)
      (dpdk.rte_lcore_to_socket_id l) (eth.rxq_conf p.port) (some made) := by
    rw [rx_call, poller, found, Option.getD_some, given]
  have listed : queue ∈ queues app p.port := List.mem_filter.mpr ⟨List.mem_range.mpr (left.rx_small _ _ enabled).2, enabled⟩
  have nodup : (queues app p.port).Nodup := List.nodup_range.filter _
  obtain ⟨first, rest, split⟩ := List.append_of_mem listed
  rw [split] at nodup
  obtain ⟨-, ⟨later, -⟩, apart⟩ := List.nodup_append.mp nodup |>.imp_right (And.imp_left List.nodup_cons.mp)
  have other : ∀ q, q ≠ queue → (rx_call eth dpdk start.lcore_params t'.pool p q).setsUp p.port queue = false ∧
      ∀ port, rx_call eth dpdk start.lcore_params t'.pool p q ≠ .rte_eth_dev_start port := fun q differs =>
    ⟨by simp [rx_call, Call.setsUp, differs], fun _ bad => by cases bad⟩
  refine ⟨made, p.given.1 % 2 ^ 16,
    [.rte_eth_promiscuous_enable p.port, .rte_eth_dev_adjust_nb_rx_tx_desc p.port p.asked.1 p.asked.2] ++
      first.map (rx_call eth dpdk start.lcore_params t'.pool p),
    rest.map (rx_call eth dpdk start.lcore_params t'.pool p) ++ [tx_call eth dpdk start.lcore_params p], created, ?_, ?_⟩
  · rw [asked, ← own]
    simp [port_calls, configuring, opening, split]
  · intro c member
    simp only [List.mem_append, List.mem_cons, List.mem_map, List.not_mem_nil, or_false] at member
    rcases member with ((rfl | rfl) | ⟨q, there, rfl⟩) | ⟨q, there, rfl⟩ | rfl
    · exact ⟨rfl, fun _ bad => by cases bad⟩
    · exact ⟨rfl, fun _ bad => by cases bad⟩
    · exact other q (apart q there queue List.mem_cons_self)
    · exact other q fun same => later (same ▸ there)
    · exact ⟨rfl, fun _ bad => by cases bad⟩

/-! ### When they start -/

end Start

/-- What a call configures a port for: its RX and its TX queues. -/
def configure (port : Nat) (counts : Nat × Nat) : Call π ρ → Nat × Nat
  | .rte_eth_dev_configure p n_rx_queues n_tx_queues _ => if p = port then (n_rx_queues, n_tx_queues) else counts
  | _ => counts

def configured (log : List (Call π ρ)) (port : Nat) : Nat × Nat := log.foldl (configure port) (0, 0)

/-- The queue of the call is none that its port was configured for. -/
def Missing (log : List (Call π ρ)) : Call π ρ → Prop
  | .rte_eth_rx_queue_setup port queue _ _ _ _ => (configured log port).1 ≤ queue
  | .rte_eth_tx_queue_setup port queue _ _ _ => (configured log port).2 ≤ queue
  | _ => False

/-- The library refuses the setup of such a queue, and nothing else. -/
def Ready (eth : Ethdev π ρ) : Prop := ∀ log c, eth.answer log c < 0 ↔ Missing log c

section Ready
variable (library : Ready eth)
include library

theorem refused_iff {log : List (Call π ρ)} {c : Call π ρ} : eth.refused log c = false ↔ ¬ Missing log c := by
  cases c with
  | rte_eth_promiscuous_enable port => simp [Ethdev.refused, Missing]
  | _ => exact decide_eq_false_iff_not.trans (not_congr (library log _))

/-- Queues are taken that the port was configured for. -/
theorem queues_taken {p : Sized} {n m : Nat} {qs : List Nat} {log : List (Call π ρ)} (counts : configured log p.port = (n, m)) :
    (Taken eth.refused log (qs.map (rx_call eth dpdk lcores pool p)) ↔ ∀ queue ∈ qs, queue < n) ∧
      configured (log ++ qs.map (rx_call eth dpdk lcores pool p)) p.port = (n, m) := by
  induction qs generalizing log with
  | nil => exact ⟨by simp, by rw [List.map_nil, List.append_nil]; exact counts⟩
  | cons queue qs ih =>
    have kept : configured (log ++ [rx_call eth dpdk lcores pool p queue]) p.port = (n, m) := by
      rw [configured, List.foldl_append]
      exact counts
    have here : eth.refused log (rx_call eth dpdk lcores pool p queue) = false ↔ queue < n := by
      rw [refused_iff library, rx_call, Missing, counts, Nat.not_le]
    obtain ⟨taken, counted⟩ := ih kept
    constructor
    · rw [List.map_cons, Taken, here, taken, List.forall_mem_cons]
    · rw [List.map_cons, List.append_cons]
      exact counted

theorem port_taken {p : Sized} {log : List (Call π ρ)} :
    Taken eth.refused log (port_calls eth dpdk app lcores pool p) ↔
      ∀ queue ∈ queues app p.port, queue < (queues app p.port).length := by
  have counts : configured (log ++ configuring eth app p) p.port = ((queues app p.port).length, 1) := by
    simp [configured, configuring, opening, configure]
  obtain ⟨taken, counted⟩ := queues_taken library counts
  have opens : Taken eth.refused log (configuring eth app p) :=
    ⟨(refused_iff library).mpr id, (refused_iff library).mpr id, (refused_iff library).mpr id, trivial⟩
  have ends : Taken eth.refused (log ++ configuring eth app p ++ (queues app p.port).map (rx_call eth dpdk lcores pool p))
      [tx_call eth dpdk lcores p, .rte_eth_dev_start p.port] := by
    refine ⟨(refused_iff library).mpr ?_, (refused_iff library).mpr id, trivial⟩
    rw [tx_call, Missing, counted]
    exact Nat.not_succ_le_zero 0
  rw [port_calls, taken_append, taken_append, taken, ← List.append_assoc]
  exact ⟨fun both => both.1.2, fun few => ⟨⟨opens, few⟩, ends⟩⟩

omit library in
/-- Queues whose numbers are below their number are numbered without a gap. -/
theorem gapless_iff (small : ∀ port queue, app.nic_rx_queue_mask port queue = true → queue < APP_MAX_RX_QUEUES_PER_NIC_PORT)
    {port : Nat} : (∀ queue ∈ queues app port, queue < (queues app port).length) ↔
      ∃ n, ∀ queue, app.nic_rx_queue_mask port queue = true ↔ queue < n := by
  have listed : ∀ {queue}, queue ∈ queues app port ↔ app.nic_rx_queue_mask port queue = true := fun {queue} =>
    ⟨fun there => (List.mem_filter.mp there).2, fun on => List.mem_filter.mpr ⟨List.mem_range.mpr (small port queue on), on⟩⟩
  have nodup : (queues app port).Nodup := List.nodup_range.filter _
  constructor
  · intro few
    have all : (queues app port).toFinset = Finset.range (queues app port).length := by
      refine Finset.eq_of_subset_of_card_le (fun queue there => ?_) ?_
      · exact Finset.mem_range.mpr (few queue (List.mem_toFinset.mp there))
      · rw [Finset.card_range, List.toFinset_card_of_nodup nodup]
    refine ⟨(queues app port).length, fun queue => ?_⟩
    rw [← listed, ← List.mem_toFinset, all, Finset.mem_range]
  · rintro ⟨n, below⟩ queue there
    have all : (queues app port).toFinset = Finset.range n := by
      ext q
      rw [List.mem_toFinset, listed, below, Finset.mem_range]
    rw [← List.toFinset_card_of_nodup nodup, all, Finset.card_range]
    exact (below queue).mp (listed.mp there)

/-- With a library that refuses only queues a port was not configured for, the ports of an
    accepted command line start exactly when the queues of each are numbered from 0
    without a gap. -/
theorem nics_start_iff [Inhabited μ] {eal : Eal} {opts : List (Option (Opt × Text))} {start : System μ}
    (parsed : app_parse_args eal opts = .ok app) (ready : app_init app.toParams app.lcore_params = .ok start) (lcore : Nat) :
    (∃ last, app_init_nics eth dpdk app start.lcore_params pool lcore = .ok last) ↔
      ∀ port, ∃ n, ∀ queue, app.nic_rx_queue_mask port queue = true ↔ queue < n := by
  have left := accepted parsed
  have small : ∀ port queue, app.nic_rx_queue_mask port queue = true → queue < APP_MAX_RX_QUEUES_PER_NIC_PORT :=
    fun port queue on => (left.rx_small port queue on).2
  have part : ∀ port ∈ List.range APP_MAX_NIC_PORTS, ∀ s : Nics π ρ,
      (∃ s', init_port eth dpdk app start.lcore_params pool port s = .ok s') ↔
        ∀ queue ∈ queues app port, queue < (queues app port).length := by
    intro port _ s
    cases enabled : app.nic_tx_port_mask port with
    | false =>
      have none := queues_off left.back enabled
      rw [none]
      exact iff_of_true ⟨s, init_port_unused enabled none⟩ (fun _ there => absurd there List.not_mem_nil)
    | true =>
      have found := all_found parsed ready
      have taken : Taken eth.refused s.calls (port_calls eth dpdk app start.lcore_params pool (sized eth app port s)) ↔
          ∀ queue ∈ queues app port, queue < (queues app port).length := port_taken library
      rw [← taken]
      exact ⟨fun ⟨s', run⟩ => ((init_port_ok found enabled).mp run).1, fun taken => ⟨_, (init_port_ok found enabled).mpr ⟨taken, rfl⟩⟩⟩
  rw [app_init_nics, parts_ok part]
  constructor
  · intro few port
    by_cases inside : port < APP_MAX_NIC_PORTS
    · exact (gapless_iff small).mp (few port (List.mem_range.mpr inside))
    · exact ⟨0, fun queue => iff_of_false (fun on => inside (left.rx_small port queue on).1) (Nat.not_lt_zero queue)⟩
  · intro gapless port _
    exact (gapless_iff small).mpr (gapless port)

end Ready

end Functions

/-! ### Waiting for the links -/

def MAX_CHECK_TIME : Nat := 90

/-- What the check of the links does: it looks at a port, waits for 100 ms, says that it is
    done, tells the state of a port. -/
inductive Event
  | rte_eth_link_get_nowait (port : Nat)
  | rte_delay_ms
  | done
  | print (port : Nat) (link_status : Bool)
  deriving DecidableEq

section Links
variable (link_status : List Event → Nat → Bool) (app : App)

def app_uses_port (port : Nat) : Bool := app_get_nic_rx_queues_per_port app port != 0 || app.nic_tx_port_mask port

/-- A round over the ports, and whether it came to its end with all links up; one that
    prints looks at all of them. -/
def look_at_ports (print_flag : Bool) : List Nat → List Event → Bool × List Event
  | [], log => (true, log)
  | port :: ports, log =>
    if app_uses_port app port = false then look_at_ports print_flag ports log
    else
      let up := link_status log port
      let log := log ++ [.rte_eth_link_get_nowait port]
      if print_flag = true then look_at_ports print_flag ports (log ++ [.print port up])
      else if up = true then look_at_ports print_flag ports log
      else (false, log)

/-- The rounds are counted from 0 to `MAX_CHECK_TIME`. -/
def check_round (count : Nat) (s : Bool × List Event) : Result ((Bool × List Event) ⊕ List Event) :=
  let (all_ports_up, log) := look_at_ports link_status app s.1 (List.range APP_MAX_NIC_PORTS) s.2
  if s.1 = true then .ok (.inr log)
  else
    let log := if all_ports_up = false then log ++ [.rte_delay_ms] else log
    if all_ports_up = true ∨ count = MAX_CHECK_TIME - 1 then .ok (.inl (true, log ++ [.done])) else .ok (.inl (false, log))

def check_all_ports_link_status : Result ((Bool × List Event) ⊕ List Event) :=
  forLoop (check_round link_status app) (MAX_CHECK_TIME + 1) 0 (false, [])

/-- The ports that are looked at. -/
def used_ports : List Nat := (List.range APP_MAX_NIC_PORTS).filter (app_uses_port app)

/-- Each port is looked at, and what was seen is printed. -/
def reported : (log : List Event) → List Nat → List Event
  | _, [] => []
  | log, port :: ports =>
    let told := [.rte_eth_link_get_nowait port, .print port (link_status log port)]
    told ++ reported (log ++ told) ports

/-- Looked at one after another, the links are up. -/
def AllUp : (log : List Event) → List Nat → Prop
  | _, [] => True
  | log, port :: ports => link_status log port = true ∧ AllUp (log ++ [.rte_eth_link_get_nowait port]) ports

variable {link_status app}

theorem look_print (ports : List Nat) (log : List Event) :
    look_at_ports link_status app true ports log = (true, log ++ reported link_status log (ports.filter (app_uses_port app))) := by
  induction ports generalizing log with
  | nil => simp [look_at_ports, reported]
  | cons port ports ih =>
    cases uses : app_uses_port app port with
    | false =>
      rw [look_at_ports, if_pos uses, ih, List.filter_cons_of_neg (by simp [uses])]
    | true =>
      rw [look_at_ports, if_neg (by simp [uses]), List.filter_cons_of_pos uses]
      simp only [if_true, ih, reported, List.append_assoc, List.cons_append, List.nil_append]

/-- A round that only looks stops at the first link that is down. -/
theorem look_wait (ports : List Nat) (log : List Event) :
    (AllUp link_status log (ports.filter (app_uses_port app)) ∧ look_at_ports link_status app false ports log =
      (true, log ++ (ports.filter (app_uses_port app)).map .rte_eth_link_get_nowait)) ∨
    ∃ (seen : List Nat) (port : Nat) (rest : List Nat), ports.filter (app_uses_port app) = seen ++ port :: rest ∧
      AllUp link_status log seen ∧ link_status (log ++ seen.map .rte_eth_link_get_nowait) port = false ∧
      look_at_ports link_status app false ports log = (false, log ++ (seen ++ [port]).map .rte_eth_link_get_nowait) := by
  induction ports generalizing log with
  | nil => exact .inl ⟨trivial, by simp [look_at_ports]⟩
  | cons port ports ih =>
    cases uses : app_uses_port app port with
    | false =>
      rw [look_at_ports, if_pos uses, List.filter_cons_of_neg (by simp [uses])]
      exact ih log
    | true =>
      rw [look_at_ports, if_neg (by simp [uses]), List.filter_cons_of_pos uses]
      simp only [Bool.false_eq_true, if_false]
      cases up : link_status log port with
      | false => exact .inr ⟨[], port, _, rfl, trivial, by simpa using up, rfl⟩
      | true =>
        rw [if_pos rfl]
        rcases ih (log ++ [.rte_eth_link_get_nowait port]) with ⟨all, round⟩ | ⟨seen, last, rest, order, all, down, round⟩
        · exact .inl ⟨⟨up, all⟩, by rw [round, List.map_cons, List.append_assoc, List.singleton_append]⟩
        · rw [List.append_assoc, List.singleton_append, ← List.map_cons] at down
          refine .inr ⟨port :: seen, last, rest, by rw [order, List.cons_append], ⟨up, all⟩, down, ?_⟩
          rw [round, List.cons_append, List.map_cons, List.append_assoc, List.singleton_append]

variable (link_status app) in
/-- So many rounds, in each of which the ports were looked at up to the first whose link
    was down, and 100 ms were waited for. -/
inductive Missed : (rounds : Nat) → (log : List Event) → Prop
  | start : Missed 0 []
  | round {rounds : Nat} {log : List Event} {seen : List Nat} {port : Nat} {rest : List Nat} (before : Missed rounds log)
      (order : used_ports app = seen ++ port :: rest) (up : AllUp link_status log seen)
      (down : link_status (log ++ seen.map .rte_eth_link_get_nowait) port = false) :
      Missed (rounds + 1) (log ++ (seen ++ [port]).map .rte_eth_link_get_nowait ++ [.rte_delay_ms])

variable (link_status app) in
/-- When the check is done: behind the first round in which all links are up, or when
    the time is over. -/
inductive Done : (waits : List Event) → Prop
  | up {rounds : Nat} {log : List Event} (early : rounds < MAX_CHECK_TIME) (missed : Missed link_status app rounds log)
      (all : AllUp link_status log (used_ports app)) : Done (log ++ (used_ports app).map .rte_eth_link_get_nowait)
  | late {log : List Event} (missed : Missed link_status app MAX_CHECK_TIME log) : Done log

/-- What holds before each round. -/
def Rounds (link_status : List Event → Nat → Bool) (app : App) (count : Nat) : Bool × List Event → Prop
  | (false, log) => count < MAX_CHECK_TIME ∧ Missed link_status app count log
  | (true, log) => count ≤ MAX_CHECK_TIME ∧ ∃ waits, Done link_status app waits ∧ log = waits ++ [.done]

theorem check_round_ok {count : Nat} {s : Bool × List Event} (rounds : Rounds link_status app count s) :
    (∃ next, check_round link_status app count s = .ok (.inl next) ∧ Rounds link_status app (count + 1) next) ∨
    ∃ waits, Done link_status app waits ∧ check_round link_status app count s =
      .ok (.inr (waits ++ .done :: reported link_status (waits ++ [.done]) (used_ports app))) := by
  obtain ⟨print_flag, log⟩ := s
  cases print_flag with
  | true =>
    obtain ⟨-, waits, done, rfl⟩ := rounds
    refine .inr ⟨waits, done, ?_⟩
    simp only [check_round, look_print, if_true, List.append_assoc, List.singleton_append]
    rfl
  | false =>
    obtain ⟨early, missed⟩ := rounds
    refine .inl ?_
    rcases @look_wait link_status app (List.range APP_MAX_NIC_PORTS) log with
      ⟨all, round⟩ | ⟨seen, port, rest, order, up, down, round⟩
    · have goes : check_round link_status app count (false, log) =
          .ok (.inl (true, log ++ (used_ports app).map .rte_eth_link_get_nowait ++ [.done])) := by
        simp [check_round, round, used_ports]
      exact ⟨_, goes, early, _, .up early missed all, rfl⟩
    · have after := missed.round order up down
      by_cases late : count = MAX_CHECK_TIME - 1
      · have goes : check_round link_status app count (false, log) =
            .ok (.inl (true, log ++ (seen ++ [port]).map .rte_eth_link_get_nowait ++ [.rte_delay_ms] ++ [.done])) := by
          simp [check_round, round, late]
        have ended : count + 1 = MAX_CHECK_TIME := by rw [late]; rfl
        exact ⟨_, goes, early, _, .late (ended ▸ after), rfl⟩
      · have goes : check_round link_status app count (false, log) =
            .ok (.inl (false, log ++ (seen ++ [port]).map .rte_eth_link_get_nowait ++ [.rte_delay_ms])) := by
          simp [check_round, round, late]
        exact ⟨_, goes, by omega, after⟩

theorem links_checked : ∃ outcome, check_all_ports_link_status link_status app = .ok outcome := by
  refine forLoop_returns _ (fun i s => ?_) _ _ _
  unfold check_round
  dsimp only
  split_ifs <;> exact ⟨_, rfl⟩

/-- The check looks at the ports again and again up to the first round that finds all
    links up, 90 times at most, and then prints the state of every port once, as it finds
    it. -/
theorem links_reported : ∃ waits, Done link_status app waits ∧ check_all_ports_link_status link_status app =
    .ok (.inr (waits ++ .done :: reported link_status (waits ++ [.done]) (used_ports app))) := by
  obtain ⟨outcome, run⟩ := @links_checked link_status app
  have first : Rounds link_status app 0 (false, []) := ⟨by decide, .start⟩
  have goes : ∀ i s next, i < MAX_CHECK_TIME + 1 → Rounds link_status app i s →
      check_round link_status app i s = .ok (.inl next) → Rounds link_status app (i + 1) next := by
    intro i s next _ rounds once
    rcases check_round_ok rounds with ⟨next', goes, kept⟩ | ⟨waits, -, leaves⟩
    · rw [goes] at once
      cases once
      exact kept
    · rw [leaves] at once
      cases once
  have leaves : ∀ i s log, i < MAX_CHECK_TIME + 1 → Rounds link_status app i s →
      check_round link_status app i s = .ok (.inr log) → ∃ waits, Done link_status app waits ∧
        log = waits ++ .done :: reported link_status (waits ++ [.done]) (used_ports app) := by
    intro i s log _ rounds once
    rcases check_round_ok rounds with ⟨next, goes, -⟩ | ⟨waits, done, leaves⟩
    · rw [goes] at once
      cases once
    · rw [leaves] at once
      cases once
      exact ⟨waits, done, rfl⟩
  obtain ⟨never, post⟩ := forLoop_ok (Rounds link_status app) _ goes leaves (Nat.zero_add _) first run
  cases outcome with
  | inl last =>
    have bad := never last rfl
    obtain ⟨print_flag, log⟩ := last
    cases print_flag <;> exact absurd bad.1 (by unfold MAX_CHECK_TIME; omega)
  | inr log =>
    obtain ⟨waits, done, rfl⟩ := post log rfl
    exact ⟨waits, done, run⟩

end Links

/-! ### A library that refuses missing queues -/

instance {π ρ : Type} (log : List (Call π ρ)) (c : Call π ρ) : Decidable (Missing log c) :=
  match c with
  | .rte_eth_rx_queue_setup .. | .rte_eth_tx_queue_setup .. => inferInstanceAs (Decidable (_ ≤ _))
  | .rte_eth_dev_configure .. | .rte_eth_promiscuous_enable .. | .rte_eth_dev_adjust_nb_rx_tx_desc .. |
    .rte_eth_dev_start .. => inferInstanceAs (Decidable False)

/-- Every size is fine with it. -/
def strict : Ethdev Nat Unit where
  DEV_RX_OFFLOAD_CHECKSUM := 0xE
  DEV_RX_OFFLOAD_CRC_STRIP := 0x1000
  DEV_TX_OFFLOAD_MBUF_FAST_FREE := 0x10000
  ETH_RSS_IP := 0x3F00
  rte_eth_dev_info_get _ := ⟨0x10000, 0x3F00, ⟨(), 0⟩, ⟨(), 0⟩⟩
  answer log c := if Missing log c then -22 else 0
  adjusted _ _ nic_rx_ring_size nic_tx_ring_size := (nic_rx_ring_size, nic_tx_ring_size)

theorem strict_ready : Ready strict := fun log c => by
  show (if Missing log c then (-22 : Int) else 0) < 0 ↔ _
  split_ifs with missing <;> simp [missing]

/-- No table, no pool yet. -/
def no_tables : Sockets.Tables Nat (List (LongestPrefix.Route Nat)) := ⟨fun _ => none, fun _ => none, fun _ => none, fun _ => none⟩

/-- Two lcores, on two sockets, poll a queue each of one port. -/
def two_queues : List (Option (Opt × Text)) :=
  [some (.rx, ascii "(0,0,0)(0,1,1)"), some (.tx, ascii "(0,1)"), some (.w, ascii "2"), some (.lpm, ascii "10.0.0.0/8=>0;")]

/-- Each queue gets the pool of its lcore's socket, and both are set up before the port is
    started. -/
theorem two_queues_set_up : ∃ app start t last, app_parse_args (Eal.first 4) two_queues = .ok app ∧
    app_init (μ := Nat) app.toParams app.lcore_params = .ok start ∧
    app_init_nics strict Sockets.two_sockets app start.lcore_params t 0 = .ok last ∧
    ∀ queue < 2, ∃ pool size before after, Sockets.two_sockets.rte_pktmbuf_pool_create Sockets.APP_DEFAULT_MEMPOOL_BUFFERS
        Sockets.APP_DEFAULT_MEMPOOL_CACHE_SIZE Sockets.two_sockets.RTE_MBUF_DEFAULT_BUF_SIZE queue = some pool ∧
      last.calls.filter (fun c => c.port = 0) =
        .rte_eth_dev_configure 0 (queues app 0).length 1 (strict.local_port_conf 0) :: before ++
          .rte_eth_rx_queue_setup 0 queue size queue (strict.rxq_conf 0) (some pool) :: after ++ [.rte_eth_dev_start 0] ∧
      ∀ c ∈ before ++ after, c.setsUp 0 queue = false ∧ ∀ port, c ≠ .rte_eth_dev_start port := by
  have played : (app_parse_args (Eal.first 4) two_queues).toOption.any (fun app =>
      ((queuesOf (app.lcore_params 0)).contains (0, 0) && (queuesOf (app.lcore_params 1)).contains (0, 1)) && (do
        let start ← app_init (μ := Nat) app.toParams app.lcore_params
        let t ← Sockets.app_init_mbuf_pools Sockets.two_sockets app.lcore_params no_tables
        app_init_nics strict Sockets.two_sockets app start.lcore_params t.pool 0).toOption.isSome) = true := by
    decide +kernel
  obtain ⟨app, parsed, played⟩ := (Option.any_eq_true ..).mp played
  rw [Options.toOption_some] at parsed
  simp only [Bool.and_eq_true] at played
  obtain ⟨⟨first, second⟩, played⟩ := played
  obtain ⟨last, played⟩ := Option.isSome_iff_exists.mp played
  obtain ⟨start, ready, played⟩ := bind_eq_ok.mp (Options.toOption_some.mp played)
  obtain ⟨t, pools, run⟩ := bind_eq_ok.mp played
  refine ⟨app, start, t.pool, last, parsed, ready, run, fun queue inside => ?_⟩
  rcases queue with _ | _ | queue
  · exact queues_set_up parsed ready pools run (List.contains_iff_mem.mp first)
  · exact queues_set_up parsed ready pools run (List.contains_iff_mem.mp second)
  · omega

end Shardb.Ports
