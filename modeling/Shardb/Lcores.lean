import Mathlib.Logic.Function.Basic
import Shardb.Rings
import Shardb.Server

/-!
# `runtime.c`: the loops of the lcores

Packets go from the ports through an I/O lcore to the workers and back to an I/O
lcore, in bursts: every lcore gathers them in buffers and hands a full buffer to
the next ring. A burst the ring has no room for is freed.

The functions are written over any type `μ` of mbufs. The program computes with
pointers: what an mbuf holds is read through `mtod` and `port`.
-/

namespace Shardb.Lcores
open Shardb.Bytes Shardb.Rings
open Shardb.Server (ip_offset)

def APP_MAX_LCORES : Nat := 128
def APP_MAX_NIC_PORTS : Nat := 32
def APP_MAX_IO_LCORES : Nat := 16
def APP_MAX_NIC_TX_PORTS_PER_IO_LCORE : Nat := 16
def APP_MAX_WORKER_LCORES : Nat := 16
def APP_MBUF_ARRAY_SIZE : Nat := 512

/-- What ends the program: an index behind an array, a ring that is `NULL`,
    `rte_panic`. -/
inductive Fault
  | overflow
  | null
  | panic
  deriving DecidableEq

abbrev Result := Except Fault

/-- An index into an array of `size` elements. -/
def index (i size : Nat) : Result Unit := if i < size then .ok () else .error .overflow

theorem index_eq_ok {i size : Nat} {u : Unit} : index i size = .ok u ↔ i < size := by
  rw [index]
  by_cases inside : i < size
  · simp [inside]
  · simp [inside]

/-- A pointer that is followed. -/
def deref {α : Type} : Option α → Result α
  | some a => .ok a
  | none => .error .null

/-! ### Rings and ports -/

/-- The rings by their names: `app_ring_rx_s%u_io%u_w%u` and
    `app_ring_tx_s%u_w%u_p%u`, whose socket follows from the I/O lcore. -/
inductive RingId
  | rx (lcore lcore_worker : Nat)
  | tx (lcore port : Nat)
  deriving DecidableEq

/-- `struct app_mbuf_array`. -/
abbrev app_mbuf_array (μ : Type) := Buffer μ APP_MBUF_ARRAY_SIZE

/-- The rings, and what has become of the mbufs: those `rte_eth_rx_burst` returned,
    those each port sent, those that were freed. -/
structure Net (μ : Type) where
  rings : RingId → BulkRing μ
  received : List μ
  transmitted : Nat → List μ
  freed : List μ

section Lcores
variable {μ σ : Type}

def Net.free (net : Net μ) (mbufs : List μ) : Net μ := { net with freed := net.freed ++ mbufs }

def Net.setRing (net : Net μ) (id : RingId) (ring : BulkRing μ) : Net μ :=
  { net with rings := Function.update net.rings id ring }

/-- `rte_ring_sp_enqueue_bulk`, and `rte_pktmbuf_free` of every mbuf when it fails. -/
def Net.enqueue (net : Net μ) (ring : Option RingId) (mbufs : List μ) : Result (Net μ) := do
  let id ← deref ring
  match (net.rings id).enqueueBulk mbufs with
  | some ring => return net.setRing id ring
  | none => return net.free mbufs

/-- `rte_eth_tx_burst`, of which `tx_burst` says how many mbufs it takes, and
    `rte_pktmbuf_free` of the others. -/
def Net.send (net : Net μ) (tx_burst : Nat → List μ → Nat) (port : Nat) (mbufs : List μ) : Net μ :=
  let burst := mbufs.take (mbufs.length % 2 ^ 16)
  let n_pkts := min (tx_burst port burst) burst.length
  { net with
    transmitted := Function.update net.transmitted port (net.transmitted port ++ mbufs.take n_pkts)
    freed := net.freed ++ mbufs.drop n_pkts }

/-! ### Buffers for what goes out -/

/-- The members `mbuf_out` and `mbuf_out_flush`. -/
structure Outputs (μ : Type) where
  mbuf_out : Nat → app_mbuf_array μ
  mbuf_out_flush : Nat → Bool

def Outputs.store (lp : Outputs μ) (i : Nat) (out : app_mbuf_array μ) : Outputs μ :=
  { lp with mbuf_out := Function.update lp.mbuf_out i out }

/-- `n_mbufs = 0`, and the flag is set to `flush`. -/
def Outputs.reset (lp : Outputs μ) (i : Nat) (flush : Bool) : Outputs μ :=
  ⟨Function.update lp.mbuf_out i .empty, Function.update lp.mbuf_out_flush i flush⟩

/-- The mbuf is put at the end of the buffer; from `bsz` on, `bsz` are handed to
    the ring and the count is reset. -/
def Outputs.append (lp : Outputs μ) (i : Nat) (mbuf : μ) (bsz : Nat) (ring : Option RingId) (net : Net μ) :
    Result (Outputs μ × Net μ) :=
  match (lp.mbuf_out i).push [mbuf] with
  | none => .error .overflow
  | some out =>
    if out.items.length < bsz then .ok (lp.store i out, net)
    else do
      let net ← net.enqueue ring (out.items.take bsz)
      return (lp.reset i false, net)

/-- Nothing was handed on since the last flush, so what there is goes now. -/
def Outputs.flush (lp : Outputs μ) (i : Nat) (ring : Option RingId) (net : Net μ) : Result (Outputs μ × Net μ) :=
  if lp.mbuf_out_flush i = false ∨ (lp.mbuf_out i).items = [] then
    .ok ({ lp with mbuf_out_flush := Function.update lp.mbuf_out_flush i true }, net)
  else do
    let net ← net.enqueue ring (lp.mbuf_out i).items
    return (lp.reset i true, net)

/-! ### I/O lcores, receiving -/

/-- The member `rx` of `struct app_lcore_params_io`; the array `mbuf_in` keeps
    what earlier bursts left. -/
structure Rx (μ : Type) extends Outputs μ where
  nic_queues : List (Nat × Nat)
  rings : List RingId
  mbuf_in : Nat → μ

/-- `data[pos_lb] & (n_workers - 1)`, in 32 bits. -/
def worker_of (n_workers pos_lb : Nat) (data : List UInt8) : Nat :=
  (data.getD pos_lb 0).toNat &&& ((n_workers + (2 ^ 32 - 1)) % 2 ^ 32)

def app_lcore_io_rx_buffer_to_send (worker : Nat) (mbuf : μ) (bsz : Nat) (lp : Rx μ) (net : Net μ) :
    Result (Rx μ × Net μ) := do
  index worker APP_MAX_WORKER_LCORES
  let (out, net) ← lp.append worker mbuf bsz lp.rings[worker]? net
  return ({ lp with toOutputs := out }, net)

/-- The variables of the receiving loop. `data_1_1` is `NULL` at first when there
    is one packet only. -/
structure Ahead (μ : Type) where
  mbuf_1_0 : μ
  mbuf_1_1 : μ
  mbuf_2_0 : μ
  mbuf_2_1 : μ
  data_1_0 : List UInt8
  data_1_1 : Option (List UInt8)

section Pipeline
variable (mtod : μ → List UInt8) (array : Nat → μ) (send : List UInt8 → μ → σ → Result σ)

/-- The last packets, `left` of them. -/
def rx_rest : (left : Nat) → Ahead μ → σ → Result σ
  | 0, _, s => .ok s
  | left + 1, v, s => do
    let mbuf := v.mbuf_1_0
    let v := { v with mbuf_1_0 := v.mbuf_1_1, mbuf_1_1 := v.mbuf_2_0, mbuf_2_0 := v.mbuf_2_1 }
    let s ← send (mtod mbuf) mbuf s
    rx_rest left v s

/-- Two packets at a time, as long as `j + 3 < n_mbufs`; `left` is `n_mbufs - j`. -/
def rx_pairs : (left j : Nat) → Ahead μ → σ → Result σ
  | left + 4, j, v, s => do
    let next : Ahead μ :=
      { mbuf_1_0 := v.mbuf_2_0
        mbuf_1_1 := v.mbuf_2_1
        data_1_0 := mtod v.mbuf_2_0
        data_1_1 := some (mtod v.mbuf_2_1)
        mbuf_2_0 := array (j + 4)
        mbuf_2_1 := array (j + 5) }
    let s ← send v.data_1_0 v.mbuf_1_0 s
    let data_0_1 ← deref v.data_1_1
    let s ← send data_0_1 v.mbuf_1_1 s
    rx_pairs (left + 2) (j + 2) next s
  | left, _, v, s => rx_rest mtod send left v s

/-- What is done with `n_mbufs` packets of `array`. -/
def rx_queue (n_mbufs : Nat) (s : σ) : Result σ :=
  let ahead : Ahead μ :=
    { mbuf_1_0 := array 0
      mbuf_1_1 := array 1
      data_1_0 := mtod (array 0)
      data_1_1 := if 1 < n_mbufs then some (mtod (array 1)) else none
      mbuf_2_0 := array 2
      mbuf_2_1 := array 3 }
  rx_pairs mtod array send n_mbufs 0 ahead s

end Pipeline

/-- Where a packet with the given data is put. -/
def to_worker (n_workers bsz_wr pos_lb : Nat) (data : List UInt8) (mbuf : μ) (s : Rx μ × Net μ) :
    Result (Rx μ × Net μ) :=
  app_lcore_io_rx_buffer_to_send (worker_of n_workers pos_lb data) mbuf bsz_wr s.1 s.2

/-- One queue: `burst` is what `rte_eth_rx_burst` stores in the array. -/
def io_rx_queue (mtod : μ → List UInt8) (n_workers bsz_wr pos_lb : Nat) (burst : List μ) (s : Rx μ × Net μ) :
    Result (Rx μ × Net μ) := do
  index burst.length (APP_MBUF_ARRAY_SIZE + 1)
  let array := fun k => burst.getD k (s.1.mbuf_in k)
  let s := ({ s.1 with mbuf_in := array }, { s.2 with received := s.2.received ++ burst })
  if burst = [] then return s
  else rx_queue mtod array (to_worker n_workers bsz_wr pos_lb) burst.length s

/-- `rx_burst` says which mbufs `rte_eth_rx_burst` returns for a port and queue, the
    `i`-th of the lcore. -/
def app_lcore_io_rx (rx_burst : (port queue i : Nat) → Net μ → List μ) (mtod : μ → List UInt8)
    (n_workers bsz_rd bsz_wr pos_lb : Nat) (lp : Rx μ) (net : Net μ) : Result (Rx μ × Net μ) :=
  lp.nic_queues.zipIdx.foldlM (fun s entry =>
    io_rx_queue mtod n_workers bsz_wr pos_lb
      ((rx_burst entry.1.1 entry.1.2 entry.2 s.2).take (bsz_rd % 2 ^ 16)) s) (lp, net)

def app_lcore_io_rx_flush (n_workers : Nat) (lp : Rx μ) (net : Net μ) : Result (Rx μ × Net μ) :=
  (List.range n_workers).foldlM (fun s worker => do
    index worker APP_MAX_WORKER_LCORES
    let (out, net) ← s.1.flush worker s.1.rings[worker]? s.2
    return ({ s.1 with toOutputs := out }, net)) (lp, net)

/-! ### The receiving loop, plainly -/

/-- Every mbuf of a list is sent, in this order. -/
def send_all (mtod : μ → List UInt8) (send : List UInt8 → μ → σ → Result σ) (mbufs : List μ) (s : σ) : Result σ :=
  mbufs.foldlM (fun s mbuf => send (mtod mbuf) mbuf s) s

section Pipeline
variable {mtod : μ → List UInt8} {array : Nat → μ} {send : List UInt8 → μ → σ → Result σ}

/-- The variables look ahead from slot `j` on, where `left` packets are left. -/
structure Looks (mtod : μ → List UInt8) (array : Nat → μ) (left j : Nat) (v : Ahead μ) : Prop where
  mbuf_1_0 : v.mbuf_1_0 = array j
  mbuf_1_1 : v.mbuf_1_1 = array (j + 1)
  mbuf_2_0 : v.mbuf_2_0 = array (j + 2)
  mbuf_2_1 : v.mbuf_2_1 = array (j + 3)
  data_1_0 : v.data_1_0 = mtod (array j)
  data_1_1 : 1 < left → v.data_1_1 = some (mtod (array (j + 1)))

private theorem rx_rest_eq {left j : Nat} {v : Ahead μ} (few : left < 4) (looks : Looks mtod array left j v) (s : σ) :
    rx_rest mtod send left v s = send_all mtod send ((List.range' j left).map array) s := by
  obtain ⟨first, second, third, -, -, -⟩ := looks
  rcases left with _ | _ | _ | _ | left
  · rfl
  · simp only [rx_rest, send_all, List.range'_succ, List.range'_zero, List.map_cons, List.map_nil, List.foldlM_cons,
      List.foldlM_nil, first]
    rfl
  · simp only [rx_rest, send_all, List.range'_succ, List.range'_zero, List.map_cons, List.map_nil, List.foldlM_cons,
      List.foldlM_nil, first, second]
    rfl
  · simp only [rx_rest, send_all, List.range'_succ, List.range'_zero, List.map_cons, List.map_nil, List.foldlM_cons,
      List.foldlM_nil, first, second, third]
    rfl
  · omega

private theorem rx_pairs_eq : ∀ {left j : Nat} {v : Ahead μ}, Looks mtod array left j v → ∀ s,
    rx_pairs mtod array send left j v s = send_all mtod send ((List.range' j left).map array) s := by
  intro left
  induction left using Nat.strongRecOn with
  | ind left ih =>
    intro j v looks s
    by_cases more : 4 ≤ left
    · obtain ⟨left, rfl⟩ := Nat.exists_eq_add_of_le' more
      have next : Looks mtod array (left + 2) (j + 2) ⟨v.mbuf_2_0, v.mbuf_2_1, array (j + 4), array (j + 5),
          mtod v.mbuf_2_0, some (mtod v.mbuf_2_1)⟩ :=
        ⟨looks.mbuf_2_0, looks.mbuf_2_1, rfl, rfl, by rw [looks.mbuf_2_0], fun _ => by rw [looks.mbuf_2_1]⟩
      have two : List.range' j (left + 4) = j :: (j + 1) :: List.range' (j + 2) (left + 2) := by
        rw [List.range'_succ, List.range'_succ]
      rw [rx_pairs, looks.data_1_0, looks.mbuf_1_0, looks.data_1_1 (by omega), looks.mbuf_1_1, two]
      simp only [deref, send_all, List.map_cons, List.foldlM_cons]
      refine bind_congr fun s => ?_
      exact bind_congr fun s => ih (left + 2) (by omega) next s
    · have rest : rx_pairs mtod array send left j v s = rx_rest mtod send left v s := by
        rcases left with _ | _ | _ | _ | left
        · rfl
        · rfl
        · rfl
        · rfl
        · omega
      rw [rest]
      exact rx_rest_eq (by omega) looks s

/-- The loop sends each packet once, with its own data, whatever the array held
    before. -/
theorem rx_queue_eq (burst : List μ) (stale : Nat → μ) (s : σ) :
    rx_queue mtod (fun k => burst.getD k (stale k)) send burst.length s = send_all mtod send burst s := by
  have slots : (List.range' 0 burst.length).map (fun k => burst.getD k (stale k)) = burst := by
    refine List.ext_getElem (by simp) fun k inside inside' => ?_
    simp [List.getElem?_eq_getElem inside']
  rw [rx_queue, rx_pairs_eq ⟨rfl, rfl, rfl, rfl, rfl, fun more => by rw [if_pos more]⟩, slots]

end Pipeline

/-! ### I/O lcores, sending -/

/-- The member `tx` of `struct app_lcore_params_io`. -/
structure Tx (μ : Type) extends Outputs μ where
  nic_ports : List Nat
  rings : Nat → Nat → Option RingId

/-- One worker's ring for one port. -/
def io_tx_ring (tx_burst : Nat → List μ → Nat) (bsz_rd bsz_wr worker port : Nat) (s : Tx μ × Net μ) :
    Result (Tx μ × Net μ) := do
  let (lp, net) := s
  index port APP_MAX_NIC_PORTS
  index worker APP_MAX_WORKER_LCORES
  index port APP_MAX_NIC_TX_PORTS_PER_IO_LCORE
  let id ← deref (lp.rings port worker)
  match (net.rings id).dequeueBulk bsz_rd with
  | none => return (lp, net)
  | some (mbufs, ring) =>
    let net := net.setRing id ring
    match (lp.mbuf_out port).push mbufs with
    | none => .error .overflow
    | some out =>
      if out.items.length < bsz_wr then return ({ lp with toOutputs := lp.store port out }, net)
      else return ({ lp with toOutputs := lp.reset port false }, net.send tx_burst port out.items)

def app_lcore_io_tx (tx_burst : Nat → List μ → Nat) (n_workers bsz_rd bsz_wr : Nat) (lp : Tx μ) (net : Net μ) :
    Result (Tx μ × Net μ) :=
  (List.range n_workers).foldlM (fun s worker =>
    lp.nic_ports.foldlM (fun s port => io_tx_ring tx_burst bsz_rd bsz_wr worker port s) s) (lp, net)

def io_tx_flush_port (tx_burst : Nat → List μ → Nat) (port : Nat) (s : Tx μ × Net μ) : Result (Tx μ × Net μ) := do
  let (lp, net) := s
  index port APP_MAX_NIC_TX_PORTS_PER_IO_LCORE
  if lp.mbuf_out_flush port = false ∨ (lp.mbuf_out port).items = [] then
    return ({ lp with mbuf_out_flush := Function.update lp.mbuf_out_flush port true }, net)
  else return ({ lp with toOutputs := lp.reset port true }, net.send tx_burst port (lp.mbuf_out port).items)

def app_lcore_io_tx_flush (tx_burst : Nat → List μ → Nat) (lp : Tx μ) (net : Net μ) : Result (Tx μ × Net μ) :=
  lp.nic_ports.foldlM (fun s port => io_tx_flush_port tx_burst port s) (lp, net)

/-! ### Workers -/

/-- `struct app_lcore_params_worker`. -/
structure Worker (μ : Type) extends Outputs μ where
  rings_in : List RingId
  rings_out : Nat → Option RingId
  worker_id : Nat
  lcore : Nat

/-- What a worker computes with: `process_pkt`, which may have effects of its own,
    the table behind `rte_lpm_lookup`, and what it reads of an mbuf. -/
structure Processing (μ σ : Type) where
  process_pkt : μ → σ → Int × σ
  lpm_lookup : Nat → Option Nat
  mtod : μ → List UInt8
  port : μ → Nat

/-- The port for a packet: the next hop of its destination, read before
    `process_pkt` is called, or the port it came from. -/
def Processing.out_port (app : Processing μ σ) (pkt : μ) : Nat :=
  (app.lpm_lookup (readBe32 (app.mtod pkt) (ip_offset + 16))).getD (app.port pkt)

/-- One packet. -/
def worker_pkt (app : Processing μ σ) (bsz_wr : Nat) (pkt : μ) (t : Worker μ × Net μ × σ) :
    Result (Worker μ × Net μ × σ) := do
  let (lp, net, s) := t
  let (ret, s) := app.process_pkt pkt s
  if ret < 0 then return (lp, net.free [pkt], s)
  else
    let port := app.out_port pkt
    index port APP_MAX_NIC_PORTS
    let (out, net) ← lp.append port pkt bsz_wr (lp.rings_out port) net
    return ({ lp with toOutputs := out }, net, s)

/-- One ring: as many packets as `bsz_rd`, or none. -/
def worker_ring (app : Processing μ σ) (bsz_rd bsz_wr : Nat) (ring_in : RingId) (t : Worker μ × Net μ × σ) :
    Result (Worker μ × Net μ × σ) := do
  let (lp, net, s) := t
  match (net.rings ring_in).dequeueBulk bsz_rd with
  | none => return (lp, net, s)
  | some (mbufs, ring) =>
    index mbufs.length (APP_MBUF_ARRAY_SIZE + 1)
    mbufs.foldlM (fun t pkt => worker_pkt app bsz_wr pkt t) (lp, net.setRing ring_in ring, s)

def app_lcore_worker (app : Processing μ σ) (bsz_rd bsz_wr : Nat) (t : Worker μ × Net μ × σ) :
    Result (Worker μ × Net μ × σ) :=
  t.1.rings_in.foldlM (fun t ring_in => worker_ring app bsz_rd bsz_wr ring_in t) t

def worker_flush_port (port : Nat) (s : Worker μ × Net μ) : Result (Worker μ × Net μ) := do
  let (lp, net) := s
  if lp.rings_out port = none then return (lp, net)
  else
    let (out, net) ← lp.flush port (lp.rings_out port) net
    return ({ lp with toOutputs := out }, net)

def app_lcore_worker_flush (lp : Worker μ) (net : Net μ) : Result (Worker μ × Net μ) :=
  (List.range APP_MAX_NIC_PORTS).foldlM (fun s port => worker_flush_port port s) (lp, net)

end Lcores
end Shardb.Lcores
