import Shardb.Client
import Shardb.Conservation

/-!
# To which worker a request goes

`--pos-lb 43` makes the server share out the packets by the second byte of the
message. The client writes its string there, and its `worker_id` at a place where
the server does not look (`received_members`), so that neither the ring nor the
leader the server reads depends on the `worker_id` (`reached_iff`).
-/

namespace Shardb.Dispatch
open Shardb.Bytes Shardb.Lcores Shardb.Wiring Shardb.Runs Shardb.Transit Shardb.Conservation
open Shardb.Loops (bind_eq_ok)
open Shardb.Server (Mbuf TxFlag app_offset)
open Shardb.Client (Sockaddr app_hdr MAXBUFSIZE prepare_paxos_message wire receive sent val received_byte received_members)

/-- `--pos-lb` in `start_server.sh`. -/
def pos_lb : Nat := 43

/-! ### The worker of a packet -/

section Worker
variable {μ : Type} {lcores : Nat → Lcore μ}

private theorem workers_few : (workers lcores).length ≤ APP_MAX_LCORES := by
  have := List.length_filter_le (fun l => (lcores l).isWorker) (List.range APP_MAX_LCORES)
  rwa [List.length_range] at this

/-- `n_workers - 1` does not wrap around when there is a worker. -/
theorem worker_of_eq (some : workers lcores ≠ []) (pos : Nat) (data : List UInt8) :
    worker_of (workers lcores).length pos data = (data.getD pos 0).toNat &&& ((workers lcores).length - 1) := by
  have few : (workers lcores).length ≤ 128 := workers_few
  have positive := List.length_pos_iff.mpr some
  have mask : ((workers lcores).length + (2 ^ 32 - 1)) % 2 ^ 32 = (workers lcores).length - 1 := by omega
  rw [worker_of, mask]

/-- Every packet has a ring, which leads to the worker whose id is the index. -/
theorem dispatched (wired : Wired (plan lcores) lcores) (some : workers lcores ≠ []) {l : Nat} {rx : Rx μ} {tx : Tx μ}
    (is : lcores l = .io rx tx) (receives : rx.nic_queues ≠ []) (pos : Nat) (data : List UInt8) :
    ∃ w lp, lcores w = .worker lp ∧ lp.worker_id = worker_of (workers lcores).length pos data ∧
      rx.rings[worker_of (workers lcores).length pos data]? = .some (.rx l w) ∧ .rx l w ∈ lp.rings_in := by
  have inside : worker_of (workers lcores).length pos data < rx.rings.length := by
    have positive := List.length_pos_iff.mpr some
    have below : (data.getD pos 0).toNat &&& ((workers lcores).length - 1) ≤ (workers lcores).length - 1 := Nat.and_le_right
    have full : rx.rings.length = (workers lcores).length := wired.full is receives
    rw [full, worker_of_eq some]
    omega
  obtain ⟨w, here, name⟩ := wired.rings is (List.getElem?_eq_getElem inside)
  obtain ⟨lp, kind⟩ := isWorker_iff.mp (List.mem_filter.mp (List.mem_of_getElem? here)).2
  have id := wired.worker_id kind
  refine ⟨w, lp, kind, ?_, ?_, wired.joined is receives kind⟩
  · exact (List.getElem?_inj (List.getElem?_eq_some_iff.mp id).1 (workers_nodup lcores)).mp (id.trans here.symm)
  · rw [List.getElem?_eq_getElem inside, name]

end Worker

/-! ### Where a packet waits -/

/-- The mbuf is in a ring that the worker empties. -/
def Waiting (s : System Arrival) (lp : Worker Arrival) (m : Arrival) : Prop :=
  ∃ lcore, s.lcore_params lcore = .worker lp ∧ ∃ id ∈ lp.rings_in, m ∈ (s.net.rings id).items

/-- The worker that will take a packet is the one its byte tells. -/
theorem waiting_worker {app : Params} {P : Plan} {lpm_lookup : Nat → Option Nat} {s : System Arrival}
    (inv : Inv app P lpm_lookup s) {lp : Worker Arrival} {m : Arrival} (waits : Waiting s lp m) :
    lp.worker_id = worker_of P.workers.length app.pos_lb m.data := by
  obtain ⟨w, is, id, reads, held⟩ := waits
  obtain ⟨l, rfl⟩ := inv.wired.rings_in is reads
  have sameWorker := (passed_kind inv held).2
  have own := inv.wired.worker_id is
  have nodup : P.workers.Nodup := by
    rw [← inv.wired.planned]
    exact workers_nodup _
  exact (List.getElem?_inj (List.getElem?_eq_some_iff.mp own).1 nodup).mp (own.trans sameWorker.symm)

/-- The ids of the workers and what waits for them, for one lcore. -/
def inbox (s : System Arrival) (lcore : Nat) : List (Nat × Arrival) :=
  match s.lcore_params lcore with
  | .worker lp => lp.rings_in.flatMap fun id => (s.net.rings id).items.map fun m => (lp.worker_id, m)
  | _ => []

private theorem waiting_of_inbox {s : System Arrival} {lcore worker_id : Nat} {m : Arrival}
    (member : (worker_id, m) ∈ inbox s lcore) : ∃ lp, Waiting s lp m ∧ lp.worker_id = worker_id := by
  rw [inbox] at member
  cases is : s.lcore_params lcore with
  | disabled => simp [is] at member
  | io rx tx => simp [is] at member
  | worker lp =>
    simp only [is, List.mem_flatMap, List.mem_map, Prod.mk.injEq] at member
    obtain ⟨id, reads, m', held, same, rfl⟩ := member
    exact ⟨lp, ⟨lcore, is, id, reads, held⟩, same⟩

/-- `handle_db_message` drops a single-partition message for its leader. -/
def Dropped (pkt : Mbuf) (worker_id : Nat) : Prop := pkt.msgtype = 0 ∧ pkt.leader ≠ worker_id

/-- A request reaches the worker it is addressed to, and is not dropped there, if and
    only if the second byte of its string says so and what the server's buffer held
    does not say otherwise. -/
theorem reached_iff (rte_ipv4_phdr_cksum : List UInt8 → List TxFlag → UInt8 × UInt8) (addr : Vector UInt8 6)
    (created_pkt : Mbuf) (src dst : Sockaddr) (shards : UInt8) (worker_id : UInt16) (value buffer : List UInt8)
    (size : Nat) (room : app_offset + structSize app_hdr ≤ created_pkt.data.length) (fits : size ≤ MAXBUFSIZE)
    (buffered : app_offset + structSize Server.app_hdr ≤ buffer.length) {app : Params} {roles : Nat → Role}
    {start : System Arrival} {lpm_lookup : Nat → Option Nat} (deployed : app.pos_lb = pos_lb)
    (receiving : 0 < app.burst_size_io_rx_write) (working : 0 < app.burst_size_worker_write)
    (ready : app_init app roles = .ok start) {trail : List (System Arrival × Act × System Arrival)}
    {last : System Arrival} (run : Run (Steps lpm_lookup) start trail last) {lp : Worker Arrival} {m : Arrival}
    (waits : Waiting last lp m)
    (request : m.data = (receive (wire (prepare_paxos_message rte_ipv4_phdr_cksum addr created_pkt src dst 0 shards
      worker_id value size)) buffer).data) :
    (lp.worker_id = worker_id.toNat ∧
      ¬ Dropped (receive (wire (prepare_paxos_message rte_ipv4_phdr_cksum addr created_pkt src dst 0 shards worker_id
        value size)) buffer) lp.worker_id) ↔
    ((value.take size).getD 1 (created_pkt.data.getD pos_lb 0)).toNat &&&
        ((workers start.lcore_params).length - 1) = worker_id.toNat ∧
      (readBe16 buffer (app_offset + offsetOf Server.app_hdr 1) = 0 →
        readBe16 buffer (app_offset + offsetOf Server.app_hdr 2) = worker_id.toNat) := by
  obtain ⟨type, leader⟩ := received_members rte_ipv4_phdr_cksum addr created_pkt src dst 0 shards worker_id value buffer
    size room fits buffered
  have byte := received_byte rte_ipv4_phdr_cksum addr created_pkt src dst 0 shards worker_id value buffer size room fits
    buffered (i := pos_lb) (by decide) (by decide)
  set pkt := receive (wire (prepare_paxos_message rte_ipv4_phdr_cksum addr created_pkt src dst 0 shards worker_id value
    size)) buffer
  have inv : Inv app (plan start.lcore_params) lpm_lookup last := by
    refine run_keeps (fun _ s => Inv app (plan start.lcore_params) lpm_lookup s) (fun _ _ => True) ?_
      (start_inv lpm_lookup receiving working ready) run fun _ _ => trivial
    intro _ s a s' inv step _
    exact act_inv inv step
  have some : workers start.lcore_params ≠ [] := by
    obtain ⟨w, is, -⟩ := waits
    have own := inv.wired.worker_id is
    rintro none
    rw [show (plan start.lcore_params).workers = [] from none] at own
    cases own
  have goes : lp.worker_id = ((value.take size).getD 1 (created_pkt.data.getD pos_lb 0)).toNat &&&
      ((workers start.lcore_params).length - 1) := by
    rw [waiting_worker inv waits, deployed, request]
    show worker_of (workers start.lcore_params).length _ _ = _
    rw [worker_of_eq some, List.getD_eq_getElem?_getD, byte, List.getD_eq_getElem?_getD, List.getD_eq_getElem?_getD,
      Option.getD_or]
    rfl
  rw [← goes, Dropped, type, leader]
  constructor
  · rintro ⟨own, kept⟩
    refine ⟨own, fun single => ?_⟩
    by_contra other
    exact kept ⟨single, fun same => other (same.trans own)⟩
  · rintro ⟨own, same⟩
    refine ⟨own, ?_⟩
    rintro ⟨single, other⟩
    exact other ((same single).trans own.symm)

/-- One I/O lcore, which hands on every packet at once, and two workers. -/
def one : Params := { small with burst_size_io_rx_write := 1 }

def oneRoles (l : Nat) : Role := if l = 0 then .io [(0, 0)] [0] else if l ≤ 2 then .worker else .disabled

/-- A buffer of zeros but for the leader of the packet that was in it before. -/
def buffer (leader : Nat) : List UInt8 :=
  store (List.replicate 2048 0) (app_offset + offsetOf Server.app_hdr 2) (be16 leader)

private theorem played (worker_id : UInt16) (leader : Nat)
    (goes : (do
      let s ← app_init one oneRoles
      let s ← act (fun _ => none) s (.io_rx 0 fun _ => [(receive (wire (sent worker_id)) (buffer leader)).data])
      return inbox s 2) = .ok [(1, ⟨0, 0, 0, (receive (wire (sent worker_id)) (buffer leader)).data⟩)]) :
    ∃ start trail last lp m, app_init one oneRoles = .ok start ∧ (workers start.lcore_params).length = 2 ∧
      Run (Steps fun _ => none) start trail last ∧ Waiting last lp m ∧ lp.worker_id = 1 ∧
      m.data = (receive (wire (sent worker_id)) (buffer leader)).data := by
  obtain ⟨start, ready, goes⟩ := bind_eq_ok.mp goes
  obtain ⟨last, step, goes⟩ := bind_eq_ok.mp goes
  have member : (1, ⟨0, 0, 0, (receive (wire (sent worker_id)) (buffer leader)).data⟩) ∈ inbox last 2 := by
    rw [Except.ok.inj goes]
    exact List.mem_singleton_self _
  obtain ⟨lp, waits, id⟩ := waiting_of_inbox member
  have two : (app_init (μ := Arrival) one oneRoles).map (fun s => (workers s.lcore_params).length) = .ok 2 := by
    decide +kernel
  rw [ready] at two
  exact ⟨start, _, last, lp, _, ready, Except.ok.inj two, .next .stay step, waits, id, rfl⟩

/-- What the client sends with `worker_id` 1 reaches worker 1 of two when the buffer
    held a packet for worker 1 before. -/
theorem second_worker_reached : ∃ start trail last lp m, app_init one oneRoles = .ok start ∧
    Run (Steps fun _ => none) start trail last ∧ Waiting last lp m ∧
    m.data = (receive (wire (sent 1)) (buffer 1)).data ∧
    lp.worker_id = 1 ∧ ¬ Dropped (receive (wire (sent 1)) (buffer 1)) lp.worker_id := by
  obtain ⟨start, trail, last, lp, m, ready, two, run, waits, id, data⟩ := played 1 1 (by decide +kernel)
  refine ⟨start, trail, last, lp, m, ready, run, waits, data, ?_⟩
  refine (reached_iff _ _ _ _ _ _ 1 val (buffer 1) val.length (by decide +kernel) (by decide +kernel)
    (by decide +kernel) rfl (by decide) (by decide) ready run waits data).mpr ?_
  rw [two]
  decide +kernel

/-- What it sends with `worker_id` 0 is put in the ring of worker 1, which drops it. -/
theorem first_worker_missed : ∃ start trail last lp m, app_init one oneRoles = .ok start ∧
    (workers start.lcore_params).length = 2 ∧ Run (Steps fun _ => none) start trail last ∧ Waiting last lp m ∧
    m.data = (receive (wire (sent 0)) (buffer 0)).data ∧
    lp.worker_id ≠ 0 ∧ Dropped (receive (wire (sent 0)) (buffer 0)) lp.worker_id := by
  obtain ⟨start, trail, last, lp, m, ready, two, run, waits, id, data⟩ := played 0 0 (by decide +kernel)
  refine ⟨start, trail, last, lp, m, ready, two, run, waits, data, ?_⟩
  rw [id, Dropped]
  decide +kernel

end Shardb.Dispatch
