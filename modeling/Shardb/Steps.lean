import Shardb.Conservation
import Shardb.Startup

/-!
# What a step leaves as it is

A step of the lcores is one call on the parameters of one lcore (`Ran`). It leaves
the other lcores, and of its own the queues, the ports and the rings (`ran_fixed`).
Only receiving adds to what was received, and what it adds comes over a queue of
the lcore (`ran_received`).
-/

namespace Shardb.Steps
open Shardb.Loops Shardb.Rings Shardb.Lcores Shardb.Wiring Shardb.Transit Shardb.Conservation

/-- A step, with the call that was made. -/
inductive Ran (lpm_lookup : Nat → Option Nat) (s : System Arrival) : Act → System Arrival → Prop
  | io_rx {l : Nat} {packets : Nat → List (List UInt8)} {rx rx' : Rx Arrival} {tx : Tx Arrival} {net : Net Arrival}
      (is : s.lcore_params l = .io rx tx)
      (run : app_lcore_io_rx (fun port _ i (net : Net Arrival) => arrive l port net.received.length (packets i))
        Arrival.data (workers s.lcore_params).length s.app.burst_size_io_rx_read s.app.burst_size_io_rx_write s.app.pos_lb
        rx s.net = .ok (rx', net)) : Ran lpm_lookup s (.io_rx l packets) (put s l (.io rx' tx) net)
  | io_rx_flush {l : Nat} {rx rx' : Rx Arrival} {tx : Tx Arrival} {net : Net Arrival} (is : s.lcore_params l = .io rx tx)
      (run : app_lcore_io_rx_flush (workers s.lcore_params).length rx s.net = .ok (rx', net)) :
      Ran lpm_lookup s (.io_rx_flush l) (put s l (.io rx' tx) net)
  | io_tx {l : Nat} {tx_burst : Nat → List Arrival → Nat} {rx : Rx Arrival} {tx tx' : Tx Arrival} {net : Net Arrival}
      (is : s.lcore_params l = .io rx tx)
      (run : app_lcore_io_tx tx_burst (workers s.lcore_params).length s.app.burst_size_io_tx_read
        s.app.burst_size_io_tx_write tx s.net = .ok (tx', net)) :
      Ran lpm_lookup s (.io_tx l tx_burst) (put s l (.io rx tx') net)
  | io_tx_flush {l : Nat} {tx_burst : Nat → List Arrival → Nat} {rx : Rx Arrival} {tx tx' : Tx Arrival} {net : Net Arrival}
      (is : s.lcore_params l = .io rx tx) (run : app_lcore_io_tx_flush tx_burst tx s.net = .ok (tx', net)) :
      Ran lpm_lookup s (.io_tx_flush l tx_burst) (put s l (.io rx tx') net)
  | worker {l : Nat} {process_pkt : Arrival → Int} {lp lp' : Worker Arrival} {net : Net Arrival}
      (is : s.lcore_params l = .worker lp)
      (run : app_lcore_worker (processing lpm_lookup process_pkt) s.app.burst_size_worker_read
        s.app.burst_size_worker_write (lp, s.net, ()) = .ok (lp', net, ())) :
      Ran lpm_lookup s (.worker l process_pkt) (put s l (.worker lp') net)
  | worker_flush {l : Nat} {lp lp' : Worker Arrival} {net : Net Arrival} (is : s.lcore_params l = .worker lp)
      (run : app_lcore_worker_flush lp s.net = .ok (lp', net)) :
      Ran lpm_lookup s (.worker_flush l) (put s l (.worker lp') net)

section Steps
variable {lpm_lookup : Nat → Option Nat} {s s' : System Arrival} {a : Act}

private theorem counted {μ : Type} {lcores : Nat → Lcore μ} {n : Nat} (count : app_get_lcores_worker lcores = .ok n) :
    n = (workers lcores).length := by
  unfold app_get_lcores_worker at count
  dsimp only at count
  split_ifs at count
  cases count
  rfl

theorem act_ran (step : Steps lpm_lookup s a s') : Ran lpm_lookup s a s' := by
  cases a with
  | io_rx l packets =>
    obtain ⟨rx, tx, is, step⟩ := act_io step (by simp)
    simp only [bind_eq_ok] at step
    obtain ⟨n, count, ⟨rx', net⟩, run, step⟩ := step
    cases step
    obtain rfl := counted count
    exact .io_rx is run
  | io_rx_flush l =>
    obtain ⟨rx, tx, is, step⟩ := act_io step (by simp)
    simp only [bind_eq_ok] at step
    obtain ⟨n, count, ⟨rx', net⟩, run, step⟩ := step
    cases step
    obtain rfl := counted count
    exact .io_rx_flush is run
  | io_tx l tx_burst =>
    obtain ⟨rx, tx, is, step⟩ := act_io step (by simp)
    simp only [bind_eq_ok] at step
    obtain ⟨n, count, ⟨tx', net⟩, run, step⟩ := step
    cases step
    obtain rfl := counted count
    exact .io_tx is run
  | io_tx_flush l tx_burst =>
    obtain ⟨rx, tx, is, step⟩ := act_io step (by simp)
    simp only [bind_eq_ok] at step
    obtain ⟨⟨tx', net⟩, run, step⟩ := step
    cases step
    exact .io_tx_flush is run
  | worker l process_pkt =>
    obtain ⟨lp, is, step⟩ := act_worker step (by simp)
    simp only [bind_eq_ok] at step
    obtain ⟨⟨lp', net, _⟩, run, step⟩ := step
    cases step
    exact .worker is run
  | worker_flush l =>
    obtain ⟨lp, is, step⟩ := act_worker step (by simp)
    simp only [bind_eq_ok] at step
    obtain ⟨⟨lp', net⟩, run, step⟩ := step
    cases step
    exact .worker_flush is run

/-! ### Outputs -/

section Outputs
variable {μ : Type} {out out' : Outputs μ} {net net' : Net μ} {i bsz : Nat} {m : μ} {ring : Option RingId}

private theorem enqueue_received {mbufs : List μ} (run : net.enqueue ring mbufs = .ok net') : net'.received = net.received := by
  simp only [Net.enqueue, bind_eq_ok] at run
  obtain ⟨id, -, run⟩ := run
  cases put : (net.rings id).enqueueBulk mbufs with
  | some ring' =>
    simp only [put] at run
    cases run
    rfl
  | none =>
    simp only [put] at run
    cases run
    rfl

theorem append_received (run : out.append i m bsz ring net = .ok (out', net')) : net'.received = net.received := by
  rw [Outputs.append] at run
  cases pushed : (out.mbuf_out i).push [m] with
  | none => simp only [pushed] at run; cases run
  | some buffer =>
    simp only [pushed] at run
    split_ifs at run
    · cases run
      rfl
    · simp only [bind_eq_ok] at run
      obtain ⟨net₁, enqueued, run⟩ := run
      cases run
      exact enqueue_received enqueued

theorem flush_received (run : out.flush i ring net = .ok (out', net')) : net'.received = net.received := by
  rw [Outputs.flush] at run
  split_ifs at run
  · cases run
    rfl
  · simp only [bind_eq_ok] at run
    obtain ⟨net₁, enqueued, run⟩ := run
    cases run
    exact enqueue_received enqueued

end Outputs

/-! ### The functions -/

section Functions
variable {rx rx' : Rx Arrival} {tx tx' : Tx Arrival} {lp lp' : Worker Arrival} {net net' : Net Arrival}
  {n_workers bsz_rd bsz_wr pos_lb : Nat} {tx_burst : Nat → List Arrival → Nat} {process_pkt : Arrival → Int}

theorem to_worker_kept {m : Arrival} (run : to_worker n_workers bsz_wr pos_lb m.data m (rx, net) = .ok (rx', net')) :
    RxKept rx rx' ∧ net'.received = net.received := by
  simp only [to_worker, app_lcore_io_rx_buffer_to_send, bind_eq_ok] at run
  obtain ⟨-, -, ⟨out, net₁⟩, appended, run⟩ := run
  cases run
  exact ⟨⟨rfl, rfl⟩, append_received appended⟩

/-- One queue receives its burst. -/
theorem io_rx_queue_kept {burst : List Arrival}
    (run : io_rx_queue Arrival.data n_workers bsz_wr pos_lb burst (rx, net) = .ok (rx', net')) :
    RxKept rx rx' ∧ net'.received = net.received ++ burst := by
  simp only [io_rx_queue, bind_eq_ok] at run
  obtain ⟨-, -, run⟩ := run
  split_ifs at run with none
  · cases run
    exact ⟨⟨rfl, rfl⟩, rfl⟩
  · rw [rx_queue_eq] at run
    refine foldlM_ok (fun _ (s : Rx Arrival × Net Arrival) => RxKept rx s.1 ∧ s.2.received = net.received ++ burst) ?_
      ⟨⟨rfl, rfl⟩, rfl⟩ run
    rintro m - ⟨rx₁, net₁⟩ ⟨rx₂, net₂⟩ ⟨kept, received⟩ once
    obtain ⟨kept', received'⟩ := to_worker_kept once
    exact ⟨⟨kept'.rings.trans kept.rings, kept'.nic_queues.trans kept.nic_queues⟩, received'.trans received⟩

/-- What comes in comes over one of the queues. -/
theorem io_rx_kept {l : Nat} {packets : Nat → List (List UInt8)}
    (run : app_lcore_io_rx (fun port _ i (net : Net Arrival) => arrive l port net.received.length (packets i)) Arrival.data
      n_workers bsz_rd bsz_wr pos_lb rx net = .ok (rx', net')) :
    RxKept rx rx' ∧ ∃ more, net'.received = net.received ++ more ∧
      ∀ m ∈ more, m.lcore = l ∧ ∃ queue, (m.port, queue) ∈ rx.nic_queues := by
  have all := foldlM_ok (fun (rest : List ((Nat × Nat) × Nat)) (s : Rx Arrival × Net Arrival) =>
    (∀ e ∈ rest, e.1 ∈ rx.nic_queues) ∧ RxKept rx s.1 ∧
      ∃ more, s.2.received = net.received ++ more ∧
        ∀ m ∈ more, m.lcore = l ∧ ∃ queue, (m.port, queue) ∈ rx.nic_queues) ?_
    ⟨fun e member => List.fst_mem_of_mem_zipIdx member, ⟨rfl, rfl⟩, [], (List.append_nil _).symm, by simp⟩ run
  · exact all.2
  rintro ⟨⟨port, queue⟩, i⟩ rest ⟨rx₁, net₁⟩ ⟨rx₂, net₂⟩ ⟨listed, kept, more, received, queued⟩ once
  obtain ⟨here, listed⟩ := List.forall_mem_cons.mp listed
  obtain ⟨kept', received'⟩ := io_rx_queue_kept once
  refine ⟨listed, ⟨kept'.rings.trans kept.rings, kept'.nic_queues.trans kept.nic_queues⟩,
    more ++ (arrive l port net₁.received.length (packets i)).take (bsz_rd % 2 ^ 16), ?_, ?_⟩
  · refine received'.trans ?_
    rw [← List.append_assoc, ← received]
  · refine List.forall_mem_append.mpr ⟨queued, fun m member => ?_⟩
    have member := List.mem_of_mem_take member
    rw [arrive, List.mem_mapIdx] at member
    obtain ⟨j, inside, rfl⟩ := member
    exact ⟨rfl, queue, here⟩

theorem io_rx_flush_kept (run : app_lcore_io_rx_flush n_workers rx net = .ok (rx', net')) :
    RxKept rx rx' ∧ net'.received = net.received := by
  refine foldlM_ok (fun _ (s : Rx Arrival × Net Arrival) => RxKept rx s.1 ∧ s.2.received = net.received) ?_
    ⟨⟨rfl, rfl⟩, rfl⟩ run
  rintro worker - ⟨rx₁, net₁⟩ ⟨rx₂, net₂⟩ ⟨kept, received⟩ once
  simp only [bind_eq_ok] at once
  obtain ⟨-, -, ⟨out, net₃⟩, flushed, once⟩ := once
  cases once
  exact ⟨⟨kept.rings, kept.nic_queues⟩, (flush_received flushed).trans received⟩

private theorem io_tx_ring_kept {worker port : Nat}
    (run : io_tx_ring tx_burst bsz_rd bsz_wr worker port (tx, net) = .ok (tx', net')) :
    TxKept tx tx' ∧ net'.received = net.received := by
  simp only [io_tx_ring, bind_eq_ok] at run
  obtain ⟨-, -, -, -, -, -, id, -, run⟩ := run
  cases taken : (net.rings id).dequeueBulk bsz_rd with
  | none =>
    simp only [taken] at run
    cases run
    exact ⟨⟨rfl, rfl⟩, rfl⟩
  | some pair =>
    simp only [taken] at run
    cases pushed : (tx.mbuf_out port).push pair.1 with
    | none => simp only [pushed] at run; cases run
    | some buffer =>
      simp only [pushed] at run
      split_ifs at run
      · cases run
        exact ⟨⟨rfl, rfl⟩, rfl⟩
      · cases run
        exact ⟨⟨rfl, rfl⟩, rfl⟩

theorem io_tx_kept (run : app_lcore_io_tx tx_burst n_workers bsz_rd bsz_wr tx net = .ok (tx', net')) :
    TxKept tx tx' ∧ net'.received = net.received := by
  refine foldlM_ok (fun _ (s : Tx Arrival × Net Arrival) => TxKept tx s.1 ∧ s.2.received = net.received) ?_
    ⟨⟨rfl, rfl⟩, rfl⟩ run
  rintro worker - s s' outer ports
  refine foldlM_ok (fun _ (s : Tx Arrival × Net Arrival) => TxKept tx s.1 ∧ s.2.received = net.received) ?_ outer ports
  rintro port - ⟨tx₁, net₁⟩ ⟨tx₂, net₂⟩ ⟨kept, received⟩ once
  obtain ⟨kept', received'⟩ := io_tx_ring_kept once
  exact ⟨⟨kept'.nic_ports.trans kept.nic_ports, kept'.rings.trans kept.rings⟩, received'.trans received⟩

theorem io_tx_flush_kept (run : app_lcore_io_tx_flush tx_burst tx net = .ok (tx', net')) :
    TxKept tx tx' ∧ net'.received = net.received := by
  refine foldlM_ok (fun _ (s : Tx Arrival × Net Arrival) => TxKept tx s.1 ∧ s.2.received = net.received) ?_
    ⟨⟨rfl, rfl⟩, rfl⟩ run
  rintro port - ⟨tx₁, net₁⟩ ⟨tx₂, net₂⟩ ⟨kept, received⟩ once
  simp only [io_tx_flush_port, bind_eq_ok] at once
  obtain ⟨-, -, once⟩ := once
  split_ifs at once
  · cases once
    exact ⟨⟨kept.nic_ports, kept.rings⟩, received⟩
  · cases once
    exact ⟨⟨kept.nic_ports, kept.rings⟩, received⟩

private theorem worker_pkt_received {m : Arrival} {t t' : Unit}
    (run : worker_pkt (processing lpm_lookup process_pkt) bsz_wr m (lp, net, t) = .ok (lp', net', t')) :
    net'.received = net.received := by
  rcases worker_pkt_cases run with ⟨-, -, rfl⟩ | ⟨out, -, -, appended, -⟩
  · rfl
  · exact append_received appended

theorem worker_kept {w : Nat} (rings_in : ∀ {id}, id ∈ lp.rings_in → ∃ l, id = RingId.rx l w)
    (rings_out : ∀ {port id}, lp.rings_out port = some id → id = RingId.tx w port) {t : Unit}
    (run : app_lcore_worker (processing lpm_lookup process_pkt) bsz_rd bsz_wr (lp, net, ()) = .ok (lp', net', t)) :
    WorkerKept lp lp' ∧ net'.received = net.received := by
  have all : Yields (fun t : Worker Arrival × Net Arrival × Unit => t.2.1.received = net.received ∧ WorkerKept lp t.1)
      (fun _ => True) (app_lcore_worker (processing lpm_lookup process_pkt) bsz_rd bsz_wr (lp, net, ())) := by
    refine worker_rule (fun _ _ _ net₁ => net₁.received = net.received) rings_in rings_out (fun _ received => received)
      (fun _ => trivial) ?_ rfl
    intro m hand more lp₁ net₁ kept received
    cases once : worker_pkt (processing lpm_lookup process_pkt) bsz_wr m (lp₁, net₁, ()) with
    | error e => trivial
    | ok t => exact (worker_pkt_received once).trans received
  rw [run] at all
  exact ⟨all.2, all.1⟩

theorem worker_flush_kept (run : app_lcore_worker_flush lp net = .ok (lp', net')) :
    WorkerKept lp lp' ∧ net'.received = net.received := by
  refine foldlM_ok (fun _ (t : Worker Arrival × Net Arrival) => WorkerKept lp t.1 ∧ t.2.received = net.received) ?_
    ⟨⟨rfl, rfl, rfl⟩, rfl⟩ run
  rintro port - ⟨lp₁, net₁⟩ ⟨lp₂, net₂⟩ ⟨kept, received⟩ once
  simp only [worker_flush_port] at once
  split_ifs at once
  · cases once
    exact ⟨kept, received⟩
  · simp only [bind_eq_ok] at once
    obtain ⟨⟨out, net₃⟩, flushed, once⟩ := once
    cases once
    exact ⟨⟨kept.rings_in, kept.rings_out, kept.worker_id⟩, (flush_received flushed).trans received⟩

end Functions

/-! ### Steps -/

/-- What no step changes of an lcore. -/
inductive Fixed : Lcore Arrival → Lcore Arrival → Prop
  | disabled : Fixed .disabled .disabled
  | io {rx rx' : Rx Arrival} {tx tx' : Tx Arrival} (receiving : RxKept rx rx') (sending : TxKept tx tx') :
      Fixed (.io rx tx) (.io rx' tx')
  | worker {lp lp' : Worker Arrival} (working : WorkerKept lp lp') : Fixed (.worker lp) (.worker lp')

theorem Fixed.refl (p : Lcore Arrival) : Fixed p p := by
  cases p with
  | disabled => exact .disabled
  | io rx tx => exact .io ⟨rfl, rfl⟩ ⟨rfl, rfl⟩
  | worker lp => exact .worker ⟨rfl, rfl, rfl⟩

theorem Fixed.trans {p q r : Lcore Arrival} (first : Fixed p q) (second : Fixed q r) : Fixed p r := by
  cases first with
  | disabled => exact second
  | io receiving sending =>
    cases second with
    | io receiving' sending' =>
      exact .io ⟨receiving'.rings.trans receiving.rings, receiving'.nic_queues.trans receiving.nic_queues⟩
        ⟨sending'.nic_ports.trans sending.nic_ports, sending'.rings.trans sending.rings⟩
  | worker working =>
    cases second with
    | worker working' =>
      exact .worker ⟨working'.rings_in.trans working.rings_in, working'.rings_out.trans working.rings_out,
        working'.worker_id.trans working.worker_id⟩

theorem Fixed.role {p p' : Lcore Arrival} (fixed : Fixed p p') : Startup.role p' = Startup.role p := by
  cases fixed with
  | disabled => rfl
  | worker => rfl
  | @io rx rx' tx tx' receiving sending =>
    show Role.io rx'.nic_queues tx'.nic_ports = .io rx.nic_queues tx.nic_ports
    rw [receiving.nic_queues, sending.nic_ports]

private theorem put_fixed {l : Nat} {p : Lcore Arrival} {net : Net Arrival} (fixed : Fixed (s.lcore_params l) p) (l' : Nat) :
    Fixed (s.lcore_params l') ((put s l p net).lcore_params l') := by
  show Fixed _ (Function.update s.lcore_params l p l')
  by_cases same : l' = l
  · rw [same, Function.update_self]
    exact fixed
  · rw [Function.update_of_ne same]
    exact .refl _

/-- Queues, ports, rings and ids stay, and what is received comes over a queue. -/
theorem ran_fixed {plan : Plan} (wired : Wired plan s.lcore_params) (ran : Ran lpm_lookup s a s') :
    (∀ l, Fixed (s.lcore_params l) (s'.lcore_params l)) ∧ s'.app = s.app ∧
      ∃ more, s'.net.received = s.net.received ++ more ∧
        ∀ m ∈ more, ∃ rx tx queue, s.lcore_params m.lcore = .io rx tx ∧ (m.port, queue) ∈ rx.nic_queues := by
  cases ran with
  | @io_rx l packets rx rx' tx net is run =>
    obtain ⟨kept, more, received, queued⟩ := io_rx_kept run
    refine ⟨put_fixed (by rw [is]; exact .io kept ⟨rfl, rfl⟩), rfl, more, received, fun m member => ?_⟩
    obtain ⟨own, queue, listed⟩ := queued m member
    exact ⟨rx, tx, queue, own ▸ is, listed⟩
  | @io_rx_flush l rx rx' tx net is run =>
    obtain ⟨kept, received⟩ := io_rx_flush_kept run
    exact ⟨put_fixed (by rw [is]; exact .io kept ⟨rfl, rfl⟩), rfl, [], received.trans (List.append_nil _).symm, by simp⟩
  | @io_tx l tx_burst rx tx tx' net is run =>
    obtain ⟨kept, received⟩ := io_tx_kept run
    exact ⟨put_fixed (by rw [is]; exact .io ⟨rfl, rfl⟩ kept), rfl, [], received.trans (List.append_nil _).symm, by simp⟩
  | @io_tx_flush l tx_burst rx tx tx' net is run =>
    obtain ⟨kept, received⟩ := io_tx_flush_kept run
    exact ⟨put_fixed (by rw [is]; exact .io ⟨rfl, rfl⟩ kept), rfl, [], received.trans (List.append_nil _).symm, by simp⟩
  | @worker l process_pkt lp lp' net is run =>
    obtain ⟨kept, received⟩ := worker_kept (wired.rings_in is) (wired.rings_out is) run
    exact ⟨put_fixed (by rw [is]; exact .worker kept), rfl, [], received.trans (List.append_nil _).symm, by simp⟩
  | @worker_flush l lp lp' net is run =>
    obtain ⟨kept, received⟩ := worker_flush_kept run
    exact ⟨put_fixed (by rw [is]; exact .worker kept), rfl, [], received.trans (List.append_nil _).symm, by simp⟩

end Steps

/-! ### Runs -/

/-- What a run from `start` keeps. -/
structure Going (app : Params) (lpm_lookup : Nat → Option Nat) (start s : System Arrival) : Prop where
  inv : Inv app (plan start.lcore_params) lpm_lookup s
  fixed : ∀ l, Fixed (start.lcore_params l) (s.lcore_params l)
  queued : ∀ m ∈ s.net.received, ∃ rx tx queue, start.lcore_params m.lcore = .io rx tx ∧ (m.port, queue) ∈ rx.nic_queues

section Going
variable {app : Params} {lpm_lookup : Nat → Option Nat} {start s s' : System Arrival}

theorem Going.first {roles : Nat → Role} (receiving : 0 < app.burst_size_io_rx_write)
    (working : 0 < app.burst_size_worker_write) (ready : app_init app roles = .ok start) :
    Going app lpm_lookup start start := by
  refine ⟨start_inv lpm_lookup receiving working ready, fun _ => .refl _, fun m member => ?_⟩
  rw [(app_init_wired ready).2.received] at member
  cases member

theorem Going.step {a : Act} (going : Going app lpm_lookup start s) (step : Steps lpm_lookup s a s') :
    Going app lpm_lookup start s' := by
  obtain ⟨fixed, -, more, received, queued⟩ := ran_fixed going.inv.wired (act_ran step)
  refine ⟨act_inv going.inv step, fun l => (going.fixed l).trans (fixed l), ?_⟩
  rw [received]
  refine List.forall_mem_append.mpr ⟨going.queued, fun m member => ?_⟩
  obtain ⟨rx, tx, queue, is, listed⟩ := queued m member
  have was := going.fixed m.lcore
  rw [is] at was
  cases kind : start.lcore_params m.lcore with
  | disabled => rw [kind] at was; cases was
  | worker lp => rw [kind] at was; cases was
  | io rx₀ tx₀ =>
    rw [kind] at was
    cases was with
    | io receiving sending => exact ⟨rx₀, tx₀, queue, rfl, receiving.nic_queues ▸ listed⟩

end Going
end Shardb.Steps
