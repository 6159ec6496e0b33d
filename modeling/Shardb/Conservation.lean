import Shardb.Runs
import Shardb.Transit

/-!
# Conservation and order

Whatever the lcores do in whatever order, every mbuf received is in one place,
and those that take the same way are sent in their order of arrival
(`Inv`, `conserved_in_order`).
-/

namespace Shardb.Conservation
open Shardb.Flow Shardb.Rings Shardb.Lcores Shardb.Wiring Shardb.Runs Shardb.Transit
open Shardb.Loops (bind_eq_ok)

/-! ### The server at work -/

/-- One call of a function by its lcore: what the `i`-th queue receives, what
    `process_pkt` returns, how much a port takes of a burst. -/
inductive Act
  | io_rx (lcore : Nat) (packets : Nat → List (List UInt8))
  | io_rx_flush (lcore : Nat)
  | io_tx (lcore : Nat) (tx_burst : Nat → List Arrival → Nat)
  | io_tx_flush (lcore : Nat) (tx_burst : Nat → List Arrival → Nat)
  | worker (lcore : Nat) (process_pkt : Arrival → Int)
  | worker_flush (lcore : Nat)

def put (s : System Arrival) (lcore : Nat) (params : Lcore Arrival) (net : Net Arrival) : System Arrival :=
  { s with lcore_params := Function.update s.lcore_params lcore params, net := net }

/-- One step of the server; an lcore calls the functions of its own kind only. -/
def act (lpm_lookup : Nat → Option Nat) (s : System Arrival) : Act → Result (System Arrival)
  | .io_rx l packets =>
    match s.lcore_params l with
    | .io rx tx => do
      let n_workers ← app_get_lcores_worker s.lcore_params
      let rx_burst := fun port _ i (net : Net Arrival) => arrive l port net.received.length (packets i)
      let (rx, net) ← app_lcore_io_rx rx_burst Arrival.data n_workers s.app.burst_size_io_rx_read
        s.app.burst_size_io_rx_write s.app.pos_lb rx s.net
      return put s l (.io rx tx) net
    | _ => .error .panic
  | .io_rx_flush l =>
    match s.lcore_params l with
    | .io rx tx => do
      let n_workers ← app_get_lcores_worker s.lcore_params
      let (rx, net) ← app_lcore_io_rx_flush n_workers rx s.net
      return put s l (.io rx tx) net
    | _ => .error .panic
  | .io_tx l tx_burst =>
    match s.lcore_params l with
    | .io rx tx => do
      let n_workers ← app_get_lcores_worker s.lcore_params
      let (tx, net) ← app_lcore_io_tx tx_burst n_workers s.app.burst_size_io_tx_read s.app.burst_size_io_tx_write tx s.net
      return put s l (.io rx tx) net
    | _ => .error .panic
  | .io_tx_flush l tx_burst =>
    match s.lcore_params l with
    | .io rx tx => do
      let (tx, net) ← app_lcore_io_tx_flush tx_burst tx s.net
      return put s l (.io rx tx) net
    | _ => .error .panic
  | .worker l process_pkt =>
    match s.lcore_params l with
    | .worker lp => do
      let (lp, net, _) ← app_lcore_worker (processing lpm_lookup process_pkt) s.app.burst_size_worker_read
        s.app.burst_size_worker_write (lp, s.net, ())
      return put s l (.worker lp) net
    | _ => .error .panic
  | .worker_flush l =>
    match s.lcore_params l with
    | .worker lp => do
      let (lp, net) ← app_lcore_worker_flush lp s.net
      return put s l (.worker lp) net
    | _ => .error .panic

def Steps (lpm_lookup : Nat → Option Nat) (s : System Arrival) (a : Act) (s' : System Arrival) : Prop :=
  act lpm_lookup s a = .ok s'

/-- The buffers of a site. -/
def buffers (lcores : Nat → Lcore Arrival) : Site → Nat → List Arrival
  | .rx l, i =>
    match lcores l with
    | .io rx _ => (rx.mbuf_out i).items
    | _ => []
  | .tx l, i =>
    match lcores l with
    | .io _ tx => (tx.mbuf_out i).items
    | _ => []
  | .worker l, i =>
    match lcores l with
    | .worker lp => (lp.mbuf_out i).items
    | _ => []

/-- What the places hold. -/
def stock (s : System Arrival) : Stock Place Arrival where
  arrived := s.net.received
  held
    | .hand _ => []
    | .out site i => buffers s.lcore_params site i
    | .ring id => (s.net.rings id).items
    | .transmitted port => s.net.transmitted port
    | .freed => s.net.freed

/-! ### Steps -/

section Put
variable {s : System Arrival} {l : Nat} {params : Lcore Arrival} {site : Site} {outs : Nat → List Arrival}
  {net : Net Arrival}

theorem stock_eq (own : ∀ i, buffers s.lcore_params site i = outs i) :
    stock s = during (stock s).held site outs s.net [] := by
  show Stock.mk _ _ = Stock.mk _ _
  congr 1
  funext place
  cases place with
  | hand site' => simp [stock]
  | out site' i =>
    by_cases same : site' = site
    · simp [same, own]
    · simp [same, stock]
  | ring id => rfl
  | transmitted port => rfl
  | freed => rfl

theorem stock_put (own : ∀ i, buffers (Function.update s.lcore_params l params) site i = outs i)
    (others : ∀ site', site' ≠ site → ∀ i, buffers (Function.update s.lcore_params l params) site' i =
      buffers s.lcore_params site' i) : stock (put s l params net) = during (stock s).held site outs net [] := by
  show Stock.mk _ _ = Stock.mk _ _
  congr 1
  funext place
  cases place with
  | hand site' => simp [stock]
  | out site' i =>
    by_cases same : site' = site
    · subst same
      simp [put, own]
    · simp [same, stock, put, others site' same]
  | ring id => rfl
  | transmitted port => rfl
  | freed => rfl

end Put

section Buffers
variable {lcores : Nat → Lcore Arrival} {l : Nat} {rx rx' : Rx Arrival} {tx tx' : Tx Arrival} {lp lp' : Worker Arrival}

private theorem buffers_away (params : Lcore Arrival) {site : Site}
    (away : site ≠ .rx l ∧ site ≠ .tx l ∧ site ≠ .worker l) (i : Nat) :
    buffers (Function.update lcores l params) site i = buffers lcores site i := by
  obtain ⟨notRx, notTx, notWorker⟩ := away
  cases site with
  | rx l' => simp only [buffers, Function.update_of_ne (show l' ≠ l by rintro rfl; exact notRx rfl)]
  | tx l' => simp only [buffers, Function.update_of_ne (show l' ≠ l by rintro rfl; exact notTx rfl)]
  | worker l' => simp only [buffers, Function.update_of_ne (show l' ≠ l by rintro rfl; exact notWorker rfl)]

private theorem buffers_rx (is : lcores l = .io rx tx) {site : Site} (other : site ≠ .rx l) (i : Nat) :
    buffers (Function.update lcores l (.io rx' tx)) site i = buffers lcores site i := by
  by_cases notTx : site = .tx l
  · subst notTx
    simp only [buffers, Function.update_self, is]
  · by_cases notWorker : site = .worker l
    · subst notWorker
      simp only [buffers, Function.update_self, is]
    · exact buffers_away _ ⟨other, notTx, notWorker⟩ i

private theorem buffers_tx (is : lcores l = .io rx tx) {site : Site} (other : site ≠ .tx l) (i : Nat) :
    buffers (Function.update lcores l (.io rx tx')) site i = buffers lcores site i := by
  by_cases notRx : site = .rx l
  · subst notRx
    simp only [buffers, Function.update_self, is]
  · by_cases notWorker : site = .worker l
    · subst notWorker
      simp only [buffers, Function.update_self, is]
    · exact buffers_away _ ⟨notRx, other, notWorker⟩ i

theorem buffers_worker (is : lcores l = .worker lp) {site : Site} (other : site ≠ .worker l) (i : Nat) :
    buffers (Function.update lcores l (.worker lp')) site i = buffers lcores site i := by
  by_cases notRx : site = .rx l
  · subst notRx
    simp only [buffers, Function.update_self, is]
  · by_cases notTx : site = .tx l
    · subst notTx
      simp only [buffers, Function.update_self, is]
    · exact buffers_away _ ⟨notRx, notTx, other⟩ i

end Buffers

/-- The network of a plan, with as many workers. -/
abbrev networkOf (app : Params) (plan : Plan) (lpm_lookup : Nat → Option Nat) : Network Place Arrival (Nat × Nat × Nat) :=
  network plan lpm_lookup plan.workers.length app.pos_lb

/-- What the steps need, and leave. -/
structure Tidy (app : Params) (plan : Plan) (s : System Arrival) : Prop where
  params : s.app = app
  wired : Wired plan s.lcore_params
  numbered : Numbered s.net
  receiving : ∀ {l rx tx}, s.lcore_params l = .io rx tx → Short app.burst_size_io_rx_write rx.toOutputs

/-- What holds between the steps. -/
structure Inv (app : Params) (plan : Plan) (lpm_lookup : Nat → Option Nat) (s : System Arrival) : Prop where
  params : s.app = app
  wired : Wired plan s.lcore_params
  sound : Sound (networkOf app plan lpm_lookup) (stock s)
  numbered : Numbered s.net
  receiving : ∀ {l rx tx}, s.lcore_params l = .io rx tx → Short app.burst_size_io_rx_write rx.toOutputs
  working : ∀ {w lp}, s.lcore_params w = .worker lp → Short app.burst_size_worker_write lp.toOutputs

/-- What a step has done: some moves, and no worker's buffer has come to its burst
    size. -/
structure Moved (app : Params) (plan : Plan) (lpm_lookup : Nat → Option Nat) (s s' : System Arrival) : Prop where
  tidy : Tidy app plan s'
  moves : Moves (networkOf app plan lpm_lookup) (stock s) (stock s')
  working : ∀ {w lp'}, s'.lcore_params w = .worker lp' →
    ∃ lp, s.lcore_params w = .worker lp ∧ Shorter app.burst_size_worker_write lp.toOutputs lp'.toOutputs

section Steps
variable {app : Params} {plan : Plan} {lpm_lookup : Nat → Option Nat} {s s' : System Arrival} {l : Nat}

theorem Inv.tidy (inv : Inv app plan lpm_lookup s) : Tidy app plan s :=
  ⟨inv.params, inv.wired, inv.numbered, inv.receiving⟩

/-- An lcore at work on its own buffers. -/
abbrev BusyIn (app : Params) (plan : Plan) (lpm_lookup : Nat → Option Nat) (s : System Arrival) (site : Site)
    (out : Outputs Arrival) (net : Net Arrival) : Prop :=
  Busy (networkOf app plan lpm_lookup) (stock s) (stock s).held site out net []

private theorem busy_start {site : Site} {out : Outputs Arrival} (tidy : Tidy app plan s)
    (own : ∀ i, buffers s.lcore_params site i = items out i) : BusyIn app plan lpm_lookup s site out s.net := by
  refine ⟨?_, tidy.numbered⟩
  rw [← stock_eq own]

/-- What a site has done is put back. -/
private theorem Tidy.put (tidy : Tidy app plan s) {params : Lcore Arrival} {site : Site} {out : Outputs Arrival}
    {net : Net Arrival} (wired : Wired plan (Function.update s.lcore_params l params))
    (own : ∀ i, buffers (Function.update s.lcore_params l params) site i = items out i)
    (others : ∀ site', site' ≠ site → ∀ i, buffers (Function.update s.lcore_params l params) site' i =
      buffers s.lcore_params site' i)
    (busy : BusyIn app plan lpm_lookup s site out net)
    (receiving : ∀ {rx tx}, params = .io rx tx → Short app.burst_size_io_rx_write rx.toOutputs)
    (working : ∀ {lp'}, params = .worker lp' →
      ∃ lp, s.lcore_params l = .worker lp ∧ Shorter app.burst_size_worker_write lp.toOutputs lp'.toOutputs) :
    Moved app plan lpm_lookup s (put s l params net) := by
  refine ⟨⟨tidy.params, wired, busy.numbered, ?_⟩, ?_, ?_⟩
  · intro l' rx tx here
    change Function.update s.lcore_params l params l' = _ at here
    by_cases same : l' = l
    · rw [same, Function.update_self] at here
      exact receiving here
    · rw [Function.update_of_ne same] at here
      exact tidy.receiving here
  · rw [stock_put own others]
    exact busy.moves
  · intro w lp here
    change Function.update s.lcore_params l params w = _ at here
    by_cases same : w = l
    · rw [same, Function.update_self] at here
      rw [same]
      exact working here
    · rw [Function.update_of_ne same] at here
      exact ⟨lp, here, fun _ short => short⟩

private theorem Tidy.put_rx (tidy : Tidy app plan s) {rx rx' : Rx Arrival} {tx : Tx Arrival} {net : Net Arrival}
    (is : s.lcore_params l = .io rx tx)
    (done : BusyIn app plan lpm_lookup s (.rx l) rx'.toOutputs net ∧
      Short app.burst_size_io_rx_write rx'.toOutputs ∧ RxKept rx rx') :
    Moved app plan lpm_lookup s (Conservation.put s l (.io rx' tx) net) := by
  obtain ⟨busy, short, kept⟩ := done
  have wired := tidy.wired.setIo is kept.rings kept.nic_queues rfl fun port k id => tidy.wired.tx_rings is
  refine tidy.put wired (fun i => ?_) (fun site other i => buffers_rx is other i) busy ?_ ?_
  · simp only [buffers, Function.update_self]
    rfl
  · rintro _ _ ⟨⟩
    exact short
  · rintro _ ⟨⟩

private theorem Tidy.put_tx (tidy : Tidy app plan s) {rx : Rx Arrival} {tx tx' : Tx Arrival} {net : Net Arrival}
    (is : s.lcore_params l = .io rx tx)
    (done : BusyIn app plan lpm_lookup s (.tx l) tx'.toOutputs net ∧ TxKept tx tx') :
    Moved app plan lpm_lookup s (Conservation.put s l (.io rx tx') net) := by
  obtain ⟨busy, kept⟩ := done
  have wired := tidy.wired.setIo is rfl rfl kept.nic_ports fun port k id here => tidy.wired.tx_rings is (kept.rings ▸ here)
  refine tidy.put wired (fun i => ?_) (fun site other i => buffers_tx is other i) busy ?_ ?_
  · simp only [buffers, Function.update_self]
    rfl
  · rintro _ _ ⟨⟩
    exact tidy.receiving is
  · rintro _ ⟨⟩

private theorem Tidy.put_worker (tidy : Tidy app plan s) {lp lp' : Worker Arrival} {net : Net Arrival}
    (is : s.lcore_params l = .worker lp)
    (done : BusyIn app plan lpm_lookup s (.worker l) lp'.toOutputs net ∧
      Shorter app.burst_size_worker_write lp.toOutputs lp'.toOutputs ∧ WorkerKept lp lp') :
    Moved app plan lpm_lookup s (Conservation.put s l (.worker lp') net) := by
  obtain ⟨busy, shorter, kept⟩ := done
  have wired := tidy.wired.setWorker is kept.worker_id kept.rings_in fun port id here =>
    tidy.wired.rings_out is (kept.rings_out ▸ here)
  refine tidy.put wired (fun i => ?_) (fun site other i => buffers_worker is other i) busy ?_ ?_
  · simp only [buffers, Function.update_self]
    rfl
  · rintro _ _ ⟨⟩
  · rintro _ ⟨⟩
    exact ⟨lp, is, shorter⟩

/-- The mbufs a worker's step would forward find room. -/
def Roomy (app : Params) (lpm_lookup : Nat → Option Nat) (s : System Arrival) (a : Act) : Prop :=
  ∀ l process_pkt lp, a = .worker l process_pkt → s.lcore_params l = .worker lp →
    Room lpm_lookup process_pkt app.burst_size_worker_write lp.toOutputs
      (taken app.burst_size_worker_read lp.rings_in s.net)

/-- An I/O lcore's functions run on I/O lcores only, and a worker's on workers. -/
theorem act_io {p : Lcore Arrival} {f : Rx Arrival → Tx Arrival → Result (System Arrival)} {answer : Result (System Arrival)}
    (step : (match p with | .io rx tx => f rx tx | _ => .error .panic) = answer) (going : answer ≠ .error .panic) :
    ∃ rx tx, p = .io rx tx ∧ f rx tx = answer := by
  cases p with
  | disabled => exact absurd step.symm going
  | io rx tx => exact ⟨rx, tx, rfl, step⟩
  | worker lp => exact absurd step.symm going

theorem act_worker {p : Lcore Arrival} {f : Worker Arrival → Result (System Arrival)} {answer : Result (System Arrival)}
    (step : (match p with | .worker lp => f lp | _ => .error .panic) = answer) (going : answer ≠ .error .panic) :
    ∃ lp, p = .worker lp ∧ f lp = answer := by
  cases p with
  | disabled => exact absurd step.symm going
  | io rx tx => exact absurd step.symm going
  | worker lp => exact ⟨lp, rfl, step⟩

theorem act_moves {a : Act} (tidy : Tidy app plan s) (room : Roomy app lpm_lookup s a)
    (step : Steps lpm_lookup s a s') : Moved app plan lpm_lookup s s' := by
  have count : ∀ {n}, app_get_lcores_worker s.lcore_params = .ok n → n = plan.workers.length := by
    intro n counted
    rw [← tidy.wired.planned]
    simp only [app_get_lcores_worker] at counted
    split at counted
    · cases counted
    · cases counted
      rfl
  cases a with
  | io_rx l packets =>
    obtain ⟨rx, tx, is, step⟩ := act_io step (by simp)
    simp only [bind_eq_ok] at step
    obtain ⟨n, counted, ⟨rx', net'⟩, run, step⟩ := step
    cases step
    obtain rfl := count counted
    rw [tidy.params] at run
    refine tidy.put_rx is (io_rx_busy (tidy.wired.rings is) (tidy.receiving is) (busy_start tidy fun i => ?_) run)
    simp only [buffers, is]
    rfl
  | io_rx_flush l =>
    obtain ⟨rx, tx, is, step⟩ := act_io step (by simp)
    simp only [bind_eq_ok] at step
    obtain ⟨n, counted, ⟨rx', net'⟩, run, step⟩ := step
    cases step
    obtain rfl := count counted
    refine tidy.put_rx is (io_rx_flush_busy (tidy.wired.rings is) (tidy.receiving is) (busy_start tidy fun i => ?_) run)
    simp only [buffers, is]
    rfl
  | io_tx l tx_burst =>
    obtain ⟨rx, tx, is, step⟩ := act_io step (by simp)
    simp only [bind_eq_ok] at step
    obtain ⟨n, counted, ⟨tx', net'⟩, run, step⟩ := step
    cases step
    obtain rfl := count counted
    refine tidy.put_tx is (io_tx_busy (tidy.wired.tx_rings is) (busy_start tidy fun i => ?_) run)
    simp only [buffers, is]
    rfl
  | io_tx_flush l tx_burst =>
    obtain ⟨rx, tx, is, step⟩ := act_io step (by simp)
    simp only [bind_eq_ok] at step
    obtain ⟨⟨tx', net'⟩, run, step⟩ := step
    cases step
    refine tidy.put_tx is (io_tx_flush_busy (busy_start tidy fun i => ?_) run)
    simp only [buffers, is]
    rfl
  | worker l process_pkt =>
    obtain ⟨lp, is, step⟩ := act_worker step (by simp)
    simp only [bind_eq_ok] at step
    obtain ⟨⟨lp', net', _⟩, run, step⟩ := step
    cases step
    rw [tidy.params] at run
    refine tidy.put_worker is (worker_busy (tidy.wired.rings_in is) (tidy.wired.rings_out is) (room l process_pkt lp rfl is)
      (busy_start tidy fun i => ?_) run)
    simp only [buffers, is]
    rfl
  | worker_flush l =>
    obtain ⟨lp, is, step⟩ := act_worker step (by simp)
    simp only [bind_eq_ok] at step
    obtain ⟨⟨lp', net'⟩, run, step⟩ := step
    cases step
    have start : BusyIn app plan lpm_lookup s (.worker l) lp.toOutputs s.net := busy_start tidy fun i => by
      simp only [buffers, is]
      rfl
    obtain ⟨busy, shorter, kept⟩ := worker_flush_busy (tidy.wired.rings_out is) start run
    exact tidy.put_worker is ⟨busy, shorter _, kept⟩

theorem act_inv {a : Act} (inv : Inv app plan lpm_lookup s) (step : Steps lpm_lookup s a s') :
    Inv app plan lpm_lookup s' := by
  obtain ⟨tidy, moves, working⟩ := act_moves inv.tidy (fun l process_pkt lp _ is m _ _ => inv.working is _) step
  refine ⟨tidy.params, tidy.wired, moves_sound inv.sound moves, tidy.numbered, tidy.receiving, ?_⟩
  intro w lp' is
  obtain ⟨lp, before, shorter⟩ := working is
  exact fun i => shorter i (inv.working before i)

end Steps

/-! ### Runs -/

/-- Before one of the steps the mbuf was in the ring. -/
def Passed (trail : List (System Arrival × Act × System Arrival)) (id : RingId) (m : Arrival) : Prop :=
  ∃ e ∈ trail, m ∈ (e.1.net.rings id).items

theorem start_inv {app : Params} {roles : Nat → Role} {start : System Arrival} (lpm_lookup : Nat → Option Nat)
    (receiving : 0 < app.burst_size_io_rx_write) (working : 0 < app.burst_size_worker_write)
    (ready : app_init app roles = .ok start) : Inv app (plan start.lcore_params) lpm_lookup start := by
  obtain ⟨wired, idle⟩ := app_init_wired ready
  refine ⟨idle.app, wired, ?_, ?_, ?_, ?_⟩
  · refine empty_sound idle.received fun place => ?_
    cases place with
    | hand site => rfl
    | out site i =>
      cases site with
      | rx l =>
        show buffers start.lcore_params (.rx l) i = []
        have empty := idle.buffers l
        cases is : start.lcore_params l with
        | disabled => simp only [buffers, is]
        | worker lp => simp only [buffers, is]
        | io rx tx => rw [is] at empty; simp only [buffers, is]; exact empty.1 i
      | tx l =>
        show buffers start.lcore_params (.tx l) i = []
        have empty := idle.buffers l
        cases is : start.lcore_params l with
        | disabled => simp only [buffers, is]
        | worker lp => simp only [buffers, is]
        | io rx tx => rw [is] at empty; simp only [buffers, is]; exact empty.2 i
      | worker l =>
        show buffers start.lcore_params (.worker l) i = []
        have empty := idle.buffers l
        cases is : start.lcore_params l with
        | disabled => simp only [buffers, is]
        | worker lp => rw [is] at empty; simp only [buffers, is]; exact empty i
        | io rx tx => simp only [buffers, is]
    | ring id => exact idle.rings id
    | transmitted port => exact idle.transmitted port
    | freed => exact idle.freed
  · rw [Numbered, idle.received]
    rfl
  · intro l rx tx is i
    have empty := idle.buffers l
    rw [is] at empty
    rw [items, empty.1 i]
    exact receiving
  · intro w lp is i
    have empty := idle.buffers w
    rw [is] at empty
    rw [items, empty i]
    exact working

/-- A ring tells the kind of an mbuf in it: the lcore that received it and the worker. -/
theorem passed_kind {app : Params} {plan : Plan} {lpm_lookup : Nat → Option Nat} {s : System Arrival}
    (inv : Inv app plan lpm_lookup s) {l w : Nat} {m : Arrival} (member : m ∈ (s.net.rings (.rx l w)).items) :
    m.lcore = l ∧ plan.workers[worker_of plan.workers.length app.pos_lb m.data]? = some w := by
  have held : m ∈ (stock s).held (.ring (.rx l w)) := member
  rcases inv.sound.onWay held with on | sink
  · exact ring_rx_on on
  · cases sink

/-- Whatever the lcores do in whatever order, every mbuf that was received is in
    one place, once; and mbufs that came over the same two rings are sent in their
    order of arrival. -/
theorem conserved_in_order {app : Params} {roles : Nat → Role} {start : System Arrival}
    {lpm_lookup : Nat → Option Nat} (receiving : 0 < app.burst_size_io_rx_write)
    (working : 0 < app.burst_size_worker_write) (ready : app_init app roles = .ok start)
    {trail : List (System Arrival × Act × System Arrival)} {last : System Arrival}
    (run : Run (Steps lpm_lookup) start trail last) :
    Conserved (stock last) ∧
    ∀ l w port (mbufs : List Arrival), mbufs.Sublist (last.net.transmitted port) →
      (∀ m ∈ mbufs, Passed trail (.rx l w) m ∧ Passed trail (.tx w port) m) → mbufs.Sublist last.net.received := by
  set P := plan start.lcore_params with planIs
  have first : Inv app P lpm_lookup start := start_inv lpm_lookup receiving working ready
  have keeps : ∀ s a s', Inv app P lpm_lookup s → Steps lpm_lookup s a s' → Inv app P lpm_lookup s' :=
    fun s a s' inv step => act_inv inv step
  have inv : Inv app P lpm_lookup last := run_keeps (fun _ s => Inv app P lpm_lookup s) (fun _ _ => True)
    (fun _ s a s' inv step _ => keeps s a s' inv step) first run fun _ _ => trivial
  have before := run_holds (Inv app P lpm_lookup) keeps first run
  refine ⟨inv.sound.conserved, fun l w port mbufs sent passed => ?_⟩
  cases mbufs with
  | nil => exact List.nil_sublist _
  | cons m₀ rest =>
    have kinds : ∀ m ∈ m₀ :: rest, m.lcore = l ∧
        P.workers[worker_of P.workers.length app.pos_lb m.data]? = some w ∧
        .transmitted port ∈ (networkOf app P lpm_lookup).way ((networkOf app P lpm_lookup).kind m) := by
      intro m member
      obtain ⟨⟨e, past, inRing⟩, -⟩ := passed m member
      obtain ⟨lcore, worker⟩ := passed_kind (before e past).1 inRing
      have held : m ∈ (stock last).held (.transmitted port) := sent.subset member
      rcases inv.sound.onWay held with on | sink
      · exact ⟨lcore, worker, on⟩
      · cases sink
    have nodup : P.workers.Nodup := workers_nodup _
    obtain ⟨lcore₀, worker₀, on₀⟩ := kinds m₀ List.mem_cons_self
    refine inv.sound.inOrder on₀ sent fun m member => ?_
    obtain ⟨lcore, worker, on⟩ := kinds m member
    have sameWorker := (List.getElem?_inj (List.getElem?_eq_some_iff.mp worker).1 nodup).mp (worker.trans worker₀.symm)
    show (m.lcore, worker_of P.workers.length app.pos_lb m.data, out_port lpm_lookup m) = (m₀.lcore, _, _)
    have samePort : out_port lpm_lookup m = out_port lpm_lookup m₀ := (transmitted_on on).trans (transmitted_on on₀).symm
    rw [lcore, lcore₀, sameWorker, samePort]

/-- One I/O lcore, which receives and sends, and one worker; all bursts are 2. -/
def small : Params :=
  { nic_tx_port_mask := fun port => port == 0, ring_rx_size := 8, ring_tx_size := 8, burst_size_io_rx_read := 2
    burst_size_io_rx_write := 2, burst_size_io_tx_read := 2, burst_size_io_tx_write := 2, burst_size_worker_read := 2
    burst_size_worker_write := 2, pos_lb := 43 }

def smallRoles (l : Nat) : Role := if l = 0 then .io [(0, 0)] [0] else if l = 1 then .worker else .disabled

/-- Two packets go through. -/
theorem two_conserved_in_order :
    ∃ start trail last, app_init small smallRoles = .ok start ∧ Run (Steps fun _ => none) start trail last ∧
      (last.net.transmitted 0).map Arrival.serial = [0, 1] ∧ Conserved (stock last) ∧
      ∀ l w port (mbufs : List Arrival), mbufs.Sublist (last.net.transmitted port) →
        (∀ m ∈ mbufs, Passed trail (.rx l w) m ∧ Passed trail (.tx w port) m) → mbufs.Sublist last.net.received := by
  have played : (do
      let s ← app_init small smallRoles
      let s ← act (fun _ => none) s (.io_rx 0 fun _ => [[], []])
      let s ← act (fun _ => none) s (.worker 1 fun _ => 0)
      let s ← act (fun _ => none) s (.io_tx 0 fun _ burst => burst.length)
      return (s.net.transmitted 0).map Arrival.serial) = .ok [0, 1] := by decide +kernel
  obtain ⟨start, ready, played⟩ := bind_eq_ok.mp played
  obtain ⟨s₁, one, played⟩ := bind_eq_ok.mp played
  obtain ⟨s₂, two, played⟩ := bind_eq_ok.mp played
  obtain ⟨last, three, played⟩ := bind_eq_ok.mp played
  have run : Run (Steps fun _ => none) start _ last := ((Run.stay.next one).next two).next three
  obtain ⟨conserved, inOrder⟩ := conserved_in_order (by decide) (by decide) ready run
  exact ⟨start, _, last, ready, run, Except.ok.inj played, conserved, inOrder⟩

end Shardb.Conservation
