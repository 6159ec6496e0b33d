import Shardb.Startup

/-!
# A command line that is accepted starts

The rings that `app_init` makes need room, and lcores to send to the ports. The
options leave such lcores, so that sixteen workers and sixteen receiving lcores
are all that `app_init` asks of an accepted command line (`app_init_goes`).
-/

namespace Shardb.Boot
open Shardb.Bytes (Text)
open Shardb.Loops Shardb.Lcores Shardb.Wiring Shardb.Config Shardb.Options Shardb.CommandLine Shardb.Startup
open Shardb.WorkerIds (app_init_rings_rx_goes)

variable {μ : Type}

/-! ### The rings for sending -/

private theorem setRingTx_here (tx : Tx μ) (port worker_id : Nat) (ring : RingId) :
    (setRingTx tx port worker_id ring).rings port worker_id = some ring := by
  simp [setRingTx]

/-- A ring may be replaced, but is there. -/
private theorem setRingTx_kept {tx : Tx μ} {port' k : Nat} {id : RingId} (there : tx.rings port' k = some id)
    (port worker_id : Nat) (ring : RingId) : ∃ id, (setRingTx tx port worker_id ring).rings port' k = some id := by
  show ∃ id, Function.update tx.rings port (Function.update (tx.rings port) worker_id (some ring)) port' k = some id
  by_cases same : port' = port
  · subst same
    rw [Function.update_self]
    by_cases same' : k = worker_id
    · subst same'
      exact ⟨ring, Function.update_self ..⟩
    · rw [Function.update_of_ne same']
      exact ⟨id, there⟩
  · rw [Function.update_of_ne same]
    exact ⟨id, there⟩

private theorem init_ring_tx_goes {w port : Nat} {s : System μ}
    (finds : ∀ lp, s.lcore_params w = .worker lp → s.app.nic_tx_port_mask port = true →
      lp.worker_id < APP_MAX_WORKER_LCORES ∧ ∃ l, app_get_lcore_for_nic_tx s.lcore_params port = some l) :
    ∃ s', init_ring_tx w port s = .ok s' := by
  rw [init_ring_tx]
  cases kind : s.lcore_params w with
  | disabled => exact ⟨s, rfl⟩
  | io rx tx => exact ⟨s, rfl⟩
  | worker lp =>
    dsimp only
    by_cases mask : s.app.nic_tx_port_mask port = false
    · rw [if_pos mask]
      exact ⟨s, rfl⟩
    · obtain ⟨small, l, found⟩ := finds lp kind (by simpa using mask)
      have sends := List.find?_some found
      obtain ⟨rx, tx, io⟩ := sends_io sends
      have inside : index lp.worker_id APP_MAX_WORKER_LCORES = .ok () := index_eq_ok.mpr small
      rw [if_neg mask, found]
      simp only [io, inside]
      exact ⟨_, rfl⟩

section Made
variable {s s' : System μ} {w port : Nat} (run : init_ring_tx w port s = .ok s')
include run

private theorem init_ring_tx_worker {w' : Nat} {lp' : Worker μ} (is : s'.lcore_params w' = .worker lp') :
    ∃ lp₀, s.lcore_params w' = .worker lp₀ ∧ lp₀.worker_id = lp'.worker_id := by
  rcases init_ring_tx_cases run with ⟨rfl, -⟩ | ⟨lp, l, rx, tx, worker, io, -, rfl⟩
  · exact ⟨lp', is, rfl⟩
  · by_cases here : w' = l
    · subst here
      rw [setLcore_self] at is
      cases is
    · rw [setLcore_other _ _ here] at is
      by_cases here' : w' = w
      · subst here'
        rw [setLcore_self] at is
        cases is
        exact ⟨lp, worker, rfl⟩
      · rw [setLcore_other _ _ here'] at is
        exact ⟨lp', is, rfl⟩

/-- The rings there were before are there. -/
private theorem init_ring_tx_kept {l' port' k : Nat}
    (before : ∃ rx tx id, s.lcore_params l' = .io rx tx ∧ tx.rings port' k = some id) :
    ∃ rx tx id, s'.lcore_params l' = .io rx tx ∧ tx.rings port' k = some id := by
  obtain ⟨rx', tx', ring, io', there⟩ := before
  rcases init_ring_tx_cases run with ⟨rfl, -⟩ | ⟨lp, l, rx, tx, worker, io, -, rfl⟩
  · exact ⟨rx', tx', ring, io', there⟩
  · by_cases here : l' = l
    · subst here
      rw [io] at io'
      cases io'
      obtain ⟨ring', there'⟩ := setRingTx_kept there port lp.worker_id (.tx w port)
      exact ⟨_, _, ring', setLcore_self .., there'⟩
    · have other : l' ≠ w := by
        rintro rfl
        rw [worker] at io'
        cases io'
      rw [setLcore_other _ _ here, setLcore_other _ _ other]
      exact ⟨rx', tx', ring, io', there⟩

end Made

/-- Before the rings of the pairs `rest` are made: a worker has its rings to all other
    enabled ports. -/
structure Serving (s₀ : System μ) (rest : List (Nat × Nat)) (s : System μ) : Prop where
  app : s.app = s₀.app
  wired : Wired (plan s₀.lcore_params) s.lcore_params
  same : ∀ l, role (s.lcore_params l) = role (s₀.lcore_params l)
  served : ∀ w lp port l, s.lcore_params w = .worker lp → s₀.app.nic_tx_port_mask port = true →
    app_get_lcore_for_nic_tx s₀.lcore_params port = some l →
      (w, port) ∈ rest ∨ ∃ rx tx id, s.lcore_params l = .io rx tx ∧ tx.rings port lp.worker_id = some id

section Serving
variable {s₀ : System μ} (few : (workers s₀.lcore_params).length ≤ APP_MAX_WORKER_LCORES)
  (covered : ∀ port, s₀.app.nic_tx_port_mask port = true → ∃ l, app_get_lcore_for_nic_tx s₀.lcore_params port = some l)
include few covered

private theorem Serving.goes (pair : Nat × Nat) (rest : List (Nat × Nat)) (s : System μ)
    (serving : Serving s₀ (pair :: rest) s) : ∃ s', init_ring_tx pair.1 pair.2 s = .ok s' ∧ Serving s₀ rest s' := by
  obtain ⟨app, wired, same, served⟩ := serving
  obtain ⟨w, port⟩ := pair
  have planned : app_get_lcore_for_nic_tx s.lcore_params = app_get_lcore_for_nic_tx s₀.lcore_params :=
    congrArg Plan.tx_lcore wired.planned
  obtain ⟨s', run⟩ : ∃ s', init_ring_tx w port s = .ok s' := by
    refine init_ring_tx_goes fun lp is mask => ?_
    rw [planned]
    rw [app] at mask
    exact ⟨lt_of_lt_of_le (List.getElem?_eq_some_iff.mp (wired.worker_id is)).1 few, covered port mask⟩
  have keeps : s'.app = s.app := by
    rcases init_ring_tx_cases run with ⟨rfl, -⟩ | ⟨-, -, -, -, -, -, -, rfl⟩
    · rfl
    · rfl
  refine ⟨s', run, keeps.trans app, init_ring_tx_wired wired run, fun l => (init_ring_tx_role run l).trans (same l), ?_⟩
  intro w' lp' port' l' is mask found
  obtain ⟨lp₀, was, id⟩ := init_ring_tx_worker run is
  rw [← id]
  rcases served w' lp₀ port' l' was mask found with member | before
  · rcases List.mem_cons.mp member with here | later
    · -- this is the ring that the call makes
      cases here
      rcases init_ring_tx_cases run with ⟨rfl, idle⟩ | ⟨lp, l, rx, tx, worker, io, found₀, rfl⟩
      · rw [app] at idle
        rw [idle lp' is] at mask
        cases mask
      · rw [planned, found] at found₀
        cases found₀
        rw [worker] at was
        cases was
        exact .inr ⟨rx, _, _, setLcore_self .., setRingTx_here ..⟩
    · exact .inl later
  · exact .inr (init_ring_tx_kept run before)

/-- With an lcore for each port the rings are made, and pass the check. -/
theorem app_init_rings_tx_goes (wired : Wired (plan s₀.lcore_params) s₀.lcore_params)
    (inside : ∀ w lp, s₀.lcore_params w = .worker lp → w < APP_MAX_LCORES)
    (small : ∀ port, s₀.app.nic_tx_port_mask port = true → port < APP_MAX_NIC_PORTS)
    (owners : ∀ l nic_queues nic_ports port, role (s₀.lcore_params l) = .io nic_queues nic_ports → port ∈ nic_ports →
      s₀.app.nic_tx_port_mask port = true ∧ app_get_lcore_for_nic_tx s₀.lcore_params port = some l) :
    ∃ s, app_init_rings_tx s₀ = .ok s := by
  have start : Serving s₀ ((List.range APP_MAX_LCORES).flatMap fun w =>
      (List.range APP_MAX_NIC_PORTS).map fun port => (w, port)) s₀ := by
    refine ⟨rfl, wired, fun _ => rfl, fun w lp port l is mask _ => .inl ?_⟩
    refine List.mem_flatMap.mpr ⟨w, List.mem_range.mpr (inside w lp is), ?_⟩
    exact List.mem_map.mpr ⟨port, List.mem_range.mpr (small port mask), rfl⟩
  obtain ⟨s, built, serving⟩ := foldlM_goes (Serving s₀) (Serving.goes few covered) start
  have kinds : workers s.lcore_params = workers s₀.lcore_params := congrArg Plan.workers serving.wired.planned
  have counted : app_get_lcores_worker s.lcore_params = .ok (workers s₀.lcore_params).length := by
    unfold app_get_lcores_worker
    rw [kinds]
    exact if_neg (by omega)
  have checked : (List.range APP_MAX_LCORES).forM (fun lcore =>
      check_rings_tx (workers s₀.lcore_params).length (s.lcore_params lcore)) = .ok ⟨⟩ := by
    refine forM_ok.mpr fun l _ => ?_
    unfold check_rings_tx
    cases kind : s.lcore_params l with
    | disabled => rfl
    | worker lp => rfl
    | io rx tx =>
      refine if_neg fun missing => ?_
      obtain ⟨port, sends, missing⟩ := List.any_eq_true.mp missing
      obtain ⟨k, small, missing⟩ := List.any_eq_true.mp missing
      have is : role (s₀.lcore_params l) = .io rx.nic_queues tx.nic_ports := by
        rw [← serving.same, kind]
        rfl
      obtain ⟨mask, found⟩ := owners l _ _ port is sends
      obtain ⟨w, lp, worker, rfl, -⟩ := serving.wired.worker_at (List.mem_range.mp small)
      rcases serving.served w lp port l worker mask found with bad | ⟨rx', tx', ring, io, there⟩
      · cases bad
      · rw [kind] at io
        cases io
        rw [there] at missing
        cases missing
  refine ⟨s, ?_⟩
  simp only [app_init_rings_tx, bind_eq_ok]
  refine ⟨s, ?_, _, counted, ⟨⟩, checked, rfl⟩
  exact (foldlM_pairs (fun s lcore port => init_ring_tx lcore port s) _ _ _).trans built

end Serving

/-! ### After the command line -/

private theorem sends_role (p : Lcore μ) (port : Nat) :
    p.sends port = true ↔ port ∈ (portsOf (role p)).take APP_MAX_NIC_TX_PORTS_PER_IO_LCORE := by
  cases p with
  | disabled => simp [Lcore.sends, portsOf, role]
  | io rx tx => simp [Lcore.sends, portsOf, role]
  | worker lp => simp [Lcore.sends, portsOf, role]

section Start
variable {app : App} (sound : Sound app)
include sound

/-- The lcore for a port is the one whose list has it. -/
private theorem lcore_for_nic_tx {lcores : Nat → Lcore μ}
    (roles : ∀ l, role (lcores l) = if l < APP_MAX_LCORES then app.lcore_params l else .disabled) {port l : Nat}
    (member : port ∈ portsOf (app.lcore_params l)) : app_get_lcore_for_nic_tx lcores port = some l := by
  have inside : l < APP_MAX_LCORES := sound.inside l fun off => by
    rw [off] at member
    cases member
  have here : (lcores l).sends port = true := by
    rw [sends_role, roles, if_pos inside, List.take_of_length_le (sound.tx_few l)]
    exact member
  obtain ⟨l', is⟩ : ∃ l', (List.range APP_MAX_LCORES).find? (fun l => (lcores l).sends port) = some l' :=
    Option.isSome_iff_exists.mp (List.find?_isSome.mpr ⟨l, List.mem_range.mpr inside, here⟩)
  have sends := List.find?_some is
  have below : l' < APP_MAX_LCORES := List.mem_range.mp (List.mem_of_find?_eq_some is)
  rw [sends_role, roles, if_pos below] at sends
  rw [app_get_lcore_for_nic_tx, is, sound.tx.unique port l' l (List.mem_of_mem_take sends) member]

/-- Sixteen workers and sixteen lcores that receive can be wired. -/
theorem app_init_goes [Inhabited μ] (few : (workers (typed (μ := μ) app.lcore_params)).length ≤ APP_MAX_WORKER_LCORES)
    (few_io : app_get_lcores_io_rx (typed (μ := μ) app.lcore_params) ≤ APP_MAX_IO_LCORES) :
    ∃ s : System μ, app_init app.toParams app.lcore_params = .ok s := by
  set lcores : Nat → Lcore μ := app_assign_worker_ids (typed app.lcore_params) with assigned
  have same : workers lcores = workers (typed (μ := μ) app.lcore_params) := assigned_workers _
  have receiving : app_get_lcores_io_rx lcores = app_get_lcores_io_rx (typed (μ := μ) app.lcore_params) :=
    assigned_receiving _
  obtain ⟨s₁, rx⟩ := app_init_rings_rx_goes (fun l => (assigned_blank app.lcore_params l).2)
    (assigned_outside app.lcore_params) (by rw [← assigned, same]; exact few) (by rw [← assigned, receiving]; exact few_io)
    app.toParams ⟨fun _ => .create 0, [], fun _ => [], []⟩
  obtain ⟨wired, idle⟩ := app_init_rings_rx_wired rx
  have roles : ∀ l, role (s₁.lcore_params l) = if l < APP_MAX_LCORES then app.lcore_params l else .disabled := by
    intro l
    rw [init_rings_rx_all (app_init_rings_rx_ok rx)]
    exact role_completed app.lcore_params _ l
  have kinds : workers s₁.lcore_params = workers lcores := congrArg Plan.workers wired.planned
  obtain ⟨s, tx⟩ : ∃ s, app_init_rings_tx s₁ = .ok s := by
    refine app_init_rings_tx_goes ?_ ?_ ?_ ?_ ?_ ?_
    · rw [kinds, same]
      exact few
    · intro port mask
      rw [idle.app] at mask
      obtain ⟨l, member⟩ := (sound.tx.listed port).mp mask
      exact ⟨l, lcore_for_nic_tx sound roles member⟩
    · rw [wired.planned]
      exact wired
    · intro w lp is
      by_contra beyond
      have here := roles w
      rw [is, if_neg beyond] at here
      cases here
    · intro port mask
      rw [idle.app] at mask
      exact sound.tx_small port mask
    · intro l nic_queues nic_ports port is member
      have inside : l < APP_MAX_LCORES := by
        by_contra beyond
        rw [roles, if_neg beyond] at is
        cases is
      rw [roles, if_pos inside] at is
      have listed : port ∈ portsOf (app.lcore_params l) := by
        rw [is]
        exact member
      rw [idle.app]
      exact ⟨(sound.tx.listed port).mpr ⟨l, listed⟩, lcore_for_nic_tx sound roles listed⟩
  refine ⟨s, ?_⟩
  rw [app_init, bind_eq_ok]
  exact ⟨s₁, rx, tx⟩

end Start
end Shardb.Boot
