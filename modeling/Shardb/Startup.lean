import Shardb.CommandLine
import Shardb.WorkerIds

/-!
# From the command line to the rings

What the options leave of the lcores is kept by `app_init` (`app_init_role`), which
puts the ring between a worker and a port into both their arrays (`Paired`). With
the checks at the end of the parser every packet has a ring to go out by, and one
lcore empties it (`every_packet_served`).
-/

namespace Shardb.Startup
open Shardb.Bytes (Text ascii readBe32)
open Shardb.Server (ip_offset)
open Shardb.Loops Shardb.Lcores Shardb.Wiring Shardb.Config Shardb.Options Shardb.CommandLine

variable {μ : Type}

/-! ### Roles -/

/-- What an lcore is for, from its parameters. -/
def role : Lcore μ → Role
  | .disabled => .disabled
  | .io rx tx => .io rx.nic_queues tx.nic_ports
  | .worker _ => .worker

theorem role_params [Inhabited μ] (r : Role) : role (r.params : Lcore μ) = r := by cases r <;> rfl

private theorem role_withId (id lcore : Nat) (p : Lcore μ) : role (p.withId id lcore) = role p := by cases p <;> rfl

theorem role_add (p : Lcore μ) (out inn : List RingId) : role (p.add out inn) = role p := by cases p <;> rfl

theorem role_io {p : Lcore μ} {nic_queues : List (Nat × Nat)} {nic_ports : List Nat} (is : role p = .io nic_queues nic_ports) :
    ∃ rx tx, p = .io rx tx ∧ rx.nic_queues = nic_queues ∧ tx.nic_ports = nic_ports := by
  cases p with
  | disabled => cases is
  | io rx tx => cases is; exact ⟨rx, tx, rfl, rfl, rfl⟩
  | worker lp => cases is

section Tx
variable {lcore port : Nat} {s s' : System μ}

theorem init_ring_tx_role (run : init_ring_tx lcore port s = .ok s') (l : Nat) :
    role (s'.lcore_params l) = role (s.lcore_params l) := by
  rcases init_ring_tx_cases run with ⟨rfl, -⟩ | ⟨lp, l', rx, tx, worker, io, -, rfl⟩
  · rfl
  · by_cases here : l = l'
    · subst here
      rw [setLcore_self, io]
      rfl
    · rw [setLcore_other _ _ here]
      by_cases here' : l = lcore
      · subst here'
        rw [setLcore_self, worker]
        rfl
      · rw [setLcore_other _ _ here']
        rfl

/-! ### A ring is in both arrays -/

/-- A ring that an I/O lcore empties is the one that its worker fills. -/
def Paired (lcores : Nat → Lcore μ) : Prop :=
  ∀ l rx tx port k w, lcores l = .io rx tx → tx.rings port k = some (.tx w port) →
    ∃ lp, lcores w = .worker lp ∧ lp.rings_out port = some (.tx w port)

/-- What a worker fills it goes on filling. -/
private theorem init_ring_tx_fills (run : init_ring_tx lcore port s = .ok s') {w p : Nat} {lp₀ : Worker μ}
    (is : s.lcore_params w = .worker lp₀) (ring : lp₀.rings_out p = some (.tx w p)) :
    ∃ lp₁, s'.lcore_params w = .worker lp₁ ∧ lp₁.rings_out p = some (.tx w p) := by
  rcases init_ring_tx_cases run with ⟨rfl, -⟩ | ⟨lp, l, rx, tx, worker, io, -, rfl⟩
  · exact ⟨lp₀, is, ring⟩
  · have other : w ≠ l := by
      rintro rfl
      rw [io] at is
      cases is
    rw [setLcore_other _ _ other]
    by_cases same : w = lcore
    · subst same
      rw [worker] at is
      cases is
      refine ⟨_, setLcore_self .., ?_⟩
      show Function.update lp₀.rings_out port (some (.tx w port)) p = some (.tx w p)
      by_cases same' : p = port
      · subst same'
        exact Function.update_self ..
      · rw [Function.update_of_ne same']
        exact ring
    · rw [setLcore_other _ _ same]
      exact ⟨lp₀, is, ring⟩

private theorem init_ring_tx_paired (paired : Paired s.lcore_params) (run : init_ring_tx lcore port s = .ok s') :
    Paired s'.lcore_params := by
  intro l₁ rx₁ tx₁ p k w is ring
  have kept : ∀ {rx tx}, s.lcore_params l₁ = .io rx tx → tx.rings p k = some (.tx w p) →
      ∃ lp, s'.lcore_params w = .worker lp ∧ lp.rings_out p = some (.tx w p) := by
    intro rx tx io before
    obtain ⟨lp₀, is', ring'⟩ := paired l₁ rx tx p k w io before
    exact init_ring_tx_fills run is' ring'
  rcases init_ring_tx_cases run with ⟨rfl, -⟩ | ⟨lp, l, rx, tx, worker, io, -, rfl⟩
  · exact kept is ring
  · by_cases same : l₁ = l
    · subst same
      rw [setLcore_self] at is
      cases is
      rcases setRingTx_cases ring with ⟨rfl, -, made⟩ | before
      · cases made
        have apart : lcore ≠ l₁ := by
          rintro rfl
          rw [io] at worker
          cases worker
        rw [setLcore_other _ _ apart, setLcore_self]
        exact ⟨_, rfl, Function.update_self ..⟩
      · exact kept io before
    · rw [setLcore_other _ _ same] at is
      by_cases same' : l₁ = lcore
      · subst same'
        rw [setLcore_self] at is
        cases is
      · rw [setLcore_other _ _ same'] at is
        exact kept is ring

end Tx

/-! ### After `app_init` -/

section Boot
variable [Inhabited μ] {app : Params} {roles : Nat → Role} {s : System μ}

private theorem app_init_parts (run : app_init app roles = .ok s) : ∃ s₁,
    (∀ l, s₁.lcore_params l = completed (app_assign_worker_ids (typed roles)) (List.range APP_MAX_LCORES) l) ∧
      app_init_rings_tx s₁ = .ok s := by
  obtain ⟨s₁, rx, tx⟩ := bind_eq_ok.mp run
  exact ⟨s₁, init_rings_rx_all (app_init_rings_rx_ok rx), tx⟩

theorem role_completed (roles : Nat → Role) (os : List Nat) (l : Nat) :
    role (completed (app_assign_worker_ids (typed (μ := μ) roles)) os l) =
      if l < APP_MAX_LCORES then roles l else .disabled := by
  rw [completed, role_add, app_assign_worker_ids_eq]
  unfold typed
  by_cases inside : l < APP_MAX_LCORES
  · rw [if_pos inside, role_withId, if_pos inside, if_pos inside, role_params]
  · rw [if_neg inside, if_neg inside, if_neg inside]
    rfl

/-- The lcores are what the options made them. -/
theorem app_init_role (run : app_init app roles = .ok s) (l : Nat) :
    role (s.lcore_params l) = if l < APP_MAX_LCORES then roles l else .disabled := by
  obtain ⟨s₁, complete, tx⟩ := app_init_parts run
  refine app_init_rings_tx_keeps
    (fun s => ∀ l, role (s.lcore_params l) = if l < APP_MAX_LCORES then roles l else .disabled) ?_ (fun l => ?_) tx l
  · intro w port s s' before once l
    rw [init_ring_tx_role once]
    exact before l
  · rw [complete]
    exact role_completed roles _ l

/-- Above sixteen workers the initialisation stops. -/
theorem app_init_few (run : app_init app roles = .ok s) :
    (workers (typed (μ := μ) roles)).length ≤ APP_MAX_WORKER_LCORES := by
  obtain ⟨s₁, rx, -⟩ := bind_eq_ok.mp run
  have kinds : workers s₁.lcore_params = workers (typed (μ := μ) roles) :=
    (congrArg Plan.workers (app_init_rings_rx_wired rx).1.planned).trans (assigned_workers _)
  simp only [app_init_rings_rx, bind_eq_ok] at rx
  obtain ⟨s₂, -, n_workers, counted, ⟨⟩, -, rx⟩ := rx
  cases rx
  unfold app_get_lcores_worker at counted
  dsimp only at counted
  split_ifs at counted with many
  rw [← kinds]
  exact Nat.le_of_not_lt many

private theorem app_init_paired (run : app_init app roles = .ok s) : Paired s.lcore_params := by
  obtain ⟨s₁, complete, tx⟩ := app_init_parts run
  refine app_init_rings_tx_keeps (fun s => Paired s.lcore_params) init_ring_tx_paired ?_ tx
  intro l rx tx port k w is ring
  rw [(completed_io (fun l => (assigned_blank roles l).2) (assigned_outside roles) complete is).1 port k] at ring
  cases ring

/-- The rings that the last loop looks for are there. -/
private theorem app_init_checked (run : app_init app roles = .ok s) {l port k : Nat} {rx : Rx μ} {tx : Tx μ}
    (is : s.lcore_params l = .io rx tx) (sends : port ∈ tx.nic_ports) (worker : k < (workers s.lcore_params).length) :
    ∃ id, tx.rings port k = some id := by
  have below : l < APP_MAX_LCORES := by
    by_contra beyond
    have here := app_init_role run l
    rw [is, if_neg beyond] at here
    cases here
  obtain ⟨s₁, -, run⟩ := app_init_parts run
  simp only [app_init_rings_tx, bind_eq_ok] at run
  obtain ⟨s₂, -, n_workers, counted, ⟨⟩, checked, run⟩ := run
  cases run
  have count : n_workers = (workers s.lcore_params).length := by
    unfold app_get_lcores_worker at counted
    dsimp only at counted
    split_ifs at counted
    cases counted
    rfl
  have fine := forM_ok.mp checked l (List.mem_range.mpr below)
  rw [is, check_rings_tx] at fine
  split_ifs at fine with missing
  cases ring : tx.rings port k with
  | some id => exact ⟨id, rfl⟩
  | none =>
    refine absurd (List.any_eq_true.mpr ⟨port, sends, List.any_eq_true.mpr ⟨k, ?_, ?_⟩⟩) missing
    · exact List.mem_range.mpr (by omega)
    · rw [ring]
      rfl

/-- A port that an I/O lcore sends to has one ring with each worker. -/
theorem rings_served (run : app_init app roles = .ok s) {l w port : Nat} {rx : Rx μ} {tx : Tx μ} {lp : Worker μ}
    (io : s.lcore_params l = .io rx tx) (sends : port ∈ tx.nic_ports) (worker : s.lcore_params w = .worker lp) :
    lp.rings_out port = some (.tx w port) ∧ tx.rings port lp.worker_id = some (.tx w port) := by
  obtain ⟨wired, -⟩ := app_init_wired run
  have id := wired.worker_id worker
  obtain ⟨ring, made⟩ := app_init_checked run io sends (List.getElem?_eq_some_iff.mp id).1
  obtain ⟨w', id', -, rfl⟩ := wired.tx_rings io made
  rw [id] at id'
  cases id'
  obtain ⟨lp', worker', out⟩ := app_init_paired run l rx tx port lp.worker_id w io made
  rw [worker] at worker'
  cases worker'
  exact ⟨out, made⟩

end Boot

/-! ### Packets -/

section Served
variable [Inhabited μ] {σ : Type} {eal : Eal} {opts : List (Option (Opt × Text))} {app : App} {s : System μ}

private theorem listed_io (run : app_init app.toParams app.lcore_params = .ok s)
    (inside : ∀ l, app.lcore_params l ≠ .disabled → l < APP_MAX_LCORES) {l : Nat}
    {nic_queues : List (Nat × Nat)} {nic_ports : List Nat} :
    app.lcore_params l = .io nic_queues nic_ports ↔
      ∃ rx tx, s.lcore_params l = .io rx tx ∧ rx.nic_queues = nic_queues ∧ tx.nic_ports = nic_ports := by
  have here := app_init_role run l
  constructor
  · intro is
    have below : l < APP_MAX_LCORES := inside l (by rw [is]; rintro ⟨⟩)
    rw [if_pos below, is] at here
    exact role_io here
  · rintro ⟨rx, tx, is, rfl, rfl⟩
    rw [is] at here
    by_cases below : l < APP_MAX_LCORES
    · rw [if_pos below] at here
      exact here.symm
    · rw [if_neg below] at here
      cases here

/-- What one lcore lists, the lcore with its list after `app_init` does, and no other. -/
private theorem listed_once (run : app_init app.toParams app.lcore_params = .ok s)
    (inside : ∀ l, app.lcore_params l ≠ .disabled → l < APP_MAX_LCORES) {α : Type} {mask : α → Prop}
    (part : List (Nat × Nat) → List Nat → List α) (items : Role → List α)
    (io : ∀ nic_queues nic_ports, items (.io nic_queues nic_ports) = part nic_queues nic_ports)
    (others : ∀ r, (∀ nic_queues nic_ports, r ≠ .io nic_queues nic_ports) → items r = [])
    (assigned : Assigned mask fun l => items (app.lcore_params l)) {a : α} (enabled : mask a) :
    ∃! l, ∃ rx tx, s.lcore_params l = .io rx tx ∧ a ∈ part rx.nic_queues tx.nic_ports := by
  have role_of : ∀ l, a ∈ items (app.lcore_params l) → ∃ rx tx, s.lcore_params l = .io rx tx ∧
      a ∈ part rx.nic_queues tx.nic_ports := by
    intro l member
    cases kind : app.lcore_params l with
    | io nic_queues nic_ports =>
      obtain ⟨rx, tx, is, rfl, rfl⟩ := (listed_io run inside).mp kind
      rw [kind, io] at member
      exact ⟨rx, tx, is, member⟩
    | disabled =>
      rw [kind, others .disabled (by rintro _ _ ⟨⟩)] at member
      cases member
    | worker =>
      rw [kind, others .worker (by rintro _ _ ⟨⟩)] at member
      cases member
  obtain ⟨l, member⟩ := (assigned.listed a).mp enabled
  refine ⟨l, role_of l member, ?_⟩
  rintro l' ⟨rx, tx, is, member'⟩
  refine assigned.unique a l' l ?_ member
  rw [(listed_io run inside).mpr ⟨rx, tx, is, rfl, rfl⟩, io]
  exact member'

/-- An enabled queue is served by one I/O lcore. -/
theorem queue_served (parsed : app_parse_args eal opts = .ok app)
    (ready : app_init app.toParams app.lcore_params = .ok s) {port queue : Nat}
    (enabled : app.nic_rx_queue_mask port queue = true) :
    ∃! l, ∃ rx tx, s.lcore_params l = .io rx tx ∧ (port, queue) ∈ rx.nic_queues := by
  have left := accepted parsed
  exact listed_once ready left.inside (fun nic_queues _ => nic_queues) queuesOf (fun _ _ => rfl)
    (fun r other => by cases r with | io a b => exact absurd rfl (other a b) | disabled => rfl | worker => rfl)
    left.rx (a := (port, queue)) enabled

/-- And so is an enabled port. -/
theorem port_served (parsed : app_parse_args eal opts = .ok app)
    (ready : app_init app.toParams app.lcore_params = .ok s) {port : Nat} (enabled : app.nic_tx_port_mask port = true) :
    ∃! l, ∃ rx tx, s.lcore_params l = .io rx tx ∧ port ∈ tx.nic_ports := by
  have left := accepted parsed
  exact listed_once ready left.inside (fun _ nic_ports => nic_ports) portsOf (fun _ _ => rfl)
    (fun r other => by cases r with | io a b => exact absurd rfl (other a b) | disabled => rfl | worker => rfl)
    left.tx enabled

/-- A port that an lcore sends to is enabled. -/
theorem sends_enabled (parsed : app_parse_args eal opts = .ok app)
    (ready : app_init app.toParams app.lcore_params = .ok s) {l port : Nat} {rx : Rx μ} {tx : Tx μ}
    (is : s.lcore_params l = .io rx tx) (sends : port ∈ tx.nic_ports) : app.nic_tx_port_mask port = true := by
  have left := accepted parsed
  refine (left.tx.listed port).mpr ⟨l, ?_⟩
  rw [(listed_io ready left.inside).mpr ⟨rx, tx, is, rfl, rfl⟩]
  exact sends

/-- After an accepted command line and `app_init` each queue and each port is served
    by one I/O lcore, and whatever port a worker chooses for a packet that came in,
    it has a ring which that lcore empties. -/
theorem every_packet_served (parsed : app_parse_args eal opts = .ok app)
    (ready : app_init app.toParams app.lcore_params = .ok s) (process : Processing μ σ)
    (next_hops : ∀ dst hop, process.lpm_lookup dst = some hop → ∃ rule ∈ app.lpm_rules, rule.if_out = hop) :
    (∀ port queue, app.nic_rx_queue_mask port queue = true →
      ∃! l, ∃ rx tx, s.lcore_params l = .io rx tx ∧ (port, queue) ∈ rx.nic_queues) ∧
    (∀ port, app.nic_tx_port_mask port = true → ∃! l, ∃ rx tx, s.lcore_params l = .io rx tx ∧ port ∈ tx.nic_ports) ∧
    ∀ w lp, s.lcore_params w = .worker lp → ∀ pkt queue, app.nic_rx_queue_mask (process.port pkt) queue = true →
      ∃ l rx tx ring, s.lcore_params l = .io rx tx ∧ process.out_port pkt ∈ tx.nic_ports ∧
        lp.rings_out (process.out_port pkt) = some ring ∧ tx.rings (process.out_port pkt) lp.worker_id = some ring := by
  have left := accepted parsed
  refine ⟨fun port queue => queue_served parsed ready, fun port => port_served parsed ready,
    fun w lp worker pkt queue enabled => ?_⟩
  have chosen : app.nic_tx_port_mask (process.out_port pkt) = true := by
    unfold Processing.out_port
    cases hop : process.lpm_lookup (readBe32 (process.mtod pkt) (ip_offset + 16)) with
    | none => exact left.back _ queue enabled
    | some port =>
      obtain ⟨rule, member, rfl⟩ := next_hops _ _ hop
      exact left.rules rule member
  obtain ⟨l, ⟨rx, tx, is, member⟩, -⟩ := port_served parsed ready chosen
  obtain ⟨out, made⟩ := rings_served ready is member worker
  exact ⟨l, rx, tx, _, is, member, out, made⟩

end Served

/-- The process that frees nothing, behind the table of `one_port`. -/
def routed : Processing Nat Unit where
  process_pkt _ s := (0, s)
  lpm_lookup dst := if dst / 2 ^ 24 = 10 then some 0 else none
  mtod pkt := [UInt8.ofNat pkt]
  port _ := 0

theorem one_port_served : ∃ app s, app_parse_args (Eal.first 4) (one_port (ascii "2")) = .ok app ∧
    app_init (μ := Nat) app.toParams app.lcore_params = .ok s ∧
    ∀ w lp, s.lcore_params w = .worker lp → ∀ pkt queue, app.nic_rx_queue_mask (routed.port pkt) queue = true →
      ∃ l rx tx ring, s.lcore_params l = .io rx tx ∧ routed.out_port pkt ∈ tx.nic_ports ∧
        lp.rings_out (routed.out_port pkt) = some ring ∧ tx.rings (routed.out_port pkt) lp.worker_id = some ring := by
  have starts : (app_parse_args (Eal.first 4) (one_port (ascii "2"))).toOption.any (fun app =>
      app.lpm_rules.any (·.if_out = 0) && (app_init (μ := Nat) app.toParams app.lcore_params).toOption.isSome) = true := by
    decide +kernel
  obtain ⟨app, parsed, starts⟩ := (Option.any_eq_true ..).mp starts
  rw [Bool.and_eq_true, List.any_eq_true] at starts
  obtain ⟨⟨rule, listed, zero⟩, ready⟩ := starts
  obtain ⟨s, ready⟩ := Option.isSome_iff_exists.mp ready
  rw [toOption_some] at parsed ready
  refine ⟨app, s, parsed, ready, (every_packet_served parsed ready routed fun dst hop found => ⟨rule, listed, ?_⟩).2.2⟩
  simp only [routed] at found
  split_ifs at found
  cases found
  exact of_decide_eq_true zero

end Shardb.Startup
