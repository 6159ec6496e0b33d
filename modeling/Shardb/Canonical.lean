import Shardb.CommandLine
import Shardb.Settings

/-!
# Command lines and configurations

The parameters that an accepted command line leaves can be written out as options
again (`written`), and these options, read by the same parsers, leave the same
parameters (`configurations_round_trip`). Nothing that the parsers set is out of
reach of the command line's syntax, and nothing depends on the order or the
spelling in which it was given at first.
-/

namespace Shardb.Canonical
open Shardb.Bytes (Text ascii)
open Shardb.Loops Shardb.Wiring Shardb.Config Shardb.Options Shardb.Decimals Shardb.Tuples Shardb.Settings
open Shardb.CommandLine
open Shardb.Lcores (APP_MAX_LCORES APP_MAX_NIC_PORTS APP_MAX_NIC_TX_PORTS_PER_IO_LCORE APP_MBUF_ARRAY_SIZE)

variable {eal : Eal} {opts : List (Option (Opt × Text))} {app app' : App}

/-! ### What else an accepted command line leaves -/

/-- A rule as `--lpm` lets it through. -/
structure Valid (rule : LpmRule) : Prop where
  ip : rule.ip < 2 ^ 32
  depth : 0 < rule.depth ∧ rule.depth < 32
  if_out : rule.if_out < APP_MAX_NIC_PORTS

/-- Valid rules, and not too many. -/
def Rules (app : App) : Prop := (∀ rule ∈ app.lpm_rules, Valid rule) ∧ app.lpm_rules.length ≤ APP_MAX_LPM_RULES

private theorem octets_bits {vals : List Nat} (four : vals.length = 4) (octets : ∀ ip ∈ vals, ip < 256) :
    vals.foldl (fun ip x => ip * 2 ^ 8 + x) 0 < 2 ^ 32 := by
  obtain _ | ⟨a, _ | ⟨b, _ | ⟨c, _ | ⟨d, _ | ⟨e, vals⟩⟩⟩⟩⟩ := vals
  all_goals simp at four
  simp only [List.forall_mem_cons] at octets
  obtain ⟨a', b', c', d', -⟩ := octets
  simp only [List.foldl_cons, List.foldl_nil]
  omega

private theorem lpm_pass_valid {s next : LpmScan} (rules : Rules s.app) (pass : lpm_pass eal s = .ok (.inl next)) :
    Rules next.app := by
  unfold lpm_pass at pass
  split_ifs at pass with done
  · cases pass
  · simp only [bind_eq_ok, refuse_ok, expect_ok] at pass
    obtain ⟨p0, -, vals, -, -, four, -, -, p, -, -, -, -, ranges, -, room, p', -, pass⟩ := pass
    cases pass
    simp only [not_or, not_exists, not_and, Nat.not_le] at ranges
    obtain ⟨octets, depth, shallow, if_out⟩ := ranges
    constructor
    · intro rule member
      rcases List.mem_append.mp member with before | new
      · exact rules.1 rule before
      · rw [List.mem_singleton.mp new]
        refine ⟨octets_bits (by simpa using four) octets, ?_, lt_of_le_of_lt (Nat.mod_le _ _) if_out⟩
        dsimp only
        omega
    · rw [List.length_append, List.length_singleton]
      omega

private theorem parse_arg_lpm_valid {arg : Text} (run : parse_arg_lpm eal arg app = .ok app') :
    (Rules app → Rules app') ∧ app'.lpm_rules ≠ [] := by
  simp only [parse_arg_lpm, bind_eq_ok, refuse_ok] at run
  obtain ⟨-, -, app₁, looped, -, some, run⟩ := run
  cases run
  refine ⟨fun rules => ?_, some⟩
  refine loop_ok (fun s => Rules s.app) Rules (fun s next rules pass => lpm_pass_valid rules pass) ?_ rules looped
  intro s last rules pass
  unfold lpm_pass at pass
  split_ifs at pass with done
  · cases pass
    exact rules
  · simp only [bind_eq_ok, refuse_ok, expect_ok] at pass
    obtain ⟨p0, -, vals, -, -, -, -, -, p, -, -, -, -, -, -, -, p', -, pass⟩ := pass
    cases pass

private theorem parse_arg_rsz_positive {arg : Text} (run : parse_arg_rsz eal arg app = .ok app') :
    ∀ n ∈ [app'.nic_rx_ring_size, app'.ring_rx_size, app'.ring_tx_size, app'.nic_tx_ring_size], n ≠ 0 ∧ n < 2 ^ 32 := by
  simp only [parse_arg_rsz, bind_eq_ok, refuse_ok] at run
  obtain ⟨-, -, vals, read, -, four, -, positive, run⟩ := run
  cases run
  obtain _ | ⟨a, _ | ⟨b, _ | ⟨c, _ | ⟨d, _ | ⟨e, vals⟩⟩⟩⟩⟩ := vals
  all_goals simp at four
  intro n member
  exact ⟨fun zero => positive (zero ▸ member), vals_small read n member⟩

private theorem parse_arg_pos_lb_small {arg : Text} (run : parse_arg_pos_lb arg app = .ok app') : app'.pos_lb < 64 := by
  simp only [parse_arg_pos_lb, bind_eq_ok, refuse_ok] at run
  obtain ⟨-, -, -, -, -, small, run⟩ := run
  cases run
  exact Nat.lt_of_not_le small

/-- What every option keeps, besides `Sound`. -/
structure Kept (eal : Eal) (app : App) : Prop where
  enabled : ∀ l, app.lcore_params l ≠ .disabled → eal.rte_lcore_is_enabled l = true
  typed : ∀ l, app.lcore_params l ≠ .io [] []
  rules : Rules app

private theorem edit_kept {opt : Opt} (other : opt ≠ .lpm) (kept : Kept eal app) (edit : Edit eal opt app app') :
    Kept eal app' := by
  obtain ⟨enabled, typed, rules⟩ := kept
  cases edit with
  | lpm => exact absurd rfl other
  | rsz | pos_lb => exact ⟨enabled, typed, rules⟩
  | bsz sizes others =>
    obtain ⟨a, b, c, d, e, f, rfl⟩ := others
    exact ⟨enabled, typed, rules⟩
  | w here inside free =>
    exact ⟨of_setLcore _ (P := fun l role => role ≠ .disabled → eal.rte_lcore_is_enabled l = true) (fun _ => here) enabled,
      of_setLcore _ (P := fun _ role => role ≠ .io [] []) (by simp) typed, rules⟩
  | @rx _ port queue lcore nic_queues nic_ports small new here inside io room =>
    exact ⟨of_setLcore (app.enableRx port queue)
        (P := fun l role => role ≠ .disabled → eal.rte_lcore_is_enabled l = true) (fun _ => here) enabled,
      of_setLcore (app.enableRx port queue) (P := fun _ role => role ≠ .io [] []) (by simp) typed, rules⟩
  | @tx _ port lcore nic_queues nic_ports small new here inside io room =>
    exact ⟨of_setLcore (app.enableTx port)
        (P := fun l role => role ≠ .disabled → eal.rte_lcore_is_enabled l = true) (fun _ => here) enabled,
      of_setLcore (app.enableTx port) (P := fun _ role => role ≠ .io [] []) (by simp) typed, rules⟩

/-- Only the rules are changed. -/
private theorem edit_lpm (edit : Edit eal .lpm app app') : app'.lcore_params = app.lcore_params := by
  cases edit with
  | lpm => rfl

private theorem options_kept (run : opts.foldlM (parse_opt eal) zeroed = .ok app) : Kept eal app := by
  refine foldlM_ok (fun _ app => Kept eal app) (fun o rest app app' kept once => ?_) ?_ run
  · obtain ⟨opt, arg, -, parsed⟩ := parse_opt_ok once
    by_cases lpm : opt = .lpm
    · subst lpm
      have same : app'.lcore_params = app.lcore_params :=
        edits_keep (fun a => a.lcore_params = app.lcore_params) (fun before edit => (edit_lpm edit).trans before) rfl
          (parse_arg_edits parsed)
      exact ⟨same ▸ kept.enabled, same ▸ kept.typed, (parse_arg_lpm_valid parsed).1 kept.rules⟩
    · exact edits_keep (Kept eal) (fun kept edit => edit_kept lpm kept edit) kept (parse_arg_edits parsed)
  · exact ⟨fun l typed => absurd rfl typed, fun l => by simp [zeroed], by simp [Rules, zeroed]⟩

def rings (app : App) : List Nat := [app.nic_rx_ring_size, app.ring_rx_size, app.ring_tx_size, app.nic_tx_ring_size]

/-- All that the options establish. -/
structure Complete (eal : Eal) (app : App) : Prop extends Sound app, Kept eal app where
  few : ∀ l, (queuesOf (app.lcore_params l)).length ≤ APP_MAX_NIC_RX_QUEUES_PER_IO_LCORE
  rings : ∀ n ∈ rings app, n ≠ 0 ∧ n < 2 ^ 32
  sizes : Sizes app.toParams
  pos : app.pos_lb < 64
  receives : ∃ port queue, app.nic_rx_queue_mask port queue = true
  sends : ∃ port, app.nic_tx_port_mask port = true
  works : ∃ l, isWorker (app.lcore_params l) = true
  routes : app.lpm_rules ≠ []
  table : app_check_lpm_table app = true
  back : app_check_every_rx_port_is_tx_enabled app = true

private theorem defaults_rings (given_rings : given .rsz opts = true → ∀ n ∈ rings app, n ≠ 0 ∧ n < 2 ^ 32) :
    ∀ n ∈ rings (defaults opts app), n ≠ 0 ∧ n < 2 ^ 32 := by
  unfold defaults
  cases rsz : given .rsz opts with
  | true =>
    have fine := given_rings rsz
    cases given .bsz opts <;> cases given .pos_lb opts <;> exact fine
  | false => cases given .bsz opts <;> cases given .pos_lb opts <;> simp [rings] <;> decide

private theorem defaults_pos (given_pos : given .pos_lb opts = true → app.pos_lb < 64) : (defaults opts app).pos_lb < 64 := by
  unfold defaults
  cases pos : given .pos_lb opts with
  | true =>
    have fine := given_pos pos
    cases given .rsz opts <;> cases given .bsz opts <;> exact fine
  | false => exact (by decide : APP_DEFAULT_IO_RX_LB_POS < 64)

theorem complete (run : app_parse_args eal opts = .ok app) : Complete eal app := by
  have leaves := accepted run
  obtain ⟨port, queue, enabled⟩ := some_queue run
  have few := queues_few run
  obtain ⟨worker, listed⟩ := List.exists_mem_of_ne_nil _ (some_worker run)
  have checks : app_check_lpm_table app = true ∧ app_check_every_rx_port_is_tx_enabled app = true := by
    simp only [app_parse_args, bind_eq_ok, refuse_ok] at run
    obtain ⟨parsed, -, -, -, -, table, -, back, run⟩ := run
    cases run
    exact ⟨by simpa using table, by simpa using back⟩
  obtain ⟨parsed, options, rfl⟩ := app_parse_args_options run
  obtain ⟨roles, -, -, same⟩ := defaults_others opts parsed
  have kept := options_kept options
  refine ⟨leaves.toSound, ⟨roles ▸ kept.enabled, roles ▸ kept.typed, ?_⟩, few, defaults_rings fun rsz => ?_, leaves.sizes,
    defaults_pos fun pos => ?_, ⟨port, queue, enabled⟩, ⟨port, leaves.back port queue enabled⟩,
    ⟨worker, (leaves.workers worker).mpr listed⟩, ?_, checks.1, checks.2⟩
  · unfold Rules
    rw [same]
    exact kept.rules
  · refine options_given .rsz (fun app => ∀ n ∈ rings app, n ≠ 0 ∧ n < 2 ^ 32) parse_arg_rsz_positive ?_ options rsz
    intro o a b other before edit
    cases edit with
    | rsz => exact absurd rfl other
    | rx | tx | w | lpm | pos_lb => exact before
    | bsz sizes others =>
      obtain ⟨a, b, c, d, e, f, rfl⟩ := others
      exact before
  · refine options_given .pos_lb (fun app => app.pos_lb < 64) parse_arg_pos_lb_small ?_ options pos
    intro o a b other before edit
    cases edit with
    | pos_lb => exact absurd rfl other
    | rx | tx | w | lpm | rsz => exact before
    | bsz sizes others =>
      obtain ⟨a, b, c, d, e, f, rfl⟩ := others
      exact before
  · rw [same]
    refine options_given .lpm (fun app => app.lpm_rules ≠ []) (fun parsed => (parse_arg_lpm_valid parsed).2) ?_ options
      leaves.mandatory.2.2.2
    intro o a b other before edit
    cases edit with
    | lpm => exact absurd rfl other
    | rx | tx | w | rsz | pos_lb => exact before
    | bsz sizes others =>
      obtain ⟨a, b, c, d, e, f, rfl⟩ := others
      exact before

/-! ### The configuration, written out -/

/-- The octets of an address. -/
def octets (ip : Nat) : Nat × Nat × Nat × Nat := (ip / 2 ^ 24, ip / 2 ^ 16 % 256, ip / 2 ^ 8 % 256, ip % 256)

def ruleOf (rule : LpmRule) : Rule := ⟨octets rule.ip, rule.depth, rule.if_out⟩

def lcores : List Nat := List.range APP_MAX_LCORES

/-- The lcores that receive, send and work. -/
def receivers (app : App) : List Nat := lcores.filter fun l => queuesOf (app.lcore_params l) ≠ []
def senders (app : App) : List Nat := lcores.filter fun l => portsOf (app.lcore_params l) ≠ []
def workers (app : App) : List Nat := lcores.filter fun l => isWorker (app.lcore_params l)

def rx_of (app : App) (l : Nat) : Setting := .rx ((queuesOf (app.lcore_params l)).map fun pq => (pq.1, pq.2, l))
def tx_of (app : App) (l : Nat) : Setting := .tx ((portsOf (app.lcore_params l)).map fun port => (port, l))

/-- The sizes. -/
def sizes_of (app : App) : List Setting :=
  [.rsz app.nic_rx_ring_size app.ring_rx_size app.ring_tx_size app.nic_tx_ring_size,
    .bsz (app.burst_size_io_rx_read, app.burst_size_io_rx_write) (app.burst_size_worker_read, app.burst_size_worker_write)
      (app.burst_size_io_tx_read, app.burst_size_io_tx_write),
    .pos_lb app.pos_lb]

/-- An option for each lcore that receives, sends or works, for each rule and for the sizes. -/
def written (app : App) : List Setting :=
  (receivers app).map (rx_of app) ++ (senders app).map (tx_of app) ++ (workers app).map (fun l => .w [l]) ++
    app.lpm_rules.map (fun rule => .lpm [ruleOf rule]) ++ sizes_of app

/-! ### The options are read one after the other -/

/-- The type of an lcore that has these queues and ports. -/
def typeOf (nic_queues : List (Nat × Nat)) (nic_ports : List Nat) : Role :=
  if nic_queues = [] ∧ nic_ports = [] then .disabled else .io nic_queues nic_ports

private theorem ioOf_typeOf (nic_queues : List (Nat × Nat)) (nic_ports : List Nat) :
    ioOf (typeOf nic_queues nic_ports) = some (nic_queues, nic_ports) := by
  unfold typeOf
  split_ifs with empty
  · rw [empty.1, empty.2]
    rfl
  · rfl

private theorem typeOf_io {nic_queues : List (Nat × Nat)} {nic_ports : List Nat}
    (some : nic_queues ≠ [] ∨ nic_ports ≠ []) : typeOf nic_queues nic_ports = .io nic_queues nic_ports := by
  rw [typeOf, if_neg]
  tauto

/-- What has been read once these lcores and rules are left. -/
structure Partway (app : App) (rx tx ws : List Nat) (rules : List LpmRule) (a : App) : Prop where
  roles : ∀ l, a.lcore_params l =
    if isWorker (app.lcore_params l) = true then (if l ∈ ws then .disabled else .worker)
    else typeOf (if l ∈ rx then [] else queuesOf (app.lcore_params l)) (if l ∈ tx then [] else portsOf (app.lcore_params l))
  rx_mask : ∀ pq : Nat × Nat, a.nic_rx_queue_mask pq.1 pq.2 = true ↔ ∃ l, l ∉ rx ∧ pq ∈ queuesOf (app.lcore_params l)
  tx_mask : ∀ port, a.nic_tx_port_mask port = true ↔ ∃ l, l ∉ tx ∧ port ∈ portsOf (app.lcore_params l)
  rules : a.lpm_rules ++ rules = app.lpm_rules

private theorem role_here (a : App) (l : Nat) (role : Role) : (a.setLcore l role).lcore_params l = role :=
  Function.update_self ..

private theorem role_there (a : App) {k l : Nat} (role : Role) (other : k ≠ l) :
    (a.setLcore l role).lcore_params k = a.lcore_params k :=
  Function.update_of_ne other ..

/-- The tuples of one lcore's queues. -/
private theorem rx_entries {l : Nat} {nic_ports : List Nat} (here : eal.rte_lcore_is_enabled l = true)
    (inside : l < APP_MAX_LCORES) {rest : List (Nat × Nat)} : ∀ {a : App} {n : Nat} {done : List (Nat × Nat)},
    ioOf (a.lcore_params l) = some (done, nic_ports) →
    (done ++ rest).length ≤ APP_MAX_NIC_RX_QUEUES_PER_IO_LCORE → (done ++ rest).Nodup →
    (∀ pq ∈ rest, (pq.1 < APP_MAX_NIC_PORTS ∧ pq.2 < APP_MAX_RX_QUEUES_PER_NIC_PORT) ∧
      a.nic_rx_queue_mask pq.1 pq.2 = false) →
    n + rest.length ≤ APP_ARG_RX_MAX_TUPLES →
    ∃ b, entries APP_ARG_RX_MAX_TUPLES (-10) (fun t => rx_tuple eal t.1 t.2.1 t.2.2) n
        (rest.map fun pq => (pq.1, pq.2, l)) a = .ok b ∧
      (∀ pq : Nat × Nat, b.nic_rx_queue_mask pq.1 pq.2 = true ↔ pq ∈ rest ∨ a.nic_rx_queue_mask pq.1 pq.2 = true) ∧
      (∀ k, k ≠ l → b.lcore_params k = a.lcore_params k) ∧
      b.lcore_params l = (if rest = [] then a.lcore_params l else .io (done ++ rest) nic_ports) ∧
      b.nic_tx_port_mask = a.nic_tx_port_mask ∧ b.lpm_rules = a.lpm_rules := by
  induction rest with
  | nil =>
    intro a n done io _ _ _ _
    exact ⟨a, rfl, by simp, fun _ _ => rfl, by simp, rfl, rfl⟩
  | cons pq rest ih =>
    intro a n done io room nodup fresh few
    obtain ⟨port, queue⟩ := pq
    obtain ⟨⟨small, new⟩, others⟩ := List.forall_mem_cons.mp fresh
    have split : done ++ (port, queue) :: rest = (done ++ [(port, queue)]) ++ rest := by simp
    rw [split] at room nodup
    rw [List.length_cons] at few
    have few' : done.length < APP_MAX_NIC_RX_QUEUES_PER_IO_LCORE := by
      simp only [List.length_append, List.length_singleton] at room
      omega
    have unlisted : (port, queue) ∉ done := by
      have apart := (List.nodup_append.mp (List.nodup_append.mp nodup).1).2.2
      exact fun listed => apart _ listed _ (List.mem_singleton_self _) rfl
    have unseen : (port, queue) ∉ rest := fun later =>
      (List.nodup_append.mp nodup).2.2 _ (List.mem_append_right _ (List.mem_singleton_self _)) _ later rfl
    set next := (a.enableRx port queue).setLcore l (.io (done ++ [(port, queue)]) nic_ports) with next_is
    have once : rx_tuple eal port queue l a = .ok next := by
      unfold rx_tuple
      have io' : ioOf ((a.enableRx port queue).lcore_params l) = some (done, nic_ports) := io
      rw [refuse_eq (by omega), refuse_eq (by simp [new])]
      simp only
      rw [refuse_eq (by simp [here]), refuse_eq (by omega), io', expect, result_bind]
      simp only
      rw [refuse_eq fun listed => unlisted (List.mem_of_mem_take listed), refuse_eq (by omega)]
      rfl
    have masked : ∀ other : Nat × Nat, next.nic_rx_queue_mask other.1 other.2 = true ↔
        other = (port, queue) ∨ a.nic_rx_queue_mask other.1 other.2 = true := enableRx_masked a port queue
    have role : next.lcore_params l = .io (done ++ [(port, queue)]) nic_ports := role_here ..
    have fresh' : ∀ pq ∈ rest, (pq.1 < APP_MAX_NIC_PORTS ∧ pq.2 < APP_MAX_RX_QUEUES_PER_NIC_PORT) ∧
        next.nic_rx_queue_mask pq.1 pq.2 = false := by
      intro other later
      obtain ⟨small', new'⟩ := others other later
      refine ⟨small', ?_⟩
      rw [← Bool.not_eq_true, masked]
      rintro (rfl | before)
      · exact unseen later
      · rw [new'] at before
        cases before
    obtain ⟨b, run, masks, kept, there, tx, rules⟩ := ih (n := n + 1) (by rw [role]; rfl) room nodup fresh' (by omega)
    refine ⟨b, ?_, ?_, ?_, ?_, tx, rules⟩
    · rw [List.map_cons, entries, once, result_bind, refuse_eq (by omega)]
      exact run
    · intro other
      rw [masks, masked, List.mem_cons]
      tauto
    · intro k other
      rw [kept k other, next_is, role_there _ _ other]
      rfl
    · rw [there, if_neg (List.cons_ne_nil _ _), split]
      split_ifs with last
      · rw [role, last, List.append_nil]
      · rfl

/-- The tuples of one lcore's ports. -/
private theorem tx_entries {l : Nat} {nic_queues : List (Nat × Nat)} (here : eal.rte_lcore_is_enabled l = true)
    (inside : l < APP_MAX_LCORES) {rest : List Nat} : ∀ {a : App} {n : Nat} {done : List Nat},
    ioOf (a.lcore_params l) = some (nic_queues, done) →
    (done ++ rest).length ≤ APP_MAX_NIC_TX_PORTS_PER_IO_LCORE → (done ++ rest).Nodup →
    (∀ port ∈ rest, port < APP_MAX_NIC_PORTS ∧ a.nic_tx_port_mask port = false) →
    n + rest.length ≤ APP_ARG_TX_MAX_TUPLES →
    ∃ b, entries APP_ARG_TX_MAX_TUPLES (-10) (fun t => tx_tuple eal t.1 t.2) n (rest.map fun port => (port, l)) a = .ok b ∧
      (∀ port, b.nic_tx_port_mask port = true ↔ port ∈ rest ∨ a.nic_tx_port_mask port = true) ∧
      (∀ k, k ≠ l → b.lcore_params k = a.lcore_params k) ∧
      b.lcore_params l = (if rest = [] then a.lcore_params l else .io nic_queues (done ++ rest)) ∧
      b.nic_rx_queue_mask = a.nic_rx_queue_mask ∧ b.lpm_rules = a.lpm_rules := by
  induction rest with
  | nil =>
    intro a n done io _ _ _ _
    exact ⟨a, rfl, by simp, fun _ _ => rfl, by simp, rfl, rfl⟩
  | cons port rest ih =>
    intro a n done io room nodup fresh few
    obtain ⟨⟨small, new⟩, others⟩ := List.forall_mem_cons.mp fresh
    have split : done ++ port :: rest = (done ++ [port]) ++ rest := by simp
    rw [split] at room nodup
    rw [List.length_cons] at few
    have few' : done.length < APP_MAX_NIC_TX_PORTS_PER_IO_LCORE := by
      simp only [List.length_append, List.length_singleton] at room
      omega
    have unlisted : port ∉ done := by
      have apart := (List.nodup_append.mp (List.nodup_append.mp nodup).1).2.2
      exact fun listed => apart _ listed _ (List.mem_singleton_self _) rfl
    have unseen : port ∉ rest := fun later =>
      (List.nodup_append.mp nodup).2.2 _ (List.mem_append_right _ (List.mem_singleton_self _)) _ later rfl
    set next := (a.enableTx port).setLcore l (.io nic_queues (done ++ [port])) with next_is
    have once : tx_tuple eal port l a = .ok next := by
      unfold tx_tuple
      have io' : ioOf ((a.enableTx port).lcore_params l) = some (nic_queues, done) := io
      rw [refuse_eq (by omega), refuse_eq (by simp [new])]
      simp only
      rw [refuse_eq (by simp [here]), refuse_eq (by omega), io', expect, result_bind]
      simp only
      rw [refuse_eq fun listed => unlisted (List.mem_of_mem_take listed), refuse_eq (by omega)]
      rfl
    have masked : ∀ other, next.nic_tx_port_mask other = true ↔ other = port ∨ a.nic_tx_port_mask other = true :=
      enableTx_masked a port
    have role : next.lcore_params l = .io nic_queues (done ++ [port]) := role_here ..
    have fresh' : ∀ port ∈ rest, port < APP_MAX_NIC_PORTS ∧ next.nic_tx_port_mask port = false := by
      intro other later
      obtain ⟨small', new'⟩ := others other later
      refine ⟨small', ?_⟩
      rw [← Bool.not_eq_true, masked]
      rintro (rfl | before)
      · exact unseen later
      · rw [new'] at before
        cases before
    obtain ⟨b, run, masks, kept, there, rx, rules⟩ := ih (n := n + 1) (by rw [role]; rfl) room nodup fresh' (by omega)
    refine ⟨b, ?_, ?_, ?_, ?_, rx, rules⟩
    · rw [List.map_cons, entries, once, result_bind, refuse_eq (by omega)]
      exact run
    · intro other
      rw [masks, masked, List.mem_cons]
      tauto
    · intro k other
      rw [kept k other, next_is, role_there _ _ other]
      rfl
    · rw [there, if_neg (List.cons_ne_nil _ _), split]
      split_ifs with last
      · rw [role, last, List.append_nil]
      · rfl

section Steps
variable (complete : Complete eal app) {rx tx ws : List Nat} {rules : List LpmRule} {a : App}
include complete

/-- The next lcore that receives. -/
private theorem rx_step {l : Nat} (partway : Partway app (l :: rx) tx ws rules a) (once : l ∉ rx)
    (queues : queuesOf (app.lcore_params l) ≠ []) :
    ∃ b, (rx_of app l).effect eal a = .ok b ∧ Partway app rx tx ws rules b := by
  have typed : app.lcore_params l ≠ .disabled := fun role => queues (by rw [role]; rfl)
  have nowork : isWorker (app.lcore_params l) = false := by
    cases role : app.lcore_params l with
    | worker => rw [role] at queues; exact absurd rfl queues
    | disabled | io => rfl
  have role := partway.roles l
  rw [if_neg (by simp [nowork]), if_pos List.mem_cons_self] at role
  have io : ioOf (a.lcore_params l) = some ([], _) := role ▸ ioOf_typeOf ..
  have fresh : ∀ pq ∈ queuesOf (app.lcore_params l),
      (pq.1 < APP_MAX_NIC_PORTS ∧ pq.2 < APP_MAX_RX_QUEUES_PER_NIC_PORT) ∧ a.nic_rx_queue_mask pq.1 pq.2 = false := by
    intro pq listed
    refine ⟨complete.rx_small _ _ ((complete.rx.listed pq).mpr ⟨l, listed⟩), ?_⟩
    rw [← Bool.not_eq_true, partway.rx_mask]
    rintro ⟨k, apart, listed'⟩
    exact apart (complete.rx.unique pq k l listed' listed ▸ List.mem_cons_self)
  have few : 0 + (queuesOf (app.lcore_params l)).length ≤ APP_ARG_RX_MAX_TUPLES := by
    have := complete.few l
    simp only [APP_MAX_NIC_RX_QUEUES_PER_IO_LCORE, APP_ARG_RX_MAX_TUPLES] at this ⊢
    omega
  obtain ⟨b, run, masks, kept, there, ports, same⟩ := rx_entries (complete.enabled l typed) (complete.inside l typed)
    (n := 0) io (by simpa using complete.few l) (by simpa using complete.rx.nodup l) fresh few
  refine ⟨b, ?_, ?_, ?_, ?_, same ▸ partway.rules⟩
  · simp only [rx_of, Setting.effect, run, result_bind]
    rw [refuse_eq (by simpa using queues)]
    rfl
  · intro k
    by_cases here : k = l
    · subst here
      simp only [there, queues, nowork, once, Bool.false_eq_true, if_false, List.nil_append]
      exact (typeOf_io (.inl queues)).symm
    · rw [kept k here, partway.roles k]
      simp only [List.mem_cons, here, false_or]
  · intro pq
    rw [masks, partway.rx_mask]
    constructor
    · rintro (listed | ⟨k, apart, listed⟩)
      · exact ⟨l, once, listed⟩
      · exact ⟨k, fun later => apart (List.mem_cons_of_mem l later), listed⟩
    · rintro ⟨k, apart, listed⟩
      by_cases here : k = l
      · subst here
        exact .inl listed
      · exact .inr ⟨k, by simp [here, apart], listed⟩
  · rw [ports]
    exact partway.tx_mask

/-- The next lcore that sends. -/
private theorem tx_step {l : Nat} (partway : Partway app rx (l :: tx) ws rules a) (once : l ∉ tx)
    (ports : portsOf (app.lcore_params l) ≠ []) :
    ∃ b, (tx_of app l).effect eal a = .ok b ∧ Partway app rx tx ws rules b := by
  have typed : app.lcore_params l ≠ .disabled := fun role => ports (by rw [role]; rfl)
  have nowork : isWorker (app.lcore_params l) = false := by
    cases role : app.lcore_params l with
    | worker => rw [role] at ports; exact absurd rfl ports
    | disabled | io => rfl
  have role := partway.roles l
  rw [if_neg (by simp [nowork]), if_pos (List.mem_cons_self (a := l))] at role
  have io : ioOf (a.lcore_params l) = some (_, []) := role ▸ ioOf_typeOf ..
  have fresh : ∀ port ∈ portsOf (app.lcore_params l), port < APP_MAX_NIC_PORTS ∧ a.nic_tx_port_mask port = false := by
    intro port listed
    refine ⟨complete.tx_small _ ((complete.tx.listed port).mpr ⟨l, listed⟩), ?_⟩
    rw [← Bool.not_eq_true, partway.tx_mask]
    rintro ⟨k, apart, listed'⟩
    exact apart (complete.tx.unique port k l listed' listed ▸ List.mem_cons_self)
  have few : 0 + (portsOf (app.lcore_params l)).length ≤ APP_ARG_TX_MAX_TUPLES := by
    have := complete.tx_few l
    simp only [APP_MAX_NIC_TX_PORTS_PER_IO_LCORE, APP_ARG_TX_MAX_TUPLES] at this ⊢
    omega
  obtain ⟨b, run, masks, kept, there, queues, same⟩ := tx_entries (complete.enabled l typed) (complete.inside l typed)
    (n := 0) io (by simpa using complete.tx_few l) (by simpa using complete.tx.nodup l) fresh few
  refine ⟨b, ?_, ?_, ?_, ?_, same ▸ partway.rules⟩
  · simp only [tx_of, Setting.effect, run, result_bind]
    rw [refuse_eq (by simpa using ports)]
    rfl
  · intro k
    by_cases here : k = l
    · subst here
      simp only [there, ports, nowork, once, Bool.false_eq_true, if_false, List.nil_append]
      exact (typeOf_io (.inr ports)).symm
    · rw [kept k here, partway.roles k]
      simp only [List.mem_cons, here, false_or]
  · rw [queues]
    exact partway.rx_mask
  · intro port
    rw [masks, partway.tx_mask]
    constructor
    · rintro (listed | ⟨k, apart, listed⟩)
      · exact ⟨l, once, listed⟩
      · exact ⟨k, fun later => apart (List.mem_cons_of_mem l later), listed⟩
    · rintro ⟨k, apart, listed⟩
      by_cases here : k = l
      · subst here
        exact .inl listed
      · exact .inr ⟨k, by simp [here, apart], listed⟩

/-- The next worker. -/
private theorem w_step {l : Nat} (partway : Partway app rx tx (l :: ws) rules a) (once : l ∉ ws)
    (works : isWorker (app.lcore_params l) = true) :
    ∃ b, (Setting.w [l]).effect eal a = .ok b ∧ Partway app rx tx ws rules b := by
  have typed : app.lcore_params l ≠ .disabled := fun role => by rw [role] at works; cases works
  have role := partway.roles l
  rw [if_pos works, if_pos (List.mem_cons_self (a := l))] at role
  have entry : worker eal l a = .ok (a.setLcore l .worker) := by
    have inside := complete.inside l typed
    unfold worker
    rw [refuse_eq (by simp [complete.enabled l typed]), refuse_eq (by omega), refuse_eq (by simp [role, isIo])]
    rfl
  refine ⟨a.setLcore l .worker, ?_, ?_, partway.rx_mask, partway.tx_mask, partway.rules⟩
  · simp only [Setting.effect, entries, entry, result_bind]
    rw [refuse_eq (by decide), result_bind, refuse_eq (by simp), refuse_eq (by simp)]
    rfl
  · intro k
    by_cases here : k = l
    · subst here
      rw [role_here, if_pos works, if_neg once]
    · rw [role_there _ _ here, partway.roles k]
      simp only [List.mem_cons, here, false_or]

/-- The next rule. -/
private theorem lpm_step {rule : LpmRule} (partway : Partway app rx tx ws (rule :: rules) a) :
    ∃ b, (Setting.lpm [ruleOf rule]).effect eal a = .ok b ∧ Partway app rx tx ws rules b := by
  have member : rule ∈ app.lpm_rules := by
    rw [← partway.rules]
    simp
  obtain ⟨ip, depth, if_out⟩ := complete.rules.1 rule member
  have room : a.lpm_rules.length < APP_MAX_LPM_RULES := by
    have few := complete.rules.2
    rw [← partway.rules, List.length_append, List.length_cons] at few
    omega
  have add : (ruleOf rule).add a = .ok { a with lpm_rules := a.lpm_rules ++ [rule] } := by
    have same : (ruleOf rule).ips.foldl (fun ip x => ip * 2 ^ 8 + x) 0 = rule.ip ∧ rule.depth % 2 ^ 8 = rule.depth ∧
        rule.if_out % 2 ^ 8 = rule.if_out := by
      have := if_out
      simp only [APP_MAX_NIC_PORTS] at this
      refine ⟨?_, by omega, by omega⟩
      simp only [Rule.ips, ruleOf, octets, List.foldl_cons, List.foldl_nil]
      omega
    have passes : ¬ ((∃ ip ∈ (ruleOf rule).ips, 256 ≤ ip) ∨ (ruleOf rule).depth = 0 ∨ 32 ≤ (ruleOf rule).depth ∨
        APP_MAX_NIC_PORTS ≤ (ruleOf rule).if_out) := by
      simp only [Rule.ips, ruleOf, octets, List.mem_cons, List.not_mem_nil, or_false, exists_eq_or_imp, exists_eq_left]
      omega
    unfold Rule.add
    rw [refuse_eq passes, refuse_eq (by omega), same.1]
    simp only [ruleOf, same.2]
    rfl
  refine ⟨{ a with lpm_rules := a.lpm_rules ++ [rule] }, ?_, partway.roles, partway.rx_mask, partway.tx_mask, ?_⟩
  · simp only [Setting.effect, List.foldlM_cons, List.foldlM_nil, add, result_bind, pure_bind]
    rw [refuse_eq (by simp)]
    rfl
  · show a.lpm_rules ++ [rule] ++ rules = app.lpm_rules
    rw [List.append_assoc]
    exact partway.rules

/-- Nothing has been read. -/
private theorem partway_start : Partway app (receivers app) (senders app) (workers app) app.lpm_rules zeroed := by
  have listed : ∀ {l}, app.lcore_params l ≠ .disabled → l ∈ lcores := fun typed =>
    List.mem_range.mpr (complete.inside _ typed)
  have silent : ∀ l, (if l ∈ receivers app then [] else queuesOf (app.lcore_params l)) = [] := by
    intro l
    split_ifs with receives
    · rfl
    · by_contra some
      refine receives (List.mem_filter.mpr ⟨listed fun role => some ?_, by simpa using some⟩)
      rw [role]
      rfl
  have mute : ∀ l, (if l ∈ senders app then [] else portsOf (app.lcore_params l)) = [] := by
    intro l
    split_ifs with sends
    · rfl
    · by_contra some
      refine sends (List.mem_filter.mpr ⟨listed fun role => some ?_, by simpa using some⟩)
      rw [role]
      rfl
  refine ⟨fun l => ?_, fun pq => ?_, fun port => ?_, rfl⟩
  · by_cases works : isWorker (app.lcore_params l) = true
    · have idle : l ∈ workers app := List.mem_filter.mpr ⟨listed fun role => (by rw [role] at works; cases works), works⟩
      rw [if_pos works, if_pos idle]
      rfl
    · rw [if_neg works, silent, mute]
      rfl
  · refine ⟨nofun, ?_⟩
    rintro ⟨l, apart, there⟩
    have none := silent l
    rw [if_neg apart] at none
    rw [none] at there
    cases there
  · refine ⟨nofun, ?_⟩
    rintro ⟨l, apart, there⟩
    have none := mute l
    rw [if_neg apart] at none
    rw [none] at there
    cases there

/-- All has been read but the sizes. -/
private theorem partway_done (partway : Partway app [] [] [] [] a) :
    a.lcore_params = app.lcore_params ∧ a.nic_rx_queue_mask = app.nic_rx_queue_mask ∧
    a.nic_tx_port_mask = app.nic_tx_port_mask ∧ a.lpm_rules = app.lpm_rules := by
  obtain ⟨roles, rx_mask, tx_mask, rules⟩ := partway
  refine ⟨funext fun l => ?_, funext fun port => funext fun queue => ?_, funext fun port => ?_, by simpa using rules⟩
  · have typed := complete.typed l
    rw [roles l]
    cases role : app.lcore_params l with
    | disabled => rfl
    | worker => rfl
    | io nic_queues nic_ports =>
      rw [role] at typed
      have some : nic_queues ≠ [] ∨ nic_ports ≠ [] := by
        by_contra none
        simp only [not_or, ne_eq, Decidable.not_not] at none
        exact typed (by rw [none.1, none.2])
      exact typeOf_io some
  · rw [Bool.eq_iff_iff, rx_mask (port, queue), complete.rx.listed (port, queue)]
    simp
  · rw [Bool.eq_iff_iff, tx_mask port, complete.tx.listed port]
    simp

/-- The sizes are read last. -/
private theorem sizes_step (partway : Partway app [] [] [] [] a) :
    (sizes_of app).foldlM (fun a s => s.effect eal a) a = .ok app := by
  obtain ⟨roles, rx_mask, tx_mask, rules⟩ := partway_done complete partway
  have positive := complete.rings
  simp only [rings, List.forall_mem_cons] at positive
  obtain ⟨nic_rx, ring_rx, ring_tx, nic_tx, -⟩ := positive
  obtain ⟨io_rx_read, io_rx_write, worker_read, worker_write, io_tx_read, io_tx_write⟩ := complete.sizes
  have pos := complete.pos
  simp only [sizes_of, List.foldlM_cons, List.foldlM_nil, Setting.effect, bind_assoc, pure_bind]
  rw [refuse_eq (by omega), refuse_eq (by omega), refuse_eq (by omega), refuse_eq (by omega), roles, rx_mask, tx_mask, rules]
  rfl

end Steps

/-! ### The round trip -/

/-- The numbers of an option have 32 bits, and there is room for its text. -/
structure Fits (s : Setting) : Prop where
  small : ∀ n ∈ s.numbers, n < 2 ^ 32
  short : s.text.length ≤ limit s.opt

/-- Options that fit are read as they are meant. -/
theorem line_read (splits : Splits eal) {settings : List Setting} (fits : ∀ s ∈ settings, Fits s) {a b : App}
    (meant : settings.foldlM (fun a s => s.effect eal a) a = .ok b) :
    (line settings).foldlM (parse_opt eal) a = .ok b := by
  induction settings generalizing a with
  | nil => exact meant
  | cons s settings ih =>
    obtain ⟨first, rest⟩ := List.forall_mem_cons.mp fits
    rw [List.foldlM_cons, bind_eq_ok] at meant
    obtain ⟨next, effect, meant⟩ := meant
    rw [line, List.map_cons, List.foldlM_cons, parse_opt_read splits first.small, refuse_eq (by have := first.short; omega),
      effect]
    exact ih rest meant

/-- Lcores are taken one by one. -/
private theorem each_lcore {f : App → Nat → Parsed App} (Inv : List Nat → App → Prop) {P : Nat → Prop}
    (goes : ∀ l rest a, l ∉ rest → P l → Inv (l :: rest) a → ∃ b, f a l = .ok b ∧ Inv rest b) {ls : List Nat} {a : App}
    (nodup : ls.Nodup) (all : ∀ l ∈ ls, P l) (inv : Inv ls a) : ∃ b, ls.foldlM f a = .ok b ∧ Inv [] b := by
  have step : ∀ l rest a, ((l :: rest).Nodup ∧ (∀ k ∈ l :: rest, P k) ∧ Inv (l :: rest) a) →
      ∃ b, f a l = .ok b ∧ (rest.Nodup ∧ (∀ k ∈ rest, P k) ∧ Inv rest b) := by
    rintro l rest a ⟨nodup, all, inv⟩
    obtain ⟨once, nodup⟩ := List.nodup_cons.mp nodup
    obtain ⟨here, all⟩ := List.forall_mem_cons.mp all
    obtain ⟨b, run, inv⟩ := goes l rest a once here inv
    exact ⟨b, run, nodup, all, inv⟩
  obtain ⟨b, run, -, -, inv⟩ := foldlM_goes (fun rest a => rest.Nodup ∧ (∀ k ∈ rest, P k) ∧ Inv rest a) step
    ⟨nodup, all, inv⟩
  exact ⟨b, run, inv⟩

/-- The effects of all that is written. -/
private theorem written_effect (complete : Complete eal app) :
    (written app).foldlM (fun a s => s.effect eal a) zeroed = .ok app := by
  have once : ∀ p : Nat → Bool, (lcores.filter p).Nodup := fun p => List.nodup_range.filter p
  obtain ⟨a, receiving, partway⟩ := each_lcore (f := fun a l => (rx_of app l).effect eal a)
    (fun rest => Partway app rest (senders app) (workers app) app.lpm_rules)
    (fun l rest a apart some partway => rx_step complete partway apart some) (once _) (by simp) (partway_start complete)
  obtain ⟨b, sending, partway⟩ := each_lcore (f := fun a l => (tx_of app l).effect eal a)
    (fun rest => Partway app [] rest (workers app) app.lpm_rules)
    (fun l rest a apart some partway => tx_step complete partway apart some) (once _) (by simp) partway
  obtain ⟨c, working, partway⟩ := each_lcore (f := fun a l => (Setting.w [l]).effect eal a)
    (fun rest => Partway app [] [] rest app.lpm_rules)
    (fun l rest a apart some partway => w_step complete partway apart some) (once _) (by simp) partway
  obtain ⟨d, routing, partway⟩ := foldlM_goes (f := fun a rule => (Setting.lpm [ruleOf rule]).effect eal a)
    (fun rest => Partway app [] [] [] rest) (fun rule rest a partway => lpm_step complete partway) partway
  have sizes := sizes_step complete partway
  simp only [written, List.foldlM_append, List.foldlM_map, bind_assoc]
  rw [receivers, receiving, result_bind, senders, sending, result_bind, workers, working, result_bind, routing, result_bind]
  exact sizes

/-! ### What is written fits -/

private theorem tuple_length {ns : List Nat} {m k : Nat} (some : 0 < k) (count : ns.length = m)
    (small : ∀ n ∈ ns, n < 10 ^ k) : (tuple ns).length ≤ m * (k + 1) + 2 := by
  have length := @separated_length 44 k some ns small
  rw [count] at length
  simp only [tuple, List.length_cons, List.length_append, List.length_nil]
  omega

private theorem tuples_length {m k : Nat} (some : 0 < k) {ts : List (List Nat)}
    (small : ∀ ns ∈ ts, ns.length = m ∧ ∀ n ∈ ns, n < 10 ^ k) : (tuples ts).length ≤ ts.length * (m * (k + 1) + 4) := by
  induction ts with
  | nil => simp [tuples]
  | cons ns ts ih =>
    obtain ⟨⟨count, first⟩, rest⟩ := List.forall_mem_cons.mp small
    have here := tuple_length some count first
    have there := ih rest
    rw [tuples, List.length_append, List.length_cons, Nat.add_mul]
    split_ifs
    · simp
      omega
    · simp only [List.length_cons]
      omega

private theorem rx_fits (complete : Complete eal app) {l : Nat} (inside : l < APP_MAX_LCORES) : Fits (rx_of app l) := by
  have small : ∀ pq ∈ queuesOf (app.lcore_params l), ∀ n ∈ triple (pq.1, pq.2, l), n < 10 ^ 3 := by
    intro pq listed n member
    have bounds := complete.rx_small _ _ ((complete.rx.listed pq).mpr ⟨l, listed⟩)
    simp only [APP_MAX_NIC_PORTS, APP_MAX_RX_QUEUES_PER_NIC_PORT, APP_MAX_LCORES] at bounds inside
    simp only [triple, List.mem_cons, List.not_mem_nil, or_false] at member
    omega
  constructor
  · intro n member
    obtain ⟨t, there, here⟩ := List.mem_flatMap.mp member
    obtain ⟨pq, listed, rfl⟩ := List.mem_map.mp there
    have := small pq listed n here
    omega
  · have length := @tuples_length 3 3 (by decide) (((queuesOf (app.lcore_params l)).map fun pq => (pq.1, pq.2, l)).map triple)
      (by
        simp only [List.map_map, List.forall_mem_map]
        exact fun pq listed => ⟨rfl, small pq listed⟩)
    have few := complete.few l
    simp only [List.length_map, APP_MAX_NIC_RX_QUEUES_PER_IO_LCORE] at length few
    show (tuples _).length ≤ APP_ARG_RX_MAX_CHARS
    simp only [APP_ARG_RX_MAX_CHARS]
    omega

private theorem tx_fits (complete : Complete eal app) {l : Nat} (inside : l < APP_MAX_LCORES) : Fits (tx_of app l) := by
  have small : ∀ port ∈ portsOf (app.lcore_params l), ∀ n ∈ pair (port, l), n < 10 ^ 3 := by
    intro port listed n member
    have bound := complete.tx_small _ ((complete.tx.listed port).mpr ⟨l, listed⟩)
    simp only [APP_MAX_NIC_PORTS, APP_MAX_LCORES] at bound inside
    simp only [pair, List.mem_cons, List.not_mem_nil, or_false] at member
    omega
  constructor
  · intro n member
    obtain ⟨t, there, here⟩ := List.mem_flatMap.mp member
    obtain ⟨port, listed, rfl⟩ := List.mem_map.mp there
    have := small port listed n here
    omega
  · have length := @tuples_length 2 3 (by decide) (((portsOf (app.lcore_params l)).map fun port => (port, l)).map pair)
      (by
        simp only [List.map_map, List.forall_mem_map]
        exact fun port listed => ⟨rfl, small port listed⟩)
    have few := complete.tx_few l
    simp only [List.length_map, APP_MAX_NIC_TX_PORTS_PER_IO_LCORE] at length few
    show (tuples _).length ≤ APP_ARG_TX_MAX_CHARS
    simp only [APP_ARG_TX_MAX_CHARS]
    omega

private theorem w_fits {l : Nat} (inside : l < APP_MAX_LCORES) : Fits (.w [l]) := by
  simp only [APP_MAX_LCORES] at inside
  constructor
  · simp only [Setting.numbers, List.mem_singleton, forall_eq]
    omega
  · have length := @separated_length 44 3 (by decide) [l] (by simp; omega)
    simp only [Setting.text, limit, Setting.opt, APP_ARG_W_MAX_CHARS, List.length_singleton] at length ⊢
    omega

private theorem lpm_fits {rule : LpmRule} (valid : Valid rule) : Fits (.lpm [ruleOf rule]) := by
  obtain ⟨ip, depth, if_out⟩ := valid
  simp only [APP_MAX_NIC_PORTS] at if_out
  have octets : ∀ n ∈ (ruleOf rule).ips, n < 10 ^ 3 := by
    simp only [Rule.ips, ruleOf, octets, List.forall_mem_cons]
    refine ⟨by omega, by omega, by omega, by omega, by simp⟩
  constructor
  · simp only [Setting.numbers, List.flatMap_cons, List.flatMap_nil, List.append_nil, List.forall_mem_append]
    refine ⟨fun n member => ?_, ?_⟩
    · have := octets n member
      omega
    · simp only [ruleOf, List.forall_mem_cons]
      exact ⟨by omega, by omega, by simp⟩
  · have address := @separated_length 46 3 (by decide) (ruleOf rule).ips octets
    have depth_length := @decimal_length rule.depth 2 (by decide) (by omega)
    have port_length := @decimal_length rule.if_out 2 (by decide) (by omega)
    simp only [Setting.text, limit, Setting.opt, APP_ARG_LPM_MAX_CHARS, List.flatMap_cons, List.flatMap_nil,
      List.append_nil, Rule.text, List.length_append, List.length_cons, List.length_nil]
    simp only [Rule.ips, ruleOf, List.length_cons, List.length_nil] at address ⊢
    omega

private theorem sizes_fit (complete : Complete eal app) : ∀ s ∈ sizes_of app, Fits s := by
  obtain ⟨io_rx_read, io_rx_write, worker_read, worker_write, io_tx_read, io_tx_write⟩ := complete.sizes
  have positive := complete.rings
  have pos := complete.pos
  simp only [APP_MBUF_ARRAY_SIZE] at *
  simp only [sizes_of, List.forall_mem_cons]
  refine ⟨⟨fun n member => (positive n member).2, ?_⟩, ⟨?_, ?_⟩, ⟨?_, ?_⟩, by simp⟩
  · have length := @separated_length 44 10 (by decide) (rings app) fun n member => by
      have := (positive n member).2
      omega
    exact length.trans (show 4 * (10 + 1) ≤ 63 by decide)
  · simp only [Setting.numbers, pair, List.forall_mem_append, List.forall_mem_cons]
    refine ⟨⟨⟨by omega, by omega, by simp⟩, by omega, by omega, by simp⟩, by omega, by omega, by simp⟩
  · have io_rx := @tuple_length (pair (app.burst_size_io_rx_read, app.burst_size_io_rx_write)) 2 3 (by decide) rfl
      (by simp only [pair, List.forall_mem_cons]; exact ⟨by omega, by omega, by simp⟩)
    have worker := @tuple_length (pair (app.burst_size_worker_read, app.burst_size_worker_write)) 2 3 (by decide) rfl
      (by simp only [pair, List.forall_mem_cons]; exact ⟨by omega, by omega, by simp⟩)
    have io_tx := @tuple_length (pair (app.burst_size_io_tx_read, app.burst_size_io_tx_write)) 2 10 (by decide) rfl
      (by simp only [pair, List.forall_mem_cons]; exact ⟨by omega, by omega, by simp⟩)
    simp only [Setting.text, limit, Setting.opt, tuples, reduceCtorEq, if_false, if_true, List.length_append,
      List.length_cons, List.length_nil, APP_ARG_BSZ_CHARS]
    omega
  · simp only [Setting.numbers, List.mem_singleton, forall_eq]
    omega
  · have length := @decimal_length app.pos_lb 2 (by decide) (by omega)
    simp only [Setting.text, limit, Setting.opt, APP_ARG_NUMERICAL_SIZE_CHARS]
    omega

private theorem written_fits (complete : Complete eal app) : ∀ s ∈ written app, Fits s := by
  have inside : ∀ p : Nat → Bool, ∀ l ∈ lcores.filter p, l < APP_MAX_LCORES := fun p l member =>
    List.mem_range.mp (List.mem_filter.mp member).1
  simp only [written, List.forall_mem_append, List.forall_mem_map]
  refine ⟨⟨⟨⟨fun l member => ?_, fun l member => ?_⟩, fun l member => ?_⟩, fun rule member => ?_⟩, sizes_fit complete⟩
  · exact rx_fits complete (inside _ l member)
  · exact tx_fits complete (inside _ l member)
  · exact w_fits (inside _ l member)
  · exact lpm_fits (complete.rules.1 rule member)

/-- All options are there. -/
private theorem written_given (complete : Complete eal app) (opt : Opt) : given opt (line (written app)) = true := by
  have there : ∀ s ∈ written app, s.opt = opt → given opt (line (written app)) = true := by
    intro s member same
    exact List.any_eq_true.mpr ⟨some (s.opt, s.text), List.mem_map_of_mem member, by simp [same]⟩
  have inside : ∀ {l}, app.lcore_params l ≠ .disabled → l ∈ lcores := fun typed =>
    List.mem_range.mpr (complete.inside _ typed)
  cases opt with
  | rx =>
    obtain ⟨port, queue, enabled⟩ := complete.receives
    obtain ⟨l, listed⟩ := (complete.rx.listed (port, queue)).mp enabled
    have receiver : l ∈ receivers app := List.mem_filter.mpr
      ⟨inside fun role => (by rw [role] at listed; cases listed), by simpa using List.ne_nil_of_mem listed⟩
    refine there (rx_of app l) ?_ rfl
    simp only [written, List.mem_append]
    exact .inl (.inl (.inl (.inl (List.mem_map_of_mem receiver))))
  | tx =>
    obtain ⟨port, enabled⟩ := complete.sends
    obtain ⟨l, listed⟩ := (complete.tx.listed port).mp enabled
    have sender : l ∈ senders app := List.mem_filter.mpr
      ⟨inside fun role => (by rw [role] at listed; cases listed), by simpa using List.ne_nil_of_mem listed⟩
    refine there (tx_of app l) ?_ rfl
    simp only [written, List.mem_append]
    exact .inl (.inl (.inl (.inr (List.mem_map_of_mem sender))))
  | w =>
    obtain ⟨l, works⟩ := complete.works
    have worker : l ∈ workers app := List.mem_filter.mpr ⟨inside fun role => (by rw [role] at works; cases works), works⟩
    refine there (.w [l]) ?_ rfl
    simp only [written, List.mem_append]
    exact .inl (.inl (.inr (List.mem_map.mpr ⟨l, worker, rfl⟩)))
  | lpm =>
    obtain ⟨rule, member⟩ := List.exists_mem_of_ne_nil _ complete.routes
    refine there (.lpm [ruleOf rule]) ?_ rfl
    simp only [written, List.mem_append]
    exact .inl (.inr (List.mem_map.mpr ⟨rule, member, rfl⟩))
  | rsz => exact there _ (List.mem_append_right _ (List.mem_cons_self)) rfl
  | bsz => exact there _ (List.mem_append_right _ (List.mem_cons_of_mem _ List.mem_cons_self)) rfl
  | pos_lb => exact there (.pos_lb app.pos_lb) (List.mem_append_right _ (by simp [sizes_of])) rfl

/-- A complete configuration is what the options that it is written out as lead to. -/
private theorem written_read (splits : Splits eal) (done : Complete eal app) :
    app_parse_args eal (line (written app)) = .ok app := by
  have read := line_read splits (written_fits done) (written_effect done)
  have given := written_given done
  have kept : defaults (line (written app)) app = app := by simp [defaults, given]
  unfold app_parse_args
  rw [read, result_bind, refuse_eq (by simp [given])]
  simp only [kept]
  rw [refuse_eq (by simp [done.table]), refuse_eq (by simp [done.back])]
  rfl

/-- Every configuration that a command line leads to, in whichever order and spelling
    its options stood, is written out as a command line that leads to it again. -/
theorem configurations_round_trip (splits : Splits eal) (run : app_parse_args eal opts = .ok app) :
    app_parse_args eal (line (written app)) = .ok app :=
  written_read splits (complete run)

theorem two_workers_round_trip : ∃ app, app_parse_args (Eal.first 4) (one_port (ascii "0x2,,3,2")) = .ok app ∧
    app_parse_args (Eal.first 4) (line (written app)) = .ok app := by
  obtain ⟨app, run⟩ : ∃ app, app_parse_args (Eal.first 4) (one_port (ascii "0x2,,3,2")) = .ok app := ⟨_, rfl⟩
  exact ⟨app, run, configurations_round_trip (fun _ _ _ => rfl) run⟩

/-- The configurations that command lines lead to are the complete ones. -/
theorem configurations_iff (splits : Splits eal) : (∃ opts, app_parse_args eal opts = .ok app) ↔ Complete eal app :=
  ⟨fun ⟨_, run⟩ => complete run, fun done => ⟨_, written_read splits done⟩⟩

theorem one_port_complete : ∃ app, app_parse_args (Eal.first 4) (one_port (ascii "2,3")) = .ok app ∧
    Complete (Eal.first 4) app := by
  obtain ⟨app, run⟩ : ∃ app, app_parse_args (Eal.first 4) (one_port (ascii "2,3")) = .ok app := ⟨_, rfl⟩
  exact ⟨app, run, (configurations_iff fun _ _ _ => rfl).mp ⟨_, run⟩⟩

end Shardb.Canonical
