import Shardb.Options

/-!
# What a command line that is accepted leaves

What every edit of an option keeps holds of the parameters that any accepted
command line leaves: a queue or port that is enabled is listed by one lcore, the
burst sizes passed their test, and the workers are those of the lists
(`Accepted`).
-/

namespace Shardb.CommandLine
open Shardb.Bytes (Text ascii)
open Shardb.Loops Shardb.Wiring Shardb.Config Shardb.Options
open Shardb.Lcores (APP_MAX_LCORES APP_MAX_NIC_PORTS APP_MAX_NIC_TX_PORTS_PER_IO_LCORE APP_MBUF_ARRAY_SIZE)

/-! ### What is enabled is listed once -/

/-- Of the items that lcores list, those under the mask are listed, each by one
    lcore and once. -/
structure Assigned {α : Type} (mask : α → Prop) (items : Nat → List α) : Prop where
  listed : ∀ a, mask a ↔ ∃ l, a ∈ items l
  unique : ∀ a l l', a ∈ items l → a ∈ items l' → l = l'
  nodup : ∀ l, (items l).Nodup

section Assigned
variable {α : Type} {mask mask' : α → Prop} {items items' : Nat → List α}

/-- Another item for one lcore. -/
theorem Assigned.add (assigned : Assigned mask items) (new : α) (lcore : Nat) (fresh : ¬ mask new)
    (masked : ∀ a, mask' a ↔ a = new ∨ mask a) (here : items' lcore = items lcore ++ [new])
    (others : ∀ l, l ≠ lcore → items' l = items l) : Assigned mask' items' := by
  have member : ∀ {a l}, a ∈ items' l ↔ a ∈ items l ∨ (a = new ∧ l = lcore) := by
    intro a l
    by_cases same : l = lcore
    · subst same
      rw [here, List.mem_append, List.mem_singleton]
      simp
    · rw [others l same]
      simp [same]
  have unlisted : ∀ l, new ∉ items l := fun l there => fresh ((assigned.listed new).mpr ⟨l, there⟩)
  constructor
  · intro a
    rw [masked, assigned.listed]
    simp only [member]
    constructor
    · rintro (rfl | ⟨l, there⟩)
      · exact ⟨lcore, .inr ⟨rfl, rfl⟩⟩
      · exact ⟨l, .inl there⟩
    · rintro ⟨l, there | ⟨rfl, -⟩⟩
      · exact .inr ⟨l, there⟩
      · exact .inl rfl
  · intro a l l' first second
    rw [member] at first second
    rcases first with first | ⟨rfl, rfl⟩
    · rcases second with second | ⟨rfl, rfl⟩
      · exact assigned.unique a l l' first second
      · exact absurd first (unlisted l)
    · rcases second with second | ⟨-, rfl⟩
      · exact absurd second (unlisted l')
      · rfl
  · intro l
    by_cases same : l = lcore
    · subst same
      rw [here]
      exact List.nodup_append.mpr ⟨assigned.nodup l, List.nodup_singleton new, fun a there b last => by
        rintro rfl
        exact unlisted l (List.mem_singleton.mp last ▸ there)⟩
    · rw [others l same]
      exact assigned.nodup l

end Assigned

def queuesOf : Role → List (Nat × Nat)
  | .io nic_queues _ => nic_queues
  | _ => []

def portsOf : Role → List Nat
  | .io _ nic_ports => nic_ports
  | _ => []

/-- What every edit keeps. -/
structure Sound (app : App) : Prop where
  rx : Assigned (fun pq : Nat × Nat => app.nic_rx_queue_mask pq.1 pq.2 = true) (fun l => queuesOf (app.lcore_params l))
  tx : Assigned (fun port => app.nic_tx_port_mask port = true) (fun l => portsOf (app.lcore_params l))
  rx_small : ∀ port queue, app.nic_rx_queue_mask port queue = true →
    port < APP_MAX_NIC_PORTS ∧ queue < APP_MAX_RX_QUEUES_PER_NIC_PORT
  tx_small : ∀ port, app.nic_tx_port_mask port = true → port < APP_MAX_NIC_PORTS
  tx_few : ∀ l, (portsOf (app.lcore_params l)).length ≤ APP_MAX_NIC_TX_PORTS_PER_IO_LCORE
  inside : ∀ l, app.lcore_params l ≠ .disabled → l < APP_MAX_LCORES

theorem zeroed_sound : Sound zeroed := by
  constructor
  · exact ⟨fun a => by simp [zeroed, queuesOf], fun a l l' first => by simp [zeroed, queuesOf] at first,
      fun l => List.nodup_nil⟩
  · exact ⟨fun a => by simp [zeroed, portsOf], fun a l l' first => by simp [zeroed, portsOf] at first,
      fun l => List.nodup_nil⟩
  · intro port queue enabled
    cases enabled
  · intro port enabled
    cases enabled
  · intro l
    exact Nat.zero_le _
  · intro l typed
    exact absurd rfl typed

section Sound
variable {eal : Eal} {app app' : App}

private theorem ioOf_some {role : Role} {nic_queues : List (Nat × Nat)} {nic_ports : List Nat}
    (io : ioOf role = some (nic_queues, nic_ports)) : queuesOf role = nic_queues ∧ portsOf role = nic_ports := by
  cases role with
  | disabled => cases io; exact ⟨rfl, rfl⟩
  | io nic_queues' nic_ports' => cases io; exact ⟨rfl, rfl⟩
  | worker => cases io

/-- One lcore gets another role. -/
private theorem setLcore_other {app : App} {lcore l : Nat} (role : Role) (other : l ≠ lcore) :
    (app.setLcore lcore role).lcore_params l = app.lcore_params l :=
  Function.update_of_ne other ..

@[simp] private theorem setLcore_here (app : App) (lcore : Nat) (role : Role) :
    (app.setLcore lcore role).lcore_params lcore = role :=
  Function.update_self ..

theorem of_setLcore (app : App) {P : Nat → Role → Prop} {lcore : Nat} {role : Role} (here : P lcore role)
    (others : ∀ l, P l (app.lcore_params l)) (l : Nat) : P l ((app.setLcore lcore role).lcore_params l) := by
  by_cases same : l = lcore
  · subst same
    rw [setLcore_here]
    exact here
  · rw [setLcore_other role same]
    exact others l

/-- What a role keeps of the one before is the same everywhere. -/
private theorem part_setLcore (app : App) {β : Type} (part : Role → β) (lcore : Nat) (role : Role)
    (same : part role = part (app.lcore_params lcore)) :
    (fun l => part ((app.setLcore lcore role).lcore_params l)) = fun l => part (app.lcore_params l) := by
  funext l
  by_cases here : l = lcore
  · subst here
    rw [setLcore_here, same]
  · rw [setLcore_other role here]

private theorem worker_sound (sound : Sound app) {lcore : Nat} (inside : lcore < APP_MAX_LCORES)
    (free : isIo (app.lcore_params lcore) = false) : Sound (app.setLcore lcore .worker) := by
  have nothing : queuesOf (app.lcore_params lcore) = [] ∧ portsOf (app.lcore_params lcore) = [] := by
    cases role : app.lcore_params lcore with
    | io nic_queues nic_ports => rw [role] at free; cases free
    | disabled => exact ⟨rfl, rfl⟩
    | worker => exact ⟨rfl, rfl⟩
  constructor
  · rw [part_setLcore app queuesOf lcore .worker nothing.1.symm]
    exact sound.rx
  · rw [part_setLcore app portsOf lcore .worker nothing.2.symm]
    exact sound.tx
  · exact sound.rx_small
  · exact sound.tx_small
  · exact of_setLcore _ (P := fun _ role => (portsOf role).length ≤ APP_MAX_NIC_TX_PORTS_PER_IO_LCORE) (Nat.zero_le _)
      sound.tx_few
  · exact of_setLcore _ (P := fun l role => role ≠ .disabled → l < APP_MAX_LCORES) (fun _ => inside) sound.inside

theorem enableRx_masked (app : App) (port queue : Nat) (pq : Nat × Nat) :
    (app.enableRx port queue).nic_rx_queue_mask pq.1 pq.2 = true ↔
      pq = (port, queue) ∨ app.nic_rx_queue_mask pq.1 pq.2 = true := by
  obtain ⟨p, q⟩ := pq
  show Function.update app.nic_rx_queue_mask port _ p q = true ↔ _
  by_cases same : p = port
  · subst same
    rw [Function.update_self]
    by_cases same' : q = queue
    · subst same'
      simp
    · simp [same']
  · rw [Function.update_of_ne same]
    simp [same]

theorem enableTx_masked (app : App) (port p : Nat) :
    (app.enableTx port).nic_tx_port_mask p = true ↔ p = port ∨ app.nic_tx_port_mask p = true := by
  show Function.update app.nic_tx_port_mask port true p = true ↔ _
  by_cases same : p = port
  · subst same
    simp
  · rw [Function.update_of_ne same]
    simp [same]

private theorem rx_sound (sound : Sound app) {port queue lcore : Nat}
    (small : port < APP_MAX_NIC_PORTS ∧ queue < APP_MAX_RX_QUEUES_PER_NIC_PORT)
    (new : app.nic_rx_queue_mask port queue = false) (inside : lcore < APP_MAX_LCORES) :
    Sound ((app.enableRx port queue).setLcore lcore
      (.io (queuesOf (app.lcore_params lcore) ++ [(port, queue)]) (portsOf (app.lcore_params lcore)))) := by
  set role : Role := .io (queuesOf (app.lcore_params lcore) ++ [(port, queue)]) (portsOf (app.lcore_params lcore))
  constructor
  · refine sound.rx.add (port, queue) lcore (by simp [new]) (enableRx_masked app port queue) ?_ fun l other => ?_
    · rw [setLcore_here]
      rfl
    · rw [setLcore_other role other]
      rfl
  · rw [part_setLcore (app.enableRx port queue) portsOf lcore role rfl]
    exact sound.tx
  · intro p q enabled
    rcases (enableRx_masked app port queue (p, q)).mp enabled with same | before
    · cases same
      exact small
    · exact sound.rx_small p q before
  · exact sound.tx_small
  · exact of_setLcore _ (P := fun _ role => (portsOf role).length ≤ APP_MAX_NIC_TX_PORTS_PER_IO_LCORE)
      (sound.tx_few lcore) sound.tx_few
  · exact of_setLcore _ (P := fun l role => role ≠ .disabled → l < APP_MAX_LCORES) (fun _ => inside) sound.inside

private theorem tx_sound (sound : Sound app) {port lcore : Nat} (small : port < APP_MAX_NIC_PORTS)
    (new : app.nic_tx_port_mask port = false) (inside : lcore < APP_MAX_LCORES)
    (room : (portsOf (app.lcore_params lcore)).length < APP_MAX_NIC_TX_PORTS_PER_IO_LCORE) :
    Sound ((app.enableTx port).setLcore lcore
      (.io (queuesOf (app.lcore_params lcore)) (portsOf (app.lcore_params lcore) ++ [port]))) := by
  set role : Role := .io (queuesOf (app.lcore_params lcore)) (portsOf (app.lcore_params lcore) ++ [port])
  constructor
  · rw [part_setLcore (app.enableTx port) queuesOf lcore role rfl]
    exact sound.rx
  · refine sound.tx.add port lcore (by simp [new]) (enableTx_masked app port) ?_ fun l other => ?_
    · rw [setLcore_here]
      rfl
    · rw [setLcore_other role other]
      rfl
  · exact sound.rx_small
  · intro p enabled
    rcases (enableTx_masked app port p).mp enabled with rfl | before
    · exact small
    · exact sound.tx_small p before
  · refine of_setLcore _ (P := fun _ role => (portsOf role).length ≤ APP_MAX_NIC_TX_PORTS_PER_IO_LCORE) ?_
      sound.tx_few
    show (portsOf (app.lcore_params lcore) ++ [port]).length ≤ _
    rw [List.length_append, List.length_singleton]
    omega
  · exact of_setLcore _ (P := fun l role => role ≠ .disabled → l < APP_MAX_LCORES) (fun _ => inside) sound.inside

theorem edit_sound {opt : Opt} (sound : Sound app) (edit : Edit eal opt app app') : Sound app' := by
  cases edit with
  | lpm | rsz | pos_lb => exact ⟨sound.rx, sound.tx, sound.rx_small, sound.tx_small, sound.tx_few, sound.inside⟩
  | bsz sizes others =>
    obtain ⟨a, b, c, d, e, f, rfl⟩ := others
    exact ⟨sound.rx, sound.tx, sound.rx_small, sound.tx_small, sound.tx_few, sound.inside⟩
  | w enabled inside free => exact worker_sound sound inside free
  | rx small new enabled inside io room =>
    obtain ⟨rfl, rfl⟩ := ioOf_some io
    exact rx_sound sound small new inside
  | tx small new enabled inside io room =>
    obtain ⟨rfl, rfl⟩ := ioOf_some io
    exact tx_sound sound small new inside room

end Sound

/-! ### The whole command line -/

/-- The lcores that all the options `--w` list. -/
def workersListed (opts : List (Option (Opt × Text))) : List Nat :=
  opts.flatMap fun
    | some (.w, optarg) => w_lcores optarg
    | _ => []

section CommandLine
variable {eal : Eal} {opts : List (Option (Opt × Text))} {app app' : App}

theorem parse_opt_ok {o : Option (Opt × Text)} (run : parse_opt eal app o = .ok app') :
    ∃ opt optarg, o = some (opt, optarg) ∧ parse_arg eal opt optarg app = .ok app' := by
  simp only [parse_opt, bind_eq_ok, expect_ok] at run
  obtain ⟨⟨opt, optarg⟩, rfl, run⟩ := run
  refine ⟨opt, optarg, rfl, ?_⟩
  split at run
  · cases run
  · exact run

/-- What every edit keeps, all options keep. -/
theorem edits_keep {opt : Opt} (Inv : App → Prop) (keeps : ∀ {a b}, Inv a → Edit eal opt a b → Inv b)
    (inv : Inv app) (edits : Edits eal opt app app') : Inv app' := by
  induction edits with
  | refl => exact inv
  | tail before edit ih => exact keeps ih edit

/-- Only `--w` makes workers. -/
private theorem edit_workers {opt : Opt} (other : opt ≠ .w) (edit : Edit eal opt app app') (l : Nat) :
    isWorker (app'.lcore_params l) = isWorker (app.lcore_params l) := by
  have not_worker : ∀ {role : Role} {a b}, ioOf role = some (a, b) → isWorker role = false := by
    intro role a b io
    cases role with
    | disabled => rfl
    | io a b => rfl
    | worker => cases io
  cases edit with
  | w => exact absurd rfl other
  | lpm | rsz | pos_lb => rfl
  | bsz sizes others =>
    obtain ⟨a, b, c, d, e, f, rfl⟩ := others
    rfl
  | @rx _ port queue lcore nic_queues nic_ports small new enabled inside io room =>
    exact congrFun (part_setLcore (app.enableRx port queue) isWorker lcore (.io (nic_queues ++ [(port, queue)]) nic_ports)
      (not_worker io).symm) l
  | @tx _ port lcore nic_queues nic_ports small new enabled inside io room =>
    exact congrFun (part_setLcore (app.enableTx port) isWorker lcore (.io nic_queues (nic_ports ++ [port]))
      (not_worker io).symm) l

/-- Only `--bsz` sets the burst sizes. -/
private theorem edit_sizes {opt : Opt} (other : opt ≠ .bsz) (sizes : Sizes app.toParams) (edit : Edit eal opt app app') :
    Sizes app'.toParams := by
  obtain ⟨a, b, c, d, e, f⟩ := sizes
  cases edit with
  | bsz => exact absurd rfl other
  | rx | tx | w | lpm | rsz | pos_lb => exact ⟨a, b, c, d, e, f⟩

private theorem options_sound (run : opts.foldlM (parse_opt eal) zeroed = .ok app) : Sound app := by
  refine foldlM_ok (fun _ app => Sound app) (fun o rest app app' sound once => ?_) zeroed_sound run
  obtain ⟨opt, optarg, -, parsed⟩ := parse_opt_ok once
  exact edits_keep Sound (fun sound edit => edit_sound sound edit) sound (parse_arg_edits parsed)

private theorem options_workers (run : opts.foldlM (parse_opt eal) zeroed = .ok app) (l : Nat) :
    isWorker (app.lcore_params l) = true ↔ l ∈ workersListed opts := by
  have last := foldlM_ok
    (fun rest app => (isWorker (app.lcore_params l) = true ∨ l ∈ workersListed rest) ↔ l ∈ workersListed opts)
    (fun o rest app app' listed once => ?_) ?_ run
  · simpa [workersListed] using last
  · obtain ⟨opt, optarg, rfl, parsed⟩ := parse_opt_ok once
    rw [← listed]
    by_cases w : opt = .w
    · subst w
      rw [(parse_arg_w_edits parsed).2 l]
      simp only [workersListed, List.flatMap_cons, List.mem_append]
      tauto
    · have same : isWorker (app'.lcore_params l) = isWorker (app.lcore_params l) :=
        edits_keep (fun a => isWorker (a.lcore_params l) = isWorker (app.lcore_params l))
          (fun before edit => (edit_workers w edit l).trans before) rfl (parse_arg_edits parsed)
      have none : workersListed (some (opt, optarg) :: rest) = workersListed rest := by
        cases opt with
        | w => exact absurd rfl w
        | rx | tx | lpm | rsz | bsz | pos_lb => rfl
      rw [same, none]
  · simp [zeroed, isWorker]

/-- What an option establishes, when it was given and no other takes it away. -/
theorem options_given (opt : Opt) (Post : App → Prop)
    (sets : ∀ {optarg a b}, parse_arg eal opt optarg a = .ok b → Post b)
    (keeps : ∀ {o a b}, o ≠ opt → Post a → Edit eal o a b → Post b)
    (run : opts.foldlM (parse_opt eal) zeroed = .ok app) (was : given opt opts = true) : Post app := by
  have last := foldlM_ok (fun rest app => given opt rest = true ∨ Post app) (fun o rest app app' before once => ?_)
    (.inl was) run
  · rcases last with bad | post
    · cases bad
    · exact post
  · obtain ⟨o, optarg, rfl, parsed⟩ := parse_opt_ok once
    by_cases here : o = opt
    · subst here
      exact .inr (sets parsed)
    · rcases before with later | post
      · refine .inl ?_
        simpa [given, here] using later
      · exact .inr (edits_keep Post (keeps here) post (parse_arg_edits parsed))

private theorem options_sizes (run : opts.foldlM (parse_opt eal) zeroed = .ok app) (bsz : given .bsz opts = true) :
    Sizes app.toParams := by
  refine options_given .bsz (fun app => Sizes app.toParams) (fun parsed => ?_) edit_sizes run bsz
  cases parse_arg_bsz_edit parsed with
  | bsz sizes => exact sizes

private theorem default_sizes : 0 < APP_DEFAULT_BURST_SIZE ∧ APP_DEFAULT_BURST_SIZE ≤ APP_MBUF_ARRAY_SIZE ∧
    APP_DEFAULT_BURST_SIZE < 2 ^ 32 ∧ 2 * APP_DEFAULT_BURST_SIZE % 2 ^ 32 ≤ APP_MBUF_ARRAY_SIZE := by decide

/-- Every default passes the test of its option. -/
private theorem defaults_sizes (given_sizes : given .bsz opts = true → Sizes app.toParams) :
    Sizes (defaults opts app).toParams := by
  unfold defaults
  cases bsz : given .bsz opts with
  | true =>
    obtain ⟨a, b, c, d, e, f⟩ := given_sizes bsz
    cases given .rsz opts <;> cases given .pos_lb opts <;> exact ⟨a, b, c, d, e, f⟩
  | false =>
    obtain ⟨pos, fits, small, double⟩ := default_sizes
    cases given .rsz opts <;> cases given .pos_lb opts <;>
      exact ⟨⟨pos, fits⟩, ⟨pos, fits⟩, ⟨pos, fits⟩, ⟨pos, fits⟩, ⟨pos, small, double⟩, ⟨pos, fits⟩⟩

/-- Defaults are sizes. -/
theorem defaults_others (opts : List (Option (Opt × Text))) (app : App) :
    (defaults opts app).lcore_params = app.lcore_params ∧
    (defaults opts app).nic_rx_queue_mask = app.nic_rx_queue_mask ∧
    (defaults opts app).nic_tx_port_mask = app.nic_tx_port_mask ∧ (defaults opts app).lpm_rules = app.lpm_rules := by
  unfold defaults
  cases given .rsz opts <;> cases given .bsz opts <;> cases given .pos_lb opts <;> exact ⟨rfl, rfl, rfl, rfl⟩

/-- What a command line leaves that is accepted. -/
structure Accepted (opts : List (Option (Opt × Text))) (app : App) : Prop extends Sound app where
  sizes : Sizes app.toParams
  workers : ∀ l, isWorker (app.lcore_params l) = true ↔ l ∈ workersListed opts
  rules : ∀ rule ∈ app.lpm_rules, app.nic_tx_port_mask rule.if_out = true
  back : ∀ port queue, app.nic_rx_queue_mask port queue = true → app.nic_tx_port_mask port = true
  mandatory : given .rx opts = true ∧ given .tx opts = true ∧ given .w opts = true ∧ given .lpm opts = true

theorem accepted (run : app_parse_args eal opts = .ok app) : Accepted opts app := by
  simp only [app_parse_args, bind_eq_ok, refuse_ok] at run
  obtain ⟨parsed, options, -, mandatory, -, rules, -, back, run⟩ := run
  cases run
  obtain ⟨roles, rx, tx, lpm⟩ := defaults_others opts parsed
  have sound := options_sound options
  have enabled : ∀ port queue, (defaults opts parsed).nic_rx_queue_mask port queue = true →
      port < APP_MAX_NIC_PORTS ∧ queue < APP_MAX_RX_QUEUES_PER_NIC_PORT := by
    rw [rx]
    exact sound.rx_small
  constructor
  · obtain ⟨a, b, c, d, e, f⟩ := sound
    constructor
    · rw [roles, rx]
      exact a
    · rw [roles, tx]
      exact b
    · rw [rx]
      exact c
    · rw [tx]
      exact d
    · rw [roles]
      exact e
    · rw [roles]
      exact f
  · exact defaults_sizes (options_sizes options)
  · rw [roles]
    exact options_workers options
  · simp only [app_check_lpm_table, Bool.not_eq_false, List.all_eq_true] at rules
    exact rules
  · intro port queue here
    obtain ⟨small, small'⟩ := enabled port queue here
    simp only [app_check_every_rx_port_is_tx_enabled, Bool.not_eq_false, List.all_eq_true, List.mem_range,
      Bool.or_eq_true, decide_eq_true_eq] at back
    rcases back port small with none | sends
    · refine absurd (List.mem_filter.mpr ⟨List.mem_range.mpr small', here⟩) ?_
      rw [List.length_eq_zero_iff.mp none]
      exact List.not_mem_nil
    · exact sends
  · simp only [not_or, Bool.not_eq_false] at mandatory
    exact mandatory

theorem app_parse_args_options (run : app_parse_args eal opts = .ok app) :
    ∃ parsed, opts.foldlM (parse_opt eal) zeroed = .ok parsed ∧ app = defaults opts parsed := by
  simp only [app_parse_args, bind_eq_ok] at run
  obtain ⟨parsed, options, -, -, -, -, -, -, run⟩ := run
  cases run
  exact ⟨parsed, options, rfl⟩

/-- The lists of `--w` are not empty. -/
theorem some_worker (run : app_parse_args eal opts = .ok app) : workersListed opts ≠ [] := by
  obtain ⟨parsed, options, -⟩ := app_parse_args_options run
  obtain ⟨l, worker⟩ := options_given .w (fun app => ∃ l, isWorker (app.lcore_params l) = true)
    (fun parsed => parse_arg_w_works parsed)
    (fun other before edit => before.imp fun l worker => (edit_workers other edit l).trans worker) options
    (accepted run).mandatory.2.2.1
  exact List.ne_nil_of_mem ((options_workers options l).mp worker)

/-- Nor are those of `--rx`. -/
theorem some_queue (run : app_parse_args eal opts = .ok app) : ∃ port queue, app.nic_rx_queue_mask port queue = true := by
  obtain ⟨parsed, options, rfl⟩ := app_parse_args_options run
  rw [(defaults_others opts parsed).2.1]
  refine options_given .rx (fun app => ∃ port queue, app.nic_rx_queue_mask port queue = true)
    (fun parsed => parse_arg_rx_enables parsed) ?_ options (accepted run).mandatory.1
  intro o a b other before edit
  cases edit with
  | rx => exact absurd rfl other
  | tx | w | lpm | rsz | pos_lb => exact before
  | bsz sizes others =>
    obtain ⟨a, b, c, d, e, f, rfl⟩ := others
    exact before

/-- An lcore has room for all its queues. -/
theorem queues_few (run : app_parse_args eal opts = .ok app) (l : Nat) :
    (queuesOf (app.lcore_params l)).length ≤ APP_MAX_NIC_RX_QUEUES_PER_IO_LCORE := by
  obtain ⟨parsed, options, rfl⟩ := app_parse_args_options run
  rw [(defaults_others opts parsed).1]
  refine foldlM_ok (fun _ app => ∀ l, (queuesOf (app.lcore_params l)).length ≤ APP_MAX_NIC_RX_QUEUES_PER_IO_LCORE)
    (fun o rest app app' few once => ?_) (fun l => Nat.zero_le _) options l
  obtain ⟨opt, optarg, -, parsed⟩ := parse_opt_ok once
  refine edits_keep (fun app => ∀ l, (queuesOf (app.lcore_params l)).length ≤ APP_MAX_NIC_RX_QUEUES_PER_IO_LCORE)
    (fun {a b} few edit => ?_) few (parse_arg_edits parsed)
  cases edit with
  | @rx _ port queue lcore nic_queues nic_ports small new enabled inside io room =>
    refine of_setLcore (a.enableRx port queue)
      (P := fun _ role => (queuesOf role).length ≤ APP_MAX_NIC_RX_QUEUES_PER_IO_LCORE) ?_ few
    show (nic_queues ++ [(port, queue)]).length ≤ _
    rw [List.length_append]
    exact room
  | @tx _ port lcore nic_queues nic_ports small new enabled inside io room =>
    refine of_setLcore (a.enableTx port)
      (P := fun _ role => (queuesOf role).length ≤ APP_MAX_NIC_RX_QUEUES_PER_IO_LCORE) ?_ few
    rw [← (ioOf_some io).1]
    exact few lcore
  | w enabled inside free =>
    exact of_setLcore _ (P := fun _ role => (queuesOf role).length ≤ APP_MAX_NIC_RX_QUEUES_PER_IO_LCORE) (Nat.zero_le _) few
  | lpm | rsz | pos_lb => exact few
  | bsz sizes others =>
    obtain ⟨a, b, c, d, e, f, rfl⟩ := others
    exact few

end CommandLine

/-- One port, which lcore 1 receives from and sends to, and a list of workers. -/
def one_port (w : Text) : List (Option (Opt × Text)) :=
  [some (.rx, ascii "(0,0,1)"), some (.tx, ascii "(0,1)"), some (.w, w), some (.lpm, ascii "10.0.0.0/8=>0;")]

end Shardb.CommandLine
