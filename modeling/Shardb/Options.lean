import Mathlib.Logic.Relation
import Shardb.Config

/-!
# What the parsers of the options do

An option changes the parameters in small edits, one for each tuple, entry or
rule (`Edit`, `parse_arg_edits`). The loops of the parsers end within the bounds
that the model gives them (`app_parse_args_finishes`).
-/

namespace Shardb.Options
open Shardb.Bytes (Text)
open Shardb.Loops Shardb.Wiring Shardb.Config
open Shardb.Lcores (APP_MAX_LCORES APP_MAX_NIC_PORTS APP_MAX_NIC_TX_PORTS_PER_IO_LCORE APP_MBUF_ARRAY_SIZE)

/-! ### Parsers that succeed -/

@[simp] theorem toOption_some {ε α : Type} {x : Except ε α} {a : α} : x.toOption = some a ↔ x = .ok a := by
  cases x with
  | error e => simp [Except.toOption]
  | ok b => simp [Except.toOption]

@[simp] theorem refuse_ok {bad : Prop} [Decidable bad] {ret : Int} {u : Unit} : refuse bad ret = .ok u ↔ ¬ bad := by
  unfold refuse
  split_ifs with refused
  · simp [refused]
  · simp [refused]

@[simp] theorem expect_ok {α : Type} {ret : Int} {o : Option α} {a : α} : expect ret o = .ok a ↔ o = some a := by
  cases o with
  | none => simp [expect]
  | some b => simp [expect]

/-- What is kept by all parts of a list that are read. -/
private theorem mapM_some {α β : Type} {f : α → Option β} {P : β → Prop} (each : ∀ a b, f a = some b → P b) :
    ∀ {l : List α} {bs : List β}, l.mapM f = some bs → ∀ b ∈ bs, P b := by
  intro l
  induction l with
  | nil =>
    intro bs all
    cases all
    simp
  | cons a l ih =>
    intro bs all
    rw [List.mapM_cons] at all
    obtain ⟨b, first, all⟩ := Option.bind_eq_some_iff.mp all
    obtain ⟨rest, others, all⟩ := Option.bind_eq_some_iff.mp all
    cases all
    exact List.forall_mem_cons.mpr ⟨each a b first, ih others⟩

section Vals
variable {eal : Eal} {s : Text} {sbuflen num_vals : Nat} {separator : UInt8} {vals : List Nat}

/-- The numbers have 32 bits. -/
theorem vals_small (run : str_to_unsigned_vals eal s sbuflen separator num_vals = .ok vals) : ∀ v ∈ vals, v < 2 ^ 32 := by
  unfold str_to_unsigned_vals str_to_unsigned_array at run
  split at run
  · rename_i read
    cases run
    refine mapM_some (fun split v here => ?_) read
    dsimp only at here
    split_ifs at here
    cases here
    exact Nat.mod_lt _ (by decide)
  · cases run

end Vals

/-! ### Edits -/

/-- The burst sizes pass the test of `--bsz`. -/
structure Sizes (app : Params) : Prop where
  io_rx_read : 0 < app.burst_size_io_rx_read ∧ app.burst_size_io_rx_read ≤ APP_MBUF_ARRAY_SIZE
  io_rx_write : 0 < app.burst_size_io_rx_write ∧ app.burst_size_io_rx_write ≤ APP_MBUF_ARRAY_SIZE
  worker_read : 0 < app.burst_size_worker_read ∧ app.burst_size_worker_read ≤ APP_MBUF_ARRAY_SIZE
  worker_write : 0 < app.burst_size_worker_write ∧ app.burst_size_worker_write ≤ APP_MBUF_ARRAY_SIZE
  io_tx_read : 0 < app.burst_size_io_tx_read ∧ app.burst_size_io_tx_read < 2 ^ 32 ∧
    2 * app.burst_size_io_tx_read % 2 ^ 32 ≤ APP_MBUF_ARRAY_SIZE
  io_tx_write : 0 < app.burst_size_io_tx_write ∧ app.burst_size_io_tx_write ≤ APP_MBUF_ARRAY_SIZE

/-- What each option does to the parameters. -/
inductive Edit (eal : Eal) : Opt → App → App → Prop
  | rx {app : App} {port queue lcore : Nat} {nic_queues : List (Nat × Nat)} {nic_ports : List Nat}
      (small : port < APP_MAX_NIC_PORTS ∧ queue < APP_MAX_RX_QUEUES_PER_NIC_PORT)
      (new : app.nic_rx_queue_mask port queue = false) (enabled : eal.rte_lcore_is_enabled lcore = true)
      (inside : lcore < APP_MAX_LCORES) (io : ioOf (app.lcore_params lcore) = some (nic_queues, nic_ports))
      (room : nic_queues.length < APP_MAX_NIC_RX_QUEUES_PER_IO_LCORE) :
      Edit eal .rx app ((app.enableRx port queue).setLcore lcore (.io (nic_queues ++ [(port, queue)]) nic_ports))
  | tx {app : App} {port lcore : Nat} {nic_queues : List (Nat × Nat)} {nic_ports : List Nat}
      (small : port < APP_MAX_NIC_PORTS) (new : app.nic_tx_port_mask port = false)
      (enabled : eal.rte_lcore_is_enabled lcore = true) (inside : lcore < APP_MAX_LCORES)
      (io : ioOf (app.lcore_params lcore) = some (nic_queues, nic_ports))
      (room : nic_ports.length < APP_MAX_NIC_TX_PORTS_PER_IO_LCORE) :
      Edit eal .tx app ((app.enableTx port).setLcore lcore (.io nic_queues (nic_ports ++ [port])))
  | w {app : App} {lcore : Nat} (enabled : eal.rte_lcore_is_enabled lcore = true) (inside : lcore < APP_MAX_LCORES)
      (free : isIo (app.lcore_params lcore) = false) : Edit eal .w app (app.setLcore lcore .worker)
  | lpm {app : App} {rule : LpmRule} (small : rule.if_out < APP_MAX_NIC_PORTS) :
      Edit eal .lpm app { app with lpm_rules := app.lpm_rules ++ [rule] }
  | rsz {app : App} (a b c d : Nat) : Edit eal .rsz app { app with
      nic_rx_ring_size := a
      ring_rx_size := b
      ring_tx_size := c
      nic_tx_ring_size := d }
  | bsz {app app' : App} (sizes : Sizes app'.toParams) (others : ∃ a b c d e f, app' = { app with
      burst_size_io_rx_read := a
      burst_size_io_rx_write := b
      burst_size_worker_read := c
      burst_size_worker_write := d
      burst_size_io_tx_read := e
      burst_size_io_tx_write := f }) : Edit eal .bsz app app'
  | pos_lb {app : App} (x : Nat) : Edit eal .pos_lb app { app with pos_lb := x }

abbrev Edits (eal : Eal) (opt : Opt) : App → App → Prop := Relation.ReflTransGen (Edit eal opt)

/-! ### The entries of `--w` -/

/-- What stands behind each comma, unless nothing does. -/
def behindCommas : Text → List Text
  | [] => []
  | c :: rest => if c = 44 then (if rest = [] then [] else rest :: behindCommas rest) else behindCommas rest

/-- The numbers that an argument of `--w` lists. -/
def w_lcores (arg : Text) : List Nat :=
  (if arg = [] then [] else arg :: behindCommas arg).map fun p => (strtoul p 0).value % 2 ^ 32

private theorem behindCommas_eq (s : Text) :
    behindCommas s = match strchr s 44 with
      | none => []
      | some rest => if rest.drop 1 = [] then [] else rest.drop 1 :: behindCommas (rest.drop 1) := by
  induction s with
  | nil => rfl
  | cons c s ih =>
    by_cases comma : c = 44
    · subst comma
      rfl
    · have later : strchr (c :: s) 44 = strchr s 44 := by
        have passes : (c != 44) = true := by simpa using comma
        simp only [strchr, List.dropWhile_cons, passes, if_true]
      rw [behindCommas, if_neg comma, ih, later]

private theorem w_lcores_eq {s : Text} (left : s ≠ []) :
    w_lcores s = ((strtoul s 0).value % 2 ^ 32) :: match strchr s 44 with
      | none => []
      | some rest => w_lcores (rest.drop 1) := by
  unfold w_lcores
  rw [if_neg left, List.map_cons, behindCommas_eq]
  congr 1
  cases strchr s 44 with
  | none => rfl
  | some rest => rfl

section Parsers
variable {eal : Eal} {app app' : App} {arg : Text}

private theorem rx_tuple_edit {port queue lcore : Nat} (run : rx_tuple eal port queue lcore app = .ok app') :
    Edit eal .rx app app' := by
  simp only [rx_tuple, bind_eq_ok, refuse_ok, expect_ok] at run
  obtain ⟨-, small, -, new, -, enabled, -, inside, ⟨nic_queues, nic_ports⟩, io, -, -, -, room, run⟩ := run
  cases run
  exact .rx (by omega) (by simpa using new) (by simpa using enabled) (by omega) io (by omega)

private theorem tx_tuple_edit {port lcore : Nat} (run : tx_tuple eal port lcore app = .ok app') :
    Edit eal .tx app app' := by
  simp only [tx_tuple, bind_eq_ok, refuse_ok, expect_ok] at run
  obtain ⟨-, small, -, new, -, enabled, -, inside, ⟨nic_queues, nic_ports⟩, io, -, -, -, room, run⟩ := run
  cases run
  exact .tx (by omega) (by simpa using new) (by simpa using enabled) (by omega) io (by omega)

/-- The tuples of an argument, each an edit. -/
private theorem parse_tuples_edits {opt : Opt} {num max_chars max_tuples : Nat} {body : List Nat → App → Parsed App}
    (each : ∀ vals app app', body vals app = .ok app' → Edit eal opt app app')
    (run : parse_tuples eal num max_chars max_tuples body arg app = .ok app') : Edits eal opt app app' := by
  simp only [parse_tuples, bind_eq_ok, refuse_ok] at run
  obtain ⟨-, -, s, looped, -, -, run⟩ := run
  cases run
  refine loop_ok (fun s => Edits eal opt app s.app) (fun s => Edits eal opt app s.app) ?_ ?_ .refl looped
  · intro s next before pass
    unfold tuple_pass at pass
    split at pass
    · cases pass
    · simp only [bind_eq_ok, refuse_ok, expect_ok] at pass
      obtain ⟨p0, -, vals, -, -, -, app₁, once, -, -, pass⟩ := pass
      cases pass
      exact before.tail (each vals _ _ once)
  · intro s last before pass
    unfold tuple_pass at pass
    split at pass
    · cases pass
      exact before
    · simp only [bind_eq_ok, refuse_ok, expect_ok] at pass
      obtain ⟨p0, -, vals, -, -, -, app₁, -, -, -, pass⟩ := pass
      cases pass

/-- There is a last tuple. -/
private theorem parse_tuples_last {num max_chars max_tuples : Nat} {body : List Nat → App → Parsed App} (Post : App → Prop)
    (each : ∀ vals app app', body vals app = .ok app' → Post app')
    (run : parse_tuples eal num max_chars max_tuples body arg app = .ok app') : Post app' := by
  simp only [parse_tuples, bind_eq_ok, refuse_ok] at run
  obtain ⟨-, -, s, looped, -, some, run⟩ := run
  cases run
  have last : s.n_tuples = 0 ∨ Post s.app := by
    refine loop_ok (fun s => s.n_tuples = 0 ∨ Post s.app) (fun s => s.n_tuples = 0 ∨ Post s.app) ?_ ?_ (.inl rfl) looped
    · intro s next _ pass
      unfold tuple_pass at pass
      split at pass
      · cases pass
      · simp only [bind_eq_ok, refuse_ok, expect_ok] at pass
        obtain ⟨p0, -, vals, -, -, -, app₁, once, -, -, pass⟩ := pass
        cases pass
        exact .inr (each vals _ _ once)
    · intro s last before pass
      unfold tuple_pass at pass
      split at pass
      · cases pass
        exact before
      · simp only [bind_eq_ok, refuse_ok, expect_ok] at pass
        obtain ⟨p0, -, vals, -, -, -, app₁, -, -, -, pass⟩ := pass
        cases pass
  exact last.resolve_left some

theorem parse_arg_rx_enables (run : parse_arg_rx eal arg app = .ok app') :
    ∃ port queue, app'.nic_rx_queue_mask port queue = true := by
  refine parse_tuples_last (fun app => ∃ port queue, app.nic_rx_queue_mask port queue = true) ?_ run
  intro vals app app' once
  cases rx_tuple_edit once with
  | @rx _ port queue => exact ⟨port, queue, by simp [App.enableRx, App.setLcore]⟩

theorem setLcore_worker (app : App) (lcore l : Nat) :
    isWorker ((app.setLcore lcore .worker).lcore_params l) = true ↔ l = lcore ∨ isWorker (app.lcore_params l) = true := by
  show isWorker (Function.update app.lcore_params lcore .worker l) = true ↔ _
  by_cases same : l = lcore
  · rw [same, Function.update_self]
    simp [isWorker]
  · rw [Function.update_of_ne same]
    simp [same]

private theorem w_pass_edits {s : Scan} {outcome : Scan ⊕ Scan} (run : w_pass eal s = .ok outcome) :
    (s.p = [] ∧ outcome = .inr s) ∨
    ∃ app', Edit eal .w s.app app' ∧ s.n_tuples + 1 ≤ APP_ARG_W_MAX_TUPLES ∧
      (∀ l, isWorker (app'.lcore_params l) = true ↔
        l = (strtoul s.p 0).value % 2 ^ 32 ∨ isWorker (s.app.lcore_params l) = true) ∧
      s.p ≠ [] ∧ ((strchr s.p 44 = none ∧ outcome = .inr ⟨s.p, s.n_tuples + 1, app'⟩) ∨
        ∃ p, strchr s.p 44 = some p ∧ outcome = .inl ⟨p.drop 1, s.n_tuples + 1, app'⟩) := by
  unfold w_pass at run
  by_cases done : s.p = []
  · rw [if_pos done] at run
    cases run
    exact .inl ⟨done, rfl⟩
  · rw [if_neg done] at run
    simp only [bind_eq_ok, refuse_ok] at run
    obtain ⟨-, -, -, enabled, -, inside, -, free, -, few, run⟩ := run
    have edit : Edit eal .w s.app (s.app.setLcore ((strtoul s.p 0).value % 2 ^ 32) .worker) :=
      .w (by simpa using enabled) (by omega) (by simpa using free)
    refine .inr ⟨_, edit, by omega, fun l => setLcore_worker _ _ l, done, ?_⟩
    split at run
    · rename_i last
      cases run
      exact .inl ⟨last, rfl⟩
    · rename_i p more
      cases run
      exact .inr ⟨p, more, rfl⟩

/-- The workers are those there were and those that are listed. -/
theorem parse_arg_w_edits (run : parse_arg_w eal arg app = .ok app') : Edits eal .w app app' ∧
    ∀ l, isWorker (app'.lcore_params l) = true ↔ isWorker (app.lcore_params l) = true ∨ l ∈ w_lcores arg := by
  simp only [parse_arg_w, bind_eq_ok, refuse_ok] at run
  obtain ⟨-, -, s, looped, -, -, -, -, run⟩ := run
  cases run
  refine loop_ok
    (fun s => Edits eal .w app s.app ∧ ∀ l, (isWorker (s.app.lcore_params l) = true ∨ l ∈ w_lcores s.p) ↔
      (isWorker (app.lcore_params l) = true ∨ l ∈ w_lcores arg))
    (fun s => Edits eal .w app s.app ∧ ∀ l, isWorker (s.app.lcore_params l) = true ↔
      (isWorker (app.lcore_params l) = true ∨ l ∈ w_lcores arg)) ?_ ?_ ⟨.refl, fun _ => Iff.rfl⟩ looped
  · rintro s next ⟨before, listed⟩ pass
    rcases w_pass_edits pass with ⟨-, bad⟩ | ⟨app', edit, -, workers, left, ⟨-, bad⟩ | ⟨p, more, goes⟩⟩
    · cases bad
    · cases bad
    · cases goes
      refine ⟨before.tail edit, fun l => ?_⟩
      rw [← listed, w_lcores_eq left, more, workers, List.mem_cons]
      tauto
  · rintro s last ⟨before, listed⟩ pass
    rcases w_pass_edits pass with ⟨done, leaves⟩ | ⟨app', edit, -, workers, left, ⟨last, leaves⟩ | ⟨p, -, bad⟩⟩
    · cases leaves
      refine ⟨before, fun l => ?_⟩
      rw [← listed, done]
      simp [w_lcores]
    · cases leaves
      refine ⟨before.tail edit, fun l => ?_⟩
      rw [← listed, w_lcores_eq left, last, workers, List.mem_singleton]
      tauto
    · cases bad

theorem parse_arg_w_works (run : parse_arg_w eal arg app = .ok app') :
    ∃ l, isWorker (app'.lcore_params l) = true := by
  have some : arg ≠ [] := by
    rintro rfl
    cases run
  refine ⟨(strtoul arg 0).value % 2 ^ 32, ((parse_arg_w_edits run).2 _).mpr (.inr ?_)⟩
  rw [w_lcores_eq some]
  exact List.mem_cons_self

private theorem lpm_pass_edits {s : LpmScan} {outcome : LpmScan ⊕ App} (run : lpm_pass eal s = .ok outcome) :
    outcome = .inr s.app ∨ ∃ next, outcome = .inl next ∧ Edit eal .lpm s.app next.app := by
  unfold lpm_pass at run
  by_cases done : s.p = []
  · rw [if_pos done] at run
    cases run
    exact .inl rfl
  · rw [if_neg done] at run
    simp only [bind_eq_ok, refuse_ok, expect_ok] at run
    obtain ⟨p0, -, vals, -, -, -, -, -, p, -, -, -, -, ranges, -, -, p', -, run⟩ := run
    cases run
    refine .inr ⟨_, rfl, .lpm ?_⟩
    have small : (strtoul (p.drop 1) 0).value % 2 ^ 32 < APP_MAX_NIC_PORTS := by
      by_contra large
      exact ranges (.inr (.inr (.inr (by omega))))
    exact lt_of_le_of_lt (Nat.mod_le _ _) small

private theorem parse_arg_lpm_edits (run : parse_arg_lpm eal arg app = .ok app') : Edits eal .lpm app app' := by
  simp only [parse_arg_lpm, bind_eq_ok, refuse_ok] at run
  obtain ⟨-, -, app₁, looped, -, -, run⟩ := run
  cases run
  refine loop_ok (fun s => Edits eal .lpm app s.app) (fun app₁ => Edits eal .lpm app app₁) ?_ ?_ .refl looped
  · intro s next before pass
    rcases lpm_pass_edits pass with bad | ⟨next', left, edit⟩
    · cases bad
    · cases left
      exact before.tail edit
  · intro s last before pass
    rcases lpm_pass_edits pass with left | ⟨next', bad, -⟩
    · cases left
      exact before
    · cases bad

private theorem burst_pair_small {p p0 : Text} {ret : Int} {sizes : Nat × Nat} (run : burst_pair eal p p0 ret = .ok sizes) :
    sizes.1 < 2 ^ 32 := by
  unfold burst_pair at run
  split_ifs at run
  simp only [bind_eq_ok, refuse_ok] at run
  obtain ⟨vals, read, -, two, run⟩ := run
  cases run
  rcases vals with _ | ⟨v, vals⟩
  · simp at two
  · exact vals_small read v List.mem_cons_self

/-- What `--bsz` stores passed its test. -/
theorem parse_arg_bsz_edit (run : parse_arg_bsz eal arg app = .ok app') : Edit eal .bsz app app' := by
  simp only [parse_arg_bsz, bind_eq_ok, refuse_ok, expect_ok] at run
  obtain ⟨-, -, p0, -, ⟨a, b⟩, -, p, -, p0', -, ⟨c, d⟩, -, p', -, p0'', -, ⟨e, f⟩, last, -, positive, -, few, run⟩ := run
  cases run
  have small : e < 2 ^ 32 := burst_pair_small last
  simp only [not_or, Nat.not_lt] at positive few
  obtain ⟨a0, b0, c0, d0, e0, f0⟩ := positive
  obtain ⟨a1, b1, c1, d1, e1, f1⟩ := few
  exact .bsz ⟨⟨Nat.pos_of_ne_zero a0, a1⟩, ⟨Nat.pos_of_ne_zero b0, b1⟩, ⟨Nat.pos_of_ne_zero c0, c1⟩,
    ⟨Nat.pos_of_ne_zero d0, d1⟩, ⟨Nat.pos_of_ne_zero e0, small, e1⟩, ⟨Nat.pos_of_ne_zero f0, f1⟩⟩
    ⟨a, b, c, d, e, f, rfl⟩

/-- An option is a series of edits. -/
theorem parse_arg_edits {opt : Opt} (run : parse_arg eal opt arg app = .ok app') : Edits eal opt app app' := by
  cases opt with
  | rx => exact parse_tuples_edits (fun vals app app' once => rx_tuple_edit once) run
  | tx => exact parse_tuples_edits (fun vals app app' once => tx_tuple_edit once) run
  | w => exact (parse_arg_w_edits run).1
  | lpm => exact parse_arg_lpm_edits run
  | rsz =>
    simp only [parse_arg, parse_arg_rsz, bind_eq_ok, refuse_ok] at run
    obtain ⟨-, -, vals, -, -, -, -, -, run⟩ := run
    cases run
    exact .single (.rsz _ _ _ _)
  | bsz => exact .single (parse_arg_bsz_edit run)
  | pos_lb =>
    simp only [parse_arg, parse_arg_pos_lb, bind_eq_ok, refuse_ok] at run
    obtain ⟨-, -, -, -, -, -, run⟩ := run
    cases run
    exact .single (.pos_lb _)

end Parsers

/-! ### The loops come to an end -/

/-- The character that is found stands first. -/
theorem strchr_some {s rest : Text} {c : UInt8} (found : strchr s c = some rest) :
    rest.head? = some c ∧ rest.length ≤ s.length ∧ (rest.length = s.length → rest = s) := by
  unfold strchr at found
  split at found
  · cases found
  · rename_i kept some
    cases found
    have sub := List.dropWhile_sublist (fun x => x != c) (l := s)
    refine ⟨?_, sub.length_le, sub.eq_of_length⟩
    have first := List.head?_dropWhile_not (fun x => x != c) s
    cases head : (s.dropWhile (· != c)).head? with
    | none => exact absurd (List.head?_eq_none_iff.mp head) some
    | some x =>
      rw [head] at first
      simpa using first

theorem strchr_behind {s rest : Text} {c : UInt8} (found : strchr s c = some rest) :
    (rest.drop 1).length < s.length := by
  obtain ⟨first, short, -⟩ := strchr_some found
  have some : 0 < rest.length := List.length_pos_iff.mpr fun none => by simp [none] at first
  rw [List.length_drop]
  omega

/-- The two brackets of a tuple are not the same character. -/
theorem closes_behind {s p p0 : Text} (opens : strchr s 40 = some p) (closes : strchr p 41 = some p0) :
    p0.length < p.length := by
  obtain ⟨bracket, -, -⟩ := strchr_some opens
  obtain ⟨bracket', short, whole⟩ := strchr_some closes
  refine lt_of_le_of_ne short fun same => ?_
  rw [whole same, bracket] at bracket'
  cases bracket'

/-- The passes of a parser's loop were enough. -/
structure Finishes {α : Type} (x : Parsed α) : Prop where
  enough : x ≠ .error .unfinished

section Finishes
variable {α β : Type}

@[simp] private theorem ok_finishes {a : α} : Finishes (.ok a : Parsed α) := ⟨by simp⟩

@[simp] private theorem pure_finishes {a : α} : Finishes (pure a : Parsed α) := ok_finishes

@[simp] private theorem code_finishes {ret : Int} : Finishes (.error (.code ret) : Parsed α) := ⟨by simp⟩

@[simp] private theorem fault_finishes {f : Lcores.Fault} : Finishes (.error (.fault f) : Parsed α) := ⟨by simp⟩

@[simp] private theorem bind_finishes {x : Parsed α} {f : α → Parsed β} :
    Finishes (x >>= f) ↔ Finishes x ∧ ∀ a, x = .ok a → Finishes (f a) := by
  cases x with
  | error e =>
    have same : ((Except.error e : Parsed α) >>= f) = .error e := rfl
    rw [same]
    constructor
    · exact fun fine => ⟨⟨fun out => fine.enough (by cases out; rfl)⟩, by rintro a ⟨⟩⟩
    · exact fun fine => ⟨fun out => fine.1.enough (by cases out; rfl)⟩
  | ok a =>
    constructor
    · exact fun fine => ⟨ok_finishes, by rintro a' ⟨⟩; exact fine⟩
    · exact fun fine => fine.2 a rfl

@[simp] private theorem map_finishes {x : Parsed α} {f : α → β} : Finishes (f <$> x) ↔ Finishes x := by
  rw [map_eq_pure_bind, bind_finishes]
  simp

@[simp] private theorem refuse_finishes {bad : Prop} [Decidable bad] {ret : Int} : Finishes (refuse bad ret) := by
  unfold refuse
  split_ifs <;> simp

@[simp] private theorem expect_finishes {ret : Int} {o : Option α} : Finishes (expect ret o) := by
  cases o <;> simp [expect]

end Finishes

section Parsers
variable {eal : Eal} {arg : Text} {app : App}

@[simp] private theorem vals_finishes {s : Text} {sbuflen num_vals : Nat} {separator : UInt8} :
    Finishes (str_to_unsigned_vals eal s sbuflen separator num_vals) := by
  unfold str_to_unsigned_vals
  split <;> simp

theorem tuple_pass_lowers {num max_tuples : Nat} {body : List Nat → App → Parsed App} (s next : Scan)
    (pass : tuple_pass eal num max_tuples body s = .ok (.inl next)) : next.p.length < s.p.length := by
  unfold tuple_pass at pass
  split at pass
  · cases pass
  · rename_i p opens
    simp only [bind_eq_ok, refuse_ok, expect_ok] at pass
    obtain ⟨p0, closes, vals, -, -, -, app₁, -, -, -, pass⟩ := pass
    cases pass
    exact lt_of_lt_of_le (closes_behind opens closes) (strchr_some opens).2.1

private theorem parse_tuples_finishes {num max_chars max_tuples : Nat} {body : List Nat → App → Parsed App}
    (each : ∀ vals app, Finishes (body vals app)) :
    Finishes (parse_tuples eal num max_chars max_tuples body arg app) := by
  have looped : Finishes (loop .unfinished (tuple_pass eal num max_tuples body) (arg.length + 1) ⟨arg, 0, app⟩) := by
    refine ⟨loop_finishes (fun s => s.p.length) tuple_pass_lowers (fun s => Finishes.enough ?_) (Nat.lt_succ_self _)⟩
    unfold tuple_pass
    split
    · simp
    · simp [each]
  unfold parse_tuples
  simp [looped]

private theorem w_pass_lowers (s next : Scan) (pass : w_pass eal s = .ok (.inl next)) : next.p.length < s.p.length := by
  rcases w_pass_edits pass with ⟨-, bad⟩ | ⟨app', -, -, -, -, ⟨-, bad⟩ | ⟨p, more, goes⟩⟩
  · cases bad
  · cases bad
  · cases goes
    exact strchr_behind more

private theorem parse_arg_w_finishes : Finishes (parse_arg_w eal arg app) := by
  have looped : Finishes (loop .unfinished (w_pass eal) (arg.length + 1) ⟨arg, 0, app⟩) := by
    refine ⟨loop_finishes (fun s => s.p.length) w_pass_lowers (fun s => Finishes.enough ?_) (Nat.lt_succ_self _)⟩
    unfold w_pass
    split_ifs
    · simp
    · cases strchr s.p 44 with
      | none => simp
      | some p => simp
  unfold parse_arg_w
  simp [looped]

theorem lpm_pass_lowers (s next : LpmScan) (pass : lpm_pass eal s = .ok (.inl next)) :
    next.p.length < s.p.length := by
  unfold lpm_pass at pass
  by_cases done : s.p = []
  · rw [if_pos done] at pass
    cases pass
  · rw [if_neg done] at pass
    simp only [bind_eq_ok, refuse_ok, expect_ok] at pass
    obtain ⟨p0, slash, vals, -, -, -, -, -, p, arrow, -, -, -, -, -, -, p', semicolon, pass⟩ := pass
    cases pass
    have first := strchr_behind slash
    have second := strchr_behind arrow
    have third := strchr_behind semicolon
    dsimp only
    omega

private theorem parse_arg_lpm_finishes : Finishes (parse_arg_lpm eal arg app) := by
  have looped : Finishes (loop .unfinished (lpm_pass eal) (arg.length + 1) ⟨arg, app⟩) := by
    refine ⟨loop_finishes (fun s => s.p.length) lpm_pass_lowers (fun s => Finishes.enough ?_) (Nat.lt_succ_self _)⟩
    unfold lpm_pass
    split_ifs
    · simp
    · simp
  unfold parse_arg_lpm
  simp [looped]

@[simp] private theorem burst_pair_finishes {p p0 : Text} {ret : Int} : Finishes (burst_pair eal p p0 ret) := by
  unfold burst_pair
  split_ifs
  · simp
  · simp

theorem parse_arg_finishes (opt : Opt) : Finishes (parse_arg eal opt arg app) := by
  cases opt with
  | rx => exact parse_tuples_finishes fun vals app => by simp [rx_tuple]
  | tx => exact parse_tuples_finishes fun vals app => by simp [tx_tuple]
  | w => exact parse_arg_w_finishes
  | lpm => exact parse_arg_lpm_finishes
  | rsz => simp [parse_arg, parse_arg_rsz]
  | bsz => simp [parse_arg, parse_arg_bsz]
  | pos_lb => simp [parse_arg, parse_arg_pos_lb]

private theorem parse_opt_finishes {o : Option (Opt × Text)} : Finishes (parse_opt eal app o) := by
  refine bind_finishes.mpr ⟨expect_finishes, fun pair _ => ?_⟩
  dsimp only
  split
  · simp
  · exact parse_arg_finishes pair.1

/-- The bounds on the passes refuse no command line. -/
theorem app_parse_args_finishes (opts : List (Option (Opt × Text))) : Finishes (app_parse_args eal opts) := by
  have all : ∀ app, Finishes (opts.foldlM (parse_opt eal) app) := by
    induction opts with
    | nil => exact fun app => ok_finishes
    | cons o opts ih => exact fun app => bind_finishes.mpr ⟨parse_opt_finishes, fun app _ => ih app⟩
  unfold app_parse_args
  simp [all]

end Parsers

end Shardb.Options
