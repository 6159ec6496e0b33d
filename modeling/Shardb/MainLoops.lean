import Shardb.Steps

/-!
# `runtime.c`: the main loops

Once started, an lcore calls the functions of its kind in turn, pass by pass, and
flushes its buffers first when it has made a million passes since. The lcores
run side by side: between two calls of one, the others make any number. What
they do together is a run of the functions (`loops_run`), in which each lcore makes
the calls of its passes one after the other (`loops_calls`), and once `force_quit`
is set each of them ends its pass and no other (`loops_return`).
-/

namespace Shardb.MainLoops
open Shardb.Loops Shardb.Lcores Shardb.Wiring Shardb.Runs Shardb.Transit Shardb.Conservation Shardb.Steps

def APP_LCORE_IO_FLUSH : Nat := 1000000
def APP_LCORE_WORKER_FLUSH : Nat := 1000000

/-- The functions that the main loops call. -/
inductive Call
  | io_rx_flush
  | io_tx_flush
  | io_rx
  | io_tx
  | worker_flush
  | worker
  deriving DecidableEq

/-! ### One pass -/

/-- One pass of the loop in `app_lcore_main_loop_io`, for an lcore that receives from
    queues or sends to ports: the calls it makes, and its counter behind them. -/
def io_pass (receives sends : Bool) (i : Nat) : List Call × Nat :=
  let due := APP_LCORE_IO_FLUSH ≠ 0 ∧ i = APP_LCORE_IO_FLUSH
  let flushes := if due then (if receives then [.io_rx_flush] else []) ++ (if sends then [.io_tx_flush] else []) else []
  let i := if due then 0 else i
  (flushes ++ (if receives then [.io_rx] else []) ++ (if sends then [.io_tx] else []), i + 1)

/-- And of the loop in `app_lcore_main_loop_worker`. -/
def worker_pass (i : Nat) : List Call × Nat :=
  let due := APP_LCORE_WORKER_FLUSH ≠ 0 ∧ i = APP_LCORE_WORKER_FLUSH
  let flushes := if due then [.worker_flush] else []
  let i := if due then 0 else i
  (flushes ++ [.worker], i + 1)

/-- Where an lcore is in `app_lcore_main_loop`: its counter, the calls that are left
    of the pass, and whether it has returned. -/
structure Loop where
  i : Nat
  calls : List Call
  returned : Bool

section Pass
variable {μ : Type}

/-- What an lcore does when it comes to `while`. A disabled one has no loop. -/
def begin_pass (force_quit : Bool) (params : Lcore μ) (loop : Loop) : Loop :=
  match params with
  | .disabled => { loop with returned := true }
  | .io rx tx =>
    if force_quit then { loop with returned := true }
    else
      let (calls, i) := io_pass (! rx.nic_queues.isEmpty) (! tx.nic_ports.isEmpty) loop.i
      { loop with i := i, calls := calls }
  | .worker _ =>
    if force_quit then { loop with returned := true }
    else
      let (calls, i) := worker_pass loop.i
      { loop with i := i, calls := calls }

private theorem io_pass_few (receives sends : Bool) (i : Nat) : (io_pass receives sends i).1.length ≤ 4 := by
  unfold io_pass
  by_cases due : APP_LCORE_IO_FLUSH ≠ 0 ∧ i = APP_LCORE_IO_FLUSH
  · cases receives <;> cases sends <;> simp [due]
  · cases receives <;> cases sends <;> simp [due]

private theorem worker_pass_few (i : Nat) : (worker_pass i).1.length ≤ 4 := by
  unfold worker_pass
  by_cases due : APP_LCORE_WORKER_FLUSH ≠ 0 ∧ i = APP_LCORE_WORKER_FLUSH <;> simp [due]

/-- A pass makes four calls at most. -/
theorem begin_pass_few (force_quit : Bool) (params : Lcore μ) {loop : Loop} (few : loop.calls.length ≤ 4) :
    (begin_pass force_quit params loop).calls.length ≤ 4 := by
  cases params with
  | disabled => exact few
  | io rx tx =>
    rw [begin_pass]
    split_ifs
    · exact few
    · exact io_pass_few ..
  | worker lp =>
    rw [begin_pass]
    split_ifs
    · exact few
    · exact worker_pass_few _

/-- No pass is begun once `force_quit` is set. -/
theorem begin_pass_quit (params : Lcore μ) (loop : Loop) : begin_pass true params loop = { loop with returned := true } := by
  cases params <;> rfl

end Pass

/-! ### All lcores -/

/-- The state that the functions work on, and where every lcore is. -/
structure Machine (σ : Type) where
  state : σ
  loops : Nat → Loop
  force_quit : Bool

/-- What happens next: an lcore comes to `while`, one makes its next call, or a signal
    arrives. Of `int_handler` only `force_quit` is looked at here, not that it closes and
    destroys the databases. -/
inductive Turn (ι : Type)
  | pass (lcore : Nat)
  | call (a : ι)
  | int_handler

/-- The call that is made, if it is one. -/
def Turn.made {ι : Type} : Turn ι → Option ι
  | .call a => some a
  | _ => none

/-- Before the loops are entered. -/
def launched {σ : Type} (s : σ) : Machine σ := ⟨s, fun _ => ⟨0, [], false⟩, false⟩

section Machine
variable {μ σ ι : Type} (lcores : σ → Nat → Lcore μ) (act : σ → ι → Result σ) (of : ι → Nat × Call)

/-- A call is made by the lcore `(of a).1` and is one of `(of a).2`. -/
def turn (m : Machine σ) : Turn ι → Result (Machine σ)
  | .pass l =>
    let loop := m.loops l
    if loop.returned ∨ loop.calls ≠ [] then .error .panic
    else .ok { m with loops := Function.update m.loops l (begin_pass m.force_quit (lcores m.state l) loop) }
  | .call a =>
    let loop := m.loops (of a).1
    match loop.calls with
    | [] => .error .panic
    | call :: calls =>
      if (of a).2 ≠ call then .error .panic
      else do
        let s ← act m.state a
        return { m with state := s, loops := Function.update m.loops (of a).1 { loop with calls := calls } }
  | .int_handler => .ok { m with force_quit := true }

def Turns (m : Machine σ) (t : Turn ι) (m' : Machine σ) : Prop := turn lcores act of m t = .ok m'

variable {lcores act of} {m m' : Machine σ}

theorem turn_pass {l : Nat} (step : Turns lcores act of m (.pass l) m') :
    (m.loops l).returned = false ∧ (m.loops l).calls = [] ∧
      m' = { m with loops := Function.update m.loops l (begin_pass m.force_quit (lcores m.state l) (m.loops l)) } := by
  simp only [Turns, turn] at step
  split_ifs at step with busy
  obtain ⟨going, done⟩ := not_or.mp busy
  cases step
  exact ⟨Bool.eq_false_iff.mpr going, not_not.mp done, rfl⟩

theorem turn_call {a : ι} (step : Turns lcores act of m (.call a) m') :
    ∃ calls s, (m.loops (of a).1).calls = (of a).2 :: calls ∧ act m.state a = .ok s ∧
      m' = { m with state := s, loops := Function.update m.loops (of a).1 { m.loops (of a).1 with calls := calls } } := by
  simp only [Turns, turn] at step
  cases left : (m.loops (of a).1).calls with
  | nil => simp [left] at step
  | cons call calls =>
    simp only [left] at step
    split_ifs at step with same
    rw [not_not] at same
    obtain ⟨s, done, step⟩ := bind_eq_ok.mp step
    cases step
    exact ⟨calls, s, by rw [same], done, rfl⟩

/-- What the lcores do side by side is a run of the functions they call. -/
theorem loops_run {trail : List (Machine σ × Turn ι × Machine σ)} {last : Machine σ}
    (run : Run (Turns lcores act of) m trail last) :
    ∃ calls, Run (fun s a s' => act s a = .ok s') m.state calls last.state ∧
      calls.map (fun e => e.2.1) = trail.filterMap fun e => e.2.1.made := by
  induction run with
  | stay => exact ⟨[], .stay, rfl⟩
  | @next trail m₁ m₂ t run step ih =>
    obtain ⟨calls, before, same⟩ := ih
    rw [List.filterMap_append, ← same]
    cases t with
    | pass l =>
      obtain ⟨-, -, rfl⟩ := turn_pass step
      exact ⟨calls, before, (List.append_nil _).symm⟩
    | call a =>
      obtain ⟨rest, s, -, done, rfl⟩ := turn_call step
      exact ⟨_, before.next done, by rw [List.map_append]; rfl⟩
    | int_handler =>
      cases step
      exact ⟨calls, before, (List.append_nil _).symm⟩

/-! ### The end -/

/-- The lcore comes to `while` and begins a pass. -/
def begins (l : Nat) (e : Machine σ × Turn ι × Machine σ) : Bool :=
  match e.2.1 with
  | .pass l' => l' = l && ! e.1.force_quit
  | _ => false

/-- The turns of one lcore. -/
def turns_of (of : ι → Nat × Call) (l : Nat) (t : Turn ι) : Bool :=
  match t with
  | .pass l' => l' = l
  | .call a => (of a).1 = l
  | .int_handler => false

/-- The turns an lcore has left once `force_quit` is set. -/
def turns_left (loop : Loop) : Nat := if loop.returned then 0 else loop.calls.length + 1

/-- Nothing is left to call for an lcore that has returned, and four calls at most for
    one that has not. -/
structure Timely (m : Machine σ) : Prop where
  few : ∀ l, (m.loops l).calls.length ≤ 4
  ended : ∀ l, (m.loops l).returned = true → (m.loops l).calls = []

theorem begin_pass_ended {params : Lcore μ} {force_quit : Bool} {loop : Loop} (none_left : loop.calls = [])
    (going : loop.returned = false) (ended : (begin_pass force_quit params loop).returned = true) :
    (begin_pass force_quit params loop).calls = [] := by
  cases params with
  | disabled => exact none_left
  | io rx tx =>
    rw [begin_pass] at ended ⊢
    split_ifs at ended ⊢
    · exact none_left
    · rw [going] at ended
      cases ended
  | worker lp =>
    rw [begin_pass] at ended ⊢
    split_ifs at ended ⊢
    · exact none_left
    · rw [going] at ended
      cases ended

theorem turn_timely {t : Turn ι} (timely : Timely m) (step : Turns lcores act of m t m') : Timely m' := by
  cases t with
  | int_handler =>
    cases step
    exact ⟨timely.few, timely.ended⟩
  | pass l =>
    obtain ⟨going, none_left, rfl⟩ := turn_pass step
    refine ⟨fun l' => ?_, fun l' => ?_⟩
    · show (Function.update m.loops l _ l').calls.length ≤ 4
      by_cases same : l' = l
      · rw [same, Function.update_self]
        exact begin_pass_few _ _ (timely.few l)
      · rw [Function.update_of_ne same]
        exact timely.few l'
    · show (Function.update m.loops l _ l').returned = true → (Function.update m.loops l _ l').calls = []
      by_cases same : l' = l
      · rw [same, Function.update_self]
        exact begin_pass_ended none_left going
      · rw [Function.update_of_ne same]
        exact timely.ended l'
  | call a =>
    obtain ⟨calls, s, left, -, rfl⟩ := turn_call step
    refine ⟨fun l => ?_, fun l => ?_⟩
    · show (Function.update m.loops (of a).1 _ l).calls.length ≤ 4
      by_cases same : l = (of a).1
      · rw [same, Function.update_self]
        have few := timely.few (of a).1
        rw [left, List.length_cons] at few
        exact Nat.le_of_succ_le few
      · rw [Function.update_of_ne same]
        exact timely.few l
    · show (Function.update m.loops (of a).1 _ l).returned = true → (Function.update m.loops (of a).1 _ l).calls = []
      by_cases same : l = (of a).1
      · rw [same, Function.update_self]
        intro ended
        rw [timely.ended _ ended] at left
        cases left
      · rw [Function.update_of_ne same]
        exact timely.ended l

theorem launched_timely (s : σ) : Timely (launched s) := ⟨fun _ => Nat.zero_le _, fun _ _ => rfl⟩

/-- A turn after `force_quit` is one of those that were left. -/
theorem turn_quits {t : Turn ι} (timely : Timely m) (quit : m.force_quit = true) (step : Turns lcores act of m t m')
    (l : Nat) : m'.force_quit = true ∧
      turns_left (m.loops l) = turns_left (m'.loops l) + (if turns_of of l t then 1 else 0) := by
  cases t with
  | int_handler =>
    cases step
    exact ⟨rfl, rfl⟩
  | pass l' =>
    obtain ⟨going, none_left, rfl⟩ := turn_pass step
    refine ⟨quit, ?_⟩
    show _ = turns_left (Function.update m.loops l' _ l) + (if decide (l' = l) then 1 else 0)
    by_cases same : l' = l
    · subst same
      rw [Function.update_self, quit, begin_pass_quit]
      simp [turns_left, going, none_left]
    · rw [Function.update_of_ne (Ne.symm same)]
      simp [same]
  | call a =>
    obtain ⟨calls, s, left, -, rfl⟩ := turn_call step
    have going : (m.loops (of a).1).returned = false := by
      by_contra none_left
      rw [timely.ended _ (by simpa using none_left)] at left
      cases left
    refine ⟨quit, ?_⟩
    show _ = turns_left (Function.update m.loops (of a).1 _ l) + (if decide ((of a).1 = l) then 1 else 0)
    by_cases same : (of a).1 = l
    · subst same
      rw [Function.update_self]
      simp [turns_left, going, left]
    · rw [Function.update_of_ne (Ne.symm same)]
      simp [same]

/-- Once `force_quit` is set an lcore makes the calls that its pass has left, four at
    most, comes to `while` once more and returns. -/
theorem loops_return {s : σ} {trail rest : List (Machine σ × Turn ι × Machine σ)} {last : Machine σ}
    (run : Run (Turns lcores act of) (launched s) trail m) (quit : m.force_quit = true)
    (more : Run (Turns lcores act of) m rest last) (l : Nat) :
    (rest.filter fun e => turns_of of l e.2.1).length + turns_left (last.loops l) = turns_left (m.loops l) ∧
      turns_left (m.loops l) ≤ 5 ∧ (turns_left (last.loops l) = 0 ↔ (last.loops l).returned = true) := by
  have timely : Timely m := run_keeps (fun _ m => Timely m) (fun _ _ => True)
    (fun _ _ _ _ timely step _ => turn_timely timely step) (launched_timely s) run fun _ _ => trivial
  refine ⟨?_, ?_, ?_⟩
  · refine (run_keeps (fun trail m' => (Timely m' ∧ m'.force_quit = true) ∧
      (trail.filter fun e => turns_of of l e.2.1).length + turns_left (m'.loops l) = turns_left (m.loops l))
      (fun _ _ => True) ?_ ⟨⟨timely, quit⟩, by simp⟩ more fun _ _ => trivial).2
    rintro trail m₁ t m₂ ⟨⟨timely, quit⟩, count⟩ step -
    obtain ⟨quit', left⟩ := turn_quits timely quit step l
    refine ⟨⟨turn_timely timely step, quit'⟩, ?_⟩
    rw [List.filter_append, List.length_append, ← count, left]
    by_cases own : turns_of of l t = true
    · simp [own]
      omega
    · simp [own]
  · have few := timely.few l
    unfold turns_left
    split_ifs <;> omega
  · unfold turns_left
    by_cases ended : (last.loops l).returned = true
    · simp [ended]
    · simp [ended]

end Machine

/-! ### The server -/

/-- Who makes a step, and the call it makes. -/
def call_of : Act → Nat × Call
  | .io_rx l _ => (l, .io_rx)
  | .io_rx_flush l => (l, .io_rx_flush)
  | .io_tx l _ => (l, .io_tx)
  | .io_tx_flush l _ => (l, .io_tx_flush)
  | .worker l _ => (l, .worker)
  | .worker_flush l => (l, .worker_flush)

/-- The lcores at their main loops. -/
abbrev LoopTurns (lpm_lookup : Nat → Option Nat) : Machine (System Arrival) → Turn Act → Machine (System Arrival) → Prop :=
  Turns System.lcore_params (act lpm_lookup) call_of

/-- The I/O lcore is interrupted before it has received. -/
theorem one_pass_returned : ∃ start trail rest m last, app_init small smallRoles = .ok start ∧
    Run (LoopTurns fun _ => none) (launched start) trail m ∧ Run (LoopTurns fun _ => none) m rest last ∧
    (last.loops 0).returned = true ∧
    (rest.filter fun e => turns_of call_of 0 e.2.1).length + turns_left (last.loops 0) = turns_left (m.loops 0) := by
  have played : (do
      let s ← app_init small smallRoles
      let m₁ ← turn System.lcore_params (act fun _ => none) call_of (launched s) (.pass 0)
      let m₂ ← turn System.lcore_params (act fun _ => none) call_of m₁ .int_handler
      let m₃ ← turn System.lcore_params (act fun _ => none) call_of m₂ (.call (.io_rx 0 fun _ => [[]]))
      let m₄ ← turn System.lcore_params (act fun _ => none) call_of m₃ (.call (.io_tx 0 fun _ burst => burst.length))
      let m₅ ← turn System.lcore_params (act fun _ => none) call_of m₄ (.pass 0)
      return (m₂.force_quit, (m₅.loops 0).returned)) = .ok (true, true) := by decide +kernel
  obtain ⟨start, ready, played⟩ := bind_eq_ok.mp played
  obtain ⟨m₁, one, played⟩ := bind_eq_ok.mp played
  obtain ⟨m₂, two, played⟩ := bind_eq_ok.mp played
  obtain ⟨m₃, three, played⟩ := bind_eq_ok.mp played
  obtain ⟨m₄, four, played⟩ := bind_eq_ok.mp played
  obtain ⟨m₅, five, played⟩ := bind_eq_ok.mp played
  obtain ⟨quit, returned⟩ := Prod.mk.inj (Except.ok.inj played)
  have run : Run (LoopTurns fun _ => none) (launched start) _ m₂ := (Run.stay.next one).next two
  have more : Run (LoopTurns fun _ => none) m₂ _ m₅ := ((Run.stay.next three).next four).next five
  exact ⟨start, _, _, m₂, m₅, ready, run, more, returned, (loops_return run quit more 0).1⟩

section Server
variable {app : Params} {roles : Nat → Role} {lpm_lookup : Nat → Option Nat} {start : System Arrival}
  {m m' : Machine (System Arrival)}

theorem going_turn {t : Turn Act} (going : Going app lpm_lookup start m.state) (step : LoopTurns lpm_lookup m t m') :
    Going app lpm_lookup start m'.state := by
  cases t with
  | int_handler =>
    cases step
    exact going
  | pass l =>
    obtain ⟨-, -, rfl⟩ := turn_pass step
    exact going
  | call a =>
    obtain ⟨calls, s, -, done, rfl⟩ := turn_call step
    exact going.step done

/-! ### What the passes call -/

/-- The calls of pass `n`, from 0 on: every million passes it flushes first, but not
    in the first one. -/
def pass_calls (params : Lcore Arrival) (n : Nat) : List Call :=
  match params with
  | .disabled => []
  | .io rx tx =>
    (if 0 < n ∧ n % APP_LCORE_IO_FLUSH = 0 then
      (if rx.nic_queues ≠ [] then [.io_rx_flush] else []) ++ (if tx.nic_ports ≠ [] then [.io_tx_flush] else [])
    else []) ++ (if rx.nic_queues ≠ [] then [.io_rx] else []) ++ if tx.nic_ports ≠ [] then [.io_tx] else []
  | .worker _ => (if 0 < n ∧ n % APP_LCORE_WORKER_FLUSH = 0 then [.worker_flush] else []) ++ [.worker]

/-- The counter of an lcore before pass `n`. -/
def counter : Nat → Nat
  | 0 => 0
  | n + 1 => n % APP_LCORE_IO_FLUSH + 1

private theorem counter_due (n : Nat) : counter n = APP_LCORE_IO_FLUSH ↔ 0 < n ∧ n % APP_LCORE_IO_FLUSH = 0 := by
  cases n with
  | zero => simp [counter, APP_LCORE_IO_FLUSH]
  | succ n =>
    simp only [counter, APP_LCORE_IO_FLUSH]
    omega

private theorem counter_next (n : Nat) :
    (if 0 < n ∧ n % APP_LCORE_IO_FLUSH = 0 then 0 else counter n) + 1 = counter (n + 1) := by
  cases n with
  | zero => rfl
  | succ n =>
    have period : APP_LCORE_IO_FLUSH = 1000000 := rfl
    rw [counter, counter]
    by_cases due : (n + 1) % APP_LCORE_IO_FLUSH = 0
    · rw [if_pos ⟨Nat.succ_pos n, due⟩, due]
    · rw [if_neg fun both => due both.2]
      rw [period] at due ⊢
      omega

private theorem io_pass_at (receives sends : Bool) (n : Nat) : io_pass receives sends (counter n) =
    ((if 0 < n ∧ n % APP_LCORE_IO_FLUSH = 0 then
      (if receives then [.io_rx_flush] else []) ++ (if sends then [.io_tx_flush] else []) else []) ++
      (if receives then [.io_rx] else []) ++ (if sends then [.io_tx] else []), counter (n + 1)) := by
  have positive : APP_LCORE_IO_FLUSH ≠ 0 := by decide
  simp only [io_pass, ne_eq, positive, not_false_eq_true, true_and, counter_due, counter_next]

private theorem worker_pass_at (n : Nat) : worker_pass (counter n) =
    ((if 0 < n ∧ n % APP_LCORE_WORKER_FLUSH = 0 then [.worker_flush] else []) ++ [.worker], counter (n + 1)) := by
  have same : APP_LCORE_WORKER_FLUSH = APP_LCORE_IO_FLUSH := rfl
  have positive : APP_LCORE_IO_FLUSH ≠ 0 := by decide
  simp only [worker_pass, same, ne_eq, positive, not_false_eq_true, true_and, counter_due, counter_next]

/-- A pass calls what is due, and counts on. -/
private theorem begin_pass_at {params : Lcore Arrival} {loop : Loop} {n : Nat} (none_left : loop.calls = [])
    (count : params ≠ .disabled → loop.i = counter n) :
    (begin_pass false params loop).calls = pass_calls params n ∧
      (params ≠ .disabled → (begin_pass false params loop).i = counter (n + 1)) := by
  cases params with
  | disabled => exact ⟨none_left, fun off => absurd rfl off⟩
  | io rx tx =>
    have now := count (by rintro ⟨⟩)
    simp only [begin_pass, now, io_pass_at, Bool.false_eq_true, if_false]
    exact ⟨by simp [pass_calls], fun _ => trivial⟩
  | worker lp =>
    have now := count (by rintro ⟨⟩)
    simp only [begin_pass, now, worker_pass_at, Bool.false_eq_true, if_false]
    exact ⟨rfl, fun _ => trivial⟩

private theorem fixed_pass_calls {p p' : Lcore Arrival} (fixed : Fixed p p') :
    pass_calls p' = pass_calls p ∧ (p' = .disabled ↔ p = .disabled) := by
  cases fixed with
  | disabled => exact ⟨rfl, Iff.rfl⟩
  | io receiving sending =>
    refine ⟨?_, by simp⟩
    funext n
    simp only [pass_calls, receiving.nic_queues, sending.nic_ports]
  | worker working => exact ⟨rfl, by simp⟩

/-- The call that lcore `l` makes, if it makes one. -/
def made_by (l : Nat) : Turn Act → Option Call
  | .call a => if (call_of a).1 = l then some (call_of a).2 else none
  | _ => none

/-- What lcore `l` has called, what it has yet to call, and where its counter is. -/
structure Called (l : Nat) (params : Lcore Arrival) (trail : List (Machine (System Arrival) × Turn Act × Machine (System Arrival)))
    (m : Machine (System Arrival)) : Prop where
  calls : (trail.filterMap fun e => made_by l e.2.1) ++ (m.loops l).calls =
    (List.range (trail.filter (begins l)).length).flatMap (pass_calls params)
  count : params ≠ .disabled → (m.loops l).i = counter (trail.filter (begins l)).length

theorem Called.turn {l : Nat} {trail : List (Machine (System Arrival) × Turn Act × Machine (System Arrival))} {t : Turn Act}
    (called : Called l (start.lcore_params l) trail m) (fixed : Fixed (start.lcore_params l) (m.state.lcore_params l))
    (step : LoopTurns lpm_lookup m t m') : Called l (start.lcore_params l) (trail ++ [(m, t, m')]) m' := by
  obtain ⟨calls, count⟩ := called
  -- a turn that is no pass of `l` adds to what was called what it takes from what is left
  have goes : begins l (m, t, m') = false → (made_by l t).toList ++ (m'.loops l).calls = (m.loops l).calls →
      (m'.loops l).i = (m.loops l).i → Called l (start.lcore_params l) (trail ++ [(m, t, m')]) m' := by
    intro none same counter
    have begun : (trail ++ [(m, t, m')]).filter (begins l) = trail.filter (begins l) := by simp [none]
    refine ⟨?_, fun on => ?_⟩
    · rw [begun, ← calls, ← same, List.filterMap_append, List.append_assoc]
      rfl
    · rw [begun, counter]
      exact count on
  cases t with
  | int_handler =>
    cases step
    exact goes rfl rfl rfl
  | pass l' =>
    obtain ⟨-, none_left, made⟩ := turn_pass step
    have loops : m'.loops = Function.update m.loops l' (begin_pass m.force_quit (m.state.lcore_params l') (m.loops l')) := by
      rw [made]
    by_cases own : l' = l
    · subst own
      by_cases quit : m.force_quit = true
      · have here : m'.loops l' = { m.loops l' with returned := true } := by
          rw [loops, Function.update_self, quit, begin_pass_quit]
        refine goes (by simp [begins, quit]) ?_ ?_
        · rw [here]
          rfl
        · rw [here]
      · rw [Bool.not_eq_true] at quit
        have here : m'.loops l' = begin_pass false (m.state.lcore_params l') (m.loops l') := by
          rw [loops, Function.update_self, quit]
        obtain ⟨same, disabled⟩ := fixed_pass_calls fixed
        obtain ⟨next, counted⟩ := begin_pass_at none_left fun on => count fun off => on (disabled.mpr off)
        rw [same] at next
        have begun : begins l' (m, (.pass l' : Turn Act), m') = true := by simp [begins, quit]
        rw [none_left, List.append_nil] at calls
        refine ⟨?_, fun on => ?_⟩
        · rw [List.filterMap_append, calls, here, next, List.filter_append, List.filter_cons_of_pos begun, List.filter_nil,
            List.length_append, List.length_singleton, List.range_succ, List.flatMap_append, List.flatMap_singleton]
          exact congrArg (· ++ _) (List.append_nil _)
        · rw [List.filter_append, List.filter_cons_of_pos begun, List.filter_nil, List.length_append,
            List.length_singleton, here]
          exact counted fun off => on (disabled.mp off)
    · have other : m'.loops l = m.loops l := by
        rw [loops]
        exact Function.update_of_ne (Ne.symm own) ..
      refine goes (by simp [begins, own]) ?_ ?_
      · rw [other]
        rfl
      · rw [other]
  | call a =>
    obtain ⟨rest, s, left, -, made⟩ := turn_call step
    have loops : m'.loops = Function.update m.loops (call_of a).1 { m.loops (call_of a).1 with calls := rest } := by
      rw [made]
    by_cases own : (call_of a).1 = l
    · subst own
      have here : m'.loops (call_of a).1 = { m.loops (call_of a).1 with calls := rest } := by
        rw [loops, Function.update_self]
      refine goes rfl ?_ ?_
      · rw [here, left, made_by, if_pos rfl]
        rfl
      · rw [here]
    · have other : m'.loops l = m.loops l := by
        rw [loops]
        exact Function.update_of_ne (Ne.symm own) ..
      refine goes rfl ?_ ?_
      · rw [other, made_by, if_neg own]
        rfl
      · rw [other]

/-- Whatever the others do, an lcore makes the calls of its passes one after the
    other. -/
theorem loops_calls (receiving : 0 < app.burst_size_io_rx_write) (working : 0 < app.burst_size_worker_write)
    (ready : app_init app roles = .ok start)
    {trail : List (Machine (System Arrival) × Turn Act × Machine (System Arrival))}
    (run : Run (LoopTurns lpm_lookup) (launched start) trail m) (l : Nat) :
    (trail.filterMap fun e => made_by l e.2.1) ++ (m.loops l).calls =
      (List.range (trail.filter (begins l)).length).flatMap (pass_calls (start.lcore_params l)) := by
  have all : Called l (start.lcore_params l) trail m ∧ Going app lpm_lookup start m.state := by
    refine run_keeps (fun trail m => Called l (start.lcore_params l) trail m ∧ Going app lpm_lookup start m.state)
      (fun _ _ => True) ?_ ⟨⟨rfl, fun _ => rfl⟩, .first receiving working ready⟩ run fun _ _ => trivial
    rintro trail m₁ t m₂ ⟨called, going⟩ step -
    exact ⟨called.turn (going.fixed l) step, going_turn going step⟩
  exact all.1.calls

end Server

/-- One pass of the I/O lcore and a bit of its next, while the worker waits. -/
theorem one_pass_called : ∃ start trail m, app_init small smallRoles = .ok start ∧
    Run (LoopTurns fun _ => none) (launched start) trail m ∧ (m.loops 0).calls = [.io_tx] ∧
    (trail.filterMap fun e => made_by 0 e.2.1) ++ (m.loops 0).calls =
      (List.range (trail.filter (begins 0)).length).flatMap (pass_calls (start.lcore_params 0)) := by
  have played : (do
      let s ← app_init small smallRoles
      let m₁ ← turn System.lcore_params (act fun _ => none) call_of (launched s) (.pass 0)
      let m₂ ← turn System.lcore_params (act fun _ => none) call_of m₁ (.call (.io_rx 0 fun _ => [[]]))
      let m₃ ← turn System.lcore_params (act fun _ => none) call_of m₂ (.pass 1)
      let m₄ ← turn System.lcore_params (act fun _ => none) call_of m₃ (.call (.io_tx 0 fun _ burst => burst.length))
      let m₅ ← turn System.lcore_params (act fun _ => none) call_of m₄ (.pass 0)
      let m₆ ← turn System.lcore_params (act fun _ => none) call_of m₅ (.call (.io_rx 0 fun _ => []))
      return (m₆.loops 0).calls) = .ok [.io_tx] := by decide +kernel
  obtain ⟨start, ready, played⟩ := bind_eq_ok.mp played
  obtain ⟨m₁, one, played⟩ := bind_eq_ok.mp played
  obtain ⟨m₂, two, played⟩ := bind_eq_ok.mp played
  obtain ⟨m₃, three, played⟩ := bind_eq_ok.mp played
  obtain ⟨m₄, four, played⟩ := bind_eq_ok.mp played
  obtain ⟨m₅, five, played⟩ := bind_eq_ok.mp played
  obtain ⟨m₆, six, played⟩ := bind_eq_ok.mp played
  have run : Run (LoopTurns fun _ => none) (launched start) _ m₆ :=
    (((((Run.stay.next one).next two).next three).next four).next five).next six
  exact ⟨start, _, m₆, ready, run, Except.ok.inj played, loops_calls (by decide) (by decide) ready run 0⟩

end Shardb.MainLoops
