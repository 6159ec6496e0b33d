import Mathlib.Data.List.Nodup
import Mathlib.Data.List.Range
import Shardb.Lcores
import Shardb.Loops

/-!
# `init.c`: worker ids and rings

Every I/O lcore that receives gets a ring to each worker, in the order of the
worker ids, and every worker a ring to each port that sends, which the I/O lcore
of the port empties (`Wired`, `boot_wired`).
-/

namespace Shardb.Wiring
open Shardb.Rings Shardb.Lcores Shardb.Loops

/-! ### The parameters -/

/-- What `struct app_params` says about rings, bursts and load balancing. -/
structure Params where
  nic_tx_port_mask : Nat → Bool
  ring_rx_size : Nat
  ring_tx_size : Nat
  burst_size_io_rx_read : Nat
  burst_size_io_rx_write : Nat
  burst_size_io_tx_read : Nat
  burst_size_io_tx_write : Nat
  burst_size_worker_read : Nat
  burst_size_worker_write : Nat
  pos_lb : Nat

/-- `struct app_lcore_params`, with the member of the union that `type` tells. -/
inductive Lcore (μ : Type)
  | disabled
  | io (rx : Rx μ) (tx : Tx μ)
  | worker (lp : Worker μ)

/-- What an lcore is for: the queues it receives from and the ports it sends to. -/
inductive Role
  | disabled
  | io (nic_queues : List (Nat × Nat)) (nic_ports : List Nat)
  | worker

structure System (μ : Type) where
  app : Params
  lcore_params : Nat → Lcore μ
  net : Net μ

section Wiring
variable {μ : Type}

def Lcore.isWorker : Lcore μ → Bool
  | .worker _ => true
  | _ => false

/-- An I/O lcore with queues to receive from. -/
def Lcore.receives : Lcore μ → Bool
  | .io rx _ => ! rx.nic_queues.isEmpty
  | _ => false

/-- One of the ports the lcore sends to. -/
def Lcore.sends (port : Nat) : Lcore μ → Bool
  | .io _ tx => (tx.nic_ports.take APP_MAX_NIC_TX_PORTS_PER_IO_LCORE).contains port
  | _ => false

theorem isWorker_iff {p : Lcore μ} : p.isWorker = true ↔ ∃ lp, p = .worker lp := by
  cases p <;> simp [Lcore.isWorker]

theorem receives_iff {p : Lcore μ} : p.receives = true ↔ ∃ rx tx, p = .io rx tx ∧ rx.nic_queues ≠ [] := by
  cases p <;> simp [Lcore.receives]

/-- Only I/O lcores send. -/
theorem sends_io {port : Nat} {p : Lcore μ} (sends : p.sends port = true) : ∃ rx tx, p = .io rx tx := by
  cases p with
  | disabled => cases sends
  | io rx tx => exact ⟨rx, tx, rfl⟩
  | worker lp => cases sends

def System.setLcore (s : System μ) (lcore : Nat) (params : Lcore μ) : System μ :=
  { s with lcore_params := Function.update s.lcore_params lcore params }

/-- The worker lcores, in the order of their ids. -/
def workers (lcores : Nat → Lcore μ) : List Nat := (List.range APP_MAX_LCORES).filter fun l => (lcores l).isWorker

theorem workers_nodup (lcores : Nat → Lcore μ) : (workers lcores).Nodup := List.nodup_range.filter _

def app_get_lcores_worker (lcores : Nat → Lcore μ) : Result Nat :=
  let count := (workers lcores).length
  if APP_MAX_WORKER_LCORES < count then .error .panic else .ok count

def app_get_lcores_io_rx (lcores : Nat → Lcore μ) : Nat :=
  ((List.range APP_MAX_LCORES).filter fun l => (lcores l).receives).length

/-- The lcore that sends to the port. -/
def app_get_lcore_for_nic_tx (lcores : Nat → Lcore μ) (port : Nat) : Option Nat :=
  (List.range APP_MAX_LCORES).find? fun l => (lcores l).sends port

/-! ### The functions -/

def assign_worker_id (t : (Nat → Lcore μ) × Nat) (lcore : Nat) : (Nat → Lcore μ) × Nat :=
  match t.1 lcore with
  | .worker lp =>
    (Function.update t.1 lcore (.worker { lp with worker_id := t.2, lcore := lcore }), t.2 + 1)
  | _ => t

@[irreducible] def app_assign_worker_ids (lcores : Nat → Lcore μ) : Nat → Lcore μ :=
  ((List.range APP_MAX_LCORES).foldl assign_worker_id (lcores, 0)).1

/-- `rte_ring_create`: a ring of `count` slots, one of which stays empty. It is had here;
    `Program` stops where the library has none of that size. -/
def System.createRing (s : System μ) (id : RingId) (count : Nat) : System μ :=
  { s with net := s.net.setRing id (.create (count - 1)) }

/-- The ring between an I/O lcore and a worker. -/
def init_ring_rx (lcore lcore_worker : Nat) (s : System μ) : Result (System μ) :=
  match s.lcore_params lcore, s.lcore_params lcore_worker with
  | .io rx tx, .worker lp => do
    let ring := RingId.rx lcore lcore_worker
    index rx.rings.length APP_MAX_WORKER_LCORES
    index lp.rings_in.length APP_MAX_IO_LCORES
    let s := s.createRing ring s.app.ring_rx_size
    let s := s.setLcore lcore (.io { rx with rings := rx.rings ++ [ring] } tx)
    return s.setLcore lcore_worker (.worker { lp with rings_in := lp.rings_in ++ [ring] })
  | _, _ => .ok s

/-- The rings of one I/O lcore. -/
def init_rings_rx (lcore : Nat) (s : System μ) : Result (System μ) :=
  if (s.lcore_params lcore).receives then
    (List.range APP_MAX_LCORES).foldlM (fun s lcore_worker => init_ring_rx lcore lcore_worker s) s
  else .ok s

/-- The check of the rings an lcore has got. -/
def check_rings_rx (lcores : Nat → Lcore μ) (n_workers lcore : Nat) : Result Unit :=
  match lcores lcore with
  | .io rx _ => if rx.nic_queues ≠ [] ∧ rx.rings.length ≠ n_workers then .error .panic else .ok ()
  | .worker lp => if lp.rings_in.length ≠ app_get_lcores_io_rx lcores then .error .panic else .ok ()
  | .disabled => .ok ()

def app_init_rings_rx (s : System μ) : Result (System μ) := do
  let s ← (List.range APP_MAX_LCORES).foldlM (fun s lcore => init_rings_rx lcore s) s
  let n_workers ← app_get_lcores_worker s.lcore_params
  (List.range APP_MAX_LCORES).forM (check_rings_rx s.lcore_params n_workers)
  return s

/-- `rings_out[port] = ring` of a worker, and `tx.rings[port][worker_id] = ring` of
    an I/O lcore. -/
def setRingOut (lp : Worker μ) (port : Nat) (ring : RingId) : Worker μ :=
  { lp with rings_out := Function.update lp.rings_out port (some ring) }

def setRingTx (tx : Tx μ) (port worker_id : Nat) (ring : RingId) : Tx μ :=
  { tx with rings := Function.update tx.rings port (Function.update (tx.rings port) worker_id (some ring)) }

/-- The ring between a worker and a port. -/
def init_ring_tx (lcore port : Nat) (s : System μ) : Result (System μ) :=
  match s.lcore_params lcore with
  | .worker lp =>
    if s.app.nic_tx_port_mask port = false then .ok s
    else
      match app_get_lcore_for_nic_tx s.lcore_params port with
      | none => .error .panic
      | some lcore_io =>
        match s.lcore_params lcore_io with
        | .io rx tx => do
          let ring := RingId.tx lcore port
          index lp.worker_id APP_MAX_WORKER_LCORES
          let s := s.createRing ring s.app.ring_tx_size
          let s := s.setLcore lcore (.worker (setRingOut lp port ring))
          return s.setLcore lcore_io (.io rx (setRingTx tx port lp.worker_id ring))
        | _ => .error .panic
  | _ => .ok s

/-- The check of the rings an I/O lcore has got. -/
def check_rings_tx (n_workers : Nat) : Lcore μ → Result Unit
  | .io _ tx =>
    if tx.nic_ports.any fun port => (List.range n_workers).any fun j => (tx.rings port j).isNone then .error .panic
    else .ok ()
  | _ => .ok ()

def app_init_rings_tx (s : System μ) : Result (System μ) := do
  let s ← (List.range APP_MAX_LCORES).foldlM (fun s lcore =>
    (List.range APP_MAX_NIC_PORTS).foldlM (fun s port => init_ring_tx lcore port s) s) s
  let n_workers ← app_get_lcores_worker s.lcore_params
  (List.range APP_MAX_LCORES).forM fun lcore => check_rings_tx n_workers (s.lcore_params lcore)
  return s

/-- What the options leave of an lcore; the rest of the struct is zero. -/
def Role.params [Inhabited μ] : Role → Lcore μ
  | .disabled => .disabled
  | .io nic_queues nic_ports =>
    .io ⟨⟨fun _ => .empty, fun _ => false⟩, nic_queues, [], fun _ => default⟩
      ⟨⟨fun _ => .empty, fun _ => false⟩, nic_ports, fun _ _ => none⟩
  | .worker => .worker ⟨⟨fun _ => .empty, fun _ => false⟩, [], fun _ => none, 0, 0⟩

/-- The part of `app_init` that the packets depend on. -/
def app_init [Inhabited μ] (app : Params) (roles : Nat → Role) : Result (System μ) := do
  let lcores := fun l => if l < APP_MAX_LCORES then (roles l).params else .disabled
  let net : Net μ := ⟨fun _ => .create 0, [], fun _ => [], []⟩
  let s ← app_init_rings_rx ⟨app, app_assign_worker_ids lcores, net⟩
  app_init_rings_tx s

/-! ### Worker ids -/

@[simp] theorem setLcore_self (s : System μ) (l : Nat) (p : Lcore μ) : (s.setLcore l p).lcore_params l = p :=
  Function.update_self ..

theorem setLcore_other (s : System μ) {l l' : Nat} (p : Lcore μ) (other : l' ≠ l) :
    (s.setLcore l p).lcore_params l' = s.lcore_params l' :=
  Function.update_of_ne other ..

def Lcore.withId (id lcore : Nat) : Lcore μ → Lcore μ
  | .worker lp => .worker { lp with worker_id := id, lcore := lcore }
  | p => p

@[simp] theorem isWorker_withId (id lcore : Nat) (p : Lcore μ) : (p.withId id lcore).isWorker = p.isWorker := by
  cases p <;> rfl

/-- One lcore: a worker gets the next id. -/
private theorem assign_worker_id_spec (t : (Nat → Lcore μ) × Nat) (n : Nat) :
    (assign_worker_id t n).2 = t.2 + (if (t.1 n).isWorker then 1 else 0) ∧
      ∀ l, (assign_worker_id t n).1 l = if l = n then (t.1 n).withId t.2 n else t.1 l := by
  rw [assign_worker_id]
  cases kind : t.1 n with
  | worker lp =>
    refine ⟨rfl, fun l => ?_⟩
    show Function.update t.1 n _ l = _
    by_cases same : l = n
    · rw [if_pos same, same, Function.update_self]
      rfl
    · rw [if_neg same, Function.update_of_ne same]
  | disabled =>
    refine ⟨rfl, fun l => ?_⟩
    by_cases same : l = n
    · rw [if_pos same, same, kind]
      rfl
    · rw [if_neg same]
  | io rx tx =>
    refine ⟨rfl, fun l => ?_⟩
    by_cases same : l = n
    · rw [if_pos same, same, kind]
      rfl
    · rw [if_neg same]

/-- The lcores below `n` have their ids: the number of workers before them. -/
private theorem assigned_below (lcores : Nat → Lcore μ) (n : Nat) :
    ((List.range n).foldl assign_worker_id (lcores, 0)).2 =
        ((List.range n).filter fun l => (lcores l).isWorker).length ∧
      ∀ l, ((List.range n).foldl assign_worker_id (lcores, 0)).1 l =
        if l < n then (lcores l).withId ((List.range l).filter fun l => (lcores l).isWorker).length l else lcores l := by
  induction n with
  | zero => exact ⟨rfl, fun l => rfl⟩
  | succ n ih =>
    obtain ⟨count, assigned⟩ := ih
    rw [List.range_succ, List.foldl_append, List.foldl_cons, List.foldl_nil]
    set t := (List.range n).foldl assign_worker_id (lcores, 0)
    obtain ⟨next, step⟩ := assign_worker_id_spec t n
    have here : t.1 n = lcores n := by rw [assigned, if_neg (by omega)]
    rw [here] at next step
    constructor
    · rw [next, count, List.filter_append, List.length_append]
      by_cases worker : (lcores n).isWorker = true
      · simp [worker]
      · simp [worker]
    · intro l
      rw [step]
      by_cases same : l = n
      · rw [if_pos same, if_pos (by omega), same, count]
      · rw [if_neg same, assigned]
        have later : l < n + 1 ↔ l < n := by omega
        simp only [later]

theorem app_assign_worker_ids_eq (lcores : Nat → Lcore μ) (l : Nat) :
    app_assign_worker_ids lcores l =
      if l < APP_MAX_LCORES then (lcores l).withId ((List.range l).filter fun l => (lcores l).isWorker).length l
      else lcores l := by
  obtain ⟨-, assigned⟩ := assigned_below lcores APP_MAX_LCORES
  unfold app_assign_worker_ids
  exact assigned l

/-- Counting the elements before one that is kept gives its place. -/
theorem getElem?_filter_range {n : Nat} {kept : Nat → Bool} {l : Nat} (below : l < n) (here : kept l = true) :
    ((List.range n).filter kept)[((List.range l).filter kept).length]? = some l := by
  obtain ⟨more, rfl⟩ := Nat.exists_eq_add_of_lt below
  have split : List.range (l + more + 1) = List.range l ++ l :: (List.range more).map (l + 1 + ·) := by
    rw [Nat.add_assoc, List.range_add, Nat.add_comm more 1, List.range_add, List.map_append]
    simp [Nat.add_assoc]
  rw [split, List.filter_append, List.filter_cons_of_pos here, List.getElem?_append_right (Nat.le_refl _), Nat.sub_self]
  rfl

@[simp] theorem assigned_isWorker (lcores : Nat → Lcore μ) (l : Nat) :
    (app_assign_worker_ids lcores l).isWorker = (lcores l).isWorker := by
  rw [app_assign_worker_ids_eq]
  by_cases inside : l < APP_MAX_LCORES
  · rw [if_pos inside, isWorker_withId]
  · rw [if_neg inside]

@[simp] theorem assigned_receives (lcores : Nat → Lcore μ) (l : Nat) :
    (app_assign_worker_ids lcores l).receives = (lcores l).receives := by
  rw [app_assign_worker_ids_eq]
  by_cases inside : l < APP_MAX_LCORES
  · rw [if_pos inside]
    cases lcores l <;> rfl
  · rw [if_neg inside]

@[simp] theorem assigned_workers (lcores : Nat → Lcore μ) : workers (app_assign_worker_ids lcores) = workers lcores := by
  unfold workers
  simp only [assigned_isWorker]

@[simp] theorem assigned_receiving (lcores : Nat → Lcore μ) :
    app_get_lcores_io_rx (app_assign_worker_ids lcores) = app_get_lcores_io_rx lcores := by
  unfold app_get_lcores_io_rx
  simp only [assigned_receives]

/-- A worker's id is its place among the workers. -/
theorem assigned_worker_id {lcores : Nat → Lcore μ} {w : Nat} {lp : Worker μ} (inside : w < APP_MAX_LCORES)
    (is : app_assign_worker_ids lcores w = .worker lp) : (workers lcores)[lp.worker_id]? = some w := by
  have worker : (lcores w).isWorker = true := by rw [← assigned_isWorker, is]; rfl
  rw [app_assign_worker_ids_eq, if_pos inside] at is
  have id : lp.worker_id = ((List.range w).filter fun l => (lcores l).isWorker).length := by
    cases kind : lcores w with
    | worker lp' => rw [kind] at is; cases is; rfl
    | disabled => rw [kind] at is; cases is
    | io rx tx => rw [kind] at is; cases is
  rw [id]
  exact getElem?_filter_range inside worker

/-! ### Rings for receiving -/

/-- Rings at the end of those an I/O lcore has, and of those a worker has. -/
def Lcore.add (out inn : List RingId) : Lcore μ → Lcore μ
  | .io rx tx => .io { rx with rings := rx.rings ++ out } tx
  | .worker lp => .worker { lp with rings_in := lp.rings_in ++ inn }
  | .disabled => .disabled

@[simp] theorem add_nil (p : Lcore μ) : p.add [] [] = p := by
  cases p <;> simp [Lcore.add]

@[simp] theorem add_add (p : Lcore μ) (out inn out' inn' : List RingId) :
    (p.add out inn).add out' inn' = p.add (out ++ out') (inn ++ inn') := by
  cases p <;> simp [Lcore.add]

@[simp] theorem isWorker_add (p : Lcore μ) (out inn : List RingId) : (p.add out inn).isWorker = p.isWorker := by
  cases p <;> rfl

@[simp] theorem receives_add (p : Lcore μ) (out inn : List RingId) : (p.add out inn).receives = p.receives := by
  cases p <;> rfl

theorem add_io {p : Lcore μ} {out inn : List RingId} {rx : Rx μ} {tx : Tx μ} (is : p.add out inn = .io rx tx) :
    ∃ rx', p = .io rx' tx ∧ rx.rings = rx'.rings ++ out ∧ rx.nic_queues = rx'.nic_queues := by
  cases p with
  | disabled => cases is
  | io rx' tx' => cases is; exact ⟨rx', rfl, rfl, rfl⟩
  | worker lp => cases is

theorem add_worker {p : Lcore μ} {out inn : List RingId} {lp : Worker μ} (is : p.add out inn = .worker lp) :
    ∃ lp', p = .worker lp' ∧ lp.rings_in = lp'.rings_in ++ inn ∧ lp.rings_out = lp'.rings_out ∧
      lp.worker_id = lp'.worker_id := by
  cases p with
  | disabled => cases is
  | io rx tx => cases is
  | worker lp' => cases is; exact ⟨lp', rfl, rfl, rfl, rfl⟩

/-- What one call of the two adds. -/
theorem init_ring_rx_spec {lcore w : Nat} {s s' : System μ} (receives : (s.lcore_params lcore).receives = true)
    (run : init_ring_rx lcore w s = .ok s') (l : Nat) :
    s'.lcore_params l = (s.lcore_params l).add
      (if l = lcore ∧ (s.lcore_params w).isWorker = true then [.rx lcore w] else []) (if l = w then [.rx lcore w] else []) := by
  rw [init_ring_rx] at run
  cases kind : s.lcore_params lcore with
  | disabled => rw [kind] at receives; cases receives
  | worker lp => rw [kind] at receives; cases receives
  | io rx tx =>
    cases kind' : s.lcore_params w with
    | worker lp =>
      have apart : w ≠ lcore := by
        rintro rfl
        rw [kind] at kind'
        cases kind'
      simp only [kind, kind', bind_eq_ok] at run
      obtain ⟨-, -, -, -, run⟩ := run
      cases run
      by_cases same : l = w
      · subst same
        rw [setLcore_self, if_neg (by simp [apart]), if_pos rfl, kind']
        simp [Lcore.add]
      · rw [setLcore_other _ _ same, if_neg same]
        by_cases same' : l = lcore
        · subst same'
          rw [setLcore_self, if_pos ⟨rfl, rfl⟩, kind]
          simp [Lcore.add]
        · rw [setLcore_other _ _ same', if_neg (by simp [same'])]
          exact (add_nil _).symm
    | disabled =>
      simp only [kind, kind', Except.ok.injEq] at run
      subst run
      by_cases same : l = w
      · rw [same, kind']
        rfl
      · rw [if_neg same, if_neg (by simp [Lcore.isWorker]), add_nil]
    | io rx' tx' =>
      simp only [kind, kind', Except.ok.injEq] at run
      subst run
      by_cases same : l = w
      · rw [same, kind']
        simp [Lcore.add, Lcore.isWorker]
      · rw [if_neg same, if_neg (by simp [Lcore.isWorker]), add_nil]

theorem init_rings_rx_loop {lcore : Nat} : ∀ {ws : List Nat} {s s' : System μ},
    (s.lcore_params lcore).receives = true → ws.foldlM (fun s w => init_ring_rx lcore w s) s = .ok s' → ∀ l,
      s'.lcore_params l = (s.lcore_params l).add
        (if l = lcore then (ws.filter fun w => (s.lcore_params w).isWorker).map (.rx lcore) else [])
        ((ws.filter (· = l)).map (.rx lcore)) := by
  intro ws
  induction ws with
  | nil =>
    intro s s' _ run l
    cases run
    simp
  | cons w ws ih =>
    intro s s' receives run l
    obtain ⟨s₁, once, run⟩ := bind_eq_ok.mp run
    have first := init_ring_rx_spec receives once
    have workers : (fun w => (s₁.lcore_params w).isWorker) = fun w => (s.lcore_params w).isWorker := by
      funext w'
      rw [first, isWorker_add]
    have rest := ih (by rw [first, receives_add]; exact receives) run l
    have out : (if l = lcore ∧ (s.lcore_params w).isWorker = true then [RingId.rx lcore w] else []) ++
          (if l = lcore then (ws.filter fun w => (s.lcore_params w).isWorker).map (.rx lcore) else []) =
        if l = lcore then ((w :: ws).filter fun w => (s.lcore_params w).isWorker).map (.rx lcore) else [] := by
      by_cases here : l = lcore
      · simp only [here, true_and, if_true, List.filter_cons]
        by_cases worker : (s.lcore_params w).isWorker = true
        · simp [worker]
        · simp [worker]
      · simp [here]
    have inn : (if l = w then [RingId.rx lcore w] else []) ++ (ws.filter (· = l)).map (.rx lcore) =
        ((w :: ws).filter (· = l)).map (.rx lcore) := by
      rw [List.filter_cons]
      by_cases same : l = w
      · simp [same]
      · simp [same, Ne.symm same]
    rw [rest, workers, first, add_add, out, inn]

theorem filter_range_eq (n l : Nat) : (List.range n).filter (· = l) = if l < n then [l] else [] := by
  by_cases inside : l < n
  · rw [if_pos inside, List.filter_eq, List.count_eq_one_of_mem List.nodup_range (List.mem_range.mpr inside)]
    rfl
  · rw [if_neg inside, List.filter_eq_nil_iff]
    intro w member same
    have := List.mem_range.mp member
    have := of_decide_eq_true same
    omega

/-- What all rings of one lcore, and then of several, add. -/
theorem init_rings_rx_spec {lcore : Nat} {s s' : System μ} (run : init_rings_rx lcore s = .ok s') (l : Nat) :
    s'.lcore_params l = (s.lcore_params l).add
      (if l = lcore ∧ (s.lcore_params lcore).receives = true then (workers s.lcore_params).map (.rx lcore) else [])
      (if l < APP_MAX_LCORES ∧ (s.lcore_params lcore).receives = true then [.rx lcore l] else []) := by
  rw [init_rings_rx] at run
  by_cases receives : (s.lcore_params lcore).receives = true
  · rw [if_pos receives] at run
    rw [init_rings_rx_loop receives run, filter_range_eq, apply_ite (List.map (RingId.rx lcore))]
    simp only [receives, and_true]
    rfl
  · rw [if_neg receives] at run
    cases run
    rw [if_neg (by simp [receives]), if_neg (by simp [receives]), add_nil]

/-- An lcore whose rings for receiving are complete. -/
def completed (lcores : Nat → Lcore μ) (os : List Nat) (l : Nat) : Lcore μ :=
  (lcores l).add (((os.filter (· = l)).filter fun o => (lcores o).receives).flatMap fun o => (workers lcores).map (.rx o))
    (if l < APP_MAX_LCORES then (os.filter fun o => (lcores o).receives).map fun o => .rx o l else [])

theorem init_rings_rx_all : ∀ {os : List Nat} {s s' : System μ},
    os.foldlM (fun s o => init_rings_rx o s) s = .ok s' → ∀ l, s'.lcore_params l = completed s.lcore_params os l := by
  intro os
  induction os with
  | nil =>
    intro s s' run l
    cases run
    simp [completed]
  | cons o os ih =>
    intro s s' run l
    obtain ⟨s₁, once, run⟩ := bind_eq_ok.mp run
    have first := init_rings_rx_spec once
    have same : workers s₁.lcore_params = workers s.lcore_params := by
      unfold workers
      exact List.filter_congr fun w _ => by rw [first, isWorker_add]
    have receives : (fun o => (s₁.lcore_params o).receives) = fun o => (s.lcore_params o).receives := by
      funext o'
      rw [first, receives_add]
    rw [ih run l, completed, completed, same, receives, first, add_add]
    congr 1
    · by_cases here : o = l
      · subst here
        by_cases receiving : (s.lcore_params o).receives = true
        · simp [receiving]
        · simp [receiving]
      · simp [here, Ne.symm here]
    · by_cases inside : l < APP_MAX_LCORES
      · by_cases receiving : (s.lcore_params o).receives = true
        · simp [inside, receiving]
        · simp [inside, receiving]
      · simp [inside]

/-! ### What is wired -/

/-- The lcores that the indices of the rings stand for. -/
structure Plan where
  workers : List Nat
  tx_lcore : Nat → Option Nat

def plan (lcores : Nat → Lcore μ) : Plan := ⟨workers lcores, app_get_lcore_for_nic_tx lcores⟩

/-- Every ring an lcore has is the one with its name. -/
structure Wired (plan : Plan) (lcores : Nat → Lcore μ) : Prop where
  planned : Wiring.plan lcores = plan
  worker_id : ∀ {w lp}, lcores w = .worker lp → plan.workers[lp.worker_id]? = some w
  rings : ∀ {l rx tx} {k : Nat} {id}, lcores l = .io rx tx → rx.rings[k]? = some id →
    ∃ w, plan.workers[k]? = some w ∧ id = RingId.rx l w
  rings_in : ∀ {w lp id}, lcores w = .worker lp → id ∈ lp.rings_in → ∃ l, id = RingId.rx l w
  rings_out : ∀ {w lp port id}, lcores w = .worker lp → lp.rings_out port = some id → id = .tx w port
  tx_rings : ∀ {l rx tx port k id}, lcores l = .io rx tx → tx.rings port k = some id →
    ∃ w, plan.workers[k]? = some w ∧ plan.tx_lcore port = some l ∧ id = RingId.tx w port
  full : ∀ {l rx tx}, lcores l = .io rx tx → rx.nic_queues ≠ [] → rx.rings.length = plan.workers.length
  joined : ∀ {l rx tx w lp}, lcores l = .io rx tx → rx.nic_queues ≠ [] → lcores w = .worker lp →
    RingId.rx l w ∈ lp.rings_in

/-- Every id below the number of workers is a worker's. -/
theorem Wired.worker_at {plan : Plan} {lcores : Nat → Lcore μ} (wired : Wired plan lcores) {k : Nat}
    (small : k < plan.workers.length) : ∃ w lp, lcores w = .worker lp ∧ lp.worker_id = k ∧ plan.workers[k]? = some w := by
  have same : workers lcores = plan.workers := congrArg Plan.workers wired.planned
  obtain ⟨w, nth⟩ : ∃ w, plan.workers[k]? = some w := ⟨_, List.getElem?_eq_getElem small⟩
  rw [← same] at small nth ⊢
  obtain ⟨lp, kind⟩ := isWorker_iff.mp (List.mem_filter.mp (List.mem_of_getElem? nth)).2
  have id := wired.worker_id kind
  rw [← same] at id
  exact ⟨w, lp, kind, ((List.getElem?_inj small (workers_nodup lcores)).mp (nth.trans id.symm)).symm, nth⟩

/-- Nothing is in the buffers. -/
def Lcore.Empty : Lcore μ → Prop
  | .disabled => True
  | .io rx tx => (∀ k, (rx.mbuf_out k).items = []) ∧ ∀ port, (tx.mbuf_out port).items = []
  | .worker lp => ∀ port, (lp.mbuf_out port).items = []

/-- Nothing has been received yet. -/
structure Idle (app : Params) (s : System μ) : Prop where
  app : s.app = app
  received : s.net.received = []
  transmitted : ∀ port, s.net.transmitted port = []
  freed : s.net.freed = []
  rings : ∀ id, (s.net.rings id).items = []
  buffers : ∀ l, (s.lcore_params l).Empty

theorem plan_congr {lcores lcores' : Nat → Lcore μ} (worker : ∀ l, (lcores' l).isWorker = (lcores l).isWorker)
    (sends : ∀ l port, (lcores' l).sends port = (lcores l).sends port) : plan lcores' = plan lcores := by
  simp only [plan, workers, worker, Plan.mk.injEq, true_and]
  funext port
  simp only [app_get_lcore_for_nic_tx, sends]

private theorem plan_update {lcores : Nat → Lcore μ} {l : Nat} {p : Lcore μ} (worker : p.isWorker = (lcores l).isWorker)
    (sends : ∀ port, p.sends port = (lcores l).sends port) : plan (Function.update lcores l p) = plan lcores := by
  refine plan_congr (fun l' => ?_) (fun l' port => ?_)
  · by_cases same : l' = l
    · rw [same, Function.update_self, worker]
    · rw [Function.update_of_ne same]
  · by_cases same : l' = l
    · rw [same, Function.update_self, sends]
    · rw [Function.update_of_ne same]

section Wired
variable {plan : Plan} {lcores : Nat → Lcore μ}

/-- A worker may get another ring for sending. -/
theorem Wired.setWorker (wired : Wired plan lcores) {w : Nat} {lp lp' : Worker μ} (is : lcores w = .worker lp)
    (id : lp'.worker_id = lp.worker_id) (inn : lp'.rings_in = lp.rings_in)
    (out : ∀ port id, lp'.rings_out port = some id → id = .tx w port) :
    Wired plan (Function.update lcores w (.worker lp')) := by
  have io_eq : ∀ {l rx tx}, Function.update lcores w (.worker lp') l = .io rx tx → lcores l = .io rx tx := by
    intro l rx tx here
    by_cases same : l = w
    · rw [same, Function.update_self] at here
      cases here
    · rwa [Function.update_of_ne same] at here
  have worker_eq : ∀ {w₁ lp₁}, Function.update lcores w (.worker lp') w₁ = .worker lp₁ →
      (w₁ = w ∧ lp₁ = lp') ∨ lcores w₁ = .worker lp₁ := by
    intro w₁ lp₁ here
    by_cases same : w₁ = w
    · rw [same, Function.update_self] at here
      cases here
      exact .inl ⟨same, rfl⟩
    · rw [Function.update_of_ne same] at here
      exact .inr here
  refine ⟨?_, ?_, fun here => wired.rings (io_eq here), ?_, ?_, fun here => wired.tx_rings (io_eq here),
    fun here => wired.full (io_eq here), ?_⟩
  · rw [plan_update (by rw [is]; rfl) (by intro; rw [is]; rfl), wired.planned]
  · intro w₁ lp₁ here
    rcases worker_eq here with ⟨rfl, rfl⟩ | here
    · rw [id]
      exact wired.worker_id is
    · exact wired.worker_id here
  · intro w₁ lp₁ ring here member
    rcases worker_eq here with ⟨rfl, rfl⟩ | here
    · exact wired.rings_in is (inn ▸ member)
    · exact wired.rings_in here member
  · intro w₁ lp₁ port ring here member
    rcases worker_eq here with ⟨rfl, rfl⟩ | here
    · exact out port ring member
    · exact wired.rings_out here member
  · intro l rx tx w₁ lp₁ here queues there
    rcases worker_eq there with ⟨rfl, rfl⟩ | there
    · rw [inn]
      exact wired.joined (io_eq here) queues is
    · exact wired.joined (io_eq here) queues there

/-- An I/O lcore may get another ring for sending. -/
theorem Wired.setIo (wired : Wired plan lcores) {l : Nat} {rx rx' : Rx μ} {tx tx' : Tx μ} (is : lcores l = .io rx tx)
    (rings : rx'.rings = rx.rings) (queues : rx'.nic_queues = rx.nic_queues) (ports : tx'.nic_ports = tx.nic_ports)
    (out : ∀ port k id, tx'.rings port k = some id →
      ∃ w, plan.workers[k]? = some w ∧ plan.tx_lcore port = some l ∧ id = RingId.tx w port) :
    Wired plan (Function.update lcores l (.io rx' tx')) := by
  have worker_eq : ∀ {w lp}, Function.update lcores l (.io rx' tx') w = .worker lp → lcores w = .worker lp := by
    intro w lp here
    by_cases same : w = l
    · rw [same, Function.update_self] at here
      cases here
    · rwa [Function.update_of_ne same] at here
  have io_eq : ∀ {l₁ rx₁ tx₁}, Function.update lcores l (.io rx' tx') l₁ = .io rx₁ tx₁ →
      (l₁ = l ∧ rx₁ = rx' ∧ tx₁ = tx') ∨ lcores l₁ = .io rx₁ tx₁ := by
    intro l₁ rx₁ tx₁ here
    by_cases same : l₁ = l
    · rw [same, Function.update_self] at here
      cases here
      exact .inl ⟨same, rfl, rfl⟩
    · rw [Function.update_of_ne same] at here
      exact .inr here
  refine ⟨?_, fun here => wired.worker_id (worker_eq here), ?_, fun here => wired.rings_in (worker_eq here),
    fun here => wired.rings_out (worker_eq here), ?_, ?_, ?_⟩
  · rw [plan_update (by rw [is]; rfl) (by intro; rw [is, Lcore.sends, ports]; rfl), wired.planned]
  · intro l₁ rx₁ tx₁ k id here member
    rcases io_eq here with ⟨rfl, rfl, rfl⟩ | here
    · exact wired.rings is (rings ▸ member)
    · exact wired.rings here member
  · intro l₁ rx₁ tx₁ port k id here member
    rcases io_eq here with ⟨rfl, rfl, rfl⟩ | here
    · exact out port k id member
    · exact wired.tx_rings here member
  · intro l₁ rx₁ tx₁ here some
    rcases io_eq here with ⟨rfl, rfl, rfl⟩ | here
    · rw [rings]
      exact wired.full is (queues ▸ some)
    · exact wired.full here some
  · intro l₁ rx₁ tx₁ w lp here some there
    rcases io_eq here with ⟨rfl, rfl, rfl⟩ | here
    · exact wired.joined is (queues ▸ some) (worker_eq there)
    · exact wired.joined here some (worker_eq there)

end Wired

/-! ### Rings for sending -/

theorem setRingOut_cases {lp : Worker μ} {port port' : Nat} {ring id : RingId}
    (here : (setRingOut lp port ring).rings_out port' = some id) :
    (port' = port ∧ id = ring) ∨ lp.rings_out port' = some id := by
  change Function.update lp.rings_out port (some ring) port' = some id at here
  by_cases same : port' = port
  · rw [same, Function.update_self] at here
    exact .inl ⟨same, (Option.some.inj here).symm⟩
  · rw [Function.update_of_ne same] at here
    exact .inr here

theorem setRingTx_cases {tx : Tx μ} {port worker_id port' k : Nat} {ring id : RingId}
    (here : (setRingTx tx port worker_id ring).rings port' k = some id) :
    (port' = port ∧ k = worker_id ∧ id = ring) ∨ tx.rings port' k = some id := by
  change Function.update tx.rings port (Function.update (tx.rings port) worker_id (some ring)) port' k = some id at here
  by_cases same : port' = port
  · rw [same, Function.update_self] at here
    by_cases same' : k = worker_id
    · rw [same', Function.update_self] at here
      exact .inl ⟨same, same', (Option.some.inj here).symm⟩
    · rw [Function.update_of_ne same'] at here
      exact .inr (same ▸ here)
  · rw [Function.update_of_ne same] at here
    exact .inr here

/-- What a call does that makes a ring: the worker and the lcore of the port get it. -/
theorem init_ring_tx_cases {lcore port : Nat} {s s' : System μ} (run : init_ring_tx lcore port s = .ok s') :
    (s' = s ∧ ∀ lp, s.lcore_params lcore = .worker lp → s.app.nic_tx_port_mask port = false) ∨
    ∃ lp l rx tx, s.lcore_params lcore = .worker lp ∧ s.lcore_params l = .io rx tx ∧
      app_get_lcore_for_nic_tx s.lcore_params port = some l ∧
      s' = ((s.createRing (.tx lcore port) s.app.ring_tx_size).setLcore lcore
        (.worker (setRingOut lp port (.tx lcore port)))).setLcore l
          (.io rx (setRingTx tx port lp.worker_id (.tx lcore port))) := by
  rw [init_ring_tx] at run
  cases kind : s.lcore_params lcore with
  | disabled => simp only [kind, Except.ok.injEq] at run; exact .inl ⟨run.symm, by rintro lp ⟨⟩⟩
  | io rx tx => simp only [kind, Except.ok.injEq] at run; exact .inl ⟨run.symm, by rintro lp ⟨⟩⟩
  | worker lp =>
    simp only [kind] at run
    by_cases mask : s.app.nic_tx_port_mask port = false
    · rw [if_pos mask] at run
      cases run
      exact .inl ⟨rfl, fun _ _ => mask⟩
    · rw [if_neg mask] at run
      cases found : app_get_lcore_for_nic_tx s.lcore_params port with
      | none => simp only [found] at run; cases run
      | some l =>
        simp only [found] at run
        cases kind' : s.lcore_params l with
        | disabled => simp only [kind'] at run; cases run
        | worker lp' => simp only [kind'] at run; cases run
        | io rx tx =>
          simp only [kind', bind_eq_ok] at run
          obtain ⟨-, -, run⟩ := run
          cases run
          exact .inr ⟨lp, l, rx, tx, rfl, kind', rfl, rfl⟩

theorem init_ring_tx_wired {plan : Plan} {lcore port : Nat} {s s' : System μ} (wired : Wired plan s.lcore_params)
    (run : init_ring_tx lcore port s = .ok s') : Wired plan s'.lcore_params := by
  rcases init_ring_tx_cases run with ⟨rfl, -⟩ | ⟨lp, l, rx, tx, worker, io, found, rfl⟩
  · exact wired
  · have serves : plan.tx_lcore port = some l := by rw [← wired.planned]; exact found
    have apart : l ≠ lcore := by
      rintro rfl
      rw [io] at worker
      cases worker
    have first : Wired plan (Function.update s.lcore_params lcore (.worker (setRingOut lp port (.tx lcore port)))) := by
      refine wired.setWorker worker rfl rfl fun port' id here => ?_
      rcases setRingOut_cases here with ⟨rfl, rfl⟩ | before
      · rfl
      · exact wired.rings_out worker before
    have kept : Function.update s.lcore_params lcore (.worker (setRingOut lp port (.tx lcore port))) l = .io rx tx := by
      rw [Function.update_of_ne apart]
      exact io
    refine first.setIo kept rfl rfl rfl fun port' k id here => ?_
    rcases setRingTx_cases here with ⟨rfl, rfl, rfl⟩ | before
    · exact ⟨lcore, wired.worker_id worker, serves, rfl⟩
    · exact wired.tx_rings io before

/-! ### After `app_init` -/

section Boot
variable {app : Params}

private theorem createRing_idle {s : System μ} (idle : Idle app s) (id : RingId) (count : Nat) :
    Idle app (s.createRing id count) := by
  refine ⟨idle.app, idle.received, idle.transmitted, idle.freed, fun id' => ?_, idle.buffers⟩
  show (Function.update s.net.rings id (.create (count - 1)) id').items = []
  by_cases same : id' = id
  · rw [same, Function.update_self]
    rfl
  · rw [Function.update_of_ne same]
    exact idle.rings id'

private theorem setLcore_idle {s : System μ} (idle : Idle app s) {l : Nat} {p : Lcore μ} (empty : p.Empty) :
    Idle app (s.setLcore l p) := by
  refine ⟨idle.app, idle.received, idle.transmitted, idle.freed, idle.rings, fun l' => ?_⟩
  by_cases same : l' = l
  · rw [same, setLcore_self]
    exact empty
  · rw [setLcore_other _ _ same]
    exact idle.buffers l'

private theorem init_ring_rx_idle {l w : Nat} {s s' : System μ} (idle : Idle app s) (run : init_ring_rx l w s = .ok s') :
    Idle app s' := by
  rw [init_ring_rx] at run
  have io := idle.buffers l
  have worker := idle.buffers w
  split at run
  · rename_i rx tx lp is is'
    rw [is] at io
    rw [is'] at worker
    simp only [bind_eq_ok] at run
    obtain ⟨-, -, -, -, run⟩ := run
    cases run
    refine setLcore_idle (setLcore_idle (createRing_idle idle _ _) ?_) ?_
    · exact io
    · exact worker
  · cases run
    exact idle

private theorem init_ring_tx_idle {w port : Nat} {s s' : System μ} (idle : Idle app s) (run : init_ring_tx w port s = .ok s') :
    Idle app s' := by
  rcases init_ring_tx_cases run with ⟨rfl, -⟩ | ⟨lp, l, rx, tx, worker, io, -, rfl⟩
  · exact idle
  · have empty := idle.buffers w
    have empty' := idle.buffers l
    rw [worker] at empty
    rw [io] at empty'
    refine setLcore_idle (setLcore_idle (createRing_idle idle _ _) ?_) ?_
    · exact empty
    · exact empty'

/-- No rings yet. -/
def Lcore.Bare : Lcore μ → Prop
  | .disabled => True
  | .io rx tx => rx.rings = [] ∧ ∀ port k, tx.rings port k = none
  | .worker lp => lp.rings_in = [] ∧ ∀ port, lp.rings_out port = none

private theorem params_blank [Inhabited μ] (role : Role) : (role.params : Lcore μ).Empty ∧ (role.params : Lcore μ).Bare := by
  cases role with
  | disabled => exact ⟨trivial, trivial⟩
  | io nic_queues nic_ports => exact ⟨⟨fun _ => rfl, fun _ => rfl⟩, rfl, fun _ _ => rfl⟩
  | worker => exact ⟨fun _ => rfl, rfl, fun _ => rfl⟩

private theorem withId_blank {p : Lcore μ} (id lcore : Nat) (blank : p.Empty ∧ p.Bare) :
    (p.withId id lcore).Empty ∧ (p.withId id lcore).Bare := by
  cases p with
  | disabled => exact blank
  | io rx tx => exact blank
  | worker lp => exact blank

/-- The lcores as the options leave them. -/
def typed [Inhabited μ] (roles : Nat → Role) (l : Nat) : Lcore μ :=
  if l < APP_MAX_LCORES then (roles l).params else .disabled

section Typed
variable [Inhabited μ] (roles : Nat → Role) (l : Nat)

theorem assigned_blank : (app_assign_worker_ids (typed (μ := μ) roles) l).Empty ∧
    (app_assign_worker_ids (typed (μ := μ) roles) l).Bare := by
  rw [app_assign_worker_ids_eq]
  unfold typed
  by_cases inside : l < APP_MAX_LCORES
  · rw [if_pos inside, if_pos inside]
    exact withId_blank _ _ (params_blank _)
  · rw [if_neg inside, if_neg inside]
    exact ⟨trivial, trivial⟩

theorem assigned_outside (beyond : ¬ l < APP_MAX_LCORES) :
    app_assign_worker_ids (typed (μ := μ) roles) l = .disabled := by
  rw [app_assign_worker_ids_eq, if_neg beyond]
  exact if_neg beyond

end Typed

section Completed
variable {lcores : Nat → Lcore μ} {s : System μ} (bare : ∀ l, (lcores l).Bare)
  (outside : ∀ l, ¬ l < APP_MAX_LCORES → lcores l = .disabled)
  (complete : ∀ l, s.lcore_params l = completed lcores (List.range APP_MAX_LCORES) l)
include bare outside complete

/-- An I/O lcore that receives has a ring to each worker. -/
theorem completed_io {l : Nat} {rx : Rx μ} {tx : Tx μ} (is : s.lcore_params l = .io rx tx) :
    (∀ port k, tx.rings port k = none) ∧ l < APP_MAX_LCORES ∧ (rx.nic_queues ≠ [] → (lcores l).receives = true) ∧
      rx.rings = if (lcores l).receives = true then (workers lcores).map (RingId.rx l) else [] := by
  rw [complete] at is
  obtain ⟨rx', was, rings, queues⟩ := add_io is
  have none := bare l
  rw [was] at none
  rw [none.1, List.nil_append, filter_range_eq] at rings
  by_cases inside : l < APP_MAX_LCORES
  · refine ⟨none.2, inside, fun some => ?_, ?_⟩
    · rw [was, Lcore.receives, ← queues]
      simpa using some
    · rw [rings, if_pos inside]
      by_cases receives : (lcores l).receives = true
      · simp [receives]
      · simp [receives]
  · rw [outside l inside] at was
    cases was

/-- A worker has a ring from each I/O lcore that receives. -/
theorem completed_worker {w : Nat} {lp : Worker μ} (is : s.lcore_params w = .worker lp) :
    (∃ lp', lcores w = .worker lp' ∧ lp.worker_id = lp'.worker_id) ∧
      lp.rings_in = ((List.range APP_MAX_LCORES).filter fun o => (lcores o).receives).map (fun o => .rx o w) ∧
      ∀ port, lp.rings_out port = none := by
  rw [complete] at is
  obtain ⟨lp', was, inn, out, id⟩ := add_worker is
  have none := bare w
  rw [was] at none
  by_cases inside : w < APP_MAX_LCORES
  · rw [none.1, List.nil_append, if_pos inside] at inn
    exact ⟨⟨lp', was, id⟩, inn, fun port => by rw [out]; exact none.2 port⟩
  · rw [outside w inside] at was
    cases was

/-- With the rings for receiving, and none for sending. -/
private theorem completed_wired (ids : ∀ {w lp}, lcores w = .worker lp → (workers lcores)[lp.worker_id]? = some w) :
    Wired (plan lcores) s.lcore_params := by
  have kinds : ∀ l, (s.lcore_params l).isWorker = (lcores l).isWorker := fun l => by
    rw [complete, completed, isWorker_add]
  have sends : ∀ l port, (s.lcore_params l).sends port = (lcores l).sends port := fun l port => by
    rw [complete, completed]
    cases lcores l <;> rfl
  have io := fun {l rx tx} (is : s.lcore_params l = .io rx tx) => completed_io bare outside complete is
  have worker : ∀ {w lp}, s.lcore_params w = .worker lp → (workers lcores)[lp.worker_id]? = some w ∧
      lp.rings_in = ((List.range APP_MAX_LCORES).filter fun o => (lcores o).receives).map (fun o => .rx o w) ∧
      ∀ port, lp.rings_out port = none := by
    intro w lp is
    obtain ⟨⟨lp', was, id⟩, rest⟩ := completed_worker bare outside complete is
    exact ⟨by rw [id]; exact ids was, rest⟩
  refine ⟨plan_congr kinds sends, fun is => (worker is).1, ?_, ?_, ?_, ?_, ?_, ?_⟩
  · intro l rx tx k id is here
    rw [(io is).2.2.2] at here
    by_cases receives : (lcores l).receives = true
    · rw [if_pos receives, List.getElem?_map] at here
      obtain ⟨w, found, same⟩ := Option.map_eq_some_iff.mp here
      exact ⟨w, found, same.symm⟩
    · rw [if_neg receives] at here
      cases here
  · intro w lp id is member
    rw [(worker is).2.1, List.mem_map] at member
    obtain ⟨l, -, same⟩ := member
    exact ⟨l, same.symm⟩
  · intro w lp port id is here
    rw [(worker is).2.2 port] at here
    cases here
  · intro l rx tx port k id is here
    rw [(io is).1 port k] at here
    cases here
  · intro l rx tx is queues
    obtain ⟨-, -, receives, rings⟩ := io is
    rw [rings, if_pos (receives queues), List.length_map]
    rfl
  · intro l rx tx w lp is queues is'
    obtain ⟨-, inside, receives, -⟩ := io is
    rw [(worker is').2.1]
    exact List.mem_map.mpr ⟨l, List.mem_filter.mpr ⟨List.mem_range.mpr inside, receives queues⟩, rfl⟩

end Completed

private theorem start_idle {lcores : Nat → Lcore μ} (a : Params) (empty : ∀ l, (lcores l).Empty) :
    Idle a ⟨a, lcores, ⟨fun _ => .create 0, [], fun _ => [], []⟩⟩ :=
  ⟨rfl, rfl, fun _ => rfl, rfl, fun _ => rfl, empty⟩

theorem app_init_rings_rx_ok {s s' : System μ} (run : app_init_rings_rx s = .ok s') :
    (List.range APP_MAX_LCORES).foldlM (fun s lcore => init_rings_rx lcore s) s = .ok s' := by
  simp only [app_init_rings_rx, bind_eq_ok] at run
  obtain ⟨s₁, built, -, -, -, -, run⟩ := run
  cases run
  exact built

private theorem app_init_rings_rx_idle {s s' : System μ} (idle : Idle app s) (run : app_init_rings_rx s = .ok s') :
    Idle app s' := by
  refine foldlM_ok (fun _ s => Idle app s) (fun l _ s next idle once => ?_) idle (app_init_rings_rx_ok run)
  rw [init_rings_rx] at once
  by_cases receives : (s.lcore_params l).receives = true
  · rw [if_pos receives] at once
    exact foldlM_ok (fun _ s => Idle app s) (fun w _ s next idle once => init_ring_rx_idle idle once) idle once
  · rw [if_neg receives] at once
    cases once
    exact idle

/-- What every ring for sending keeps. -/
theorem app_init_rings_tx_keeps {s s' : System μ} (Inv : System μ → Prop)
    (keeps : ∀ {w port s s'}, Inv s → init_ring_tx w port s = .ok s' → Inv s') (holds : Inv s)
    (run : app_init_rings_tx s = .ok s') : Inv s' := by
  simp only [app_init_rings_tx, bind_eq_ok] at run
  obtain ⟨s₁, built, -, -, -, -, run⟩ := run
  cases run
  refine foldlM_ok (fun _ s => Inv s) (fun l _ s next inv once => ?_) holds built
  exact foldlM_ok (fun _ s => Inv s) (fun port _ s next inv once => keeps inv once) inv once

/-- The rings for receiving are wired by their names. -/
theorem app_init_rings_rx_wired [Inhabited μ] {roles : Nat → Role} {s : System μ}
    (run : app_init_rings_rx ⟨app, app_assign_worker_ids (typed roles), ⟨fun _ => .create 0, [], fun _ => [], []⟩⟩ = .ok s) :
    Wired (plan (app_assign_worker_ids (typed (μ := μ) roles))) s.lcore_params ∧ Idle app s := by
  have idle := start_idle app fun l => (assigned_blank (μ := μ) roles l).1
  have ids : ∀ {w lp}, app_assign_worker_ids (typed (μ := μ) roles) w = .worker lp →
      (workers (app_assign_worker_ids (typed (μ := μ) roles)))[lp.worker_id]? = some w := by
    intro w lp is
    rw [assigned_workers]
    by_cases inside : w < APP_MAX_LCORES
    · exact assigned_worker_id inside is
    · rw [assigned_outside roles w inside] at is
      cases is
  have complete := init_rings_rx_all (app_init_rings_rx_ok run)
  exact ⟨completed_wired (fun l => (assigned_blank roles l).2) (assigned_outside roles) complete ids,
    app_init_rings_rx_idle idle run⟩

/-- After the initialisation every ring is wired by its name, and nothing moves
    yet. -/
theorem app_init_wired [Inhabited μ] {roles : Nat → Role} {s : System μ} (run : app_init app roles = .ok s) :
    Wired (plan s.lcore_params) s.lcore_params ∧ Idle app s := by
  simp only [app_init, bind_eq_ok] at run
  obtain ⟨s₁, rx, tx⟩ := run
  obtain ⟨wired, idle⟩ := app_init_rings_rx_wired rx
  have final := app_init_rings_tx_keeps (fun s => Wired _ s.lcore_params) init_ring_tx_wired wired tx
  refine ⟨by rw [final.planned]; exact final, ?_⟩
  exact app_init_rings_tx_keeps (Idle app) init_ring_tx_idle idle tx

end Boot
end Wiring
end Shardb.Wiring
