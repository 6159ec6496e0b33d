import Shardb.Submit

/-!
# Ring indices are worker ids

Ids are given by one loop over the lcores and rings made by two others, one in the
other. With room in the arrays the loops go through, and the ring at an index is
the one that is shared with the worker whose id it is (`rings_by_id`).
-/

namespace Shardb.WorkerIds
open Shardb.Loops Shardb.Lcores Shardb.Wiring
open Shardb.Submit (app_get_lcore_worker)

variable {μ : Type}

/-! ### The loops go through -/

/-- A worker that has room for another ring. -/
def HasRoom (room : Nat) : Lcore μ → Prop
  | .worker lp => lp.rings_in.length + room ≤ APP_MAX_IO_LCORES
  | _ => True

theorem HasRoom.mono {room more : Nat} {p : Lcore μ} (had : HasRoom more p) (fewer : room ≤ more) : HasRoom room p := by
  cases p with
  | disabled => trivial
  | io rx tx => trivial
  | worker lp => exact (Nat.add_le_add_left fewer _).trans had

section Room
variable {lcore : Nat} {s : System μ}

private theorem hasRoom_add {room : Nat} {p : Lcore μ} {out inn : List RingId} (had : HasRoom (room + inn.length) p) :
    HasRoom room (p.add out inn) := by
  cases p with
  | disabled => trivial
  | io rx tx => trivial
  | worker lp =>
    show (lp.rings_in ++ inn).length + room ≤ APP_MAX_IO_LCORES
    have fits : lp.rings_in.length + (room + inn.length) ≤ APP_MAX_IO_LCORES := had
    rw [List.length_append]
    omega

/-- One ring is made when both arrays have room. -/
private theorem init_ring_rx_goes {w : Nat} {rx : Rx μ} {tx : Tx μ} (is : s.lcore_params lcore = .io rx tx)
    (out : (s.lcore_params w).isWorker = true → rx.rings.length < APP_MAX_WORKER_LCORES)
    (inn : HasRoom 1 (s.lcore_params w)) : ∃ s', init_ring_rx lcore w s = .ok s' := by
  rw [init_ring_rx, is]
  cases kind : s.lcore_params w with
  | disabled => exact ⟨_, rfl⟩
  | io rx' tx' => exact ⟨_, rfl⟩
  | worker lp =>
    rw [kind] at out inn
    have first : index rx.rings.length APP_MAX_WORKER_LCORES = .ok () := index_eq_ok.mpr (out rfl)
    have second : index lp.rings_in.length APP_MAX_IO_LCORES = .ok () := index_eq_ok.mpr inn
    simp only [first, second]
    exact ⟨_, rfl⟩

/-- Before the workers `rest` get their rings from an lcore. -/
structure Pending (lcore : Nat) (rest : List Nat) (s : System μ) : Prop where
  once : rest.Nodup
  receives : (s.lcore_params lcore).receives = true
  out : ∃ rx tx, s.lcore_params lcore = .io rx tx ∧
    rx.rings.length + (rest.filter fun w => (s.lcore_params w).isWorker).length ≤ APP_MAX_WORKER_LCORES
  inn : ∀ w ∈ rest, HasRoom 1 (s.lcore_params w)

private theorem Pending.goes (w : Nat) (rest : List Nat) (s : System μ) (pending : Pending lcore (w :: rest) s) :
    ∃ s', init_ring_rx lcore w s = .ok s' ∧ Pending lcore rest s' := by
  obtain ⟨once, receives, ⟨rx, tx, is, few⟩, room⟩ := pending
  obtain ⟨apart, once⟩ := List.nodup_cons.mp once
  have out : (s.lcore_params w).isWorker = true → rx.rings.length < APP_MAX_WORKER_LCORES := by
    intro worker
    rw [List.filter_cons, if_pos worker, List.length_cons] at few
    omega
  obtain ⟨s', run⟩ := init_ring_rx_goes is out (room w List.mem_cons_self)
  have adds := init_ring_rx_spec receives run
  refine ⟨s', run, once, ?_, ?_, fun w' member => ?_⟩
  · rw [adds, receives_add]
    exact receives
  · have same : (fun w => (s'.lcore_params w).isWorker) = fun w => (s.lcore_params w).isWorker := by
      funext w'
      rw [adds, isWorker_add]
    rw [same, adds lcore, is]
    refine ⟨_, _, rfl, ?_⟩
    by_cases worker : (s.lcore_params w).isWorker = true
    · rw [List.filter_cons, if_pos worker, List.length_cons] at few
      simp only [worker, and_self, if_true, List.length_append, List.length_singleton]
      omega
    · rw [List.filter_cons, if_neg worker] at few
      simpa [worker] using few
  · have other : w' ≠ w := by
      rintro rfl
      exact apart member
    rw [adds, if_neg other]
    exact hasRoom_add (room w' (List.mem_cons_of_mem _ member))

/-- The loop over the workers, for an lcore without rings. -/
private theorem init_rings_rx_goes (bare : ∀ rx tx, s.lcore_params lcore = .io rx tx → rx.rings = [])
    (few : (workers s.lcore_params).length ≤ APP_MAX_WORKER_LCORES)
    (room : (s.lcore_params lcore).receives = true → ∀ w, HasRoom 1 (s.lcore_params w)) :
    ∃ s', init_rings_rx lcore s = .ok s' := by
  rw [init_rings_rx]
  by_cases receives : (s.lcore_params lcore).receives = true
  · rw [if_pos receives]
    have start : Pending lcore (List.range APP_MAX_LCORES) s := by
      refine ⟨List.nodup_range, receives, ?_, fun w _ => room receives w⟩
      obtain ⟨rx, tx, kind, -⟩ := receives_iff.mp receives
      refine ⟨rx, tx, kind, ?_⟩
      rw [bare rx tx kind]
      simpa [workers] using few
    obtain ⟨s', run, -⟩ := foldlM_goes (Pending lcore) Pending.goes start
    exact ⟨s', run⟩
  · rw [if_neg receives]
    exact ⟨s, rfl⟩

/-- Before the lcores `rest` make their rings. -/
structure Receiving (rest : List Nat) (s : System μ) : Prop where
  once : rest.Nodup
  bare : ∀ o ∈ rest, ∀ rx tx, s.lcore_params o = .io rx tx → rx.rings = []
  few : (workers s.lcore_params).length ≤ APP_MAX_WORKER_LCORES
  room : ∀ w, HasRoom (rest.filter fun o => (s.lcore_params o).receives).length (s.lcore_params w)

theorem Receiving.goes (o : Nat) (rest : List Nat) (s : System μ) (receiving : Receiving (o :: rest) s) :
    ∃ s', init_rings_rx o s = .ok s' ∧ Receiving rest s' := by
  obtain ⟨once, bare, few, room⟩ := receiving
  obtain ⟨apart, once⟩ := List.nodup_cons.mp once
  obtain ⟨s', run⟩ := init_rings_rx_goes (bare o List.mem_cons_self) few fun receives w => by
    refine HasRoom.mono (room w) ?_
    rw [List.filter_cons, if_pos receives, List.length_cons]
    omega
  have adds := init_rings_rx_spec run
  have same : workers s'.lcore_params = workers s.lcore_params := by
    unfold workers
    exact List.filter_congr fun w _ => by rw [adds, isWorker_add]
  have receives : (fun o => (s'.lcore_params o).receives) = fun o => (s.lcore_params o).receives := by
    funext o'
    rw [adds, receives_add]
  refine ⟨s', run, once, fun o' member rx tx is => ?_, by rw [same]; exact few, fun w => ?_⟩
  · have other : o' ≠ o := by
      rintro rfl
      exact apart member
    rw [adds, if_neg (by simp [other])] at is
    obtain ⟨rx', was, rings, -⟩ := add_io is
    rw [rings, bare o' (List.mem_cons_of_mem _ member) rx' tx was]
    rfl
  · rw [receives, adds]
    refine hasRoom_add (HasRoom.mono (room w) ?_)
    by_cases receiving : (s.lcore_params o).receives = true
    · rw [List.filter_cons, if_pos receiving, List.length_cons]
      split_ifs
      · simp
      · simp
    · rw [List.filter_cons, if_neg receiving, if_neg (by simp [receiving])]
      simp

end Room

section Completed
variable {lcores : Nat → Lcore μ} (bare : ∀ l, (lcores l).Bare) (outside : ∀ l, ¬ l < APP_MAX_LCORES → lcores l = .disabled)
include bare outside

omit outside in
/-- Lcores without rings, with room for those of `os`. -/
theorem Receiving.start {os : List Nat} (once : os.Nodup) (few : (workers lcores).length ≤ APP_MAX_WORKER_LCORES)
    (room : (os.filter fun o => (lcores o).receives).length ≤ APP_MAX_IO_LCORES) (app : Params) (net : Net μ) :
    Receiving os (⟨app, lcores, net⟩ : System μ) := by
  refine ⟨once, fun o _ rx tx is => ?_, few, fun w => ?_⟩
  · have none := bare o
    rw [show lcores o = .io rx tx from is] at none
    exact none.1
  · have none := bare w
    show HasRoom _ (lcores w)
    cases kind : lcores w with
    | disabled => trivial
    | io rx tx => trivial
    | worker lp =>
      rw [kind] at none
      show lp.rings_in.length + _ ≤ APP_MAX_IO_LCORES
      rw [none.1, List.length_nil, Nat.zero_add]
      exact room

/-- With room for all rings they are made, and pass the checks. -/
theorem app_init_rings_rx_goes (few : (workers lcores).length ≤ APP_MAX_WORKER_LCORES)
    (few_io : app_get_lcores_io_rx lcores ≤ APP_MAX_IO_LCORES) (app : Params) (net : Net μ) :
    ∃ s, app_init_rings_rx ⟨app, lcores, net⟩ = .ok s := by
  have start := Receiving.start bare List.nodup_range few few_io app net
  obtain ⟨s, built, -⟩ := foldlM_goes Receiving Receiving.goes start
  have complete := init_rings_rx_all built
  have kinds : workers s.lcore_params = workers lcores := by
    unfold workers
    exact List.filter_congr fun w _ => by rw [complete, completed, isWorker_add]
  have receiving : app_get_lcores_io_rx s.lcore_params = app_get_lcores_io_rx lcores := by
    unfold app_get_lcores_io_rx
    congr 1
    exact List.filter_congr fun w _ => by rw [complete, completed, receives_add]
  have counted : app_get_lcores_worker s.lcore_params = .ok (workers lcores).length := by
    unfold app_get_lcores_worker
    rw [kinds]
    exact if_neg (by omega)
  have checked : (List.range APP_MAX_LCORES).forM (check_rings_rx s.lcore_params (workers lcores).length) = .ok ⟨⟩ := by
    refine forM_ok.mpr fun l _ => ?_
    unfold check_rings_rx
    cases kind : s.lcore_params l with
    | disabled => rfl
    | io rx tx =>
      obtain ⟨-, -, receives, rings⟩ := completed_io bare outside complete kind
      refine if_neg fun bad => bad.2 ?_
      rw [rings, if_pos (receives bad.1), List.length_map]
    | worker lp =>
      obtain ⟨-, inn, -⟩ := completed_worker bare outside complete kind
      refine if_neg fun bad => bad ?_
      rw [inn, List.length_map, receiving]
      rfl
  refine ⟨s, ?_⟩
  simp only [app_init_rings_rx, bind_eq_ok]
  exact ⟨s, built, _, counted, ⟨⟩, checked, rfl⟩

end Completed

/-! ### Ids and rings -/

/-- The rings for receiving, by the ids of the `n` workers. -/
structure RingIds (n : Nat) (lcores : Nat → Lcore μ) : Prop where
  ids : ∀ w lp, lcores w = .worker lp → lp.worker_id < n
  one_each : ∀ k < n, ∃! w, ∃ lp, lcores w = .worker lp ∧ lp.worker_id = k
  rings : ∀ l rx tx, lcores l = .io rx tx → rx.nic_queues ≠ [] → ∀ w lp, lcores w = .worker lp →
    rx.rings[lp.worker_id]? = some (.rx l w) ∧ lp.rings_in.count (.rx l w) = 1 ∧
      ∀ w' lp', lcores w' = .worker lp' → w' ≠ w → RingId.rx l w ∉ lp'.rings_in
  ring_count : ∀ l rx tx, lcores l = .io rx tx → rx.nic_queues ≠ [] → rx.rings.length = n
  lcore_of : ∀ w lp, lcores w = .worker lp → app_get_lcore_worker lcores lp.worker_id = some w
  no_lcore : ∀ k, n ≤ k → app_get_lcore_worker lcores k = none

private theorem find?_unique {α : Type} {p : α → Bool} {l : List α} {a : α} (member : a ∈ l) (here : p a = true)
    (only : ∀ b ∈ l, p b = true → b = a) : l.find? p = some a := by
  cases found : l.find? p with
  | none => exact absurd here (List.find?_eq_none.mp found a member)
  | some b => rw [only b (List.mem_of_find?_eq_some found) (List.find?_some found)]

/-- What the id of a worker says. -/
private theorem lcore_of_id {lcores : Nat → Lcore μ} {ws : List Nat}
    (inside : ∀ w lp, lcores w = .worker lp → w < APP_MAX_LCORES)
    (ids : ∀ w lp, lcores w = .worker lp → ws[lp.worker_id]? = some w) :
    (∀ w lp, lcores w = .worker lp → app_get_lcore_worker lcores lp.worker_id = some w) ∧
    ∀ k, ws.length ≤ k → app_get_lcore_worker lcores k = none := by
  constructor
  · intro w lp is
    refine find?_unique (List.mem_range.mpr (inside w lp is)) ?_ fun w' _ same => ?_
    · simp [is]
    · split at same
      · rename_i lp' is'
        have other := ids w' lp' is'
        rw [beq_iff_eq.mp same, ids w lp is] at other
        exact (Option.some.inj other).symm
      · cases same
  · intro k beyond
    refine List.find?_eq_none.mpr fun w _ same => ?_
    split at same
    · rename_i lp is
      have here := ids w lp is
      rw [List.getElem?_eq_none (by rw [beq_iff_eq.mp same]; exact beyond)] at here
      cases here
    · cases same

/-- The ids that the workers have once their rings are made. -/
private theorem completed_ids [Inhabited μ] {roles : Nat → Role} {s : System μ}
    (complete : ∀ l, s.lcore_params l =
      completed (app_assign_worker_ids (typed (μ := μ) roles)) (List.range APP_MAX_LCORES) l) :
    (∀ w lp, s.lcore_params w = .worker lp → w < APP_MAX_LCORES) ∧
      ∀ w lp, s.lcore_params w = .worker lp → (workers (typed (μ := μ) roles))[lp.worker_id]? = some w := by
  have bare : ∀ l, (app_assign_worker_ids (typed (μ := μ) roles) l).Bare := fun l => (assigned_blank roles l).2
  have inside : ∀ w lp, s.lcore_params w = .worker lp → w < APP_MAX_LCORES := by
    intro w lp is
    by_contra beyond
    obtain ⟨⟨lp', was, -⟩, -⟩ := completed_worker bare (assigned_outside roles) complete is
    rw [assigned_outside roles w beyond] at was
    cases was
  refine ⟨inside, fun w lp is => ?_⟩
  obtain ⟨⟨lp', was, id⟩, -⟩ := completed_worker bare (assigned_outside roles) complete is
  rw [id]
  exact assigned_worker_id (inside w lp is) was

/-- For every assignment of lcores with room in the arrays, the initialisation of the
    rings for receiving succeeds, and the index of a ring is the id of its worker. -/
theorem rings_by_id [Inhabited μ] (app : Params) (roles : Nat → Role) (net : Net μ)
    (few : (workers (typed (μ := μ) roles)).length ≤ APP_MAX_WORKER_LCORES)
    (few_io : app_get_lcores_io_rx (typed (μ := μ) roles) ≤ APP_MAX_IO_LCORES) :
    ∃ s, app_init_rings_rx ⟨app, app_assign_worker_ids (typed roles), net⟩ = .ok s ∧
      RingIds (workers (typed (μ := μ) roles)).length s.lcore_params := by
  set lcores := app_assign_worker_ids (typed (μ := μ) roles)
  have bare : ∀ l, (lcores l).Bare := fun l => (assigned_blank roles l).2
  have outside : ∀ l, ¬ l < APP_MAX_LCORES → lcores l = .disabled := assigned_outside roles
  have same : workers lcores = workers (typed (μ := μ) roles) := assigned_workers _
  have receiving : app_get_lcores_io_rx lcores = app_get_lcores_io_rx (typed (μ := μ) roles) := assigned_receiving _
  obtain ⟨s, run⟩ := app_init_rings_rx_goes bare outside (by rw [same]; exact few) (by rw [receiving]; exact few_io) app net
  have complete : ∀ l, s.lcore_params l = completed lcores (List.range APP_MAX_LCORES) l :=
    init_rings_rx_all (app_init_rings_rx_ok run)
  obtain ⟨inside, ids⟩ := completed_ids complete
  obtain ⟨lcore_of, no_lcore⟩ := lcore_of_id inside ids
  refine ⟨s, run, ?_, ?_, ?_, ?_, lcore_of, no_lcore⟩
  · intro w lp is
    exact (List.getElem?_eq_some_iff.mp (ids w lp is)).1
  · intro k small
    have found : (workers (typed (μ := μ) roles))[k]? = some ((workers (typed roles)).get ⟨k, small⟩) :=
      List.getElem?_eq_getElem small
    set w := (workers (typed (μ := μ) roles)).get ⟨k, small⟩
    have worker : (s.lcore_params w).isWorker = true := by
      have kept := (List.mem_filter.mp (List.mem_of_getElem? found)).2
      rw [complete, completed, isWorker_add, assigned_isWorker]
      exact kept
    obtain ⟨lp, kind⟩ := isWorker_iff.mp worker
    have here : lp.worker_id = k :=
      ((List.getElem?_inj small (workers_nodup _)).mp (found.trans (ids w lp kind).symm)).symm
    refine ⟨w, ⟨lp, kind, here⟩, ?_⟩
    rintro w' ⟨lp', kind', same'⟩
    have other := ids w' lp' kind'
    rw [same', found] at other
    exact (Option.some.inj other).symm
  · intro l rx tx is queues w lp is'
    obtain ⟨-, below, receives, rings⟩ := completed_io bare outside complete is
    obtain ⟨-, inn, -⟩ := completed_worker bare outside complete is'
    refine ⟨?_, ?_, fun w' lp' is'' other member => ?_⟩
    · rw [rings, if_pos (receives queues), List.getElem?_map, same, ids w lp is']
      rfl
    · rw [inn]
      refine List.count_eq_one_of_mem ?_ ?_
      · exact (List.nodup_range.filter _).map fun o o' same => by cases same; rfl
      · exact List.mem_map.mpr ⟨l, List.mem_filter.mpr ⟨List.mem_range.mpr below, receives queues⟩, rfl⟩
    · obtain ⟨-, inn', -⟩ := completed_worker bare outside complete is''
      rw [inn'] at member
      obtain ⟨o, -, ring⟩ := List.mem_map.mp member
      cases ring
      exact other rfl
  · intro l rx tx is queues
    obtain ⟨-, -, receives, rings⟩ := completed_io bare outside complete is
    rw [rings, if_pos (receives queues), List.length_map, same]

/-- Workers on both sides of an I/O lcore, with gaps. -/
def scattered (l : Nat) : Role :=
  if l = 1 ∨ l = 5 then .worker else if l = 3 then .io [(0, 0)] [0] else .disabled

theorem scattered_rings_by_id :
    ∃ s, app_init_rings_rx ⟨Conservation.small, app_assign_worker_ids (typed scattered), ⟨fun _ => .create 0, [], fun _ => [], []⟩⟩ =
        .ok s ∧ RingIds (μ := Nat) (workers (typed (μ := Nat) scattered)).length s.lcore_params :=
  rings_by_id Conservation.small scattered ⟨fun _ => .create 0, [], fun _ => [], []⟩ (by decide +kernel) (by decide +kernel)

end Shardb.WorkerIds
