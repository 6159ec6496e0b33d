import Shardb.Client
import Shardb.Conservation

/-!
# `submit_bulk` of the client

The lcores of the client run the functions of the server's. Its workers also put
requests into `mbuf_out[0]`, as many as they are asked to and without a look at
the burst size, from which `app_lcore_worker` hands on that many and forgets the
others. `nothing_lost_iff` says when no mbuf is lost and no buffer is overrun.
-/

namespace Shardb.Submit
open Shardb.Loops Shardb.Flow Shardb.Rings Shardb.Lcores Shardb.Wiring Shardb.Runs Shardb.Transit Shardb.Conservation
open Shardb.Server (Mbuf TxFlag)
open Shardb.Client (Sockaddr prepare_paxos_message)

/-! ### The functions -/

section Functions
variable {μ : Type}

/-- The first worker lcore with the id. -/
def app_get_lcore_worker (lcores : Nat → Lcore μ) (worker_id : Nat) : Option Nat :=
  (List.range APP_MAX_LCORES).find? fun lcore =>
    match lcores lcore with
    | .worker lp => lp.worker_id == worker_id
    | _ => false

/-- `mbuf_out[port].array[mbuf_idx++] = pkts[i]`, where `port` is 0. -/
def submit_pkt (lp : Worker μ) (pkt : μ) : Result (Worker μ) :=
  match (lp.mbuf_out 0).push [pkt] with
  | none => .error .overflow
  | some out => .ok { lp with toOutputs := lp.store 0 out }

/-- `pkts` is what `rte_pktmbuf_alloc_bulk` has allocated, if it has, as
    `prepare_paxos_message` leaves it. -/
def submit_bulk (lcores : Nat → Lcore μ) (worker_id : Nat) (pkts : Option (List μ)) (lp : Worker μ) :
    Result (Worker μ) :=
  match app_get_lcore_worker lcores worker_id, pkts with
  | none, _ => .error .panic
  | some _, none => .ok lp
  | some _, some pkts => do
    let lp ← pkts.foldlM submit_pkt lp
    return { lp with mbuf_out_flush := Function.update lp.mbuf_out_flush 0 true }

end Functions

/-- What else `prepare_paxos_message` uses: DPDK's checksum, the address of the port
    and the two ends of the connection. -/
structure Ends where
  rte_ipv4_phdr_cksum : List UInt8 → List TxFlag → UInt8 × UInt8
  addr : Vector UInt8 6
  client : Sockaddr
  server : Sockaddr

/-- The data of the packets that `submit_bulk` makes of new mbufs. -/
def Ends.requests (ends : Ends) (worker_id : UInt8) (value : List UInt8) (size : Nat) (created : List Mbuf) :
    List (List UInt8) :=
  created.map fun pkt =>
    (prepare_paxos_message ends.rte_ipv4_phdr_cksum ends.addr pkt ends.client ends.server 0 0 worker_id.toUInt16 value
      size).data

/-! ### The client at work -/

/-- A step of the server's, or a call of `submit_bulk` for an lcore. -/
inductive ClientAct
  | run (a : Act)
  | submit (lcore : Nat) (worker_id : UInt8) (created : Option (List Mbuf)) (value : List UInt8) (size : Nat)

/-- The functions a worker calls. -/
def ClientAct.ofWorker : ClientAct → Bool
  | .run (.worker _ _) => true
  | .run (.worker_flush _) => true
  | .submit .. => true
  | _ => false

/-- One step. What is allocated counts as received. -/
def clientAct (ends : Ends) (lpm_lookup : Nat → Option Nat) (s : System Arrival) : ClientAct → Result (System Arrival)
  | .run a => act lpm_lookup s a
  | .submit l worker_id created value size =>
    match s.lcore_params l with
    | .worker lp => do
      let pkts := created.map fun created => arrive l 0 s.net.received.length (ends.requests worker_id value size created)
      let lp ← submit_bulk s.lcore_params worker_id.toNat pkts lp
      return put s l (.worker lp) { s.net with received := s.net.received ++ pkts.getD [] }
    | _ => .error .panic

/-- Steps from a state to the next, or to none: a call by a worker has written
    behind an array. -/
def Goes (ends : Ends) (lpm_lookup : Nat → Option Nat) (s : Option (System Arrival)) (a : ClientAct)
    (t : Option (System Arrival)) : Prop :=
  ∃ s₀, s = some s₀ ∧ ((∃ s', clientAct ends lpm_lookup s₀ a = .ok s' ∧ t = some s') ∨
    (clientAct ends lpm_lookup s₀ a = .error .overflow ∧ a.ofWorker = true ∧ t = none))

/-- No array was overrun, and every mbuf is in one place, once. -/
def Kept (t : Option (System Arrival)) : Prop := ∃ s, t = some s ∧ Conserved (stock s)

/-- There is a buffer for the packet, and it is below the burst size. -/
def Good (lpm_lookup : Nat → Option Nat) (bsz_wr : Nat) (lp : Worker Arrival) (m : Arrival) : Prop :=
  out_port lpm_lookup m < APP_MAX_NIC_PORTS ∧ (lp.mbuf_out (out_port lpm_lookup m)).items.length < bsz_wr

instance (lpm_lookup : Nat → Option Nat) (bsz_wr : Nat) (lp : Worker Arrival) (m : Arrival) :
    Decidable (Good lpm_lookup bsz_wr lp m) :=
  inferInstanceAs (Decidable (_ ∧ _))

/-- What a step asks of the buffers: `submit_bulk` of the array, and
    `app_lcore_worker` for each packet that it will forward. -/
def fits (app : Params) (lpm_lookup : Nat → Option Nat) (s : System Arrival) : ClientAct → Bool
  | .submit l _ (some created) _ _ =>
    match s.lcore_params l with
    | .worker lp => (lp.mbuf_out 0).items.length + created.length ≤ APP_MBUF_ARRAY_SIZE
    | _ => true
  | .run (.worker l process_pkt) =>
    match s.lcore_params l with
    | .worker lp =>
      (taken app.burst_size_worker_read lp.rings_in s.net).all fun m =>
        process_pkt m < 0 || Good lpm_lookup app.burst_size_worker_write lp m
    | _ => true
  | _ => true

def Fits (app : Params) (lpm_lookup : Nat → Option Nat) (t : Option (System Arrival)) (a : ClientAct) : Prop :=
  ∀ s, t = some s → fits app lpm_lookup s a = true

section Fits
variable {app : Params} {lpm_lookup : Nat → Option Nat} {s : System Arrival} {l : Nat} {lp : Worker Arrival}

theorem fits_submit (is : s.lcore_params l = .worker lp) {worker_id : UInt8} {created : List Mbuf} {value : List UInt8}
    {size : Nat} : Fits app lpm_lookup (some s) (.submit l worker_id (some created) value size) ↔
      (lp.mbuf_out 0).items.length + created.length ≤ APP_MBUF_ARRAY_SIZE := by
  simp only [Fits, Option.some.injEq, forall_eq', fits, is, decide_eq_true_eq]

theorem fits_worker (is : s.lcore_params l = .worker lp) {process_pkt : Arrival → Int} :
    Fits app lpm_lookup (some s) (.run (.worker l process_pkt)) ↔
      ∀ m ∈ taken app.burst_size_worker_read lp.rings_in s.net, 0 ≤ process_pkt m →
        Good lpm_lookup app.burst_size_worker_write lp m := by
  simp only [Fits, Option.some.injEq, forall_eq', fits, is, List.all_eq_true, Bool.or_eq_true, decide_eq_true_eq]
  refine forall₂_congr fun m _ => ?_
  constructor
  · rintro (refused | good) forwarded
    · exact absurd forwarded (Int.not_le.mpr refused)
    · exact good
  · intro good
    by_cases refused : process_pkt m < 0
    · exact .inl refused
    · exact .inr (good (Int.not_lt.mp refused))

end Fits

/-! ### `submit_bulk` -/

section Submit
variable {μ : Type}

/-- The packets are put at the end of the buffer if it has room for all. -/
theorem submit_pkts_eq {pkts : List μ} {lp : Worker μ} :
    Yields (fun lp' : Worker μ => (lp.mbuf_out 0).items.length + pkts.length ≤ APP_MBUF_ARRAY_SIZE ∧
        (lp'.mbuf_out 0).items = (lp.mbuf_out 0).items ++ pkts ∧ (∀ i, i ≠ 0 → lp'.mbuf_out i = lp.mbuf_out i) ∧
        lp'.rings_in = lp.rings_in ∧ lp'.rings_out = lp.rings_out ∧ lp'.worker_id = lp.worker_id)
      (fun e => e = .overflow ∧ APP_MBUF_ARRAY_SIZE < (lp.mbuf_out 0).items.length + pkts.length)
      (pkts.foldlM submit_pkt lp) := by
  induction pkts generalizing lp with
  | nil => exact ⟨(lp.mbuf_out 0).fits, (List.append_nil _).symm, fun _ _ => rfl, rfl, rfl, rfl⟩
  | cons pkt pkts ih =>
    rw [List.foldlM_cons, submit_pkt]
    cases pushed : (lp.mbuf_out 0).push [pkt] with
    | none =>
      have full := Buffer.push_eq_none.mp pushed
      refine ⟨rfl, ?_⟩
      rw [List.length_singleton] at full
      rw [List.length_cons]
      omega
    | some out =>
      have grown := Buffer.pushed pushed
      have first : (lp.store 0 out).mbuf_out 0 = out := by simp [Outputs.store]
      show Yields _ _ (pkts.foldlM submit_pkt { lp with toOutputs := lp.store 0 out })
      refine ih.mono ?_ ?_
      · rintro lp' ⟨room, items, others, rings_in, rings_out, id⟩
        rw [first, grown] at room items
        refine ⟨?_, ?_, fun i other => ?_, rings_in, rings_out, id⟩
        · rw [List.length_append, List.length_singleton] at room
          rw [List.length_cons]
          omega
        · rw [items, List.append_assoc, List.singleton_append]
        · rw [others i other]
          exact Function.update_of_ne other ..
      · rintro e ⟨is, full⟩
        refine ⟨is, ?_⟩
        rw [first, grown, List.length_append, List.length_singleton] at full
        rw [List.length_cons]
        omega

end Submit

section Steps
variable {ends : Ends} {app : Params} {plan : Plan} {lpm_lookup : Nat → Option Nat} {s s' : System Arrival} {l : Nat}

/-- The packets of a call of `submit_bulk` arrive in the buffer. -/
private theorem stock_submit {lp lp' : Worker Arrival} {pkts : List Arrival} (is : s.lcore_params l = .worker lp)
    (items : (lp'.mbuf_out 0).items = (lp.mbuf_out 0).items ++ pkts)
    (others : ∀ i, i ≠ 0 → (lp'.mbuf_out i).items = (lp.mbuf_out i).items) :
    stock (put s l (.worker lp') { s.net with received := s.net.received ++ pkts }) =
      (stock s).arrive (.out (.worker l) 0) pkts := by
  show Stock.mk _ _ = Stock.mk _ _
  congr 1
  funext place
  by_cases here : place = .out (.worker l) 0
  · rw [here, Function.update_self]
    show buffers (Function.update s.lcore_params l (.worker lp')) (.worker l) 0 =
      buffers s.lcore_params (.worker l) 0 ++ pkts
    simp only [buffers, Function.update_self, is]
    exact items
  · rw [Function.update_of_ne here]
    cases place with
    | hand site => rfl
    | ring id => rfl
    | transmitted port => rfl
    | freed => rfl
    | out site i =>
      show buffers (Function.update s.lcore_params l (.worker lp')) site i = buffers s.lcore_params site i
      by_cases same : site = .worker l
      · subst same
        simp only [buffers, Function.update_self, is]
        exact others i fun zero => here (by rw [zero])
      · exact buffers_worker is same i

private theorem submit_tidy {lp lp' : Worker Arrival} {pkts : List (List UInt8)} (tidy : Tidy app plan s)
    (is : s.lcore_params l = .worker lp) (rings_in : lp'.rings_in = lp.rings_in) (rings_out : lp'.rings_out = lp.rings_out)
    (id : lp'.worker_id = lp.worker_id) :
    Tidy app plan (put s l (.worker lp')
      { s.net with received := s.net.received ++ arrive l 0 s.net.received.length pkts }) := by
  have wired := tidy.wired.setWorker is id rings_in fun port ring here => tidy.wired.rings_out is (rings_out ▸ here)
  have numbered := numbered_burst tidy.numbered l 0 pkts.length pkts
  rw [List.take_of_length_le (by simp [arrive])] at numbered
  refine ⟨tidy.params, wired, numbered, ?_⟩
  intro l' rx tx here
  change Function.update s.lcore_params l _ l' = _ at here
  by_cases same : l' = l
  · rw [same, Function.update_self] at here
    cases here
  · rw [Function.update_of_ne same] at here
    exact tidy.receiving here

/-- What a call of `submit_bulk` does: it keeps everything, unless it asks for more
    room than there is. -/
private theorem submit_yields (ends : Ends) (lpm_lookup : Nat → Option Nat) (l : Nat) (worker_id : UInt8)
    (created : Option (List Mbuf)) (value : List UInt8) (size : Nat) (tidy : Tidy app plan s) (conserved : Conserved (stock s)) :
    Yields (fun s' => (Tidy app plan s' ∧ Conserved (stock s')) ∧
        Fits app lpm_lookup (some s) (.submit l worker_id created value size))
      (fun e => e = .overflow → ¬ Fits app lpm_lookup (some s) (.submit l worker_id created value size))
      (clientAct ends lpm_lookup s (.submit l worker_id created value size)) := by
  have kept : ∀ {lp lp' : Worker Arrival} (pkts : List (List UInt8)), s.lcore_params l = .worker lp →
      (lp'.mbuf_out 0).items = (lp.mbuf_out 0).items ++ arrive l 0 s.net.received.length pkts →
      (∀ i, i ≠ 0 → lp'.mbuf_out i = lp.mbuf_out i) → lp'.rings_in = lp.rings_in → lp'.rings_out = lp.rings_out →
      lp'.worker_id = lp.worker_id →
      Tidy app plan (put s l (.worker lp')
        { s.net with received := s.net.received ++ arrive l 0 s.net.received.length pkts }) ∧
      Conserved (stock (put s l (.worker lp')
        { s.net with received := s.net.received ++ arrive l 0 s.net.received.length pkts })) := by
    intro lp lp' pkts is items others rings_in rings_out id
    have after := @submit_tidy app plan s l lp lp' pkts tidy is rings_in rings_out id
    refine ⟨after, ?_⟩
    rw [stock_submit is items fun i other => by rw [others i other]]
    exact arrive_conserved after.numbered.nodup conserved
  cases is : s.lcore_params l with
  | disabled =>
    simp only [clientAct, is]
    rintro ⟨⟩
  | io rx tx =>
    simp only [clientAct, is]
    rintro ⟨⟩
  | worker lp =>
    simp only [clientAct, is, submit_bulk]
    cases known : app_get_lcore_worker s.lcore_params worker_id.toNat with
    | none => rintro ⟨⟩
    | some lcore =>
      cases created with
      | none => exact ⟨kept [] is (List.append_nil _).symm (fun _ _ => rfl) rfl rfl rfl, fun _ _ => rfl⟩
      | some created =>
        set pkts := arrive l 0 s.net.received.length (ends.requests worker_id value size created) with pktsIs
        have counted : pkts.length = created.length := by simp [pktsIs, arrive, Ends.requests]
        have appended := @submit_pkts_eq _ pkts lp
        rw [counted] at appended
        simp only [Option.map_some, Option.getD_some, ← pktsIs]
        cases run : pkts.foldlM submit_pkt lp with
        | error e =>
          rw [run] at appended
          obtain ⟨rfl, full⟩ := appended
          intro _ fits
          exact absurd ((fits_submit is).mp fits) (Nat.not_le.mpr full)
        | ok lp' =>
          rw [run] at appended
          obtain ⟨room, items, others, rings_in, rings_out, id⟩ := appended
          exact ⟨kept (ends.requests worker_id value size created) is items others rings_in rings_out id,
            (fits_submit is).mpr room⟩

end Steps

/-! ### What a worker forwards -/

section Worker
variable {plan : Plan} {lpm_lookup : Nat → Option Nat} {n_workers pos_lb : Nat} {base : Place → List Arrival}
  {lp lp' : Worker Arrival} {net net' : Net Arrival} {bsz_rd bsz_wr : Nat} {process_pkt : Arrival → Int} {w : Nat}

/-- One packet leaves the others as good as they were. -/
private theorem good_after {m m' : Arrival} {s s' : Unit} (positive : 0 < bsz_wr)
    (run : worker_pkt (processing lpm_lookup process_pkt) bsz_wr m (lp, net, s) = .ok (lp', net', s'))
    (good : Good lpm_lookup bsz_wr lp m') : Good lpm_lookup bsz_wr lp' m' := by
  rcases worker_pkt_cases run with ⟨-, rfl, rfl⟩ | ⟨out, -, -, appended, rfl⟩
  · exact good
  · obtain ⟨few, others, -⟩ := append_frame appended
    refine ⟨good.1, ?_⟩
    by_cases same : out_port lpm_lookup m' = out_port lpm_lookup m
    · rw [same]
      exact few positive
    · show (items out _).length < bsz_wr
      rw [others _ same]
      exact good.2

/-- A NULL ring is the only fault of handing on. -/
private theorem enqueue_safe {ring : Option RingId} {mbufs : List Arrival} :
    net.enqueue ring mbufs ≠ .error .overflow := by
  intro run
  simp only [Net.enqueue, bind_eq_error] at run
  rcases run with null | ⟨id, -, run⟩
  · cases ring with
    | none => cases null
    | some id => cases null
  · cases put : (net.rings id).enqueueBulk mbufs with
    | some ring' => simp only [put] at run; cases run
    | none => simp only [put] at run; cases run

/-- A good packet does not overrun its buffer. -/
private theorem worker_pkt_safe {m : Arrival} {s : Unit} (accepted : bsz_wr ≤ APP_MBUF_ARRAY_SIZE)
    (good : 0 ≤ process_pkt m → Good lpm_lookup bsz_wr lp m) :
    worker_pkt (processing lpm_lookup process_pkt) bsz_wr m (lp, net, s) ≠ .error .overflow := by
  intro run
  by_cases refused : process_pkt m < 0
  · simp only [worker_pkt, processing, refused, if_true] at run
    cases run
  · obtain ⟨inside, short⟩ := good (Int.not_lt.mp refused)
    simp only [worker_pkt, processing, refused, if_false, bind_eq_error] at run
    rcases run with outside | ⟨_, -, run | ⟨_, -, run⟩⟩
    · have checked : index (out_port lpm_lookup m) APP_MAX_NIC_PORTS = .error .overflow := outside
      rw [index, if_pos inside] at checked
      cases checked
    · change lp.append (out_port lpm_lookup m) m bsz_wr (lp.rings_out (out_port lpm_lookup m)) net = .error .overflow at run
      rw [Outputs.append] at run
      cases pushed : (lp.mbuf_out (out_port lpm_lookup m)).push [m] with
      | none =>
        have full := Buffer.push_eq_none.mp pushed
        rw [List.length_singleton] at full
        omega
      | some out =>
        simp only [pushed] at run
        by_cases few : out.items.length < bsz_wr
        · rw [if_pos few] at run
          cases run
        · rw [if_neg few] at run
          simp only [bind_eq_error] at run
          rcases run with run | ⟨_, -, run⟩
          · exact enqueue_safe run
          · cases run
    · cases run

private theorem worker_flush_safe : app_lcore_worker_flush lp net ≠ .error .overflow := by
  have all : Yields (fun _ => True) (· ≠ .overflow) (app_lcore_worker_flush lp net) := by
    refine foldlM_yields (fun _ _ => True) (fun port _ t _ => ?_) trivial
    cases once : worker_flush_port port t with
    | ok t' => trivial
    | error e =>
      rintro rfl
      obtain ⟨lp₁, net₁⟩ := t
      simp only [worker_flush_port] at once
      by_cases none : lp₁.rings_out port = none
      · rw [if_pos none] at once
        cases once
      · rw [if_neg none] at once
        simp only [Outputs.flush, bind_eq_error] at once
        by_cases idle : lp₁.mbuf_out_flush port = false ∨ (lp₁.mbuf_out port).items = []
        · simp only [if_pos idle] at once
          rcases once with once | ⟨_, -, once⟩
          · cases once
          · cases once
        · simp only [if_neg idle, bind_eq_error] at once
          rcases once with (once | ⟨_, -, once⟩) | ⟨_, -, once⟩
          · exact enqueue_safe once
          · cases once
          · cases once
  intro run
  rw [run] at all
  exact all rfl

/-- Where all packets to be forwarded are good, no buffer is overrun. -/
theorem worker_safe (rings_in : ∀ {id}, id ∈ lp.rings_in → ∃ l, id = RingId.rx l w)
    (rings_out : ∀ {port id}, lp.rings_out port = some id → id = RingId.tx w port)
    (reading : bsz_rd ≤ APP_MBUF_ARRAY_SIZE) (positive : 0 < bsz_wr) (accepted : bsz_wr ≤ APP_MBUF_ARRAY_SIZE)
    (good : ∀ m ∈ taken bsz_rd lp.rings_in net, 0 ≤ process_pkt m → Good lpm_lookup bsz_wr lp m) :
    app_lcore_worker (processing lpm_lookup process_pkt) bsz_rd bsz_wr (lp, net, ()) ≠ .error .overflow := by
  set P : (hand more : List Arrival) → Worker Arrival → Net Arrival → Prop := fun hand more lp₁ _ =>
    ∀ m ∈ hand ++ more, 0 ≤ process_pkt m → Good lpm_lookup bsz_wr lp₁ m
  have all : Yields (fun t : Worker Arrival × Net Arrival × Unit => P [] [] t.1 t.2.1 ∧ WorkerKept lp t.1) (· ≠ .overflow)
      (app_lcore_worker (processing lpm_lookup process_pkt) bsz_rd bsz_wr (lp, net, ())) := by
    refine worker_rule P rings_in rings_out (fun _ good => good) (fun long => absurd reading (Nat.not_le.mpr long)) ?_ good
    rintro m hand more lp₁ net - good
    have safe : worker_pkt (processing lpm_lookup process_pkt) bsz_wr m (lp₁, net, ()) ≠ .error .overflow :=
      worker_pkt_safe accepted (good m List.mem_cons_self)
    cases once : worker_pkt (processing lpm_lookup process_pkt) bsz_wr m (lp₁, net, ()) with
    | error e =>
      rintro rfl
      exact safe once
    | ok t => exact fun m' member forwarded => good_after positive once (good m' (List.mem_cons_of_mem _ member) forwarded)
  intro run
  rw [run] at all
  exact all rfl

/-- A buffer that is not below the burst size loses the packet that comes to it:
    all that is anywhere afterwards was somewhere before, and not in the hand. -/
private theorem append_loses {site : Site} {out out' : Outputs Arrival} {hand : List Arrival} {i : Nat} {m : Arrival}
    {ring : Option RingId} (long : bsz_wr ≤ (items out i).length) (run : out.append i m bsz_wr ring net = .ok (out', net'))
    {x : Arrival} {place : Place} (held : x ∈ (during base site (items out') net' hand).held place) :
    ∃ place', x ∈ (during base site (items out) net hand).held place' := by
  rw [Outputs.append] at run
  cases pushed : (out.mbuf_out i).push [m] with
  | none => simp only [pushed] at run; cases run
  | some buffer =>
    have grown : buffer.items = items out i ++ [m] := Buffer.pushed pushed
    have front : buffer.items.take bsz_wr = (items out i).take bsz_wr := by
      rw [grown, List.take_append_of_le_length long]
    simp only [pushed] at run
    rw [if_neg (by rw [grown, List.length_append]; omega)] at run
    simp only [Net.enqueue, bind_eq_ok] at run
    obtain ⟨net₁, ⟨id, -, put⟩, run⟩ := run
    cases run
    rw [front] at put
    have buffered : ∀ {x}, x ∈ (items out i).take bsz_wr →
        ∃ place', x ∈ (during base site (items out) net hand).held place' := fun member =>
      ⟨.out site i, by simp only [during, if_true]; exact List.mem_of_mem_take member⟩
    cases place with
    | hand site' => exact ⟨.hand site', held⟩
    | transmitted port =>
      refine ⟨.transmitted port, ?_⟩
      cases full : (net.rings id).enqueueBulk ((items out i).take bsz_wr) with
      | some ring' => simp only [full] at put; cases put; exact held
      | none => simp only [full] at put; cases put; exact held
    | out site' j =>
      by_cases same : site' = site
      · simp only [during, same, if_true, items_reset] at held
        by_cases here : j = i
        · rw [here, Function.update_self] at held
          cases held
        · rw [Function.update_of_ne here] at held
          exact ⟨.out site j, by simpa only [during, if_true] using held⟩
      · exact ⟨.out site' j, by simpa only [during, same, if_false] using held⟩
    | ring id' =>
      cases full : (net.rings id).enqueueBulk ((items out i).take bsz_wr) with
      | some ring' =>
        simp only [full] at put
        cases put
        change x ∈ (Function.update net.rings id ring' id').items at held
        by_cases same : id' = id
        · rw [same, Function.update_self, BulkRing.enqueued full, List.mem_append] at held
          rcases held with before | moved
          · exact ⟨.ring id, before⟩
          · exact buffered moved
        · rw [Function.update_of_ne same] at held
          exact ⟨.ring id', held⟩
      | none =>
        simp only [full] at put
        cases put
        exact ⟨.ring id', held⟩
    | freed =>
      cases full : (net.rings id).enqueueBulk ((items out i).take bsz_wr) with
      | some ring' => simp only [full] at put; cases put; exact ⟨.freed, held⟩
      | none =>
        simp only [full] at put
        cases put
        rcases List.mem_append.mp held with before | moved
        · exact ⟨.freed, before⟩
        · exact buffered moved

/-- Moves in whatever network conserve. -/
abbrev anyNetwork (lpm_lookup : Nat → Option Nat) : Network Place Arrival (Nat × Nat × Nat) :=
  network ⟨[], fun _ => none⟩ lpm_lookup 0 0

/-- What is in the hand is nowhere else. -/
private theorem during_cons {site : Site} {outs : Nat → List Arrival} {m : Arrival} {hand : List Arrival} {x : Arrival}
    {place : Place} (held : x ∈ (during base site outs net hand).held place) :
    x ∈ (during base site outs net (m :: hand)).held place := by
  cases place with
  | hand site' =>
    by_cases same : site' = site
    · simp only [during, same, if_true] at held ⊢
      exact List.mem_cons_of_mem _ held
    · simpa only [during, same, if_false] using held
  | out site' i => exact held
  | ring id => exact held
  | transmitted port => exact held
  | freed => exact held

/-- What is lost stays lost, also where a packet is forwarded that is not good. -/
private theorem worker_pkt_lost {m : Arrival} {hand : List Arrival} {s s' : Unit}
    (rings_out : ∀ {port id}, lp.rings_out port = some id → id = RingId.tx w port)
    (lost : Lost (during base (.worker w) (items lp.toOutputs) net (m :: hand)))
    (run : worker_pkt (processing lpm_lookup process_pkt) bsz_wr m (lp, net, s) = .ok (lp', net', s')) :
    Lost (during base (.worker w) (items lp'.toOutputs) net' hand) := by
  by_cases room : 0 ≤ process_pkt m → (items lp.toOutputs (out_port lpm_lookup m)).length < bsz_wr
  · obtain ⟨moves, -, -⟩ : Moves (anyNetwork lpm_lookup) _ _ ∧ _ := worker_pkt_moves rings_out room run
    exact moves_lost lost moves
  · obtain ⟨x, arrived, nowhere⟩ := lost
    obtain ⟨forwarded, long⟩ := Classical.not_imp.mp room
    rcases worker_pkt_cases run with ⟨refused, -, -⟩ | ⟨out, -, -, appended, rfl⟩
    · exact absurd forwarded (Int.not_le.mpr refused)
    · obtain ⟨-, -, -, received⟩ := append_frame appended
      have arrived' : x ∈ net'.received := by
        rw [received]
        exact arrived
      refine ⟨x, arrived', fun place held => ?_⟩
      obtain ⟨place', before⟩ := append_loses (Nat.le_of_not_lt long) appended held
      exact nowhere place' (during_cons before)

/-- One packet, as long as a packet that is not good is to come, or when it is that
    one. -/
private theorem worker_pkt_loses {m : Arrival} {hand more : List Arrival} {s s' : Unit}
    (rings_out : ∀ {port id}, lp.rings_out port = some id → id = RingId.tx w port)
    (conserved : Conserved (during base (.worker w) (items lp.toOutputs) net (m :: hand)))
    (bad : ∃ m' ∈ m :: hand ++ more, 0 ≤ process_pkt m' ∧ ¬ Good lpm_lookup bsz_wr lp m')
    (run : worker_pkt (processing lpm_lookup process_pkt) bsz_wr m (lp, net, s) = .ok (lp', net', s')) :
    Lost (during base (.worker w) (items lp'.toOutputs) net' hand) ∨
      Conserved (during base (.worker w) (items lp'.toOutputs) net' hand) ∧
        ∃ m ∈ hand ++ more, 0 ≤ process_pkt m ∧ ¬ Good lpm_lookup bsz_wr lp' m := by
  by_cases room : 0 ≤ process_pkt m → (items lp.toOutputs (out_port lpm_lookup m)).length < bsz_wr
  · obtain ⟨moves, -, -⟩ : Moves (anyNetwork lpm_lookup) _ _ ∧ _ := worker_pkt_moves rings_out room run
    refine .inr ⟨moves_conserved conserved moves, ?_⟩
    obtain ⟨m', member, forwarded', notGood⟩ := bad
    rcases worker_pkt_cases run with ⟨refused, rfl, rfl⟩ | ⟨out, forwarded, inside, appended, rfl⟩
    · rcases List.mem_cons.mp member with rfl | later
      · omega
      · exact ⟨m', later, forwarded', notGood⟩
    · obtain ⟨-, others, -⟩ := append_frame appended
      have apart : out_port lpm_lookup m' ≠ out_port lpm_lookup m := by
        intro same
        refine notGood ⟨by rw [same]; exact inside, ?_⟩
        rw [same]
        exact room forwarded
      rcases List.mem_cons.mp member with rfl | later
      · exact absurd rfl apart
      · refine ⟨m', later, forwarded', fun good => notGood ⟨good.1, ?_⟩⟩
        show (items lp.toOutputs _).length < bsz_wr
        rw [← others _ apart]
        exact good.2
  · obtain ⟨forwarded, long⟩ := Classical.not_imp.mp room
    rcases worker_pkt_cases run with ⟨refused, -, -⟩ | ⟨out, -, -, appended, rfl⟩
    · exact absurd forwarded (Int.not_le.mpr refused)
    · obtain ⟨-, -, -, received⟩ := append_frame appended
      have mine : m ∈ (during base (.worker w) (items lp.toOutputs) net (m :: hand)).held (.hand (.worker w)) := by
        simp [during]
      refine .inl ⟨m, ?_, fun place held => ?_⟩
      · have arrived : m ∈ net.received := (conserved.whole m).mpr ⟨_, mine⟩
        rw [← received] at arrived
        exact arrived
      · obtain ⟨place', before⟩ := append_loses (Nat.le_of_not_lt long) appended held
        have same := conserved.single (during_cons before) mine
        subst same
        have once := conserved.once (.hand (.worker w))
        simp only [during, if_true] at before once
        exact (List.nodup_cons.mp once).1 before

/-- A packet that is not good is lost. -/
theorem worker_loses (rings_in : ∀ {id}, id ∈ lp.rings_in → ∃ l, id = RingId.rx l w)
    (rings_out : ∀ {port id}, lp.rings_out port = some id → id = RingId.tx w port)
    (conserved : Conserved (during base (.worker w) (items lp.toOutputs) net []))
    (bad : ∃ m ∈ taken bsz_rd lp.rings_in net, 0 ≤ process_pkt m ∧ ¬ Good lpm_lookup bsz_wr lp m) {s' : Unit}
    (run : app_lcore_worker (processing lpm_lookup process_pkt) bsz_rd bsz_wr (lp, net, ()) = .ok (lp', net', s')) :
    Lost (during base (.worker w) (items lp'.toOutputs) net' []) := by
  -- the first such packet is lost, and stays lost
  set P : (hand more : List Arrival) → Worker Arrival → Net Arrival → Prop := fun hand more lp₁ net =>
    Lost (during base (.worker w) (items lp₁.toOutputs) net hand) ∨
      Conserved (during base (.worker w) (items lp₁.toOutputs) net hand) ∧
        ∃ m ∈ hand ++ more, 0 ≤ process_pkt m ∧ ¬ Good lpm_lookup bsz_wr lp₁ m
  have all : Yields (fun t : Worker Arrival × Net Arrival × Unit => P [] [] t.1 t.2.1 ∧ WorkerKept lp t.1) (fun _ => True)
      (app_lcore_worker (processing lpm_lookup process_pkt) bsz_rd bsz_wr (lp, net, ())) := by
    refine worker_rule P rings_in rings_out ?_ (fun _ => trivial) ?_ (.inr ⟨conserved, bad⟩)
    · rintro l mbufs ring more lp₁ net taking holds
      have move : Move (anyNetwork lpm_lookup) (during base (.worker w) (items lp₁.toOutputs) net [])
          (during base (.worker w) (items lp₁.toOutputs) (net.setRing (.rx l w) ring) mbufs) := take_moves taking
      rcases holds with lost | ⟨conserved, bad⟩
      · exact .inl (moves_lost lost (.single move))
      · exact .inr ⟨moves_conserved conserved (.single move), bad⟩
    · rintro m hand more lp₁ net kept holds
      cases once : worker_pkt (processing lpm_lookup process_pkt) bsz_wr m (lp₁, net, ()) with
      | error e => trivial
      | ok t =>
        rcases holds with lost | ⟨conserved, bad⟩
        · exact .inl (worker_pkt_lost (by rw [kept.rings_out]; exact rings_out) lost once)
        · exact worker_pkt_loses (by rw [kept.rings_out]; exact rings_out) conserved bad once
  rw [run] at all
  obtain ⟨lost | ⟨-, m, member, -⟩, -⟩ := all
  · exact lost
  · cases member

end Worker

/-! ### Runs -/

section Runs
variable {ends : Ends} {app : Params} {plan : Plan} {lpm_lookup : Nat → Option Nat} {s : System Arrival}

private theorem run_yields {a : Act} (tidy : Tidy app plan s) (conserved : Conserved (stock s))
    (fits : Fits app lpm_lookup (some s) (.run a)) {s' : System Arrival} (step : act lpm_lookup s a = .ok s') :
    Tidy app plan s' ∧ Conserved (stock s') := by
  have room : Roomy app lpm_lookup s a := by
    rintro l process_pkt lp rfl is m member forwarded
    exact ((fits_worker is).mp fits m member forwarded).2
  obtain ⟨tidy', moves, -⟩ := act_moves tidy room step
  exact ⟨tidy', moves_conserved conserved moves⟩

/-- A step of a worker that fits overruns no array. -/
private theorem run_safe {a : Act} (reading : app.burst_size_worker_read ≤ APP_MBUF_ARRAY_SIZE)
    (positive : 0 < app.burst_size_worker_write) (accepted : app.burst_size_worker_write ≤ APP_MBUF_ARRAY_SIZE)
    (tidy : Tidy app plan s) (fits : Fits app lpm_lookup (some s) (.run a)) (own : (ClientAct.run a).ofWorker = true) :
    act lpm_lookup s a ≠ .error .overflow := by
  intro run
  cases a with
  | worker l process_pkt =>
    obtain ⟨lp, is, run⟩ := act_worker run (by simp)
    rcases bind_eq_error.mp run with run | ⟨_, -, run⟩
    · rw [tidy.params] at run
      exact worker_safe (tidy.wired.rings_in is) (tidy.wired.rings_out is) reading positive accepted
        ((fits_worker is).mp fits) run
    · cases run
  | worker_flush l =>
    obtain ⟨lp, is, run⟩ := act_worker run (by simp)
    rcases bind_eq_error.mp run with run | ⟨_, -, run⟩
    · exact worker_flush_safe run
    · cases run
  | io_rx l packets => cases own
  | io_rx_flush l => cases own
  | io_tx l tx_burst => cases own
  | io_tx_flush l tx_burst => cases own

/-- A step of a worker that does not fit loses a packet. -/
private theorem run_loses {a : Act} (tidy : Tidy app plan s) (conserved : Conserved (stock s))
    (rough : ¬ Fits app lpm_lookup (some s) (.run a)) {s' : System Arrival} (step : act lpm_lookup s a = .ok s') :
    ¬ Conserved (stock s') := by
  cases a with
  | worker l process_pkt =>
    obtain ⟨lp, is, step⟩ := act_worker step (by simp)
    simp only [bind_eq_ok] at step
    obtain ⟨⟨lp', net', _⟩, run, step⟩ := step
    cases step
    rw [tidy.params] at run
    have own : ∀ i, buffers s.lcore_params (.worker l) i = Transit.items lp.toOutputs i := fun i => by
      simp only [buffers, is]
      rfl
    rw [stock_eq own] at conserved
    have bad : ∃ m ∈ taken app.burst_size_worker_read lp.rings_in s.net, 0 ≤ process_pkt m ∧
        ¬ Good lpm_lookup app.burst_size_worker_write lp m := by
      by_contra none
      refine rough ((fits_worker is).mpr fun m member forwarded => ?_)
      by_contra notGood
      exact none ⟨m, member, forwarded, notGood⟩
    have lost := worker_loses (tidy.wired.rings_in is) (tidy.wired.rings_out is) conserved bad run
    have after : stock (put s l (.worker lp') net') =
        during (stock s).held (.worker l) (Transit.items lp'.toOutputs) net' [] := by
      refine stock_put (fun i => ?_) fun site other i => buffers_worker is other i
      simp only [buffers, Function.update_self]
      rfl
    rw [after]
    exact lost.not_conserved
  | io_rx l packets => exact absurd (fun _ _ => rfl) rough
  | io_rx_flush l => exact absurd (fun _ _ => rfl) rough
  | io_tx l tx_burst => exact absurd (fun _ _ => rfl) rough
  | io_tx_flush l tx_burst => exact absurd (fun _ _ => rfl) rough
  | worker_flush l => exact absurd (fun _ _ => rfl) rough

/-- What holds as long as the steps fit. -/
def Intact (app : Params) (plan : Plan) (t : Option (System Arrival)) : Prop :=
  ∃ s, t = some s ∧ Tidy app plan s ∧ Conserved (stock s)

theorem goes_keeps {t t' : Option (System Arrival)} {a : ClientAct}
    (reading : app.burst_size_worker_read ≤ APP_MBUF_ARRAY_SIZE) (positive : 0 < app.burst_size_worker_write)
    (accepted : app.burst_size_worker_write ≤ APP_MBUF_ARRAY_SIZE) (intact : Intact app plan t)
    (step : Goes ends lpm_lookup t a t') (fits : Fits app lpm_lookup t a) : Intact app plan t' := by
  obtain ⟨s, rfl, tidy, conserved⟩ := intact
  obtain ⟨_, ⟨⟩, ⟨s', run, rfl⟩ | ⟨run, own, rfl⟩⟩ := step
  · cases a with
    | run a => exact ⟨s', rfl, run_yields tidy conserved fits run⟩
    | submit l worker_id created value size =>
      have all := submit_yields ends lpm_lookup l worker_id created value size tidy conserved
      rw [run] at all
      exact ⟨s', rfl, all.1⟩
  · cases a with
    | run a => exact absurd run (run_safe reading positive accepted tidy fits own)
    | submit l worker_id created value size =>
      have all := submit_yields ends lpm_lookup l worker_id created value size tidy conserved
      rw [run] at all
      exact absurd fits (all rfl)

theorem goes_breaks {t t' : Option (System Arrival)} {a : ClientAct} (intact : Intact app plan t)
    (step : Goes ends lpm_lookup t a t') (rough : ¬ Fits app lpm_lookup t a) : ¬ Kept t' := by
  obtain ⟨s, rfl, tidy, conserved⟩ := intact
  obtain ⟨_, ⟨⟩, ⟨s', run, rfl⟩ | ⟨run, own, rfl⟩⟩ := step
  · rintro ⟨_, ⟨⟩, conserved'⟩
    cases a with
    | run a => exact run_loses tidy conserved rough run conserved'
    | submit l worker_id created value size =>
      have all := submit_yields ends lpm_lookup l worker_id created value size tidy conserved
      rw [run] at all
      exact rough all.2
  · rintro ⟨_, ⟨⟩, -⟩

/-- Whatever the lcores and `submit_bulk` do in whatever order: no array of a worker
    is overrun and no mbuf is lost in any state of the run, if and only if every
    step finds the room that it asks for. -/
theorem nothing_lost_iff {roles : Nat → Role} {start : System Arrival} (receiving : 0 < app.burst_size_io_rx_write)
    (reading : app.burst_size_worker_read ≤ APP_MBUF_ARRAY_SIZE) (positive : 0 < app.burst_size_worker_write)
    (accepted : app.burst_size_worker_write ≤ APP_MBUF_ARRAY_SIZE) (ready : app_init app roles = .ok start)
    {trail : List (Option (System Arrival) × ClientAct × Option (System Arrival))} {last : Option (System Arrival)}
    (run : Run (Goes ends lpm_lookup) (some start) trail last) :
    (Kept (some start) ∧ ∀ e ∈ trail, Kept e.2.2) ↔ ∀ e ∈ trail, Fits app lpm_lookup e.1 e.2.1 := by
  have first := start_inv lpm_lookup receiving positive ready
  refine run_keeps_iff (Intact app (Wiring.plan start.lcore_params)) (Fits app lpm_lookup) ?_ ?_ ?_
    ⟨start, rfl, first.tidy, first.sound.conserved⟩ run
  · exact fun t a t' intact step fits => goes_keeps reading positive accepted intact step fits
  · exact fun t a t' intact step rough => goes_breaks intact step rough
  · rintro t ⟨s, is, -, conserved⟩
    exact ⟨s, is, conserved⟩

end Runs

/-! ### The client's own numbers -/

/-- The client submits 4 packets for each worker, here with the burst size 4. -/
def four : Params := { small with burst_size_io_rx_write := 1, burst_size_worker_read := 1, burst_size_worker_write := 4 }

def zeros : Ends := ⟨fun _ _ => (0, 0), .replicate 6 0, ⟨.replicate 2 0, .replicate 4 0⟩, ⟨.replicate 2 0, .replicate 4 0⟩⟩

/-- `submit_bulk(0, n, lp, val, sizeof(val))` for lcore 1, with new mbufs of zeros. -/
def submitted (n : Nat) : ClientAct :=
  .submit 1 0 (some (List.replicate n ⟨List.replicate 128 0, 0, 0, 0, 0, 0, []⟩)) Client.val Client.val.length

/-- What the run below computes: whether each of three steps fits. -/
def three (a b c : ClientAct) : Result (List Bool) := do
  let s ← app_init four smallRoles
  let s₁ ← clientAct zeros (fun _ => none) s a
  let s₂ ← clientAct zeros (fun _ => none) s₁ b
  let _ ← clientAct zeros (fun _ => none) s₂ c
  return [fits four (fun _ => none) s a, fits four (fun _ => none) s₁ b, fits four (fun _ => none) s₂ c]

private theorem three_steps {a b c : ClientAct} {x y z : Bool} (played : three a b c = .ok [x, y, z]) :
    ∃ start s₁ s₂ last, app_init four smallRoles = .ok start ∧
      Goes zeros (fun _ => none) (some start) a (some s₁) ∧ Goes zeros (fun _ => none) (some s₁) b (some s₂) ∧
      Goes zeros (fun _ => none) (some s₂) c (some last) ∧ fits four (fun _ => none) start a = x ∧
      fits four (fun _ => none) s₁ b = y ∧ fits four (fun _ => none) s₂ c = z := by
  obtain ⟨start, ready, played⟩ := bind_eq_ok.mp played
  obtain ⟨s₁, one, played⟩ := bind_eq_ok.mp played
  obtain ⟨s₂, two, played⟩ := bind_eq_ok.mp played
  obtain ⟨last, three, played⟩ := bind_eq_ok.mp played
  have same := Except.ok.inj played
  simp only [List.cons.injEq, and_true] at same
  exact ⟨start, s₁, s₂, last, ready, ⟨start, rfl, .inl ⟨s₁, one, rfl⟩⟩, ⟨s₁, rfl, .inl ⟨s₂, two, rfl⟩⟩,
    ⟨s₂, rfl, .inl ⟨last, three, rfl⟩⟩, same⟩

private theorem fits_of {s : System Arrival} {a : ClientAct} (fine : fits four (fun _ => none) s a = true) :
    Fits four (fun _ => none) (some s) a := by
  rintro _ ⟨⟩
  exact fine

/-- Four packets are submitted and handed on by a flush, and then three more are. -/
theorem submitted_kept : ∃ start trail last, app_init four smallRoles = .ok start ∧
    Run (Goes zeros fun _ => none) (some start) trail last ∧ trail.length = 3 ∧ Kept (some start) ∧
      ∀ e ∈ trail, Kept e.2.2 := by
  obtain ⟨start, s₁, s₂, last, ready, one, two, three, fine₁, fine₂, fine₃⟩ :=
    three_steps (show three (submitted 4) (.run (.worker_flush 1)) (submitted 3) = .ok [true, true, true] by decide +kernel)
  have run := ((Run.stay.next one).next two).next three
  refine ⟨start, _, some last, ready, run, rfl, ?_⟩
  refine (nothing_lost_iff (by decide) (by decide) (by decide) (by decide) ready run).mpr ?_
  simp only [List.nil_append, List.cons_append, List.forall_mem_cons, List.not_mem_nil,
    false_implies, implies_true, and_true]
  exact ⟨fits_of fine₁, fits_of fine₂, fits_of fine₃⟩

/-- Four packets are submitted, and one that comes in is forwarded: it fills the fifth
    slot and is lost. -/
theorem fifth_lost : ∃ start trail last, app_init four smallRoles = .ok start ∧
    Run (Goes zeros fun _ => none) (some start) trail last ∧ ¬ Kept last := by
  obtain ⟨start, s₁, s₂, last, ready, one, two, three, fine₁, fine₂, rough⟩ :=
    three_steps (show three (submitted 4) (.run (.io_rx 0 fun _ => [[]])) (.run (.worker 1 fun _ => 0)) =
      .ok [true, true, false] by decide +kernel)
  have first := start_inv (fun _ => none) (by decide) (by decide) ready
  have intact₁ := goes_keeps (by decide) (by decide) (by decide) ⟨start, rfl, first.tidy, first.sound.conserved⟩ one
    (fits_of fine₁)
  have intact₂ := goes_keeps (by decide) (by decide) (by decide) intact₁ two (fits_of fine₂)
  refine ⟨start, _, some last, ready, ((Run.stay.next one).next two).next three, goes_breaks intact₂ three fun fine => ?_⟩
  rw [fine s₂ rfl] at rough
  cases rough

end Shardb.Submit
