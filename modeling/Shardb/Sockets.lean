import Shardb.LongestPrefix
import Shardb.Calls
import Shardb.Conservation
import Shardb.Startup

/-!
# What is kept once a socket

Every socket that an enabled lcore is on gets a pool of mbufs and a copy of the
routing table, and an lcore works with those of its own socket. So a worker has a
table, and all workers route alike, by the last of the longest rules of the command
line (`workers_route`).
-/

namespace Shardb.Sockets
open Shardb.Loops Shardb.Lcores Shardb.Wiring Shardb.Config Shardb.LongestPrefix

def APP_MAX_SOCKETS : Nat := 2
def APP_DEFAULT_MEMPOOL_BUFFERS : Nat := 8192 * 4
def APP_DEFAULT_MEMPOOL_CACHE_SIZE : Nat := 256

/-- The library of routing tables. `none` is the `NULL` of `rte_lpm_create`, a negative
    answer of `rte_lpm_add`, and a miss of `rte_lpm_lookup`. -/
structure Lpm (τ : Type) where
  rte_lpm_create : (socket max_rules number_tbl8s : Nat) → Option τ
  rte_lpm_add : τ → (ip depth next_hop : Nat) → Option τ
  rte_lpm_lookup : τ → (ip : Nat) → Option Nat

/-- What is documented of it; `held` tells the rules of a table. -/
structure Documented {τ : Type} (lpm : Lpm τ) (held : τ → Set (Route Nat)) : Prop where
  create : ∀ {socket max_rules number_tbl8s t}, lpm.rte_lpm_create socket max_rules number_tbl8s = some t → held t = ∅
  add : ∀ {t ip depth next_hop t'}, lpm.rte_lpm_add t ip depth next_hop = some t' →
    held t' = added 32 (held t) ⟨ip, depth, next_hop⟩
  lookup : ∀ t ip, Answers 32 (held t) ip (lpm.rte_lpm_lookup t ip)

/-- What the initialisation asks of the machine. -/
structure Platform (π τ : Type) extends Lpm τ where
  rte_lcore_to_socket_id : Nat → Nat
  rte_pktmbuf_pool_create : (n cache_size data_room_size socket : Nat) → Option π
  RTE_MBUF_DEFAULT_BUF_SIZE : Nat

/-- `pools` and `lpm_tables` of `struct app_params`, and of every lcore its `pool` and,
    for a worker, its `lpm_table`. -/
structure Tables (π τ : Type) where
  pools : Nat → Option π
  lpm_tables : Nat → Option τ
  pool : Nat → Option π
  lpm_table : Nat → Option τ

def isEnabled : Role → Bool
  | .disabled => false
  | _ => true

section Init
variable {π τ : Type} (dpdk : Platform π τ) (roles : Nat → Role)

def app_is_socket_used (socket : Nat) : Bool :=
  (List.range APP_MAX_LCORES).any fun lcore => isEnabled (roles lcore) && socket == dpdk.rte_lcore_to_socket_id lcore

/-- The loop over the sockets: one is made for each that is used. -/
def each_socket {α : Type} (make : Nat → Result α) (made : Nat → Option α) : Result (Nat → Option α) :=
  (List.range APP_MAX_SOCKETS).foldlM (fun made socket =>
    if app_is_socket_used dpdk roles socket then do
      let a ← make socket
      return Function.update made socket (some a)
    else .ok made) made

/-- The loop over the lcores: those that ask for it get that of their socket. -/
def each_lcore {α : Type} (asks : Role → Bool) (made given : Nat → Option α) : Result (Nat → Option α) :=
  (List.range APP_MAX_LCORES).foldlM (fun given lcore =>
    if asks (roles lcore) then do
      index (dpdk.rte_lcore_to_socket_id lcore) APP_MAX_SOCKETS
      return Function.update given lcore (made (dpdk.rte_lcore_to_socket_id lcore))
    else .ok given) given

/-- What has to be there, or the program panics. -/
def demand {α : Type} : Option α → Result α
  | some a => .ok a
  | none => .error .panic

def app_init_mbuf_pools (t : Tables π τ) : Result (Tables π τ) := do
  let pools ← each_socket dpdk roles (fun socket => demand (dpdk.rte_pktmbuf_pool_create APP_DEFAULT_MEMPOOL_BUFFERS
    APP_DEFAULT_MEMPOOL_CACHE_SIZE dpdk.RTE_MBUF_DEFAULT_BUF_SIZE socket)) t.pools
  let pool ← each_lcore dpdk roles isEnabled pools t.pool
  return { t with pools := pools, pool := pool }

/-- A socket's table: all rules of the command line in it. -/
def init_lpm_table (lpm_rules : List LpmRule) (socket : Nat) : Result τ := do
  let table ← demand (dpdk.rte_lpm_create socket APP_MAX_LPM_RULES 256)
  lpm_rules.foldlM (fun table rule => demand (dpdk.rte_lpm_add table rule.ip rule.depth rule.if_out)) table

def app_init_lpm_tables (lpm_rules : List LpmRule) (t : Tables π τ) : Result (Tables π τ) := do
  let lpm_tables ← each_socket dpdk roles (init_lpm_table dpdk lpm_rules) t.lpm_tables
  let lpm_table ← each_lcore dpdk roles isWorker lpm_tables t.lpm_table
  return { t with lpm_tables := lpm_tables, lpm_table := lpm_table }

/-! ### Who gets what -/

variable {dpdk roles}

theorem demand_ok {α : Type} {o : Option α} {a : α} : demand o = .ok a ↔ o = some a := by
  cases o <;> simp [demand]

theorem index_ok {i size : Nat} : index i size = .ok () ↔ i < size := by
  unfold index
  split_ifs with inside <;> simp [inside]

theorem each_socket_made {α : Type} {make : Nat → Result α} {made made' : Nat → Option α}
    (run : each_socket dpdk roles make made = .ok made') {socket : Nat} (few : socket < APP_MAX_SOCKETS)
    (used : app_is_socket_used dpdk roles socket = true) : ∃ a, make socket = .ok a ∧ made' socket = some a := by
  refine foldlM_ok (fun rest (made : Nat → Option α) => ∀ socket, socket < APP_MAX_SOCKETS → socket ∉ rest →
    app_is_socket_used dpdk roles socket = true → ∃ a, make socket = .ok a ∧ made socket = some a) ?_
    (fun socket few out => absurd (List.mem_range.mpr few) out) run socket few List.not_mem_nil used
  intro now rest made made' before once socket few out used
  by_cases here : socket = now
  · subst here
    rw [if_pos used] at once
    obtain ⟨a, makes, once⟩ := bind_eq_ok.mp once
    cases once
    exact ⟨a, makes, Function.update_self ..⟩
  · obtain ⟨a, makes, is⟩ := before socket few (by simp [here, out]) used
    refine ⟨a, makes, ?_⟩
    split_ifs at once
    · obtain ⟨u, _, once⟩ := bind_eq_ok.mp once
      cases once
      rw [Function.update_of_ne here]
      exact is
    · cases once
      exact is

theorem each_lcore_given {α : Type} {asks : Role → Bool} {made given given' : Nat → Option α}
    (run : each_lcore dpdk roles asks made given = .ok given') {lcore : Nat} (few : lcore < APP_MAX_LCORES)
    (asking : asks (roles lcore) = true) : dpdk.rte_lcore_to_socket_id lcore < APP_MAX_SOCKETS ∧
      given' lcore = made (dpdk.rte_lcore_to_socket_id lcore) := by
  refine foldlM_ok (fun rest (given : Nat → Option α) => ∀ lcore, lcore < APP_MAX_LCORES → lcore ∉ rest →
    asks (roles lcore) = true → dpdk.rte_lcore_to_socket_id lcore < APP_MAX_SOCKETS ∧
      given lcore = made (dpdk.rte_lcore_to_socket_id lcore)) ?_
    (fun lcore few out => absurd (List.mem_range.mpr few) out) run lcore few List.not_mem_nil asking
  intro now rest given given' before once lcore few out asking
  by_cases here : lcore = now
  · subst here
    rw [if_pos asking] at once
    obtain ⟨u, inside, once⟩ := bind_eq_ok.mp once
    cases once
    exact ⟨index_ok.mp inside, Function.update_self ..⟩
  · obtain ⟨inside, is⟩ := before lcore few (by simp [here, out]) asking
    refine ⟨inside, ?_⟩
    split_ifs at once
    · obtain ⟨u, _, once⟩ := bind_eq_ok.mp once
      cases once
      rw [Function.update_of_ne here]
      exact is
    · cases once
      exact is

/-- The socket of an enabled lcore is used. -/
theorem socket_used {lcore : Nat} (few : lcore < APP_MAX_LCORES) (enabled : isEnabled (roles lcore) = true) :
    app_is_socket_used dpdk roles (dpdk.rte_lcore_to_socket_id lcore) = true :=
  List.any_eq_true.mpr ⟨lcore, List.mem_range.mpr few, by simp [enabled]⟩

/-- Both loops: an lcore that asks for it has what was made for its socket. -/
theorem each_served {α : Type} {make : Nat → Result α} {asks : Role → Bool} {made made' given given' : Nat → Option α}
    (makes : each_socket dpdk roles make made = .ok made') (gives : each_lcore dpdk roles asks made' given = .ok given')
    {lcore : Nat} (few : lcore < APP_MAX_LCORES) (enabled : isEnabled (roles lcore) = true)
    (asking : asks (roles lcore) = true) :
    ∃ a, make (dpdk.rte_lcore_to_socket_id lcore) = .ok a ∧ given' lcore = some a := by
  obtain ⟨inside, given⟩ := each_lcore_given gives few asking
  obtain ⟨a, makes, is⟩ := each_socket_made makes inside (socket_used few enabled)
  exact ⟨a, makes, given.trans is⟩

/-- An enabled lcore has a pool, the one that was made for its socket. -/
theorem pools_served {t t' : Tables π τ} (run : app_init_mbuf_pools dpdk roles t = .ok t') {lcore : Nat}
    (few : lcore < APP_MAX_LCORES) (enabled : isEnabled (roles lcore) = true) :
    ∃ pool, dpdk.rte_pktmbuf_pool_create APP_DEFAULT_MEMPOOL_BUFFERS APP_DEFAULT_MEMPOOL_CACHE_SIZE
      dpdk.RTE_MBUF_DEFAULT_BUF_SIZE (dpdk.rte_lcore_to_socket_id lcore) = some pool ∧ t'.pool lcore = some pool := by
  simp only [app_init_mbuf_pools, bind_eq_ok] at run
  obtain ⟨pools, makes, pool, gives, run⟩ := run
  cases run
  obtain ⟨p, made, given⟩ := each_served makes gives few enabled enabled
  exact ⟨p, demand_ok.mp made, given⟩

/-! ### When everyone is served -/

theorem socket_used_iff {socket : Nat} : app_is_socket_used dpdk roles socket = true ↔
    ∃ lcore < APP_MAX_LCORES, isEnabled (roles lcore) = true ∧ dpdk.rte_lcore_to_socket_id lcore = socket := by
  simp only [app_is_socket_used, List.any_eq_true, List.mem_range, Bool.and_eq_true, beq_iff_eq]
  exact exists_congr fun lcore => and_congr_right fun _ => and_congr_right fun _ => eq_comm

theorem each_socket_iff {α : Type} {make : Nat → Result α} {made : Nat → Option α} :
    (∃ made', each_socket dpdk roles make made = .ok made') ↔
      ∀ socket ∈ List.range APP_MAX_SOCKETS, app_is_socket_used dpdk roles socket = true → ∃ a, make socket = .ok a := by
  refine Calls.parts_ok (fun socket _ made => ?_) made
  split_ifs with used
  · rw [forall_prop_of_true used]
    simp only [bind_eq_ok]
    constructor
    · rintro ⟨made', a, makes, -⟩
      exact ⟨a, makes⟩
    · rintro ⟨a, makes⟩
      exact ⟨_, a, makes, rfl⟩
  · exact iff_of_true ⟨made, rfl⟩ fun here => absurd here used

theorem each_lcore_iff {α : Type} {asks : Role → Bool} {made given : Nat → Option α} :
    (∃ given', each_lcore dpdk roles asks made given = .ok given') ↔
      ∀ lcore ∈ List.range APP_MAX_LCORES, asks (roles lcore) = true → dpdk.rte_lcore_to_socket_id lcore < APP_MAX_SOCKETS := by
  refine Calls.parts_ok (fun lcore _ given => ?_) given
  split_ifs with asking
  · rw [forall_prop_of_true asking]
    simp only [bind_eq_ok]
    constructor
    · rintro ⟨given', u, inside, -⟩
      exact index_ok.mp inside
    · exact fun inside => ⟨_, (), index_ok.mpr inside, rfl⟩
  · exact iff_of_true ⟨given, rfl⟩ fun here => absurd here asking

/-- Both loops come to their ends when the enabled lcores can be served. -/
theorem each_serves {α : Type} (make : Nat → Result α) {asks : Role → Bool} (made given : Nat → Option α)
    (enabled : ∀ r, asks r = true → isEnabled r = true)
    (able : ∀ lcore < APP_MAX_LCORES, isEnabled (roles lcore) = true → dpdk.rte_lcore_to_socket_id lcore < APP_MAX_SOCKETS ∧
      ∃ a, make (dpdk.rte_lcore_to_socket_id lcore) = .ok a) :
    ∃ made' given', each_socket dpdk roles make made = .ok made' ∧ each_lcore dpdk roles asks made' given = .ok given' := by
  obtain ⟨made', makes⟩ : ∃ made', each_socket dpdk roles make made = .ok made' := by
    refine each_socket_iff.mpr fun socket _ used => ?_
    obtain ⟨lcore, few, on, rfl⟩ := socket_used_iff.mp used
    exact (able lcore few on).2
  obtain ⟨given', gives⟩ : ∃ given', each_lcore dpdk roles asks made' given = .ok given' :=
    each_lcore_iff.mpr fun lcore member asking => (able lcore (List.mem_range.mp member) (enabled _ asking)).1
  exact ⟨made', given', makes, gives⟩

theorem app_init_mbuf_pools_goes (t : Tables π τ)
    (able : ∀ lcore < APP_MAX_LCORES, isEnabled (roles lcore) = true → dpdk.rte_lcore_to_socket_id lcore < APP_MAX_SOCKETS ∧
      ∃ pool, dpdk.rte_pktmbuf_pool_create APP_DEFAULT_MEMPOOL_BUFFERS APP_DEFAULT_MEMPOOL_CACHE_SIZE
        dpdk.RTE_MBUF_DEFAULT_BUF_SIZE (dpdk.rte_lcore_to_socket_id lcore) = some pool) :
    ∃ t', app_init_mbuf_pools dpdk roles t = .ok t' := by
  obtain ⟨made, given, makes, gives⟩ := each_serves (fun socket => demand (dpdk.rte_pktmbuf_pool_create
    APP_DEFAULT_MEMPOOL_BUFFERS APP_DEFAULT_MEMPOOL_CACHE_SIZE dpdk.RTE_MBUF_DEFAULT_BUF_SIZE socket)) t.pools t.pool
    (fun _ on => on) fun lcore few on => (able lcore few on).imp_right fun made => made.imp fun _ => demand_ok.mpr
  simp only [app_init_mbuf_pools, bind_eq_ok]
  exact ⟨_, made, makes, given, gives, rfl⟩

theorem app_init_lpm_tables_goes {lpm_rules : List LpmRule} (t : Tables π τ)
    (able : ∀ lcore < APP_MAX_LCORES, isEnabled (roles lcore) = true → dpdk.rte_lcore_to_socket_id lcore < APP_MAX_SOCKETS ∧
      ∃ table, init_lpm_table dpdk lpm_rules (dpdk.rte_lcore_to_socket_id lcore) = .ok table) :
    ∃ t', app_init_lpm_tables dpdk roles lpm_rules t = .ok t' := by
  have workers : ∀ r, isWorker r = true → isEnabled r = true := fun r worker => by
    cases r with
    | disabled => cases worker
    | io nic_queues nic_ports => rfl
    | worker => rfl
  obtain ⟨made, given, makes, gives⟩ := each_serves _ t.lpm_tables t.lpm_table workers able
  simp only [app_init_lpm_tables, bind_eq_ok]
  exact ⟨_, made, makes, given, gives, rfl⟩

/-! ### What a table answers -/

/-- The rules as routes. -/
def routes (lpm_rules : List LpmRule) : List (Route Nat) := lpm_rules.map fun rule => ⟨rule.ip, rule.depth, rule.if_out⟩

theorem init_lpm_table_held {held : τ → Set (Route Nat)} (documented : Documented dpdk.toLpm held)
    {lpm_rules : List LpmRule} {socket : Nat} {table : τ} (run : init_lpm_table dpdk lpm_rules socket = .ok table) :
    held table = filled 32 (routes lpm_rules) := by
  obtain ⟨first, makes, run⟩ := bind_eq_ok.mp run
  have empty := documented.create (demand_ok.mp makes)
  have last := foldlM_ok (fun rest table => (routes rest).foldl (added 32) (held table) = filled 32 (routes lpm_rules))
    ?_ (by rw [empty]; rfl) run
  · exact last
  · intro rule rest table next before once
    rw [documented.add (demand_ok.mp once)]
    exact before

/-- A worker's table answers with the last of the longest rules. -/
theorem tables_served {held : τ → Set (Route Nat)} (documented : Documented dpdk.toLpm held) {lpm_rules : List LpmRule}
    {t t' : Tables π τ} (run : app_init_lpm_tables dpdk roles lpm_rules t = .ok t') {lcore : Nat}
    (few : lcore < APP_MAX_LCORES) (worker : roles lcore = .worker) :
    ∃ table, t'.lpm_table lcore = some table ∧
      ∀ dst, dpdk.rte_lpm_lookup table dst = (route 32 (routes lpm_rules) dst).map Route.hop := by
  simp only [app_init_lpm_tables, bind_eq_ok] at run
  obtain ⟨tables, makes, table, gives, run⟩ := run
  cases run
  obtain ⟨made, makes, given⟩ := each_served makes gives few (by rw [worker]; rfl) (by rw [worker]; rfl)
  refine ⟨made, given, fun dst => filled_answers (?_ : Answers 32 (filled 32 (routes lpm_rules)) dst _)⟩
  rw [← init_lpm_table_held documented makes]
  exact documented.lookup made dst

/-- The rule is for the destination: they agree in the first `depth` bits. -/
def Matches (rule : LpmRule) (dst : Nat) : Prop := dst / 2 ^ (32 - rule.depth) = rule.ip / 2 ^ (32 - rule.depth)

instance (rule : LpmRule) (dst : Nat) : Decidable (Matches rule dst) := inferInstanceAs (Decidable (_ = _))

/-- The rule that counts for a destination: those before it are not longer, those behind
    it are shorter. -/
def Chosen (lpm_rules : List LpmRule) (dst : Nat) (rule : LpmRule) : Prop :=
  ∃ before after, lpm_rules = before ++ rule :: after ∧ Matches rule dst ∧
    (∀ other ∈ before, Matches other dst → other.depth ≤ rule.depth) ∧
    ∀ other ∈ after, Matches other dst → other.depth < rule.depth

theorem route_chosen {lpm_rules : List LpmRule} {dst : Nat} {r : Route Nat} :
    route 32 (routes lpm_rules) dst = some r ↔ ∃ rule, Chosen lpm_rules dst rule ∧ r = ⟨rule.ip, rule.depth, rule.if_out⟩ := by
  rw [route_iff]
  constructor
  · rintro ⟨before, after, split, covers, earlier, later⟩
    obtain ⟨first, rest, rfl, rfl, behind⟩ := List.map_eq_append_iff.mp split
    obtain ⟨rule, last, rfl, rfl, rfl⟩ := List.map_eq_cons_iff.mp behind
    exact ⟨rule, ⟨first, last, rfl, covers, fun other member => earlier _ (List.mem_map_of_mem member),
      fun other member => later _ (List.mem_map_of_mem member)⟩, rfl⟩
  · rintro ⟨rule, ⟨first, last, rfl, covers, earlier, later⟩, rfl⟩
    refine ⟨routes first, routes last, List.map_append .., covers, fun s member => ?_, fun s member => ?_⟩
    · obtain ⟨other, listed, rfl⟩ := List.mem_map.mp member
      exact earlier other listed
    · obtain ⟨other, listed, rfl⟩ := List.mem_map.mp member
      exact later other listed

theorem chosen_listed {lpm_rules : List LpmRule} {dst : Nat} {rule : LpmRule} (chosen : Chosen lpm_rules dst rule) :
    rule ∈ lpm_rules := by
  obtain ⟨before, after, rfl, -⟩ := chosen
  exact List.mem_append_right _ List.mem_cons_self

theorem route_none {lpm_rules : List LpmRule} {dst : Nat} :
    route 32 (routes lpm_rules) dst = none ↔ ∀ rule ∈ lpm_rules, ¬ Matches rule dst := by
  constructor
  · intro none rule listed matching
    have member : ⟨rule.ip, rule.depth, rule.if_out⟩ ∈ routes lpm_rules := List.mem_map.mpr ⟨rule, listed, rfl⟩
    have covers : Route.Covers 32 ⟨rule.ip, rule.depth, rule.if_out⟩ dst := matching
    obtain ⟨b, found, -⟩ := route_longest member covers
    rw [found] at none
    cases none
  · intro nothing
    cases found : route 32 (routes lpm_rules) dst with
    | none => rfl
    | some r =>
      obtain ⟨member, covers⟩ := route_some found
      obtain ⟨rule, listed, rfl⟩ := List.mem_map.mp member
      exact absurd covers (nothing rule listed)

/-- Every worker has a table, on whatever socket it is, and they all answer alike: with
    the last of the longest rules for the destination, and not when there is none. -/
theorem workers_route {held : τ → Set (Route Nat)} (documented : Documented dpdk.toLpm held) {lpm_rules : List LpmRule}
    {t t' : Tables π τ} (run : app_init_lpm_tables dpdk roles lpm_rules t = .ok t') {lcore : Nat}
    (few : lcore < APP_MAX_LCORES) (worker : roles lcore = .worker) :
    ∃ table, t'.lpm_table lcore = some table ∧ ∀ dst,
      (∀ hop, dpdk.rte_lpm_lookup table dst = some hop ↔ ∃ rule, Chosen lpm_rules dst rule ∧ rule.if_out = hop) ∧
      (dpdk.rte_lpm_lookup table dst = none ↔ ∀ rule ∈ lpm_rules, ¬ Matches rule dst) := by
  obtain ⟨table, given, answers⟩ := tables_served documented run few worker
  refine ⟨table, given, fun dst => ⟨fun hop => ?_, ?_⟩⟩
  · rw [answers, Option.map_eq_some_iff]
    constructor
    · rintro ⟨r, found, rfl⟩
      obtain ⟨rule, chosen, rfl⟩ := route_chosen.mp found
      exact ⟨rule, chosen, rfl⟩
    · rintro ⟨rule, chosen, rfl⟩
      exact ⟨_, route_chosen.mpr ⟨rule, chosen, rfl⟩, rfl⟩
  · rw [answers, Option.map_eq_none_iff, route_none]

end Init

/-! ### A table as the list of its rules -/

instance {η : Type} (width : Nat) (r s : Route η) : Decidable (r.Alike width s) := inferInstanceAs (Decidable (_ ∧ _))

/-- Tables that never fail, kept as the rules they hold. -/
def listed : Lpm (List (Route Nat)) where
  rte_lpm_create _ _ _ := some []
  rte_lpm_add t ip depth next_hop := some (⟨ip, depth, next_hop⟩ :: t.filter fun r => ¬ Route.Alike 32 ⟨ip, depth, next_hop⟩ r)
  rte_lpm_lookup t ip := (route 32 t ip).map Route.hop

theorem listed_documented : Documented listed fun t => { r | r ∈ t } where
  create made := by
    cases made
    ext r
    simp
  add made := by
    cases made
    ext r
    simp [added]
  lookup t ip := by
    show Answers 32 _ ip ((route 32 t ip).map Route.hop)
    cases found : route 32 t ip with
    | none =>
      intro r member covers
      obtain ⟨b, found', -⟩ := route_longest member covers
      rw [found] at found'
      cases found'
    | some r =>
      obtain ⟨member, covers⟩ := route_some found
      refine ⟨r, member, covers, rfl, fun s member' covers' => ?_⟩
      obtain ⟨b, found', below⟩ := route_longest member' covers'
      rw [found] at found'
      cases found'
      exact below

/-- Two sockets; the workers are on the second. -/
def two_sockets : Platform Nat (List (Route Nat)) where
  toLpm := listed
  rte_lcore_to_socket_id lcore := if lcore = 0 then 0 else 1
  rte_pktmbuf_pool_create _ _ _ socket := some socket
  RTE_MBUF_DEFAULT_BUF_SIZE := 2176

/-- `192.168.0.0/16=>1` and `192.168.4.0/24=>0`. -/
def two_rules : List LpmRule := [⟨0xC0A80000, 16, 1⟩, ⟨0xC0A80400, 24, 0⟩]

/-- The longer rule counts. -/
theorem longer_routes : ∃ t table, app_init_lpm_tables two_sockets Conservation.smallRoles two_rules
      ⟨fun _ => none, fun _ => none, fun _ => none, fun _ => none⟩ = .ok t ∧ t.lpm_table 1 = some table ∧
    two_sockets.rte_lpm_lookup table 0xC0A8045F = some 0 ∧ two_sockets.rte_lpm_lookup table 0x0A000001 = none := by
  have played : (app_init_lpm_tables two_sockets Conservation.smallRoles two_rules
      ⟨fun _ => none, fun _ => none, fun _ => none, fun _ => none⟩).isOk = true := by decide +kernel
  cases run : app_init_lpm_tables two_sockets Conservation.smallRoles two_rules
      ⟨fun _ => none, fun _ => none, fun _ => none, fun _ => none⟩ with
  | error e =>
    rw [run] at played
    cases played
  | ok t =>
    obtain ⟨table, given, answers⟩ := workers_route listed_documented run
      (show 1 < APP_MAX_LCORES by decide) rfl
    refine ⟨t, table, rfl, given, ((answers _).1 0).mpr ⟨⟨0xC0A80400, 24, 0⟩, ?_, rfl⟩, (answers _).2.mpr (by decide)⟩
    exact ⟨[⟨0xC0A80000, 16, 1⟩], [], rfl, by decide, by decide, by decide⟩

end Shardb.Sockets
