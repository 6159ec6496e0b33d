import Shardb.Client
import Shardb.Lcores
import Shardb.SinglePartition

/-!
# What the programs send

The handler turns a request into its reply in place. It exchanges nothing, it sets
the two addresses of `main`, and the worker has chosen the port before
(`replied_back_iff`). The lengths are worked out in `prepare_hw_checksum`, in fields
that are too small for the server's header, and IP's own length is left as it came
(`lengths_consistent`).
-/

namespace Shardb.Replies
open Shardb.Bytes Shardb.CStrings Shardb.Server
open Shardb.Datastore (Env)
open Shardb.SinglePartition (single_partition_idle single_partition_unbegun single_partition_begun)
open Shardb.Handlers (Buf ok_of_map)
open Shardb.Lcores (Net Outputs Processing RingId worker_pkt)
open Shardb.Loops (bind_eq_ok)

/-! ### The bytes of a reply -/

section Bytes
variable {app : App} {pkt_in : Mbuf} {data_size : Nat}

/-- Checksums and lengths are stored behind UDP's ports. -/
private theorem hw_checksum_data (app : App) (pkt_in : Mbuf) (data_size : Nat) : ∃ high low : UInt8,
    (prepare_hw_checksum app pkt_in data_size).data =
      store (store pkt_in.data (udp_offset + 4) (be16 (udp_hdr + data_size))) (udp_offset + 6) [high, low] :=
  ⟨_, _, rfl⟩

theorem hw_checksum_part {off n : Nat} (room : app_offset ≤ pkt_in.data.length) (before : off + n ≤ udp_offset + 4) :
    ((prepare_hw_checksum app pkt_in data_size).data.drop off).take n = (pkt_in.data.drop off).take n := by
  have ends : app_offset = udp_offset + 8 := rfl
  obtain ⟨high, low, stored⟩ := hw_checksum_data app pkt_in data_size
  have size : (store pkt_in.data (udp_offset + 4) (be16 (udp_hdr + data_size))).length = pkt_in.data.length :=
    length_store (by rw [length_be16]; omega)
  rw [stored, part_store (.inl (by omega)) (by rw [size]; simp only [List.length_cons, List.length_nil]; omega),
    part_store (.inl before) (by rw [length_be16]; omega)]

/-- The bytes of the source and of the destination address of IP. -/
def source (pkt : Mbuf) : List UInt8 := (pkt.data.drop (ip_offset + 12)).take 4
def destination (pkt : Mbuf) : List UInt8 := (pkt.data.drop (ip_offset + 16)).take 4

/-- A reply goes from the client to the server. -/
theorem reply_addresses (server : app.server.length = 4) (client : app.client.length = 4)
    (room : app_offset ≤ pkt_in.data.length) :
    source (reply app pkt_in) = app.client ∧ destination (reply app pkt_in) = app.server := by
  have sizes : ip_offset = 14 ∧ udp_offset = 34 ∧ app_offset = 42 := ⟨rfl, rfl, rfl⟩
  have first : (store pkt_in.data (ip_offset + 16) app.server).length = pkt_in.data.length :=
    length_store (by omega)
  have second : (store (store pkt_in.data (ip_offset + 16) app.server) (ip_offset + 12) app.client).length =
      pkt_in.data.length := by
    rw [length_store (by omega), first]
  unfold source destination reply
  constructor
  · rw [hw_checksum_part (by dsimp only; omega) (by omega)]
    dsimp only
    rw [← client]
    exact part_store_self (by omega)
  · rw [hw_checksum_part (by dsimp only; omega) (by omega)]
    dsimp only
    rw [part_store (.inr (by omega)) (by omega), ← server]
    exact part_store_self (by omega)

end Bytes

/-! ### The handler's reply -/

section Answered
variable {app : App} {fuel worker_id leader : Nat} {undef : Int} {mem : Mem Buf} {pkt_in : Mbuf} {rocks : Env} {done : Done}
variable {run : Mem Buf → Option Int → Env → Handlers.Result (LoopEnd Env)}

private theorem single_partition_answered (handled : single_partition app fuel run worker_id mem pkt_in rocks = .ok done)
    (answered : done.ret = 0) : done.pkt = reply app pkt_in := by
  by_cases busy : (rocks.cell worker_id).tx_db = false ∨ (rocks.cell worker_id).tx ≠ none
  · rw [single_partition_idle app fuel run worker_id mem pkt_in rocks busy] at handled
    cases handled
    rfl
  · obtain ⟨opened, empty⟩ := not_or.mp busy
    rw [Bool.not_eq_false] at opened
    rw [not_not] at empty
    cases faulty : rocks.lib.fails .begin with
    | true =>
      rw [single_partition_unbegun app fuel run worker_id mem pkt_in rocks opened empty faulty] at handled
      cases handled
      rfl
    | false =>
      rw [single_partition_begun app fuel run worker_id mem pkt_in rocks opened empty faulty] at handled
      obtain ⟨last, -, handled⟩ := bind_eq_ok.mp handled
      split_ifs at handled
      · obtain ⟨⟨ret, rocks'⟩, -, handled⟩ := bind_eq_ok.mp handled
        cases handled
        cases answered
      · cases handled
        rfl

private theorem multi_partition_answered
    (handled : multi_partition app fuel run leader worker_id mem pkt_in rocks = .ok done) (answered : done.ret = 0) :
    done.pkt = reply app pkt_in := by
  unfold multi_partition at handled
  dsimp only at handled
  split_ifs at handled
  · obtain ⟨last, -, handled⟩ := bind_eq_ok.mp handled
    split_ifs at handled
    · obtain ⟨rocks', -, handled⟩ := bind_eq_ok.mp handled
      cases handled
      cases answered
    · obtain ⟨rocks', -, handled⟩ := bind_eq_ok.mp handled
      cases handled
      rfl
  · cases handled
    cases answered

/-- A message that is answered 0 leaves the reply, whatever its type. -/
theorem handle_answered (handled : handle_db_message app fuel undef mem pkt_in worker_id rocks = .ok done)
    (answered : done.ret = 0) : done.pkt = reply app pkt_in := by
  unfold handle_db_message at handled
  obtain ⟨⟨msg, mem'⟩, -, handled⟩ := bind_eq_ok.mp handled
  dsimp only at handled
  split_ifs at handled
  · exact single_partition_answered handled answered
  · cases handled
    cases answered
  · obtain ⟨waited, -, handled⟩ := bind_eq_ok.mp handled
    cases waited with
    | inr rocks' =>
      cases handled
      cases answered
    | inl rocks' => exact multi_partition_answered handled answered
  · cases handled
    cases answered

end Answered

/-! ### A worker with its callback -/

/-- What a worker works on: the packets by their addresses, the handler's local
    arrays and the datastore. -/
structure World where
  mbufs : Nat → Mbuf
  mem : Mem Buf
  rocks : Env

/-- The callback as `process_pkt`; a call that does not return leaves nothing to
    forward. -/
def process_db_message (app : App) (fuel : Nat) (undef : Int) (worker_id : Nat) (pkt_in : Nat) (s : World) : Int × World :=
  match handle_db_message app fuel undef s.mem (s.mbufs pkt_in) worker_id s.rocks with
  | .ok done => (done.ret, ⟨Function.update s.mbufs pkt_in done.pkt, done.mem, done.rocks⟩)
  | .error _ => (-1, s)

/-- A worker with its table, when it comes to a packet. The destination address is
    read of the packets as they are then. -/
def db_worker (app : App) (fuel : Nat) (undef : Int) (worker_id : Nat) (lpm_lookup : Nat → Option Nat)
    (port : Nat → Nat) (s : World) : Processing Nat World where
  process_pkt := process_db_message app fuel undef worker_id
  lpm_lookup := lpm_lookup
  mtod pkt := (s.mbufs pkt).data
  port := port

/-- The port that the table yields for an address, or the port of ingress. -/
def port_for (lpm_lookup : Nat → Option Nat) (ingress : Nat) (addr : List UInt8) : Nat :=
  (lpm_lookup (readBe32 addr 0)).getD ingress

/-- What is queued goes from the server to the client that sent the request, by the
    port for the client. -/
structure RepliedBack (app : App) (lpm_lookup : Nat → Option Nat) (ingress : Nat) (request queued : Mbuf) (port : Nat) :
    Prop where
  to_client : destination queued = source request
  from_server : source queued = app.server
  by_port : port = port_for lpm_lookup ingress (destination queued)

section Worker
variable {app : App} {fuel worker_id bsz_wr pkt_in : Nat} {undef : Int} {lpm_lookup : Nat → Option Nat} {port : Nat → Nat}
  {s s' : World} {lp lp' : Lcores.Worker Nat} {net net' : Net Nat} {done : Done}

/-- The port is the one for the request's destination. -/
private theorem db_worker_port : (db_worker app fuel undef worker_id lpm_lookup port s).out_port pkt_in =
    port_for lpm_lookup (port pkt_in) (destination (s.mbufs pkt_in)) := by
  unfold Processing.out_port port_for destination
  refine congrArg (fun dst => (lpm_lookup dst).getD (port pkt_in)) (readBe32_part ?_)
  simp only [List.drop_zero, List.take_take]
  rfl

private theorem worker_pkt_answered
    (handled : handle_db_message app fuel undef s.mem (s.mbufs pkt_in) worker_id s.rocks = .ok done)
    (answered : done.ret = 0)
    (run : worker_pkt (db_worker app fuel undef worker_id lpm_lookup port s) bsz_wr pkt_in (lp, net, s) =
      .ok (lp', net', s')) :
    s'.mbufs pkt_in = done.pkt ∧
    lp.append ((db_worker app fuel undef worker_id lpm_lookup port s).out_port pkt_in) pkt_in bsz_wr
      (lp.rings_out ((db_worker app fuel undef worker_id lpm_lookup port s).out_port pkt_in)) net =
        .ok (lp'.toOutputs, net') := by
  have processed : (db_worker app fuel undef worker_id lpm_lookup port s).process_pkt pkt_in s =
      (done.ret, ⟨Function.update s.mbufs pkt_in done.pkt, done.mem, done.rocks⟩) := by
    show process_db_message app fuel undef worker_id pkt_in s = _
    rw [process_db_message, handled]
  simp only [worker_pkt, processed] at run
  rw [if_neg (by omega)] at run
  simp only [bind_eq_ok] at run
  obtain ⟨-, -, ⟨out, net''⟩, queued, run⟩ := run
  cases run
  exact ⟨Function.update_self .., queued⟩

/-- What a worker queues for a request that is answered 0 is on the port that was
    chosen for the request's destination. It goes back to the requester by the right
    port exactly when the addresses of `main` are both the requester's and the table
    takes the request's two addresses to one port. -/
theorem replied_back_iff (server : app.server.length = 4) (client : app.client.length = 4)
    (room : app_offset ≤ (s.mbufs pkt_in).data.length)
    (handled : handle_db_message app fuel undef s.mem (s.mbufs pkt_in) worker_id s.rocks = .ok done)
    (answered : done.ret = 0)
    (run : worker_pkt (db_worker app fuel undef worker_id lpm_lookup port s) bsz_wr pkt_in (lp, net, s) =
      .ok (lp', net', s')) :
    lp.append ((db_worker app fuel undef worker_id lpm_lookup port s).out_port pkt_in) pkt_in bsz_wr
      (lp.rings_out ((db_worker app fuel undef worker_id lpm_lookup port s).out_port pkt_in)) net =
        .ok (lp'.toOutputs, net') ∧
    (RepliedBack app lpm_lookup (port pkt_in) (s.mbufs pkt_in) (s'.mbufs pkt_in)
        ((db_worker app fuel undef worker_id lpm_lookup port s).out_port pkt_in) ↔
      source (s.mbufs pkt_in) = app.server ∧ app.client = app.server ∧
        port_for lpm_lookup (port pkt_in) (destination (s.mbufs pkt_in)) =
          port_for lpm_lookup (port pkt_in) (source (s.mbufs pkt_in))) := by
  obtain ⟨rewritten, queued⟩ := worker_pkt_answered handled answered run
  obtain ⟨from_client, to_server⟩ := reply_addresses server client room
  rw [handle_answered handled answered] at rewritten
  refine ⟨queued, ?_⟩
  rw [rewritten, db_worker_port]
  constructor
  · rintro ⟨back, own, same⟩
    rw [to_server] at back same
    rw [from_client] at own
    exact ⟨back.symm, own, by rw [same, back]⟩
  · rintro ⟨back, own, same⟩
    constructor
    · rw [to_server, back]
    · rw [from_client, own]
    · rw [to_server, same, back]

end Worker

/-- A request without a command: addresses, a message and zeros. -/
def request (src dst : List UInt8) : Mbuf :=
  ⟨List.replicate (ip_offset + 12) 0 ++ src ++ dst ++ List.replicate 1038 0, 1072, 1072, 0, 0, 0, []⟩

/-- One packet, and one shard. -/
def received (pkt : Mbuf) : World :=
  ⟨fun _ => pkt, ⟨fun _ => [], none⟩, Datastore.init_database_env 1 Nat.one_pos (fun _ => []) (fun _ _ => false)⟩

/-- A worker that has queued nothing. -/
def idle : Lcores.Worker Nat × Net Nat :=
  (⟨⟨fun _ => .empty, fun _ => false⟩, [], fun _ => none, 0, 0⟩, ⟨fun _ => .create 0, [], fun _ => [], []⟩)

/-- A worker of a server with these addresses comes to its only packet. -/
def server_at (server client : List UInt8) : App := ⟨server, client, fun _ _ => (0, 0)⟩

def worker_at (app : App) (pkt : Mbuf) : Processing Nat World :=
  db_worker app 1 0 0 (fun _ => none) (fun _ => 0) (received pkt)

/-- The request is answered, and queued. -/
private theorem request_queued (app : App) (pkt : Mbuf)
    (answered : (handle_db_message app 1 0 (received pkt).mem pkt 0 (received pkt).rocks).map Done.ret = .ok 0)
    (queued : (worker_pkt (worker_at app pkt) 2 0 (idle.1, idle.2, received pkt)).toOption.isSome) :
    (∃ done, handle_db_message app 1 0 (received pkt).mem pkt 0 (received pkt).rocks = .ok done ∧ done.ret = 0) ∧
    ∃ lp' net' s', worker_pkt (worker_at app pkt) 2 0 (idle.1, idle.2, received pkt) = .ok (lp', net', s') := by
  refine ⟨ok_of_map answered, ?_⟩
  cases run : worker_pkt (worker_at app pkt) 2 0 (idle.1, idle.2, received pkt) with
  | error e =>
    rw [run] at queued
    cases queued
  | ok t => exact ⟨t.1, t.2.1, t.2.2, rfl⟩

/-- A server that asks itself is answered. -/
theorem own_request_replied :
    ∃ lp' net' s', worker_pkt (worker_at (server_at [192, 168, 4, 98] [192, 168, 4, 98])
          (request [192, 168, 4, 98] [192, 168, 4, 98])) 2 0
        (idle.1, idle.2, received (request [192, 168, 4, 98] [192, 168, 4, 98])) = .ok (lp', net', s') ∧
      RepliedBack (server_at [192, 168, 4, 98] [192, 168, 4, 98]) (fun _ => none) 0
        (request [192, 168, 4, 98] [192, 168, 4, 98]) (s'.mbufs 0)
        ((worker_at (server_at [192, 168, 4, 98] [192, 168, 4, 98])
          (request [192, 168, 4, 98] [192, 168, 4, 98])).out_port 0) := by
  obtain ⟨⟨done, handled, answered⟩, lp', net', s', run⟩ := request_queued
    (server_at [192, 168, 4, 98] [192, 168, 4, 98]) (request [192, 168, 4, 98] [192, 168, 4, 98]) (by decide +kernel)
    (by decide +kernel)
  exact ⟨lp', net', s', run,
    (replied_back_iff rfl rfl (by decide +kernel) handled answered run).2.mpr (by decide +kernel)⟩

/-- With the addresses of `main`, a request of the client is answered to the server. -/
theorem client_request_misdirected :
    ∃ lp' net' s', worker_pkt (worker_at (server_at [192, 168, 4, 98] [192, 168, 4, 95])
          (request [192, 168, 4, 95] [192, 168, 4, 98])) 2 0
        (idle.1, idle.2, received (request [192, 168, 4, 95] [192, 168, 4, 98])) = .ok (lp', net', s') ∧
      destination (s'.mbufs 0) = [192, 168, 4, 98] ∧ source (s'.mbufs 0) = [192, 168, 4, 95] ∧
      ¬ RepliedBack (server_at [192, 168, 4, 98] [192, 168, 4, 95]) (fun _ => none) 0
        (request [192, 168, 4, 95] [192, 168, 4, 98]) (s'.mbufs 0)
        ((worker_at (server_at [192, 168, 4, 98] [192, 168, 4, 95])
          (request [192, 168, 4, 95] [192, 168, 4, 98])).out_port 0) := by
  obtain ⟨⟨done, handled, answered⟩, lp', net', s', run⟩ := request_queued
    (server_at [192, 168, 4, 98] [192, 168, 4, 95]) (request [192, 168, 4, 95] [192, 168, 4, 98]) (by decide +kernel)
    (by decide +kernel)
  obtain ⟨rewritten, -⟩ := worker_pkt_answered handled answered run
  have queued : s'.mbufs 0 =
      reply (server_at [192, 168, 4, 98] [192, 168, 4, 95]) (request [192, 168, 4, 95] [192, 168, 4, 98]) :=
    rewritten.trans (handle_answered handled answered)
  obtain ⟨from_client, to_server⟩ :
      source (reply (server_at [192, 168, 4, 98] [192, 168, 4, 95]) (request [192, 168, 4, 95] [192, 168, 4, 98])) =
        [192, 168, 4, 95] ∧
      destination (reply (server_at [192, 168, 4, 98] [192, 168, 4, 95]) (request [192, 168, 4, 95] [192, 168, 4, 98])) =
        [192, 168, 4, 98] := reply_addresses rfl rfl (by decide +kernel)
  refine ⟨lp', net', s', run, by rw [queued]; exact to_server, by rw [queued]; exact from_client, fun back => ?_⟩
  have own := back.from_server
  rw [queued, from_client] at own
  revert own
  decide

/-! ### Lengths -/

/-- The length fields of a packet whose data has this size. -/
structure Consistent (pkt : Mbuf) (data_size : Nat) : Prop where
  data_len : pkt.data_len = ether_hdr + ipv4_hdr + udp_hdr + data_size
  pkt_len : pkt.pkt_len = ether_hdr + ipv4_hdr + udp_hdr + data_size
  total_length : readBe16 pkt.data (ip_offset + 2) = ipv4_hdr + udp_hdr + data_size
  dgram_len : readBe16 pkt.data (udp_offset + 4) = udp_hdr + data_size
  headers : pkt.l2_len + pkt.l3_len + pkt.l4_len = pkt.pkt_len

section Lengths
variable {app : App} {pkt_in : Mbuf} {data_size : Nat}

/-- The length that IP had. -/
private theorem hw_checksum_total_length (room : app_offset ≤ pkt_in.data.length) :
    readBe16 (prepare_hw_checksum app pkt_in data_size).data (ip_offset + 2) = readBe16 pkt_in.data (ip_offset + 2) :=
  readBe16_part (hw_checksum_part room (by decide))

private theorem hw_checksum_dgram_len (room : app_offset ≤ pkt_in.data.length) (small : udp_hdr + data_size < 2 ^ 16) :
    readBe16 (prepare_hw_checksum app pkt_in data_size).data (udp_offset + 4) = udp_hdr + data_size := by
  have ends : app_offset = udp_offset + 8 := rfl
  have stored : readBe16 (store pkt_in.data (udp_offset + 4) (be16 (udp_hdr + data_size))) (udp_offset + 4) =
      udp_hdr + data_size := readBe16_store small (by omega)
  obtain ⟨high, low, is⟩ := hw_checksum_data app pkt_in data_size
  rw [is]
  refine (readBe16_part (part_store (.inl (show udp_offset + 4 + 2 ≤ udp_offset + 6 by omega)) ?_)).trans stored
  rw [length_store (by rw [length_be16]; omega)]
  simp only [List.length_cons, List.length_nil]
  omega

/-- The length of the transport layer and its data has 8 bits. -/
theorem hw_checksum_consistent_iff (room : app_offset ≤ pkt_in.data.length)
    (fits : ether_hdr + ipv4_hdr + udp_hdr + data_size ≤ 65535) :
    Consistent (prepare_hw_checksum app pkt_in data_size) data_size ↔
      udp_hdr + data_size < 2 ^ 8 ∧ readBe16 pkt_in.data (ip_offset + 2) = ipv4_hdr + udp_hdr + data_size := by
  have sizes : ether_hdr = 14 ∧ ipv4_hdr = 20 ∧ udp_hdr = 8 := ⟨rfl, rfl, rfl⟩
  have lens : (prepare_hw_checksum app pkt_in data_size).data_len =
        (ether_hdr % 2 ^ 7 + ipv4_hdr % 2 ^ 9 + (udp_hdr + data_size) % 2 ^ 8) % 2 ^ 16 ∧
      (prepare_hw_checksum app pkt_in data_size).pkt_len =
        (ether_hdr % 2 ^ 7 + ipv4_hdr % 2 ^ 9 + (udp_hdr + data_size) % 2 ^ 8) % 2 ^ 32 ∧
      (prepare_hw_checksum app pkt_in data_size).l2_len = ether_hdr % 2 ^ 7 ∧
      (prepare_hw_checksum app pkt_in data_size).l3_len = ipv4_hdr % 2 ^ 9 ∧
      (prepare_hw_checksum app pkt_in data_size).l4_len = (udp_hdr + data_size) % 2 ^ 8 := ⟨rfl, rfl, rfl, rfl, rfl⟩
  constructor
  · rintro ⟨data_len, -, total_length, -, -⟩
    rw [hw_checksum_total_length room] at total_length
    exact ⟨by omega, total_length⟩
  · rintro ⟨small, total_length⟩
    constructor
    · omega
    · omega
    · rw [hw_checksum_total_length room]
      exact total_length
    · exact hw_checksum_dgram_len room (by omega)
    · omega

/-- The client's header is small enough. -/
private theorem propose_consistent_iff (server : app.server.length = 4) (client : app.client.length = 4)
    (room : app_offset ≤ pkt_in.data.length) (answered : (Client.handle_propose app pkt_in).1 = 0) :
    Consistent (Client.handle_propose app pkt_in).2 (structSize Client.app_hdr) ↔
      readBe16 pkt_in.data (ip_offset + 2) = ipv4_hdr + udp_hdr + structSize Client.app_hdr := by
  have sizes : ip_offset = 14 ∧ app_offset = 42 := ⟨rfl, rfl⟩
  have first : (store pkt_in.data (ip_offset + 16) app.server).length = pkt_in.data.length :=
    length_store (by omega)
  have second : (store (store pkt_in.data (ip_offset + 16) app.server) (ip_offset + 12) app.client).length =
      pkt_in.data.length := by
    rw [length_store (by omega), first]
  have total_length : readBe16 (store (store pkt_in.data (ip_offset + 16) app.server) (ip_offset + 12) app.client)
      (ip_offset + 2) = readBe16 pkt_in.data (ip_offset + 2) := by
    refine readBe16_part ?_
    rw [part_store (.inl (by omega)) (by omega), part_store (.inl (by omega)) (by omega)]
  unfold Client.handle_propose at answered ⊢
  dsimp only at answered ⊢
  split_ifs at answered ⊢
  · refine (hw_checksum_consistent_iff (by dsimp only; omega) (by decide)).trans ?_
    rw [total_length]
    exact and_iff_right (by decide)
  · cases answered

end Lengths

/-- What the programs send has consistent lengths exactly when `prepare_hw_checksum`
    prepared it, for data of less than 248 bytes, and IP's length was right before.
    So no request of the client is, where `pkt_len` leaves out the Ethernet header,
    and no reply of the server is. -/
theorem lengths_consistent (app : App) (pkt_in : Mbuf) :
    (∀ (rte_ipv4_phdr_cksum : List UInt8 → List TxFlag → UInt8 × UInt8) (addr : Vector UInt8 6)
        (src dst : Client.Sockaddr) (msgtype : UInt16) (shards : UInt8) (worker_id : UInt16) (value : List UInt8)
        (size : Nat),
      ¬ Consistent (Client.prepare_paxos_message rte_ipv4_phdr_cksum addr pkt_in src dst msgtype shards worker_id
        value size) (structSize Client.app_hdr)) ∧
    (∀ data_size, app_offset ≤ pkt_in.data.length → ether_hdr + ipv4_hdr + udp_hdr + data_size ≤ 65535 →
      (Consistent (prepare_hw_checksum app pkt_in data_size) data_size ↔
        data_size < 248 ∧ readBe16 pkt_in.data (ip_offset + 2) = ipv4_hdr + udp_hdr + data_size)) ∧
    (∀ (fuel : Nat) (undef : Int) (mem : Mem Buf) (worker_id : Nat) (rocks : Env) (done : Done),
      handle_db_message app fuel undef mem pkt_in worker_id rocks = .ok done → done.ret = 0 →
      ¬ Consistent done.pkt (structSize Server.app_hdr)) ∧
    (app.server.length = 4 → app.client.length = 4 → app_offset ≤ pkt_in.data.length →
      (Client.handle_propose app pkt_in).1 = 0 → (Consistent (Client.handle_propose app pkt_in).2 (structSize Client.app_hdr) ↔
        readBe16 pkt_in.data (ip_offset + 2) = ipv4_hdr + udp_hdr + structSize Client.app_hdr)) := by
  refine ⟨?_, ?_, ?_, ?_⟩
  · rintro rte_ipv4_phdr_cksum addr src dst msgtype shards worker_id value size ⟨-, pkt_len, -, -, -⟩
    have short : ipv4_hdr + udp_hdr + structSize Client.app_hdr ≠
        ether_hdr + ipv4_hdr + udp_hdr + structSize Client.app_hdr := by decide
    exact short pkt_len
  · intro data_size room fits
    rw [hw_checksum_consistent_iff room fits]
    have udp : udp_hdr = 8 := rfl
    refine and_congr_left fun _ => ?_
    omega
  · rintro fuel undef mem worker_id rocks done handled answered ⟨data_len, -, -, -, -⟩
    rw [handle_answered handled answered] at data_len
    revert data_len
    show ¬ (ether_hdr % 2 ^ 7 + ipv4_hdr % 2 ^ 9 + (udp_hdr + structSize Server.app_hdr) % 2 ^ 8) % 2 ^ 16 = _
    decide
  · intro server client room answered
    exact propose_consistent_iff server client room answered

/-- A packet for the client's callback whose IP header gives this length. -/
def arrived (total_length : Nat) : Mbuf :=
  ⟨store (List.replicate 112 0) (ip_offset + 2) (be16 total_length), 112, 112, 0, 0, 0, []⟩

theorem proposed_consistent : Consistent
    (Client.handle_propose (server_at [192, 168, 4, 98] [192, 168, 4, 95]) (arrived 98)).2 (structSize Client.app_hdr) :=
  ((lengths_consistent (server_at [192, 168, 4, 98] [192, 168, 4, 95]) (arrived 98)).2.2.2 rfl rfl (by decide +kernel)
    (by decide +kernel)).mpr (by decide +kernel)

/-- What the client sends first. -/
theorem sent_inconsistent : (Client.sent 0).pkt_len = 98 ∧ (Client.sent 0).data_len = 112 ∧
    ¬ Consistent (Client.sent 0) (structSize Client.app_hdr) := by
  refine ⟨rfl, rfl, ?_⟩
  rintro ⟨-, pkt_len, -, -, -⟩
  have short : 98 ≠ ether_hdr + ipv4_hdr + udp_hdr + structSize Client.app_hdr := by decide
  exact short pkt_len

end Shardb.Replies
