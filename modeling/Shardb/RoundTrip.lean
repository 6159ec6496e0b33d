import Shardb.Replies
import Shardb.Runs

/-!
# Between the client and the server

The client makes its next request of the reply to the last one, so requests go round.
The reply is 48 bytes long and ends with the sixth character of the message; what the
client sends behind it is what its buffer held (`requests_circulate`).
-/

namespace Shardb.RoundTrip
open Shardb.Bytes Shardb.CStrings Shardb.Runs Shardb.Server
open Shardb.Client (handle_propose receive)
open Shardb.Datastore (Env)
open Shardb.Handlers (Buf)

/-! ### Frames -/

/-- The bytes of IP's and of UDP's checksum. -/
def Checksum (i : Nat) : Prop :=
  (ip_offset + 10 ≤ i ∧ i < ip_offset + 12) ∨ (udp_offset + 6 ≤ i ∧ i < udp_offset + 8)

instance (i : Nat) : Decidable (Checksum i) := inferInstanceAs (Decidable (_ ∨ _))

/-- What a port sends of a packet: it may fill in checksums, and pad. -/
structure Frame (pkt : Mbuf) (frame : List UInt8) : Prop where
  long : pkt.data_len ≤ frame.length
  bytes : ∀ i < pkt.data_len, ¬ Checksum i → frame[i]? = pkt.data[i]?

/-- The bytes of the two addresses and of UDP's length. -/
def Addressed (i : Nat) : Prop := (ip_offset + 12 ≤ i ∧ i < ip_offset + 20) ∨ (udp_offset + 4 ≤ i ∧ i < udp_offset + 6)

instance (i : Nat) : Decidable (Addressed i) := inferInstanceAs (Decidable (_ ∨ _))

/-- What both programs set there. -/
def address (app : App) (data_size i : Nat) : Option UInt8 :=
  if i < ip_offset + 16 then app.client[i - (ip_offset + 12)]?
  else if i < ip_offset + 20 then app.server[i - (ip_offset + 16)]?
  else (be16 (udp_hdr + data_size))[i - (udp_offset + 4)]?

/-- A request of the client. -/
structure FromClient (app : App) (frame : List UInt8) : Prop where
  long : app_offset + structSize Client.app_hdr ≤ frame.length
  addressed : ∀ i, Addressed i → frame[i]? = address app (structSize Client.app_hdr) i

section Packets
variable {app : App} (server : app.server.length = 4) (client : app.client.length = 4)
include server client

/-- The addresses are set and the packet is prepared for sending. -/
private def addressed (app : App) (pkt : Mbuf) (data_size : Nat) : Mbuf :=
  prepare_hw_checksum app { pkt with data := store (store pkt.data (ip_offset + 16) app.server) (ip_offset + 12) app.client }
    data_size

private theorem addressed_byte (pkt : Mbuf) (data_size : Nat) {i : Nat} (room : app_offset ≤ pkt.data.length) (other : ¬ Checksum i) :
    (addressed app pkt data_size).data[i]? = if Addressed i then address app data_size i else pkt.data[i]? := by
  have sizes : ip_offset = 14 ∧ udp_offset = 34 ∧ app_offset = 42 := ⟨rfl, rfl, rfl⟩
  obtain ⟨high, low, is⟩ : ∃ high low : UInt8, (addressed app pkt data_size).data =
      store (store (store (store pkt.data (ip_offset + 16) app.server) (ip_offset + 12) app.client) (udp_offset + 4)
        (be16 (udp_hdr + data_size))) (udp_offset + 6) [high, low] := ⟨_, _, rfl⟩
  have one : (store pkt.data (ip_offset + 16) app.server).length = pkt.data.length := length_store (by omega)
  have two : (store (store pkt.data (ip_offset + 16) app.server) (ip_offset + 12) app.client).length = pkt.data.length := by
    rw [length_store (by omega), one]
  have three : (store (store (store pkt.data (ip_offset + 16) app.server) (ip_offset + 12) app.client) (udp_offset + 4)
      (be16 (udp_hdr + data_size))).length = pkt.data.length := by
    rw [length_store (by rw [length_be16]; omega), two]
  have pair : ([high, low] : List UInt8).length = 2 := rfl
  rw [is, getElem?_store (by omega), getElem?_store (by rw [length_be16]; omega), getElem?_store (by omega),
    getElem?_store (by omega), length_be16, pair, server, client]
  unfold Checksum at other
  by_cases here : Addressed i
  · rw [if_pos here]
    unfold Addressed at here
    unfold address
    split_ifs <;> first | rfl | omega
  · rw [if_neg here]
    unfold Addressed at here
    split_ifs <;> first | rfl | omega

end Packets

/-! ### The client's first request -/

section Prepared
open Shardb.Client
variable (rte_ipv4_phdr_cksum : List UInt8 → List TxFlag → UInt8 × UInt8) (addr : Vector UInt8 6) {created_pkt : Mbuf}
  (src dst : Sockaddr) (msgtype : UInt16) (shards : UInt8) (worker_id : UInt16) (value : List UInt8) {size : Nat}

/-- Stores inside of a packet of the client. -/
private theorem fill_length (data : List UInt8) (fields : List (Nat × List UInt8))
    (inside : ∀ field ∈ fields, field.1 + field.2.length ≤ app_offset + structSize Client.app_hdr)
    (room : app_offset + structSize Client.app_hdr ≤ data.length) : (fill data fields).length = data.length :=
  (fill_before fields data inside room).1

/-- Stores before a byte leave it. -/
private theorem fill_behind (data : List UInt8) (fields : List (Nat × List UInt8)) {i : Nat}
    (before : ∀ field ∈ fields, field.1 + field.2.length ≤ i) (room : i ≤ data.length) : (fill data fields)[i]? = data[i]? := by
  have behind := congrArg (fun l => l[0]?) (fill_before fields data before room).2
  simpa only [List.getElem?_drop, Nat.add_zero] using behind

/-- Whatever the message, the addresses of the sockets and the length of the client's
    header are set. -/
theorem prepared_addressed (room : app_offset + structSize Client.app_hdr ≤ created_pkt.data.length)
    (fits : size ≤ Client.MAXBUFSIZE) {server client : List UInt8} (to_server : dst.s_addr.toList = server)
    (by_client : src.s_addr.toList = client) {i : Nat} (there : Addressed i) :
    (prepare_paxos_message rte_ipv4_phdr_cksum addr created_pkt src dst msgtype shards worker_id value size).data[i]? =
      address ⟨server, client, rte_ipv4_phdr_cksum⟩ (structSize Client.app_hdr) i := by
  have few : (value.take size).length ≤ Client.MAXBUFSIZE := by rw [List.length_take]; omega
  have sizes : app_offset + structSize Client.app_hdr = 112 ∧ Client.MAXBUFSIZE = 64 ∧ ip_offset = 14 ∧ udp_offset = 34 := by decide
  unfold prepare_paxos_message
  extract_lets d1 dgram_len d2 data_size l4_len ip_pkt_size whole_pkt_size d3 d4 d5 ol_flags dgram_cksum
  have one : d1.length = created_pkt.data.length := fill_length _ _ (by
    simp only [List.forall_mem_cons, length_be16, Vector.length_toList]
    exact ⟨by decide, by decide, by decide, by simp⟩) room
  have two : d2.length = d1.length := fill_length _ _ (by
    simp only [List.forall_mem_cons, length_be16, List.length_singleton]
    have offset : app_offset + offsetOf Client.app_hdr 0 = 42 := by decide
    exact ⟨by decide, by decide, by decide, by omega, by simp⟩) (by omega)
  have three : d3.length = d2.length := fill_length _ _ (by
    simp only [List.forall_mem_cons, length_be16, Vector.length_toList, List.length_cons, List.length_nil]
    exact ⟨by decide, by decide, by decide, by decide, by simp⟩) (by omega)
  have four : d4.length = d3.length := fill_length _ _ (by
    simp only [List.forall_mem_cons, length_be16]
    exact ⟨by decide, by simp⟩) (by omega)
  set front : List (Nat × List UInt8) := [(ip_offset, [0x45]), (ip_offset + 2, be16 ip_pkt_size), (ip_offset + 4, be16 0),
    (ip_offset + 6, be16 IPV4_HDR_DF_FLAG), (ip_offset + 8, [64]), (ip_offset + 9, [IPPROTO_UDP]), (ip_offset + 10, [0, 0])]
  have five : (fill d4 front).length = d4.length := fill_length _ _ (by
    simp only [front, List.forall_mem_cons, length_be16, List.length_cons, List.length_nil]
    exact ⟨by decide, by decide, by decide, by decide, by decide, by decide, by decide, by simp⟩) (by omega)
  have source : src.s_addr.toList.length = 4 := by simp
  have destination : dst.s_addr.toList.length = 4 := by simp
  have six : (store (fill d4 front) (ip_offset + 12) src.s_addr.toList).length = d4.length := by
    rw [length_store (by omega), five]
  have seven : (store (store (fill d4 front) (ip_offset + 12) src.s_addr.toList) (ip_offset + 16) dst.s_addr.toList).length =
      d4.length := by rw [length_store (by omega), six]
  have length_set : d4 = store d3 (udp_offset + 4) (be16 (udp_hdr + structSize Client.app_hdr)) := rfl
  have before : ∀ field ∈ front, field.1 + field.2.length ≤ ip_offset + 12 := by
    simp only [front, List.forall_mem_cons, length_be16, List.length_cons, List.length_nil]
    exact ⟨by decide, by decide, by decide, by decide, by decide, by decide, by decide, by simp⟩
  have pair : ([dgram_cksum.1, dgram_cksum.2] : List UInt8).length = 2 := rfl
  show (store (store (store (fill d4 front) (ip_offset + 12) src.s_addr.toList) (ip_offset + 16) dst.s_addr.toList)
    (udp_offset + 6) [dgram_cksum.1, dgram_cksum.2])[i]? = _
  clear_value d4 d3 dgram_cksum front
  unfold Addressed at there
  rw [getElem?_store (by rw [pair]; omega), if_neg (by rw [pair]; omega), getElem?_store (by omega),
    getElem?_store (by omega), source, destination]
  subst to_server by_client
  unfold address
  rcases there with ⟨above, below⟩ | ⟨above, below⟩
  · split_ifs <;> first | rfl | omega
  · rw [if_neg (by omega), if_neg (by omega), if_neg (by omega), if_neg (by omega),
      fill_behind d4 front (fun field member => (before field member).trans (by omega)) (by omega), length_set,
      getElem?_store (by rw [length_be16]; omega), if_pos (by rw [length_be16]; omega)]

/-- So what a port sends of it is a request of the client. -/
theorem prepared_from_client (room : app_offset + structSize Client.app_hdr ≤ created_pkt.data.length)
    (fits : size ≤ Client.MAXBUFSIZE) {frame : List UInt8}
    (sends : Frame (prepare_paxos_message rte_ipv4_phdr_cksum addr created_pkt src dst msgtype shards worker_id value size) frame) :
    FromClient ⟨dst.s_addr.toList, src.s_addr.toList, rte_ipv4_phdr_cksum⟩ frame := by
  have long : app_offset + structSize Client.app_hdr ≤ frame.length := sends.long
  refine ⟨long, fun i there => ?_⟩
  have set := prepared_addressed rte_ipv4_phdr_cksum addr src dst msgtype shards worker_id value room fits rfl rfl there
  have inside : i < app_offset + structSize Client.app_hdr ∧ ¬ Checksum i := by
    have sizes : app_offset + structSize Client.app_hdr = 112 ∧ ip_offset = 14 ∧ udp_offset = 34 := by decide
    unfold Addressed at there
    unfold Checksum
    omega
  rw [sends.bytes i inside.1 inside.2]
  exact set

end Prepared

/-! ### One round -/

/-- What stands between two requests: the buffers that the request and the reply are
    received in, and the reply's frame. -/
structure Trip where
  server_buffer : List UInt8
  client_buffer : List UInt8
  reply : List UInt8

/-- The server carries out a request and replies, and the client makes its next one of
    the reply. -/
structure Round (app : App) (request : List UInt8) (trip : Trip) (next : List UInt8) : Prop where
  fits : request.length ≤ trip.server_buffer.length
  handled : ∃ fuel undef mem worker_id rocks done,
    handle_db_message app fuel undef mem (receive request trip.server_buffer) worker_id rocks = .ok done ∧ done.ret = 0 ∧
      Frame done.pkt trip.reply
  room : trip.reply.length ≤ trip.client_buffer.length ∧ app_offset + structSize Client.app_hdr ≤ trip.client_buffer.length
  proposed : ∃ pkt, handle_propose app (receive trip.reply trip.client_buffer) = (0, pkt) ∧ Frame pkt next

/-- The bytes of a reply's packet. -/
def REPLY_LEN : Nat := 48

section Trips
variable {app : App} (server : app.server.length = 4) (client : app.client.length = 4)
include server client

omit server client in
/-- A packet is received in front of what the buffer held. -/
private theorem receive_byte {packet buffer : List UInt8} (fits : packet.length ≤ buffer.length) (i : Nat) :
    (receive packet buffer).data[i]? = if i < packet.length then packet[i]? else buffer[i]? := by
  show (store buffer 0 packet)[i]? = _
  rw [getElem?_store (by omega)]
  simp

/-- The first bytes of a request come back, and those behind them are what the client
    received the reply in. -/
theorem trip_bytes {request next : List UInt8} {trip : Trip} (from_client : FromClient app request)
    (round : Round app request trip next) :
    FromClient app next ∧ (∀ i < REPLY_LEN, ¬ Checksum i → next[i]? = request[i]?) ∧
      ∀ i, REPLY_LEN ≤ i → i < app_offset + structSize Client.app_hdr →
        next[i]? = (receive trip.reply trip.client_buffer).data[i]? := by
  have sizes : app_offset + structSize Client.app_hdr = 112 := by decide
  obtain ⟨fits, ⟨fuel, undef, mem, worker_id, rocks, done, handled, answered, replied⟩, ⟨small, room⟩, pkt, proposed, sends⟩ := round
  rw [Replies.handle_answered handled answered] at replied
  have reply_len : (reply app (receive request trip.server_buffer)).data_len = REPLY_LEN := rfl
  have next_len : (addressed app (receive trip.reply trip.client_buffer) (structSize Client.app_hdr)).data_len =
      app_offset + structSize Client.app_hdr := by rfl
  have is : pkt = addressed app (receive trip.reply trip.client_buffer) (structSize Client.app_hdr) := by
    unfold handle_propose at proposed
    dsimp only at proposed
    split_ifs at proposed
    · cases proposed
      rfl
    · cases proposed
  subst is
  have long := replied.long
  have longer := sends.long
  have enough := from_client.long
  rw [reply_len] at long
  rw [next_len] at longer
  have short : REPLY_LEN = 48 := rfl
  have start : app_offset = 42 := rfl
  -- what the client sends, before the checksums
  have sent : ∀ i < 112, ¬ Checksum i → next[i]? = if Addressed i then address app (structSize Client.app_hdr) i
      else (receive trip.reply trip.client_buffer).data[i]? := by
    intro i inside other
    rw [sends.bytes i (by rw [next_len]; omega) other,
      addressed_byte server client _ _ (by rw [show (receive _ _).data.length = _ from length_store (by omega)]; omega) other]
  -- what came back from the server
  have back : ∀ i < REPLY_LEN, ¬ Checksum i → ¬ Addressed i → trip.reply[i]? = request[i]? := by
    intro i inside other plain
    rw [replied.bytes i (by rw [reply_len]; exact inside) other]
    have same := addressed_byte server client (receive request trip.server_buffer) (structSize Server.app_hdr)
      (by rw [show (receive _ _).data.length = _ from length_store (by omega)]; omega) other
    rw [if_neg plain, receive_byte fits, if_pos (by omega)] at same
    exact same
  refine ⟨⟨by omega, fun i there => ?_⟩, fun i inside other => ?_, fun i behind inside => ?_⟩
  · have plain : ¬ Checksum i := by
      unfold Addressed Checksum at *
      have ports : ip_offset = 14 ∧ udp_offset = 34 := ⟨rfl, rfl⟩
      omega
    have inside : i < 112 := by
      unfold Addressed at there
      have ports : ip_offset = 14 ∧ udp_offset = 34 := ⟨rfl, rfl⟩
      omega
    rw [sent i inside plain, if_pos there]
  · rw [sent i (by omega) other]
    by_cases there : Addressed i
    · rw [if_pos there, from_client.addressed i there]
    · rw [if_neg there, receive_byte small, if_pos (by omega), back i inside other there]
  · have ports : ip_offset = 14 ∧ udp_offset = 34 := ⟨rfl, rfl⟩
    have plain : ¬ Checksum i ∧ ¬ Addressed i := by
      unfold Addressed Checksum
      omega
    rw [sent i (by omega) plain.1, if_neg plain.2]

/-- However often requests go round, the first 48 bytes of the client's first request
    stand in each of them, checksums apart, and the rest of it is what the client received
    the last reply in. So it asks for the same each time exactly when that holds the rest
    of its first request. -/
theorem requests_circulate {request last : List UInt8} {trail : List (List UInt8 × Trip × List UInt8)}
    (first : FromClient app request) (run : Run (Round app) request trail last) :
    (∀ e ∈ trail, (∀ i < REPLY_LEN, ¬ Checksum i → e.2.2[i]? = request[i]?) ∧
      ∀ i, REPLY_LEN ≤ i → i < app_offset + structSize Client.app_hdr →
        e.2.2[i]? = (receive e.2.1.reply e.2.1.client_buffer).data[i]?) ∧
    ((∀ e ∈ trail, ∀ i < app_offset + structSize Client.app_hdr, ¬ Checksum i → e.2.2[i]? = request[i]?) ↔
      ∀ e ∈ trail, ∀ i, REPLY_LEN ≤ i → i < app_offset + structSize Client.app_hdr →
        (receive e.2.1.reply e.2.1.client_buffer).data[i]? = request[i]?) := by
  have goes : ∀ s t next, (FromClient app s ∧ ∀ i < REPLY_LEN, ¬ Checksum i → s[i]? = request[i]?) → Round app s t next →
      FromClient app next ∧ ∀ i < REPLY_LEN, ¬ Checksum i → next[i]? = request[i]? := by
    rintro s t next ⟨from_client, same⟩ round
    obtain ⟨goes_on, kept, -⟩ := trip_bytes server client from_client round
    exact ⟨goes_on, fun i inside other => (kept i inside other).trans (same i inside other)⟩
  have rounds := run_holds (fun frame => FromClient app frame ∧ ∀ i < REPLY_LEN, ¬ Checksum i → frame[i]? = request[i]?)
    goes ⟨first, fun _ _ _ => rfl⟩ run
  have front : ∀ e ∈ trail, ∀ i < REPLY_LEN, ¬ Checksum i → e.2.2[i]? = request[i]? := fun e member =>
    (goes _ _ _ (rounds e member).1 (rounds e member).2).2
  have rest : ∀ e ∈ trail, ∀ i, REPLY_LEN ≤ i → i < app_offset + structSize Client.app_hdr →
      e.2.2[i]? = (receive e.2.1.reply e.2.1.client_buffer).data[i]? := fun e member =>
    (trip_bytes server client (rounds e member).1.1 (rounds e member).2).2.2
  refine ⟨fun e member => ⟨front e member, rest e member⟩, ?_, ?_⟩
  · intro same e member i behind inside
    have other : ¬ Checksum i := by
      unfold Checksum
      have sizes : REPLY_LEN = 48 ∧ ip_offset = 14 ∧ udp_offset = 34 := ⟨rfl, rfl, rfl⟩
      omega
    rw [← rest e member i behind inside]
    exact same e member i inside other
  · intro held e member i inside other
    by_cases behind : REPLY_LEN ≤ i
    · rw [rest e member i behind inside]
      exact held e member i behind inside
    · exact front e member i (Nat.lt_of_not_le behind) other

end Trips

/-! ### The addresses of `main` -/

/-- A port that fills in and pads nothing. -/
theorem wire_frame {pkt : Mbuf} (inside : pkt.data_len ≤ pkt.data.length) : Frame pkt (Client.wire pkt) := by
  constructor
  · rw [Client.wire, List.length_take]
    omega
  · intro i below _
    rw [Client.wire, List.getElem?_take_of_lt below]

def main_app : App := ⟨[192, 168, 4, 98], [192, 168, 4, 95], fun _ _ => (0, 0)⟩

def main_server : Client.Sockaddr := ⟨#v[0x23, 0x79], #v[192, 168, 4, 98]⟩
def main_client : Client.Sockaddr := ⟨#v[0x6B, 0x45], #v[192, 168, 4, 95]⟩

/-- What the first worker of the client sends. -/
def first_request : Mbuf :=
  Client.prepare_paxos_message (fun _ _ => (0, 0)) (.replicate 6 0) ⟨List.replicate 2048 0, 0, 0, 0, 0, 0, []⟩
    main_client main_server 0 0 0 Client.val Client.val.length

/-- Both buffers hold zeros. -/
def first_trip : Trip :=
  ⟨List.replicate 2048 0, List.replicate 2048 0,
    Client.wire (reply main_app (receive (Client.wire first_request) (List.replicate 2048 0)))⟩

def second_request : Mbuf := (handle_propose main_app (receive first_trip.reply first_trip.client_buffer)).2

theorem first_round : Round main_app (Client.wire first_request) first_trip (Client.wire second_request) := by
  have handled : (handle_db_message main_app 100 0 ⟨fun _ => [], none⟩
      (receive (Client.wire first_request) first_trip.server_buffer) 0
      (Datastore.init_database_env 1 Nat.one_pos (fun _ => []) (fun _ _ => false))).map Done.ret = .ok 0 := by decide +kernel
  obtain ⟨done, handled, answered⟩ := Handlers.ok_of_map handled
  have proposed : (handle_propose main_app (receive first_trip.reply first_trip.client_buffer)).1 = 0 := by decide +kernel
  constructor
  · decide +kernel
  · refine ⟨100, 0, _, 0, _, done, handled, answered, ?_⟩
    rw [Replies.handle_answered handled answered]
    exact wire_frame (by decide +kernel)
  · decide +kernel
  · exact ⟨second_request, Prod.ext proposed rfl, wire_frame (by decide +kernel)⟩

/-- The client's second request has the first command only. -/
theorem second_request_cut : ∃ trail, Run (Round main_app) (Client.wire first_request) trail (Client.wire second_request) ∧
    (receive (Client.wire second_request) (List.replicate 2048 0)).message = ascii "@w 1 a" ∧
    ¬ ∀ e ∈ trail, ∀ i < app_offset + structSize Client.app_hdr, ¬ Checksum i → e.2.2[i]? = (Client.wire first_request)[i]? := by
  have run : Run (Round main_app) (Client.wire first_request) [(Client.wire first_request, first_trip, Client.wire second_request)]
    (Client.wire second_request) := Run.stay.next first_round
  have first : FromClient main_app (Client.wire first_request) :=
    prepared_from_client _ _ main_client main_server 0 0 0 Client.val (by decide +kernel) (Nat.le_refl _)
      (show Frame first_request _ from wire_frame (by decide +kernel))
  refine ⟨_, run, by decide +kernel, fun same => ?_⟩
  have held := (requests_circulate rfl rfl first run).2.mp same _ List.mem_cons_self 48 (by decide) (by decide)
  revert held
  decide +kernel

end Shardb.RoundTrip
