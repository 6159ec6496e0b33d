import Shardb.Server

/-!
# `net_util.c` of the client, and what the server reads of it

The client has a header of its own for the same packets. Its `message` is 64
bytes long where the server's is 1024, so the server looks for the other members
behind the end of the packet, in what its receive buffer held before
(`decoded_iff`).
-/

namespace Shardb.Client
open Shardb.Bytes Shardb.CStrings
open Shardb.Server (App Mbuf TxFlag ether_hdr ipv4_hdr udp_hdr ip_offset udp_offset app_offset)

def MAXBUFSIZE : Nat := 64

/-- `struct app_hdr` of the client: `message`, `msgtype`, `leader`, `shards`, `padding1`. -/
def app_hdr : List Field := [⟨MAXBUFSIZE, 1⟩, ⟨2, 2⟩, ⟨2, 2⟩, ⟨1, 1⟩, ⟨1, 1⟩]

/-- The `sin_port` and `s_addr` of a `struct sockaddr_in`, in network order. -/
structure Sockaddr where
  sin_port : Vector UInt8 2
  s_addr : Vector UInt8 4

def ETHER_TYPE_IPv4 : Nat := 0x0800
def IPV4_HDR_DF_FLAG : Nat := 0x4000
def IPPROTO_UDP : UInt8 := 17
def mac2_addr : Vector UInt8 6 := #v[0x08, 0x22, 0x22, 0x22, 0x22, 0x08]

/-! ### The functions -/

def set_ether_hdr (data : List UInt8) (ethtype : Nat) (src dst : Vector UInt8 6) : List UInt8 :=
  fill data [(12, be16 ethtype), (6, src.toList), (0, dst.toList)]

def set_ipv4_hdr (data : List UInt8) (proto : UInt8) (src dst : Vector UInt8 4) (total_length : Nat) : List UInt8 :=
  fill data
    [(ip_offset, [0x45]), (ip_offset + 2, be16 total_length), (ip_offset + 4, be16 0),
      (ip_offset + 6, be16 IPV4_HDR_DF_FLAG), (ip_offset + 8, [64]), (ip_offset + 9, [proto]), (ip_offset + 10, [0, 0]),
      (ip_offset + 12, src.toList), (ip_offset + 16, dst.toList)]

def set_udp_hdr_sockaddr_in (data : List UInt8) (src dst : Sockaddr) (dgram_len : Nat) : List UInt8 :=
  fill data
    [(udp_offset, src.sin_port.toList), (udp_offset + 2, dst.sin_port.toList), (udp_offset + 4, be16 dgram_len),
      (udp_offset + 6, [0, 0])]

/-- `value` stands for the bytes from the pointer on, of which `size` are copied. -/
def set_app_hdr (data : List UInt8) (msgtype : UInt16) (shards : UInt8) (worker_id : UInt16) (value : List UInt8)
    (size : Nat) : List UInt8 :=
  fill data
    [(app_offset + offsetOf app_hdr 1, be16 msgtype.toNat), (app_offset + offsetOf app_hdr 2, be16 worker_id.toNat),
      (app_offset + offsetOf app_hdr 3, [shards]), (app_offset + offsetOf app_hdr 0, value.take size)]

/-- `addr` is what `rte_eth_macaddr_get(port, &addr)` finds. -/
def prepare_paxos_message (rte_ipv4_phdr_cksum : List UInt8 → List TxFlag → UInt8 × UInt8) (addr : Vector UInt8 6)
    (created_pkt : Mbuf) (src dst : Sockaddr) (msgtype : UInt16) (shards : UInt8) (worker_id : UInt16)
    (value : List UInt8) (size : Nat) : Mbuf :=
  let data := set_ether_hdr created_pkt.data ETHER_TYPE_IPv4 addr mac2_addr
  let dgram_len := udp_hdr + structSize app_hdr
  let data := set_app_hdr data msgtype shards worker_id value size
  let data_size := structSize app_hdr
  let l4_len := udp_hdr + data_size
  let ip_pkt_size := ipv4_hdr + udp_hdr + data_size
  let whole_pkt_size := ether_hdr + ip_pkt_size
  let data := set_udp_hdr_sockaddr_in data src dst dgram_len
  let data := fill data [(udp_offset + 4, be16 l4_len)]
  let data := set_ipv4_hdr data IPPROTO_UDP src.s_addr dst.s_addr ip_pkt_size
  let ol_flags := [.ipv4, .ipCksum, .udpCksum]
  let dgram_cksum := rte_ipv4_phdr_cksum ((data.drop ip_offset).take ipv4_hdr) ol_flags
  { data := fill data [(udp_offset + 6, [dgram_cksum.1, dgram_cksum.2])]
    data_len := whole_pkt_size % 2 ^ 16
    pkt_len := ip_pkt_size % 2 ^ 32
    l2_len := ether_hdr % 2 ^ 7
    l3_len := ipv4_hdr % 2 ^ 9
    l4_len := l4_len % 2 ^ 8
    ol_flags := ol_flags }

/-- The server has the same function. -/
def prepare_hw_checksum (app : App) (pkt_in : Mbuf) (data_size : Nat) : Mbuf :=
  Server.prepare_hw_checksum app pkt_in data_size

/-- The callback of the client's workers, with what it makes of the packet. -/
def handle_propose (app : App) (pkt_in : Mbuf) : Int × Mbuf :=
  let msgtype := readBe16 pkt_in.data (app_offset + offsetOf app_hdr 1)
  if msgtype = 0 then
    let data := store pkt_in.data (ip_offset + 16) app.server
    let data := store data (ip_offset + 12) app.client
    (0, prepare_hw_checksum app { pkt_in with data := data } (structSize app_hdr))
  else (-1, pkt_in)

/-- The packet that is sent. -/
def wire (pkt : Mbuf) : List UInt8 := pkt.data.take pkt.data_len

/-- The server's mbuf once a packet is received in a buffer. -/
def receive (packet buffer : List UInt8) : Mbuf :=
  { data := store buffer 0 packet
    data_len := packet.length
    pkt_len := packet.length
    l2_len := 0
    l3_len := 0
    l4_len := 0
    ol_flags := [] }

/-! ### What the packet holds -/

/-- Stores before the application's header. -/
private theorem fill_headers (data : List UInt8) (fields : List (Nat × List UInt8))
    (before : ∀ field ∈ fields, field.1 + field.2.length ≤ app_offset) (room : app_offset ≤ data.length) :
    (fill data fields).length = data.length ∧ (fill data fields).drop app_offset = data.drop app_offset :=
  fill_before fields data before room

private theorem set_ether_hdr_data (data : List UInt8) (ethtype : Nat) (src dst : Vector UInt8 6)
    (room : app_offset ≤ data.length) : (set_ether_hdr data ethtype src dst).length = data.length ∧
      (set_ether_hdr data ethtype src dst).drop app_offset = data.drop app_offset := by
  apply fill_headers data _ ?_ room
  simp only [List.forall_mem_cons, length_be16, Vector.length_toList]
  exact ⟨by decide, by decide, by decide, by simp⟩

private theorem set_ipv4_hdr_data (data : List UInt8) (proto : UInt8) (src dst : Vector UInt8 4) (total_length : Nat)
    (room : app_offset ≤ data.length) : (set_ipv4_hdr data proto src dst total_length).length = data.length ∧
      (set_ipv4_hdr data proto src dst total_length).drop app_offset = data.drop app_offset := by
  apply fill_headers data _ ?_ room
  simp only [List.forall_mem_cons, length_be16, Vector.length_toList, List.length_cons, List.length_nil]
  exact ⟨by decide, by decide, by decide, by decide, by decide, by decide, by decide, by decide, by decide, by simp⟩

private theorem set_udp_hdr_data (data : List UInt8) (src dst : Sockaddr) (dgram_len : Nat)
    (room : app_offset ≤ data.length) : (set_udp_hdr_sockaddr_in data src dst dgram_len).length = data.length ∧
      (set_udp_hdr_sockaddr_in data src dst dgram_len).drop app_offset = data.drop app_offset := by
  apply fill_headers data _ ?_ room
  simp only [List.forall_mem_cons, length_be16, Vector.length_toList, List.length_cons, List.length_nil]
  exact ⟨by decide, by decide, by decide, by decide, by simp⟩

/-- The header starts with the value. -/
private theorem set_app_hdr_data (data : List UInt8) (msgtype : UInt16) (shards : UInt8) (worker_id : UInt16)
    {value : List UInt8} {size : Nat} (room : app_offset + structSize app_hdr ≤ data.length)
    (fits : size ≤ MAXBUFSIZE) : (set_app_hdr data msgtype shards worker_id value size).length = data.length ∧
      ∃ rest, (set_app_hdr data msgtype shards worker_id value size).drop app_offset = value.take size ++ rest := by
  have few : (value.take size).length ≤ MAXBUFSIZE := by rw [List.length_take]; omega
  have start : app_offset + offsetOf app_hdr 0 = app_offset := by decide
  have whole : MAXBUFSIZE ≤ structSize app_hdr := by decide
  set members := [(app_offset + offsetOf app_hdr 1, be16 msgtype.toNat), (app_offset + offsetOf app_hdr 2,
    be16 worker_id.toNat), (app_offset + offsetOf app_hdr 3, [shards])] with membersIs
  have inside : ∀ member ∈ members, member.1 + member.2.length ≤ app_offset + structSize app_hdr := by
    simp only [membersIs, List.forall_mem_cons, length_be16, List.length_singleton]
    exact ⟨by decide, by decide, by decide, by simp⟩
  obtain ⟨length, -⟩ := fill_before members data inside room
  have last : set_app_hdr data msgtype shards worker_id value size =
      store (fill data members) app_offset (value.take size) := by
    rw [← start]
    rfl
  rw [last]
  exact ⟨(length_store (by omega)).trans length, _, drop_store_self (by omega)⟩

/-- A byte of the message is one of the value, or as it was before. -/
private theorem set_app_hdr_byte (data : List UInt8) (msgtype : UInt16) (shards : UInt8) (worker_id : UInt16)
    {value : List UInt8} {size : Nat} (room : app_offset + structSize app_hdr ≤ data.length) (fits : size ≤ MAXBUFSIZE)
    {i : Nat} (inside : app_offset ≤ i) (before : i < app_offset + MAXBUFSIZE) :
    (set_app_hdr data msgtype shards worker_id value size)[i]? = (value.take size)[i - app_offset]?.or data[i]? := by
  have few : (value.take size).length ≤ MAXBUFSIZE := by rw [List.length_take]; omega
  have start : app_offset + offsetOf app_hdr 0 = app_offset := by decide
  have whole : MAXBUFSIZE + 6 = structSize app_hdr := by decide
  have type : app_offset + offsetOf app_hdr 1 = app_offset + MAXBUFSIZE := by decide
  have leader : app_offset + offsetOf app_hdr 2 = app_offset + MAXBUFSIZE + 2 := by decide
  have shard : app_offset + offsetOf app_hdr 3 = app_offset + MAXBUFSIZE + 4 := by decide
  set d1 := store data (app_offset + offsetOf app_hdr 1) (be16 msgtype.toNat) with d1Is
  set d2 := store d1 (app_offset + offsetOf app_hdr 2) (be16 worker_id.toNat) with d2Is
  set d3 := store d2 (app_offset + offsetOf app_hdr 3) [shards] with d3Is
  have length1 : d1.length = data.length := length_store (by rw [length_be16]; omega)
  have length2 : d2.length = d1.length := length_store (by rw [length_be16]; omega)
  have length3 : d3.length = d2.length := length_store (by rw [List.length_singleton]; omega)
  have members : d3[i]? = data[i]? := by
    rw [d3Is, getElem?_store (by rw [List.length_singleton]; omega), if_neg (by omega), d2Is,
      getElem?_store (by rw [length_be16]; omega), if_neg (by omega), d1Is,
      getElem?_store (by rw [length_be16]; omega), if_neg (by omega)]
  have last : set_app_hdr data msgtype shards worker_id value size = store d3 app_offset (value.take size) := by
    rw [← start]
    rfl
  rw [last, getElem?_store (by omega), members]
  by_cases within : i - app_offset < (value.take size).length
  · rw [if_pos ⟨inside, by omega⟩, List.getElem?_eq_getElem within, Option.some_or]
  · have none := List.getElem?_eq_none (Nat.le_of_not_lt within)
    rw [if_neg (by omega), none, Option.none_or]

section Packet
variable (rte_ipv4_phdr_cksum : List UInt8 → List TxFlag → UInt8 × UInt8) (addr : Vector UInt8 6) {created_pkt : Mbuf}
  (src dst : Sockaddr) (msgtype : UInt16) (shards : UInt8) (worker_id : UInt16) (value : List UInt8) {size : Nat}

/-- The other headers stand before the application's, whenever they are written. -/
private theorem prepared_data (room : app_offset + structSize app_hdr ≤ created_pkt.data.length) (fits : size ≤ MAXBUFSIZE) :
    (prepare_paxos_message rte_ipv4_phdr_cksum addr created_pkt src dst msgtype shards worker_id value size).data.length =
        created_pkt.data.length ∧
      ∃ rest, (prepare_paxos_message rte_ipv4_phdr_cksum addr created_pkt src dst msgtype shards worker_id value
        size).data.drop app_offset = value.take size ++ rest := by
  unfold prepare_paxos_message
  extract_lets d1 dgram_len d2 data_size l4_len ip_pkt_size whole_pkt_size d3 d4 d5 ol_flags dgram_cksum
  have ether : d1.length = created_pkt.data.length := (set_ether_hdr_data _ _ _ _ (by omega)).1
  obtain ⟨app, rest, starts⟩ : d2.length = d1.length ∧ ∃ rest, d2.drop app_offset = value.take size ++ rest :=
    set_app_hdr_data d1 msgtype shards worker_id (by omega) fits
  obtain ⟨udp, udpKeeps⟩ : d3.length = d2.length ∧ d3.drop app_offset = d2.drop app_offset :=
    set_udp_hdr_data d2 src dst dgram_len (by omega)
  obtain ⟨len, lenKeeps⟩ : d4.length = d3.length ∧ d4.drop app_offset = d3.drop app_offset :=
    fill_headers d3 _ (by simp only [List.forall_mem_cons, length_be16]; exact ⟨by decide, by simp⟩) (by omega)
  obtain ⟨ip, ipKeeps⟩ : d5.length = d4.length ∧ d5.drop app_offset = d4.drop app_offset :=
    set_ipv4_hdr_data d4 IPPROTO_UDP src.s_addr dst.s_addr ip_pkt_size (by omega)
  obtain ⟨cksum, cksumKeeps⟩ := fill_headers d5 [(udp_offset + 6, [dgram_cksum.1, dgram_cksum.2])] (by
    simp only [List.forall_mem_cons, List.length_cons, List.length_nil]
    exact ⟨by decide, by simp⟩) (by omega)
  refine ⟨cksum.trans (by omega), rest, ?_⟩
  rw [cksumKeeps, ipKeeps, lenKeeps, udpKeeps, starts]

/-- The bytes of the message in what is prepared. -/
private theorem prepared_byte (room : app_offset + structSize app_hdr ≤ created_pkt.data.length) (fits : size ≤ MAXBUFSIZE)
    {i : Nat} (inside : app_offset ≤ i) (before : i < app_offset + MAXBUFSIZE) :
    (prepare_paxos_message rte_ipv4_phdr_cksum addr created_pkt src dst msgtype shards worker_id value size).data[i]? =
      (value.take size)[i - app_offset]?.or created_pkt.data[i]? := by
  unfold prepare_paxos_message
  extract_lets d1 dgram_len d2 data_size l4_len ip_pkt_size whole_pkt_size d3 d4 d5 ol_flags dgram_cksum
  obtain ⟨ether, etherKeeps⟩ : d1.length = created_pkt.data.length ∧ d1.drop app_offset = created_pkt.data.drop app_offset :=
    set_ether_hdr_data _ _ _ _ (by omega)
  have app : d2.length = d1.length := (set_app_hdr_data d1 msgtype shards worker_id (by omega) fits).1
  have byte : d2[i]? = (value.take size)[i - app_offset]?.or d1[i]? :=
    set_app_hdr_byte d1 msgtype shards worker_id (by omega) fits inside before
  obtain ⟨udp, udpKeeps⟩ : d3.length = d2.length ∧ d3.drop app_offset = d2.drop app_offset :=
    set_udp_hdr_data d2 src dst dgram_len (by omega)
  obtain ⟨len, lenKeeps⟩ : d4.length = d3.length ∧ d4.drop app_offset = d3.drop app_offset :=
    fill_headers d3 _ (by simp only [List.forall_mem_cons, length_be16]; exact ⟨by decide, by simp⟩) (by omega)
  obtain ⟨ip, ipKeeps⟩ : d5.length = d4.length ∧ d5.drop app_offset = d4.drop app_offset :=
    set_ipv4_hdr_data d4 IPPROTO_UDP src.s_addr dst.s_addr ip_pkt_size (by omega)
  obtain ⟨cksum, cksumKeeps⟩ := fill_headers d5 [(udp_offset + 6, [dgram_cksum.1, dgram_cksum.2])] (by
    simp only [List.forall_mem_cons, List.length_cons, List.length_nil]
    exact ⟨by decide, by simp⟩) (by omega)
  have behind : ∀ {a b : List UInt8}, a.drop app_offset = b.drop app_offset → a[i]? = b[i]? := by
    intro a b same
    have at_i := congrArg (fun l => l[i - app_offset]?) same
    simp only [List.getElem?_drop, Nat.add_sub_cancel' inside] at at_i
    exact at_i
  rw [behind cksumKeeps, behind ipKeeps, behind lenKeeps, behind udpKeeps, byte, behind etherKeeps]

/-- What is sent ends with the client's header, which starts with the value. -/
private theorem wire_data (room : app_offset + structSize app_hdr ≤ created_pkt.data.length) (fits : size ≤ MAXBUFSIZE) :
    (wire (prepare_paxos_message rte_ipv4_phdr_cksum addr created_pkt src dst msgtype shards worker_id value
        size)).length = app_offset + structSize app_hdr ∧
      ∃ rest, (wire (prepare_paxos_message rte_ipv4_phdr_cksum addr created_pkt src dst msgtype shards worker_id value
        size)).drop app_offset = value.take size ++ rest := by
  obtain ⟨length, rest, starts⟩ := prepared_data rte_ipv4_phdr_cksum addr src dst msgtype shards worker_id value
    room fits
  set pkt := prepare_paxos_message rte_ipv4_phdr_cksum addr created_pkt src dst msgtype shards worker_id value size
  have sent : pkt.data_len = app_offset + structSize app_hdr := rfl
  have few : (value.take size).length ≤ structSize app_hdr := by
    have whole : MAXBUFSIZE ≤ structSize app_hdr := by decide
    rw [List.length_take]
    omega
  rw [wire, sent]
  constructor
  · rw [List.length_take]
    omega
  · refine ⟨rest.take (structSize app_hdr - (value.take size).length), ?_⟩
    rw [List.drop_take, Nat.add_sub_cancel_left, starts, List.take_append, List.take_of_length_le few]

end Packet

/-! ### What the server reads -/

/-- The string ends inside `bytes`. -/
private theorem cstring_append {bytes : List UInt8} (terminated : (0 : UInt8) ∈ bytes) (more : List UInt8) :
    cstring (bytes ++ more) = cstring bytes := by
  have ends : (bytes.takeWhile (· != 0)).length ≠ bytes.length := by
    intro same
    have all : bytes.takeWhile (· != 0) = bytes := (List.takeWhile_prefix _).eq_of_length same
    rw [← all] at terminated
    simpa using List.mem_takeWhile_imp terminated
  rw [cstring, List.takeWhile_append, if_neg ends]
  rfl

private theorem take_five {buffer : List UInt8} {off : Nat} (inside : off + 5 ≤ buffer.length) :
    (buffer.drop off).take 5 =
      (buffer.drop off).take 2 ++ (buffer.drop (off + 2)).take 2 ++ [buffer.getD (off + 4) 0] := by
  have last : (buffer.drop (off + 4)).take 1 = [buffer.getD (off + 4) 0] := by
    rw [List.drop_eq_getElem_cons (by omega), List.getD_eq_getElem _ _ (by omega)]
    rfl
  have four := List.take_add (l := buffer.drop off) (i := 4) (j := 1)
  have two := List.take_add (l := buffer.drop off) (i := 2) (j := 2)
  rw [List.drop_drop] at four two
  rw [four, two, last]

section Receive
variable {packet buffer : List UInt8}

/-- Behind the packet the buffer is as it was. -/
private theorem received_behind (inside : packet.length ≤ buffer.length) {i : Nat} (behind : packet.length ≤ i) :
    (receive packet buffer).data.getD i 0 = buffer.getD i 0 := by
  rw [receive, List.getD_eq_getElem?_getD, getElem?_store (by omega), if_neg (by omega), List.getD_eq_getElem?_getD]

private theorem received_readBe16 (inside : packet.length ≤ buffer.length) {off : Nat} (behind : packet.length ≤ off) :
    readBe16 (receive packet buffer).data off = readBe16 buffer off := by
  rw [readBe16, received_behind inside behind, received_behind inside (by omega), readBe16]

private theorem received_message {value rest : List UInt8} {size : Nat} (terminated : (0 : UInt8) ∈ value.take size)
    (starts : packet.drop app_offset = value.take size ++ rest) :
    (receive packet buffer).message = cstring value := by
  have offset : app_offset + offsetOf Server.app_hdr 0 = app_offset := by decide
  have reaches : app_offset ≤ packet.length := by
    by_contra short
    rw [List.drop_eq_nil_of_le (by omega)] at starts
    rw [(List.append_eq_nil_iff.mp starts.symm).1] at terminated
    cases terminated
  have whole : (receive packet buffer).data = packet ++ buffer.drop packet.length := by
    simp only [receive, store, List.take_zero, List.nil_append, Nat.zero_add]
  rw [Mbuf.message, offset, whole, List.drop_append_of_le_length reaches, starts, List.append_assoc,
    cstring_append terminated, ← cstring_append terminated (value.drop size), List.take_append_drop]

end Receive

/-- A byte of the client's message as it stands in the server's buffer. -/
theorem received_byte (rte_ipv4_phdr_cksum : List UInt8 → List TxFlag → UInt8 × UInt8) (addr : Vector UInt8 6)
    (created_pkt : Mbuf) (src dst : Sockaddr) (msgtype : UInt16) (shards : UInt8) (worker_id : UInt16)
    (value buffer : List UInt8) (size : Nat) (room : app_offset + structSize app_hdr ≤ created_pkt.data.length)
    (fits : size ≤ MAXBUFSIZE) (buffered : app_offset + structSize Server.app_hdr ≤ buffer.length) {i : Nat}
    (inside : app_offset ≤ i) (before : i < app_offset + MAXBUFSIZE) :
    (receive (wire (prepare_paxos_message rte_ipv4_phdr_cksum addr created_pkt src dst msgtype shards worker_id value
        size)) buffer).data[i]? = (value.take size)[i - app_offset]?.or created_pkt.data[i]? := by
  have byte := prepared_byte rte_ipv4_phdr_cksum addr src dst msgtype shards worker_id value room fits inside before
  obtain ⟨length, -⟩ := wire_data rte_ipv4_phdr_cksum addr src dst msgtype shards worker_id value room fits
  set pkt := prepare_paxos_message rte_ipv4_phdr_cksum addr created_pkt src dst msgtype shards worker_id value size
  have sent : pkt.data_len = app_offset + structSize app_hdr := rfl
  have whole : MAXBUFSIZE + 6 = structSize app_hdr := by decide
  have smaller : structSize app_hdr ≤ structSize Server.app_hdr := by decide
  show (store buffer 0 (wire pkt))[i]? = _
  rw [getElem?_store (by omega), if_pos (by omega), Nat.sub_zero, wire, List.getElem?_take_of_lt (by omega), byte]

/-- What the server reads of the other members is what the buffer held. -/
theorem received_members (rte_ipv4_phdr_cksum : List UInt8 → List TxFlag → UInt8 × UInt8) (addr : Vector UInt8 6)
    (created_pkt : Mbuf) (src dst : Sockaddr) (msgtype : UInt16) (shards : UInt8) (worker_id : UInt16)
    (value buffer : List UInt8) (size : Nat) (room : app_offset + structSize app_hdr ≤ created_pkt.data.length)
    (fits : size ≤ MAXBUFSIZE) (buffered : app_offset + structSize Server.app_hdr ≤ buffer.length) :
    let pkt := receive (wire (prepare_paxos_message rte_ipv4_phdr_cksum addr created_pkt src dst msgtype shards worker_id
        value size)) buffer
    pkt.msgtype = readBe16 buffer (app_offset + offsetOf Server.app_hdr 1) ∧
      pkt.leader = readBe16 buffer (app_offset + offsetOf Server.app_hdr 2) := by
  intro pkt
  obtain ⟨length, -⟩ := wire_data rte_ipv4_phdr_cksum addr src dst msgtype shards worker_id value room fits
  have smaller : structSize app_hdr ≤ structSize Server.app_hdr := by decide
  have type : app_offset + structSize app_hdr ≤ app_offset + offsetOf Server.app_hdr 1 := by decide
  have leader : app_offset + structSize app_hdr ≤ app_offset + offsetOf Server.app_hdr 2 := by decide
  exact ⟨received_readBe16 (by omega) (by omega), received_readBe16 (by omega) (by omega)⟩

/-- The server reads off what was sent. -/
def Decodes (pkt : Mbuf) (msgtype : UInt16) (shards : UInt8) (worker_id : UInt16) (value : List UInt8) : Prop :=
  pkt.msgtype = msgtype.toNat ∧ pkt.leader = worker_id.toNat ∧ pkt.shards = shards ∧ pkt.message = cstring value

/-- The client's packet ends before the server looks for `msgtype`, `leader` and
    `shards`: what it finds is what the buffer held before. The string is read off
    as it was sent. -/
theorem decoded_iff (rte_ipv4_phdr_cksum : List UInt8 → List TxFlag → UInt8 × UInt8) (addr : Vector UInt8 6)
    (created_pkt : Mbuf) (src dst : Sockaddr) (msgtype : UInt16) (shards : UInt8) (worker_id : UInt16)
    (value buffer : List UInt8) (size : Nat) (room : app_offset + structSize app_hdr ≤ created_pkt.data.length)
    (terminated : (0 : UInt8) ∈ value.take size) (fits : size ≤ MAXBUFSIZE)
    (buffered : app_offset + structSize Server.app_hdr ≤ buffer.length) :
    Decodes (receive (wire (prepare_paxos_message rte_ipv4_phdr_cksum addr created_pkt src dst msgtype shards worker_id
        value size)) buffer) msgtype shards worker_id value ↔
      (buffer.drop (app_offset + offsetOf Server.app_hdr 1)).take 5 =
        be16 msgtype.toNat ++ be16 worker_id.toNat ++ [shards] := by
  obtain ⟨length, rest, starts⟩ := wire_data rte_ipv4_phdr_cksum addr src dst msgtype shards worker_id value
    room fits
  set packet := wire (prepare_paxos_message rte_ipv4_phdr_cksum addr created_pkt src dst msgtype shards worker_id value
    size)
  set off := app_offset + offsetOf Server.app_hdr 1 with offIs
  have leaderOff : app_offset + offsetOf Server.app_hdr 2 = off + 2 := by rw [offIs]; decide
  have shardsOff : app_offset + offsetOf Server.app_hdr 3 = off + 4 := by rw [offIs]; decide
  have behind : app_offset + structSize app_hdr ≤ off := by rw [offIs]; decide
  have enough : off + 6 = app_offset + structSize Server.app_hdr := by rw [offIs]; decide
  have inside : packet.length ≤ buffer.length := by omega
  rw [Decodes, Mbuf.msgtype, Mbuf.leader, Mbuf.shards, leaderOff, shardsOff, received_readBe16 inside (by omega),
    received_readBe16 inside (by omega), received_behind inside (by omega), received_message terminated starts,
    readBe16_eq_iff msgtype.toNat_lt (by omega), readBe16_eq_iff worker_id.toNat_lt (by omega),
    take_five (by omega)]
  constructor
  · rintro ⟨first, second, third, -⟩
    rw [first, second, third]
  · intro same
    obtain ⟨front, third⟩ := List.append_inj' same rfl
    obtain ⟨first, second⟩ := List.append_inj' front (by rw [List.length_take, List.length_drop, length_be16]; omega)
    exact ⟨first, second, by simpa using third, rfl⟩

/-- `val` of `client.c`, which its workers send for `msgtype` 0 and no shards. -/
def val : List UInt8 :=
  let text := ascii "@w 1 a @w 2 b @r 1 @ w 3 c"
  text ++ List.replicate (MAXBUFSIZE - text.length) 0

/-- What worker `worker_id` of the client sends from a buffer of zeros. -/
def sent (worker_id : UInt16) : Mbuf :=
  prepare_paxos_message (fun _ _ => (0, 0)) (.replicate 6 0) ⟨List.replicate 2048 0, 0, 0, 0, 0, 0, []⟩
    ⟨.replicate 2 0, .replicate 4 0⟩ ⟨.replicate 2 0, .replicate 4 0⟩ 0 0 worker_id val val.length

theorem first_worker_decoded : Decodes (receive (wire (sent 0)) (List.replicate 2048 0)) 0 0 0 val :=
  (decoded_iff _ _ _ _ _ 0 0 0 val (List.replicate 2048 0) val.length (by decide +kernel) (by decide +kernel)
    (by decide +kernel) (by decide +kernel)).mpr (by decide +kernel)

/-- The server takes the second worker's message for the first worker's. -/
theorem second_worker_misread : (0 : UInt8) ∈ val.take val.length ∧ val.length ≤ MAXBUFSIZE ∧
    ¬ Decodes (receive (wire (sent 1)) (List.replicate 2048 0)) 0 0 1 val := by
  refine ⟨by decide +kernel, by decide +kernel, ?_⟩
  rintro ⟨-, leader, -⟩
  exact absurd leader (by decide +kernel)

end Shardb.Client
