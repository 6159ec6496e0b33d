import Shardb.Handlers

/-!
# `server.c`: `handle_db_message`

The callback a worker runs on every packet: it copies the message out of the
packet, takes it apart with `strtok`, runs the commands inside transactions and
turns the packet into the reply.
-/

namespace Shardb.Server
open Shardb.Bytes Shardb.CStrings Shardb.Loops Shardb.Rocks Shardb.Datastore Shardb.Handlers

/-! ### The packet -/

def MAXBUFSIZE : Nat := 1024

/-- `struct app_hdr` of the server: `message`, `msgtype`, `leader`, `shards`. -/
def app_hdr : List Field := [⟨MAXBUFSIZE, 1⟩, ⟨2, 2⟩, ⟨2, 2⟩, ⟨1, 1⟩]

/-- `sizeof(struct ether_hdr)`, `sizeof(struct ipv4_hdr)` and `sizeof(struct udp_hdr)`. -/
def ether_hdr : Nat := 14
def ipv4_hdr : Nat := 20
def udp_hdr : Nat := 8

def ip_offset : Nat := ether_hdr
def udp_offset : Nat := ip_offset + ipv4_hdr
def app_offset : Nat := udp_offset + udp_hdr

/-- `PKT_TX_IPV4`, `PKT_TX_IP_CKSUM` and `PKT_TX_UDP_CKSUM`. -/
inductive TxFlag
  | ipv4
  | ipCksum
  | udpCksum
  deriving DecidableEq

/-- What the program uses of `struct rte_mbuf`; `data` is the buffer from the
    packet's first byte on, what is left of earlier packets included. -/
structure Mbuf where
  data : List UInt8
  data_len : Nat
  pkt_len : Nat
  l2_len : Nat
  l3_len : Nat
  l4_len : Nat
  ol_flags : List TxFlag
  deriving Inhabited

/-- `ap->message` as a string, and `ap->msgtype`, `ap->leader` and `ap->shards`. -/
def Mbuf.message (pkt : Mbuf) : Text := cstring (pkt.data.drop (app_offset + offsetOf app_hdr 0))
def Mbuf.msgtype (pkt : Mbuf) : Nat := readBe16 pkt.data (app_offset + offsetOf app_hdr 1)
def Mbuf.leader (pkt : Mbuf) : Nat := readBe16 pkt.data (app_offset + offsetOf app_hdr 2)
def Mbuf.shards (pkt : Mbuf) : UInt8 := pkt.data.getD (app_offset + offsetOf app_hdr 3) 0

/-- What the handler uses of `struct app_params` (the `s_addr` of its two
    addresses, four bytes in network order) and of DPDK: the two bytes of the
    checksum of an IP header's pseudo header. -/
structure App where
  server : List UInt8
  client : List UInt8
  rte_ipv4_phdr_cksum : List UInt8 → List TxFlag → UInt8 × UInt8
  deriving Inhabited

/-- `l2_len`, `l3_len` and `l4_len` are bit-fields of 7, 9 and 8 bits, `data_len`
    has 16 bits and `pkt_len` 32. -/
def prepare_hw_checksum (app : App) (pkt_in : Mbuf) (data_size : Nat) : Mbuf :=
  let data := store pkt_in.data (udp_offset + 4) (be16 (udp_hdr + data_size))
  let l2_len := ether_hdr % 2 ^ 7
  let l3_len := ipv4_hdr % 2 ^ 9
  let l4_len := (udp_hdr + data_size) % 2 ^ 8
  let pkt_size := l2_len + l3_len + l4_len
  let ol_flags := [.ipv4, .ipCksum, .udpCksum]
  let (high, low) := app.rte_ipv4_phdr_cksum ((data.drop ip_offset).take ipv4_hdr) ol_flags
  { data := store data (udp_offset + 6) [high, low]
    data_len := pkt_size % 2 ^ 16
    pkt_len := pkt_size % 2 ^ 32
    l2_len := l2_len
    l3_len := l3_len
    l4_len := l4_len
    ol_flags := ol_flags }

/-- The addresses are set in place and the lengths prepared for sending. -/
def reply (app : App) (pkt_in : Mbuf) : Mbuf :=
  let data := store pkt_in.data (ip_offset + 16) app.server
  let data := store data (ip_offset + 12) app.client
  prepare_hw_checksum app { pkt_in with data := data } (structSize app_hdr)

/-! ### The command loop -/

section Loop
variable {σ : Type}

/-- One command: `strncmp(msg, "r", 1)` and so on, the copy of what stands
    behind the letter into `val`, and the handler. Nothing happens when no
    letter fits. -/
def dispatch (h : Callees σ) (msg : Ptr Buf) (ret : Option Int) (mem : Mem Buf) (rocks : σ) : Result (Answer σ) :=
  let letter := (mem.str msg).head?
  let argument := mem.str ⟨msg.buf, msg.off + 1⟩
  if letter = some 114 then h.handle_read rocks (mem.strcpy .val argument) ⟨.val, 0⟩
  else if letter = some 119 then h.handle_write rocks (mem.strcpy .val argument) ⟨.val, 0⟩
  else if letter = some 100 then h.handle_delete rocks (mem.strcpy .val argument) ⟨.val, 0⟩
  else if letter = some 115 then do
    let (ret, rocks) ← h.set_savepoint rocks
    return ⟨some .savepoint, some ret, mem, rocks⟩
  else if letter = some 98 then do
    let (ret, rocks) ← h.rollback rocks
    return ⟨some .rollback, some ret, mem, rocks⟩
  else .ok ⟨none, ret, mem, rocks⟩

/-- The variables of the command loop. `ret` is `none` until it is assigned;
    `log` records every pass: the command carried out and `ret` as it was tested. -/
structure LoopState (σ : Type) where
  msg : Option (Ptr Buf)
  ret : Option Int
  mem : Mem Buf
  rocks : σ
  log : List (Option Command × Option Int)

structure LoopEnd (σ : Type) where
  tx_failed : Bool
  mem : Mem Buf
  rocks : σ
  log : List (Option Command × Option Int)

/-- One pass. `undef` is what an unassigned `ret` happens to hold. -/
def command_pass (h : Callees σ) (undef : Int) (s : LoopState σ) : Result (LoopState σ ⊕ LoopEnd σ) :=
  match s.msg with
  | none => .ok (.inr ⟨false, s.mem, s.rocks, s.log⟩)
  | some msg => do
    let a ← dispatch h msg s.ret s.mem s.rocks
    let (next, mem) ← need (a.mem.strtok none (ascii "@"))
    let log := s.log ++ [(a.call, a.ret)]
    if a.ret.getD undef < 0 then return .inr ⟨true, mem, a.rocks, log⟩
    else return .inl ⟨next, a.ret, mem, a.rocks, log⟩

/-- `while (msg) { ... }`, entered with `ret` and the token `msg`. -/
def command_loop (h : Callees σ) (undef : Int) (fuel : Nat) (msg : Option (Ptr Buf)) (mem : Mem Buf) (ret : Option Int)
    (rocks : σ) : Result (LoopEnd σ) :=
  loop .unfinished (command_pass h undef) fuel ⟨msg, ret, mem, rocks, []⟩

end Loop

/-! ### Abort and commit of one shard -/

/-- `while (savepoint_count[i] > 0)` roll back, which counts down only when the
    rollback succeeds. -/
def unwind (fuel : Nat) (c : Cell) : Result Cell :=
  loop .unfinished
    (fun c => if 0 < c.savepoint_count then .ok (.inl (counted_rollback c).2) else .ok (.inr c)) fuel c

def abort_shard (fuel : Nat) (c : Cell) : Result (Int × Cell) := do
  let c ← unwind fuel c
  return delete_transaction c

/-- `commit_transaction`, whose answer is dropped, and `savepoint_count[i] = 0`. -/
def commit_shard (c : Cell) : Int × Cell :=
  let (ret, c) := commit_transaction c
  (ret, { c with savepoint_count := 0 })

/-! ### The other workers -/

def Env.record (rocks : Env) (e : Event) : Env := { rocks with lib := { rocks.lib with trace := rocks.lib.trace ++ [e] } }
def Env.setWorker (rocks : Env) (i : Nat) (w : Worker) : Env :=
  { rocks with workers := Function.update rocks.workers i w }

def pthread_mutex_lock (i : Nat) (rocks : Env) : Result Env :=
  if (rocks.workers i).transaction_lock then .error .blocked
  else .ok (Env.record (Env.setWorker rocks i { rocks.workers i with transaction_lock := true }) (.lock i))

def pthread_mutex_unlock (i : Nat) (rocks : Env) : Env :=
  Env.record (Env.setWorker rocks i { rocks.workers i with transaction_lock := false }) (.unlock i)

/-- `transaction_done = 1` and `pthread_cond_signal`, for every worker but the leader. -/
def release (leader i : Nat) (rocks : Env) : Env :=
  if i = leader then rocks
  else Env.record (Env.setWorker rocks i { rocks.workers i with transaction_done := 1 }) (.signal i)

/-- The loop over the other workers: the first of them is waited for, and the
    handler returns (`.inr`). Nobody ends a wait while messages are handled one
    after another. -/
def await_others (leader : Nat) (rocks : Env) : Result (Env ⊕ Env) :=
  forLoop (fun i rocks =>
    if i ≠ leader then do
      let rocks ← pthread_mutex_lock i rocks
      if (rocks.workers i).transaction_done = 0 then .error .blocked
      else return .inr (pthread_mutex_unlock i rocks)
    else .ok (.inl rocks)) rocks.num_workers 0 rocks

/-- The loops behind the command loop: every shard with a positive counter is
    handled by `f`, every worker but the leader released. -/
def settle_shards (f : Cell → Result (Int × Cell)) (leader : Nat) (rocks : Env) : Result Env := do
  let settled : Env ⊕ Env ← forLoop (fun i rocks =>
    if 0 < (rocks.shard i).savepoint_count then do
      let (_, rocks) ← onShardM rocks i f
      return .inl (release leader i rocks)
    else .ok (.inl (release leader i rocks))) rocks.num_workers 0 rocks
  return settled.elim id id

/-! ### The handler -/

/-- How a call of the handler ends. -/
structure Done where
  ret : Int
  rocks : Env
  mem : Mem Buf
  pkt : Mbuf
  log : List (Option Command × Option Int)

/-- The commands carried out, with what their handlers returned. -/
def callsOf (log : List (Option Command × Option Int)) : List (Command × Int) :=
  log.filterMap (fun pass => pass.1.bind (fun call => pass.2.map (fun ret => (call, ret))))

/-- Lines 98 to 158: a message for one shard. `run` is the command loop. -/
def single_partition (app : App) (fuel : Nat) (run : Mem Buf → Option Int → Env → Result (LoopEnd Env))
    (worker_id : Nat) (mem : Mem Buf) (pkt_in : Mbuf) (rocks : Env) : Result Done := do
  let (ret, rocks) := rocks.onShard worker_id (begin_transaction worker_id)
  let done : LoopEnd Env ←
    if 0 ≤ ret then
      let (ret, rocks) := rocks.onShard worker_id counted_savepoint
      if 0 ≤ ret then run mem (some ret) rocks
      else
        let (_, rocks) := rocks.onShard worker_id delete_transaction
        .ok ⟨false, mem, rocks, []⟩
    else .ok ⟨false, mem, rocks, []⟩
  if done.tx_failed then
    let (_, rocks) ← onShardM done.rocks worker_id (abort_shard fuel)
    return ⟨-1, rocks, done.mem, pkt_in, done.log⟩
  else
    let (_, rocks) := done.rocks.onShard worker_id commit_shard
    return ⟨0, rocks, done.mem, reply app pkt_in, done.log⟩

/-- Lines 176 to 252: a message for several shards, once the other workers are
    passed. `run` is the command loop. -/
def multi_partition (app : App) (fuel : Nat) (run : Mem Buf → Option Int → Env → Result (LoopEnd Env))
    (leader worker_id : Nat) (mem : Mem Buf) (pkt_in : Mbuf) (rocks : Env) : Result Done := do
  let rocks := Env.setWorker rocks leader { rocks.workers leader with transaction_done := 0 }
  if leader = worker_id then
    let done ← run mem none rocks
    if done.tx_failed then
      let rocks ← settle_shards (abort_shard fuel) leader done.rocks
      return ⟨-1, pthread_mutex_unlock leader rocks, done.mem, pkt_in, done.log⟩
    else
      let rocks ← settle_shards (fun c => .ok (commit_shard c)) leader done.rocks
      return ⟨0, pthread_mutex_unlock leader rocks, done.mem, reply app pkt_in, done.log⟩
  else return ⟨-1, rocks, mem, pkt_in, []⟩

/-- Messages are numbered in the order they are handled. -/
def Env.received (rocks : Env) : Env := { rocks with lib := { rocks.lib with message := rocks.lib.message + 1 } }

/-- `handle_db_message(pkt_in, lp)` on the worker with `lp->worker_id = worker_id`.
    `mem` holds what the local arrays and the cursor of `strtok` held before,
    `undef` what the unassigned `ret` holds, and `fuel` bounds the loops. -/
def handle_db_message (app : App) (fuel : Nat) (undef : Int) (mem : Mem Buf) (pkt_in : Mbuf) (worker_id : Nat)
    (rocks : Env) : Result Done := do
  let rocks := Env.received rocks
  let msgtype := pkt_in.msgtype
  let leader := pkt_in.leader
  let mem := mem.strcpy .message pkt_in.message
  let (msg, mem) ← need (mem.strtok (some ⟨.message, 0⟩) (ascii "@"))
  if msgtype = 0 then
    if leader = worker_id then
      single_partition app fuel (command_loop (singleCallees worker_id) undef fuel msg) worker_id mem pkt_in rocks
    else return ⟨-1, rocks, mem, pkt_in, []⟩
  else if msgtype = 1 then
    match ← await_others leader rocks with
    | .inr rocks => return ⟨-1, rocks, mem, pkt_in, []⟩
    | .inl rocks =>
      multi_partition app fuel (command_loop multiCallees undef fuel msg) leader worker_id mem pkt_in rocks
  else return ⟨-1, rocks, mem, pkt_in, []⟩

end Shardb.Server
