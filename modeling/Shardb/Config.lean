import Shardb.Handlers
import Shardb.Wiring

/-!
# `config.c`: the command line

Seven options with arguments, parsed with `strchr`, `strtoul` and a tokenizer of
the environment abstraction layer. An option may be given several times; every
time its argument is worked into the same `struct app_params`. At the end the
mandatory options are asked for, defaults set and two cross checks made.
-/

namespace Shardb.Config
open Shardb.Bytes (Text ascii)
open Shardb.Loops Shardb.Wiring
open Shardb.Handlers (isspace)
open Shardb.Lcores (Fault APP_MAX_LCORES APP_MAX_NIC_PORTS APP_MAX_NIC_TX_PORTS_PER_IO_LCORE APP_MAX_WORKER_LCORES
  APP_MBUF_ARRAY_SIZE)

def APP_MAX_RX_QUEUES_PER_NIC_PORT : Nat := 128
def APP_MAX_NIC_RX_QUEUES_PER_IO_LCORE : Nat := 16
def APP_MAX_LPM_RULES : Nat := 1024
def APP_ARG_RX_MAX_CHARS : Nat := 4096
def APP_ARG_TX_MAX_CHARS : Nat := 4096
def APP_ARG_W_MAX_CHARS : Nat := 4096
def APP_ARG_LPM_MAX_CHARS : Nat := 4096
def APP_ARG_RX_MAX_TUPLES : Nat := 128
def APP_ARG_TX_MAX_TUPLES : Nat := 128
def APP_ARG_W_MAX_TUPLES : Nat := APP_MAX_WORKER_LCORES
def APP_ARG_RSZ_CHARS : Nat := 63
def APP_ARG_BSZ_CHARS : Nat := 63
def APP_ARG_NUMERICAL_SIZE_CHARS : Nat := 15
def APP_DEFAULT_NIC_RX_RING_SIZE : Nat := 1024
def APP_DEFAULT_NIC_TX_RING_SIZE : Nat := 1024
def APP_DEFAULT_RING_RX_SIZE : Nat := 1024
def APP_DEFAULT_RING_TX_SIZE : Nat := 1024
def APP_DEFAULT_BURST_SIZE : Nat := 144
def APP_DEFAULT_IO_RX_LB_POS : Nat := 29

/-! ### The C library -/

/-- `strchr`: the text from the first such character on. -/
def strchr (s : Text) (c : UInt8) : Option Text :=
  match s.dropWhile (· != c) with
  | [] => none
  | rest => some rest

/-- What a character counts as a digit, 36 when it is none. -/
def digit (c : UInt8) : Nat :=
  if 48 ≤ c ∧ c ≤ 57 then c.toNat - 48
  else if 97 ≤ c ∧ c ≤ 122 then c.toNat - 87
  else if 65 ≤ c ∧ c ≤ 90 then c.toNat - 55
  else 36

/-- The answer of `strtoul`, what `*endptr` points to and whether `errno` is set. -/
structure Number where
  value : Nat
  endptr : Text
  errno : Bool

/-- `strtoul`, which gives 64 bits: blanks, a sign, for base 0 also the prefix that
    tells the base, and digits. Without digits it is 0 and nothing is consumed. -/
def strtoul (text : Text) (base : Nat) : Number :=
  let blank := text.dropWhile isspace
  let negative := blank.head? = some 45
  let number := if negative ∨ blank.head? = some 43 then blank.drop 1 else blank
  let hex := base = 0 ∧ number.head? = some 48 ∧ (number[1]? = some 120 ∨ number[1]? = some 88) ∧
    (number[2]?.map digit).getD 36 < 16
  let radix := if hex then 16 else if base = 0 then (if number.head? = some 48 then 8 else 10) else base
  let number := if hex then number.drop 2 else number
  let digits := number.takeWhile (digit · < radix)
  let magnitude := digits.foldl (fun n c => n * radix + digit c) 0
  if digits = [] then ⟨0, text, false⟩
  else if 2 ^ 64 ≤ magnitude then ⟨2 ^ 64 - 1, number.drop digits.length, true⟩
  else ⟨if negative then (2 ^ 64 - magnitude) % 2 ^ 64 else magnitude, number.drop digits.length, false⟩

/-! ### What is parsed -/

/-- `struct app_lpm_rule`. -/
structure LpmRule where
  ip : Nat
  depth : Nat
  if_out : Nat
  deriving DecidableEq

/-- What the options set in `struct app_params`; `Role` is what they make of an lcore. -/
structure App extends Params where
  lcore_params : Nat → Role
  nic_rx_queue_mask : Nat → Nat → Bool
  lpm_rules : List LpmRule
  nic_rx_ring_size : Nat
  nic_tx_ring_size : Nat

/-- `rte_lcore_is_enabled`, and `rte_strsplit` with the number of tokens it stops at
    and the delimiter. -/
structure Eal where
  rte_lcore_is_enabled : Nat → Bool
  rte_strsplit : Text → Nat → UInt8 → List Text

/-- What `rte_strsplit` does, which leaves the last token it has room for uncut. -/
def strsplit (delim : UInt8) : (maxtokens : Nat) → Text → List Text
  | 0, _ => []
  | maxtokens + 1, string =>
    if string = [] then []
    else if maxtokens = 0 ∧ string.head? ≠ some delim then [string]
    else string.takeWhile (· != delim) :: strsplit delim maxtokens ((string.dropWhile (· != delim)).drop 1)

/-- The first `lcores` lcores are enabled. -/
def Eal.first (lcores : Nat) : Eal :=
  ⟨fun lcore => decide (lcore < lcores), fun string maxtokens delim => strsplit delim maxtokens string⟩

/-- Why a command line is not accepted: the code returned, an access outside of an
    array, a loop whose passes are used up. -/
inductive Refusal
  | code (ret : Int)
  | fault (f : Fault)
  | unfinished
  deriving DecidableEq

abbrev Parsed := Except Refusal

/-- `if (bad) return ret;` -/
def refuse (bad : Prop) [Decidable bad] (ret : Int) : Parsed Unit := if bad then .error (.code ret) else .ok ()

/-- A result that is asked for, and the code when there is none. -/
def expect {α : Type} (ret : Int) : Option α → Parsed α
  | some a => .ok a
  | none => .error (.code ret)

section Functions
variable (eal : Eal)

/-- `none` is the answer -1. -/
def str_to_unsigned_array (s : Text) (sbuflen : Nat) (separator : UInt8) (num_vals : Nat) : Option (List Nat) :=
  (eal.rte_strsplit (s.take sbuflen) num_vals separator).mapM fun split =>
    let x := strtoul split 0
    if x.errno ∨ x.endptr ≠ [] then none else some (x.value % 2 ^ 32)

/-- The answer -1, in an unsigned variable, bounds the loop over the arguments: it
    runs behind them. -/
def str_to_unsigned_vals (s : Text) (sbuflen : Nat) (separator : UInt8) (num_vals : Nat) : Parsed (List Nat) :=
  match str_to_unsigned_array eal s sbuflen separator num_vals with
  | some vals => .ok vals
  | none => .error (.fault .overflow)

/-! ### `--rx` and `--tx` -/

def isIo : Role → Bool
  | .io _ _ => true
  | _ => false

def isWorker : Role → Bool
  | .worker => true
  | _ => false

/-- `lp->io`, which is zero in an lcore without a type; `none` for a worker. -/
def ioOf : Role → Option (List (Nat × Nat) × List Nat)
  | .disabled => some ([], [])
  | .io nic_queues nic_ports => some (nic_queues, nic_ports)
  | .worker => none

def App.setLcore (app : App) (lcore : Nat) (role : Role) : App :=
  { app with lcore_params := Function.update app.lcore_params lcore role }

/-- `nic_rx_queue_mask[port][queue] = 1` and `nic_tx_port_mask[port] = 1`. -/
def App.enableRx (app : App) (port queue : Nat) : App :=
  let queues := Function.update (app.nic_rx_queue_mask port) queue true
  { app with nic_rx_queue_mask := Function.update app.nic_rx_queue_mask port queues }

def App.enableTx (app : App) (port : Nat) : App :=
  { app with nic_tx_port_mask := Function.update app.nic_tx_port_mask port true }

/-- A tuple of `--rx`. -/
def rx_tuple (port queue lcore : Nat) (app : App) : Parsed App := do
  refuse (APP_MAX_NIC_PORTS ≤ port ∨ APP_MAX_RX_QUEUES_PER_NIC_PORT ≤ queue) (-3)
  refuse (app.nic_rx_queue_mask port queue = true) (-4)
  let app := app.enableRx port queue
  refuse (eal.rte_lcore_is_enabled lcore = false) (-5)
  refuse (APP_MAX_LCORES ≤ lcore) (-6)
  let (nic_queues, nic_ports) ← expect (-7) (ioOf (app.lcore_params lcore))
  refuse ((port, queue) ∈ nic_queues.take APP_MAX_NIC_RX_QUEUES_PER_IO_LCORE) (-8)
  refuse (APP_MAX_NIC_RX_QUEUES_PER_IO_LCORE ≤ nic_queues.length) (-9)
  return app.setLcore lcore (.io (nic_queues ++ [(port, queue)]) nic_ports)

/-- A tuple of `--tx`. -/
def tx_tuple (port lcore : Nat) (app : App) : Parsed App := do
  refuse (APP_MAX_NIC_PORTS ≤ port) (-3)
  refuse (app.nic_tx_port_mask port = true) (-4)
  let app := app.enableTx port
  refuse (eal.rte_lcore_is_enabled lcore = false) (-5)
  refuse (APP_MAX_LCORES ≤ lcore) (-6)
  let (nic_queues, nic_ports) ← expect (-7) (ioOf (app.lcore_params lcore))
  refuse (port ∈ nic_ports.take APP_MAX_NIC_TX_PORTS_PER_IO_LCORE) (-8)
  refuse (APP_MAX_NIC_TX_PORTS_PER_IO_LCORE ≤ nic_ports.length) (-9)
  return app.setLcore lcore (.io nic_queues (nic_ports ++ [port]))

/-- The variables of the loops over an argument: the text from `p0` or `p` on. -/
structure Scan where
  p : Text
  n_tuples : Nat
  app : App

/-- One pass over `(..)`: `num` numbers, for which `body` stands. -/
def tuple_pass (num max_tuples : Nat) (body : List Nat → App → Parsed App) (s : Scan) : Parsed (Scan ⊕ Scan) :=
  match strchr s.p 40 with
  | none => .ok (.inr s)
  | some p => do
    let p0 ← expect (-2) (strchr p 41)
    let p := p.drop 1
    let vals ← str_to_unsigned_vals eal p (p.length - p0.length) 44 num
    refuse (vals.length ≠ num) (-2)
    let app ← body vals s.app
    refuse (max_tuples < s.n_tuples + 1) (-10)
    return .inl ⟨p0, s.n_tuples + 1, app⟩

/-- `parse_arg_rx` and `parse_arg_tx` without their tuples. -/
def parse_tuples (num max_chars max_tuples : Nat) (body : List Nat → App → Parsed App) (arg : Text) (app : App) :
    Parsed App := do
  refuse (max_chars < arg.length) (-1)
  let s ← loop .unfinished (tuple_pass eal num max_tuples body) (arg.length + 1) ⟨arg, 0, app⟩
  refuse (s.n_tuples = 0) (-11)
  return s.app

def parse_arg_rx (arg : Text) (app : App) : Parsed App :=
  parse_tuples eal 3 APP_ARG_RX_MAX_CHARS APP_ARG_RX_MAX_TUPLES
    (fun vals => rx_tuple eal (vals.getD 0 0) (vals.getD 1 0) (vals.getD 2 0)) arg app

def parse_arg_tx (arg : Text) (app : App) : Parsed App :=
  parse_tuples eal 2 APP_ARG_TX_MAX_CHARS APP_ARG_TX_MAX_TUPLES
    (fun vals => tx_tuple eal (vals.getD 0 0) (vals.getD 1 0)) arg app

/-! ### `--w` -/

/-- One entry of the list. -/
def w_pass (s : Scan) : Parsed (Scan ⊕ Scan) :=
  if s.p = [] then .ok (.inr s)
  else do
    let x := strtoul s.p 0
    refuse (x.errno = true) (-2)
    let lcore := x.value % 2 ^ 32
    refuse (eal.rte_lcore_is_enabled lcore = false) (-3)
    refuse (APP_MAX_LCORES ≤ lcore) (-4)
    refuse (isIo (s.app.lcore_params lcore) = true) (-5)
    let app := s.app.setLcore lcore .worker
    refuse (APP_ARG_W_MAX_TUPLES < s.n_tuples + 1) (-6)
    match strchr s.p 44 with
    | none => return .inr ⟨s.p, s.n_tuples + 1, app⟩
    | some p => return .inl ⟨p.drop 1, s.n_tuples + 1, app⟩

def parse_arg_w (arg : Text) (app : App) : Parsed App := do
  refuse (APP_ARG_W_MAX_CHARS < arg.length) (-1)
  let s ← loop .unfinished (w_pass eal) (arg.length + 1) ⟨arg, 0, app⟩
  refuse (s.n_tuples = 0) (-7)
  refuse (s.n_tuples &&& (s.n_tuples - 1) ≠ 0) (-8)
  return s.app

/-! ### `--lpm` -/

/-- The variables of the loop over the rules. -/
structure LpmScan where
  p : Text
  app : App

/-- One rule. -/
def lpm_pass (s : LpmScan) : Parsed (LpmScan ⊕ App) :=
  if s.p = [] then .ok (.inr s.app)
  else do
    let p0 ← expect (-2) (strchr s.p 47)
    let vals ← str_to_unsigned_vals eal s.p (s.p.length - p0.length) 46 4
    refuse (vals.length ≠ 4) (-2)
    let x := strtoul (p0.drop 1) 0
    refuse (x.errno = true ∨ x.endptr.head? ≠ some 61) (-3)
    let depth := x.value % 2 ^ 32
    let p ← expect (-4) (strchr (p0.drop 1) 62)
    let y := strtoul (p.drop 1) 0
    let if_out := y.value % 2 ^ 32
    refuse (y.errno = true ∨ (y.endptr ≠ [] ∧ y.endptr.head? ≠ some 59)) (-5)
    refuse ((∃ ip ∈ vals, 256 ≤ ip) ∨ depth = 0 ∨ 32 ≤ depth ∨ APP_MAX_NIC_PORTS ≤ if_out) (-6)
    let ip := vals.foldl (fun ip x => ip * 2 ^ 8 + x) 0
    refuse (APP_MAX_LPM_RULES ≤ s.app.lpm_rules.length) (-7)
    let app := { s.app with lpm_rules := s.app.lpm_rules ++ [⟨ip, depth % 2 ^ 8, if_out % 2 ^ 8⟩] }
    let p ← expect (-8) (strchr (p.drop 1) 59)
    return .inl ⟨p.drop 1, app⟩

def parse_arg_lpm (arg : Text) (app : App) : Parsed App := do
  refuse (APP_ARG_LPM_MAX_CHARS < arg.length) (-1)
  let app ← loop .unfinished (lpm_pass eal) (arg.length + 1) ⟨arg, app⟩
  refuse (app.lpm_rules = []) (-9)
  return app

/-! ### `--rsz`, `--bsz` and `--pos-lb` -/

def parse_arg_rsz (arg : Text) (app : App) : Parsed App := do
  refuse (APP_ARG_RSZ_CHARS < arg.length) (-1)
  let vals ← str_to_unsigned_vals eal arg APP_ARG_RSZ_CHARS 44 4
  refuse (vals.length ≠ 4) (-2)
  refuse (0 ∈ vals) (-3)
  return { app with
    nic_rx_ring_size := vals.getD 0 0
    ring_rx_size := vals.getD 1 0
    ring_tx_size := vals.getD 2 0
    nic_tx_ring_size := vals.getD 3 0 }

/-- The two sizes in front of the `)` at `p0`, from `p` on. -/
def burst_pair (p p0 : Text) (ret : Int) : Parsed (Nat × Nat) := do
  -- `p0 - p` is the length of an array
  if p.length < p0.length then .error (.fault .overflow)
  else do
    let vals ← str_to_unsigned_vals eal p (p.length - p0.length) 44 2
    refuse (vals.length ≠ 2) ret
    return (vals.getD 0 0, vals.getD 1 0)

/-- The first `p` is behind the first character, whichever that is. -/
def parse_arg_bsz (arg : Text) (app : App) : Parsed App := do
  refuse (APP_ARG_BSZ_CHARS < arg.length) (-1)
  let p0 ← expect (-2) (strchr arg 41)
  let (io_rx_read, io_rx_write) ← burst_pair eal (arg.drop 1) p0 (-2)
  let p ← expect (-3) (strchr p0 40)
  let p0 ← expect (-4) (strchr p 41)
  let (worker_read, worker_write) ← burst_pair eal (p.drop 1) p0 (-4)
  let p ← expect (-5) (strchr p0 40)
  let p0 ← expect (-6) (strchr p 41)
  let (io_tx_read, io_tx_write) ← burst_pair eal (p.drop 1) p0 (-6)
  refuse (io_rx_read = 0 ∨ io_rx_write = 0 ∨ worker_read = 0 ∨ worker_write = 0 ∨ io_tx_read = 0 ∨ io_tx_write = 0) (-7)
  refuse (APP_MBUF_ARRAY_SIZE < io_rx_read ∨ APP_MBUF_ARRAY_SIZE < io_rx_write ∨ APP_MBUF_ARRAY_SIZE < worker_read ∨
    APP_MBUF_ARRAY_SIZE < worker_write ∨ APP_MBUF_ARRAY_SIZE < 2 * io_tx_read % 2 ^ 32 ∨
    APP_MBUF_ARRAY_SIZE < io_tx_write) (-8)
  return { app with
    burst_size_io_rx_read := io_rx_read
    burst_size_io_rx_write := io_rx_write
    burst_size_worker_read := worker_read
    burst_size_worker_write := worker_write
    burst_size_io_tx_read := io_tx_read
    burst_size_io_tx_write := io_tx_write }

def parse_arg_pos_lb (arg : Text) (app : App) : Parsed App := do
  refuse (APP_ARG_NUMERICAL_SIZE_CHARS < arg.length) (-1)
  let x := strtoul arg 10
  refuse (x.errno = true ∨ x.endptr = arg ∨ x.endptr ≠ []) (-2)
  refuse (64 ≤ x.value % 2 ^ 32) (-3)
  return { app with pos_lb := x.value % 2 ^ 32 }

/-! ### The command line -/

/-- `lgopts`. -/
inductive Opt
  | rx
  | tx
  | w
  | lpm
  | rsz
  | bsz
  | pos_lb
  deriving DecidableEq

def parse_arg : Opt → Text → App → Parsed App
  | .rx => parse_arg_rx eal
  | .tx => parse_arg_tx eal
  | .w => parse_arg_w eal
  | .lpm => parse_arg_lpm eal
  | .rsz => parse_arg_rsz eal
  | .bsz => parse_arg_bsz eal
  | .pos_lb => parse_arg_pos_lb

/-- An option that `getopt_long` returns, with `optarg`; `none` is whatever else it
    returns, such as `'?'`. Every code of a parser becomes -1. -/
def parse_opt (app : App) (opt : Option (Opt × Text)) : Parsed App := do
  let (opt, optarg) ← expect (-1) opt
  match parse_arg eal opt optarg app with
  | .error (.code _) => .error (.code (-1))
  | answer => answer

end Functions

def app_get_nic_rx_queues_per_port (app : App) (port : Nat) : Nat :=
  ((List.range APP_MAX_RX_QUEUES_PER_NIC_PORT).filter (app.nic_rx_queue_mask port)).length

/-- Whether every rule's port is enabled for TX. -/
def app_check_lpm_table (app : App) : Bool := app.lpm_rules.all fun rule => app.nic_tx_port_mask rule.if_out

def app_check_every_rx_port_is_tx_enabled (app : App) : Bool :=
  (List.range APP_MAX_NIC_PORTS).all fun port =>
    app_get_nic_rx_queues_per_port app port = 0 || app.nic_tx_port_mask port

/-- The global variable before anything is parsed. -/
def zeroed : App where
  nic_tx_port_mask _ := false
  ring_rx_size := 0
  ring_tx_size := 0
  burst_size_io_rx_read := 0
  burst_size_io_rx_write := 0
  burst_size_io_tx_read := 0
  burst_size_io_tx_write := 0
  burst_size_worker_read := 0
  burst_size_worker_write := 0
  pos_lb := 0
  lcore_params _ := .disabled
  nic_rx_queue_mask _ _ := false
  lpm_rules := []
  nic_rx_ring_size := 0
  nic_tx_ring_size := 0

/-- `arg_rx` and so on: the option was given. -/
def given (opt : Opt) (opts : List (Option (Opt × Text))) : Bool := opts.any fun o => o.any (·.1 = opt)

def defaults (opts : List (Option (Opt × Text))) (app : App) : App :=
  let app := if given .rsz opts then app else { app with
    nic_rx_ring_size := APP_DEFAULT_NIC_RX_RING_SIZE
    nic_tx_ring_size := APP_DEFAULT_NIC_TX_RING_SIZE
    ring_rx_size := APP_DEFAULT_RING_RX_SIZE
    ring_tx_size := APP_DEFAULT_RING_TX_SIZE }
  let app := if given .bsz opts then app else { app with
    burst_size_io_rx_read := APP_DEFAULT_BURST_SIZE
    burst_size_io_rx_write := APP_DEFAULT_BURST_SIZE
    burst_size_io_tx_read := APP_DEFAULT_BURST_SIZE
    burst_size_io_tx_write := APP_DEFAULT_BURST_SIZE
    burst_size_worker_read := APP_DEFAULT_BURST_SIZE
    burst_size_worker_write := APP_DEFAULT_BURST_SIZE }
  if given .pos_lb opts then app else { app with pos_lb := APP_DEFAULT_IO_RX_LB_POS }

/-- The command line is what `getopt_long` makes of it, option by option. It is
    accepted when there is a result; the number of arguments that the function
    returns then is not negative. -/
def app_parse_args (eal : Eal) (opts : List (Option (Opt × Text))) : Parsed App := do
  let app ← opts.foldlM (parse_opt eal) zeroed
  refuse (given .rx opts = false ∨ given .tx opts = false ∨ given .w opts = false ∨ given .lpm opts = false) (-1)
  let app := defaults opts app
  refuse (app_check_lpm_table app = false) (-1)
  refuse (app_check_every_rx_port_is_tx_enabled app = false) (-2)
  return app

end Shardb.Config
