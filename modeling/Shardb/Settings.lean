import Shardb.Decimals
import Shardb.Tuples

/-!
# Options as they are meant

A `Setting` is an option with what its author wants to say: queues and ports with
their lcores, a list of workers, rules, sizes. Written out, it is read as what it
says, up to the code of its refusal (`setting_read`): neither the search for the
parentheses and signs nor the tokens lose or add a number. So is a whole command line
(`line_means`).
-/

namespace Shardb.Settings
open Shardb.Bytes (Text ascii)
open Shardb.Loops Shardb.Wiring Shardb.Config Shardb.Options Shardb.Decimals Shardb.Numerals Shardb.Tuples
open Shardb.Lcores (APP_MAX_LCORES APP_MAX_NIC_PORTS APP_MBUF_ARRAY_SIZE)

/-! ### What is meant -/

/-- Four octets and a depth, and the port that such a destination is sent to. -/
structure Rule where
  octets : Nat × Nat × Nat × Nat
  depth : Nat
  if_out : Nat
  deriving DecidableEq

/-- An option with its argument. -/
inductive Setting
  /-- Ports, queues and lcores. -/
  | rx (tuples : List (Nat × Nat × Nat))
  /-- Ports and lcores. -/
  | tx (tuples : List (Nat × Nat))
  | w (lcores : List Nat)
  | lpm (rules : List Rule)
  | rsz (nic_rx ring_rx ring_tx nic_tx : Nat)
  /-- What is read and written by the lcores that receive, work and send. -/
  | bsz (io_rx worker io_tx : Nat × Nat)
  | pos_lb (pos : Nat)
  deriving DecidableEq

def Setting.opt : Setting → Opt
  | .rx _ => .rx
  | .tx _ => .tx
  | .w _ => .w
  | .lpm _ => .lpm
  | .rsz .. => .rsz
  | .bsz .. => .bsz
  | .pos_lb _ => .pos_lb

section Effect
variable (eal : Eal)

/-- The entries of a list one by one, which are counted afterwards. -/
def entries {α : Type} (max_tuples : Nat) (ret : Int) (entry : α → App → Parsed App) : Nat → List α → App → Parsed App
  | _, [], app => .ok app
  | n, a :: rest, app => do
    let app ← entry a app
    refuse (max_tuples < n + 1) ret
    entries max_tuples ret entry (n + 1) rest app

/-- Another worker. -/
def worker (lcore : Nat) (app : App) : Parsed App := do
  refuse (eal.rte_lcore_is_enabled lcore = false) (-3)
  refuse (APP_MAX_LCORES ≤ lcore) (-4)
  refuse (isIo (app.lcore_params lcore) = true) (-5)
  return app.setLcore lcore .worker

def Rule.ips (rule : Rule) : List Nat := [rule.octets.1, rule.octets.2.1, rule.octets.2.2.1, rule.octets.2.2.2]

/-- Another rule. -/
def Rule.add (rule : Rule) (app : App) : Parsed App := do
  refuse ((∃ ip ∈ rule.ips, 256 ≤ ip) ∨ rule.depth = 0 ∨ 32 ≤ rule.depth ∨ APP_MAX_NIC_PORTS ≤ rule.if_out) (-6)
  refuse (APP_MAX_LPM_RULES ≤ app.lpm_rules.length) (-7)
  return { app with lpm_rules := app.lpm_rules ++
    [⟨rule.ips.foldl (fun ip x => ip * 2 ^ 8 + x) 0, rule.depth % 2 ^ 8, rule.if_out % 2 ^ 8⟩] }

/-- What an option does to the parameters. -/
def Setting.effect : Setting → App → Parsed App
  | .rx tuples, app => do
    let app ← entries APP_ARG_RX_MAX_TUPLES (-10) (fun t => rx_tuple eal t.1 t.2.1 t.2.2) 0 tuples app
    refuse (tuples.length = 0) (-11)
    return app
  | .tx tuples, app => do
    let app ← entries APP_ARG_TX_MAX_TUPLES (-10) (fun t => tx_tuple eal t.1 t.2) 0 tuples app
    refuse (tuples.length = 0) (-11)
    return app
  | .w lcores, app => do
    let app ← entries APP_ARG_W_MAX_TUPLES (-6) (worker eal) 0 lcores app
    refuse (lcores.length = 0) (-7)
    refuse (lcores.length &&& (lcores.length - 1) ≠ 0) (-8)
    return app
  | .lpm rules, app => do
    let app ← rules.foldlM (fun app rule => rule.add app) app
    refuse (app.lpm_rules = []) (-9)
    return app
  | .rsz nic_rx ring_rx ring_tx nic_tx, app => do
    refuse (nic_rx = 0 ∨ ring_rx = 0 ∨ ring_tx = 0 ∨ nic_tx = 0) (-3)
    return { app with nic_rx_ring_size := nic_rx, ring_rx_size := ring_rx, ring_tx_size := ring_tx, nic_tx_ring_size := nic_tx }
  | .bsz io_rx worker io_tx, app => do
    refuse (io_rx.1 = 0 ∨ io_rx.2 = 0 ∨ worker.1 = 0 ∨ worker.2 = 0 ∨ io_tx.1 = 0 ∨ io_tx.2 = 0) (-7)
    refuse (APP_MBUF_ARRAY_SIZE < io_rx.1 ∨ APP_MBUF_ARRAY_SIZE < io_rx.2 ∨ APP_MBUF_ARRAY_SIZE < worker.1 ∨
      APP_MBUF_ARRAY_SIZE < worker.2 ∨ APP_MBUF_ARRAY_SIZE < 2 * io_tx.1 % 2 ^ 32 ∨ APP_MBUF_ARRAY_SIZE < io_tx.2) (-8)
    return { app with
      burst_size_io_rx_read := io_rx.1
      burst_size_io_rx_write := io_rx.2
      burst_size_worker_read := worker.1
      burst_size_worker_write := worker.2
      burst_size_io_tx_read := io_tx.1
      burst_size_io_tx_write := io_tx.2 }
  | .pos_lb pos, app => do
    refuse (64 ≤ pos) (-3)
    return { app with pos_lb := pos }

end Effect

/-! ### What is written -/

/-- `(0,1,2)`. -/
def tuple (ns : List Nat) : Text := 40 :: (separated 44 ns ++ [41])

/-- `(0,0,1), (0,1,2)`. -/
def tuples : List (List Nat) → Text
  | [] => []
  | t :: ts => tuple t ++ if ts = [] then [] else 44 :: 32 :: tuples ts

/-- `192.168.4.0/24=>0;`. -/
def Rule.text (rule : Rule) : Text :=
  separated 46 rule.ips ++ 47 :: (decimal rule.depth ++ 61 :: 62 :: (decimal rule.if_out ++ [59]))

def triple (t : Nat × Nat × Nat) : List Nat := [t.1, t.2.1, t.2.2]
def pair (t : Nat × Nat) : List Nat := [t.1, t.2]

def Setting.text : Setting → Text
  | .rx ts => tuples (ts.map triple)
  | .tx ts => tuples (ts.map pair)
  | .w lcores => separated 44 lcores
  | .lpm rules => rules.flatMap Rule.text
  | .rsz nic_rx ring_rx ring_tx nic_tx => separated 44 [nic_rx, ring_rx, ring_tx, nic_tx]
  | .bsz io_rx worker io_tx => tuples [pair io_rx, pair worker, pair io_tx]
  | .pos_lb pos => decimal pos

example : (Setting.bsz (4, 4) (4, 4) (4, 4)).text = ascii "(4,4), (4,4), (4,4)" := by decide
example : (Setting.lpm [⟨(192, 168, 4, 0), 24, 0⟩]).text = ascii "192.168.4.0/24=>0;" := by decide

/-- How long an argument may be. -/
def limit : Opt → Nat
  | .rx => APP_ARG_RX_MAX_CHARS
  | .tx => APP_ARG_TX_MAX_CHARS
  | .w => APP_ARG_W_MAX_CHARS
  | .lpm => APP_ARG_LPM_MAX_CHARS
  | .rsz => APP_ARG_RSZ_CHARS
  | .bsz => APP_ARG_BSZ_CHARS
  | .pos_lb => APP_ARG_NUMERICAL_SIZE_CHARS

def Setting.numbers : Setting → List Nat
  | .rx ts => ts.flatMap triple
  | .tx ts => ts.flatMap pair
  | .w lcores => lcores
  | .lpm rules => rules.flatMap fun rule => rule.ips ++ [rule.depth, rule.if_out]
  | .rsz nic_rx ring_rx ring_tx nic_tx => [nic_rx, ring_rx, ring_tx, nic_tx]
  | .bsz io_rx worker io_tx => pair io_rx ++ pair worker ++ pair io_tx
  | .pos_lb pos => [pos]

/-! ### How it is read -/

section Reading
variable {eal : Eal}

/-- What has a result goes on with it. -/
@[simp] theorem result_bind {α β : Type} {a : α} {f : α → Parsed β} : ((.ok a : Parsed α) >>= f) = f a := rfl

theorem refuse_eq {bad : Prop} [Decidable bad] {ret : Int} {α : Type} {f : Unit → Parsed α} (fine : ¬ bad) :
    (refuse bad ret >>= f) = f () := by
  rw [refuse, if_neg fine]
  rfl

theorem strchr_first {before rest : Text} {c : UInt8} (free : c ∉ before) :
    strchr (before ++ c :: rest) c = some (c :: rest) := by
  have passes : ∀ d ∈ before, (d != c) = true := by
    intro d member
    simp only [bne_iff_ne, ne_eq]
    rintro rfl
    exact free member
  unfold strchr
  rw [List.dropWhile_append_of_pos passes]
  simp

theorem strchr_none {s : Text} {c : UInt8} (free : c ∉ s) : strchr s c = none := by
  have nothing : s.dropWhile (· != c) = [] := by
    rw [List.dropWhile_eq_nil_iff]
    intro d member
    simp only [bne_iff_ne, ne_eq]
    rintro rfl
    exact free member
  unfold strchr
  rw [nothing]

/-- The numbers in front of a place are read. -/
theorem vals_read (splits : Splits eal) {s : Text} {sbuflen num_vals : Nat} {separator : UInt8} {ns : List Nat}
    (front : s.take sbuflen = separated separator ns) (other : digit separator = 36) (some : ns ≠ [])
    (few : ns.length ≤ num_vals) (small : ∀ n ∈ ns, n < 2 ^ 32) :
    str_to_unsigned_vals eal s sbuflen separator num_vals = .ok ns := by
  have alone : ∀ n ∈ ns, strtoul (decimal n) 0 = ⟨n, [], false⟩ := fun n member =>
    strtoul_alone (by have := small n member; omega) (.inl rfl)
  have parts : tokens ⟨s, sbuflen, separator, num_vals⟩ = ns.map decimal := by
    have cut := separated_splitOn other some
    unfold tokens
    rw [front, strsplit_fields (by rw [cut]; simpa using few), cut, trimmed, if_neg]
    intro last
    obtain ⟨n, -, empty⟩ := List.mem_map.mp (List.mem_of_getLast? last)
    exact decimal_some empty
  have read := @str_to_unsigned_vals_tokens eal ⟨s, sbuflen, separator, num_vals⟩ splits
  rw [parts, if_pos] at read
  · rw [read, List.map_map]
    refine congrArg Except.ok ?_
    rw [List.map_congr_left (g := id), List.map_id]
    intro n member
    simp only [Function.comp_apply, stored, alone n member, id]
    exact Nat.mod_eq_of_lt (small n member)
  · intro split member
    obtain ⟨n, here, rfl⟩ := List.mem_map.mp member
    simp [Taken, alone n here]

/-- Tuples in a text, and between them whatever does not open another. -/
inductive Laid : List (List Nat) → Text → Prop
  | nil {gap : Text} (free : (40 : UInt8) ∉ gap) : Laid [] gap
  | cons {gap rest : Text} {ns : List Nat} {ts : List (List Nat)} (free : (40 : UInt8) ∉ gap) (others : Laid ts rest) :
      Laid (ns :: ts) (gap ++ (tuple ns ++ rest))

theorem Laid.gap {ts : List (List Nat)} {text : Text} {c : UInt8} (other : c ≠ 40) (laid : Laid ts text) :
    Laid ts (c :: text) := by
  cases laid with
  | nil free => exact .nil (by simpa [Ne.symm other] using free)
  | @cons gap rest ns ts free others =>
    rw [← List.cons_append]
    exact .cons (by simpa [Ne.symm other] using free) others

theorem tuples_laid : ∀ ts : List (List Nat), Laid ts (tuples ts)
  | [] => .nil List.not_mem_nil
  | t :: ts => by
    have rest : Laid ts (if ts = [] then [] else 44 :: 32 :: tuples ts) := by
      split_ifs with last
      · subst last
        exact .nil List.not_mem_nil
      · exact ((tuples_laid ts).gap (by decide)).gap (by decide)
    exact @Laid.cons [] _ t ts List.not_mem_nil rest

/-- A pass takes one tuple. -/
theorem tuple_pass_read (splits : Splits eal) {num max_tuples : Nat} {body : List Nat → App → Parsed App}
    {gap rest : Text} {ns : List Nat} {n : Nat} {app : App} (free : (40 : UInt8) ∉ gap) (some : ns ≠ [])
    (count : ns.length = num) (small : ∀ n ∈ ns, n < 2 ^ 32) :
    tuple_pass eal num max_tuples body ⟨gap ++ (tuple ns ++ rest), n, app⟩ = do
      let app ← body ns app
      refuse (max_tuples < n + 1) (-10)
      return .inl ⟨41 :: rest, n + 1, app⟩ := by
  have opens : strchr (gap ++ (tuple ns ++ rest)) 40 = Option.some (tuple ns ++ rest) := strchr_first free
  have closes : strchr (tuple ns ++ rest) 41 = Option.some (41 :: rest) := by
    have before : tuple ns ++ rest = (40 :: separated 44 ns) ++ 41 :: rest := by simp [tuple]
    rw [before]
    apply strchr_first
    simpa using not_separated (by decide) (by decide)
  have read : str_to_unsigned_vals eal ((tuple ns ++ rest).drop 1)
      (((tuple ns ++ rest).drop 1).length - (41 :: rest).length) 44 num = .ok ns := by
    refine vals_read splits ?_ (by decide) some count.le small
    simp [tuple]
  unfold tuple_pass
  simp only [opens, closes, expect, result_bind]
  rw [read, result_bind, refuse_eq (by simpa using count)]

/-- The passes take them all, in their order. -/
theorem tuples_loop (splits : Splits eal) {num max_tuples : Nat} {body : List Nat → App → Parsed App} (some : 0 < num)
    {ts : List (List Nat)} {text : Text} (laid : Laid ts text) (count : ∀ ns ∈ ts, ns.length = num)
    (small : ∀ ns ∈ ts, ∀ n ∈ ns, n < 2 ^ 32) : ∃ p, ∀ {fuel n : Nat} {app : App}, text.length < fuel →
      loop .unfinished (tuple_pass eal num max_tuples body) fuel ⟨text, n, app⟩ = do
        let app ← entries max_tuples (-10) body n ts app
        return ⟨p, n + ts.length, app⟩ := by
  induction ts generalizing text with
  | nil =>
    obtain ⟨free⟩ := laid
    refine ⟨text, fun {fuel n app} bound => ?_⟩
    obtain ⟨fuel, rfl⟩ := Nat.exists_eq_add_of_le' (show 1 ≤ fuel by omega)
    have leaves : tuple_pass eal num max_tuples body ⟨text, n, app⟩ = .ok (.inr ⟨text, n, app⟩) := by
      simp [tuple_pass, strchr_none free]
    rw [loop, leaves]
    rfl
  | cons ns ts ih =>
    obtain ⟨counted, count⟩ := List.forall_mem_cons.mp count
    obtain ⟨fits, small⟩ := List.forall_mem_cons.mp small
    cases laid with
    | @cons gap rest _ _ free others =>
      -- the next pass begins at the parenthesis that closed this tuple
      obtain ⟨p, reads⟩ := ih (others.gap (c := 41) (by decide)) count small
      refine ⟨p, fun {fuel n app} bound => ?_⟩
      obtain ⟨fuel, rfl⟩ := Nat.exists_eq_add_of_le' (show 1 ≤ fuel by omega)
      have shorter : (41 :: rest).length < fuel := by
        simp only [tuple, List.length_append, List.length_cons, List.length_nil] at bound ⊢
        omega
      have nonempty : ns ≠ [] := List.length_pos_iff.mp (counted ▸ some)
      rw [loop, tuple_pass_read splits free nonempty counted fits, entries]
      cases body ns app with
      | error e => rfl
      | ok app =>
        simp only [result_bind]
        by_cases full : max_tuples < n + 1
        · simp only [refuse, if_pos full]
          rfl
        · rw [refuse_eq full, refuse_eq full]
          refine (reads shorter).trans ?_
          rw [List.length_cons, Nat.add_right_comm, ← Nat.add_assoc]

/-- A text of tuples is read as these. -/
theorem parse_tuples_read (splits : Splits eal) {num max_chars max_tuples : Nat} {body : List Nat → App → Parsed App}
    (some : 0 < num) {ts : List (List Nat)} {text : Text} (laid : Laid ts text) (count : ∀ ns ∈ ts, ns.length = num)
    (small : ∀ ns ∈ ts, ∀ n ∈ ns, n < 2 ^ 32) (app : App) :
    parse_tuples eal num max_chars max_tuples body text app = do
      refuse (max_chars < text.length) (-1)
      let app ← entries max_tuples (-10) body 0 ts app
      refuse (ts.length = 0) (-11)
      return app := by
  obtain ⟨p, reads⟩ := @tuples_loop eal splits num max_tuples body some ts text laid count small
  unfold parse_tuples
  rw [reads (Nat.lt_succ_self _)]
  simp only [bind_assoc, pure_bind, Nat.zero_add]

theorem entries_map {α β : Type} (f : β → α) (max_tuples : Nat) (ret : Int) (entry : α → App → Parsed App) :
    ∀ (n : Nat) (l : List β) (app : App),
      entries max_tuples ret entry n (l.map f) app = entries max_tuples ret (fun b => entry (f b)) n l app
  | _, [], _ => rfl
  | n, b :: l, app => by
    rw [List.map_cons, entries, entries]
    simp only [entries_map f max_tuples ret entry (n + 1) l]

/-! ### The lists of `--w` -/

theorem separated_ends {separator : UInt8} {ns : List Nat} (other : digit separator = 36) :
    Ends (if ns = [] then [] else separator :: separated separator ns) := by
  split_ifs
  · simp [Ends]
  · exact ends_cons _ other

/-- A pass takes one entry. -/
theorem w_pass_read {lcore : Nat} {lcores : List Nat} {n : Nat} {app : App} (small : lcore < 2 ^ 32) :
    w_pass eal ⟨separated 44 (lcore :: lcores), n, app⟩ = do
      let app ← worker eal lcore app
      refuse (APP_ARG_W_MAX_TUPLES < n + 1) (-6)
      return if lcores = [] then .inr ⟨separated 44 [lcore], n + 1, app⟩ else .inl ⟨separated 44 lcores, n + 1, app⟩ := by
  have text := separated_cons 44 lcore lcores
  have number : strtoul (separated 44 (lcore :: lcores)) 0 =
      ⟨lcore, if lcores = [] then [] else 44 :: separated 44 lcores, false⟩ := by
    rw [text]
    exact strtoul_decimal (by omega) (separated_ends (by decide)) (.inl rfl)
  have nonempty : separated 44 (lcore :: lcores) ≠ [] := by
    rw [text]
    simp [decimal_some]
  have comma : strchr (separated 44 (lcore :: lcores)) 44 =
      if lcores = [] then none else some (44 :: separated 44 lcores) := by
    rw [text]
    split_ifs
    · rw [List.append_nil]
      exact strchr_none (not_decimal (by decide))
    · exact strchr_first (not_decimal (by decide))
  unfold w_pass worker
  rw [if_neg nonempty]
  simp only [number, comma, Nat.mod_eq_of_lt small, bind_assoc]
  rw [refuse_eq (by simp)]
  split_ifs with last
  · subst last
    simp
  · simp

theorem w_loop {lcores : List Nat} (small : ∀ lcore ∈ lcores, lcore < 2 ^ 32) : ∃ p, ∀ {fuel n : Nat} {app : App},
    (separated 44 lcores).length < fuel →
      loop .unfinished (w_pass eal) fuel ⟨separated 44 lcores, n, app⟩ = do
        let app ← entries APP_ARG_W_MAX_TUPLES (-6) (worker eal) n lcores app
        return ⟨p, n + lcores.length, app⟩ := by
  induction lcores with
  | nil =>
    refine ⟨[], fun {fuel n app} bound => ?_⟩
    obtain ⟨fuel, rfl⟩ := Nat.exists_eq_add_of_le' (show 1 ≤ fuel by omega)
    rfl
  | cons lcore lcores ih =>
    obtain ⟨first, rest⟩ := List.forall_mem_cons.mp small
    obtain ⟨p, reads⟩ := ih rest
    refine ⟨if lcores = [] then separated 44 [lcore] else p, fun {fuel n app} bound => ?_⟩
    obtain ⟨fuel, rfl⟩ := Nat.exists_eq_add_of_le' (show 1 ≤ fuel by omega)
    rw [loop, w_pass_read first, entries]
    cases worker eal lcore app with
    | error e => rfl
    | ok app =>
      simp only [result_bind]
      by_cases full : APP_ARG_W_MAX_TUPLES < n + 1
      · simp only [refuse, if_pos full]
        rfl
      · rw [refuse_eq full, refuse_eq full]
        by_cases last : lcores = []
        · subst last
          rfl
        · have shorter : (separated 44 lcores).length < fuel := by
            rw [separated_cons, if_neg last, List.length_append, List.length_cons] at bound
            omega
          rw [if_neg last, if_neg last]
          refine (reads shorter).trans ?_
          rw [List.length_cons, Nat.add_right_comm, ← Nat.add_assoc]

theorem parse_arg_w_read {lcores : List Nat} (small : ∀ lcore ∈ lcores, lcore < 2 ^ 32) (app : App) :
    parse_arg_w eal (separated 44 lcores) app =
      refuse (APP_ARG_W_MAX_CHARS < (separated 44 lcores).length) (-1) >>= fun _ => (Setting.w lcores).effect eal app := by
  obtain ⟨p, reads⟩ := @w_loop eal lcores small
  unfold parse_arg_w Setting.effect
  rw [reads (Nat.lt_succ_self _)]
  simp only [bind_assoc, pure_bind, Nat.zero_add]

/-! ### The rules of `--lpm` -/

/-- A pass takes one rule. -/
theorem lpm_pass_read (splits : Splits eal) {rule : Rule} {rest : Text} {app : App}
    (small : ∀ n ∈ rule.ips ++ [rule.depth, rule.if_out], n < 2 ^ 32) :
    lpm_pass eal ⟨rule.text ++ rest, app⟩ = do
      let app ← rule.add app
      return .inl ⟨rest, app⟩ := by
  have bits : ∀ n ∈ rule.ips ++ [rule.depth, rule.if_out], n < 2 ^ 64 := fun n member => by
    have := small n member
    omega
  have text : rule.text ++ rest =
      separated 46 rule.ips ++ 47 :: (decimal rule.depth ++ 61 :: 62 :: (decimal rule.if_out ++ 59 :: rest)) := by
    simp [Rule.text]
  have slash : strchr (rule.text ++ rest) 47 =
      some (47 :: (decimal rule.depth ++ 61 :: 62 :: (decimal rule.if_out ++ 59 :: rest))) := by
    rw [text]
    exact strchr_first (not_separated (by decide) (by decide))
  have octets : str_to_unsigned_vals eal (rule.text ++ rest) ((rule.text ++ rest).length -
      (47 :: (decimal rule.depth ++ 61 :: 62 :: (decimal rule.if_out ++ 59 :: rest))).length) 46 4 = .ok rule.ips := by
    refine vals_read splits ?_ (by decide) (by simp [Rule.ips]) (by simp [Rule.ips])
      fun n member => small n (List.mem_append_left _ member)
    rw [text, List.length_append, Nat.add_sub_cancel, List.take_left]
  have depth : strtoul (decimal rule.depth ++ 61 :: 62 :: (decimal rule.if_out ++ 59 :: rest)) 0 =
      ⟨rule.depth, 61 :: 62 :: (decimal rule.if_out ++ 59 :: rest), false⟩ :=
    strtoul_decimal (bits _ (by simp)) (ends_cons _ (by decide)) (.inl rfl)
  have arrow : strchr (decimal rule.depth ++ 61 :: 62 :: (decimal rule.if_out ++ 59 :: rest)) 62 =
      some (62 :: (decimal rule.if_out ++ 59 :: rest)) := by
    have before : decimal rule.depth ++ 61 :: 62 :: (decimal rule.if_out ++ 59 :: rest) =
        (decimal rule.depth ++ [61]) ++ 62 :: (decimal rule.if_out ++ 59 :: rest) := by simp
    rw [before]
    apply strchr_first
    simpa using not_decimal (by decide)
  have if_out : strtoul (decimal rule.if_out ++ 59 :: rest) 0 = ⟨rule.if_out, 59 :: rest, false⟩ :=
    strtoul_decimal (bits _ (by simp)) (ends_cons _ (by decide)) (.inl rfl)
  have semicolon : strchr (decimal rule.if_out ++ 59 :: rest) 59 = some (59 :: rest) :=
    strchr_first (not_decimal (by decide))
  have nonempty : rule.text ++ rest ≠ [] := by simp [Rule.text]
  unfold lpm_pass Rule.add
  rw [if_neg nonempty]
  simp only [slash, expect, result_bind]
  rw [octets]
  simp only [result_bind]
  simp only [depth, arrow, if_out, result_bind, List.drop_succ_cons, List.drop_zero, semicolon]
  rw [refuse_eq (by simp [Rule.ips]), refuse_eq (by simp), refuse_eq (by simp)]
  simp only [Nat.mod_eq_of_lt (small rule.depth (by simp)), Nat.mod_eq_of_lt (small rule.if_out (by simp)), bind_assoc,
    pure_bind]

theorem parse_arg_lpm_read (splits : Splits eal) {rules : List Rule}
    (small : ∀ rule ∈ rules, ∀ n ∈ rule.ips ++ [rule.depth, rule.if_out], n < 2 ^ 32) (app : App) :
    parse_arg_lpm eal (rules.flatMap Rule.text) app =
      refuse (APP_ARG_LPM_MAX_CHARS < (rules.flatMap Rule.text).length) (-1) >>= fun _ =>
        (Setting.lpm rules).effect eal app := by
  have reads : ∀ {fuel : Nat} {app : App}, (rules.flatMap Rule.text).length < fuel →
      loop .unfinished (lpm_pass eal) fuel ⟨rules.flatMap Rule.text, app⟩ =
        rules.foldlM (fun app rule => rule.add app) app := by
    induction rules with
    | nil =>
      intro fuel app bound
      obtain ⟨fuel, rfl⟩ := Nat.exists_eq_add_of_le' (show 1 ≤ fuel by omega)
      rfl
    | cons rule rules ih =>
      intro fuel app bound
      obtain ⟨first, rest⟩ := List.forall_mem_cons.mp small
      obtain ⟨fuel, rfl⟩ := Nat.exists_eq_add_of_le' (show 1 ≤ fuel by omega)
      rw [List.flatMap_cons] at bound ⊢
      rw [loop, lpm_pass_read splits first, List.foldlM_cons]
      cases rule.add app with
      | error e => rfl
      | ok app =>
        refine ih rest ?_
        rw [List.length_append] at bound
        have : 0 < rule.text.length := by simp [Rule.text]
        omega
  unfold parse_arg_lpm Setting.effect
  rw [reads (Nat.lt_succ_self _)]

/-! ### The sizes -/

theorem parse_arg_rsz_read (splits : Splits eal) {nic_rx ring_rx ring_tx nic_tx : Nat}
    (small : ∀ n ∈ [nic_rx, ring_rx, ring_tx, nic_tx], n < 2 ^ 32) (app : App) :
    parse_arg_rsz eal (separated 44 [nic_rx, ring_rx, ring_tx, nic_tx]) app =
      refuse (APP_ARG_RSZ_CHARS < (separated 44 [nic_rx, ring_rx, ring_tx, nic_tx]).length) (-1) >>= fun _ =>
        (Setting.rsz nic_rx ring_rx ring_tx nic_tx).effect eal app := by
  unfold parse_arg_rsz Setting.effect
  by_cases long : APP_ARG_RSZ_CHARS < (separated 44 [nic_rx, ring_rx, ring_tx, nic_tx]).length
  · simp only [refuse, if_pos long]
    rfl
  · rw [refuse_eq long, refuse_eq long, vals_read splits (List.take_of_length_le (by omega)) (by decide) (by simp)
      (by simp) small]
    simp only [result_bind]
    rw [refuse_eq (by simp)]
    simp [eq_comm]

/-- The pair in front of a parenthesis. -/
theorem burst_pair_read (splits : Splits eal) {sizes : Nat × Nat} {rest : Text} {ret : Int}
    (small : ∀ n ∈ pair sizes, n < 2 ^ 32) :
    burst_pair eal (separated 44 (pair sizes) ++ 41 :: rest) (41 :: rest) ret = .ok sizes := by
  unfold burst_pair
  have read : str_to_unsigned_vals eal (separated 44 (pair sizes) ++ 41 :: rest)
      ((separated 44 (pair sizes) ++ 41 :: rest).length - (41 :: rest).length) 44 2 = .ok (pair sizes) :=
    vals_read splits (by simp) (by decide) (by simp [pair]) (by simp [pair]) small
  rw [if_neg (by simp; omega), read]
  rfl

theorem parse_arg_bsz_read (splits : Splits eal) {io_rx worker io_tx : Nat × Nat}
    (small : ∀ n ∈ pair io_rx ++ pair worker ++ pair io_tx, n < 2 ^ 32) (app : App) :
    parse_arg_bsz eal (tuples [pair io_rx, pair worker, pair io_tx]) app =
      refuse (APP_ARG_BSZ_CHARS < (tuples [pair io_rx, pair worker, pair io_tx]).length) (-1) >>= fun _ =>
        (Setting.bsz io_rx worker io_tx).effect eal app := by
  simp only [List.forall_mem_append] at small
  obtain ⟨⟨first, second⟩, third⟩ := small
  have closes : ∀ (ns : List Nat) (rest : Text), strchr (separated 44 ns ++ 41 :: rest) 41 = some (41 :: rest) :=
    fun ns rest => strchr_first (not_separated (by decide) (by decide))
  have closed : ∀ (ns : List Nat) (rest : Text), strchr (40 :: (separated 44 ns ++ 41 :: rest)) 41 = some (41 :: rest) :=
    fun ns rest => @strchr_first (40 :: separated 44 ns) rest 41 (by simpa using not_separated (by decide) (by decide))
  have opens : ∀ rest : Text, strchr (41 :: 44 :: 32 :: 40 :: rest) 40 = some (40 :: rest) := fun rest => rfl
  have text : tuples [pair io_rx, pair worker, pair io_tx] = 40 :: (separated 44 (pair io_rx) ++ 41 :: 44 :: 32 ::
      40 :: (separated 44 (pair worker) ++ 41 :: 44 :: 32 :: 40 :: (separated 44 (pair io_tx) ++ [41]))) := by
    simp [tuples, tuple]
  unfold parse_arg_bsz Setting.effect
  refine congrArg _ (funext fun _ => ?_)
  rw [text]
  simp only [closed, opens, expect, result_bind, List.drop_succ_cons, List.drop_zero]
  rw [burst_pair_read splits first, result_bind, burst_pair_read splits second, result_bind, burst_pair_read splits third,
    result_bind]

theorem parse_arg_pos_lb_read {pos : Nat} (small : pos < 2 ^ 32) (app : App) :
    parse_arg_pos_lb (decimal pos) app =
      refuse (APP_ARG_NUMERICAL_SIZE_CHARS < (decimal pos).length) (-1) >>= fun _ =>
        (Setting.pos_lb pos).effect eal app := by
  have number : strtoul (decimal pos) 10 = ⟨pos, [], false⟩ := strtoul_alone (by omega) (.inr rfl)
  unfold parse_arg_pos_lb Setting.effect
  refine congrArg _ (funext fun _ => ?_)
  simp only [number, Nat.mod_eq_of_lt small]
  rw [refuse_eq (by simp [Ne.symm decimal_some])]

/-- An option is read as it is meant. -/
theorem setting_read (splits : Splits eal) (setting : Setting) (small : ∀ n ∈ setting.numbers, n < 2 ^ 32) (app : App) :
    parse_arg eal setting.opt setting.text app =
      refuse (limit setting.opt < setting.text.length) (-1) >>= fun _ => setting.effect eal app := by
  cases setting with
  | rx ts =>
    refine (parse_tuples_read splits (by decide) (tuples_laid (ts.map triple)) ?_ ?_ app).trans ?_
    · exact List.forall_mem_map.mpr fun t _ => rfl
    · exact List.forall_mem_map.mpr fun t member n inside => small n (List.mem_flatMap.mpr ⟨t, member, inside⟩)
    · simp only [entries_map, List.length_map]
      rfl
  | tx ts =>
    refine (parse_tuples_read splits (by decide) (tuples_laid (ts.map pair)) ?_ ?_ app).trans ?_
    · exact List.forall_mem_map.mpr fun t _ => rfl
    · exact List.forall_mem_map.mpr fun t member n inside => small n (List.mem_flatMap.mpr ⟨t, member, inside⟩)
    · simp only [entries_map, List.length_map]
      rfl
  | w lcores => exact parse_arg_w_read small app
  | lpm rules =>
    exact parse_arg_lpm_read splits (fun rule member n inside => small n (List.mem_flatMap.mpr ⟨rule, member, inside⟩)) app
  | rsz nic_rx ring_rx ring_tx nic_tx => exact parse_arg_rsz_read splits small app
  | bsz io_rx worker io_tx => exact parse_arg_bsz_read splits small app
  | pos_lb pos => exact parse_arg_pos_lb_read (small pos (by simp [Setting.numbers])) app

end Reading

/-! ### A command line -/

/-- The options, written out. -/
def line (settings : List Setting) : List (Option (Opt × Text)) := settings.map fun s => some (s.opt, s.text)

/-- Every code becomes -1. -/
def coded {α : Type} : Parsed α → Parsed α
  | .error (.code _) => .error (.code (-1))
  | answer => answer

/-- What is meant by options one after the other, and by the checks behind them. -/
def meaning (eal : Eal) (settings : List Setting) : Parsed App := do
  let app ← settings.foldlM (fun app s =>
    coded (refuse (limit s.opt < s.text.length) (-1) >>= fun _ => s.effect eal app)) zeroed
  refuse (¬ [Opt.rx, .tx, .w, .lpm] ⊆ settings.map Setting.opt) (-1)
  let app := defaults (line settings) app
  refuse (app_check_lpm_table app = false) (-1)
  refuse (app_check_every_rx_port_is_tx_enabled app = false) (-2)
  return app

section Line
variable {eal : Eal}

theorem parse_opt_read (splits : Splits eal) {s : Setting} (small : ∀ n ∈ s.numbers, n < 2 ^ 32) (app : App) :
    parse_opt eal app (some (s.opt, s.text)) =
      coded (refuse (limit s.opt < s.text.length) (-1) >>= fun _ => s.effect eal app) := by
  rw [← setting_read splits s small app]
  unfold parse_opt coded
  simp only [expect, result_bind]
  cases parse_arg eal s.opt s.text app with
  | ok app => rfl
  | error e => cases e <;> rfl

theorem given_line (opt : Opt) (settings : List Setting) : given opt (line settings) = true ↔ opt ∈ settings.map Setting.opt := by
  unfold given line
  rw [List.any_map, List.any_eq_true, List.mem_map]
  simp only [Function.comp_apply, Option.any_some, decide_eq_true_eq]

/-- A command line that is written out is read as it is meant, from the first option to
    the checks: it leads to the same configuration or to the same code. -/
theorem line_means (splits : Splits eal) {settings : List Setting}
    (small : ∀ s ∈ settings, ∀ n ∈ s.numbers, n < 2 ^ 32) : app_parse_args eal (line settings) = meaning eal settings := by
  have options : ∀ app, (line settings).foldlM (parse_opt eal) app = settings.foldlM (fun app s =>
      coded (refuse (limit s.opt < s.text.length) (-1) >>= fun _ => s.effect eal app)) app := by
    induction settings with
    | nil => exact fun app => rfl
    | cons s settings ih =>
      intro app
      obtain ⟨first, rest⟩ := List.forall_mem_cons.mp small
      rw [line, List.map_cons, List.foldlM_cons, List.foldlM_cons, parse_opt_read splits first]
      exact bind_congr (ih rest)
  have mandatory : (given .rx (line settings) = false ∨ given .tx (line settings) = false ∨
      given .w (line settings) = false ∨ given .lpm (line settings) = false) ↔
      ¬ [Opt.rx, .tx, .w, .lpm] ⊆ settings.map Setting.opt := by
    simp only [← Bool.not_eq_true, given_line, List.cons_subset, List.nil_subset, and_true]
    tauto
  unfold app_parse_args meaning
  rw [options]
  simp only [refuse, mandatory]

/-- The command line of the repository's scripts, with a rule to a port that is not enabled. -/
theorem disabled_port_refused :
    app_parse_args (Eal.first 4) (line [.rx [(0, 0, 0)], .tx [(0, 1)], .w [2, 3], .pos_lb 43,
      .lpm [⟨(192, 168, 4, 0), 24, 1⟩], .bsz (4, 4) (4, 4) (4, 4)]) =
      meaning (Eal.first 4) [.rx [(0, 0, 0)], .tx [(0, 1)], .w [2, 3], .pos_lb 43,
        .lpm [⟨(192, 168, 4, 0), 24, 1⟩], .bsz (4, 4) (4, 4) (4, 4)] ∧
    meaning (Eal.first 4) [.rx [(0, 0, 0)], .tx [(0, 1)], .w [2, 3], .pos_lb 43,
      .lpm [⟨(192, 168, 4, 0), 24, 1⟩], .bsz (4, 4) (4, 4) (4, 4)] = .error (.code (-1)) :=
  ⟨line_means (fun _ _ _ => rfl) (by decide), rfl⟩

end Line

end Shardb.Settings
