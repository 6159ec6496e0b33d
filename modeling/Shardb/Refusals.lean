import Shardb.Tuples

/-!
# The parsers refuse with a code

Nothing but the tuples keeps a parser from an answer: one that ends in a fault has
come to a call of `str_to_unsigned_vals` with a text that is not legible
(`fault_meets`). A command line without such a text is accepted or refused with a
code (`app_parse_args_answers`).
-/

namespace Shardb.Refusals
open Shardb.Bytes (Text ascii)
open Shardb.Loops Shardb.Config Shardb.Options Shardb.Numerals Shardb.Tuples
open Shardb.Lcores (Fault)

/-! ### Parsers that fail -/

@[simp] theorem refuse_fault {bad : Prop} [Decidable bad] {ret : Int} {f : Fault} :
    refuse bad ret ≠ .error (.fault f) := by
  unfold refuse
  split_ifs <;> simp

@[simp] theorem expect_fault {α : Type} {ret : Int} {o : Option α} {f : Fault} : expect ret o ≠ .error (.fault f) := by
  cases o <;> simp [expect]

@[simp] theorem pure_fault {α : Type} {a : α} {f : Fault} : (pure a : Parsed α) ≠ .error (.fault f) := by
  rintro ⟨⟩

@[simp] theorem map_fault {α β : Type} {x : Parsed α} {g : α → β} {f : Fault} :
    g <$> x = .error (.fault f) ↔ x = .error (.fault f) := by
  rw [map_eq_pure_bind, bind_eq_error]
  simp

section Parsers
variable {eal : Eal} {arg : Text} {app : App} {f : Fault}

private theorem rx_tuple_answers {port queue lcore : Nat} : rx_tuple eal port queue lcore app ≠ .error (.fault f) := by
  simp [rx_tuple, bind_eq_error]

private theorem tx_tuple_answers {port lcore : Nat} : tx_tuple eal port lcore app ≠ .error (.fault f) := by
  simp [tx_tuple, bind_eq_error]

private theorem w_pass_answers {s : Scan} : w_pass eal s ≠ .error (.fault f) := by
  unfold w_pass
  split_ifs
  · simp
  · cases strchr s.p 44 <;> simp [bind_eq_error]

/-- A fault of a pass over tuples comes from its call. -/
private theorem tuple_pass_fault {num max_tuples : Nat} {body : List Nat → App → Parsed App} {s : Scan}
    (answers : ∀ vals app, body vals app ≠ .error (.fault f))
    (run : tuple_pass eal num max_tuples body s = .error (.fault f)) :
    ∃ p p0, strchr s.p 40 = some p ∧ strchr p 41 = some p0 ∧
      str_to_unsigned_vals eal (p.drop 1) ((p.drop 1).length - p0.length) 44 num = .error (.fault f) := by
  unfold tuple_pass at run
  split at run
  · cases run
  · rename_i p opens
    simp only [bind_eq_error, expect_ok, expect_fault, refuse_fault, pure_fault, answers, false_or, or_false, and_false,
      exists_false] at run
    obtain ⟨p0, closes, call⟩ := run
    exact ⟨p, p0, opens, closes, call⟩

private theorem lpm_pass_fault {s : LpmScan} (run : lpm_pass eal s = .error (.fault f)) :
    ∃ p0, s.p ≠ [] ∧ strchr s.p 47 = some p0 ∧
      str_to_unsigned_vals eal s.p (s.p.length - p0.length) 46 4 = .error (.fault f) := by
  unfold lpm_pass at run
  by_cases done : s.p = []
  · rw [if_pos done] at run
    cases run
  · rw [if_neg done] at run
    simp only [bind_eq_error, expect_ok, expect_fault, refuse_fault, pure_fault, false_or, or_false, and_false,
      exists_false] at run
    obtain ⟨p0, slash, call⟩ := run
    exact ⟨p0, done, slash, call⟩

private theorem parse_tuples_fault {num max_chars max_tuples : Nat} {body : List Nat → App → Parsed App}
    (run : parse_tuples eal num max_chars max_tuples body arg app = .error (.fault f)) :
    arg.length ≤ max_chars ∧ ∃ s, Reaches (tuple_pass eal num max_tuples body) ⟨arg, 0, app⟩ s ∧
      tuple_pass eal num max_tuples body s = .error (.fault f) := by
  simp only [parse_tuples, bind_eq_error, refuse_ok, refuse_fault, pure_fault, false_or, or_false, and_false,
    exists_false] at run
  obtain ⟨-, short, looped⟩ := run
  exact ⟨by omega, loop_error (by simp) looped⟩

private theorem burst_pair_fault {p p0 : Text} {ret : Int} (run : burst_pair eal p p0 ret = .error (.fault f)) :
    p.length < p0.length ∨ p0.length ≤ p.length ∧
      str_to_unsigned_vals eal p (p.length - p0.length) 44 2 = .error (.fault f) := by
  unfold burst_pair at run
  split_ifs at run with order
  · exact .inl order
  · simp only [bind_eq_error, refuse_fault, pure_fault, or_false, and_false, exists_false] at run
    exact .inr ⟨by omega, run⟩

/-- A parser that ends in a fault has come to a call that does. -/
theorem fault_meets {opt : Opt} (run : parse_arg eal opt arg app = .error (.fault f)) :
    ∃ c ret, Meets eal arg app opt c ret ∧
      (2 ^ 64 ≤ c.sbuflen + 1 ∨ str_to_unsigned_vals eal c.s c.sbuflen c.separator c.num_vals = .error (.fault f)) := by
  cases opt with
  | rx =>
    obtain ⟨short, s, reached, fails⟩ := parse_tuples_fault run
    obtain ⟨p, p0, opens, closes, call⟩ := tuple_pass_fault (fun vals app => rx_tuple_answers) fails
    exact ⟨_, _, .rx short reached opens closes, .inr call⟩
  | tx =>
    obtain ⟨short, s, reached, fails⟩ := parse_tuples_fault run
    obtain ⟨p, p0, opens, closes, call⟩ := tuple_pass_fault (fun vals app => tx_tuple_answers) fails
    exact ⟨_, _, .tx short reached opens closes, .inr call⟩
  | w =>
    simp only [parse_arg, parse_arg_w, bind_eq_error, refuse_fault, pure_fault, false_or, or_false, and_false,
      exists_false] at run
    obtain ⟨-, -, looped⟩ := run
    obtain ⟨s, -, fails⟩ := loop_error (by simp) looped
    exact absurd fails w_pass_answers
  | lpm =>
    simp only [parse_arg, parse_arg_lpm, bind_eq_error, refuse_ok, refuse_fault, pure_fault, false_or, or_false, and_false,
      exists_false] at run
    obtain ⟨-, short, looped⟩ := run
    obtain ⟨s, reached, fails⟩ := loop_error (by simp) looped
    obtain ⟨p0, left, slash, call⟩ := lpm_pass_fault fails
    exact ⟨_, _, .lpm (by omega) reached left slash, .inr call⟩
  | rsz =>
    simp only [parse_arg, parse_arg_rsz, bind_eq_error, refuse_ok, refuse_fault, pure_fault, false_or, or_false, and_false,
      exists_false] at run
    obtain ⟨-, short, call⟩ := run
    exact ⟨_, _, .rsz (by omega), .inr call⟩
  | bsz =>
    simp only [parse_arg, parse_arg_bsz, bind_eq_error, refuse_ok, expect_ok, refuse_fault, expect_fault, pure_fault,
      false_or, or_false, and_false, exists_false] at run
    obtain ⟨-, short, p0, closes, first | ⟨io_rx, first, p, opens, p0', closes', second |
      ⟨worker, second, p', opens', p0'', closes'', third⟩⟩⟩ := run
    · rcases burst_pair_fault first with order | ⟨order, call⟩
      · exact ⟨_, _, .behind (by omega) closes order, .inl (by simp)⟩
      · exact ⟨_, _, .io_rx (by omega) closes order, .inr call⟩
    · rcases burst_pair_fault second with order | ⟨-, call⟩
      · have inside := closes_behind opens closes'
        simp at order
        omega
      · exact ⟨_, _, .worker (by omega) closes first opens closes', .inr call⟩
    · rcases burst_pair_fault third with order | ⟨-, call⟩
      · have inside := closes_behind opens' closes''
        simp at order
        omega
      · exact ⟨_, _, .io_tx (by omega) closes first opens closes' second opens' closes'', .inr call⟩
  | pos_lb => simp [parse_arg, parse_arg_pos_lb, bind_eq_error] at run

end Parsers

/-! ### A command line of legible tuples -/

section CommandLine
variable {eal : Eal} (splits : Splits eal) {Unsigned : Text → Nat → Prop} {opts : List (Option (Opt × Text))}

/-- Each parser comes to legible texts only. -/
def LegibleLine (Unsigned : Text → Nat → Prop) (eal : Eal) (opts : List (Option (Opt × Text))) : Prop :=
  ∀ before opt arg after app, opts = before ++ some (opt, arg) :: after →
    before.foldlM (parse_opt eal) zeroed = .ok app → ∀ c ret, Meets eal arg app opt c ret → Legible Unsigned c

include splits

/-- It is accepted, or refused with a code. -/
theorem app_parse_args_answers (legible : LegibleLine Unsigned eal opts) :
    (∃ app, app_parse_args eal opts = .ok app) ∨ ∃ ret, app_parse_args eal opts = .error (.code ret) := by
  cases run : app_parse_args eal opts with
  | ok app => exact .inl ⟨app, rfl⟩
  | error e =>
    cases e with
    | code ret => exact .inr ⟨ret, rfl⟩
    | unfinished => exact absurd run (app_parse_args_finishes opts).enough
    | fault f =>
      simp only [app_parse_args, bind_eq_error, refuse_fault, pure_fault, or_false, and_false, exists_false] at run
      obtain ⟨before, o, after, app, whole, parsed, fails⟩ := foldlM_error run
      simp only [parse_opt, bind_eq_error, expect_fault, expect_ok, false_or] at fails
      obtain ⟨⟨opt, arg⟩, rfl, fails⟩ := fails
      have faults : parse_arg eal opt arg app = .error (.fault f) := by
        dsimp only at fails
        split at fails
        · cases fails
        · exact fails
      obtain ⟨c, ret, meets, bad⟩ := fault_meets faults
      have fine := legible before opt arg after app whole parsed c ret meets
      rcases bad with size | call
      · exact absurd fine.size (by omega)
      · rw [str_to_unsigned_vals_tokens splits, if_pos fine.taken] at call
        cases call

end CommandLine

private theorem pair_legible {c : Call} {first second : Text} {m n : Nat} (two : c.num_vals = 2) (size : c.sbuflen + 1 < 2 ^ 64)
    (fields : fieldsOf c = [first, second]) (one : Numeral first m) (other : Numeral second n) : Legible AnyNumeral c := by
  refine ⟨by omega, size, by rw [fields, two]; rfl, ?_, fun _ => .inr ?_⟩
  · rw [fields]
    simp only [List.forall_mem_cons]
    exact ⟨.inr ⟨_, one⟩, .inr ⟨_, other⟩, by simp⟩
  · rw [fields]
    simp only [List.forall_mem_cons]
    exact ⟨⟨_, _, one, rfl⟩, ⟨_, _, other, rfl⟩, by simp⟩

/-- Three tuples with numerals of all kinds. -/
def burst_sizes : Text := ascii "(144,0x90),(020, 16),(8,8)"

private theorem burst_sizes_legible {app : App} {c : Call} {ret : Int} (meets : Meets (Eal.first 4) burst_sizes app .bsz c ret) :
    Legible AnyNumeral c := by
  have first : strchr burst_sizes 41 = some (ascii "),(020, 16),(8,8)") := rfl
  have second : strchr (ascii "),(020, 16),(8,8)") 40 = some (ascii "(020, 16),(8,8)") := rfl
  have third : strchr (ascii "(020, 16),(8,8)") 41 = some (ascii "),(8,8)") := rfl
  have fourth : strchr (ascii "),(8,8)") 40 = some (ascii "(8,8)") := rfl
  have fifth : strchr (ascii "(8,8)") 41 = some (ascii ")") := rfl
  have decimal : Numeral (ascii "144") 144 := numeral_iff.mpr ⟨List.cons_ne_nil _ _, rfl, rfl, rfl⟩
  have hex : Numeral (ascii "0x90") 144 := numeral_iff.mpr ⟨List.cons_ne_nil _ _, rfl, rfl, rfl⟩
  have octal : Numeral (ascii "020") 16 := numeral_iff.mpr ⟨List.cons_ne_nil _ _, rfl, rfl, rfl⟩
  have blank : Numeral (ascii " 16") 16 := numeral_iff.mpr ⟨List.cons_ne_nil _ _, rfl, rfl, rfl⟩
  have eight : Numeral (ascii "8") 8 := numeral_iff.mpr ⟨List.cons_ne_nil _ _, rfl, rfl, rfl⟩
  cases meets with
  | io_rx short closes order =>
    rw [first] at closes
    cases closes
    exact pair_legible rfl (by decide) rfl decimal hex
  | behind short closes order =>
    rw [first] at closes
    cases closes
    exact absurd order (by decide)
  | worker short closes one opens closes' =>
    rw [first] at closes
    cases closes
    rw [second] at opens
    cases opens
    rw [third] at closes'
    cases closes'
    exact pair_legible rfl (by decide) rfl octal blank
  | io_tx short closes one opens closes' two opens' closes'' =>
    rw [first] at closes
    cases closes
    rw [second] at opens
    cases opens
    rw [third] at closes'
    cases closes'
    rw [fourth] at opens'
    cases opens'
    rw [fifth] at closes''
    cases closes''
    exact pair_legible rfl (by decide) rfl eight eight

/-- Burst sizes alone, which are read and do not make a command line. -/
theorem burst_sizes_answered : (∃ app, app_parse_args (Eal.first 4) [some (.bsz, burst_sizes)] = .ok app) ∨
    ∃ ret, app_parse_args (Eal.first 4) [some (.bsz, burst_sizes)] = .error (.code ret) := by
  apply @app_parse_args_answers (Eal.first 4) (fun _ _ _ => rfl) AnyNumeral
  intro before opt arg after app whole _ c ret meets
  cases before with
  | cons o before => simp at whole
  | nil =>
    cases whole
    exact burst_sizes_legible meets

end Shardb.Refusals
