import Shardb.CStrings
import Shardb.Decimals
import Shardb.RoundTrip

/-!
# Addresses with a port

`parse_arg_ip_address` reads what is written in front of the first colon and behind it
(`address_read`). A port goes through 16 bits, and what stands behind a second colon is
not looked at.
-/

namespace Shardb.Addresses
open Shardb.Bytes (Text ascii be16 readBe16)
open Shardb.CStrings Shardb.Config Shardb.Decimals
open Shardb.Client (Sockaddr)

/-- `htons`, as the bytes in memory. -/
def htons (x : Nat) : Vector UInt8 2 := #v[UInt8.ofNat (x / 256), UInt8.ofNat x]

/-- The port in memory, as a number. -/
def ntohs (port : Vector UInt8 2) : Nat := readBe16 port.toList 0

/-- `inet_pton(AF_INET, ..)`; `none` is the answer 0. -/
abbrev Pton := Text → Option (Vector UInt8 4)

/-- It knows addresses in dotted decimals. -/
def Documented (inet_pton : Pton) : Prop := ∀ a b c d, a < 256 → b < 256 → c < 256 → d < 256 →
  inet_pton (separated 46 [a, b, c, d]) = some #v[UInt8.ofNat a, UInt8.ofNat b, UInt8.ofNat c, UInt8.ofNat d]

/-- The answer, and the address that is left. The text is copied and cut up by `strtok`. -/
def parse_arg_ip_address (inet_pton : Pton) (arg : Text) (addr : Sockaddr) : Int × Sockaddr :=
  match nextToken [58] arg with
  | none => (0, addr)
  | some (token, rest) =>
    match inet_pton token with
    | none => (-1, addr)
    | some s_addr =>
      let addr := { addr with s_addr := s_addr }
      match nextToken [58] rest with
      | none => (0, addr)
      | some (token, _) =>
        let x := strtoul token 10
        if x.errno = true ∨ x.endptr ≠ [] then (-2, addr)
        else (0, { addr with sin_port := htons (x.value % 2 ^ 32) })

/-- An address and a port, written out. -/
def address (octets : Nat × Nat × Nat × Nat) (port : Nat) : Text :=
  separated 46 [octets.1, octets.2.1, octets.2.2.1, octets.2.2.2] ++ 58 :: decimal port

/-- A token in front of a colon, or of the end. -/
theorem nextToken_read {token rest : Text} (some : token ≠ []) (free : (58 : UInt8) ∉ token)
    (ends : rest = [] ∨ rest.head? = Option.some 58) : nextToken [58] (token ++ rest) = Option.some (token, rest.drop 1) := by
  obtain ⟨c, cs, rfl⟩ := List.exists_cons_of_ne_nil some
  have passes : ∀ d ∈ c :: cs, (decide (d ∉ [(58 : UInt8)])) = true := by
    intro d member
    simp only [List.mem_singleton, decide_eq_true_eq]
    rintro rfl
    exact free member
  have first : c ≠ 58 := by
    rintro rfl
    exact free List.mem_cons_self
  have start : (c :: cs ++ rest).dropWhile (· ∈ [(58 : UInt8)]) = c :: (cs ++ rest) := by simp [first]
  have whole : c :: (cs ++ rest) = (c :: cs) ++ rest := rfl
  have token : (c :: (cs ++ rest)).takeWhile (· ∉ [(58 : UInt8)]) = c :: cs ∧
      (c :: (cs ++ rest)).dropWhile (· ∉ [(58 : UInt8)]) = rest := by
    rw [whole, List.takeWhile_append_of_pos passes, List.dropWhile_append_of_pos passes]
    rcases ends with rfl | colon
    · simp
    · obtain ⟨rest, rfl⟩ : ∃ r, rest = 58 :: r := by
        cases rest with
        | nil => cases colon
        | cons d rest => cases colon; exact ⟨rest, rfl⟩
      simp
  unfold nextToken
  rw [start]
  simp only [token]

section Reading
variable {inet_pton : Pton} (documented : Documented inet_pton)
include documented

/-- What is stored for them. -/
theorem address_stored {a b c d port : Nat} (octets : a < 256 ∧ b < 256 ∧ c < 256 ∧ d < 256) (bits : port < 2 ^ 64)
    {tail : Text} (ends : tail = [] ∨ tail.head? = some 58) (addr : Sockaddr) :
    parse_arg_ip_address inet_pton (address (a, b, c, d) port ++ tail) addr =
      (0, ⟨htons (port % 2 ^ 32), #v[UInt8.ofNat a, UInt8.ofNat b, UInt8.ofNat c, UInt8.ofNat d]⟩) := by
  have host : nextToken [58] (address (a, b, c, d) port ++ tail) =
      some (separated 46 [a, b, c, d], decimal port ++ tail) := by
    have text : address (a, b, c, d) port ++ tail = separated 46 [a, b, c, d] ++ 58 :: (decimal port ++ tail) := by
      simp [address]
    rw [text]
    refine nextToken_read (fun empty => ?_) (not_separated (by decide) (by decide)) (.inr rfl)
    rw [separated_cons] at empty
    exact decimal_some (List.append_eq_nil_iff.mp empty).1
  have port_text : nextToken [58] (decimal port ++ tail) = some (decimal port, tail.drop 1) :=
    nextToken_read decimal_some (not_decimal (by decide)) ends
  have known := documented a b c d octets.1 octets.2.1 octets.2.2.1 octets.2.2.2
  have number : strtoul (decimal port) 10 = ⟨port, [], false⟩ := strtoul_alone bits (.inr rfl)
  simp only [parse_arg_ip_address, host, known, port_text, number]
  simp

/-- An address and a port are read as they are written, the port up to its lower bits;
    what a second colon sets apart is not read. -/
theorem address_read {a b c d port : Nat} (octets : a < 256 ∧ b < 256 ∧ c < 256 ∧ d < 256) (bits : port < 2 ^ 64)
    {tail : Text} (ends : tail = [] ∨ tail.head? = some 58) (addr : Sockaddr) :
    ∃ addr', parse_arg_ip_address inet_pton (address (a, b, c, d) port ++ tail) addr = (0, addr') ∧
      addr'.s_addr.toList.map UInt8.toNat = [a, b, c, d] ∧ ntohs addr'.sin_port = port % 2 ^ 16 := by
  refine ⟨_, address_stored documented octets bits ends addr, ?_, ?_⟩
  · obtain ⟨first, second, third, fourth⟩ := octets
    simp [Nat.mod_eq_of_lt, first, second, third, fourth]
  · simp only [ntohs, htons, readBe16]
    simp
    omega

end Reading

/-! ### Dotted decimals -/

/-- Four numbers of at most three digits, below 256. -/
def dotted : Pton := fun text =>
  let fields := text.splitOn 46
  if fields.all (fun field => 0 < field.length && field.length ≤ 3 && field.all fun c => digit c < 10) = true then
    match fields.map fun field => (strtoul field 10).value with
    | [a, b, c, d] =>
      if a < 256 ∧ b < 256 ∧ c < 256 ∧ d < 256 then
        some #v[UInt8.ofNat a, UInt8.ofNat b, UInt8.ofNat c, UInt8.ofNat d]
      else none
    | _ => none
  else none

theorem dotted_documented : Documented dotted := by
  intro a b c d first second third fourth
  have field : ∀ n < 256, (0 < (decimal n).length && (decimal n).length ≤ 3 && (decimal n).all fun c => digit c < 10) = true ∧
      (strtoul (decimal n) 10).value = n := by
    intro n below
    rw [strtoul_alone (by omega) (.inr rfl)]
    refine ⟨?_, rfl⟩
    simp only [Bool.and_eq_true, decide_eq_true_eq, List.all_eq_true]
    exact ⟨⟨List.length_pos_iff.mpr decimal_some, decimal_length (by decide) (by omega)⟩,
      fun c member => (decimal_figures c member).plain.2.2.2.2.2⟩
  unfold dotted
  rw [separated_splitOn (by decide) (by simp)]
  simp only [List.map_cons, List.map_nil, List.all_cons, List.all_nil, (field _ first).1, (field _ second).1,
    (field _ third).1, (field _ fourth).1, (field _ first).2, (field _ second).2, (field _ third).2, (field _ fourth).2]
  simp [first, second, third, fourth]

/-- A port above 16 bits, and another colon. -/
theorem third_part_ignored : ∃ addr', parse_arg_ip_address dotted (ascii "10.0.0.1:65616:7") RoundTrip.main_client = (0, addr') ∧
    addr'.s_addr.toList.map UInt8.toNat = [10, 0, 0, 1] ∧ ntohs addr'.sin_port = 65616 % 2 ^ 16 :=
  @address_read _ dotted_documented 10 0 0 1 65616 (by decide) (by decide) (ascii ":7") (.inr rfl) RoundTrip.main_client

end Shardb.Addresses
