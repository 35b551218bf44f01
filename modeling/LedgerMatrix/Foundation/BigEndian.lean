import Mathlib.Data.Nat.Digits.Lemmas

/-! # Big-endian numbers

The number a byte string denotes, most significant byte first, and the shortest
byte string that denotes a number.
-/

namespace BigEndian

/-- The number that `bytes` denotes. -/
def value (bytes : List UInt8) : Nat :=
  bytes.foldl (fun total byte => total * 256 + byte.toNat) 0

@[simp] theorem value_nil : value [] = 0 := rfl

@[simp] theorem value_singleton (byte : UInt8) : value [byte] = byte.toNat := by
  simp [value]

theorem foldl_eq (bytes : List UInt8) (total : Nat) :
    bytes.foldl (fun total byte => total * 256 + byte.toNat) total =
      total * 256 ^ bytes.length + value bytes := by
  induction bytes generalizing total with
  | nil => simp
  | cons byte rest ih =>
      simp only [value, List.foldl_cons, List.length_cons]
      rw [ih, ih (0 * 256 + byte.toNat)]
      ring

theorem value_cons (byte : UInt8) (rest : List UInt8) :
    value (byte :: rest) = byte.toNat * 256 ^ rest.length + value rest := by
  rw [value, List.foldl_cons, foldl_eq]
  simp

theorem value_append (left right : List UInt8) :
    value (left ++ right) = value left * 256 ^ right.length + value right := by
  rw [value, List.foldl_append, foldl_eq]
  rfl

theorem value_replicate_zero (count : Nat) : value (List.replicate count 0) = 0 := by
  induction count with
  | zero => rfl
  | succ count ih => rw [List.replicate_succ, value_cons, ih]; simp

/-- Leading zero bytes do not change the number. -/
theorem value_replicate_append (count : Nat) (bytes : List UInt8) :
    value (List.replicate count 0 ++ bytes) = value bytes := by
  rw [value_append, value_replicate_zero]
  simp

theorem value_lt (bytes : List UInt8) : value bytes < 256 ^ bytes.length := by
  induction bytes with
  | nil => simp
  | cons byte rest ih =>
      rw [value_cons, List.length_cons, Nat.pow_succ']
      have hbyte : byte.toNat < 256 := byte.toNat_lt
      calc byte.toNat * 256 ^ rest.length + value rest
          < byte.toNat * 256 ^ rest.length + 256 ^ rest.length := by omega
        _ = (byte.toNat + 1) * 256 ^ rest.length := by ring
        _ ≤ 256 * 256 ^ rest.length := Nat.mul_le_mul_right _ (by omega)

/-- Appending one byte, the step of a loop that reads a number. -/
theorem value_concat (bytes : List UInt8) (byte : UInt8) :
    value (bytes ++ [byte]) = value bytes * 256 + byte.toNat := by
  rw [value_append]
  simp

/-- The shortest byte string that denotes `number`; zero is the empty string. -/
def bytes (number : Nat) : List UInt8 :=
  (Nat.digits 256 number).reverse.map UInt8.ofNat

theorem value_map_ofNat (digits : List Nat) (hdigits : ∀ digit ∈ digits, digit < 256) :
    value (digits.reverse.map UInt8.ofNat) = Nat.ofDigits 256 digits := by
  induction digits with
  | nil => rfl
  | cons digit rest ih =>
      have hdigit : (UInt8.ofNat digit).toNat = digit :=
        UInt8.toNat_ofNat_of_lt (hdigits digit List.mem_cons_self)
      rw [List.reverse_cons, List.map_append, List.map_singleton, value_concat, hdigit,
        ih (fun d hd => hdigits d (List.mem_cons_of_mem _ hd)), Nat.ofDigits_cons]
      ring

@[simp] theorem value_bytes (number : Nat) : value (bytes number) = number := by
  rw [bytes, value_map_ofNat _ (fun digit hdigit => Nat.digits_lt_base (by decide) hdigit),
    Nat.ofDigits_digits]

theorem bytes_length_le {number count : Nat} (h : number < 256 ^ count) :
    (bytes number).length ≤ count := by
  rw [bytes, List.length_map, List.length_reverse]
  exact (Nat.digits_length_le_iff (by decide) number).mpr h

theorem bytes_ne_nil {number : Nat} (h : 0 < number) : bytes number ≠ [] := by
  intro hnil
  have hzero := value_bytes number
  rw [hnil, value_nil] at hzero
  omega

/-- The shortest byte string does not start with a zero byte. -/
theorem head?_bytes_ne_zero (number : Nat) : (bytes number).head? ≠ some 0 := by
  intro hzero
  rw [bytes, List.head?_map, List.head?_reverse, Option.map_eq_some_iff] at hzero
  obtain ⟨digit, hlast, hdigit⟩ := hzero
  have hne : number ≠ 0 := by
    rintro rfl
    rw [Nat.digits_zero] at hlast
    cases hlast
  have hnil : Nat.digits 256 number ≠ [] := Nat.digits_ne_nil_iff_ne_zero.mpr hne
  have hdigit' : (Nat.digits 256 number).getLast hnil = digit :=
    Option.some.inj ((List.getLast?_eq_some_getLast hnil).symm.trans hlast)
  have hlt : digit < 256 := hdigit' ▸ Nat.digits_lt_base (by decide) (List.getLast_mem hnil)
  have hnat : (UInt8.ofNat digit).toNat = digit := UInt8.toNat_ofNat_of_lt hlt
  rw [hdigit] at hnat
  exact Nat.getLast_digit_ne_zero 256 hne (hdigit'.trans hnat.symm)

/-- A byte string without a leading zero byte is the shortest that denotes its
number. -/
theorem bytes_value {string : List UInt8} (h : string.head? ≠ some 0) :
    bytes (value string) = string := by
  have hdigits : ∀ digit ∈ string.reverse.map UInt8.toNat, digit < 256 := by
    intro digit hdigit
    obtain ⟨byte, -, rfl⟩ := List.mem_map.mp hdigit
    exact byte.toNat_lt
  have hmap : (string.reverse.map UInt8.toNat).reverse.map UInt8.ofNat = string := by
    rw [← List.map_reverse, List.reverse_reverse, List.map_map]
    conv_rhs => rw [← List.map_id string]
    exact List.map_congr_left fun byte _ => UInt8.ofNat_toNat
  have hlast : ∀ hne : string.reverse.map UInt8.toNat ≠ [],
      (string.reverse.map UInt8.toNat).getLast hne ≠ 0 := by
    intro hne hzero
    have hsome := List.getLast?_eq_some_getLast hne
    rw [hzero, List.getLast?_map, List.getLast?_reverse, Option.map_eq_some_iff] at hsome
    obtain ⟨byte, hbyte, hnat⟩ := hsome
    exact h (hbyte.trans (congrArg some (UInt8.toNat_inj.mp hnat)))
  have hvalue := value_map_ofNat _ hdigits
  rw [hmap] at hvalue
  rw [bytes, hvalue, Nat.digits_ofDigits 256 (by decide) _ hdigits hlast, hmap]

end BigEndian
