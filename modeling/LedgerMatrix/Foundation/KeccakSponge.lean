import LedgerMatrix.Foundation.Keccak
import LedgerMatrix.Foundation.LittleEndian
import LedgerMatrix.Foundation.Sponge

/-! # Keccak as a sponge

The permutation of twenty-five lanes of 64 bits on a state of 200 bytes, the lowest
byte of each lane first, and the hash functions that it makes as a sponge. The
blocks of a message are added to the first `rate` bytes.
-/

namespace Keccak

/-! ## States of bytes -/

/-- The bytes of a state. -/
abbrev Bytes : Type := Vector UInt8 200

/-- The lanes of a state, each of eight bytes. -/
def ofBytes (s : Bytes) : Lanes 64 := fun x y =>
  BitVec.ofNat 64 (LittleEndian.value
    (List.ofFn fun k : Fin 8 => s.get ⟨8 * (5 * y.val + x.val) + k.val, by omega⟩))

/-- The bytes of the lanes. -/
def toBytes (a : Lanes 64) : Bytes := Vector.ofFn fun j =>
  UInt8.ofNat ((a ⟨j.val / 8 % 5, by omega⟩ ⟨j.val / 40, by omega⟩).toNat / 256 ^ (j.val % 8))

theorem ofBytes_toBytes (a : Lanes 64) : ofBytes (toBytes a) = a := by
  funext x y
  have hbyte : ∀ k : Fin 8, (toBytes a).get ⟨8 * (5 * y.val + x.val) + k.val, by omega⟩ =
      UInt8.ofNat ((a x y).toNat / 256 ^ k.val) := by
    intro k
    have hx : (8 * (5 * y.val + x.val) + k.val) / 8 % 5 = x.val := by omega
    have hy : (8 * (5 * y.val + x.val) + k.val) / 40 = y.val := by omega
    have hk : (8 * (5 * y.val + x.val) + k.val) % 8 = k.val := by omega
    have hget : (toBytes a).get ⟨8 * (5 * y.val + x.val) + k.val, by omega⟩ = _ :=
      Vector.getElem_ofFn ..
    simp only [hget, hx, hy, hk]
  have hlt : (a x y).toNat < 256 ^ 8 := (a x y).isLt
  simp only [ofBytes, hbyte]
  rw [← LittleEndian.bytes_eq_ofFn, LittleEndian.value_bytes, Nat.mod_eq_of_lt hlt,
    BitVec.ofNat_toNat, BitVec.setWidth_eq]

theorem toBytes_ofBytes (s : Bytes) : toBytes (ofBytes s) = s := by
  apply Vector.ext
  intro j hj
  have hplace : 8 * (5 * (j / 40) + j / 8 % 5) + j % 8 = j := by omega
  rw [toBytes, Vector.getElem_ofFn, ofBytes]
  generalize hword : (List.ofFn fun k : Fin 8 =>
    s.get ⟨8 * (5 * (j / 40) + j / 8 % 5) + k.val, by omega⟩) = word
  have hlength : word.length = 8 := by rw [← hword, List.length_ofFn]
  have hlt : LittleEndian.value word < 2 ^ 64 := by
    have hvalue := LittleEndian.value_lt word
    rwa [hlength] at hvalue
  have hk : j % 8 < word.length := by omega
  rw [BitVec.toNat_ofNat, Nat.mod_eq_of_lt hlt, LittleEndian.ofNat_value_div word hk]
  simp only [← hword, List.getElem_ofFn, hplace]
  rfl

/-- The permutation of twenty-four rounds, on bytes. -/
def permuteBytes (s : Bytes) : Bytes := toBytes (permutation 24 (ofBytes s))

theorem permuteBytes_injective : Function.Injective permuteBytes := by
  intro s t h
  have hlanes := congrArg ofBytes h
  rw [permuteBytes, permuteBytes, ofBytes_toBytes, ofBytes_toBytes] at hlanes
  have hwidth : 64 ∣ 4 ^ 3 := dvd_refl 64
  rw [← toBytes_ofBytes s, permutation_injective hwidth 24 hlanes, toBytes_ofBytes]

/-! ## The sponge -/

section Sponge

variable {rate : Nat}

/-- Add a block to the first bytes of a state. -/
def mix (block : Vector UInt8 rate) (s : Bytes) : Bytes := Vector.ofFn fun j =>
  s.get j ^^^ if h : j.val < rate then block.get ⟨j.val, h⟩ else 0

theorem mix_get (block : Vector UInt8 rate) (s : Bytes) (j : Fin 200) :
    (mix block s).get j = s.get j ^^^ if h : j.val < rate then block.get ⟨j.val, h⟩ else 0 :=
  Vector.getElem_ofFn ..

/-- The bytes that blocks are not added to. -/
def capacity (rate : Nat) (s : Bytes) : List UInt8 := s.toList.drop rate

theorem capacity_mix (block : Vector UInt8 rate) (s : Bytes) :
    capacity rate (mix block s) = capacity rate s := by
  refine List.ext_getElem (by simp [capacity]) fun i hi _ => ?_
  have hlt : rate + i < 200 := by
    simp only [capacity, List.length_drop, Vector.length_toList] at hi
    omega
  have hbehind : ¬ rate + i < rate := by omega
  have hget := mix_get block s ⟨rate + i, hlt⟩
  rw [dif_neg hbehind, UInt8.xor_zero] at hget
  simp only [capacity, List.getElem_drop, Vector.getElem_toList]
  exact hget

theorem mix_injective (h : rate ≤ 200) (s : Bytes) :
    Function.Injective fun block : Vector UInt8 rate => mix block s := by
  intro block block' heq
  apply Vector.ext
  intro i hi
  have hget := congrArg (fun t : Bytes => t.get ⟨i, hi.trans_le h⟩) heq
  simp only [mix_get, hi, dif_pos] at hget
  exact (UInt8.xor_right_inj _).mp hget

/-- The sponge of a rate. -/
def sponge (h : rate ≤ 200) : Sponge Bytes (Vector UInt8 rate) (List UInt8) where
  permute := permuteBytes
  mix := mix
  inner := capacity rate
  permute_injective := permuteBytes_injective
  inner_mix := capacity_mix
  mix_injective := mix_injective h

/-! ## Messages -/

/-- The bits of bytes, the lowest of each first. -/
def bits (bytes : List UInt8) : List Bool :=
  bytes.flatMap fun byte => (List.range 8).map byte.toBitVec.getLsbD

/-- The bytes of the padding, which fills `count` of them. -/
def paddingBytes : Nat → List UInt8
  | 0 => []
  | 1 => [0x81]
  | count + 2 => 0x01 :: (List.replicate count 0 ++ [0x80])

@[simp] theorem paddingBytes_length (count : Nat) : (paddingBytes count).length = count := by
  match count with
  | 0 => rfl
  | 1 => rfl
  | count + 2 => simp [paddingBytes]

/-- The padding has two bits, which may be in one byte. -/
theorem paddingBytes_getD {count : Nat} (h : 0 < count) (k : Nat) :
    (paddingBytes count).getD k 0 =
      (if k = 0 then 0x01 else 0) ^^^ if k + 1 = count then 0x80 else 0 := by
  match count with
  | 0 => cases h
  | 1 =>
      cases k with
      | zero => rfl
      | succ k => simp [paddingBytes]
  | count + 2 =>
      cases k with
      | zero => simp [paddingBytes]
      | succ k =>
          rcases Nat.lt_trichotomy k count with hlt | rfl | hgt
          · have hne : k ≠ count := by omega
            simp [paddingBytes, List.getElem?_append, hlt, hne]
          · simp [paddingBytes]
          · have hne : k ≠ count := by omega
            have hbeyond : ¬ k < count := by omega
            have hlast : k - count ≠ 0 := by omega
            simp [paddingBytes, List.getElem?_append, hbeyond, hne, hlast]

theorem bits_append (first second : List UInt8) :
    bits (first ++ second) = bits first ++ bits second :=
  List.flatMap_append

theorem bits_replicate_zero (count : Nat) :
    bits (List.replicate count 0) = List.replicate (8 * count) false := by
  induction count with
  | zero => rfl
  | succ count ih =>
      have hbits : (List.range 8).map (0 : UInt8).toBitVec.getLsbD = List.replicate 8 false := by
        decide
      rw [List.replicate_succ, bits, List.flatMap_cons, hbits]
      rw [bits] at ih
      rw [ih, ← List.replicate_add]
      congr 1
      omega

/-- The bytes of the padding are a one, zeros and a one. -/
theorem bits_paddingBytes {count : Nat} (h : 0 < count) :
    bits (paddingBytes count) = Sponge.padding (8 * count - 2) := by
  match count with
  | 0 => cases h
  | 1 => decide
  | count + 2 =>
      have hfirst : bits [0x01] = true :: List.replicate 7 false := by decide
      have hlast : bits [0x80] = List.replicate 7 false ++ [true] := by decide
      have hcount : 8 * (count + 2) - 2 = 7 + 8 * count + 7 := by omega
      have hbytes : paddingBytes (count + 2) = [0x01] ++ List.replicate count 0 ++ [0x80] := rfl
      rw [hbytes, bits_append, bits_append, hfirst, hlast, bits_replicate_zero, Sponge.padding,
        hcount, List.replicate_add, List.replicate_add]
      simp

theorem bits_injective : Function.Injective bits := by
  intro first second h
  induction first generalizing second with
  | nil =>
      cases second with
      | nil => rfl
      | cons byte second => cases h
  | cons byte first ih =>
      cases second with
      | nil => cases h
      | cons byte' second =>
          simp only [bits, List.flatMap_cons] at h
          obtain ⟨hbyte, hrest⟩ := List.append_inj h (by simp)
          rw [ih hrest]
          congr 1
          apply UInt8.eq_of_toBitVec_eq
          apply BitVec.eq_of_getLsbD_eq
          intro i hi
          exact List.map_inj_left.mp hbyte i (List.mem_range.mpr hi)

/-- A message and its padding. -/
def padded (rate : Nat) (message : List UInt8) : List UInt8 :=
  message ++ paddingBytes (rate - message.length % rate)

/-- The block at the front of some bytes. -/
def block (rate : Nat) (bytes : List UInt8) : Vector UInt8 rate :=
  Vector.ofFn fun j => bytes.getD j.val 0

/-- The blocks of some bytes, one after the other. -/
def blocks (rate : Nat) : Nat → List UInt8 → List (Vector UInt8 rate)
  | 0, _ => []
  | count + 1, bytes => block rate bytes :: blocks rate count (bytes.drop rate)

/-- The blocks of a message. -/
def messageBlocks (rate : Nat) (message : List UInt8) : List (Vector UInt8 rate) :=
  blocks rate (message.length / rate + 1) (padded rate message)

/-- The state after a message. -/
def absorbed (h : rate ≤ 200) (message : List UInt8) : Bytes :=
  (sponge h).absorb (Vector.replicate 200 0) (messageBlocks rate message)

/-- The bytes that a state shows. -/
def shown (s : Bytes) (k : Nat) : UInt8 := s.toList.getD k 0

/-- The digest of a message, of any length. -/
def digest (h : rate ≤ 200) (message : List UInt8) (count : Nat) : List UInt8 :=
  (sponge h).output shown rate (absorbed h message) count

theorem padded_length (message : List UInt8) (h : 0 < rate) :
    (padded rate message).length = rate * (message.length / rate + 1) := by
  have hmod := Nat.mod_lt message.length h
  have hdiv := Nat.div_add_mod message.length rate
  rw [padded, List.length_append, paddingBytes_length, Nat.mul_add]
  omega

theorem padded_injective (h : 0 < rate) : Function.Injective (padded rate) := by
  intro message message' heq
  have hleft (message : List UInt8) : 0 < rate - message.length % rate :=
    Nat.sub_pos_of_lt (Nat.mod_lt _ h)
  have hbits := congrArg bits heq
  rw [padded, padded, bits_append, bits_append, bits_paddingBytes (hleft _),
    bits_paddingBytes (hleft _)] at hbits
  exact bits_injective (Sponge.append_padding_inj hbits)

theorem toList_block (bytes : List UInt8) (h : rate ≤ bytes.length) :
    (block rate bytes).toList = bytes.take rate := by
  refine List.ext_getElem (by simp [h]) fun j hj _ => ?_
  rw [Vector.length_toList] at hj
  have hlt : j < bytes.length := hj.trans_le h
  simp [block, hlt]

@[simp] theorem blocks_length (count : Nat) (bytes : List UInt8) :
    (blocks rate count bytes).length = count := by
  induction count generalizing bytes with
  | zero => rfl
  | succ count ih => rw [blocks, List.length_cons, ih]

/-- Whole blocks are known by their bytes. -/
theorem blocks_inj {count : Nat} {bytes bytes' : List UInt8} (h : bytes.length = rate * count)
    (h' : bytes'.length = rate * count)
    (heq : blocks rate count bytes = blocks rate count bytes') : bytes = bytes' := by
  induction count generalizing bytes bytes' with
  | zero => rw [List.length_eq_zero_iff.mp h, List.length_eq_zero_iff.mp h']
  | succ count ih =>
      rw [Nat.mul_succ] at h h'
      obtain ⟨hfirst, hrest⟩ := List.cons.inj heq
      have htake := congrArg Vector.toList hfirst
      rw [toList_block bytes (by omega), toList_block bytes' (by omega)] at htake
      have hdrop := ih (by rw [List.length_drop]; omega) (by rw [List.length_drop]; omega) hrest
      rw [← List.take_append_drop rate bytes, htake, hdrop, List.take_append_drop]

/-- Different messages have different blocks. -/
theorem messageBlocks_injective (h : 0 < rate) : Function.Injective (messageBlocks rate) := by
  intro message message' heq
  have hcount : message.length / rate + 1 = message'.length / rate + 1 := by
    simpa only [messageBlocks, blocks_length] using congrArg List.length heq
  rw [messageBlocks, messageBlocks, ← hcount] at heq
  refine padded_injective h (blocks_inj (padded_length message h) ?_ heq)
  rw [hcount]
  exact padded_length message' h

theorem padded_drop {message : List UInt8} (h : rate ≤ message.length) :
    (padded rate message).drop rate = padded rate (message.drop rate) := by
  have hmod : (message.length - rate) % rate = message.length % rate := (Nat.mod_eq_sub_mod h).symm
  rw [padded, padded, List.drop_append_of_le_length h, List.length_drop, hmod]

theorem block_append {bytes : List UInt8} (h : rate ≤ bytes.length) (rest : List UInt8) :
    block rate (bytes ++ rest) = block rate bytes := by
  apply Vector.toList_inj.mp
  rw [toList_block _ (by rw [List.length_append]; omega), toList_block _ h,
    List.take_append_of_le_length h]

/-- A whole block of the message comes first. -/
theorem messageBlocks_of_le (hpos : 0 < rate) {message : List UInt8} (h : rate ≤ message.length) :
    messageBlocks rate message = block rate message :: messageBlocks rate (message.drop rate) := by
  have hcount : message.length / rate = (message.length - rate) / rate + 1 := by
    rw [Nat.div_eq_sub_div hpos h]
  rw [messageBlocks, blocks, padded_drop h, messageBlocks, List.length_drop, ← hcount, padded,
    block_append h]

/-- What is left of the message is in the last block, with the padding. -/
theorem messageBlocks_of_lt {message : List UInt8} (h : message.length < rate) :
    messageBlocks rate message =
      [block rate (message ++ paddingBytes (rate - message.length))] := by
  rw [messageBlocks, Nat.div_eq_of_lt h, padded, Nat.mod_eq_of_lt h]
  rfl

end Sponge

end Keccak
