import LedgerMatrix.Crypto.Keccak
import LedgerMatrix.Foundation.KeccakSponge
import LedgerMatrix.Machine

/-! # The hash

`keccak_hash` takes the whole blocks of its input, fills up what is left, and gives
out as many bytes as it is asked for. Its input and its output are where pointers
say, its state is a local array of 200 bytes. It computes the sponge with 136 bytes
to a block.
-/

namespace LedgerMatrix.KeccakTiny

open Imperative

/-- The array `a` of `Plen` bytes. -/
abbrev State : Type := Vector UInt8 200

/-- The bytes of a block. -/
def rate : Nat := 200 - 256 / 4

def delim : UInt8 := 0x01

/-- The codes that `keccak_hash` returns. -/
inductive HashCode where
  | ok
  | invalidCryptoSettings
  deriving DecidableEq

/-- The bytes of the state as words, the lowest byte first. -/
def wordsOf (a : State) : Vector Lane 25 := Vector.ofFn fun i =>
  BitVec.ofNat 64 (LittleEndian.value
    (List.ofFn fun k : Fin 8 => a.get ⟨8 * i.val + k.val, by omega⟩))

/-- The words of the state as bytes. -/
def bytesOf (v : Vector Lane 25) : State := Vector.ofFn fun j =>
  UInt8.ofNat ((v.get ⟨j.val / 8, by omega⟩).toNat / 256 ^ (j.val % 8))

/-- `P`, on the bytes of the state. -/
def permute (a : State) : State := bytesOf (keccakf (wordsOf a))

section Code

variable {σ : Type}

/-- `a[index] ^= byte`. -/
def xorAt (index : Nat) (byte : UInt8) : Parser (State × σ) Unit := do
  let s ← Command.read
  if h : index < 200 then Command.modify fun s => (s.1.set index (s.1.get ⟨index, h⟩ ^^^ byte), s.2)
  else fault .outOfBounds

/-- The loop of `xorin` over the bytes from index `i` on. -/
def xorinLoop (input : List UInt8) (src : Option Nat) :
    Nat → Nat → Parser (State × σ) Unit
  | 0, _ => pure ()
  | left + 1, i => do
      let byte ← load input (src.map (· + i))
      xorAt i byte
      xorinLoop input src left (i + 1)

def xorin (input : List UInt8) (src : Option Nat) (len : Nat) :
    Parser (State × σ) Unit :=
  xorinLoop input src len 0

/-- Write one byte of the output. -/
def storeOut (dst : Option Nat) (byte : UInt8) : Parser (State × List UInt8) Unit :=
  match dst with
  | none => fault .nullPointer
  | some index => Command.zoom Lens.snd (storeAt index byte)

/-- The loop of `setout` over the bytes from index `i` on. -/
def setoutLoop (dst : Option Nat) : Nat → Nat → Parser (State × List UInt8) Unit
  | 0, _ => pure ()
  | left + 1, i => do
      let s ← Command.read
      if h : i < 200 then
        storeOut (dst.map (· + i)) (s.1.get ⟨i, h⟩)
        setoutLoop dst left (i + 1)
      else fault .outOfBounds

def setout (dst : Option Nat) (len : Nat) : Parser (State × List UInt8) Unit :=
  setoutLoop dst len 0

/-- `foldP`: handle the whole blocks behind a pointer, and permute after each. The
pointer and the number of bytes that are left come back. -/
def foldP (handle : Option Nat → Nat → Parser (State × σ) Unit) :
    Nat → Option Nat → Nat → Parser (State × σ) (Option Nat × Nat)
  | 0, pointer, len => if rate ≤ len then fault .noTermination else pure (pointer, len)
  | passes + 1, pointer, len =>
      if rate ≤ len then do
        handle pointer rate
        Command.modify fun s => (permute s.1, s.2)
        foldP handle passes (pointer.map (· + rate)) (len - rate)
      else pure (pointer, len)

/-- The part of `keccak_hash` that takes the input. -/
def absorb (input : List UInt8) (pointer : Option Nat) (inLen : Nat) :
    Parser (State × σ) Unit := do
  let (pointer, inLen) ← foldP (xorin input) inLen pointer inLen
  -- the padding goes in first, and what is left of the input over it
  xorAt inLen delim
  xorAt (rate - 1) 0x80
  xorin input pointer inLen
  Command.modify fun s => (permute s.1, s.2)

/-- The part of `keccak_hash` that gives the output. -/
def squeeze (pointer : Option Nat) (outLen : Nat) :
    Parser (State × List UInt8) Unit := do
  let (pointer, outLen) ← foldP setout outLen pointer outLen
  setout pointer outLen

end Code

/-- `keccak_hash`, which writes to the memory that is the state here. -/
def keccakHash (input : List UInt8) (inPointer : Option Nat) (inLen : Nat)
    (outPointer : Option Nat) (outLen : Nat) : Parser (List UInt8) HashCode :=
  if outPointer = none ∨ (inPointer = none ∧ inLen ≠ 0) then pure .invalidCryptoSettings
  else Command.scope (Vector.replicate 200 0) do
    absorb input inPointer inLen
    squeeze outPointer outLen
    Command.modify fun s => (Vector.replicate 200 0, s.2)
    pure .ok

/-! ## Bytes and words -/

theorem lanes_wordsOf (a : State) : lanes (wordsOf a) = Keccak.ofBytes a := by
  funext x y
  exact Vector.getElem_ofFn ..

theorem bytesOf_eq (v : Vector Lane 25) : bytesOf v = Keccak.toBytes (lanes v) := by
  apply Vector.ext
  intro j hj
  have hplace : 5 * (j / 40) + j / 8 % 5 = j / 8 := by omega
  simp only [bytesOf, Keccak.toBytes, Vector.getElem_ofFn, lanes, lane, hplace]

theorem permute_eq (a : State) : permute a = Keccak.permuteBytes a := by
  rw [permute, bytesOf_eq, lanes_keccakf, lanes_wordsOf, Keccak.permuteBytes]

/-! ## Adding bytes -/

/-- A state with bytes added to it from an index on. -/
def addAt (start : Nat) (bytes : List UInt8) (a : State) : State := Vector.ofFn fun j =>
  a.get j ^^^ if start ≤ j.val then bytes.getD (j.val - start) 0 else 0

theorem addAt_get (start : Nat) (bytes : List UInt8) (a : State) (j : Fin 200) :
    (addAt start bytes a).get j =
      a.get j ^^^ if start ≤ j.val then bytes.getD (j.val - start) 0 else 0 :=
  Vector.getElem_ofFn ..

theorem state_ext {a b : State} (h : ∀ j, a.get j = b.get j) : a = b :=
  Vector.ext fun j hj => h ⟨j, hj⟩

theorem addAt_nil (start : Nat) (a : State) : addAt start [] a = a := by
  apply state_ext
  intro j
  rw [addAt_get]
  simp

theorem addAt_singleton_get (index : Nat) (byte : UInt8) (a : State) (j : Fin 200) :
    (addAt index [byte] a).get j = a.get j ^^^ if j.val = index then byte else 0 := by
  rw [addAt_get]
  congr 1
  rcases Nat.lt_trichotomy j.val index with hlt | heq | hgt
  · rw [if_neg (by omega), if_neg (by omega)]
  · simp [heq]
  · obtain ⟨k, hk⟩ : ∃ k, j.val - index = k + 1 := ⟨j.val - index - 1, by omega⟩
    rw [if_pos (by omega), if_neg (by omega), hk]
    rfl

theorem set_eq_addAt (a : State) {index : Nat} (h : index < 200) (byte : UInt8) :
    a.set index (a.get ⟨index, h⟩ ^^^ byte) = addAt index [byte] a := by
  apply state_ext
  intro j
  have hset := get_set a ⟨index, h⟩ j (a.get ⟨index, h⟩ ^^^ byte)
  rw [addAt_singleton_get]
  refine hset.trans ?_
  split
  next heq => rw [heq, if_pos rfl]
  next hne => rw [if_neg fun heq => hne (Fin.ext heq), UInt8.xor_zero]

/-- Bytes that are added one behind the other are added at once. -/
theorem addAt_addAt (a : State) (index : Nat) (byte : UInt8) (bytes : List UInt8) :
    addAt (index + 1) bytes (addAt index [byte] a) = addAt index (byte :: bytes) a := by
  apply state_ext
  intro j
  rw [addAt_get, addAt_singleton_get, addAt_get]
  rcases Nat.lt_trichotomy j.val index with hlt | heq | hgt
  · rw [if_neg (by omega), if_neg (by omega), if_neg (by omega), UInt8.xor_zero]
  · simp [heq]
  · obtain ⟨k, hk⟩ : ∃ k, j.val = index + 1 + k := ⟨j.val - (index + 1), by omega⟩
    have hfirst : j.val - index = k + 1 := by omega
    have hrest : j.val - (index + 1) = k := by omega
    rw [if_neg (by omega), if_pos (by omega), if_pos (by omega), hfirst, hrest, UInt8.xor_zero,
      List.getD_cons_succ]

/-- A whole block is added at the front. -/
theorem addAt_eq_mix {bytes : List UInt8} (h : bytes.length = rate) (a : State) :
    addAt 0 bytes a = Keccak.mix (Keccak.block rate bytes) a := by
  apply state_ext
  intro j
  rw [addAt_get, Keccak.mix_get]
  simp only [Nat.zero_le, if_true, Nat.sub_zero]
  split
  next hlt =>
    have hget : (Keccak.block rate bytes).get ⟨j.val, hlt⟩ = bytes.getD j.val 0 :=
      Vector.getElem_ofFn ..
    rw [hget]
  next hge =>
    rw [List.getD_eq_getElem?_getD, List.getElem?_eq_none (by omega)]
    rfl

/-- The padding and what is left of the input make a block. -/
theorem addAt_last {bytes : List UInt8} (h : bytes.length < rate) (a : State) :
    addAt 0 bytes (addAt (rate - 1) [0x80] (addAt bytes.length [delim] a)) =
      Keccak.mix (Keccak.block rate (bytes ++ Keccak.paddingBytes (rate - bytes.length))) a := by
  have hrate : rate = 136 := rfl
  have hlength : (bytes ++ Keccak.paddingBytes (rate - bytes.length)).length = rate := by
    rw [List.length_append, Keccak.paddingBytes_length]
    omega
  rw [← addAt_eq_mix hlength]
  apply state_ext
  intro j
  rw [addAt_get, addAt_singleton_get, addAt_singleton_get, addAt_get]
  simp only [Nat.zero_le, if_true, Nat.sub_zero, UInt8.xor_assoc]
  congr 1
  simp only [List.getD_eq_getElem?_getD]
  by_cases hj : j.val < bytes.length
  · rw [if_neg (by omega), if_neg (by omega), List.getElem?_append_left hj, UInt8.zero_xor,
      UInt8.zero_xor]
  · have hpadding := Keccak.paddingBytes_getD (Nat.sub_pos_of_lt h) (j.val - bytes.length)
    rw [List.getD_eq_getElem?_getD] at hpadding
    rw [List.getElem?_eq_none (Nat.le_of_not_lt hj),
      List.getElem?_append_right (Nat.le_of_not_lt hj), hpadding, delim]
    have hfirst : j.val - bytes.length = 0 ↔ j.val = bytes.length := by omega
    have hlast : j.val - bytes.length + 1 = rate - bytes.length ↔ j.val = rate - 1 := by omega
    simp only [hfirst, hlast, Option.getD_none, UInt8.xor_zero]

/-! ## What the loops do -/

section Runs

variable {σ : Type} {safe : Event → Prop}

theorem wp_xorAt {index : Nat} (h : index < 200) (byte : UInt8) {a : State} {s : σ}
    {post : Unit → State × σ → Prop} {early : Stop → State × σ → Prop}
    (hpost : post () (addAt index [byte] a, s)) :
    (xorAt index byte).wp safe (a, s) post early := by
  simp only [xorAt, Command.wp_bind, Command.wp_read, h, dif_pos, Command.wp_modify]
  rw [set_eq_addAt]
  exact hpost

/-- The bytes behind a pointer: it may be null where none are read. -/
def Readable (input : List UInt8) (pointer : Option Nat) (len : Nat) : Prop :=
  len = 0 ∨ ∃ start, pointer = some start ∧ start + len ≤ input.length

/-- What is behind a pointer. -/
def bytesAt (input : List UInt8) (pointer : Option Nat) (len : Nat) : List UInt8 :=
  slice input (pointer.getD 0) len

theorem Readable.length {input : List UInt8} {pointer : Option Nat} {len : Nat}
    (h : Readable input pointer len) : (bytesAt input pointer len).length = len := by
  rcases h with rfl | ⟨start, rfl, hle⟩
  · rw [bytesAt, slice, List.take_zero, List.length_nil]
  · exact slice_length hle

theorem wp_xorinLoop {input : List UInt8} {start left i : Nat} (hi : i + left ≤ 200)
    (h : start + i + left ≤ input.length) {a : State} {s : σ}
    {post : Unit → State × σ → Prop} {early : Stop → State × σ → Prop}
    (hpost : post () (addAt i (slice input (start + i) left) a, s)) :
    (xorinLoop input (some start) left i).wp safe (a, s) post early := by
  induction left generalizing i a with
  | zero =>
      rw [slice, List.take_zero, addAt_nil] at hpost
      rw [xorinLoop, Command.wp_pure]
      exact hpost
  | succ left ih =>
      have hload : start + i < input.length := by omega
      rw [xorinLoop, Command.wp_bind]
      apply wp_load hload
      rw [Command.wp_bind]
      apply wp_xorAt (by omega)
      apply ih (by omega) (by omega)
      rw [slice_succ (by omega)] at hpost
      rw [addAt_addAt]
      exact hpost

theorem wp_xorin {input : List UInt8} {pointer : Option Nat} {len : Nat} (hlen : len ≤ 200)
    (h : Readable input pointer len) {a : State} {s : σ}
    {post : Unit → State × σ → Prop} {early : Stop → State × σ → Prop}
    (hpost : post () (addAt 0 (bytesAt input pointer len) a, s)) :
    (xorin input pointer len).wp safe (a, s) post early := by
  rcases h with rfl | ⟨start, rfl, hle⟩
  · rw [bytesAt, slice, List.take_zero, addAt_nil] at hpost
    rw [xorin, xorinLoop, Command.wp_pure]
    exact hpost
  · exact wp_xorinLoop (by omega) (by omega) hpost

theorem rate_pos : 0 < rate := by decide

theorem rate_le : rate ≤ 200 := by decide

theorem readable_drop {input : List UInt8} {pointer : Option Nat} {len : Nat}
    (h : Readable input pointer len) (hle : rate ≤ len) :
    Readable input pointer rate ∧ Readable input (pointer.map (· + rate)) (len - rate) ∧
      bytesAt input pointer rate = (bytesAt input pointer len).take rate ∧
      bytesAt input (pointer.map (· + rate)) (len - rate) =
        (bytesAt input pointer len).drop rate := by
  have hrate : rate = 136 := rfl
  rcases h with rfl | ⟨start, rfl, hfit⟩
  · omega
  · refine ⟨.inr ⟨start, rfl, by omega⟩, .inr ⟨start + rate, rfl, by omega⟩, ?_, ?_⟩
    · simp only [bytesAt, slice, Option.getD_some, List.take_take, Nat.min_eq_left hle]
    · simp only [bytesAt, slice, Option.getD_some, Option.map_some, List.drop_take,
        List.drop_drop]

theorem messageBlocks_absorb {bytes : List UInt8} (h : rate ≤ bytes.length) (a : State) :
    (Keccak.sponge rate_le).absorb a (Keccak.messageBlocks rate bytes) =
      (Keccak.sponge rate_le).absorb (permute (addAt 0 (bytes.take rate) a))
        (Keccak.messageBlocks rate (bytes.drop rate)) := by
  have hblock : Keccak.block rate (bytes.take rate) = Keccak.block rate bytes := by
    rw [← Keccak.block_append (List.length_take_of_le h).ge (bytes.drop rate),
      List.take_append_drop]
  rw [Keccak.messageBlocks_of_le rate_pos h, Sponge.absorb, List.foldl_cons, permute_eq,
    addAt_eq_mix (List.length_take_of_le h), hblock]
  rfl

/-- What is left of the message comes with the padding. -/
theorem messageBlocks_absorb_last {bytes : List UInt8} (h : bytes.length < rate) (a : State) :
    (Keccak.sponge rate_le).absorb a (Keccak.messageBlocks rate bytes) =
      permute (addAt 0 bytes (addAt (rate - 1) [0x80] (addAt bytes.length [delim] a))) := by
  rw [Keccak.messageBlocks_of_lt h, addAt_last h, permute_eq]
  rfl

/-- The loop over the whole blocks leaves less than a block. -/
theorem wp_foldP_xorin {input : List UInt8} {passes : Nat} {pointer : Option Nat} {len : Nat}
    (h : Readable input pointer len) (hpasses : len ≤ passes) {a : State} {s : σ}
    {post : Option Nat × Nat → State × σ → Prop} {early : Stop → State × σ → Prop}
    (hpost : ∀ pointer' len' a', len' < rate → Readable input pointer' len' →
      (Keccak.sponge rate_le).absorb a
          (Keccak.messageBlocks rate (bytesAt input pointer len)) =
        (Keccak.sponge rate_le).absorb a'
          (Keccak.messageBlocks rate (bytesAt input pointer' len')) →
      post (pointer', len') (a', s)) :
    (foldP (xorin input) passes pointer len).wp safe (a, s) post early := by
  have hrate : rate = 136 := rfl
  induction passes generalizing pointer len a with
  | zero =>
      have hlt : ¬ rate ≤ len := by omega
      rw [foldP, if_neg hlt, Command.wp_pure]
      exact hpost pointer len a (by omega) h rfl
  | succ passes ih =>
      rw [foldP]
      split
      next hle =>
        obtain ⟨hblock, hrest, htake, hdrop⟩ := readable_drop h hle
        rw [Command.wp_bind]
        apply wp_xorin rate_le hblock
        rw [Command.wp_bind, Command.wp_modify]
        apply ih hrest (by omega)
        intro pointer' len' a' hlt hread habsorb
        apply hpost pointer' len' a' hlt hread
        rw [messageBlocks_absorb (by rw [h.length]; exact hle), ← htake, ← hdrop]
        exact habsorb
      next hlt =>
        rw [Command.wp_pure]
        exact hpost pointer len a (by omega) h rfl

theorem wp_absorb {input : List UInt8} {pointer : Option Nat} {len : Nat}
    (h : Readable input pointer len) {a : State} {s : σ}
    {post : Unit → State × σ → Prop} {early : Stop → State × σ → Prop}
    (hpost : post () ((Keccak.sponge rate_le).absorb a
      (Keccak.messageBlocks rate (bytesAt input pointer len)), s)) :
    (absorb input pointer len).wp safe (a, s) post early := by
  have hrate : rate = 136 := rfl
  rw [absorb, Command.wp_bind]
  apply wp_foldP_xorin h (Nat.le_refl len)
  intro pointer' len' a' hlt hread habsorb
  dsimp only
  rw [Command.wp_bind]
  apply wp_xorAt (by omega)
  rw [Command.wp_bind]
  apply wp_xorAt (by omega)
  rw [Command.wp_bind]
  apply wp_xorin (by omega) hread
  rw [Command.wp_modify]
  rw [habsorb, messageBlocks_absorb_last (by rw [hread.length]; exact hlt), hread.length] at hpost
  exact hpost

/-! ## The output -/

/-- The first bytes of a state. -/
theorem wp_setoutLoop {start left i : Nat} {a : State} {buffer : List UInt8} (hi : i + left ≤ 200)
    (h : start + i + left ≤ buffer.length)
    {post : Unit → State × List UInt8 → Prop} {early : Stop → State × List UInt8 → Prop}
    (hpost : post () (a, overwrite buffer (start + i) (slice a.toList i left))) :
    (setoutLoop (some start) left i).wp safe (a, buffer) post early := by
  induction left generalizing i buffer with
  | zero =>
      rw [slice, List.take_zero, overwrite_nil] at hpost
      rw [setoutLoop, Command.wp_pure]
      exact hpost
  | succ left ih =>
      have hlt : i < 200 := by omega
      have hroom : start + i < buffer.length := by omega
      rw [slice_succ (by rw [Vector.length_toList]; exact hlt)] at hpost
      rw [setoutLoop]
      simp only [Command.wp_bind, Command.wp_read, hlt, dif_pos, Option.map_some, storeOut,
        Command.wp_zoom]
      apply wp_storeAt hroom
      rw [set_eq_overwrite hroom]
      have hwritten : start + i + [a.get ⟨i, hlt⟩].length ≤ buffer.length := hroom
      apply ih (by omega) (by rw [overwrite_length hwritten]; omega)
      have hmerge := overwrite_overwrite hwritten (slice a.toList (i + 1) left)
      have hnext : start + (i + 1) = start + i + [a.get ⟨i, hlt⟩].length := rfl
      rw [hnext, hmerge]
      exact hpost

/-- Where the output is written from `start` on, the bytes that a state shows. -/
theorem slice_toList_eq {len : Nat} (h : len ≤ rate) (a : State) :
    slice a.toList 0 len = (Keccak.sponge rate_le).output Keccak.shown rate a len := by
  have hrate : rate = 136 := rfl
  rw [Sponge.output_of_lt _ _ h, slice, List.drop_zero]
  refine List.ext_getElem (by simp; omega) fun k hk _ => ?_
  have hlt : k < 200 := by
    rw [List.length_take] at hk
    omega
  simp [Keccak.shown, hlt]

theorem wp_setout {start len : Nat} {a : State} {buffer : List UInt8} (hlen : len ≤ rate)
    (h : start + len ≤ buffer.length)
    {post : Unit → State × List UInt8 → Prop} {early : Stop → State × List UInt8 → Prop}
    (hpost : post () (a, overwrite buffer start
      ((Keccak.sponge rate_le).output Keccak.shown rate a len))) :
    (setout (some start) len).wp safe (a, buffer) post early := by
  rw [← slice_toList_eq hlen] at hpost
  exact wp_setoutLoop (by have := rate_le; omega) (by omega) hpost

/-- What has been written, and what is left to write. -/
theorem wp_foldP_setout {passes start len : Nat} (hpasses : len ≤ passes) {a : State}
    {buffer : List UInt8} (h : start + len ≤ buffer.length)
    {post : Option Nat × Nat → State × List UInt8 → Prop}
    {early : Stop → State × List UInt8 → Prop}
    (hpost : ∀ start' len' a' buffer', len' < rate → start' + len' ≤ buffer'.length →
      overwrite buffer start ((Keccak.sponge rate_le).output Keccak.shown rate a len) =
        overwrite buffer' start' ((Keccak.sponge rate_le).output Keccak.shown rate a' len') →
      post (some start', len') (a', buffer')) :
    (foldP setout passes (some start) len).wp safe (a, buffer) post early := by
  have hrate : rate = 136 := rfl
  induction passes generalizing start len a buffer with
  | zero =>
      have hlt : ¬ rate ≤ len := by omega
      rw [foldP, if_neg hlt, Command.wp_pure]
      exact hpost start len a buffer (by omega) h rfl
  | succ passes ih =>
      rw [foldP]
      split
      next hle =>
        have hblock : ((Keccak.sponge rate_le).output Keccak.shown rate a rate).length = rate :=
          Sponge.output_length ..
        have hroom : start + ((Keccak.sponge rate_le).output Keccak.shown rate a rate).length ≤
            buffer.length := by omega
        rw [Command.wp_bind]
        apply wp_setout (Nat.le_refl rate) (by omega)
        have hrest : start + rate + (len - rate) ≤ (overwrite buffer start
            ((Keccak.sponge rate_le).output Keccak.shown rate a rate)).length := by
          rw [overwrite_length hroom]
          omega
        rw [Command.wp_bind, Command.wp_modify]
        apply ih (by omega) hrest
        intro start' len' a' buffer' hlt hfit hwritten
        apply hpost start' len' a' buffer' hlt hfit
        have hmerge := overwrite_overwrite hroom
          ((Keccak.sponge rate_le).output Keccak.shown rate (permute a) (len - rate))
        have hnext : (Keccak.sponge rate_le).permute a = permute a := (permute_eq a).symm
        rw [hblock] at hmerge
        rw [Sponge.output_of_le _ _ rate_pos hle,
          ← Sponge.output_of_lt _ _ (Nat.le_refl rate), hnext, ← hmerge]
        exact hwritten
      next hlt =>
        rw [Command.wp_pure]
        exact hpost start len a buffer (by omega) h rfl

theorem wp_squeeze {start len : Nat} {a : State} {buffer : List UInt8}
    (h : start + len ≤ buffer.length)
    {post : Unit → State × List UInt8 → Prop} {early : Stop → State × List UInt8 → Prop}
    (hpost : ∀ a', post () (a', overwrite buffer start
      ((Keccak.sponge rate_le).output Keccak.shown rate a len))) :
    (squeeze (some start) len).wp safe (a, buffer) post early := by
  rw [squeeze, Command.wp_bind]
  apply wp_foldP_setout (Nat.le_refl len) h
  intro start' len' a' buffer' hlt hfit hwritten
  apply wp_setout (by omega) hfit
  rw [← hwritten]
  exact hpost a'

/-- The digest of the input is written to the output. -/
theorem wp_keccakHash {input : List UInt8} {pointer : Option Nat} {len start outLen : Nat}
    (h : Readable input pointer len) {buffer : List UInt8}
    (hroom : start + outLen ≤ buffer.length) {post : HashCode → List UInt8 → Prop}
    {early : Stop → List UInt8 → Prop}
    (hpost : post .ok (overwrite buffer start
      (Keccak.digest rate_le (bytesAt input pointer len) outLen))) :
    (keccakHash input pointer len (some start) outLen).wp safe buffer post early := by
  have hvalid : ¬ (some start = none ∨ (pointer = none ∧ len ≠ 0)) := by
    rintro (hnone | ⟨rfl, hne⟩)
    · cases hnone
    · rcases h with rfl | ⟨start, hsome, _⟩
      · exact hne rfl
      · cases hsome
  rw [keccakHash, if_neg hvalid, Command.wp_scope, Command.wp_bind]
  apply wp_absorb h
  rw [Command.wp_bind]
  apply wp_squeeze hroom
  intro a'
  rw [Command.wp_bind, Command.wp_modify, Command.wp_pure]
  exact hpost

theorem keccakHash_outcome {input : List UInt8} {pointer : Option Nat} {len start outLen : Nat}
    (h : Readable input pointer len) {buffer : List UInt8}
    (hroom : start + outLen ≤ buffer.length) :
    (keccakHash input pointer len (some start) outLen).outcome buffer =
      .done .ok (overwrite buffer start
        (Keccak.digest rate_le (bytesAt input pointer len) outLen)) := by
  have hrun : (keccakHash input pointer len (some start) outLen).wp (fun _ => True) buffer
      (fun code after => code = .ok ∧ after = overwrite buffer start
        (Keccak.digest rate_le (bytesAt input pointer len) outLen)) (fun _ _ => False) :=
    wp_keccakHash h hroom ⟨rfl, rfl⟩
  obtain ⟨_, _, hend, rfl, rfl⟩ := hrun.exists_done
  exact hend

end Runs

/-- A call whose pointers have behind them what the lengths say writes the digest of
its input, of any length, and nothing else. Null pointers are refused, an empty input
apart. -/
theorem keccakHash_digest (input buffer : List UInt8) (pointer outPointer : Option Nat)
    (len outLen : Nat) :
    (outPointer = none ∨ (pointer = none ∧ len ≠ 0) →
      (keccakHash input pointer len outPointer outLen).outcome buffer =
        .done .invalidCryptoSettings buffer) ∧
    ∀ start, outPointer = some start → Readable input pointer len →
      start + outLen ≤ buffer.length →
      (keccakHash input pointer len outPointer outLen).outcome buffer =
        .done .ok (overwrite buffer start
          (Keccak.digest rate_le (bytesAt input pointer len) outLen)) := by
  constructor
  · intro hnull
    rw [keccakHash, if_pos hnull, Command.outcome_pure]
  · rintro start rfl hread hroom
    exact keccakHash_outcome hread hroom

theorem keccakHash_digest_hello :
    (keccakHash (ascii "hello!") none 6 (some 0) 32).outcome (List.replicate 32 0) =
      .done .invalidCryptoSettings (List.replicate 32 0) ∧
    (keccakHash (ascii "hello!") (some 0) 6 (some 0) 32).outcome (List.replicate 32 0) =
      .done .ok (overwrite (List.replicate 32 0) 0
        (Keccak.digest rate_le (bytesAt (ascii "hello!") (some 0) 6) 32)) :=
  ⟨(keccakHash_digest (ascii "hello!") (List.replicate 32 0) none (some 0) 6 32).1
      (.inr ⟨rfl, by decide⟩),
    (keccakHash_digest (ascii "hello!") (List.replicate 32 0) (some 0) (some 0) 6 32).2 0 rfl
      (.inr ⟨0, rfl, by decide⟩) (by decide)⟩

set_option maxRecDepth 4096 in
example : (keccakHash (ascii "hello!") (some 0) 6 (some 0) 32).outcome (List.replicate 32 0) =
    .done .ok [0x96, 0xb8, 0xd4, 0x42, 0xf4, 0xc0, 0x9a, 0x08, 0xd2, 0x66, 0xbf, 0x37, 0xb1, 0x82,
      0x19, 0x46, 0x5c, 0xfb, 0x34, 0x1c, 0x1b, 0x3a, 0xb9, 0x79, 0x2a, 0x61, 0x03, 0xa9, 0x35,
      0x83, 0xfd, 0xf7] := by decide +kernel

/-- Two different inputs leave different states, unless on their way they come to
states that differ in the first 136 bytes only, or one of them, of another number of
blocks, comes back to the state of zeros. -/
theorem absorb_separates {σ : Type} (input input' : List UInt8) (pointer pointer' : Option Nat)
    (len len' : Nat) (h : Readable input pointer len) (h' : Readable input' pointer' len')
    (hne : bytesAt input pointer len ≠ bytesAt input' pointer' len') (s : σ) :
    ∃ a a', (absorb input pointer len).outcome (Vector.replicate 200 0, s) = .done () (a, s) ∧
      (absorb input' pointer' len').outcome (Vector.replicate 200 0, s) = .done () (a', s) ∧
      (a ≠ a' ∨
        (Keccak.sponge rate_le).Meets (Vector.replicate 200 0)
          (Keccak.messageBlocks rate (bytesAt input pointer len))
          (Keccak.messageBlocks rate (bytesAt input' pointer' len')) ∨
        len / rate ≠ len' / rate ∧
          ((Keccak.sponge rate_le).Returns (Vector.replicate 200 0)
            (Keccak.messageBlocks rate (bytesAt input pointer len)) ∨
          (Keccak.sponge rate_le).Returns (Vector.replicate 200 0)
            (Keccak.messageBlocks rate (bytesAt input' pointer' len')))) := by
  have hrun : ∀ {input : List UInt8} {pointer : Option Nat} {len : Nat},
      Readable input pointer len →
      (absorb input pointer len).outcome (Vector.replicate 200 0, s) =
        .done () (Keccak.absorbed rate_le (bytesAt input pointer len), s) := by
    intro input pointer len hread
    have hwp : (absorb input pointer len).wp (fun _ => True) (Vector.replicate 200 0, s)
        (fun _ t => t = (Keccak.absorbed rate_le (bytesAt input pointer len), s))
        (fun _ _ => False) := wp_absorb hread rfl
    obtain ⟨_, _, hend, rfl⟩ := hwp.exists_done
    exact hend
  refine ⟨_, _, hrun h, hrun h', ?_⟩
  by_cases hsame : Keccak.absorbed rate_le (bytesAt input pointer len) =
      Keccak.absorbed rate_le (bytesAt input' pointer' len')
  · have hblocks := fun heq => hne (Keccak.messageBlocks_injective rate_pos heq)
    rcases Sponge.meets_of_absorb_eq hblocks hsame with hmeets | ⟨hcount, hreturns⟩
    · exact .inr (.inl hmeets)
    · refine .inr (.inr ⟨fun heq => hcount ?_, hreturns⟩)
      simp only [Keccak.messageBlocks, Keccak.blocks_length, h.length, h'.length, heq]
  · exact .inl hsame

theorem absorb_separates_example : ∃ a a' : State,
    (absorb (ascii "a") (some 0) 1).outcome (Vector.replicate 200 0, ()) = .done () (a, ()) ∧
    (absorb (ascii "b") (some 0) 1).outcome (Vector.replicate 200 0, ()) = .done () (a', ()) ∧
    (a ≠ a' ∨
      (Keccak.sponge rate_le).Meets (Vector.replicate 200 0)
        (Keccak.messageBlocks rate (bytesAt (ascii "a") (some 0) 1))
        (Keccak.messageBlocks rate (bytesAt (ascii "b") (some 0) 1)) ∨
      1 / rate ≠ 1 / rate ∧
        ((Keccak.sponge rate_le).Returns (Vector.replicate 200 0)
          (Keccak.messageBlocks rate (bytesAt (ascii "a") (some 0) 1)) ∨
        (Keccak.sponge rate_le).Returns (Vector.replicate 200 0)
          (Keccak.messageBlocks rate (bytesAt (ascii "b") (some 0) 1)))) :=
  absorb_separates (ascii "a") (ascii "b") (some 0) (some 0) 1 1 (.inr ⟨0, rfl, by decide⟩)
    (.inr ⟨0, rfl, by decide⟩) (by decide) ()

end LedgerMatrix.KeccakTiny
