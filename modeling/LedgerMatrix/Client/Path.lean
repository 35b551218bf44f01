import LedgerMatrix.Client.LedgerJs

/-! # Paths

The client sends a path of four to six components, four bytes each. The device
takes five words of what it gets and looks neither at how many there are nor at
what comes after them.
-/

namespace LedgerMatrix

open Imperative

/-! ## Words -/

theorem componentBytes_drop (path : List UInt32) (i : Nat) :
    (componentBytes path).drop (4 * i) = componentBytes (path.drop i) := by
  induction i generalizing path with
  | zero => rfl
  | succ i ih =>
      cases path with
      | nil => rfl
      | cons component path =>
          have hlength : (LittleEndian.bytes 4 component.toNat).length = 4 :=
            LittleEndian.bytes_length ..
          rw [componentBytes_cons, List.drop_succ_cons, ← ih, Nat.mul_succ, Nat.add_comm,
            ← List.drop_drop, List.drop_left' hlength]

theorem word32_bytes (component : UInt32) (rest : List UInt8) :
    word32 (LittleEndian.bytes 4 component.toNat ++ rest) = component := by
  have hlength : (LittleEndian.bytes 4 component.toNat).length = 4 := LittleEndian.bytes_length ..
  have hlt : component.toNat < 256 ^ 4 := component.toNat_lt
  rw [word32, List.take_left' hlength, LittleEndian.value_bytes, Nat.mod_eq_of_lt hlt,
    UInt32.ofNat_toNat]

theorem word32_take {bytes : List UInt8} {count : Nat} (h : 4 ≤ count) :
    word32 (bytes.take count) = word32 bytes := by
  rw [word32, List.take_take, Nat.min_eq_left h, word32]

/-- The device reads the first five components. -/
theorem ofBytes_componentBytes {path : List UInt32} (h : hdpathLenDefault ≤ path.length) :
    (HdPath.ofBytes ((componentBytes path).take (4 * hdpathLenDefault))).toList =
      path.take hdpathLenDefault := by
  have hlength : (path.take hdpathLenDefault).length = hdpathLenDefault :=
    List.length_take_of_le h
  refine List.ext_getElem ((Vector.length_toList ..).trans hlength.symm) fun i hi hi' => ?_
  have hlt : i < hdpathLenDefault := hlength ▸ hi'
  have hin : i < path.length := hlt.trans_le h
  have hword : (HdPath.ofBytes ((componentBytes path).take (4 * hdpathLenDefault)))[i] =
      word32 (((componentBytes path).take (4 * hdpathLenDefault)).drop (4 * i)) :=
    Vector.getElem_ofFn hlt
  rw [Vector.getElem_toList, hword, List.drop_take, word32_take (by omega), componentBytes_drop,
    List.drop_eq_getElem_cons hin, componentBytes_cons, word32_bytes, List.getElem_take]

section Agreement

variable {b : Buffering} {js : LedgerJs} {path path' : List UInt32} {bytes bytes' : List UInt8}

/-- The device takes the path that a command carries, as it leaves it in `hdPath`. -/
def Takes (d : Device b) (bytes : List UInt8) (hdPath : HdPath) : Prop :=
  ∃ (a : Apdu) (d' : Device b), (a.Reaches insGetAddr ∨ a.Chunk p1Init) ∧ a.data = bytes ∧
    (extractHDPath a offsetData).outcome d = .done () d' ∧ d'.hdPath = hdPath

/-- The path starts with the purpose and the coin type of the application. -/
def HasPrefix (path : List UInt32) : Prop :=
  path[0]? = some hdpath0Default ∧ path[1]? = some hdpath1Default

theorem mainnet_iff_hasPrefix (hdPath : HdPath) : hdPath.Mainnet ↔ HasPrefix hdPath.toList := by
  simp [HdPath.Mainnet, HasPrefix, Vector.get]

theorem hasPrefix_take (path : List UInt32) :
    HasPrefix (path.take hdpathLenDefault) ↔ HasPrefix path := by
  simp [HasPrefix]

/-- What the device takes of a path is its first five components, when these are
there and start as they have to. -/
theorem takes_iff (h : js.serializePath path = some bytes) (d : Device b) {hdPath : HdPath} :
    Takes d bytes hdPath ↔ hdpathLenDefault ≤ path.length ∧ HasPrefix path ∧
      hdPath.toList = path.take hdpathLenDefault := by
  obtain ⟨-, rfl⟩ := serializePath_eq_some h
  have hcount : 4 * hdpathLenDefault ≤ (componentBytes path).length ↔
      hdpathLenDefault ≤ path.length := by
    rw [componentBytes_length]
    omega
  constructor
  · rintro ⟨a, d', hkind, hdata, hend, rfl⟩
    have hrx : offsetData ≤ a.rx := hkind.elim (fun haddr => haddr.rx_ge) fun hinit => hinit.rx_ge
    have hread : (extractHDPath a offsetData).wp (fun _ => True) d
        (fun _ d' => 4 * hdpathLenDefault ≤ a.data.length ∧ a.path.Mainnet ∧ d'.hdPath = a.path)
        (fun _ _ => True) :=
      wp_extractHDPath hrx (fun _ => trivial) (fun _ _ => trivial)
        fun hlong hmain => ⟨hlong, hmain, rfl⟩
    obtain ⟨hlong, hmain, hpath⟩ := hread.of_done hend
    rw [hdata] at hlong
    have hfive := hcount.mp hlong
    have hwords := ofBytes_componentBytes hfive
    rw [Apdu.path, hdata] at hpath hmain
    rw [mainnet_iff_hasPrefix, hwords, hasPrefix_take] at hmain
    exact ⟨hfive, hmain, hpath ▸ hwords⟩
  · -- an address request that carries the path makes the device take it
    rintro ⟨hfive, hprefix, hwords⟩
    have hshort : (componentBytes path).length < 256 :=
      (serializePath_length_le h).trans_lt (by decide)
    have haddr : (Apdu.command insGetAddr 0 (componentBytes path) true hshort).Reaches insGetAddr :=
      Apdu.command_reaches_iff.mpr rfl
    have hdata := @Apdu.command_data insGetAddr 0 (componentBytes path) true hshort
    generalize Apdu.command insGetAddr 0 (componentBytes path) true hshort = a at haddr hdata
    have hpath : a.path = hdPath := by
      refine Vector.toList_inj.mp ?_
      rw [Apdu.path, hdata, ofBytes_componentBytes hfive, hwords]
    have hlong : 4 * hdpathLenDefault ≤ a.data.length := hdata ▸ hcount.mpr hfive
    have hmain : a.path.Mainnet := by
      rw [hpath, mainnet_iff_hasPrefix, hwords, hasPrefix_take]
      exact hprefix
    have hread : (extractHDPath a offsetData).wp (fun _ => True) d
        (fun _ d' => d'.hdPath = a.path) (fun _ _ => False) :=
      wp_extractHDPath haddr.rx_ge (fun hless => absurd hlong (Nat.not_le.mpr hless))
        (fun _ hnot => hnot hmain) fun _ _ => rfl
    obtain ⟨_, d', hend, hd'⟩ := hread.exists_done
    exact ⟨a, d', .inl haddr, hdata, hend, hd'.trans hpath⟩

/-- The host and the device agree on the path: whatever the device takes is the
whole path. -/
def Agrees (d : Device b) (path : List UInt32) (bytes : List UInt8) : Prop :=
  ∀ hdPath, Takes d bytes hdPath → hdPath.toList = path

/-- They agree exactly when the path has at most five components, or is not one of
the application and therefore refused. Two paths lead to the same key exactly when
their first five components are the same. -/
theorem path_agrees_iff (h : js.serializePath path = some bytes)
    (h' : js.serializePath path' = some bytes') (d d' : Device b) :
    (Agrees d path bytes ↔ path.length ≤ hdpathLenDefault ∨ ¬ HasPrefix path) ∧
    ∀ hdPath hdPath', Takes d bytes hdPath → Takes d' bytes' hdPath' →
      (hdPath = hdPath' ↔ path.take hdpathLenDefault = path'.take hdpathLenDefault) := by
  refine ⟨⟨fun hagrees => ?_, ?_⟩, ?_⟩
  · by_contra hnot
    obtain ⟨hlong, hprefix⟩ := not_or.mp hnot
    have hfive : hdpathLenDefault ≤ path.length := Nat.le_of_not_le hlong
    have hwords := ofBytes_componentBytes hfive
    have hwhole := hagrees _ ((takes_iff h d).mpr ⟨hfive, not_not.mp hprefix, hwords⟩)
    have hlength := congrArg List.length hwhole
    rw [Vector.length_toList] at hlength
    exact hlong hlength.ge
  · rintro hcondition hdPath htakes
    obtain ⟨hfive, hprefix, hwords⟩ := (takes_iff h d).mp htakes
    rcases hcondition with hshort | hother
    · rw [hwords, List.take_of_length_le hshort]
    · exact absurd hprefix hother
  · rintro hdPath hdPath' htakes htakes'
    rw [← ((takes_iff h d).mp htakes).2.2, ← ((takes_iff h' d').mp htakes').2.2, Vector.toList_inj]

end Agreement

/-- The path m/44'/318'/0'/0/0 with one more component. -/
def longPath (last : UInt32) : List UInt32 :=
  [hdpath0Default, hdpath1Default, 0x80000000, 0, 0, last]

def shortPath : List UInt32 := [hdpath0Default, hdpath1Default, 0x80000000, 0, 0]

/-- They agree on the path of five components, and not when there is a sixth. -/
theorem path_agrees_iff_example :
    Agrees (Device.initial emptyBuffer) shortPath (componentBytes shortPath) ∧
      ¬ Agrees (Device.initial emptyBuffer) (longPath 7) (componentBytes (longPath 7)) := by
  have hshort : LedgerJs.reference.serializePath shortPath = some (componentBytes shortPath) := rfl
  have hlong : LedgerJs.reference.serializePath (longPath 7) =
      some (componentBytes (longPath 7)) := rfl
  constructor
  · exact (path_agrees_iff hshort hlong _ (Device.initial emptyBuffer)).1.mpr (.inl (by decide))
  · rw [(path_agrees_iff hlong hshort _ (Device.initial emptyBuffer)).1]
    rintro (hlength | hprefix)
    · exact absurd hlength (by decide)
    · exact hprefix ⟨rfl, rfl⟩

/-- The sixth component is dropped, and paths that differ in it alone lead to the
same key. -/
theorem longPath_dropped : longPath 7 ≠ longPath 8 ∧ ∃ hdPath : HdPath,
    Takes (Device.initial emptyBuffer) (componentBytes (longPath 7)) hdPath ∧
    Takes (Device.initial emptyBuffer) (componentBytes (longPath 8)) hdPath ∧
    hdPath.toList = shortPath ∧ hdPath.toList ≠ longPath 7 := by
  have hwords : (HdPath.ofBytes (componentBytes shortPath)).toList = shortPath := by
    decide +kernel
  have htakes : ∀ last, Takes (Device.initial emptyBuffer) (componentBytes (longPath last))
      (HdPath.ofBytes (componentBytes shortPath)) := by
    intro last
    have hser : LedgerJs.reference.serializePath (longPath last) =
        some (componentBytes (longPath last)) := rfl
    have hfive : hdpathLenDefault ≤ (longPath last).length := Nat.le_of_lt (Nat.lt_succ_self 5)
    exact (takes_iff hser _).mpr ⟨hfive, ⟨rfl, rfl⟩, hwords⟩
  refine ⟨by decide, _, htakes 7, htakes 8, hwords, ?_⟩
  rw [hwords]
  decide

end LedgerMatrix
