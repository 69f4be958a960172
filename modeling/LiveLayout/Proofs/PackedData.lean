import LiveLayout.MessagePack.Reader
import LiveLayout.MessagePack.Writer
import Mathlib.Algebra.Group.Nat.Defs
/-!
# Packed data read back

What the writer writes, the reader reads, whatever bytes follow. A head in
its shortest form is found again at every width (`readHead?_writeNatural`
and the like); from there a datum is read back whole (`Portable.read`).
Two things are excepted. Lengths are written in four bytes at most, and an
integer from zero upwards is read as a natural number.
-/

namespace LiveLayout

-- Powers of naturals are the ones of the core library, whatever else is imported.
attribute [local instance (high)] instPowNat

/-- The bits of a number make the number. -/
theorem Binary.ofBits_toNat {f : Format} (x : Binary f) : ofBits x.bits.toNat = x := by
  unfold ofBits
  rw [BitVec.ofNat_toNat, BitVec.setWidth_eq]

namespace MessagePack

variable {n : Nat} {i : Int} {rest : List UInt8}

/-! ## Heads -/

theorem toNat_ofNat_of_lt (h : n < 0x100) : (UInt8.ofNat n).toNat = n := by
  rw [UInt8.toNat_ofNat']
  exact Nat.mod_eq_of_lt h

/-- A number of fixed width is read back behind its marker. -/
theorem readSized?_bigEndian (width : Nat) (head : Nat → Head) (h : n < 256 ^ width) :
    readSized? head width (bigEndian width n ++ rest) = some (head n, rest) := by
  unfold readSized?
  rw [readNumber?_bigEndian h]
  rfl

/-- A marker that is written as a number is read as the number. -/
theorem readHead?_ofNat (h : n < 0x100) :
    readHead? (UInt8.ofNat n :: rest) = readMarker? n rest := by
  rw [readHead?, toNat_ofNat_of_lt h]

/-- **A natural number is read back**, in whichever of its forms. -/
theorem readHead?_writeNatural (h : n < 0x10000000000000000) (rest : List UInt8) :
    readHead? (writeNatural n ++ rest) = some (naturalHead n, rest) := by
  unfold writeNatural
  split
  · rename_i hfix
    rw [List.cons_append, List.nil_append, readHead?_ofNat (Nat.lt_trans hfix (by decide)),
      readMarker?, if_pos hfix]
  · split
    · exact readSized?_bigEndian 1 naturalHead ‹_›
    · split
      · exact readSized?_bigEndian 2 naturalHead ‹_›
      · split
        · exact readSized?_bigEndian 4 naturalHead ‹_›
        · exact readSized?_bigEndian 8 naturalHead h

/-- An integer that fits a width with its sign is read back from it. -/
theorem signedValue_emod (width : Nat) (hlow : -(256 ^ width : Nat) ≤ 2 * i) (hneg : i < 0) :
    signedValue width (i % (256 ^ width : Nat)).toNat = i := by
  generalize hmodulus : 256 ^ width = modulus at *
  have hmod : i % (modulus : Int) = i + modulus := by
    rw [← Int.add_emod_right, Int.emod_eq_of_lt] <;> omega
  unfold signedValue
  rw [hmod, hmodulus, if_neg (by omega)]
  omega

theorem readSized?_signedBigEndian (width : Nat) (hlow : -(256 ^ width : Nat) ≤ 2 * i)
    (hneg : i < 0) :
    readSized? (integerHead width) width (signedBigEndian width i ++ rest) =
      some (.scalar (.integer (Int64.ofInt i)), rest) := by
  have hpos : (0 : Int) < (256 ^ width : Nat) := by omega
  have hlt := Int.emod_lt_of_pos i hpos
  unfold signedBigEndian
  rw [readSized?_bigEndian _ _ (by omega), integerHead, signedValue_emod width hlow hneg]

/-- The markers at the end of the table are the integers from -32 to -1. -/
theorem readMarker?_of_le (h : 0xE0 ≤ n) : readMarker? n rest = some (integerHead 1 n, rest) := by
  unfold readMarker?
  repeat rw [if_neg (by omega)]

/-- **A negative integer is read back**, in whichever of its forms. -/
theorem readHead?_writeInteger (hlow : -0x8000000000000000 ≤ i) (hneg : i < 0)
    (rest : List UInt8) :
    readHead? (writeInteger i ++ rest) = some (.scalar (.integer (Int64.ofInt i)), rest) := by
  unfold writeInteger
  rw [if_neg (by omega)]
  split
  · rename_i hfix
    have hmod : i % 256 = i + 256 := by
      rw [← Int.add_emod_right, Int.emod_eq_of_lt] <;> omega
    have hbyte : signedBigEndian 1 i = [UInt8.ofNat (i + 256).toNat] := by
      show [UInt8.ofNat ((i % 256).toNat / 1)] = _
      rw [Nat.div_one, hmod]
    have hvalue : signedValue 1 (i + 256).toNat = i := by
      rw [← hmod]
      exact signedValue_emod 1 (by omega) hneg
    rw [hbyte, List.cons_append, List.nil_append, readHead?_ofNat (by omega),
      readMarker?_of_le (by omega), integerHead, hvalue]
  · split
    · exact readSized?_signedBigEndian 1 (by omega) hneg
    · split
      · exact readSized?_signedBigEndian 2 (by omega) hneg
      · split
        · exact readSized?_signedBigEndian 4 (by omega) hneg
        · exact readSized?_signedBigEndian 8 (by omega) hneg

theorem readHead?_writeTextHead (h : n < 0x100000000) :
    readHead? (writeTextHead n ++ rest) = some (.text n, rest) := by
  unfold writeTextHead
  split
  · rw [List.cons_append, List.nil_append, readHead?_ofNat (by omega), readMarker?,
      if_neg (by omega), if_neg (by omega), if_neg (by omega), if_pos (by omega),
      Nat.add_sub_cancel_left]
  · split
    · exact readSized?_bigEndian 1 .text ‹_›
    · split
      · exact readSized?_bigEndian 2 .text ‹_›
      · exact readSized?_bigEndian 4 .text h

theorem readHead?_writeBytesHead (h : n < 0x100000000) :
    readHead? (writeBytesHead n ++ rest) = some (.bytes n, rest) := by
  unfold writeBytesHead
  split
  · exact readSized?_bigEndian 1 .bytes ‹_›
  · split
    · exact readSized?_bigEndian 2 .bytes ‹_›
    · exact readSized?_bigEndian 4 .bytes h

theorem readHead?_writeListHead (h : n < 0x100000000) :
    readHead? (writeListHead n ++ rest) = some (.list n, rest) := by
  unfold writeListHead
  split
  · rw [List.cons_append, List.nil_append, readHead?_ofNat (by omega), readMarker?,
      if_neg (by omega), if_neg (by omega), if_pos (by omega), Nat.add_sub_cancel_left]
  · split
    · exact readSized?_bigEndian 2 .list ‹_›
    · exact readSized?_bigEndian 4 .list h

theorem readHead?_writeRecordHead (h : n < 0x100000000) :
    readHead? (writeRecordHead n ++ rest) = some (.record n, rest) := by
  unfold writeRecordHead
  split
  · rw [List.cons_append, List.nil_append, readHead?_ofNat (by omega), readMarker?,
      if_neg (by omega), if_pos (by omega), Nat.add_sub_cancel_left]
  · split
    · exact readSized?_bigEndian 2 .record ‹_›
    · exact readSized?_bigEndian 4 .record h

/-! ## Sequences -/

variable {read? : List UInt8 → Option (Datum × List UInt8)}

/-- What is read item by item is read as a list. -/
theorem readMany?_packItems {items : List Datum}
    (h : ∀ d ∈ items, ∀ rest, read? (d.pack ++ rest) = some (d, rest)) (rest : List UInt8) :
    readMany? read? items.length (Datum.packItems items ++ rest) = some (items, rest) := by
  induction items with
  | nil => rfl
  | cons item items ih =>
    have hitem := h item List.mem_cons_self (Datum.packItems items ++ rest)
    have hitems := ih fun d hd => h d (List.mem_cons_of_mem _ hd)
    simp only [Datum.packItems, List.append_assoc, List.length_cons, readMany?, hitem, hitems,
      Option.map_some]

/-- And key by key, value by value, as a record. -/
theorem readPairs?_packMembers {members : List (Datum × Datum)}
    (hkey : ∀ m ∈ members, ∀ rest, read? (m.1.pack ++ rest) = some (m.1, rest))
    (hvalue : ∀ m ∈ members, ∀ rest, read? (m.2.pack ++ rest) = some (m.2, rest))
    (rest : List UInt8) :
    readPairs? read? members.length (Datum.packMembers members ++ rest) = some (members, rest) := by
  induction members with
  | nil => rfl
  | cons m members ih =>
    have hk := hkey m List.mem_cons_self (m.2.pack ++ (Datum.packMembers members ++ rest))
    have hv := hvalue m List.mem_cons_self (Datum.packMembers members ++ rest)
    have hmembers := ih (fun m hm => hkey m (List.mem_cons_of_mem _ hm))
      fun m hm => hvalue m (List.mem_cons_of_mem _ hm)
    simp only [Datum.packMembers, List.append_assoc, List.length_cons, readPairs?, hk, hv,
      hmembers, Option.map_some]

end MessagePack

/-! ## Data -/

namespace Datum

/-- **Data that packed bytes can carry**, nested at most so deep: every
length fits four bytes, and an integer is below zero. -/
inductive Portable : Nat → Datum → Prop
  | null {levels : Nat} : Portable levels .null
  | bool {levels : Nat} (b : Bool) : Portable levels (.bool b)
  | natural {levels : Nat} (n : UInt64) : Portable levels (.natural n)
  | integer {levels : Nat} {i : Int64} : i.toInt < 0 → Portable levels (.integer i)
  | single {levels : Nat} (x : Binary32) : Portable levels (.single x)
  | double {levels : Nat} (x : Binary64) : Portable levels (.double x)
  | text {levels : Nat} {s : String} : (spelling s).length < 2 ^ 32 → Portable levels (.text s)
  | bytes {levels : Nat} {b : List UInt8} : b.length < 2 ^ 32 → Portable levels (.bytes b)
  | list {levels : Nat} {items : List Datum} : items.length < 2 ^ 32 →
      (∀ d ∈ items, Portable levels d) → Portable (levels + 1) (.list items)
  | record {levels : Nat} {members : List (Datum × Datum)} : members.length < 2 ^ 32 →
      (∀ m ∈ members, Portable levels m.1) → (∀ m ∈ members, Portable levels m.2) →
      Portable (levels + 1) (.record members)

open MessagePack

/-- A head that is a whole scalar is the datum, at any depth. -/
theorem readWithin?_scalar {levels : Nat} {d : Datum} {bytes rest : List UInt8}
    (h : readHead? bytes = some (.scalar d, rest)) : readWithin? levels bytes = some (d, rest) := by
  unfold readWithin?
  rw [h]

/-- **Packed data read back.** The reader takes exactly the bytes of the
datum and leaves what follows. -/
theorem Portable.readWithin? {levels : Nat} {d : Datum} (h : Portable levels d)
    (rest : List UInt8) : readWithin? levels (d.pack ++ rest) = some (d, rest) := by
  induction h generalizing rest with
  | null => exact readWithin?_scalar rfl
  | bool b => cases b <;> exact readWithin?_scalar rfl
  | natural n =>
    have hhead := readHead?_writeNatural n.toNat_lt rest
    rw [naturalHead, UInt64.ofNat_toNat] at hhead
    exact readWithin?_scalar hhead
  | @integer _ i hneg =>
    have hhead := readHead?_writeInteger i.le_toInt hneg rest
    rw [Int64.ofInt_toInt] at hhead
    exact readWithin?_scalar hhead
  | single x =>
    have hhead : readHead? (Datum.pack (.single x) ++ rest) =
        some (singleHead x.bits.toNat, rest) :=
      readSized?_bigEndian 4 singleHead x.bits.isLt
    rw [singleHead, Binary.ofBits_toNat] at hhead
    exact readWithin?_scalar hhead
  | double x =>
    have hhead : readHead? (Datum.pack (.double x) ++ rest) =
        some (doubleHead x.bits.toNat, rest) :=
      readSized?_bigEndian 8 doubleHead x.bits.isLt
    rw [doubleHead, Binary.ofBits_toNat] at hhead
    exact readWithin?_scalar hhead
  | text hlen =>
    unfold MessagePack.readWithin?
    rw [pack, List.append_assoc, readHead?_writeTextHead hlen]
    simp only [split?_append, Option.map_some, textDatum, spelled?_spelling]
  | bytes hlen =>
    unfold MessagePack.readWithin?
    rw [pack, List.append_assoc, readHead?_writeBytesHead hlen]
    simp only [split?_append, Option.map_some]
  | list hlen _ ih =>
    unfold MessagePack.readWithin?
    rw [pack, List.append_assoc, readHead?_writeListHead hlen]
    simp only [readMany?_packItems ih, Option.map_some]
  | record hlen _ _ ihkey ihvalue =>
    unfold MessagePack.readWithin?
    rw [pack, List.append_assoc, readHead?_writeRecordHead hlen]
    simp only [readPairs?_packMembers ihkey ihvalue, Option.map_some]

/-- **A whole document** is read from the front of any bytes. -/
theorem Portable.read? {d : Datum} (h : Portable nestingLimit d) (rest : List UInt8) :
    MessagePack.read? (d.pack ++ rest) = some d := by
  unfold MessagePack.read?
  rw [h.readWithin? rest]
  rfl

end Datum

end LiveLayout
