import LiveLayout.Datum.Basic
/-!
# Heads of MessagePack data

Every piece of MessagePack data starts with a head: a marker byte, and for
most markers a number of fixed width behind it. A head is a whole scalar or
announces how much follows. This file writes and reads heads; a writer
always takes the shortest form, a reader takes all of them.
-/

namespace LiveLayout

-- Powers of naturals are the ones of the core library, whatever else is imported.
attribute [local instance (high)] instPowNat

namespace MessagePack

/-- What a head says. An extension's length leaves out its type byte. -/
inductive Head where
  | scalar (d : Datum)
  | text (length : Nat)
  | bytes (length : Nat)
  | list (count : Nat)
  | record (count : Nat)
  | extension (length : Nat)

/-! ## Numbers of fixed width -/

/-- The lowest `width` bytes of a number, highest first. -/
def bigEndian : Nat → Nat → List UInt8
  | 0, _ => []
  | width + 1, n => UInt8.ofNat (n / 256 ^ width) :: bigEndian width n

/-- The number that bytes spell, highest first. -/
def ofBigEndian (bytes : List UInt8) : Nat :=
  bytes.foldl (fun n b => n * 256 + b.toNat) 0

/-- The first bytes and the rest, if there are that many. -/
def split? (count : Nat) (bytes : List UInt8) : Option (List UInt8 × List UInt8) :=
  let taken := bytes.take count
  if taken.length = count then some (taken, bytes.drop count) else none

/-- The number in the first `width` bytes, and the rest. -/
def readNumber? (width : Nat) (bytes : List UInt8) : Option (Nat × List UInt8) :=
  (split? width bytes).map fun parts => (ofBigEndian parts.1, parts.2)

/-- A number of `width` bytes read with a sign. -/
def signedValue (width n : Nat) : Int :=
  if 2 * n < 256 ^ width then n else n - (256 ^ width : Nat)

/-- The lowest `width` bytes of an integer, with a sign. -/
def signedBigEndian (width : Nat) (i : Int) : List UInt8 :=
  bigEndian width (i % (256 ^ width : Nat)).toNat

@[simp] theorem length_bigEndian (width n : Nat) : (bigEndian width n).length = width := by
  induction width generalizing n with
  | zero => rfl
  | succ width ih => rw [bigEndian, List.length_cons, ih]

/-- The first bytes are found again in front of any others. -/
theorem split?_append (taken rest : List UInt8) :
    split? taken.length (taken ++ rest) = some (taken, rest) := by
  simp only [split?, List.take_left, List.drop_left, if_pos]

/-- **Bytes read back**: what is written in so many bytes is read as the
number without its higher places. -/
theorem ofBigEndian_bigEndian (width n : Nat) :
    ofBigEndian (bigEndian width n) = n % 256 ^ width := by
  -- The digits read so far move up by the places that are still to come.
  have behind (width n before : Nat) :
      (bigEndian width n).foldl (fun n b => n * 256 + b.toNat) before =
        before * 256 ^ width + n % 256 ^ width := by
    induction width generalizing before with
    | zero => rw [bigEndian, List.foldl_nil, Nat.pow_zero, Nat.mul_one, Nat.mod_one, Nat.add_zero]
    | succ width ih =>
      have hbyte : (UInt8.ofNat (n / 256 ^ width)).toNat = n / 256 ^ width % 256 :=
        UInt8.toNat_ofNat'
      rw [bigEndian, List.foldl_cons, ih, hbyte, Nat.pow_succ, Nat.mod_mul, Nat.add_mul,
        Nat.mul_assoc, Nat.mul_comm 256, Nat.mul_comm (n / 256 ^ width % 256)]
      omega
  rw [ofBigEndian, behind, Nat.zero_mul, Nat.zero_add]

/-- A number that fits is read back in front of any other bytes. -/
theorem readNumber?_bigEndian {width n : Nat} (h : n < 256 ^ width) (rest : List UInt8) :
    readNumber? width (bigEndian width n ++ rest) = some (n, rest) := by
  have hsplit := split?_append (bigEndian width n) rest
  rw [length_bigEndian] at hsplit
  rw [readNumber?, hsplit, Option.map_some, ofBigEndian_bigEndian, Nat.mod_eq_of_lt h]

/-! ## Writing -/

/-- A number without a sign, in the fewest bytes. -/
def writeNatural (n : Nat) : List UInt8 :=
  if n < 0x80 then [UInt8.ofNat n]
  else if n < 0x100 then 0xCC :: bigEndian 1 n
  else if n < 0x10000 then 0xCD :: bigEndian 2 n
  else if n < 0x100000000 then 0xCE :: bigEndian 4 n
  else 0xCF :: bigEndian 8 n

/-- An integer in the fewest bytes; from zero upwards it needs no sign. -/
def writeInteger (i : Int) : List UInt8 :=
  if 0 ≤ i then writeNatural i.toNat
  else if -0x20 ≤ i then signedBigEndian 1 i
  else if -0x80 ≤ i then 0xD0 :: signedBigEndian 1 i
  else if -0x8000 ≤ i then 0xD1 :: signedBigEndian 2 i
  else if -0x80000000 ≤ i then 0xD2 :: signedBigEndian 4 i
  else 0xD3 :: signedBigEndian 8 i

/-- The head of a text. -/
def writeTextHead (length : Nat) : List UInt8 :=
  if length < 32 then [UInt8.ofNat (0xA0 + length)]
  else if length < 0x100 then 0xD9 :: bigEndian 1 length
  else if length < 0x10000 then 0xDA :: bigEndian 2 length
  else 0xDB :: bigEndian 4 length

/-- The head of a byte string. -/
def writeBytesHead (length : Nat) : List UInt8 :=
  if length < 0x100 then 0xC4 :: bigEndian 1 length
  else if length < 0x10000 then 0xC5 :: bigEndian 2 length
  else 0xC6 :: bigEndian 4 length

/-- The head of a list. -/
def writeListHead (count : Nat) : List UInt8 :=
  if count < 16 then [UInt8.ofNat (0x90 + count)]
  else if count < 0x10000 then 0xDC :: bigEndian 2 count
  else 0xDD :: bigEndian 4 count

/-- The head of a record. -/
def writeRecordHead (count : Nat) : List UInt8 :=
  if count < 16 then [UInt8.ofNat (0x80 + count)]
  else if count < 0x10000 then 0xDE :: bigEndian 2 count
  else 0xDF :: bigEndian 4 count

/-! ## Reading -/

/-- A head whose marker is followed by a number of `width` bytes. -/
def readSized? (head : Nat → Head) (width : Nat) (bytes : List UInt8) :
    Option (Head × List UInt8) :=
  (readNumber? width bytes).map fun read => (head read.1, read.2)

/-- An integer of `width` bytes without a sign. -/
def naturalHead (n : Nat) : Head := .scalar (.natural (UInt64.ofNat n))

/-- An integer of `width` bytes with a sign. -/
def integerHead (width n : Nat) : Head := .scalar (.integer (Int64.ofInt (signedValue width n)))

/-- A number of the 32-bit format. -/
def singleHead (n : Nat) : Head := .scalar (.single (.ofBits n))

/-- A number of the 64-bit format. -/
def doubleHead (n : Nat) : Head := .scalar (.double (.ofBits n))

/-- **The head that starts with a marker**, and the rest behind it. One
marker is reserved and starts nothing. -/
def readMarker? (marker : Nat) (rest : List UInt8) : Option (Head × List UInt8) :=
  if marker < 0x80 then some (naturalHead marker, rest)
  else if marker < 0x90 then some (.record (marker - 0x80), rest)
  else if marker < 0xA0 then some (.list (marker - 0x90), rest)
  else if marker < 0xC0 then some (.text (marker - 0xA0), rest)
  else if marker = 0xC0 then some (.scalar .null, rest)
  else if marker = 0xC1 then none
  else if marker = 0xC2 then some (.scalar (.bool false), rest)
  else if marker = 0xC3 then some (.scalar (.bool true), rest)
  else if marker = 0xC4 then readSized? .bytes 1 rest
  else if marker = 0xC5 then readSized? .bytes 2 rest
  else if marker = 0xC6 then readSized? .bytes 4 rest
  else if marker = 0xC7 then readSized? .extension 1 rest
  else if marker = 0xC8 then readSized? .extension 2 rest
  else if marker = 0xC9 then readSized? .extension 4 rest
  else if marker = 0xCA then readSized? singleHead 4 rest
  else if marker = 0xCB then readSized? doubleHead 8 rest
  else if marker = 0xCC then readSized? naturalHead 1 rest
  else if marker = 0xCD then readSized? naturalHead 2 rest
  else if marker = 0xCE then readSized? naturalHead 4 rest
  else if marker = 0xCF then readSized? naturalHead 8 rest
  else if marker = 0xD0 then readSized? (integerHead 1) 1 rest
  else if marker = 0xD1 then readSized? (integerHead 2) 2 rest
  else if marker = 0xD2 then readSized? (integerHead 4) 4 rest
  else if marker = 0xD3 then readSized? (integerHead 8) 8 rest
  else if marker < 0xD9 then some (.extension (2 ^ (marker - 0xD4)), rest)
  else if marker = 0xD9 then readSized? .text 1 rest
  else if marker = 0xDA then readSized? .text 2 rest
  else if marker = 0xDB then readSized? .text 4 rest
  else if marker = 0xDC then readSized? .list 2 rest
  else if marker = 0xDD then readSized? .list 4 rest
  else if marker = 0xDE then readSized? .record 2 rest
  else if marker = 0xDF then readSized? .record 4 rest
  else some (integerHead 1 marker, rest)

/-- The head a byte string starts with, and the rest. -/
def readHead? : List UInt8 → Option (Head × List UInt8)
  | [] => none
  | marker :: rest => readMarker? marker.toNat rest

end MessagePack

end LiveLayout
