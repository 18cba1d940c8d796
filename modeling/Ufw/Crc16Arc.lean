/-
  File:      Ufw/Crc16Arc.lean
  Subject:   CRC-16-ARC (crc-16-arc.c): the checksum of octets and of 16-bit words in memory.

  * `ufwCrc16Arc` -- octet by octet, through the table;
  * `ufwCrc16ArcU16` -- word by word, in the order in which the host lays out a word;
  * `ufwCrc16ArcU16_eq` -- **the checksum of words is that of their octets in memory**, so a
    checksum over words means the same on every host.
-/
import Ufw.BinaryFormat

namespace Ufw

open Base

/-- `crc16_table`: CRC-16-ARC, with the polynomial 0x8005. -/
def crc16Table : Array (BitVec 16) := #[
    0x0000, 0xc0c1, 0xc181, 0x0140, 0xc301, 0x03c0, 0x0280, 0xc241, 0xc601, 0x06c0,
    0x0780, 0xc741, 0x0500, 0xc5c1, 0xc481, 0x0440, 0xcc01, 0x0cc0, 0x0d80, 0xcd41,
    0x0f00, 0xcfc1, 0xce81, 0x0e40, 0x0a00, 0xcac1, 0xcb81, 0x0b40, 0xc901, 0x09c0,
    0x0880, 0xc841, 0xd801, 0x18c0, 0x1980, 0xd941, 0x1b00, 0xdbc1, 0xda81, 0x1a40,
    0x1e00, 0xdec1, 0xdf81, 0x1f40, 0xdd01, 0x1dc0, 0x1c80, 0xdc41, 0x1400, 0xd4c1,
    0xd581, 0x1540, 0xd701, 0x17c0, 0x1680, 0xd641, 0xd201, 0x12c0, 0x1380, 0xd341,
    0x1100, 0xd1c1, 0xd081, 0x1040, 0xf001, 0x30c0, 0x3180, 0xf141, 0x3300, 0xf3c1,
    0xf281, 0x3240, 0x3600, 0xf6c1, 0xf781, 0x3740, 0xf501, 0x35c0, 0x3480, 0xf441,
    0x3c00, 0xfcc1, 0xfd81, 0x3d40, 0xff01, 0x3fc0, 0x3e80, 0xfe41, 0xfa01, 0x3ac0,
    0x3b80, 0xfb41, 0x3900, 0xf9c1, 0xf881, 0x3840, 0x2800, 0xe8c1, 0xe981, 0x2940,
    0xeb01, 0x2bc0, 0x2a80, 0xea41, 0xee01, 0x2ec0, 0x2f80, 0xef41, 0x2d00, 0xedc1,
    0xec81, 0x2c40, 0xe401, 0x24c0, 0x2580, 0xe541, 0x2700, 0xe7c1, 0xe681, 0x2640,
    0x2200, 0xe2c1, 0xe381, 0x2340, 0xe101, 0x21c0, 0x2080, 0xe041, 0xa001, 0x60c0,
    0x6180, 0xa141, 0x6300, 0xa3c1, 0xa281, 0x6240, 0x6600, 0xa6c1, 0xa781, 0x6740,
    0xa501, 0x65c0, 0x6480, 0xa441, 0x6c00, 0xacc1, 0xad81, 0x6d40, 0xaf01, 0x6fc0,
    0x6e80, 0xae41, 0xaa01, 0x6ac0, 0x6b80, 0xab41, 0x6900, 0xa9c1, 0xa881, 0x6840,
    0x7800, 0xb8c1, 0xb981, 0x7940, 0xbb01, 0x7bc0, 0x7a80, 0xba41, 0xbe01, 0x7ec0,
    0x7f80, 0xbf41, 0x7d00, 0xbdc1, 0xbc81, 0x7c40, 0xb401, 0x74c0, 0x7580, 0xb541,
    0x7700, 0xb7c1, 0xb681, 0x7640, 0x7200, 0xb2c1, 0xb381, 0x7340, 0xb101, 0x71c0,
    0x7080, 0xb041, 0x5000, 0x90c1, 0x9181, 0x5140, 0x9301, 0x53c0, 0x5280, 0x9241,
    0x9601, 0x56c0, 0x5780, 0x9741, 0x5500, 0x95c1, 0x9481, 0x5440, 0x9c01, 0x5cc0,
    0x5d80, 0x9d41, 0x5f00, 0x9fc1, 0x9e81, 0x5e40, 0x5a00, 0x9ac1, 0x9b81, 0x5b40,
    0x9901, 0x59c0, 0x5880, 0x9841, 0x8801, 0x48c0, 0x4980, 0x8941, 0x4b00, 0x8bc1,
    0x8a81, 0x4a40, 0x4e00, 0x8ec1, 0x8f81, 0x4f40, 0x8d01, 0x4dc0, 0x4c80, 0x8c41,
    0x4400, 0x84c1, 0x8581, 0x4540, 0x8701, 0x47c0, 0x4680, 0x8641, 0x8201, 0x42c0,
    0x4380, 0x8341, 0x4100, 0x81c1, 0x8081, 0x4040]

/-- `crc16_octet` -/
def crc16Octet (crc : BitVec 16) (data : Octet) : BitVec 16 :=
  (crc >>> 8) ^^^ crc16Table.getD ((crc ^^^ data.setWidth 16) &&& 0xff#16).toNat 0

/-- `CRC16_ARC_INITIAL` -/
def crc16ArcInitial : BitVec 16 := 0

/-- `ufw_crc16_arc` -/
def ufwCrc16Arc (crc : BitVec 16) : List Octet → BitVec 16
  | [] => crc
  | src :: rest => ufwCrc16Arc (crc16Octet crc src) rest

/-- `ufw_buffer_crc16_arc` -/
def ufwBufferCrc16Arc (buffer : List Octet) : BitVec 16 := ufwCrc16Arc crc16ArcInitial buffer

/-- `ufw_crc16_arc_u16`: the octets of each word in the order of the host. -/
def ufwCrc16ArcU16 (h : Host) (crc : BitVec 16) : List (BitVec 16) → BitVec 16
  | [] => crc
  | w :: buffer =>
    let high := ((w >>> 8) &&& 0xff#16).setWidth 8
    let low := (w &&& 0xff#16).setWidth 8
    let crc :=
      if h.bigEndian then crc16Octet (crc16Octet crc high) low
      else crc16Octet (crc16Octet crc low) high
    ufwCrc16ArcU16 h crc buffer

/-- `ufw_buffer_crc16_arc_u16` -/
def ufwBufferCrc16ArcU16 (h : Host) (buffer : List (BitVec 16)) : BitVec 16 :=
  ufwCrc16ArcU16 h crc16ArcInitial buffer

theorem ufwCrc16Arc_append (crc : BitVec 16) (a b : List Octet) :
    ufwCrc16Arc crc (a ++ b) = ufwCrc16Arc (ufwCrc16Arc crc a) b := by
  induction a generalizing crc with
  | nil => rfl
  | cons o os ih => exact ih (crc16Octet crc o)

/-- The two octets of a word, as `ufw_crc16_arc_u16` takes them apart. -/
theorem toOctets_two (w : BitVec 16) :
    toOctets 2 w = [(w &&& 0xff#16).setWidth 8, ((w >>> 8) &&& 0xff#16).setWidth 8] := by
  have h1 : BitVec.ofNat 8 w.toNat = (w &&& 0xff#16).setWidth 8 := by
    rw [BitVec.ofNat_toNat]
    apply BitVec.eq_of_getLsbD_eq
    intro i hi
    interval_cases i <;> simp
  have h2 : BitVec.ofNat 8 (w.toNat / 256) = ((w >>> 8) &&& 0xff#16).setWidth 8 := by
    rw [show w.toNat / 256 = (w >>> 8).toNat by
      rw [BitVec.toNat_ushiftRight, Nat.shiftRight_eq_div_pow], BitVec.ofNat_toNat]
    apply BitVec.eq_of_getLsbD_eq
    intro i hi
    interval_cases i <;> simp
  simp only [toOctets, leOctets, h1, h2]

/-- **The checksum of words is that of their octets in memory.** -/
theorem ufwCrc16ArcU16_eq (h : Host) (crc : BitVec 16) (ws : List (BitVec 16)) :
    ufwCrc16ArcU16 h crc ws = ufwCrc16Arc crc (wordOctets h ws) := by
  induction ws generalizing crc with
  | nil => rfl
  | cons w ws ih =>
    rw [wordOctets_cons, ufwCrc16Arc_append, ← ih, ufwCrc16ArcU16, bfSetN, toOctets_two]
    cases h.bigEndian <;> rfl

/-- The checksum over memory that is read as words. -/
theorem ufwCrc16ArcU16_octetWords (h : Host) (crc : BitVec 16) (l : List Octet)
    (hl : l.length % 2 = 0) : ufwCrc16ArcU16 h crc (octetWords h l) = ufwCrc16Arc crc l := by
  rw [ufwCrc16ArcU16_eq, wordOctets_octetWords h l hl]

/-! ## One octet

A checksum tells two messages apart that differ in one octet. -/

/-- The index of the table's word with the high octet `high`. The table is linear, and so is this:
an index for each bit. -/
def crc16Inverse (high : BitVec 16) : Nat :=
  [0x03, 0x06, 0x0f, 0x1e, 0x3f, 0x7e, 0xff, 0xfe].zipIdx.foldl
    (fun index (x, bit) => if high.getLsbD bit then index ^^^ x else index) 0

/-- A word of the table is known by its high octet. -/
theorem crc16Inverse_map :
    (crc16Table.toList.map fun t : BitVec 16 => crc16Inverse (t >>> 8)) = List.range 256 := by
  decide +kernel

theorem crc16Inverse_table {i : Nat} (hi : i < 256) :
    crc16Inverse (crc16Table.getD i 0 >>> 8) = i := by
  have hget := congrArg (fun l : List Nat => l[i]?) crc16Inverse_map
  simp only [List.getElem?_map, List.getElem?_range hi, Array.getElem?_toList] at hget
  obtain ⟨t, ht, hinv⟩ := Option.map_eq_some_iff.mp hget
  rw [Array.getD_eq_getD_getElem?, ht]
  exact hinv

theorem crc16Table_inj {i j : Nat} (hi : i < 256) (hj : j < 256)
    (he : crc16Table.getD i 0 >>> 8 = crc16Table.getD j 0 >>> 8) : i = j := by
  rw [← crc16Inverse_table hi, he, crc16Inverse_table hj]

/-- The index `crc16_octet` looks up. -/
theorem crc16Index_lt (x : BitVec 16) : (x &&& 0xff#16).toNat < 256 := by
  rw [BitVec.toNat_and]
  exact lt_of_le_of_lt Nat.and_le_right (by decide)

/-- **A step is injective**, in the checksum so far and in the octet. -/
theorem crc16Octet_inj {crc crc' : BitVec 16} {a b : Octet}
    (he : crc16Octet crc a = crc16Octet crc' b) :
    crc >>> 8 = crc' >>> 8 ∧
      (crc ^^^ a.setWidth 16) &&& 0xff#16 = (crc' ^^^ b.setWidth 16) &&& 0xff#16 := by
  have hshift : ∀ x : BitVec 16, x >>> 8 >>> 8 = 0 := fun x => by
    rw [← BitVec.shiftRight_add]
    exact BitVec.ushiftRight_eq_zero (by decide)
  have hhigh := congrArg (fun x : BitVec 16 => x >>> 8) he
  simp only [crc16Octet, BitVec.ushiftRight_xor_distrib, hshift, BitVec.ofNat_eq_ofNat,
    BitVec.zero_xor] at hhigh
  have hindex := crc16Table_inj (crc16Index_lt _) (crc16Index_lt _) hhigh
  refine ⟨?_, BitVec.eq_of_toNat_eq hindex⟩
  unfold crc16Octet at he
  rw [hindex] at he
  exact (BitVec.xor_left_inj _).mp he

theorem crc16Octet_inj_crc {crc crc' : BitVec 16} {a : Octet}
    (he : crc16Octet crc a = crc16Octet crc' a) : crc = crc' := by
  obtain ⟨hhigh, hlow⟩ := crc16Octet_inj he
  apply BitVec.eq_of_getLsbD_eq
  intro i hi
  by_cases h8 : i < 8
  · have hbit := congrArg (fun x : BitVec 16 => x.getLsbD i) hlow
    simp only [BitVec.getLsbD_and, BitVec.getLsbD_xor] at hbit
    have hmask : (0xff#16).getLsbD i = true := by interval_cases i <;> rfl
    rwa [hmask, Bool.and_true, Bool.and_true, Bool.xor_left_inj] at hbit
  · have hbit := congrArg (fun x : BitVec 16 => x.getLsbD (i - 8)) hhigh
    simp only [BitVec.getLsbD_ushiftRight] at hbit
    rwa [show 8 + (i - 8) = i by omega] at hbit

theorem crc16Octet_inj_octet {crc : BitVec 16} {a b : Octet}
    (he : crc16Octet crc a = crc16Octet crc b) : a = b := by
  obtain ⟨-, hlow⟩ := crc16Octet_inj he
  apply BitVec.eq_of_getLsbD_eq
  intro i hi
  have hbit := congrArg (fun x : BitVec 16 => x.getLsbD i) hlow
  simp only [BitVec.getLsbD_and, BitVec.getLsbD_xor, BitVec.getLsbD_setWidth] at hbit
  have hmask : (0xff#16).getLsbD i = true := by interval_cases i <;> rfl
  rw [hmask, Bool.and_true, Bool.and_true, Bool.xor_right_inj] at hbit
  have h16 : decide (i < 16) = true := decide_eq_true (by omega)
  rwa [h16, Bool.true_and, Bool.true_and] at hbit

/-- Octets that follow keep two checksums apart. -/
theorem ufwCrc16Arc_inj {crc crc' : BitVec 16} {l : List Octet}
    (he : ufwCrc16Arc crc l = ufwCrc16Arc crc' l) : crc = crc' := by
  induction l generalizing crc crc' with
  | nil => exact he
  | cons o l ih => exact crc16Octet_inj_crc (ih he)

/-- **A checksum tells apart what differs in one octet.** -/
theorem ufwCrc16Arc_ne {o o' : Octet} (hne : o ≠ o') (crc : BitVec 16) (a b : List Octet) :
    ufwCrc16Arc crc (a ++ o :: b) ≠ ufwCrc16Arc crc (a ++ o' :: b) := by
  intro he
  rw [ufwCrc16Arc_append, ufwCrc16Arc_append] at he
  exact hne (crc16Octet_inj_octet (ufwCrc16Arc_inj (l := b) he))

example : ufwBufferCrc16Arc [0x31, 0x32, 0x33, 0x34, 0x35, 0x36, 0x37, 0x38, 0x39] = 0xbb3d#16 := by
  decide +kernel

end Ufw
