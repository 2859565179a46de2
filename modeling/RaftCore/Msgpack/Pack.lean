import RaftCore.Machinery.BigEndian

/-!
# Msgpack/Pack — the bytes a packer writes

`v1/pack.hpp` and the size check of `v1/adaptor/check_container_size.hpp`, for what the records of
this repository are made of: 64-bit unsigned and 32-bit signed integers, booleans, strings and
arrays.  Each is written in the shortest form that holds it, every number with its highest byte
first.
-/

namespace RaftCore

namespace Msgpack

open BigEndian

/-- What the library throws. -/
inductive Error where
  | containerSizeOverflow
  | arraySizeOverflow
  | mapSizeOverflow
  | strSizeOverflow
  | binSizeOverflow
  | extSizeOverflow
  | depthSizeOverflow
  | parseError
  | insufficientBytes
  | typeError
  deriving DecidableEq, Repr

/-- `checked_get_container_size`. -/
def checkedGetContainerSize (size : ℕ) : Except Error UInt32 :=
  if 0xffffffff < size then .error .containerSizeOverflow else .ok (UInt32.ofNat size)

/-- `pack_imp_uint64`. -/
def packImpUint64 (d : UInt64) : List UInt8 :=
  if d.toNat < 2 ^ 8 then
    if d.toNat < 2 ^ 7 then [d.toUInt8] else [0xcc, d.toUInt8]
  else if d.toNat < 2 ^ 16 then 0xcd :: store 2 d.toNat
  else if d.toNat < 2 ^ 32 then 0xce :: store 4 d.toNat
  else 0xcf :: store 8 d.toNat

/-- `pack_imp_int32`; a cast to fewer bits keeps the lowest. -/
def packImpInt32 (d : Int32) : List UInt8 :=
  let bits := d.toUInt32.toNat
  if d.toInt < -2 ^ 5 then
    if d.toInt < -2 ^ 15 then 0xd2 :: store 4 bits
    else if d.toInt < -2 ^ 7 then 0xd1 :: store 2 bits
    else 0xd0 :: store 1 bits
  else if d.toInt < 2 ^ 7 then store 1 bits
  else if d.toInt < 2 ^ 8 then 0xcc :: store 1 bits
  else if d.toInt < 2 ^ 16 then 0xcd :: store 2 bits
  else 0xce :: store 4 bits

def packTrue : List UInt8 := [0xc3]

def packFalse : List UInt8 := [0xc2]

def packArray (n : UInt32) : List UInt8 :=
  if n.toNat < 16 then [(0x90 ||| n).toUInt8]
  else if n.toNat < 65536 then 0xdc :: store 2 n.toNat
  else 0xdd :: store 4 n.toNat

def packStr (l : UInt32) : List UInt8 :=
  if l.toNat < 32 then [(0xa0 ||| l).toUInt8]
  else if l.toNat < 256 then 0xd9 :: store 1 l.toNat
  else if l.toNat < 65536 then 0xda :: store 2 l.toNat
  else 0xdb :: store 4 l.toNat

theorem checkedGetContainerSize_of_lt {size : ℕ} (h : size < 2 ^ 32) :
    ∃ n, checkedGetContainerSize size = .ok n ∧ n.toNat = size := by
  refine ⟨UInt32.ofNat size, if_neg (by omega), ?_⟩
  rw [UInt32.toNat_ofNat']
  omega

end Msgpack

end RaftCore
