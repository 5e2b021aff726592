import Fiudp.Core.ByteLayout

/-!
# Newtypes of the wire-format fields

`SessionId`, `ShardIndex`, `DataShardCount` and `ParityShardCount` wrap a `u16`,
`RendezvousSecs` wraps a `u32`; each is serialised big-endian.
-/

namespace Fiudp

open ByteLayout

/-- `u16::to_be_bytes`. -/
def u16ToBeBytes (value : UInt16) : Bytes 2 :=
  ⟨beBytes 2 value.toNat, length_beBytes 2 _⟩

/-- `u16::from_be_bytes`, on the bytes of any slice. -/
def u16FromBeBytes (bytes : List UInt8) : UInt16 :=
  UInt16.ofNat (beValue bytes)

/-- `u32::to_be_bytes`. -/
def u32ToBeBytes (value : UInt32) : Bytes 4 :=
  ⟨beBytes 4 value.toNat, length_beBytes 4 _⟩

def u32FromBeBytes (bytes : List UInt8) : UInt32 :=
  UInt32.ofNat (beValue bytes)

/-- What fits a `u16` is cast to it without loss. -/
theorem toNat_ofNat_of_le {value : ℕ} (hvalue : value ≤ 65535) :
    (UInt16.ofNat value).toNat = value :=
  UInt16.toNat_ofNat_of_lt' (Nat.lt_succ_of_le hvalue)

@[simp]
theorem u16FromBeBytes_toBeBytes (value : UInt16) :
    u16FromBeBytes (u16ToBeBytes value).toList = value := by
  have hvalue : beValue (beBytes 2 value.toNat) = value.toNat :=
    beValue_beBytes value.toNat_lt
  change UInt16.ofNat (beValue (beBytes 2 value.toNat)) = value
  rw [hvalue, UInt16.ofNat_toNat]

@[simp]
theorem u32FromBeBytes_toBeBytes (value : UInt32) :
    u32FromBeBytes (u32ToBeBytes value).toList = value := by
  have hvalue : beValue (beBytes 4 value.toNat) = value.toNat :=
    beValue_beBytes value.toNat_lt
  change UInt32.ofNat (beValue (beBytes 4 value.toNat)) = value
  rw [hvalue, UInt32.ofNat_toNat]

/-- Two bytes are the encoding of the number they denote. -/
theorem u16ToBeBytes_fromBeBytes {bytes : List UInt8} (hlength : bytes.length = 2) :
    (u16ToBeBytes (u16FromBeBytes bytes)).toList = bytes := by
  have hlt := beValue_lt bytes
  rw [hlength] at hlt
  change beBytes 2 (UInt16.ofNat (beValue bytes)).toNat = bytes
  rw [UInt16.toNat_ofNat', Nat.mod_eq_of_lt (by simpa using hlt), ← hlength, beBytes_beValue]

theorem u32ToBeBytes_fromBeBytes {bytes : List UInt8} (hlength : bytes.length = 4) :
    (u32ToBeBytes (u32FromBeBytes bytes)).toList = bytes := by
  have hlt := beValue_lt bytes
  rw [hlength] at hlt
  change beBytes 4 (UInt32.ofNat (beValue bytes)).toNat = bytes
  rw [UInt32.toNat_ofNat', Nat.mod_eq_of_lt (by simpa using hlt), ← hlength, beBytes_beValue]

theorem u16ToBeBytes_injective : Function.Injective u16ToBeBytes := by
  intro left right heq
  rw [← u16FromBeBytes_toBeBytes left, heq, u16FromBeBytes_toBeBytes]

structure SessionId where
  raw : UInt16
  deriving DecidableEq

structure ShardIndex where
  raw : UInt16
  deriving DecidableEq

structure DataShardCount where
  raw : UInt16
  deriving DecidableEq

structure ParityShardCount where
  raw : UInt16
  deriving DecidableEq

structure RendezvousSecs where
  raw : UInt32
  deriving DecidableEq

def SessionId.toBeBytes (id : SessionId) : Bytes 2 := u16ToBeBytes id.raw

def ShardIndex.toBeBytes (index : ShardIndex) : Bytes 2 := u16ToBeBytes index.raw

def DataShardCount.toBeBytes (count : DataShardCount) : Bytes 2 := u16ToBeBytes count.raw

def ParityShardCount.toBeBytes (count : ParityShardCount) : Bytes 2 :=
  u16ToBeBytes count.raw

def RendezvousSecs.toBeBytes (secs : RendezvousSecs) : Bytes 4 := u32ToBeBytes secs.raw

end Fiudp
