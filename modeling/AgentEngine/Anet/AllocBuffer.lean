import AgentEngine.Lib.Bytes
import AgentEngine.Lib.Float32

/-!
`DataBuffer` (`databuffer.h`) with its allocation: how it grows, compacts and shrinks.

Pointers are offsets from `_pstart`. Whatever reads or writes outside the allocation has no result,
and neither has a loop that does not end. `bufsize` of `expand` is a `float`, and what it is compared
with and converted to is an `int`, which has no value from 2 ^ 31 on.
-/

namespace AgentEngine.Anet

open Lib Lib.Float32

/-- A `DataBuffer`: the memory from `_pstart` to `_pend`, which is `none` if they are null, and the
offsets `_pdata - _pstart` and `_pfree - _pstart`. -/
structure AllocBuffer where
  block : Option (List UInt8) := none
  pdata : Nat := 0
  pfree : Nat := 0
deriving DecidableEq

namespace AllocBuffer

def INITIAL_BUFFER_SIZE : Nat := 1024

/-! ### Memory -/

variable (b : AllocBuffer) (garbage : Nat → UInt8) (len : Nat)

/-- A new allocation, in which anything may stand. -/
def malloc (size : Nat) : List UInt8 := (List.range size).map garbage

def load (block : List UInt8) (at' len : Nat) : Option (List UInt8) :=
  if at' + len ≤ block.length then some ((block.drop at').take len) else none

def store (block : List UInt8) (at' : Nat) (bytes : List UInt8) : Option (List UInt8) :=
  if at' + bytes.length ≤ block.length then some (overwrite block at' bytes) else none

/-- `_pend - _pstart`. -/
def getSpaceUsed : Nat :=
  match b.block with
  | none => 0
  | some block => block.length

def getDataLen : Int := b.pfree - b.pdata

def getFreeLen : Int := b.getSpaceUsed - b.pfree

/-- `memcpy(dst, _pdata, len)`; nothing can be copied from a null pointer. -/
def loadData : Option (List UInt8) :=
  match b.block with
  | none => if len = 0 then some [] else none
  | some block => load block b.pdata len

/-- Store bytes at `_pfree` and move it past them. -/
def storeFree (bytes : List UInt8) : Option AllocBuffer := do
  let block ← match b.block with
    | none => if bytes = [] then some none else none
    | some block => (store block b.pfree bytes).map some
  return { b with block, pfree := b.pfree + bytes.length }

/-! ### expand -/

/-- `while (len < need) len <<= 1`. -/
def doubleLoop (need : Int) : Nat → Nat → Option Nat
  | 0, _ => none
  | fuel + 1, len =>
      if (len : Int) < need then
        if len * 2 < 2 ^ 31 then doubleLoop need fuel (len * 2) else none
      else some len

/-- `while (bufsize - dlen < need) bufsize *= 1.5`, in single precision. -/
def growLoop (dlen need : Int) : Nat → ℚ → Option ℚ
  | 0, _ => none
  | fuel + 1, bufsize =>
      if fl (bufsize - fl dlen) < fl need then growLoop dlen need fuel (fl (bufsize * (3 / 2)))
      else some bufsize

/-- The branches of `expand`. -/
inductive Plan where
  | keep
  | compact
  | allocate (size : Nat)
deriving DecidableEq

def plan (need : Int) : Option Plan :=
  match b.block with
  | none => (doubleLoop need (need.toNat + 1) INITIAL_BUFFER_SIZE).map .allocate
  | some _ =>
      if b.getFreeLen < need then
        let flen := b.getFreeLen + b.pdata
        let dlen := b.getDataLen
        if flen < need ∨ flen * 4 < 2 ^ 31 then
          if flen < need ∨ flen * 4 < dlen then do
            let bufsize ←
              growLoop dlen need (2 * (dlen + need).toNat + 1) (fl (b.getSpaceUsed * 2 : Nat))
            if bufsize < 2 ^ 31 then some (.allocate bufsize.floor.toNat) else none
          else some .compact
        else none
      else some .keep

def expand (need : Int) : Option AllocBuffer := do
  match ← b.plan need with
  | .keep => return b
  | .compact =>
      let data ← b.loadData b.getDataLen.toNat
      let block ← b.block
      let block ← store block 0 data
      return { block := some block, pdata := 0, pfree := b.getDataLen.toNat }
  | .allocate size =>
      let data ← b.loadData b.getDataLen.toNat
      let newbuf ← store (malloc garbage size) 0 data
      return { block := some newbuf, pdata := 0, pfree := b.getDataLen.toNat }

/-! ### Writing -/

def writeBytes (src : List UInt8) : Option AllocBuffer := do
  let b ← b.expand garbage src.length
  b.storeFree src

/-- `writeBytes` of a string, whose length is converted to an `int`; `memcpy` takes a negative one for
a huge number of bytes. -/
def writeString (src : List UInt8) : Option AllocBuffer :=
  let len := (BitVec.ofNat 32 src.length).toInt
  if len < 0 then none else b.writeBytes garbage (src.take len.toNat)

/-- `writeBytes` of strings, one after the other. -/
def writeStrings (srcs : List (List UInt8)) : Option AllocBuffer :=
  srcs.foldlM (writeString · garbage ·) b

/-- The bytes of an integer, most significant first. -/
def bigEndian (n : BitVec (8 * len)) : List UInt8 :=
  (List.range len).map fun i => UInt8.ofBitVec ((n >>> (8 * (len - 1 - i))).setWidth 8)

def writeInt8 (n : BitVec 8) : Option AllocBuffer :=
  b.writeBytes garbage (bigEndian 1 n)

def writeInt16 (n : BitVec 16) : Option AllocBuffer :=
  b.writeBytes garbage (bigEndian 2 n)

def writeInt32 (n : BitVec 32) : Option AllocBuffer :=
  b.writeBytes garbage (bigEndian 4 n)

def writeInt64 (n : BitVec 64) : Option AllocBuffer :=
  b.writeBytes garbage (bigEndian 8 n)

def ensureFree (len : Int) : Option AllocBuffer :=
  b.expand garbage len

/-- Bytes are placed at `getFree()`, and `pourData` takes them in. -/
def pourData (bytes : List UInt8) : Option AllocBuffer :=
  if b.getFreeLen ≥ bytes.length then b.storeFree bytes else none

def stripData : Option AllocBuffer :=
  if b.getDataLen ≥ len then some { b with pfree := b.pfree - len } else none

/-! ### Reading -/

def readBytes : Option (List UInt8 × AllocBuffer) := do
  let bytes ← b.loadData len
  return (bytes, { b with pdata := b.pdata + len })

/-- The integer that bytes denote: `n <<= 8; n |= _pdata[i]`. -/
def ofBigEndian (w : Nat) (bytes : List UInt8) : BitVec w :=
  bytes.foldl (fun n byte => n <<< 8 ||| byte.toBitVec.setWidth w) 0

def readInt (w : Nat) (b : AllocBuffer) (len : Nat) : Option (BitVec w × AllocBuffer) := do
  let (bytes, b) ← b.readBytes len
  return (ofBigEndian w bytes, b)

def readInt8 : Option (BitVec 8 × AllocBuffer) := b.readInt 8 1

def readInt16 : Option (BitVec 16 × AllocBuffer) := b.readInt 16 2

def readInt32 : Option (BitVec 32 × AllocBuffer) := b.readInt 32 4

def readInt64 : Option (BitVec 64 × AllocBuffer) := b.readInt 64 8

/-! ### Dropping bytes -/

def clear : AllocBuffer := { b with pdata := 0, pfree := 0 }

def drainData : AllocBuffer :=
  let b := { b with pdata := b.pdata + len }
  let b := if b.pdata > b.pfree then { b with pdata := b.pfree } else b
  if b.pdata = b.pfree then b.clear else b

/-- A store of bytes at `getData() + i`. -/
def poke (i : Nat) (bytes : List UInt8) : Option AllocBuffer :=
  match b.block with
  | none => if bytes = [] then some b else none
  | some block => (store block (b.pdata + i) bytes).map fun block => { b with block := some block }

def fillInt32 (i : Nat) (n : BitVec 32) : Option AllocBuffer := b.poke i (be32 n)

/-- The bytes from `getData() + i` on. -/
def peeks (i : Nat) : Option (List UInt8) := { b with pdata := b.pdata + i }.loadData len

def shrink : Option AllocBuffer :=
  match b.block with
  | none => some b
  | some block =>
      let dlen := b.getDataLen
      if dlen > 0 then do
        let data ← load block b.pdata dlen.toNat
        let newbuf ← store (malloc garbage dlen.toNat) 0 data
        return { block := some newbuf, pdata := 0, pfree := dlen.toNat }
      else some {}

end AllocBuffer

/-- The operations of a `DataBuffer`. -/
inductive BufferOp where
  | writeInt8 (n : BitVec 8)
  | writeInt16 (n : BitVec 16)
  | writeInt32 (n : BitVec 32)
  | writeInt64 (n : BitVec 64)
  | writeBytes (src : List UInt8)
  | ensureFree (len : Int)
  | pourData (bytes : List UInt8)
  | stripData (len : Nat)
  | readInt8
  | readInt16
  | readInt32
  | readInt64
  | readBytes (len : Nat)
  | drainData (len : Nat)
  | poke (i : Nat) (bytes : List UInt8)
  | clear
  | shrink

/-- What an operation returns. -/
inductive BufferValue where
  | none
  | int (w : Nat) (n : BitVec w)
  | bytes (bytes : List UInt8)

/-- An operation of the code; new memory holds `garbage`. -/
def BufferOp.step (garbage : Nat → UInt8) (b : AllocBuffer) :
    BufferOp → Option (BufferValue × AllocBuffer)
  | .writeInt8 n => (b.writeInt8 garbage n).map (.none, ·)
  | .writeInt16 n => (b.writeInt16 garbage n).map (.none, ·)
  | .writeInt32 n => (b.writeInt32 garbage n).map (.none, ·)
  | .writeInt64 n => (b.writeInt64 garbage n).map (.none, ·)
  | .writeBytes src => (b.writeBytes garbage src).map (.none, ·)
  | .ensureFree len => (b.ensureFree garbage len).map (.none, ·)
  | .pourData bytes => (b.pourData bytes).map (.none, ·)
  | .stripData len => (b.stripData len).map (.none, ·)
  | .readInt8 => b.readInt8.map fun (n, b) => (.int 8 n, b)
  | .readInt16 => b.readInt16.map fun (n, b) => (.int 16 n, b)
  | .readInt32 => b.readInt32.map fun (n, b) => (.int 32 n, b)
  | .readInt64 => b.readInt64.map fun (n, b) => (.int 64 n, b)
  | .readBytes len => (b.readBytes len).map fun (bytes, b) => (.bytes bytes, b)
  | .drainData len => some (.none, b.drainData len)
  | .poke i bytes => (b.poke i bytes).map (.none, ·)
  | .clear => some (.none, b.clear)
  | .shrink => (b.shrink garbage).map (.none, ·)

end AgentEngine.Anet
