import QuantovaChain.Library.Word
import QuantovaChain.State.Trie

/-!
# Byte encodings

Numbers are written little endian at a fixed width, and byte strings after their length. A reader
takes values off the front of its input in the same order.
-/

namespace QuantovaChain.Codec

open State (Bytes)

def putU8 (value : UInt8) : Bytes := [value]

def putU16 (value : Word 16) : Bytes := value.leBytes 2

def putU32 (value : U32) : Bytes := value.leBytes 4

def putU64 (value : U64) : Bytes := value.leBytes 8

def putU128 (value : U128) : Bytes := value.leBytes 16

/-- Bytes after their length. -/
def putBytes (bytes : Bytes) : Bytes := putU64 (Word.clamp 64 bytes.length) ++ bytes

/-- Elements after their number. -/
def putList {α : Type} (put : α → Bytes) (elements : List α) : Bytes :=
  putU64 (Word.clamp 64 elements.length) ++ elements.flatMap put

/-- A reader takes bytes off the front, or fails. -/
abbrev Reader := StateT Bytes Option

namespace Reader

def take (count : Nat) : Reader Bytes := fun bytes =>
  if count ≤ bytes.length then some (bytes.take count, bytes.drop count) else none

def word (w count : Nat) : Reader (Word w) := do
  let bytes ← take count
  Word.ofLe? w bytes

def u8 : Reader UInt8 := do
  let bytes ← take 1
  bytes.head?

def u16 : Reader (Word 16) := word 16 2

def u32 : Reader U32 := word 32 4

def u64 : Reader U64 := word 64 8

def u128 : Reader U128 := word 128 16

def array (count : Nat) : Reader (Vector UInt8 count) := do
  let bytes ← take count
  if sized : bytes.length = count then return ⟨bytes.toArray, sized⟩ else failure

/-- Bytes after their length. -/
def bytes : Reader Bytes := do
  let length ← u64
  take length.val

/-- An array after its length. -/
def sizedArray (count : Nat) : Reader (Vector UInt8 count) := do
  let found ← bytes
  if sized : found.length = count then return ⟨found.toArray, sized⟩ else failure

/-- A number of elements, one after another. -/
def many {α : Type} (element : Reader α) : Nat → Reader (List α)
  | 0 => return []
  | count + 1 => do
    let first ← element
    let rest ← many element count
    return first :: rest

/-- Elements after their number. -/
def list {α : Type} (element : Reader α) : Reader (List α) := do
  let count ← u64
  many element count.val

/-- Reads all of the bytes. -/
def whole {α : Type} (reader : Reader α) (bytes : Bytes) : Option α :=
  match reader bytes with
  | some (value, []) => some value
  | _ => none

end Reader

end QuantovaChain.Codec
