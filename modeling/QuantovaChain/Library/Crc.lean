import QuantovaChain.Library.Word

/-!
# Cyclic redundancy checks

The checksum of 32 bits with the reflected polynomial, a byte at a time. What programs keep as a
table of 256 words is here the function that fills it. A string is sealed by its checksum in four
bytes at its end, and an intact string is one that ends in the checksum of what is before it.
-/

namespace Crc

def polynomial : UInt32 := 0xEDB88320

def shift (crc : UInt32) : UInt32 :=
  if crc &&& 1 = 1 then (crc >>> 1) ^^^ polynomial else crc >>> 1

/-- The word of the table at an index. -/
def entry (index : UInt32) : UInt32 := Nat.repeat shift 8 index

def update (crc : UInt32) (byte : UInt8) : UInt32 :=
  (crc >>> 8) ^^^ entry ((crc ^^^ byte.toUInt32) &&& 0xFF)

def checksum (bytes : List UInt8) : UInt32 :=
  bytes.foldl update 0xFFFFFFFF ^^^ 0xFFFFFFFF

/-- The checksum as it is stored. -/
def stored (bytes : List UInt8) : List UInt8 := Word.leDigits (checksum bytes).toNat 4

@[simp] theorem length_stored (bytes : List UInt8) : (stored bytes).length = 4 := by
  simp [stored, Word.leDigits]

/-- The number that four stored bytes spell is the checksum only for the stored checksum. -/
theorem natOfLe_eq_checksum {found bytes : List UInt8} (sized : found.length = 4) :
    Word.natOfLe found = (checksum bytes).toNat ↔ found = stored bytes := by
  constructor
  · intro same
    rw [stored, ← same, ← sized, Word.leDigits_natOfLe]
  · rintro rfl
    have small := (checksum bytes).toNat_lt
    rw [stored, Word.natOfLe_leDigits, Nat.mod_eq_of_lt (by omega)]

/-- Bytes and their checksum. -/
def sealed (bytes : List UInt8) : List UInt8 := bytes ++ stored bytes

@[simp] theorem length_sealed (bytes : List UInt8) : (sealed bytes).length = bytes.length + 4 := by
  simp [sealed]

/-- The last four bytes are the checksum of those before them. -/
def Intact (bytes : List UInt8) : Prop :=
  4 ≤ bytes.length ∧ Word.natOfLe (bytes.drop (bytes.length - 4)) =
    (checksum (bytes.take (bytes.length - 4))).toNat

instance (bytes : List UInt8) : Decidable (Intact bytes) :=
  inferInstanceAs (Decidable (_ ∧ _))

theorem intact_sealed (bytes : List UInt8) : Intact (sealed bytes) := by
  refine ⟨by simp, ?_⟩
  have size : (sealed bytes).length - 4 = bytes.length := by simp
  rw [size, natOfLe_eq_checksum (by simp [sealed])]
  simp [sealed]

end Crc
