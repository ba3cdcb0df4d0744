import MukhiDb.Foundation.Exec
import MukhiDb.Foundation.Bytes

/-!
Contract: one 4096-byte page and the bounds-checked reads and writes on it
(`pager.rs` `PAGE_SIZE`, `btree.rs` little-endian helpers).

Owns: the page type, whose size is part of the type; `u16`, `u32` and `i64`
accesses, which panic past the end of the page as slice indexing does; and what
a write leaves at the position written and at positions apart from it.

Does not own: what the bytes of a page mean.
-/

namespace MukhiDb.Model

open MukhiDb.Foundation

/-- `PAGE_SIZE`. -/
def pageSize : Nat := 4096

/-- `[u8; PAGE_SIZE]`. -/
structure Page where
  bytes : Bytes
  size : bytes.length = pageSize
deriving DecidableEq

namespace Page

@[ext] theorem ext {left right : Page} (same : left.bytes = right.bytes) : left = right := by
  cases left
  cases right
  congr

/-- `[0u8; PAGE_SIZE]`. -/
def zero : Page := ⟨List.replicate pageSize 0, List.length_replicate⟩

instance : Inhabited Page := ⟨zero⟩

/-- `page[offset]` at an offset that is known to be inside the page. -/
def byte (page : Page) (offset : Nat) : UInt8 := page.bytes.getD offset 0

/-- `&page[offset..offset + width]`. -/
def read (page : Page) (offset width : Nat) : Except Fault Bytes :=
  if offset + width ≤ pageSize then .ok (slice page.bytes offset width) else .error .panic

/-- `page[offset..offset + data.len()].copy_from_slice(data)`. -/
def write (page : Page) (offset : Nat) (data : Bytes) : Except Fault Page :=
  if fits : offset + data.length ≤ pageSize then
    .ok ⟨splice page.bytes offset data, by
      have size := page.size
      rw [splice_length (by omega)]
      omega⟩
  else .error .panic

end Page

/-! ### Little-endian helpers -/

/-- `n.to_le_bytes()` of an `i64`. -/
def i64Bytes (value : Int64) : Bytes := leBytes 8 value.toUInt64.toNat

/-- `i64::from_le_bytes`. -/
def i64Value (bytes : Bytes) : Int64 := (UInt64.ofNat (leValue bytes)).toInt64

@[simp] theorem i64Bytes_length (value : Int64) : (i64Bytes value).length = 8 := leBytes_length 8 _

@[simp] theorem i64Value_i64Bytes (value : Int64) : i64Value (i64Bytes value) = value := by
  have small : value.toUInt64.toNat < 256 ^ 8 := value.toUInt64.toNat_lt
  simp [i64Value, i64Bytes, leValue_leBytes_of_lt small]

/-- Eight bytes are the bytes of their number. -/
theorem i64Bytes_i64Value {bytes : Bytes} (size : bytes.length = 8) :
    i64Bytes (i64Value bytes) = bytes := by
  have small := leValue_lt bytes
  have same := leBytes_leValue bytes
  rw [size] at small same
  have value : (UInt64.ofNat (leValue bytes)).toInt64.toUInt64.toNat = leValue bytes := by
    simp only [UInt64.toUInt64_toInt64, UInt64.toNat_ofNat']
    exact Nat.mod_eq_of_lt small
  unfold i64Bytes i64Value
  rw [value, same]

def readU16 (page : Page) (offset : Nat) : Except Fault Nat := do
  pure (leValue (← page.read offset 2))

def writeU16 (page : Page) (offset value : Nat) : Except Fault Page :=
  page.write offset (leBytes 2 value)

def readU32 (page : Page) (offset : Nat) : Except Fault Nat := do
  pure (leValue (← page.read offset 4))

def writeU32 (page : Page) (offset value : Nat) : Except Fault Page :=
  page.write offset (leBytes 4 value)

def readI64 (page : Page) (offset : Nat) : Except Fault Int64 := do
  pure (i64Value (← page.read offset 8))

def writeI64 (page : Page) (offset : Nat) (value : Int64) : Except Fault Page :=
  page.write offset (i64Bytes value)

/-! ### Total views -/

namespace Page

/-- The number stored in `width` bytes. -/
def number (page : Page) (offset width : Nat) : Nat := leValue (slice page.bytes offset width)

/-- The key stored in eight bytes. -/
def key (page : Page) (offset : Nat) : Int64 := i64Value (slice page.bytes offset 8)

theorem read_ok {page : Page} {offset width : Nat} (fits : offset + width ≤ pageSize) :
    page.read offset width = .ok (slice page.bytes offset width) :=
  if_pos fits

theorem write_ok {page : Page} {offset : Nat} {data : Bytes}
    (fits : offset + data.length ≤ pageSize) :
    ∃ after, page.write offset data = .ok after ∧ after.bytes = splice page.bytes offset data :=
  ⟨_, dif_pos fits, rfl⟩

end Page

section Access

variable {page : Page} {offset : Nat}

theorem readU16_ok (fits : offset + 2 ≤ pageSize) :
    readU16 page offset = .ok (page.number offset 2) := by
  unfold readU16
  rw [Page.read_ok fits]
  rfl

theorem readU32_ok (fits : offset + 4 ≤ pageSize) :
    readU32 page offset = .ok (page.number offset 4) := by
  unfold readU32
  rw [Page.read_ok fits]
  rfl

theorem readI64_ok (fits : offset + 8 ≤ pageSize) :
    readI64 page offset = .ok (page.key offset) := by
  unfold readI64
  rw [Page.read_ok fits]
  rfl

end Access

end MukhiDb.Model
