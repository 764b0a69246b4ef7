import FluxDB.Basic

/-!
# The physical key layout

The KV store keeps its three tables in one flat key space.  A logical key `k` of table `t` is
stored under `packKey t k`, the table byte followed by `k`, so each table is the interval of keys
that begin with its byte.  The three tables are `ROWS` (`0x00`), `INDEX` (`0x01`) and `LAST`
(`0x03`).

`unpackKey` is meant to undo `packKey`, and it does not: it returns the table byte and then the
*whole* key, table byte included (`string(key)` where `string(key[1:])` was meant).  So every key a
scan or a batch fetch hands to its callback still carries its table byte.  `unpackKey_packKey`
says exactly what comes back; `unpackKey_packKey_ne` is the failing instance.

What does hold is everything about `packKey` alone: it is injective, keeps each table's keys apart
from the others', and orders the keys of one table as their logical keys are ordered
(`packKey_lt_packKey_iff`), which is what lets a table be scanned as one interval.
-/

set_option autoImplicit false

namespace FluxDB

/-- The table byte of `ROWS`, where every version of every singlet and tablet row lives. -/
def tblPrefixRows : UInt8 := 0x00

/-- The table byte of `INDEX`, the tablet snapshots. -/
def tblPrefixIndex : UInt8 := 0x01

/-- The table byte of `LAST`, the last written block of each scope. -/
def tblPrefixLast : UInt8 := 0x03

/-- `TblPrefixName`, the table names used in error messages; a Go map gives `""` for any other
byte. -/
def tblPrefixName (table : UInt8) : String :=
  if table = tblPrefixRows then "tablet"
  else if table = tblPrefixIndex then "index"
  else if table = tblPrefixLast then "block"
  else ""

/-- `packKey`: the table byte, then the key. -/
def packKey (table : UInt8) (key : Bytes) : Bytes := table :: key

/-- `unpackKey`: the first byte, and the key converted to a string, which is the whole key.  Go
indexes `key[0]` and panics on an empty key; no caller passes one (each unpacks a key that the
backend returned from inside one table), and the empty key is sent to `(0, [])` here. -/
def unpackKey : Bytes → UInt8 × Bytes
  | [] => (0, [])
  | t :: rest => (t, t :: rest)

/-! ## What `packKey` does -/

@[simp] theorem packKey_ne_nil (table : UInt8) (key : Bytes) : packKey table key ≠ [] :=
  List.cons_ne_nil _ _

theorem packKey_inj {t u : UInt8} {a b : Bytes} : packKey t a = packKey u b ↔ t = u ∧ a = b :=
  List.cons_eq_cons

theorem packKey_lt_packKey_iff {t : UInt8} {a b : Bytes} :
    packKey t a < packKey t b ↔ a < b :=
  cons_lt_cons_iff

theorem packKey_le_packKey_iff {t : UInt8} {a b : Bytes} :
    packKey t a ≤ packKey t b ↔ a ≤ b :=
  cons_le_cons_iff

/-- Keys of a lower table sort before every key of a higher one. -/
theorem packKey_lt_packKey_of_lt {t u : UInt8} (a b : Bytes) (h : t < u) :
    packKey t a < packKey u b :=
  cons_lt_cons_of_lt a b h

/-! ## What `unpackKey` does -/

/-- **`unpackKey` does not strip the table byte**: it hands back the packed key whole. -/
@[simp] theorem unpackKey_packKey (table : UInt8) (key : Bytes) :
    unpackKey (packKey table key) = (table, packKey table key) := rfl

/-- On every non-empty key, the string half of `unpackKey` is the key itself. -/
theorem unpackKey_snd {b : Bytes} (h : b ≠ []) : (unpackKey b).2 = b := by
  cases b with
  | nil => exact absurd rfl h
  | cons t rest => rfl

theorem unpackKey_fst (t : UInt8) (rest : Bytes) : (unpackKey (t :: rest)).1 = t := rfl

/-- The round trip fails on the empty `ROWS` key: what comes back is the one-byte string `0x00`. -/
theorem unpackKey_packKey_ne :
    unpackKey (packKey tblPrefixRows []) = (tblPrefixRows, [0]) ∧
      unpackKey (packKey tblPrefixRows []) ≠ (tblPrefixRows, []) ∧
      packKey (unpackKey [0]).1 (unpackKey [0]).2 = [0, 0] := by
  decide

end FluxDB
