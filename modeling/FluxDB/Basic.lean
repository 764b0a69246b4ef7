import Mathlib.Data.List.Lex
import Mathlib.Order.Basic

/-!
# Bytes, errors and block references

The vocabulary every other file of the model shares.

* `Bytes` is a Go `[]byte`, and also a Go `string`: the code converts between the two freely
  (`[]byte(key)`, `string(key)`) and neither conversion changes a byte.  Keys are arbitrary bytes,
  not text, which is why they are not Lean `String`s.
* Byte strings are ordered the way the backend orders its keys, lexicographically byte by byte
  with a proper prefix first.  That is Mathlib's `List.Lex` order, once `UInt8` has the linear
  order this file gives it.
* `GoError` is the part of a Go `error` that the code looks at.  Sentinels are compared by
  identity (`err == store.BreakScan`), so each is a constructor of its own; `fmt.Errorf` keeps its
  format string and arguments as they are in the source, and its `%w` cause.
-/

set_option autoImplicit false

namespace FluxDB

/-- A Go byte string: a `[]byte`, or a `string`, which the code converts freely. -/
abbrev Bytes := List UInt8

/-- Bytes are compared as numbers; this is the order `bytes.Compare` uses, lifted from `Nat`. -/
instance uint8LinearOrder : LinearOrder UInt8 where
  le := (· ≤ ·)
  lt := (· < ·)
  le_refl a := UInt8.le_refl a
  le_trans _ _ _ := UInt8.le_trans
  le_antisymm _ _ h1 h2 := UInt8.toNat.inj (Nat.le_antisymm h1 h2)
  le_total := UInt8.le_total
  lt_iff_le_not_le _ _ := Nat.lt_iff_le_not_le
  decidableLE := inferInstance
  decidableLT := inferInstance
  decidableEq := inferInstance

/-! ## The order on byte strings -/

theorem cons_lt_cons_iff {t : UInt8} {a b : Bytes} : t :: a < t :: b ↔ a < b :=
  List.Lex.cons_iff

theorem cons_le_cons_iff {t : UInt8} {a b : Bytes} : t :: a ≤ t :: b ↔ a ≤ b := by
  simp only [← not_lt]
  exact not_congr cons_lt_cons_iff

theorem cons_lt_cons_of_lt {t u : UInt8} (a b : Bytes) (h : t < u) : t :: a < u :: b :=
  List.Lex.rel h

theorem nil_lt_cons (t : UInt8) (a : Bytes) : ([] : Bytes) < t :: a :=
  List.Lex.nil

/-! ## Errors -/

/-- A block reference, as `bstream.BlockRef` gives it: the id and the number. -/
structure BlockRef where
  id : Bytes
  num : Nat
  deriving DecidableEq, Repr

/-- An argument of a `fmt.Errorf` call. -/
inductive FmtArg where
  | str (s : Bytes)
  | text (s : String)
  | num (n : Nat)
  | ref (r : BlockRef)
  deriving DecidableEq, Repr

/-- Which check of `strconv.ParseUint` failed: `strconv.ErrSyntax` or `strconv.ErrRange`. -/
inductive NumErr where
  | errSyntax
  | errRange
  deriving DecidableEq, Repr

/-- The errors the code builds, returns and compares. -/
inductive GoError where
  /-- `store.BreakScan`: a row callback asks its scan to stop. -/
  | breakScan
  /-- `store.ErrNotFound`. -/
  | notFound
  /-- `kv.ErrNotFound`, the backend's own. -/
  | kvNotFound
  /-- `io.ErrUnexpectedEOF`: a stream ended inside a record. -/
  | unexpectedEOF
  /-- The `*strconv.NumError` of `strconv.ParseUint` on its input. -/
  | numError (num : String) (err : NumErr)
  /-- A gob stream whose bytes do not decode to a value. -/
  | gobCorrupt
  /-- An error raised outside the code: by the backend, the object store or a callback. -/
  | external (code : Nat)
  /-- `fmt.Errorf(format, args...)` with no `%w`. -/
  | errorf (format : String) (args : List FmtArg)
  /-- `fmt.Errorf(format, args..., cause)` whose last verb is `%w`: it wraps `cause`. -/
  | wrap (format : String) (args : List FmtArg) (cause : GoError)
  deriving DecidableEq, Repr

end FluxDB
