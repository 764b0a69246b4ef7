import FluxDB.Basic
import Mathlib.Data.List.Basic
import Mathlib.Data.String.Basic
import Mathlib.Tactic.IntervalCases
import Mathlib.Tactic.Ring

/-!
# Shard file names

The sharder names each file after the inclusive block range it covers, `first-last`, both
numbers in zero-padded decimal.  `parseFileName` splits a name at `-` and reads each half with
`strconv.ParseUint(_, 10, 32)`.

Two facts about the names are needed by the injector's proofs.  A padded name parses back to its
range (`parseFileName_name`), and the lexical order of names of one width is the numeric order
of their first blocks (`shardFileName_lt`), which is what lets `Walk`, which lists names lexically,
hand the injector its files in block order.  `parseFileName_eq_ok_iff` says which names parse at
all: two non-empty runs of decimal digits around one dash, each worth at most `2 ^ 32 - 1`.
`parseFileName_grammar` puts the grammar and the padded round trip together.
-/

set_option autoImplicit false

namespace FluxDB

/-! ## `strconv.ParseUint(s, 10, 32)` -/

/-- The value of a decimal digit. -/
def digitValue (c : Char) : Option Nat :=
  if '0' ≤ c ∧ c ≤ '9' then some (c.toNat - '0'.toNat) else none

/-- The largest value `ParseUint` accepts for a bit size of 32. -/
def maxUint32 : Nat := 2 ^ 32 - 1

/-- The digit loop of `strconv.ParseUint(s, 10, 32)`, from the value `n` of the digits read so
far.  A character that is not a decimal digit is a syntax error (a letter would be a digit of
value at least ten, which base 10 rejects the same way); a value past `maxUint32` is a range
error.  Go also checks `n` against a cutoff near `2^64 / 10` before multiplying, which a value
that never exceeds `maxUint32` cannot reach. -/
def parseDigits (s : String) : Nat → List Char → Except GoError Nat
  | n, [] => .ok n
  | n, c :: cs =>
    match digitValue c with
    | none => .error (.numError s .errSyntax)
    | some d =>
      if maxUint32 < n * 10 + d then .error (.numError s .errRange)
      else parseDigits s (n * 10 + d) cs

/-- `strconv.ParseUint(s, 10, 32)`. -/
def parseUint (s : String) : Except GoError Nat :=
  if s = "" then .error (.numError s .errSyntax) else parseDigits s 0 s.toList

/-- `parseFileName`: split at `-`, which must give exactly two parts, and parse each. -/
def parseFileName (filename : String) : Except GoError (Nat × Nat) :=
  match filename.toList.splitOn '-' with
  | [a, b] => do
    let first ← parseUint (String.mk a)
    let last ← parseUint (String.mk b)
    pure (first, last)
  | _ => .error (.errorf "cannot parse filename: %s" [.text filename])

/-- The digit loop never goes past `maxUint32`. -/
theorem parseDigits_le {s : String} {n m : Nat} {cs : List Char} (hn : n ≤ maxUint32)
    (h : parseDigits s n cs = .ok m) : m ≤ maxUint32 := by
  induction cs generalizing n with
  | nil => cases h; exact hn
  | cons c cs ih =>
    simp only [parseDigits] at h
    split at h
    · cases h
    · split at h
      · cases h
      · exact ih (by omega) h

theorem parseUint_le {s : String} {n : Nat} (h : parseUint s = .ok n) : n ≤ maxUint32 := by
  unfold parseUint at h
  split at h
  · cases h
  · exact parseDigits_le (Nat.zero_le _) h

/-- Both ends of a parsed range fit in 32 bits. -/
theorem parseFileName_le {filename : String} {first last : Nat}
    (h : parseFileName filename = .ok (first, last)) : first ≤ maxUint32 ∧ last ≤ maxUint32 := by
  unfold parseFileName at h
  split at h
  · rcases h1 : parseUint (String.mk _) with e | x <;> rw [h1] at h
    · cases h
    rcases h2 : parseUint (String.mk _) with e | y <;> rw [h2] at h
    · cases h
    cases h
    exact ⟨parseUint_le h1, parseUint_le h2⟩
  · cases h

/-! ## Padded names -/

/-- The decimal digit `d`. -/
def digitChar (d : Nat) : Char := Char.ofNat ('0'.toNat + d)

/-- `x` in exactly `w` decimal digits, zero-padded, most significant first. -/
def padDecimal : Nat → Nat → List Char
  | 0, _ => []
  | w + 1, x => digitChar (x / 10 ^ w % 10) :: padDecimal w x

/-- `x` is written in `w` digits without losing one; `w` is at least one, as even `0` takes a
digit. -/
def FitsWidth (w x : Nat) : Prop := 0 < w ∧ x < 10 ^ w

/-- The name of the file of blocks `first` to `last`, in width `w`. -/
def shardFileName (w first last : Nat) : String :=
  String.mk (padDecimal w first ++ '-' :: padDecimal w last)

theorem digitValue_digitChar {d : Nat} (h : d < 10) : digitValue (digitChar d) = some d := by
  interval_cases d <;> rfl

theorem digitChar_ne_dash {d : Nat} (h : d < 10) : digitChar d ≠ '-' := by
  interval_cases d <;> decide

theorem digitChar_lt_digitChar {d e : Nat} (hd : d < 10) (he : e < 10) (h : d < e) :
    digitChar d < digitChar e := by
  interval_cases d <;> interval_cases e <;> first | omega | decide

theorem mem_padDecimal {w x : Nat} {c : Char} (h : c ∈ padDecimal w x) :
    ∃ d < 10, c = digitChar d := by
  induction w with
  | zero => simp [padDecimal] at h
  | succ w ih =>
    rcases List.mem_cons.1 h with rfl | h
    · exact ⟨_, Nat.mod_lt _ (by omega), rfl⟩
    · exact ih h

theorem dash_not_mem_padDecimal (w x : Nat) : '-' ∉ padDecimal w x := fun h => by
  obtain ⟨d, hd, he⟩ := mem_padDecimal h
  exact digitChar_ne_dash hd he.symm

/-- The digits below position `w` depend only on `x % 10 ^ w`. -/
theorem padDecimal_mod (w x : Nat) : padDecimal w (x % 10 ^ w) = padDecimal w x := by
  induction w generalizing x with
  | zero => rfl
  | succ w ih =>
    simp only [padDecimal]
    congr 1
    · rw [Nat.pow_succ, Nat.mod_mul_right_div_self, Nat.mod_mod]
    · rw [← ih (x % 10 ^ (w + 1)), Nat.pow_succ, Nat.mod_mul_right_mod, ih]

/-- Reading `w` padded digits after the value `n`. -/
theorem parseDigits_padDecimal (s : String) (w x n : Nat)
    (h : n * 10 ^ w + x % 10 ^ w ≤ maxUint32) :
    parseDigits s n (padDecimal w x) = .ok (n * 10 ^ w + x % 10 ^ w) := by
  induction w generalizing n with
  | zero => simp [padDecimal, parseDigits, Nat.mod_one]
  | succ w ih =>
    have hd : x / 10 ^ w % 10 < 10 := Nat.mod_lt _ (by omega)
    have hmod : x % 10 ^ (w + 1) = x % 10 ^ w + 10 ^ w * (x / 10 ^ w % 10) := Nat.mod_pow_succ
    have heq : (n * 10 + x / 10 ^ w % 10) * 10 ^ w + x % 10 ^ w =
        n * 10 ^ (w + 1) + x % 10 ^ (w + 1) := by
      rw [hmod, Nat.pow_succ]; ring
    have hle : n * 10 + x / 10 ^ w % 10 ≤ maxUint32 := by
      have h1 : 1 ≤ 10 ^ w := Nat.one_le_pow _ _ (by omega)
      calc n * 10 + x / 10 ^ w % 10
          ≤ (n * 10 + x / 10 ^ w % 10) * 10 ^ w := Nat.le_mul_of_pos_right _ h1
        _ ≤ (n * 10 + x / 10 ^ w % 10) * 10 ^ w + x % 10 ^ w := Nat.le_add_right _ _
        _ ≤ maxUint32 := heq ▸ h
    simp only [padDecimal, parseDigits, digitValue_digitChar hd]
    rw [if_neg (by omega), ih _ (heq ▸ h), heq]

/-- A padded number that fits in 32 bits parses back. -/
theorem parseUint_padDecimal {w x : Nat} (hw : 0 < w) (hx : x < 10 ^ w) (h32 : x ≤ maxUint32) :
    parseUint (String.mk (padDecimal w x)) = .ok x := by
  obtain ⟨w, rfl⟩ : ∃ v, w = v + 1 := ⟨w - 1, by omega⟩
  have hne : String.mk (padDecimal (w + 1) x) ≠ "" := fun h => by
    simpa [padDecimal] using congrArg String.data h
  rw [parseUint, if_neg hne, String.toList, parseDigits_padDecimal _ _ _ _
    (by rw [Nat.mod_eq_of_lt hx]; omega), Nat.mod_eq_of_lt hx]
  simp

/-- A dash between two runs that hold none splits them apart. -/
theorem splitOn_dash {u v : List Char} (hu : '-' ∉ u) (hv : '-' ∉ v) :
    (u ++ '-' :: v).splitOn '-' = [u, v] := by
  simpa [List.intercalate] using List.splitOn_intercalate [u, v] '-' (by simp [hu, hv]) (by simp)

/-- **A padded name parses back to its range.** -/
theorem parseFileName_name {w first last : Nat} (hf : FitsWidth w first) (hl : FitsWidth w last)
    (hf32 : first ≤ maxUint32) (hl32 : last ≤ maxUint32) :
    parseFileName (shardFileName w first last) = .ok (first, last) := by
  rw [parseFileName, shardFileName, String.toList,
    splitOn_dash (dash_not_mem_padDecimal w first) (dash_not_mem_padDecimal w last)]
  simp only [parseUint_padDecimal hf.1 hf.2 hf32, parseUint_padDecimal hl.1 hl.2 hl32]
  rfl

/-- Padded numbers of one width compare as the numbers do, whatever follows them. -/
theorem padDecimal_append_lt {w x y : Nat} (hxy : x < y) (hy : y < 10 ^ w) (s t : List Char) :
    padDecimal w x ++ s < padDecimal w y ++ t := by
  induction w generalizing x y with
  | zero => omega
  | succ w ih =>
    have hp : 0 < 10 ^ w := Nat.pos_pow_of_pos _ (by omega)
    have hdy : y / 10 ^ w < 10 := Nat.div_lt_of_lt_mul (by rw [Nat.pow_succ] at hy; omega)
    have hdx : x / 10 ^ w ≤ y / 10 ^ w := Nat.div_le_div_right hxy.le
    simp only [padDecimal, List.cons_append, Nat.mod_eq_of_lt hdy,
      Nat.mod_eq_of_lt (show x / 10 ^ w < 10 by omega)]
    rcases Nat.lt_or_eq_of_le hdx with hlt | heq
    · exact List.Lex.rel (digitChar_lt_digitChar (by omega) hdy hlt)
    · rw [heq, ← padDecimal_mod w x, ← padDecimal_mod w y]
      refine List.Lex.cons (ih ?_ (Nat.mod_lt _ hp))
      have hx := Nat.div_add_mod x (10 ^ w)
      have hy' := Nat.div_add_mod y (10 ^ w)
      rw [heq] at hx
      omega

/-- **Names of one width sort as their first blocks do.** -/
theorem shardFileName_lt {w x y : Nat} (hxy : x < y) (hy : y < 10 ^ w) (a b : Nat) :
    shardFileName w x a < shardFileName w y b := by
  rw [String.lt_iff_toList_lt]
  exact padDecimal_append_lt hxy hy _ _

/-! ## What `parseFileName` accepts

A name parses exactly when it is two non-empty runs of decimal digits around one dash, each worth
at most `maxUint32`.  Leading zeros are allowed, as `ParseUint` allows them in base 10, which is
what lets the sharder pad its names.
-/

/-- The value of the decimal digits `cs`, read after the value `n`. -/
def decimalFrom (n : Nat) (cs : List Char) : Nat :=
  cs.foldl (fun n c => n * 10 + (c.toNat - '0'.toNat)) n

/-- `cs` is a non-empty run of decimal digits worth `n`, and `n` fits in 32 bits. -/
def IsDecimal (cs : List Char) (n : Nat) : Prop :=
  cs ≠ [] ∧ (∀ c ∈ cs, c.isDigit) ∧ n = decimalFrom 0 cs ∧ n ≤ maxUint32

theorem digitValue_eq_some_iff {c : Char} {d : Nat} :
    digitValue c = some d ↔ c.isDigit ∧ d = c.toNat - '0'.toNat := by
  have hdig : ('0' ≤ c ∧ c ≤ '9') ↔ c.isDigit = true := by simp [Char.isDigit, Char.le_def]
  unfold digitValue
  split_ifs with h
  · simp [hdig.1 h, eq_comm]
  · simp [← hdig, h]

theorem le_decimalFrom (n : Nat) (cs : List Char) : n ≤ decimalFrom n cs := by
  induction cs generalizing n with
  | nil => exact le_refl n
  | cons c cs ih =>
    have := ih (n * 10 + (c.toNat - '0'.toNat))
    exact le_trans (by omega) this

/-- The digit loop succeeds exactly on decimal digits whose value stays within 32 bits. -/
theorem parseDigits_eq_ok_iff (s : String) {n : Nat} (hn : n ≤ maxUint32) (cs : List Char)
    (m : Nat) :
    parseDigits s n cs = .ok m ↔ (∀ c ∈ cs, c.isDigit) ∧ m = decimalFrom n cs ∧ m ≤ maxUint32 := by
  induction cs generalizing n with
  | nil =>
    simp only [parseDigits, Except.ok.injEq, List.not_mem_nil, false_implies, implies_true,
      true_and, decimalFrom, List.foldl_nil]
    constructor
    · rintro rfl; exact ⟨rfl, hn⟩
    · rintro ⟨rfl, -⟩; rfl
  | cons c cs ih =>
    rcases hd : digitValue c with _ | d
    · -- not a digit: a syntax error
      have hnd : c.isDigit = false :=
        Bool.eq_false_iff.2 fun hc => by simpa [hd] using digitValue_eq_some_iff.2 ⟨hc, rfl⟩
      simp [parseDigits, hd, hnd]
    · obtain ⟨hdig, rfl⟩ := digitValue_eq_some_iff.1 hd
      simp only [parseDigits, hd]
      split_ifs with hmax
      · -- past `maxUint32`, and every value from here on is larger: a range error
        have := le_decimalFrom (n * 10 + (c.toNat - '0'.toNat)) cs
        simp only [decimalFrom, List.foldl_cons] at this ⊢
        constructor
        · nofun
        · rintro ⟨-, rfl, hm⟩; omega
      · rw [ih (by omega)]
        simp [hdig, decimalFrom]

theorem parseUint_eq_ok_iff (cs : List Char) (m : Nat) :
    parseUint (String.mk cs) = .ok m ↔ IsDecimal cs m := by
  unfold parseUint IsDecimal
  by_cases h : cs = []
  · subst h; simp
  · have hne : String.mk cs ≠ "" := fun he => h (congrArg String.data he)
    rw [if_neg hne, String.toList, parseDigits_eq_ok_iff _ (Nat.zero_le _)]
    simp only [ne_eq, h, not_false_eq_true, true_and]

/-- **What `parseFileName` accepts.**  A name parses, to `(first, last)`, exactly when it is two
non-empty runs of decimal digits around one dash, worth `first` and `last`, both at most
`maxUint32`. -/
theorem parseFileName_eq_ok_iff (filename : String) (first last : Nat) :
    parseFileName filename = .ok (first, last) ↔
      ∃ u v, filename.toList = u ++ '-' :: v ∧ IsDecimal u first ∧ IsDecimal v last := by
  constructor
  · intro h
    unfold parseFileName at h
    split at h
    · rename_i u v hsplit
      rcases h1 : parseUint (String.mk u) with e | x <;> rw [h1] at h
      · cases h
      rcases h2 : parseUint (String.mk v) with e | y <;> rw [h2] at h
      · cases h
      cases h
      refine ⟨u, v, ?_, (parseUint_eq_ok_iff u _).1 h1, (parseUint_eq_ok_iff v _).1 h2⟩
      have hjoin := List.intercalate_splitOn filename.toList '-'
      rw [hsplit] at hjoin
      simpa [List.intercalate] using hjoin.symm
    · cases h
  · rintro ⟨u, v, hf, hu, hv⟩
    have hnd : ∀ {cs : List Char} {n : Nat}, IsDecimal cs n → '-' ∉ cs := fun h hm => by
      simpa using h.2.1 _ hm
    unfold parseFileName
    rw [hf, splitOn_dash (hnd hu) (hnd hv)]
    simp only [(parseUint_eq_ok_iff u first).2 hu, (parseUint_eq_ok_iff v last).2 hv]
    rfl

/-- **The file-name grammar.**  `parseFileName` succeeds on exactly the names `a-b` with `a`
and `b` non-empty runs of decimal digits, leading zeros allowed, each worth less than `2 ^ 32`,
and returns their values; so it reads back every padded name of two blocks below `2 ^ 32`. -/
theorem parseFileName_grammar :
    (∀ (filename : String) (first last : Nat), parseFileName filename = .ok (first, last) ↔
      ∃ u v, filename.toList = u ++ '-' :: v ∧ IsDecimal u first ∧ IsDecimal v last) ∧
    (∀ w first last, FitsWidth w first → FitsWidth w last → first < 2 ^ 32 → last < 2 ^ 32 →
      parseFileName (shardFileName w first last) = .ok (first, last)) :=
  ⟨parseFileName_eq_ok_iff, fun _ _ _ hf hl hf32 hl32 =>
    parseFileName_name hf hl (Nat.le_sub_one_of_lt hf32) (Nat.le_sub_one_of_lt hl32)⟩

end FluxDB
