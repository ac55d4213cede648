/-
  SpendScript.Bytes — byte strings, byte strings of a fixed size, and the numbers
  written in them.

  A byte string is a list, so a script is read by taking apart its front. Numbers are
  read and written in both byte orders at any width:
  - `leBytes_length` / `beBytes_length`: a number takes exactly the width it is written at.
  - `leNat_lt`: what `k` bytes spell is below `256 ^ k`.
  - `leNat_leBytes`: reading what was written gives the number back, cut to the width.
-/

namespace SpendScript

-- powers of numbers are those of core, whatever else is imported
attribute [instance (high)] instPowNat

abbrev Bytes := List UInt8

/-- Byte strings of exactly `n` bytes. -/
abbrev Block (n : Nat) := { b : Bytes // b.length = n }

namespace Block

def ofBytes? (n : Nat) (b : Bytes) : Option (Block n) :=
  if h : b.length = n then some ⟨b, h⟩ else none

def zero (n : Nat) : Block n := ⟨List.replicate n 0, List.length_replicate⟩

@[simp] theorem ofBytes?_val {n : Nat} (b : Block n) : ofBytes? n b.val = some b := by
  simp [ofBytes?, b.property]

theorem ofBytes?_eq_some {n : Nat} {b : Bytes} {block : Block n} : ofBytes? n b = some block ↔ b = block.val := by
  constructor
  · intro h
    unfold ofBytes? at h
    split at h
    · cases h
      rfl
    · cases h
  · rintro rfl
    exact ofBytes?_val block

theorem ofBytes?_eq_none {n : Nat} {b : Bytes} : ofBytes? n b = none ↔ b.length ≠ n := by
  simp [ofBytes?]

theorem length_of_ofBytes? {n : Nat} {b : Bytes} {block : Block n} (h : ofBytes? n b = some block) :
    b.length = n := by
  rw [ofBytes?_eq_some.mp h]
  exact block.property

end Block

/-! ## Numbers in bytes -/

/-- The number whose least significant byte comes first. -/
def leNat : Bytes → Nat
  | [] => 0
  | b :: bs => b.toNat + 256 * leNat bs

/-- The number whose most significant byte comes first. -/
def beNat (b : Bytes) : Nat := b.foldl (fun n x => 256 * n + x.toNat) 0

/-- The low `k` bytes of `n`, least significant first. -/
def leBytes : (k n : Nat) → Bytes
  | 0, _ => []
  | k + 1, n => UInt8.ofNat (n % 256) :: leBytes k (n / 256)

/-- The low `k` bytes of `n`, most significant first. -/
def beBytes (k n : Nat) : Bytes := (leBytes k n).reverse

@[simp] theorem leBytes_length (k n : Nat) : (leBytes k n).length = k := by
  induction k generalizing n with
  | zero => rfl
  | succ k ih => simp [leBytes, ih]

@[simp] theorem beBytes_length (k n : Nat) : (beBytes k n).length = k := by
  simp [beBytes]

theorem leNat_lt (b : Bytes) : leNat b < 256 ^ b.length := by
  induction b with
  | nil => simp [leNat]
  | cons x xs ih =>
    have hx : x.toNat < 256 := x.toNat_lt
    simp only [leNat, List.length_cons, Nat.pow_succ]
    omega

theorem leNat_leBytes (k n : Nat) : leNat (leBytes k n) = n % 256 ^ k := by
  induction k generalizing n with
  | zero => simp [leBytes, leNat, Nat.mod_one]
  | succ k ih =>
    simp only [leBytes, leNat, ih]
    rw [Nat.pow_succ, Nat.mul_comm (256 ^ k), Nat.mod_mul]
    simp [UInt8.toNat_ofNat']

def le32 (x : UInt32) : Bytes := leBytes 4 x.toNat

def le64 (x : UInt64) : Bytes := leBytes 8 x.toNat

/-! ## Hexadecimal text -/

def hexDigit (n : Nat) : Char := Nat.digitChar (n % 16)

def hexByte (b : UInt8) : List Char := [hexDigit (b.toNat / 16), hexDigit b.toNat]

/-- Two lower-case digits for each byte. -/
def Bytes.hex (b : Bytes) : String := String.ofList (b.flatMap hexByte)

/-- A byte with a mark that it is hexadecimal. -/
def markedHex (b : UInt8) : String := "0x" ++ String.ofList (hexByte b)

/-- The bytes in decimal, between brackets. -/
def Bytes.listing (b : Bytes) : String :=
  "[" ++ ", ".intercalate (b.map fun x => toString x.toNat) ++ "]"

end SpendScript
