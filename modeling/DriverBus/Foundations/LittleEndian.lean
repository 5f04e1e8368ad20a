import Mathlib.Data.Nat.Digits.Lemmas
import Mathlib.Data.List.Basic

/-!
# Little-endian numbers

The bytes of a number, least significant first, and what a reader of fixed
width makes of a prefix of them when it leaves the missing bytes zero.
-/

namespace DriverBus.Foundations.LittleEndian

/-- The `n` low bytes of a number. -/
def toBytes : ℕ → ℕ → List UInt8
  | 0, _ => []
  | n + 1, x => UInt8.ofNat x :: toBytes n (x / 256)

def ofBytes (bytes : List UInt8) : ℕ := Nat.ofDigits 256 (bytes.map UInt8.toNat)

variable {n k x : ℕ} {bytes : List UInt8}

@[simp] theorem length_toBytes : (toBytes n x).length = n := by
  induction n generalizing x with
  | zero => rfl
  | succ n ih => simp [toBytes, ih]

@[simp] theorem ofBytes_cons (b : UInt8) :
    ofBytes (b :: bytes) = b.toNat + 256 * ofBytes bytes := by
  simp [ofBytes, Nat.ofDigits_cons]

theorem ofBytes_toBytes : ofBytes (toBytes n x) = x % 256 ^ n := by
  induction n generalizing x with
  | zero => simp [toBytes, ofBytes, Nat.mod_one]
  | succ n ih =>
    have hbyte : (UInt8.ofNat x).toNat = x % 256 := UInt8.toNat_ofNat'
    have hsplit : x % 256 ^ (n + 1) = x % 256 + 256 * (x / 256 % 256 ^ n) := by
      rw [pow_succ', Nat.mod_mul]
    rw [toBytes, ofBytes_cons, ih, hbyte, hsplit]

theorem take_toBytes (hk : k ≤ n) : (toBytes n x).take k = toBytes k x := by
  induction k generalizing n x with
  | zero => rfl
  | succ k ih =>
    cases n with
    | zero => omega
    | succ n =>
      rw [toBytes, toBytes, List.take_succ_cons, ih]
      omega

/-- Zero bytes behind the number do not change it. -/
theorem ofBytes_takeD : ofBytes (bytes.takeD n 0) = ofBytes (bytes.take n) := by
  induction n generalizing bytes with
  | zero => simp
  | succ n ih =>
    cases bytes with
    | nil =>
      rw [List.takeD_nil, List.take_nil, ofBytes, List.map_replicate]
      exact Nat.ofDigits_replicate_zero
    | cons b bytes =>
      rw [List.takeD_succ, List.take_succ_cons, ofBytes_cons, ofBytes_cons, ← ih]
      rfl

/-- Of a number cut after `k` bytes the reader gets the low `k` bytes. -/
theorem ofBytes_takeD_toBytes (hx : x < 256 ^ n) :
    ofBytes (((toBytes n x).take k).takeD n 0) = x % 256 ^ k := by
  have hlen : ((toBytes n x).take k).length ≤ n := by
    rw [List.length_take, length_toBytes]
    omega
  rw [ofBytes_takeD, List.take_of_length_le hlen]
  by_cases hk : k ≤ n
  · rw [take_toBytes hk, ofBytes_toBytes]
  · have hpow : 256 ^ n ≤ 256 ^ k := Nat.pow_le_pow_right (by omega) (by omega)
    rw [List.take_of_length_le (by simp; omega), ofBytes_toBytes, Nat.mod_eq_of_lt hx,
      Nat.mod_eq_of_lt (by omega)]

end DriverBus.Foundations.LittleEndian
