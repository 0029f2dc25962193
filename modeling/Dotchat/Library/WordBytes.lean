import Mathlib.Data.Nat.Basic
import Mathlib.Data.List.Basic
import Mathlib.Algebra.Order.Ring.Nat
import Mathlib.Tactic.Ring

/-!
Fixed-width words as byte sequences. A word is a natural number; its raw form
in memory is least significant byte first. Swapping reverses the raw bytes, so
the raw form of a swapped word is its most significant byte first sequence.
-/
namespace WordBytes

/-- The `width` raw bytes of a word, least significant first. -/
def raw : ℕ → ℕ → List UInt8
  | 0, _ => []
  | width + 1, n => UInt8.ofNat n :: raw width (n / 256)

/-- The word held by raw bytes. -/
def value : List UInt8 → ℕ
  | [] => 0
  | b :: bs => b.toNat + 256 * value bs

/-- Exchange the byte order of a word of the given width. -/
def swap (width n : ℕ) : ℕ := value (raw width n).reverse

@[simp] theorem length_raw (width n : ℕ) : (raw width n).length = width := by
  induction width generalizing n with
  | zero => rfl
  | succ width ih => simp [raw, ih]

theorem value_lt (bs : List UInt8) : value bs < 256 ^ bs.length := by
  induction bs with
  | nil => simp [value]
  | cons b rest ih =>
    have hb : b.toNat < 256 := b.toNat_lt
    simp only [value, List.length_cons, pow_succ]
    omega

theorem value_raw (width n : ℕ) : value (raw width n) = n % 256 ^ width := by
  induction width generalizing n with
  | zero => simp [raw, value, Nat.mod_one]
  | succ width ih =>
    have hsplit : n % (256 * 256 ^ width) = n % 256 + 256 * (n / 256 % 256 ^ width) :=
      Nat.mod_mul
    have hbyte : (UInt8.ofNat n).toNat = n % 256 := by simp
    rw [raw, value, ih, hbyte, pow_succ, Nat.mul_comm (256 ^ width), hsplit]

theorem raw_value (bs : List UInt8) : raw bs.length (value bs) = bs := by
  induction bs with
  | nil => rfl
  | cons b rest ih =>
    have hb : b.toNat < 256 := b.toNat_lt
    have hhead : UInt8.ofNat (b.toNat + 256 * value rest) = b := by
      apply UInt8.toNat_inj.mp
      simp only [UInt8.toNat_ofNat']
      omega
    have htail : (b.toNat + 256 * value rest) / 256 = value rest := by omega
    simp only [List.length_cons, value, raw, hhead, htail, ih]

theorem raw_swap (width n : ℕ) : raw width (swap width n) = (raw width n).reverse := by
  have h := raw_value (raw width n).reverse
  simpa only [swap, List.length_reverse, length_raw] using h

theorem swap_lt (width n : ℕ) : swap width n < 256 ^ width := by
  simpa only [swap, List.length_reverse, length_raw] using value_lt (raw width n).reverse

theorem swap_swap (width n : ℕ) : swap width (swap width n) = n % 256 ^ width := by
  rw [swap, raw_swap, List.reverse_reverse, value_raw]

/-- Writing a word most significant byte first and reading it back. -/
theorem swap_value_raw_swap {width n : ℕ} (h : n < 256 ^ width) :
    swap width (value (raw width (swap width n))) = n := by
  rw [value_raw, Nat.mod_eq_of_lt (swap_lt width n), swap_swap, Nat.mod_eq_of_lt h]

end WordBytes
