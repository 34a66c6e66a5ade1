import Mathlib.Data.Nat.Basic
import Mathlib.Data.List.Induction
import Mathlib.Algebra.Order.Ring.Nat
import Mathlib.Tactic.Ring

/-!
# Big-endian integers

`beBytes w n` is the `w`-byte big-endian encoding of `n` modulo `256 ^ w`, and `ofBeBytes`
reads a byte string as a big-endian integer.

* `ofBeBytes_beBytes`: reading back gives `n % 256 ^ w`;
* `beBytes_ofBeBytes`: a byte string is the encoding of what it reads as;
* `beBytes_inj`: encodings agree exactly when the integers agree modulo `256 ^ w`;
* `beBytes_append_inj`, `lengthPrefixed_append_inj`: a field of a record, and a field of variable
  length after its length, are read off the record.
-/

namespace ToMathlib

/-- The `w` low-order bytes of `n`, most significant first. -/
def beBytes : ℕ → ℕ → List UInt8
  | 0, _ => []
  | w + 1, n => beBytes w (n / 256) ++ [UInt8.ofNat n]

/-- The integer whose big-endian bytes are `l`. -/
def ofBeBytes (l : List UInt8) : ℕ := l.foldl (fun acc b => acc * 256 + b.toNat) 0

@[simp]
theorem length_beBytes (w n : ℕ) : (beBytes w n).length = w := by
  induction w generalizing n with
  | zero => rfl
  | succ w ih => simp [beBytes, ih]

theorem ofBeBytes_append_singleton (l : List UInt8) (b : UInt8) :
    ofBeBytes (l ++ [b]) = ofBeBytes l * 256 + b.toNat := by
  simp [ofBeBytes]

/-- Reading back a `w`-byte encoding gives the integer modulo `256 ^ w`. -/
theorem ofBeBytes_beBytes (w n : ℕ) : ofBeBytes (beBytes w n) = n % 256 ^ w := by
  induction w generalizing n with
  | zero => simp [beBytes, ofBeBytes, Nat.mod_one]
  | succ w ih =>
    have hbyte : (UInt8.ofNat n).toNat = n % 256 := UInt8.toNat_ofNat'
    rw [beBytes, ofBeBytes_append_singleton, ih, hbyte, pow_succ', Nat.mod_mul]
    ring

/-- A byte string is the encoding of the integer that is read from it. -/
theorem beBytes_ofBeBytes (l : List UInt8) : beBytes l.length (ofBeBytes l) = l := by
  induction l using List.reverseRecOn with
  | nil => rfl
  | append_singleton l b ih =>
    have hb : b.toNat < 256 := UInt8.toNat_lt b
    have hdiv : (ofBeBytes l * 256 + b.toNat) / 256 = ofBeBytes l := by omega
    have hlast : UInt8.ofNat (ofBeBytes l * 256 + b.toNat) = b := by
      refine UInt8.toNat_inj.mp ?_
      rw [UInt8.toNat_ofNat', Nat.mul_add_mod_of_lt hb]
    rw [List.length_append, List.length_singleton, beBytes, ofBeBytes_append_singleton, hdiv, ih,
      hlast]

/-- Two `w`-byte encodings agree exactly when the integers agree modulo `256 ^ w`. -/
theorem beBytes_inj {w m n : ℕ} : beBytes w m = beBytes w n ↔ m % 256 ^ w = n % 256 ^ w := by
  constructor
  · intro h
    rw [← ofBeBytes_beBytes, ← ofBeBytes_beBytes, h]
  · intro h
    induction w generalizing m n with
    | zero => rfl
    | succ w ih =>
      -- the last byte is the residue modulo 256, the bytes before it encode the quotient
      have hdiv : m / 256 % 256 ^ w = n / 256 % 256 ^ w := by
        rw [← Nat.mod_mul_right_div_self, ← Nat.mod_mul_right_div_self, ← pow_succ', h]
      have hmod : m % 256 = n % 256 := by
        rw [← Nat.mod_mod_of_dvd m (Dvd.intro_left (256 ^ w) (pow_succ 256 w).symm), h,
          Nat.mod_mod_of_dvd n (Dvd.intro_left (256 ^ w) (pow_succ 256 w).symm)]
      rw [beBytes, beBytes, ih hdiv]
      congr 2
      exact UInt8.toNat_inj.mp (by rw [UInt8.toNat_ofNat', UInt8.toNat_ofNat']; exact hmod)

/-- An integer in range is read off the bytes that begin with its encoding. -/
theorem beBytes_append_inj {w m n : ℕ} {r s : List UInt8} (hm : m < 256 ^ w) (hn : n < 256 ^ w)
    (h : beBytes w m ++ r = beBytes w n ++ s) : m = n ∧ r = s := by
  obtain ⟨hhead, htail⟩ := List.append_inj h (by rw [length_beBytes, length_beBytes])
  rw [beBytes_inj, Nat.mod_eq_of_lt hm, Nat.mod_eq_of_lt hn] at hhead
  exact ⟨hhead, htail⟩

/-- A byte string is read off the bytes that begin with its length. -/
theorem lengthPrefixed_append_inj {w : ℕ} {a b r s : List UInt8} (ha : a.length < 256 ^ w)
    (hb : b.length < 256 ^ w)
    (h : beBytes w a.length ++ (a ++ r) = beBytes w b.length ++ (b ++ s)) : a = b ∧ r = s := by
  obtain ⟨hlen, hrest⟩ := beBytes_append_inj ha hb h
  exact List.append_inj hrest hlen

end ToMathlib
