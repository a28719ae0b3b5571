import Mathlib.Tactic

/-!
# Big-endian bytes

`beBytes k n` is the `k`-byte big-endian form of `n`, most significant byte first, and
`ofBeBytes` reads a list of bytes as a number. On numbers below `256 ^ k` and on lists of
`k` bytes the two are inverse to each other.
-/

namespace Utils

/-- The last `k` bytes of a number, most significant first. -/
def beBytes : ℕ → ℕ → List UInt8
  | 0, _ => []
  | k + 1, n => beBytes k (n / 256) ++ [UInt8.ofNat n]

/-- The number a list of bytes stands for. -/
def ofBeBytes (bytes : List UInt8) : ℕ :=
  bytes.foldl (fun n b => n * 256 + b.toNat) 0

@[simp] theorem length_beBytes (k n : ℕ) : (beBytes k n).length = k := by
  induction k generalizing n with
  | zero => rfl
  | succ k ih =>
    rw [beBytes, List.length_append, ih]
    rfl

theorem ofBeBytes_concat (bytes : List UInt8) (b : UInt8) :
    ofBeBytes (bytes ++ [b]) = ofBeBytes bytes * 256 + b.toNat := by
  unfold ofBeBytes
  rw [List.foldl_append]
  rfl

theorem ofBeBytes_lt (bytes : List UInt8) : ofBeBytes bytes < 256 ^ bytes.length := by
  induction bytes using List.reverseRecOn with
  | nil => decide
  | append_singleton bytes b ih =>
    have hb := b.toNat_lt
    rw [ofBeBytes_concat, List.length_append, List.length_singleton, pow_succ]
    omega

theorem ofBeBytes_beBytes {k n : ℕ} (h : n < 256 ^ k) : ofBeBytes (beBytes k n) = n := by
  induction k generalizing n with
  | zero =>
    rw [pow_zero] at h
    obtain rfl : n = 0 := by omega
    rfl
  | succ k ih =>
    have hdiv : n / 256 < 256 ^ k := by
      rw [pow_succ] at h
      omega
    have hlast : (UInt8.ofNat n).toNat = n % 256 := rfl
    rw [beBytes, ofBeBytes_concat, ih hdiv, hlast]
    omega

theorem beBytes_ofBeBytes (bytes : List UInt8) :
    beBytes bytes.length (ofBeBytes bytes) = bytes := by
  induction bytes using List.reverseRecOn with
  | nil => rfl
  | append_singleton bytes b ih =>
    have hb := b.toNat_lt
    rw [ofBeBytes_concat, List.length_append, List.length_singleton, beBytes]
    have hdiv : (ofBeBytes bytes * 256 + b.toNat) / 256 = ofBeBytes bytes := by omega
    have hlast : UInt8.ofNat (ofBeBytes bytes * 256 + b.toNat) = b := by
      apply UInt8.toNat_inj.mp
      show (ofBeBytes bytes * 256 + b.toNat) % 256 = b.toNat
      omega
    rw [hdiv, hlast, ih]

/-! ## 64-bit numbers -/

/-- `u64::to_be_bytes`. -/
def u64ToBeBytes (n : UInt64) : List UInt8 := beBytes 8 n.toNat

/-- `u64::from_be_bytes`. -/
def u64FromBeBytes (bytes : List UInt8) : UInt64 := UInt64.ofNat (ofBeBytes bytes)

@[simp] theorem length_u64ToBeBytes (n : UInt64) : (u64ToBeBytes n).length = 8 :=
  length_beBytes 8 _

@[simp] theorem u64FromBeBytes_u64ToBeBytes (n : UInt64) :
    u64FromBeBytes (u64ToBeBytes n) = n := by
  have hn : n.toNat < 256 ^ 8 := lt_of_lt_of_le n.toNat_lt (by norm_num)
  unfold u64FromBeBytes u64ToBeBytes
  rw [ofBeBytes_beBytes hn]
  exact UInt64.ofNat_toNat

/-- Eight bytes are the bytes of the number they stand for. -/
theorem u64ToBeBytes_u64FromBeBytes {bytes : List UInt8} (h : bytes.length = 8) :
    u64ToBeBytes (u64FromBeBytes bytes) = bytes := by
  have hlt : ofBeBytes bytes < 2 ^ 64 := by
    have hbound := ofBeBytes_lt bytes
    rw [h] at hbound
    exact lt_of_lt_of_le hbound (by norm_num)
  have hbytes := beBytes_ofBeBytes bytes
  rw [h] at hbytes
  unfold u64ToBeBytes u64FromBeBytes
  rw [UInt64.toNat_ofNat_of_lt' hlt, hbytes]

end Utils
