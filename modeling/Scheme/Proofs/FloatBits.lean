import Mathlib
import Scheme.Number.Binary64

/-!
# Double-precision numbers and their bits

`Binary64.ofFloat` takes a number apart by arithmetic on its bits.  The bits determine the number,
so that sign, mantissa and exponent do.

* `ofBits_toBits`: a number is made of its bits;
* `isNaN_eq_true_iff`: the numbers that are not numbers, by their parts;
* `ofBits_magnitudeBits`, `infinity_eq`: finite and infinite numbers from their parts;
* `Canonical`: the mantissas and exponents of finite numbers;
* `beq_self_eq`: a number is equal to itself unless it is not a number;
* `beq_iff`: which numbers are equal;
* `copySign_neg_zero`: a number that takes the sign of a negative zero.
-/

namespace Scheme.Binary64

open Float.Model Float.Model.UnpackedFloat

/-! ### The fields of a word -/

theorem toNat_unpackMantissa (b : BitVec 64) :
    (@unpackMantissa .binary64 b).toNat = b.toNat % 2 ^ 52 := by
  simp [unpackMantissa]

theorem toNat_unpackExponent (b : BitVec 64) :
    (@unpackExponent .binary64 b).toNat = b.toNat / 2 ^ 52 % 2 ^ 11 := by
  simp [unpackExponent, Nat.shiftRight_eq_div_pow]

theorem toNat_unpackSign (b : BitVec 64) : (@unpackSign .binary64 b).toNat = b.toNat / 2 ^ 63 := by
  have := b.isLt
  simp [unpackSign, Nat.shiftRight_eq_div_pow]
  omega

theorem toNat_packComponents (s : Sign) (e : BitVec 11) (m : BitVec 52) :
    (packComponents .binary64 s e m).toNat =
      s.toBitVec.toNat * 2 ^ 63 + e.toNat * 2 ^ 52 + m.toNat := by
  unfold packComponents
  rw [BitVec.toNat_append, BitVec.toNat_append, ← Nat.shiftLeft_add_eq_or_of_lt m.isLt,
    ← Nat.shiftLeft_add_eq_or_of_lt e.isLt, Nat.shiftLeft_eq, Nat.shiftLeft_eq]
  ring

theorem toBitVec_ofBitVec (s : BitVec 1) : (Sign.ofBitVec s).toBitVec = s := by
  revert s
  decide

theorem packComponents_unpack (b : BitVec 64) :
    packComponents .binary64 (.ofBitVec (@unpackSign .binary64 b)) (@unpackExponent .binary64 b)
      (@unpackMantissa .binary64 b) = b := by
  apply BitVec.eq_of_toNat_eq
  rw [toNat_packComponents, toBitVec_ofBitVec, toNat_unpackMantissa, toNat_unpackExponent,
    toNat_unpackSign]
  omega

theorem exponentBias_binary64 : Format.binary64.exponentBias = 1023 := rfl

/-- Packing undoes unpacking on every word that a number can have. -/
theorem pack_unpack {b : BitVec 64} (h : Format.binary64.Valid b) :
    UnpackedFloat.pack .binary64 (UnpackedFloat.unpack .binary64 b) = b := by
  have hb := packComponents_unpack b
  have hmlt := (@unpackMantissa .binary64 b).isLt
  have helt := (@unpackExponent .binary64 b).isLt
  change _ < 2 ^ 52 at hmlt
  change _ < 2 ^ 11 at helt
  unfold UnpackedFloat.unpack
  simp only
  split_ifs with h₁ h₂ h₃ h₄
  · rw [h₁, h₂] at hb
    exact hb
  · exact (h.eq_packedNaN h₁ h₂).symm
  · rw [h₃, h₄] at hb
    exact hb
  · -- a subnormal number: the mantissa has no leading bit
    have hm : (@unpackMantissa .binary64 b).toNat ≠ 0 := fun h0 => h₄ (BitVec.eq_of_toNat_eq h0)
    have hlog : (@unpackMantissa .binary64 b).toNat.log2 < 52 := (Nat.log2_lt hm).2 hmlt
    rw [UnpackedFloat.pack, h₃, exponentBias_binary64, if_neg (by decide),
      if_neg (by simp [Format.mantissaBits]; omega), BitVec.ofNat_toNat, BitVec.setWidth_eq, ← h₃]
    exact hb
  · -- a normal number: the leading bit is not part of the word
    have he : (@unpackExponent .binary64 b).toNat ≠ 2047 := fun h0 => h₁ (BitVec.eq_of_toNat_eq h0)
    have hm : (1#1 ++ @unpackMantissa .binary64 b).toNat =
        2 ^ 52 + (@unpackMantissa .binary64 b).toNat := by
      rw [BitVec.toNat_append, ← Nat.shiftLeft_add_eq_or_of_lt (BitVec.isLt _)]
      rfl
    have hlog : (2 ^ 52 + (@unpackMantissa .binary64 b).toNat).log2 = 52 := by
      rw [Nat.log2_eq_iff (by omega)]
      omega
    have hexp : (((@unpackExponent .binary64 b).toNat : Int) - ((1023 : Nat) + (52 : Nat)) +
        (1023 : Nat) + (52 : Nat)).toNat = (@unpackExponent .binary64 b).toNat := by
      omega
    have hdrop : BitVec.ofNat 52 (2 ^ 52 + (@unpackMantissa .binary64 b).toNat) =
        @unpackMantissa .binary64 b := by
      apply BitVec.eq_of_toNat_eq
      simpa using hmlt
    rw [UnpackedFloat.pack]
    simp only [hm, hlog, exponentBias_binary64, hexp]
    rw [if_neg (by omega), if_pos (by rfl), BitVec.ofNat_toNat, BitVec.setWidth_eq, hdrop]
    exact hb

/-- A number is made of its bits. -/
theorem ofBits_toBits (x : Float) : Float.ofBits x.toBits = x := by
  obtain ⟨⟨bits, hv⟩⟩ := x
  show Float.ofModel ⟨UInt64.ofBitVec (UnpackedFloat.pack .binary64
    (UnpackedFloat.unpack .binary64 bits.toBitVec)), _⟩ = _
  congr 2
  rw [pack_unpack hv]

/-! ### Numbers that are not numbers -/

theorem isNaN_eq_true_iff (x : Float) : x.isNaN = true ↔ ofFloat x = .nan := by
  have hfield : @unpackExponent .binary64 x.toBits.toBitVec = -1#11 ↔
      x.toBits.toNat / twoPow 52 % twoPow 11 = 2047 := by
    rw [← BitVec.toNat_inj, toNat_unpackExponent]
    rfl
  have hfraction : @unpackMantissa .binary64 x.toBits.toBitVec = 0#52 ↔
      x.toBits.toNat % twoPow 52 = 0 := by
    rw [← BitVec.toNat_inj, toNat_unpackMantissa]
    rfl
  show (UnpackedFloat.unpack .binary64 x.toBits.toBitVec).isNaN = true ↔ _
  unfold UnpackedFloat.unpack ofFloat
  simp only [hfield, hfraction]
  by_cases h₁ : x.toBits.toNat / twoPow 52 % twoPow 11 = 2047
  · by_cases h₂ : x.toBits.toNat % twoPow 52 = 0 <;> simp [h₁, h₂, UnpackedFloat.isNaN]
  · simp only [if_neg h₁]
    split_ifs <;> simp [UnpackedFloat.isNaN]

theorem beq_self_eq (x : Float) : (x == x) = !x.isNaN := by
  show (x.toModel.unpack.compare x.toModel.unpack == some .eq) = !x.toModel.unpack.isNaN
  generalize x.toModel.unpack = u
  match u with
  | .infinity s => cases s <;> rfl
  | .notANumber => rfl
  | .zero s => cases s <;> rfl
  | .finite s m e hm => cases s <;> simp [UnpackedFloat.compare, UnpackedFloat.isNaN]

theorem beq_self {x : Float} (h : x.isNaN = false) : (x == x) = true := by
  rw [beq_self_eq, h, Bool.not_false]

/-! ### Equal numbers -/

/-- Numbers that compare as equal are the same, or both are zeros. -/
theorem compare_eq_some_eq_iff (u v : UnpackedFloat) : u.compare v = some .eq ↔
    u.isNaN = false ∧ (u = v ∨ (∃ s, u = .zero s) ∧ ∃ s, v = .zero s) := by
  match u, v with
  | .notANumber, v => simp [UnpackedFloat.compare, UnpackedFloat.isNaN]
  | .infinity s, .infinity t =>
    cases s <;> cases t <;> simp [UnpackedFloat.compare, UnpackedFloat.isNaN, compare]
  | .infinity s, .notANumber | .infinity s, .zero _ | .infinity s, .finite .. =>
    cases s <;> simp [UnpackedFloat.compare]
  | .zero s, .zero t => simp [UnpackedFloat.compare, UnpackedFloat.isNaN]
  | .zero s, .notANumber => simp [UnpackedFloat.compare]
  | .zero s, .infinity t | .zero s, .finite t .. => cases t <;> simp [UnpackedFloat.compare]
  | .finite s .., .notANumber | .finite s .., .zero _ => cases s <;> simp [UnpackedFloat.compare]
  | .finite s .., .infinity t => cases s <;> cases t <;> simp [UnpackedFloat.compare]
  | .finite s m e _, .finite t n f _ =>
    cases s <;> cases t <;>
      simp [UnpackedFloat.compare, UnpackedFloat.isNaN, Ordering.then_eq_eq, Ordering.swap_eq_eq,
        and_comm]

/-- A number is known by its parts. -/
theorem unpack_injective {x y : Float} (h : x.toModel.unpack = y.toModel.unpack) : x = y := by
  obtain ⟨⟨bits, hx⟩⟩ := x
  obtain ⟨⟨bits', hy⟩⟩ := y
  have hbits : bits = bits' := by
    rw [← UInt64.toBitVec_inj, ← pack_unpack hx, ← pack_unpack hy]
    exact congrArg (UnpackedFloat.pack .binary64) h
  subst hbits
  rfl

/-- There is one number that is not a number. -/
theorem eq_notANumber {x : Float} (h : x.isNaN = true) : x = notANumber := by
  change x.toModel.unpack.isNaN = true at h
  refine unpack_injective ?_
  cases hx : x.toModel.unpack with
  | notANumber => rfl
  | _ =>
    rw [hx] at h
    cases h

theorem beq_zero_iff (x : Float) : (x == 0) = true ↔ ∃ s, x.toModel.unpack = .zero s := by
  show (x.toModel.unpack.compare (.zero .positive) == some .eq) = true ↔ _
  rw [beq_iff_eq, compare_eq_some_eq_iff]
  constructor
  · rintro ⟨-, hx | ⟨hx, -⟩⟩
    · exact ⟨_, hx⟩
    · exact hx
  · rintro ⟨s, hs⟩
    rw [hs]
    exact ⟨rfl, Or.inr ⟨⟨s, rfl⟩, _, rfl⟩⟩

/-- **Equal numbers** are the same, or both are zeros. -/
theorem beq_iff (x y : Float) :
    (x == y) = true ↔ x.isNaN = false ∧ (x = y ∨ (x == 0) = true ∧ (y == 0) = true) := by
  show (x.toModel.unpack.compare y.toModel.unpack == some .eq) = true ↔ _
  rw [beq_iff_eq, compare_eq_some_eq_iff, beq_zero_iff, beq_zero_iff]
  exact and_congr_right fun _ => or_congr_left ⟨unpack_injective, fun h => h ▸ rfl⟩

/-! ### Numbers from their parts -/

/-- The mantissas and exponents of finite numbers: the mantissa is filled, or the exponent is the
least one. -/
structure Canonical (m : Nat) (q : Int) : Prop where
  least : leastExponent ≤ q
  mantissa_lt : m < 2 ^ 53
  filled : q = leastExponent ∨ 2 ^ 52 ≤ m
  finite : magnitudeBits m q < infinityBits

theorem twoPow_eq (n : Nat) : twoPow n = 2 ^ n := rfl

theorem signBound_eq : signBound = 2 ^ 63 := rfl

/-- A pattern of bits is its sign and the rest. -/
theorem eq_sign_add {n k : Nat} (hn : n < 2 ^ 64) (hk : n % 2 ^ 63 = k) :
    n = if decide (signBound ≤ n) = true then signBound + k else k := by
  rw [signBound_eq]
  by_cases hs : 2 ^ 63 ≤ n
  · rw [decide_eq_true hs, if_pos rfl]
    omega
  · rw [decide_eq_false hs, if_neg Bool.false_ne_true]
    omega

/-- The parts of a finite number are canonical and give its bits. -/
theorem toBits_of_finite {x : Float} {negative : Bool} {m : Nat} {q : Int}
    (h : ofFloat x = .finite negative m q) :
    Canonical m q ∧
      x.toBits.toNat = if negative then signBound + magnitudeBits m q else magnitudeBits m q := by
  have hlt := x.toBits.toNat_lt
  simp only [ofFloat] at h
  generalize x.toBits.toNat = n at h hlt ⊢
  obtain ⟨field, hfield⟩ : ∃ field, n / twoPow 52 % twoPow 11 = field := ⟨_, rfl⟩
  obtain ⟨fraction, hfraction⟩ : ∃ fraction, n % twoPow 52 = fraction := ⟨_, rfl⟩
  simp only [hfield, hfraction] at h
  simp only [twoPow_eq] at hfield hfraction h
  split_ifs at h with h₁ _ h₂ <;> rw [finite.injEq] at h <;> obtain ⟨rfl, rfl, rfl⟩ := h
  · -- a subnormal number or zero
    have hbits : magnitudeBits fraction leastExponent = fraction := by simp [magnitudeBits]
    refine ⟨⟨le_rfl, by omega, Or.inl rfl, ?_⟩, eq_sign_add hlt ?_⟩
    · rw [hbits, infinityBits, twoPow_eq]
      omega
    · rw [hbits]
      omega
  · -- a normal number, whose leading bit is not written
    have hbits : magnitudeBits (2 ^ 52 + fraction) ((field : Int) - 1075) =
        field * 2 ^ 52 + fraction := by
      simp only [magnitudeBits, leastExponent, twoPow_eq]
      omega
    refine ⟨⟨?_, by omega, Or.inr (by omega), ?_⟩, eq_sign_add hlt ?_⟩
    · rw [leastExponent]
      omega
    · rw [hbits, infinityBits, twoPow_eq]
      omega
    · rw [hbits]
      omega

theorem ofBits_eq {x : Float} {negative : Bool} {bits : Nat}
    (h : x.toBits.toNat = if negative then signBound + bits else bits) :
    ofBits negative bits = x := by
  rw [ofBits, ← h, UInt64.ofNat_toNat, ofBits_toBits]

/-- A finite number is made of its parts. -/
theorem ofBits_magnitudeBits {x : Float} {negative : Bool} {m : Nat} {q : Int}
    (h : ofFloat x = .finite negative m q) : ofBits negative (magnitudeBits m q) = x :=
  ofBits_eq (toBits_of_finite h).2

/-- An infinite number is known by its sign. -/
theorem infinity_eq {x : Float} {negative : Bool} (h : ofFloat x = .infinite negative) :
    infinity negative = x := by
  apply ofBits_eq
  have hlt := x.toBits.toNat_lt
  simp only [ofFloat] at h
  generalize x.toBits.toNat = n at h hlt ⊢
  obtain ⟨field, hfield⟩ : ∃ field, n / twoPow 52 % twoPow 11 = field := ⟨_, rfl⟩
  obtain ⟨fraction, hfraction⟩ : ∃ fraction, n % twoPow 52 = fraction := ⟨_, rfl⟩
  simp only [hfield, hfraction] at h
  rw [twoPow_eq] at hfield hfraction
  split_ifs at h with h₁ h₂
  rw [infinite.injEq] at h
  subst h
  rw [twoPow_eq] at hfield
  refine eq_sign_add hlt ?_
  rw [infinityBits, twoPow_eq]
  omega

/-! ### Signs -/

/-- The parts of a number that is made of bits are those of the bits. -/
theorem unpack_ofBits (u : UInt64) :
    (Float.ofBits u).toModel.unpack = UnpackedFloat.unpack .binary64 u.toBitVec := by
  show UnpackedFloat.unpack .binary64
    (UnpackedFloat.pack .binary64 (UnpackedFloat.unpack .binary64 u.toBitVec)) = _
  by_cases hnan : @unpackExponent .binary64 u.toBitVec = -1#11 ∧
      @unpackMantissa .binary64 u.toBitVec ≠ 0#52
  · -- every pattern of a NaN is read as the one that is kept
    have hunpack : UnpackedFloat.unpack .binary64 u.toBitVec = .notANumber := by
      unfold UnpackedFloat.unpack
      exact (if_pos hnan.1).trans (if_neg hnan.2)
    rw [hunpack]
    rfl
  · rw [pack_unpack ⟨fun hexponent hmantissa => absurd ⟨hexponent, hmantissa⟩ hnan⟩]

/-- The sign bit belongs to the sign alone. -/
theorem unpack_signBound_add {k : Nat} (hk : k < signBound) :
    UnpackedFloat.unpack .binary64 (UInt64.ofNat (signBound + k)).toBitVec =
      (UnpackedFloat.unpack .binary64 (UInt64.ofNat k).toBitVec).neg := by
  rw [signBound_eq] at hk ⊢
  have hbits : (UInt64.ofNat k).toBitVec.toNat = k := Nat.mod_eq_of_lt (by omega)
  have hsigned : (UInt64.ofNat (2 ^ 63 + k)).toBitVec.toNat = 2 ^ 63 + k :=
    Nat.mod_eq_of_lt (by omega)
  have hmantissa : @unpackMantissa .binary64 (UInt64.ofNat (2 ^ 63 + k)).toBitVec =
      @unpackMantissa .binary64 (UInt64.ofNat k).toBitVec := by
    apply BitVec.eq_of_toNat_eq
    rw [toNat_unpackMantissa, toNat_unpackMantissa, hbits, hsigned]
    omega
  have hexponent : @unpackExponent .binary64 (UInt64.ofNat (2 ^ 63 + k)).toBitVec =
      @unpackExponent .binary64 (UInt64.ofNat k).toBitVec := by
    apply BitVec.eq_of_toNat_eq
    rw [toNat_unpackExponent, toNat_unpackExponent, hbits, hsigned]
    omega
  have hsign : @unpackSign .binary64 (UInt64.ofNat k).toBitVec = 0#1 := by
    apply BitVec.eq_of_toNat_eq
    rw [toNat_unpackSign, hbits]
    exact Nat.div_eq_of_lt hk
  have hnegative : @unpackSign .binary64 (UInt64.ofNat (2 ^ 63 + k)).toBitVec = 1#1 := by
    apply BitVec.eq_of_toNat_eq
    rw [toNat_unpackSign, hsigned]
    show _ = 1
    omega
  unfold UnpackedFloat.unpack
  simp only [hmantissa, hexponent, hsign, hnegative]
  split_ifs <;> rfl

/-- A number with its sign bit set is the negative of the number without it. -/
theorem ofBits_true {k : Nat} (hk : k < signBound) : ofBits true k = -ofBits false k := by
  show _ = Float.ofModel (Float.Model.pack (Float.ofBits (UInt64.ofNat k)).toModel.unpack.neg)
  rw [unpack_ofBits, ← unpack_signBound_add hk]
  rfl

theorem copySign_neg_zero (x : Float) : copySign x (-0) = -copySign x 0 := by
  have hneg : isNegative (-0) = true := by decide
  have hpos : isNegative 0 = false := by decide
  rw [copySign, copySign, hneg, hpos]
  exact ofBits_true (Nat.mod_lt _ (by decide))

end Scheme.Binary64
