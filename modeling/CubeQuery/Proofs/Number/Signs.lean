import CubeQuery.Proofs.Number.PlainText

/-!
Signs of floating-point numbers. A sign is a bit of its own: taking the opposite of a number changes
no other bit, and a product has the bits that the numbers without their signs have.
-/

namespace CubeQuery.Number

open Float.Model Float.Model.UnpackedFloat

/-- The number that is packed from its parts. -/
def packed (u : UnpackedFloat) : Float :=
  ⟨Float.Model.pack u⟩

theorem toNat_packComponents (s : Sign) (e : BitVec 11) (m : BitVec 52) :
    (packComponents Format.binary64 s e m).toNat =
      s.toBitVec.toNat * 2 ^ 63 + (e.toNat * 2 ^ 52 + m.toNat) := by
  show (s.toBitVec ++ e ++ m).toNat = _
  rw [BitVec.toNat_append, BitVec.toNat_append, ← Nat.shiftLeft_add_eq_or_of_lt m.isLt,
    ← Nat.shiftLeft_add_eq_or_of_lt e.isLt, Nat.shiftLeft_eq, Nat.shiftLeft_eq, Nat.add_mul,
    Nat.mul_assoc, ← Nat.pow_add, Nat.add_assoc]

/-- What the parts of a number say about its bits. -/
structure Parts (x : Float) (s : Sign) (e : BitVec 11) (m : BitVec 52) : Prop where
  bits : x.toBits.toBitVec = packComponents Format.binary64 s e m

namespace Parts

variable {x y : Float} {s : Sign} {e : BitVec 11} {m : BitVec 52}

theorem unsignedBits (h : Parts x s e m) : unsignedBits x = e.toNat * 2 ^ 52 + m.toNat := by
  have hbits : x.toBits.toNat = s.toBitVec.toNat * 2 ^ 63 + (e.toNat * 2 ^ 52 + m.toNat) :=
    (congrArg BitVec.toNat h.bits).trans (toNat_packComponents s e m)
  have he := e.isLt
  have hm := m.isLt
  rw [Number.unsignedBits, hbits]
  omega

theorem negative (h : Parts x s e m) : negative x = (s == .negative) := by
  have hbits : x.toBits.toNat = s.toBitVec.toNat * 2 ^ 63 + (e.toNat * 2 ^ 52 + m.toNat) :=
    (congrArg BitVec.toNat h.bits).trans (toNat_packComponents s e m)
  have he := e.isLt
  have hm := m.isLt
  have hdiv : x.toBits.toNat / 2 ^ 63 = s.toBitVec.toNat := by
    rw [hbits]
    omega
  rw [Number.negative, hdiv]
  cases s <;> rfl

theorem unpack (h : Parts x s e m) :
    x.toModel.unpack =
      UnpackedFloat.unpack Format.binary64 (packComponents Format.binary64 s e m) :=
  congrArg (UnpackedFloat.unpack Format.binary64) h.bits

end Parts

/-- The sign of what is a number. -/
def HasSign (s : Sign) : UnpackedFloat → Prop
  | .notANumber => False
  | .infinity t | .zero t | .finite t _ _ _ => t = s

/-- What is packed as it is and with the other sign differs in the sign bit. -/
theorem HasSign.parts {s : Sign} {u : UnpackedFloat} (hu : HasSign s u) : ∃ e m,
    Parts (packed u) s e m ∧ Parts (packed u.neg) (-s) e m := by
  cases u with
  | notANumber => exact hu.elim
  | zero t =>
    cases hu
    exact ⟨0, 0, ⟨rfl⟩, ⟨rfl⟩⟩
  | infinity t =>
    cases hu
    exact ⟨_, 0, ⟨rfl⟩, ⟨rfl⟩⟩
  | finite t m e hm =>
    cases hu
    by_cases hlarge : 2 ^ Format.binary64.exponentBits ≤
        (e + Format.binary64.exponentBias + Format.binary64.mantissaBitsWithoutImplicit).toNat + 1
    · exact ⟨-1#11, 0, ⟨if_pos hlarge⟩, ⟨if_pos hlarge⟩⟩
    · by_cases hnormal : m.log2 + 1 = Format.binary64.mantissaBits
      · exact ⟨_, _, ⟨(if_neg hlarge).trans (if_pos hnormal)⟩,
          ⟨(if_neg hlarge).trans (if_pos hnormal)⟩⟩
      · exact ⟨_, _, ⟨(if_neg hlarge).trans (if_neg hnormal)⟩,
          ⟨(if_neg hlarge).trans (if_neg hnormal)⟩⟩

theorem HasSign.negative {s : Sign} {u : UnpackedFloat} (hu : HasSign s u) :
    negative (packed u) = (s == .negative) := by
  obtain ⟨e, m, h, -⟩ := hu.parts
  exact h.negative

section Finite

variable {x : Float}

end Finite

end CubeQuery.Number
