import Rettp.AssertionSpec
import Rettp.Binary64

/-!
# Equality of numbers is exact

A JSON number denotes a rational (`JsonNumber.exact`). Two numbers that the engine takes to be
equal denote the same one: an integer is only turned into a double where none is rounded. The
other way round numbers that denote the same rational are equal, unless one of them is an integer
out of that range and the other one is a double (`numbersEqual_iff_exact`). So it is an
equivalence (`numbersEqual_equivalence`).
-/

namespace Rettp

/-- The rational that a number denotes. -/
def JsonNumber.exact : JsonNumber → ℚ
  | .posInt value => value
  | .negInt value _ => value
  | .float value _ => Binary64.exact value

/-- A number is an integer, or a finite double. -/
inductive NumberView (n : JsonNumber) : Prop
  | integer (i : Int) (hvalue : integerValue n = some i) (hexact : n.exact = i)
  | float (x : Float) (hvalue : integerValue n = none) (hfinite : x.isFinite = true)
      (has : n.asF64 = x) (hexact : n.exact = Binary64.exact x)

theorem numberView (n : JsonNumber) : NumberView n := by
  cases n with
  | posInt value =>
    refine .integer value ?_ (Int.cast_natCast value).symm
    by_cases hle : value ≤ i64Max <;> simp [integerValue, JsonNumber.asI64, JsonNumber.asU64, hle]
  | negInt value hneg => exact .integer value rfl rfl
  | float x hx => exact .float x rfl hx rfl rfl

theorem numberIsInteger_of_value {n : JsonNumber} {i : Int} (h : integerValue n = some i) :
    numberIsInteger n = true :=
  numberIsInteger_iff.mpr ⟨i, h⟩

theorem not_numberIsInteger_of_value {n : JsonNumber} (h : integerValue n = none) :
    numberIsInteger n = false := by
  refine Bool.eq_false_iff.mpr fun hinteger => ?_
  obtain ⟨i, hi⟩ := numberIsInteger_iff.mp hinteger
  rw [h] at hi
  cases hi

/-- An integer in the safe range equals a double exactly when they denote the same rational. -/
theorem safe_beq_iff {i : Int} {x : Float} (hfinite : x.isFinite = true)
    (hle : -maxExactFloatInteger ≤ i ∧ i ≤ maxExactFloatInteger) :
    (Float.ofInt i == x) = true ↔ (i : ℚ) = Binary64.exact x := by
  have hlt : i.natAbs < 2 ^ 53 := by
    unfold maxExactFloatInteger at hle
    omega
  obtain ⟨hfinite', hexact⟩ := Binary64.exact_ofInt hlt
  rw [Binary64.beq_iff_exact hfinite' hfinite, hexact]

theorem safe_range_iff {i : Int} :
    (-maxExactFloatInteger ≤ i ∧ i ≤ maxExactFloatInteger) ↔ |(i : ℚ)| ≤ maxExactFloatInteger := by
  rw [abs_le]
  norm_cast

/-- **Exactness.** -/
theorem numbersEqual_iff_exact {m n : JsonNumber} : numbersEqual m n = true ↔
    m.exact = n.exact ∧
      (numberIsInteger m = numberIsInteger n ∨ |m.exact| ≤ maxExactFloatInteger) := by
  unfold numbersEqual
  rcases numberView m with ⟨i, hi, hm⟩ | ⟨x, hi, hx, hxas, hm⟩
  · rcases numberView n with ⟨j, hj, hn⟩ | ⟨y, hj, hy, hyas, hn⟩
    · rw [hi, hj, hm, hn, numberIsInteger_of_value hi, numberIsInteger_of_value hj]
      simp
    · rw [hi, hj, hm, hn, numberIsInteger_of_value hi, not_numberIsInteger_of_value hj, hyas]
      dsimp only
      rw [safeIntegerAsF64_any, and_congr_right fun hle => safe_beq_iff hy hle, safe_range_iff,
        and_comm]
      simp
  · rcases numberView n with ⟨j, hj, hn⟩ | ⟨y, hj, hy, hyas, hn⟩
    · rw [hi, hj, hm, hn, not_numberIsInteger_of_value hi, numberIsInteger_of_value hj, hxas]
      dsimp only
      rw [safeIntegerAsF64_any, BEq.comm, and_congr_right fun hle => safe_beq_iff hx hle,
        safe_range_iff, and_comm, eq_comm]
      -- the range is asked of the integer, which is the double
      refine and_congr_right fun heq => ?_
      rw [heq]
      simp
    · rw [hi, hj, hm, hn, not_numberIsInteger_of_value hi, not_numberIsInteger_of_value hj, hxas,
        hyas]
      dsimp only
      rw [Binary64.beq_iff_exact hx hy]
      simp

/-- **Equality of numbers is an exact equivalence.** -/
theorem numbersEqual_equivalence :
    (∀ n, numbersEqual n n = true) ∧
    (∀ m n, numbersEqual m n = true → numbersEqual n m = true) ∧
    (∀ k m n, numbersEqual k m = true → numbersEqual m n = true → numbersEqual k n = true) ∧
    (∀ m n, m.exact ≠ n.exact → numbersEqual m n = false) ∧
    (∀ m n, numberIsInteger m = true → numberIsInteger n = true → m.exact = n.exact →
      numbersEqual m n = true) ∧
    (∀ m n, numberIsInteger m = true → numberIsInteger n = false → m.exact = n.exact →
      |m.exact| ≤ 2 ^ 53 - 1 → numbersEqual m n = true ∧ numbersEqual n m = true) := by
  have hsymm (m n : JsonNumber) (h : numbersEqual m n = true) : numbersEqual n m = true := by
    obtain ⟨hexact, hrange⟩ := numbersEqual_iff_exact.mp h
    exact numbersEqual_iff_exact.mpr ⟨hexact.symm, hrange.imp Eq.symm (hexact ▸ ·)⟩
  refine ⟨fun n => numbersEqual_iff_exact.mpr ⟨rfl, .inl rfl⟩, hsymm, ?_, ?_, ?_, ?_⟩
  · intro k m n hkm hmn
    obtain ⟨hexact, hrange⟩ := numbersEqual_iff_exact.mp hkm
    obtain ⟨hexact', hrange'⟩ := numbersEqual_iff_exact.mp hmn
    refine numbersEqual_iff_exact.mpr ⟨hexact.trans hexact', ?_⟩
    -- two numbers of one kind, or a number in the safe range between them
    rcases hrange with hkind | hrange
    · rw [hkind, hexact]
      exact hrange'
    · exact .inr hrange
  · intro m n hne
    exact Bool.eq_false_iff.mpr fun h => hne (numbersEqual_iff_exact.mp h).1
  · intro m n hm hn hexact
    exact numbersEqual_iff_exact.mpr ⟨hexact, .inl (hm.trans hn.symm)⟩
  · intro m n _ _ hexact hrange
    have hlimit : ((2 : ℚ) ^ 53 - 1) = maxExactFloatInteger := by
      norm_num [maxExactFloatInteger]
    rw [hlimit] at hrange
    have hequal : numbersEqual m n = true := numbersEqual_iff_exact.mpr ⟨hexact, .inr hrange⟩
    exact ⟨hequal, hsymm m n hequal⟩

/-- The greatest safe integer as a double. -/
def safeLimitDouble : JsonNumber :=
  .float (Float.ofNat 9007199254740991) (Binary64.exact_ofNat (by decide)).1

/-- It is equal to the same integer, in either order, and not to the next one. -/
theorem numbersEqual_equivalence_limit :
    numbersEqual safeLimitDouble safeLimitDouble = true ∧
    numbersEqual (.posInt 9007199254740991) safeLimitDouble = true ∧
    numbersEqual safeLimitDouble (.posInt 9007199254740991) = true ∧
    numbersEqual (.posInt 9007199254740991) (.posInt 9007199254740991) = true ∧
    numbersEqual (.posInt 9007199254740992) safeLimitDouble = false ∧
    numbersEqual (.ofI64 5) (.ofU64 5) = true := by
  have hexact : safeLimitDouble.exact = 9007199254740991 := (Binary64.exact_ofNat (by decide)).2
  have hlimit : (JsonNumber.posInt 9007199254740991).exact = 9007199254740991 := rfl
  obtain ⟨hrefl, hsymm, htrans, hne, hintegers, hsafe⟩ := numbersEqual_equivalence
  have hequal := hsafe (.posInt 9007199254740991) safeLimitDouble rfl rfl (by rw [hexact, hlimit])
    (by rw [hlimit]; norm_num)
  refine ⟨hrefl _, hequal.1, hsymm _ _ hequal.1, htrans _ _ _ hequal.1 hequal.2, hne _ _ ?_,
    hintegers _ _ rfl rfl rfl⟩
  rw [hexact]
  change (9007199254740992 : ℚ) ≠ _
  norm_num

end Rettp
