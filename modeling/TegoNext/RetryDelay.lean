/-
How long a failed operation waits before it is tried again.

`runtime/src/reconcile/retry.ts`: the delay doubles with each attempt up to a maximum, and a part
that is taken from the hash of the operation is added. A double is a natural number here, and what
an operation cannot represent is rounded. The rounding is never seen: doubling a safe integer is
exact, and a sum that is not exact is above every maximum.
-/
import TegoNext.JsValue

set_option autoImplicit false

namespace TegoNext

open JsValue Nat

namespace RetryDelay

/-! ## Doubles -/

@[irreducible] def exponentLimit : Nat := 1024

/-- There is no double from here on. -/
def doubleLimit : Nat := 2 ^ exponentLimit

/-- The number of 53 bits next to a natural number, ties to even. -/
def roundToEven (n : Nat) : Nat :=
  let ulp := 2 ^ (n.log2 - 52)
  let quotient := n / ulp
  let remainder := n % ulp
  if 2 * remainder < ulp ∨ 2 * remainder = ulp ∧ quotient % 2 = 0 then quotient * ulp
  else (quotient + 1) * ulp

/-- The double next to a natural number; `none` is infinity. -/
def nearestDouble (n : Nat) : Option Nat :=
  if roundToEven n < doubleLimit then some (roundToEven n) else none

/-- `Math.min(a, b)`, where `b` may be infinity. -/
def minDouble (a : Nat) (b : Option Nat) : Nat := b.elim a (min a)

/-! ## The delay -/

structure RetryDelayInput where
  attempt : JsValue
  baseDelayMs : JsValue
  maxDelayMs : JsValue
  operationId : JsString

/-- `Math.imul` and `^=` work on 32 bits; their sign is lost in the end. -/
def operationHash (operationId : JsString) : UInt32 :=
  operationId.foldl (fun hash codeUnit => (hash ^^^ codeUnit.toUInt32) * 16777619) 2166136261

def invalidInput : String := "Retry delay inputs must be positive bounded integers"

def deterministicRetryDelay (input : RetryDelayInput) : Except String Nat :=
  match input.attempt.safeInteger, input.baseDelayMs.safeInteger, input.maxDelayMs.safeInteger with
  | some attempt, some baseDelayMs, some maxDelayMs =>
    if attempt ≤ 0 ∨ baseDelayMs ≤ 0 ∨ maxDelayMs < baseDelayMs then .error invalidInput
    else
      let maxDelayMs := maxDelayMs.toNat
      let exponent := min (attempt.toNat - 1) 52
      let exponential := minDouble maxDelayMs (nearestDouble (baseDelayMs.toNat * 2 ^ exponent))
      if maxDelayMs ≤ exponential then .ok maxDelayMs
      else
        -- an integer below the maximum: the quotient by four and the remainder are exact
        let jitterRange := max 1 (exponential / 4)
        let jitter := (operationHash input.operationId).toNat % jitterRange
        .ok (minDouble maxDelayMs (nearestDouble (exponential + jitter)))
  | _, _, _ => .error invalidInput

/-! ## Rounding -/

theorem pow_le_doubleLimit {k l : Nat} (h : k + l ≤ 1024) : 2 ^ k * 2 ^ l ≤ doubleLimit := by
  rw [← Nat.pow_add, doubleLimit]
  refine Nat.pow_le_pow_right (by decide) ?_
  rw [exponentLimit]
  exact h

theorem nearestDouble_of_dvd {n : Nat} (hn : n < doubleLimit) (hdvd : 2 ^ (n.log2 - 52) ∣ n) :
    nearestDouble n = some n := by
  have hpos : 2 * (n % 2 ^ (n.log2 - 52)) < 2 ^ (n.log2 - 52) := by
    rw [Nat.mod_eq_zero_of_dvd hdvd]
    exact Nat.two_pow_pos _
  have hround : roundToEven n = n := by
    rw [roundToEven, if_pos (Or.inl hpos), Nat.div_mul_cancel hdvd]
  rw [nearestDouble, hround, if_pos hn]

/-- A number of 53 bits is a double, and so are its products with powers of two. -/
theorem nearestDouble_scaled {m e : Nat} (hm : m < 2 ^ 53) (hn : m * 2 ^ e < doubleLimit) :
    nearestDouble (m * 2 ^ e) = some (m * 2 ^ e) := by
  refine nearestDouble_of_dvd hn (Dvd.dvd.mul_left (Nat.pow_dvd_pow 2 ?_) m)
  by_cases hzero : m * 2 ^ e = 0
  · rw [hzero, Nat.log2_zero]
    omega
  have hlt : m * 2 ^ e < 2 ^ (53 + e) := by
    rw [Nat.pow_add]
    exact Nat.mul_lt_mul_of_pos_right hm (Nat.two_pow_pos e)
  have hlog := (Nat.log2_lt hzero).mpr hlt
  omega

/-- What has more than 53 bits is not rounded below them. -/
theorem le_roundToEven {n : Nat} (hn : 2 ^ 53 ≤ n) : 2 ^ 53 ≤ roundToEven n := by
  have hlog : 53 ≤ n.log2 := (Nat.le_log2 (by omega)).mpr hn
  have hself : 2 ^ 52 * 2 ^ (n.log2 - 52) ≤ n := by
    rw [← Nat.pow_add, show 52 + (n.log2 - 52) = n.log2 by omega]
    exact Nat.log2_self_le (by omega)
  have hquotient : 2 ^ 52 ≤ n / 2 ^ (n.log2 - 52) :=
    (Nat.le_div_iff_mul_le (Nat.two_pow_pos _)).mpr hself
  have hulp : 2 ^ 1 ≤ 2 ^ (n.log2 - 52) := Nat.pow_le_pow_right (by decide) (by omega)
  have hbound : 2 ^ 53 ≤ n / 2 ^ (n.log2 - 52) * 2 ^ (n.log2 - 52) := Nat.mul_le_mul hquotient hulp
  dsimp only [roundToEven]
  split
  · exact hbound
  · rw [Nat.succ_mul]
    exact Nat.le_add_right_of_le hbound

/-- **The maximum hides the rounding.** -/
theorem minDouble_nearestDouble {maximum : Nat} (hmax : maximum ≤ maxSafeInteger) (n : Nat) :
    minDouble maximum (nearestDouble n) = min maximum n := by
  have hsafe : maximum < 2 ^ 53 := Nat.lt_of_le_of_lt hmax (by decide)
  by_cases hn : n < 2 ^ 53
  · have hlimit : n * 2 ^ 0 < doubleLimit :=
      Nat.lt_of_lt_of_le (Nat.mul_lt_mul_of_pos_right hn (by decide)) (pow_le_doubleLimit (by decide))
    have hexact := nearestDouble_scaled hn hlimit
    rw [Nat.pow_zero, Nat.mul_one] at hexact
    rw [hexact]
    rfl
  · have hle := le_roundToEven (Nat.le_of_not_lt hn)
    rw [Nat.min_eq_left (by omega), nearestDouble]
    split
    · exact Nat.min_eq_left (by omega)
    · rfl

/-! ## The delay of unbounded integers -/

section Exact

variable {hash attempt baseDelayMs maxDelayMs : Nat}

def exactExponential (attempt baseDelayMs : Nat) : Nat := baseDelayMs * 2 ^ min (attempt - 1) 52

def exactRetryDelay (hash attempt baseDelayMs maxDelayMs : Nat) : Nat :=
  let exponential := exactExponential attempt baseDelayMs
  min maxDelayMs (exponential + hash % max 1 (exponential / 4))

theorem le_exactExponential (attempt baseDelayMs : Nat) :
    baseDelayMs ≤ exactExponential attempt baseDelayMs :=
  Nat.le_mul_of_pos_right _ (Nat.two_pow_pos _)

/-- What is added is less than what the next attempt adds. -/
theorem jitter_lt {exponential : Nat} (hpos : 0 < exponential) :
    hash % max 1 (exponential / 4) < exponential := by
  have hlt : hash % max 1 (exponential / 4) < max 1 (exponential / 4) := Nat.mod_lt _ (by omega)
  omega

theorem exactExponential_step (baseDelayMs : Nat) {later : Nat} (h : attempt ≤ later) :
    exactExponential later baseDelayMs = exactExponential attempt baseDelayMs ∨
      2 * exactExponential attempt baseDelayMs ≤ exactExponential later baseDelayMs := by
  rcases Nat.lt_or_ge (min (attempt - 1) 52) (min (later - 1) 52) with hlt | hge
  · right
    have hpow : 2 ^ (min (attempt - 1) 52 + 1) ≤ 2 ^ min (later - 1) 52 :=
      Nat.pow_le_pow_right (by decide) hlt
    calc 2 * exactExponential attempt baseDelayMs
        = baseDelayMs * 2 ^ (min (attempt - 1) 52 + 1) := by
          rw [exactExponential, Nat.pow_succ', Nat.mul_left_comm]
      _ ≤ exactExponential later baseDelayMs := Nat.mul_le_mul_left _ hpow
  · left
    rw [exactExponential, exactExponential, show min (later - 1) 52 = min (attempt - 1) 52 by omega]

theorem exactRetryDelay_monotone (hpos : 0 < baseDelayMs) {later : Nat} (h : attempt ≤ later) :
    exactRetryDelay hash attempt baseDelayMs maxDelayMs ≤
      exactRetryDelay hash later baseDelayMs maxDelayMs := by
  have hexponential := le_exactExponential attempt baseDelayMs
  rw [exactRetryDelay, exactRetryDelay]
  rcases exactExponential_step baseDelayMs h with heq | hdouble
  · rw [heq]
  · have hjitter := @jitter_lt hash _ (Nat.lt_of_lt_of_le hpos hexponential)
    omega

end Exact

/-! ## The delay of the source -/

/-- The numbers of an input that passes the checks. -/
structure Accepted (input : RetryDelayInput) (attempt baseDelayMs maxDelayMs : Nat) : Prop where
  attempt_eq : input.attempt.safeInteger = some (attempt : Int)
  base_eq : input.baseDelayMs.safeInteger = some (baseDelayMs : Int)
  max_eq : input.maxDelayMs.safeInteger = some (maxDelayMs : Int)
  attempt_pos : 0 < attempt
  base_pos : 0 < baseDelayMs
  base_le : baseDelayMs ≤ maxDelayMs

theorem safeInteger_le {value : JsValue} {n : Nat} (h : value.safeInteger = some (n : Int)) :
    n ≤ maxSafeInteger := by
  cases value with
  | number q =>
    rw [safeInteger] at h
    split at h
    · next hsafe =>
      rw [Option.some.inj h] at hsafe
      exact hsafe.2
    · cases h
  | _ => cases h

variable {input : RetryDelayInput} {attempt baseDelayMs maxDelayMs : Nat}

theorem Accepted.delay_eq (h : Accepted input attempt baseDelayMs maxDelayMs) :
    deterministicRetryDelay input = .ok
      (exactRetryDelay (operationHash input.operationId).toNat attempt baseDelayMs maxDelayMs) := by
  have hmax := safeInteger_le h.max_eq
  have hvalid : ¬((attempt : Int) ≤ 0 ∨ (baseDelayMs : Int) ≤ 0 ∨
      (maxDelayMs : Int) < baseDelayMs) := by
    have hattempt := h.attempt_pos
    have hbase := h.base_pos
    have hle := h.base_le
    omega
  rw [deterministicRetryDelay, h.attempt_eq, h.base_eq, h.max_eq]
  dsimp only
  rw [if_neg hvalid, Int.toNat_natCast, Int.toNat_natCast, Int.toNat_natCast,
    minDouble_nearestDouble hmax, minDouble_nearestDouble hmax, exactRetryDelay, exactExponential]
  by_cases hcapped : maxDelayMs ≤ baseDelayMs * 2 ^ min (attempt - 1) 52
  · rw [Nat.min_eq_left hcapped, if_pos (Nat.le_refl _),
      Nat.min_eq_left (Nat.le_add_right_of_le hcapped)]
  · rw [Nat.min_eq_right (by omega), if_neg hcapped]

/-- No double of the computation is infinite, nor is the product rounded. -/
theorem Accepted.product_exact (h : Accepted input attempt baseDelayMs maxDelayMs) :
    nearestDouble (exactExponential attempt baseDelayMs) =
      some (exactExponential attempt baseDelayMs) := by
  have hbase : baseDelayMs < 2 ^ 53 := Nat.lt_of_le_of_lt (safeInteger_le h.base_eq) (by decide)
  refine nearestDouble_scaled hbase ?_
  calc baseDelayMs * 2 ^ min (attempt - 1) 52 < 2 ^ 53 * 2 ^ 52 :=
        Nat.mul_lt_mul_of_lt_of_le hbase
          (Nat.pow_le_pow_right (by decide) (Nat.min_le_right _ _)) (by decide)
    _ ≤ doubleLimit := pow_le_doubleLimit (by decide)

/-- **The delay.** It is between the base and the maximum, no later attempt of the operation waits
for less, and the doubles it is computed with are the integers they stand for. -/
theorem deterministicRetryDelay_spec (h : Accepted input attempt baseDelayMs maxDelayMs) :
    ∃ delay, deterministicRetryDelay input = .ok delay ∧
      baseDelayMs ≤ delay ∧ delay ≤ maxDelayMs ∧
      delay = exactRetryDelay (operationHash input.operationId).toNat attempt baseDelayMs
        maxDelayMs ∧
      nearestDouble (exactExponential attempt baseDelayMs) =
        some (exactExponential attempt baseDelayMs) ∧
      ∀ (value : JsValue) (later : Nat),
        Accepted { input with attempt := value } later baseDelayMs maxDelayMs → attempt ≤ later →
          ∃ delay', deterministicRetryDelay { input with attempt := value } = .ok delay' ∧
            delay ≤ delay' := by
  refine ⟨_, h.delay_eq, ?_, Nat.min_le_left _ _, rfl, h.product_exact, fun value later h' hle => ?_⟩
  · have hexponential := le_exactExponential attempt baseDelayMs
    have hbase := h.base_le
    rw [exactRetryDelay]
    omega
  · exact ⟨_, h'.delay_eq, exactRetryDelay_monotone h.base_pos hle⟩

/-- The first and the second attempt, with a tenth of a second and at most one. -/
def sampleInput (attempt : JsValue) : RetryDelayInput :=
  ⟨attempt, .number 100, .number 1000, Text.js "op"⟩

theorem deterministicRetryDelay_sample :
    ∃ delay, deterministicRetryDelay (sampleInput (.number 1)) = .ok delay ∧ 100 ≤ delay ∧
      delay ≤ 1000 ∧
      ∃ delay', deterministicRetryDelay (sampleInput (.number 2)) = .ok delay' ∧
        delay ≤ delay' := by
  obtain ⟨delay, hdelay, hbase, hmax, -, -, hlater⟩ :=
    @deterministicRetryDelay_spec (sampleInput (.number 1)) 1 100 1000
      ⟨by decide, by decide, by decide, by decide, by decide, by decide⟩
  exact ⟨delay, hdelay, hbase, hmax, hlater (.number 2) 2
    ⟨by decide, by decide, by decide, by decide, by decide, by decide⟩ (by decide)⟩

end RetryDelay

end TegoNext
