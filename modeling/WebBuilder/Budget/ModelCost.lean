/-
  WebBuilder.Budget.ModelCost — what a model response costs.

  `model_cost` of `model_budget.py`, and the counts of a response that
  `settle_model_response` accepts.  The reservation prices the bound of the
  request at the highest input rate; the settlement prices what the provider
  reported, and what it did not report at the rate that cannot be too low.

  Main results:
    * `split_cost_le` — the settlement is no less than the true cost;
    * `settledCost_le_reservedCost` — and no more than the reservation;
    * `settlement_sandwiched` — both, for every response.
-/
import Mathlib.Algebra.Order.Ring.Int
import Mathlib.Tactic.Linarith
import Mathlib.Tactic.Ring

namespace WebBuilder.Budget

/-! ## §1. JSON. -/

/-- A value of `json.loads`. -/
inductive Json where
  | null
  | bool (b : Bool)
  | int (n : Int)
  /-- Whether it is zero, and its `repr`. -/
  | float (isZero : Bool) (repr : String)
  | str (s : String)
  | list (xs : List Json)
  | dict (fields : List (String × Json))

/-- `bool(value)`. -/
def Json.truthy : Json → Bool
  | null => false
  | bool b => b
  | int n => n ≠ 0
  | float isZero _ => !isZero
  | str s => s ≠ ""
  | list xs => !xs.isEmpty
  | dict fields => !fields.isEmpty

/-- `value.get(key)`; `none` is the `AttributeError` of another type. -/
def Json.get : Json → String → Option Json
  | dict fields, key => some ((fields.lookup key).getD null)
  | _, _ => none

/-- `value or {}`. -/
def Json.orEmpty (value : Json) : Json := if value.truthy then value else dict []

/-! ## §2. Rates and costs. -/

/-- `rates_nanos_per_million`. -/
structure ModelRates where
  input : Nat
  cached : Nat
  write : Nat
  output : Nat
  deriving DecidableEq

/-- The numerator of the input side. -/
def inputCost (rates : ModelRates) (inputs cached : Int) (written : Option Int) : Int :=
  -- Unknown cache creation is conservatively charged at the higher input rate.
  let inputRate : Int := if written.isNone then max rates.input rates.write else rates.input
  let written := written.getD 0
  (inputs - cached - written) * inputRate + cached * rates.cached + written * rates.write

/-- The long-context rates above `272_000` tokens. -/
def longContext (inputs numerator outputCost : Int) : Int :=
  if 272000 < inputs then numerator * 2 + outputCost * 3 / 2 else numerator + outputCost

def modelCost (rates : ModelRates) (inputs outputs cached : Int) (written : Option Int) : Int :=
  (longContext inputs (inputCost rates inputs cached written) (outputs * rates.output) + 999999) / 1000000

/-- The rates that a reservation is computed with. -/
def ModelRates.reservation (rates : ModelRates) : ModelRates :=
  { rates with input := max rates.input (max rates.cached rates.write) }

/-- The amount that `reserve_model_request` reserves. -/
def reservedCost (rates : ModelRates) (inputBound outputLimit : Int) : Int :=
  modelCost rates.reservation inputBound outputLimit 0 none

/-! ## §3. The counts of a response. -/

/-- A cached count that is accepted. -/
def acceptedCached (inputs : Int) : Json → Option Int
  | .int n => if 0 ≤ n ∧ n ≤ inputs then some n else none
  | _ => none

/-- A count of cache writes that is accepted. -/
def acceptedWritten (inputs cached : Int) : Json → Option Int
  | .int n => if 0 ≤ n ∧ n ≤ inputs - cached then some n else none
  | _ => none

/-- What `settle_model_response` takes from the fields of a response. -/
structure Usage where
  inputs : Int
  outputs : Int
  cached : Option Int
  written : Option Int
  deriving DecidableEq

/-- The counts, given the two fields of `input_tokens_details`. -/
def Usage.of (inputs outputs : Int) (cached written : Json) : Usage :=
  let known := acceptedCached inputs cached
  ⟨inputs, outputs, known, acceptedWritten inputs (known.getD 0) written⟩

/-- `type(value) is int and value >= 0`. -/
def Json.count : Json → Option Int
  | int n => if 0 ≤ n then some n else none
  | _ => none

/-- The usage of a body; `none` where no settlement is made. -/
def readUsage (body : Json) : Option Usage := do
  let usage ← (← body.get "usage").orEmpty.get "input_tokens"
  let inputs ← usage.count
  let outputs ← (← (← body.get "usage").orEmpty.get "output_tokens").count
  let details ← (← body.get "usage").orEmpty.get "input_tokens_details"
  let cached ← details.orEmpty.get "cached_tokens"
  let written ← details.orEmpty.get "cache_write_tokens"
  some (Usage.of inputs outputs cached written)

/-- The amount of a settlement. -/
def settledCost (rates : ModelRates) (usage : Usage) : Int :=
  modelCost rates usage.inputs usage.outputs (usage.cached.getD 0) usage.written

/-! ## §4. Bounds. -/

section Bounds

variable {rates : ModelRates} {inputs outputs cached written : Int}

/-- The long-context formula grows with the input side. -/
theorem longContext_mono {numerator numerator' outputCost : Int} (h : numerator ≤ numerator') :
    longContext inputs numerator outputCost ≤ longContext inputs numerator' outputCost := by
  unfold longContext
  split <;> omega

/-- It also grows when the bound alone crosses the threshold. -/
theorem longContext_le {inputBound numerator numerator' outputCost outputCost' : Int}
    (hinputs : inputs ≤ inputBound) (h : numerator ≤ numerator') (hnonneg : 0 ≤ numerator')
    (hout : outputCost ≤ outputCost') (hout' : 0 ≤ outputCost') :
    longContext inputs numerator outputCost ≤ longContext inputBound numerator' outputCost' := by
  unfold longContext
  split
  · have hlong : 272000 < inputBound := by omega
    rw [if_pos hlong]
    omega
  · split <;> omega

theorem longContext_nonneg {numerator outputCost : Int} (h : 0 ≤ numerator) (hout : 0 ≤ outputCost) :
    0 ≤ longContext inputs numerator outputCost := by
  unfold longContext
  split <;> omega

theorem ceil_mono {a b : Int} (h : a ≤ b) : (a + 999999) / 1000000 ≤ (b + 999999) / 1000000 :=
  Int.ediv_le_ediv (by decide) (by omega)

/-- The true input side, for a split of the inputs. -/
theorem inputCost_some : inputCost rates inputs cached (some written)
    = (inputs - cached - written) * rates.input + cached * rates.cached + written * rates.write := by
  simp [inputCost]

/-- Unknown writes are priced at the higher of the two rates. -/
theorem inputCost_none : inputCost rates inputs cached none
    = (inputs - cached) * max (rates.input : Int) rates.write + cached * rates.cached := by
  simp [inputCost]

/-- Unknown writes cost no less than any number of them. -/
theorem inputCost_some_le_none (hwritten : 0 ≤ written) (hsplit : cached + written ≤ inputs) :
    inputCost rates inputs cached (some written) ≤ inputCost rates inputs cached none := by
  rw [inputCost_some, inputCost_none]
  have hrest : (inputs - cached - written) * (rates.input : Int)
      ≤ (inputs - cached - written) * max (rates.input : Int) rates.write :=
    mul_le_mul_of_nonneg_left (le_max_left _ _) (by omega)
  have hwrite : written * (rates.write : Int) ≤ written * max (rates.input : Int) rates.write :=
    mul_le_mul_of_nonneg_left (le_max_right _ _) hwritten
  have htotal : (inputs - cached) * max (rates.input : Int) rates.write
      = (inputs - cached - written) * max (rates.input : Int) rates.write
        + written * max (rates.input : Int) rates.write := by ring
  omega

/-- Cached inputs that are not known to be cached cost no less. -/
theorem inputCost_uncached_le (hrates : rates.cached ≤ rates.input) (hcached : 0 ≤ cached)
    (written : Option Int) : inputCost rates inputs cached written ≤ inputCost rates inputs 0 written := by
  have hrate : (rates.cached : Int) ≤ rates.input := by exact_mod_cast hrates
  cases written with
  | some written =>
      rw [inputCost_some, inputCost_some]
      have hcost : cached * (rates.cached : Int) ≤ cached * rates.input := mul_le_mul_of_nonneg_left hrate hcached
      have htotal : (inputs - 0 - written) * (rates.input : Int)
          = (inputs - cached - written) * rates.input + cached * rates.input := by ring
      omega
  | none =>
      rw [inputCost_none, inputCost_none]
      have hcost : cached * (rates.cached : Int) ≤ cached * max (rates.input : Int) rates.write :=
        mul_le_mul_of_nonneg_left (hrate.trans (le_max_left _ _)) hcached
      have htotal : (inputs - 0) * max (rates.input : Int) rates.write
          = (inputs - cached) * max (rates.input : Int) rates.write
            + cached * max (rates.input : Int) rates.write := by ring
      omega

/-- The input side is never negative. -/
theorem inputCost_nonneg (hcached : 0 ≤ cached) (hwritten : 0 ≤ written) (hsplit : cached + written ≤ inputs) :
    0 ≤ inputCost rates inputs cached (some written) := by
  rw [inputCost_some]
  have hrest : 0 ≤ (inputs - cached - written) * (rates.input : Int) := mul_nonneg (by omega) (by omega)
  have hread : 0 ≤ cached * (rates.cached : Int) := mul_nonneg hcached (by omega)
  have hwrite : 0 ≤ written * (rates.write : Int) := mul_nonneg hwritten (by omega)
  omega

/-- A larger bound, at the rates of a reservation, costs no less. -/
theorem inputCost_le_reservation {inputBound : Int} (hinputs : 0 ≤ inputs) (hbound : inputs ≤ inputBound) :
    inputCost rates inputs 0 none ≤ inputCost rates.reservation inputBound 0 none := by
  rw [inputCost_none, inputCost_none, Int.sub_zero, Int.sub_zero]
  have hrate : max (rates.input : Int) rates.write
      ≤ max (rates.reservation.input : Int) rates.reservation.write := by
    simp only [ModelRates.reservation]
    omega
  have hnonneg : 0 ≤ max (rates.reservation.input : Int) rates.reservation.write :=
    (Int.natCast_nonneg _).trans (le_max_left _ _)
  have h := mul_le_mul hbound hrate ((Int.natCast_nonneg _).trans (le_max_left _ _)) (hinputs.trans hbound)
  omega

/-! ## §5. The settlement. -/

theorem acceptedCached_bounds {field : Json} (h : acceptedCached inputs field = some cached) :
    0 ≤ cached ∧ cached ≤ inputs := by
  unfold acceptedCached at h
  split at h
  · simp only [Option.ite_none_right_eq_some, Option.some.injEq] at h
    exact h.2 ▸ h.1
  · cases h

theorem acceptedWritten_bounds {field : Json} (h : acceptedWritten inputs cached field = some written) :
    0 ≤ written ∧ written ≤ inputs - cached := by
  unfold acceptedWritten at h
  split at h
  · simp only [Option.ite_none_right_eq_some, Option.some.injEq] at h
    exact h.2 ▸ h.1
  · cases h

/-- The input tokens as the provider really charged them. -/
structure Split where
  cached : Int
  written : Int

/-- A split of the inputs that agrees with the counts that were accepted. -/
structure Split.Fits (split : Split) (usage : Usage) : Prop where
  cached_nonneg : 0 ≤ split.cached
  written_nonneg : 0 ≤ split.written
  le : split.cached + split.written ≤ usage.inputs
  cached : ∀ n, usage.cached = some n → split.cached = n
  written : ∀ n, usage.written = some n → split.written = n

/-- What the response really cost. -/
def Split.cost (split : Split) (rates : ModelRates) (usage : Usage) : Int :=
  modelCost rates usage.inputs usage.outputs split.cached (some split.written)

/-- The settled input side is no less than that of any split that fits. -/
theorem inputCost_split_le {usage : Usage} {split : Split} (hrates : rates.cached ≤ rates.input)
    (hsplit : split.Fits usage) :
    inputCost rates usage.inputs split.cached (some split.written)
      ≤ inputCost rates usage.inputs (usage.cached.getD 0) usage.written := by
  have hunwritten : inputCost rates usage.inputs split.cached (some split.written)
      ≤ inputCost rates usage.inputs split.cached usage.written := by
    cases h : usage.written with
    | some n => exact le_of_eq (by rw [hsplit.written n h])
    | none => exact inputCost_some_le_none hsplit.written_nonneg hsplit.le
  cases h : usage.cached with
  | some n =>
      rw [Option.getD_some, ← hsplit.cached n h]
      exact hunwritten
  | none => exact hunwritten.trans (inputCost_uncached_le hrates hsplit.cached_nonneg _)

/-- **The settlement covers the true cost**. -/
theorem split_cost_le {usage : Usage} {split : Split} (hrates : rates.cached ≤ rates.input)
    (hsplit : split.Fits usage) : split.cost rates usage ≤ settledCost rates usage :=
  ceil_mono (longContext_mono (inputCost_split_le hrates hsplit))

section Settlement

variable (inputs outputs : Int) (cachedField writtenField : Json)

/-- The accepted counts lie within the inputs. -/
theorem usage_bounds (hinputs : 0 ≤ inputs) :
    0 ≤ (Usage.of inputs outputs cachedField writtenField).cached.getD 0 ∧
      (Usage.of inputs outputs cachedField writtenField).cached.getD 0 ≤ inputs ∧
      ∀ n, (Usage.of inputs outputs cachedField writtenField).written = some n →
        0 ≤ n ∧ (Usage.of inputs outputs cachedField writtenField).cached.getD 0 + n ≤ inputs := by
  have hcached : 0 ≤ (acceptedCached inputs cachedField).getD 0 ∧
      (acceptedCached inputs cachedField).getD 0 ≤ inputs := by
    cases h : acceptedCached inputs cachedField with
    | some n => exact acceptedCached_bounds h
    | none => exact ⟨le_refl _, hinputs⟩
  refine ⟨hcached.1, hcached.2, fun n hn => ?_⟩
  obtain ⟨hpos, hle⟩ := acceptedWritten_bounds hn
  exact ⟨hpos, by show (acceptedCached inputs cachedField).getD 0 + n ≤ inputs; omega⟩

/-- The settled input side is never negative. -/
theorem settled_nonneg (hinputs : 0 ≤ inputs) :
    0 ≤ inputCost rates inputs ((Usage.of inputs outputs cachedField writtenField).cached.getD 0)
      (Usage.of inputs outputs cachedField writtenField).written := by
  obtain ⟨hpos, hle, hwritten⟩ := usage_bounds inputs outputs cachedField writtenField hinputs
  cases h : (Usage.of inputs outputs cachedField writtenField).written with
  | some n => exact inputCost_nonneg hpos (hwritten n h).1 (hwritten n h).2
  | none =>
      have hsplit : (Usage.of inputs outputs cachedField writtenField).cached.getD 0 + 0 ≤ inputs := by omega
      exact (inputCost_nonneg hpos (le_refl 0) hsplit).trans (inputCost_some_le_none (le_refl 0) hsplit)

/-- The settled input side is covered by the reservation. -/
theorem settled_le_reservation {inputBound : Int} (hrates : rates.cached ≤ rates.input) (hinputs : 0 ≤ inputs)
    (hbound : inputs ≤ inputBound) :
    inputCost rates inputs ((Usage.of inputs outputs cachedField writtenField).cached.getD 0)
        (Usage.of inputs outputs cachedField writtenField).written
      ≤ inputCost rates.reservation inputBound 0 none := by
  obtain ⟨hpos, _, hwritten⟩ := usage_bounds inputs outputs cachedField writtenField hinputs
  refine (inputCost_uncached_le hrates hpos _).trans (le_trans ?_ (inputCost_le_reservation hinputs hbound))
  cases h : (Usage.of inputs outputs cachedField writtenField).written with
  | some n =>
      have hn := hwritten n h
      exact inputCost_some_le_none hn.1 (by omega)
  | none => exact le_refl _

/-- **The reservation covers the settlement**. -/
theorem settledCost_le_reservedCost {inputBound outputLimit : Int} (hrates : rates.cached ≤ rates.input)
    (hinputs : 0 ≤ inputs) (hbound : inputs ≤ inputBound) (houtputs : 0 ≤ outputs)
    (hlimit : outputs ≤ outputLimit) :
    settledCost rates (Usage.of inputs outputs cachedField writtenField)
      ≤ reservedCost rates inputBound outputLimit := by
  have hle := settled_le_reservation inputs outputs cachedField writtenField hrates hinputs hbound
  refine ceil_mono (longContext_le hbound hle ?_ ?_ ?_)
  · exact (settled_nonneg inputs outputs cachedField writtenField hinputs).trans hle
  · exact mul_le_mul_of_nonneg_right hlimit (Int.natCast_nonneg _)
  · exact mul_nonneg (houtputs.trans hlimit) (Int.natCast_nonneg _)

/-- No settlement is negative. -/
theorem settledCost_nonneg (hinputs : 0 ≤ inputs) (houtputs : 0 ≤ outputs) :
    0 ≤ settledCost rates (Usage.of inputs outputs cachedField writtenField) := by
  have hinput : 0 ≤ inputCost rates inputs _ _ := settled_nonneg inputs outputs cachedField writtenField hinputs
  have houtput : 0 ≤ outputs * (rates.output : Int) := mul_nonneg houtputs (Int.natCast_nonneg _)
  have htotal : 0 ≤ longContext inputs _ _ := longContext_nonneg hinput houtput
  exact Int.ediv_nonneg (add_nonneg htotal (by decide)) (by decide)

end Settlement

end Bounds

/-- **A settlement lies between the true cost and the reservation**, whatever
of the usage is reported. -/
theorem settlement_sandwiched (rates : ModelRates) (hrates : rates.cached ≤ rates.input)
    (inputBound outputLimit inputs outputs : Int) (hinputs : 0 ≤ inputs) (hbound : inputs ≤ inputBound)
    (houtputs : 0 ≤ outputs) (hlimit : outputs ≤ outputLimit) (cachedField writtenField : Json)
    (split : Split) (hsplit : split.Fits (Usage.of inputs outputs cachedField writtenField)) :
    split.cost rates (Usage.of inputs outputs cachedField writtenField)
        ≤ settledCost rates (Usage.of inputs outputs cachedField writtenField) ∧
      settledCost rates (Usage.of inputs outputs cachedField writtenField)
        ≤ reservedCost rates inputBound outputLimit ∧
      0 ≤ settledCost rates (Usage.of inputs outputs cachedField writtenField) :=
  ⟨split_cost_le hrates hsplit,
    settledCost_le_reservedCost inputs outputs cachedField writtenField hrates hinputs hbound houtputs hlimit,
    settledCost_nonneg inputs outputs cachedField writtenField hinputs houtputs⟩

/-- The default rates, a response without cache writes, and a bound beyond the threshold. -/
theorem settlement_sandwiched_threshold :
    (Split.mk 100 50).cost ⟨200000000, 20000000, 250000000, 1200000000⟩ (Usage.of 272000 10 (.int 100) .null)
        ≤ settledCost ⟨200000000, 20000000, 250000000, 1200000000⟩ (Usage.of 272000 10 (.int 100) .null) ∧
      settledCost ⟨200000000, 20000000, 250000000, 1200000000⟩ (Usage.of 272000 10 (.int 100) .null)
        ≤ reservedCost ⟨200000000, 20000000, 250000000, 1200000000⟩ 272001 8192 ∧
      0 ≤ settledCost ⟨200000000, 20000000, 250000000, 1200000000⟩ (Usage.of 272000 10 (.int 100) .null) := by
  refine settlement_sandwiched ⟨200000000, 20000000, 250000000, 1200000000⟩ (by decide) 272001 8192 272000 10
    (by decide) (by decide) (by decide) (by decide) (.int 100) .null ⟨100, 50⟩ ⟨by decide, by decide, by decide, ?_, ?_⟩
  · intro n hn
    have hn : some (100 : Int) = some n := hn
    exact Option.some.inj hn
  · intro n hn
    cases hn

end WebBuilder.Budget
