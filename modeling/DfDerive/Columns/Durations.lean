/-
  DfDerive.Columns.Durations — columns of `std::time::Duration` and `chrono::TimeDelta` leaves.

  `Span.encode_iff`: both are rounded towards zero to the unit of the column, and a duration is
  an error exactly when its whole units do not fit `i64`. Of `chrono` only what it documents is
  used (`Chrono.CountsSpans`).
  `duration_columns`: so is it in the columns of every struct.
-/

import DfDerive.Columns.Instants

namespace DfDerive

open Lib

/-! ## Spans -/

/-- The nanoseconds a source's durations have: chrono's are `i64` milliseconds either way, the
    standard library's `u64` seconds. -/
def DurationSource.Spans : DurationSource → Int → Prop
  | .chrono, nanos => -(2 ^ 63 - 1) * 1000000 ≤ nanos ∧ nanos ≤ (2 ^ 63 - 1) * 1000000
  | .std, nanos => 0 ≤ nanos ∧ nanos < 2 ^ 64 * 1000000000

/-- A duration: whole seconds, rounded down, and the nanoseconds after them. -/
structure Span (source : DurationSource) where
  secs : Int
  nanos : Nat
  nanos_lt : nanos < 1000000000
  within : source.Spans (secs * 1000000000 + nanos)

namespace Span

variable {source : DurationSource} (d : Span source)

def toValue : Value := .scalar (.duration d.secs d.nanos)

def nanoseconds : Int := d.secs * 1000000000 + d.nanos

/-- The whole units of a duration fit `i64`. -/
def Fits (unit : DateTimeUnit) : Prop := ∃ n, RoundsToZero unit d.nanoseconds n ∧ FitsI64 n

/-- Truncated division rounds to zero. -/
theorem tdiv_rounds (unit : DateTimeUnit) (n : Int) : RoundsToZero unit n (n.tdiv unit.nanos) := by
  constructor
  · intro h
    rw [Int.tdiv_eq_ediv_of_nonneg h]
    cases unit <;> simp only [RoundsDown, DateTimeUnit.nanos] <;> omega
  · intro h
    have hdiv : n.tdiv unit.nanos = -(-n / unit.nanos) := by
      rw [← Int.tdiv_eq_ediv_of_nonneg (by omega : 0 ≤ -n), Int.neg_tdiv, neg_neg]
    rw [hdiv]
    cases unit <;> simp only [RoundsDown, DateTimeUnit.nanos] <;> omega

theorem fits_iff {unit : DateTimeUnit} {n : Int} (hround : RoundsToZero unit d.nanoseconds n) : d.Fits unit ↔ FitsI64 n := by
  constructor
  · rintro ⟨m, hm, hfits⟩
    rwa [hm.unique hround] at hfits
  · exact fun h => ⟨n, hround, h⟩

end Span

/-- `chrono` documents the whole milliseconds, microseconds and nanoseconds of a `TimeDelta`, the
    latter two `None` out of the range of `i64`. -/
structure Chrono.CountsSpans (chrono : Chrono) : Prop where
  millis : ∀ d : Span .chrono, chrono.numMilliseconds d.secs d.nanos = d.nanoseconds.tdiv 1000000
  micros : ∀ d : Span .chrono, chrono.numMicroseconds d.secs d.nanos = checkedI64 (d.nanoseconds.tdiv 1000)
  nanos : ∀ d : Span .chrono, chrono.numNanoseconds d.secs d.nanos = checkedI64 d.nanoseconds

namespace Span

variable {source : DurationSource} {unit : DateTimeUnit}

/-- What a duration that does not fit reports. -/
def overflowError : DurationSource → DateTimeUnit → DeriveError
  | .std, unit => .stdDuration (timeUnitTokens unit)
  | .chrono, unit => .chronoDuration (timeUnitTokens unit)

theorem stdDurationIn_rounds {secs : Int} {nanos : Nat} (h : 0 ≤ secs * 1000000000 + (nanos : Int)) :
    RoundsToZero unit (secs * 1000000000 + nanos) (stdDurationIn secs nanos unit) := by
  constructor
  · intro _
    cases unit <;> simp only [RoundsDown, DateTimeUnit.nanos, stdDurationIn] <;> omega
  · intro hzero
    cases unit <;> simp only [RoundsDown, DateTimeUnit.nanos, stdDurationIn] <;> omega

/-- chrono's durations are whole milliseconds of `i64`. -/
theorem chrono_fits_millis (d : Span .chrono) : d.Fits .milliseconds := by
  have hround := tdiv_rounds .milliseconds d.nanoseconds
  refine ⟨_, hround, ?_⟩
  obtain ⟨hge, hle⟩ : -(2 ^ 63 - 1) * 1000000 ≤ d.nanoseconds ∧ d.nanoseconds ≤ (2 ^ 63 - 1) * 1000000 := d.within
  obtain ⟨hup, hdown⟩ := hround
  generalize d.nanoseconds.tdiv DateTimeUnit.milliseconds.nanos = n at hup hdown ⊢
  simp only [RoundsDown, DateTimeUnit.nanos] at hup hdown
  simp only [FitsI64]
  omega

/-- The conversion of a source gives the rounded duration when that fits, and its error otherwise. -/
theorem encode_cases {chrono : Chrono} (hchrono : source = .chrono → chrono.CountsSpans) (d : Span source) (unit : DateTimeUnit) :
    ∃ n, RoundsToZero unit d.nanoseconds n ∧
      (d.Fits unit → mapDuration chrono unit source d.toValue = .ok (.int n)) ∧
      (¬ d.Fits unit → mapDuration chrono unit source d.toValue = .error (.err (.compute (overflowError source unit)))) := by
  cases source with
  | std =>
    have hround : RoundsToZero unit d.nanoseconds _ := stdDurationIn_rounds d.within.1
    refine ⟨_, hround, fun h => ?_, fun hnot => ?_⟩
    · simp only [toValue, mapDuration, checkedI64_of ((d.fits_iff hround).mp h), orErr]
    · simp only [toValue, mapDuration, checkedI64_of_not (mt (d.fits_iff hround).mpr hnot), orErr, Run.derive, overflowError]
  | chrono =>
    have hcounts := hchrono rfl
    have hround := tdiv_rounds unit d.nanoseconds
    refine ⟨_, hround, ?_⟩
    rw [d.fits_iff hround]
    cases unit with
    | milliseconds =>
      refine ⟨fun _ => ?_, fun hnot => absurd ((d.fits_iff hround).mp d.chrono_fits_millis) hnot⟩
      simp only [toValue, mapDuration, hcounts.millis d]
      rfl
    | microseconds =>
      refine ⟨fun h => ?_, fun h => ?_⟩
      · simp only [toValue, mapDuration, hcounts.micros d]
        exact congrArg (orErr _) (checkedI64_of h)
      · simp only [toValue, mapDuration, hcounts.micros d]
        exact congrArg (orErr _) (checkedI64_of_not h)
    | nanoseconds =>
      simp only [DateTimeUnit.nanos, Int.tdiv_one]
      refine ⟨fun h => ?_, fun h => ?_⟩
      · simp only [toValue, mapDuration, hcounts.nanos d, checkedI64_of h, orErr]
      · simp only [toValue, mapDuration, hcounts.nanos d, checkedI64_of_not h, orErr, Run.derive, overflowError, timeUnitTokens]

theorem encode_iff {chrono : Chrono} (hchrono : source = .chrono → chrono.CountsSpans) (d : Span source) (n : Int) :
    mapDuration chrono unit source d.toValue = .ok (.int n) ↔ RoundsToZero unit d.nanoseconds n ∧ FitsI64 n := by
  obtain ⟨m, hround, hok, herr⟩ := encode_cases hchrono d unit
  by_cases h : d.Fits unit
  · rw [hok h]
    constructor
    · rintro ⟨⟩
      obtain ⟨k, hk, hfits⟩ := h
      exact ⟨hround, hround.unique hk ▸ hfits⟩
    · rintro ⟨hn, -⟩
      rw [hn.unique hround]
  · rw [herr h]
    constructor
    · exact nofun
    · exact fun hc => absurd ⟨n, hc⟩ h

end Span

/-- A duration of the source whose whole units a column holds. -/
def HoldsSpan (source : DurationSource) (unit : DateTimeUnit) (u : Value) : Prop :=
  ∃ d : Span source, u = d.toValue ∧ d.Fits unit

theorem span_domain {tr : Traits} {source : DurationSource} (hchrono : source = .chrono → tr.chrono.CountsSpans)
    (unit : DateTimeUnit) :
    LeafDomain tr (.duration unit source) (fun u => ∃ d : Span source, u = d.toValue) (HoldsSpan source unit) where
  cast := nofun
  typed := by
    rintro _ ⟨d, rfl⟩
    exact ⟨d.secs, d.nanos, rfl⟩
  encodes := by
    rintro _ ⟨d, rfl⟩
    constructor
    · rintro ⟨p, hp⟩
      refine ⟨d, rfl, ?_⟩
      by_contra hnot
      obtain ⟨_, -, -, herr⟩ := d.encode_cases hchrono unit
      exact absurd (hp.symm.trans (herr hnot)) nofun
    · rintro ⟨d', hd, hfits⟩
      obtain ⟨n, -, hok, -⟩ := d'.encode_cases hchrono unit
      exact ⟨.int n, by rw [hd]; exact hok hfits⟩

/-- A column of durations holds their whole units, rounded towards zero from either source; what
    does not fit `i64` is the error of its source and fails the batch, which no chrono duration
    does in milliseconds; and a column keeps the order of the durations. -/
theorem duration_columns (tr : Traits) (source : DurationSource) (hchrono : source = .chrono → tr.chrono.CountsSpans)
    (unit : DateTimeUnit) :
    (∀ d : Span source,
      (∀ n, leafCell tr (.duration unit source) d.toValue = .val (.int n) ↔ RoundsToZero unit d.nanoseconds n ∧ FitsI64 n) ∧
      (¬ d.Fits unit → (PrimitiveLeaf.duration unit source).encode tr d.toValue =
        .error (.err (.compute (Span.overflowError source unit)))) ∧
      (source = .chrono → unit = .milliseconds → d.Fits unit)) ∧
    (∀ (d d' : Span source) (n m : Int), leafCell tr (.duration unit source) d.toValue = .val (.int n) →
      leafCell tr (.duration unit source) d'.toValue = .val (.int m) → d.nanoseconds ≤ d'.nanoseconds → n ≤ m) ∧
    (∀ (s : DerivedStruct) (env : Env), env.traits = tr → List.Forall₂ (fun c r => ∀ items : List Operand,
      r.route = .primitive (.duration unit source) → RowItems items →
        (∀ it ∈ items, r.walk.typed (fun u => ∃ d : Span source, u = d.toValue) it.erase) →
          Run.Spec (c.run env items) (r.walk.fits (fun us => ∀ u ∈ us, HoldsSpan source unit u) (items.map Operand.erase))
            (PrimitiveColumn (.duration unit source) (leafCell tr (.duration unit source)) r.walk c.name
              (items.map Operand.erase)))
      s.ir.columns s.refs) ∧
    (∀ (s : DerivedStruct) (typeName : String) (types : TypePath → TypeTree) (vs : List Value),
      (∀ v ∈ vs, ((TypeTree.derived s typeName types).spec tr).typed v) →
        ∀ r ∈ s.refs, r.route = .primitive (.duration unit source) → ∀ v ∈ vs, ∀ u ∈ r.walk.leaves v,
          (∃ d : Span source, u = d.toValue) → ¬ HoldsSpan source unit u →
            (((TypeTree.derived s typeName types).impl tr).columnarToDataframe vs).Fails) := by
  have hcell : ∀ (d : Span source) (n : Int), leafCell tr (.duration unit source) d.toValue = .val (.int n) ↔
      RoundsToZero unit d.nanoseconds n ∧ FitsI64 n := by
    intro d n
    rw [← d.encode_iff hchrono, leafCell]
    have hencode : (PrimitiveLeaf.duration unit source).encode tr d.toValue = mapDuration tr.chrono unit source d.toValue := rfl
    rw [hencode]
    cases mapDuration tr.chrono unit source d.toValue with
    | ok p => simp
    | error f => simp
  refine ⟨fun d => ⟨hcell d, ?_, ?_⟩, ?_, (span_domain hchrono unit).columns, ?_⟩
  · obtain ⟨_, -, -, herr⟩ := d.encode_cases hchrono unit
    exact herr
  · rintro rfl rfl
    exact d.chrono_fits_millis
  · intro d d' n m hn hm hle
    exact ((hcell d n).mp hn).1.mono ((hcell d' m).mp hm).1 hle
  · intro s typeName types vs ht r hr hroute v hv u hu his hnot
    exact (span_domain hchrono unit).batch_fails s typeName types ht hr hroute hv hu his hnot

theorem countingChrono_spans : countingChrono.CountsSpans where
  millis _ := rfl
  micros _ := rfl
  nanos _ := rfl

/-- A second and a half before zero is a whole millisecond count; the longest `TimeDelta` has too
    many microseconds. -/
theorem duration_columns_chrono :
    leafCell brokenTraits (.duration .milliseconds .chrono) (.scalar (.duration (-2) 500000000)) = .val (.int (-1500)) ∧
    (PrimitiveLeaf.duration .microseconds .chrono).encode brokenTraits (.scalar (.duration 9223372036854775 807000000)) =
      .error (.err (.compute (.chronoDuration .microseconds))) := by
  have hall := fun unit => (duration_columns brokenTraits .chrono (fun _ => countingChrono_spans) unit).1
  constructor
  · refine ((hall .milliseconds ⟨-2, 500000000, by decide, by simp [DurationSource.Spans]⟩).1 _).mpr ?_
    simp only [RoundsToZero, RoundsDown, Span.nanoseconds, DateTimeUnit.nanos, FitsI64]
    decide
  · have hround := Span.tdiv_rounds .microseconds (9223372036854775 * 1000000000 + 807000000)
    refine (hall .microseconds ⟨9223372036854775, 807000000, by decide, by simp [DurationSource.Spans]⟩).2.1 fun hfits => ?_
    exact absurd ((Span.fits_iff _ hround).mp hfits) (by decide)

end DfDerive
