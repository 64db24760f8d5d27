/-
  DfDerive.Columns.Instants — columns of `chrono::DateTime<Tz>` and `NaiveDateTime` leaves.

  An instant is its nanoseconds from the epoch, a cell the whole units of its column.
  `LeafDomain` says of a leaf kind which values of its Rust type have encodings, and its
  lemmas what follows for the columns and the batches of every struct. Of `chrono` only what it
  documents is used (`Chrono.CountsInstants`): it counts outside leap seconds.
  `Instant.encode_iff`: the encoding rounds down, and fails only in nanoseconds, out of `i64`.
  `instant_columns`: so do the columns, and they keep the order of the instants.
-/

import DfDerive.Columns.Alone
import DfDerive.Derived.Batches

namespace DfDerive

open Lib

/-! ## Units -/

def FitsI64 (n : Int) : Prop := -(2 ^ 63) ≤ n ∧ n < 2 ^ 63

instance (n : Int) : Decidable (FitsI64 n) := inferInstanceAs (Decidable (_ ∧ _))

theorem checkedI64_of {n : Int} (h : FitsI64 n) : checkedI64 n = some n := if_pos h

theorem checkedI64_of_not {n : Int} (h : ¬ FitsI64 n) : checkedI64 n = none := if_neg h

/-- The nanoseconds of a unit. -/
def DateTimeUnit.nanos : DateTimeUnit → Int
  | milliseconds => 1000000
  | microseconds => 1000
  | nanoseconds => 1

theorem DateTimeUnit.nanos_pos (unit : DateTimeUnit) : 0 < unit.nanos := by cases unit <;> decide

/-- `n` is `nanos` in whole units, rounded down. -/
def RoundsDown (unit : DateTimeUnit) (nanos n : Int) : Prop :=
  n * unit.nanos ≤ nanos ∧ nanos < (n + 1) * unit.nanos

/-- `n` is `nanos` in whole units, rounded towards zero. -/
def RoundsToZero (unit : DateTimeUnit) (nanos n : Int) : Prop :=
  (0 ≤ nanos → RoundsDown unit nanos n) ∧ (nanos ≤ 0 → RoundsDown unit (-nanos) (-n))

section

variable {unit : DateTimeUnit} {a b n m : Int}

theorem RoundsDown.mono (hn : RoundsDown unit a n) (hm : RoundsDown unit b m) (h : a ≤ b) : n ≤ m := by
  have hlt : n * unit.nanos < (m + 1) * unit.nanos := lt_of_le_of_lt hn.1 (lt_of_le_of_lt h hm.2)
  exact Int.lt_add_one_iff.mp (lt_of_mul_lt_mul_right hlt unit.nanos_pos.le)

theorem RoundsDown.unique (hn : RoundsDown unit a n) (hm : RoundsDown unit a m) : n = m :=
  le_antisymm (hn.mono hm le_rfl) (hm.mono hn le_rfl)

theorem RoundsDown.nonneg (hn : RoundsDown unit a n) (h : 0 ≤ a) : 0 ≤ n := by
  refine RoundsDown.mono ⟨?_, ?_⟩ hn h
  · rw [zero_mul]
  · rw [zero_add, one_mul]
    exact unit.nanos_pos

theorem RoundsToZero.mono (hn : RoundsToZero unit a n) (hm : RoundsToZero unit b m) (h : a ≤ b) : n ≤ m := by
  rcases le_total 0 a with ha | ha
  · exact (hn.1 ha).mono (hm.1 (ha.trans h)) h
  · rcases le_total 0 b with hb | hb
    · -- on both sides of zero
      have hleft := (hn.2 ha).nonneg (by omega)
      have hright := (hm.1 hb).nonneg hb
      omega
    · have hneg := (hm.2 hb).mono (hn.2 ha) (by omega)
      omega

theorem RoundsToZero.unique (hn : RoundsToZero unit a n) (hm : RoundsToZero unit a m) : n = m :=
  le_antisymm (hn.mono hm le_rfl) (hm.mono hn le_rfl)

end

/-! ## Leaves that can fail -/

/-- The values of a leaf's Rust type are `Is`, and those with an encoding are `Has`. -/
structure LeafDomain (tr : Traits) (leaf : PrimitiveLeaf) (Is Has : Value → Prop) : Prop where
  cast : leaf.dtype ≠ .time
  typed : ∀ {u}, Is u → LeafTyped leaf u
  encodes : ∀ {u}, Is u → (Encodes tr leaf u ↔ Has u)

namespace LeafDomain

variable {tr : Traits} {leaf : PrimitiveLeaf} {Is Has : Value → Prop}

/-- The columns of the leaf convert exactly when their lists fit and their leaves have encodings. -/
theorem columns (h : LeafDomain tr leaf Is Has) (s : DerivedStruct) (env : Env) (henv : env.traits = tr) :
    List.Forall₂ (fun c r => ∀ items : List Operand, r.route = .primitive leaf → RowItems items →
      (∀ it ∈ items, r.walk.typed Is it.erase) →
        Run.Spec (c.run env items) (r.walk.fits (fun us => ∀ u ∈ us, Has u) (items.map Operand.erase))
          (PrimitiveColumn leaf (leafCell tr leaf) r.walk c.name (items.map Operand.erase)))
      s.ir.columns s.refs := by
  subst henv
  refine s.each_column fun c r hcr items hroute hrows ht => ?_
  have hrun := hcr.follows.run_primitive env (hcr.route.trans hroute) hrows
    fun it hit => r.walk.typed_mono _ _ _ (fun _ hu => h.typed hu) (ht it hit)
  rw [columnCell_of_ne h.cast] at hrun
  refine Runs.congr hrun ?_
  rw [r.walk.fits_iff (AllEncode _ _), r.walk.fits_iff (fun us => ∀ u ∈ us, Has u)]
  exact and_congr_right fun _ => forall₂_congr fun u hu => h.encodes (Walk.leaves_typed ht u hu)

/-- One leaf without an encoding fails the whole batch. -/
theorem batch_fails (h : LeafDomain tr leaf Is Has) (s : DerivedStruct) (typeName : String) (types : TypePath → TypeTree)
    {vs : List Value} (ht : ∀ v ∈ vs, ((TypeTree.derived s typeName types).spec tr).typed v) {r : ColumnRef}
    (hr : r ∈ s.refs) (hroute : r.route = .primitive leaf) {v : Value} (hv : v ∈ vs) {u : Value} (hu : u ∈ r.walk.leaves v)
    (his : Is u) (hnot : ¬ Has u) : (((TypeTree.derived s typeName types).impl tr).columnarToDataframe vs).Fails := by
  have hm := TypeTree.models tr (.derived s typeName types)
  refine (hm.fails ht).mpr fun ⟨_, haccepts⟩ => hnot ?_
  have hrow := (@structRow_accepts ⟨tr, fun ty => (types ty).impl tr⟩ (fun ty => (types ty).spec tr) s.refs vs).mp haccepts r hr
  have haccepted := ((r.walk.fits_iff _ vs).mp ((RowSpec.accepts_under _ _ vs).mp hrow)).2
  rw [hroute] at haccepted
  exact (h.encodes his).mp (haccepted.2 u (List.mem_flatMap.mpr ⟨v, hv, hu⟩))

end LeafDomain

/-! ## Instants -/

/-- The UTC instant of a `DateTime<Tz>`, or a `NaiveDateTime` read as one: chrono's seconds from
    the epoch, and nanoseconds with a leap second's. -/
structure Instant where
  secs : Int
  nanos : Nat
  secs_ge : -8334601228800 ≤ secs
  secs_le : secs ≤ 8210266876799
  nanos_lt : nanos < 2000000000

namespace Instant

variable (t : Instant)

def toValue : Value := .scalar (.timestamp t.secs t.nanos)

def nanoseconds : Int := t.secs * 1000000000 + t.nanos

/-- chrono's order: by the seconds, then by the nanoseconds. -/
def Before (t u : Instant) : Prop := t.secs < u.secs ∨ t.secs = u.secs ∧ t.nanos < u.nanos

def Leap : Prop := 1000000000 ≤ t.nanos

instance : Decidable t.Leap := inferInstanceAs (Decidable (_ ≤ _))

/-- A column of nanoseconds holds what fits `i64`. -/
def Fits : DateTimeUnit → Prop
  | .nanoseconds => FitsI64 t.nanoseconds
  | _ => True

theorem before_nanoseconds {t u : Instant} (ht : ¬ t.Leap) (h : t.Before u) : t.nanoseconds < u.nanoseconds := by
  obtain ⟨secs, nanos, _, _, _⟩ := t
  obtain ⟨secs', nanos', _, _, _⟩ := u
  simp only [Leap, Before, nanoseconds] at ht h ⊢
  omega

/-- chrono's range is `i64` milliseconds and microseconds. -/
theorem rounded_fits {t : Instant} {unit : DateTimeUnit} {n : Int} (h : t.Fits unit)
    (hn : RoundsDown unit t.nanoseconds n) : FitsI64 n := by
  obtain ⟨secs, nanos, hge, hle, hlt⟩ := t
  cases unit with
  | milliseconds =>
    simp only [RoundsDown, DateTimeUnit.nanos, nanoseconds, FitsI64] at hn ⊢
    omega
  | microseconds =>
    simp only [RoundsDown, DateTimeUnit.nanos, nanoseconds, FitsI64] at hn ⊢
    omega
  | nanoseconds =>
    simp only [Fits, RoundsDown, DateTimeUnit.nanos, nanoseconds, FitsI64] at hn h ⊢
    omega

end Instant

/-- `chrono` documents the counts of non-leap milliseconds, microseconds and nanoseconds from the
    epoch: the seconds and what has passed since the last one. The nanoseconds are `None` out of
    the range of `i64`. -/
structure Chrono.CountsInstants (chrono : Chrono) : Prop where
  millis : ∀ t : Instant, ¬ t.Leap → chrono.timestampMillis t.secs t.nanos = t.secs * 1000 + (t.nanos / 1000000 : Nat)
  micros : ∀ t : Instant, ¬ t.Leap → chrono.timestampMicros t.secs t.nanos = t.secs * 1000000 + (t.nanos / 1000 : Nat)
  nanos : ∀ t : Instant, ¬ t.Leap → chrono.timestampNanosOpt t.secs t.nanos = checkedI64 t.nanoseconds

namespace Instant

variable {chrono : Chrono} (hchrono : chrono.CountsInstants) {t : Instant} (hleap : ¬ t.Leap) {unit : DateTimeUnit}
  {e : DeriveError}

include hchrono hleap

theorem encode_ok (h : t.Fits unit) :
    ∃ n, mapDateTime chrono unit e t.toValue = .ok (.int n) ∧ RoundsDown unit t.nanoseconds n := by
  cases unit with
  | milliseconds =>
    refine ⟨_, rfl, ?_⟩
    rw [hchrono.millis t hleap]
    simp only [RoundsDown, DateTimeUnit.nanos, nanoseconds]
    omega
  | microseconds =>
    refine ⟨_, rfl, ?_⟩
    rw [hchrono.micros t hleap]
    simp only [RoundsDown, DateTimeUnit.nanos, nanoseconds]
    omega
  | nanoseconds =>
    refine ⟨t.nanoseconds, ?_, ?_⟩
    · simp only [toValue, mapDateTime, hchrono.nanos t hleap, checkedI64_of h, orErr]
    · simp only [RoundsDown, DateTimeUnit.nanos]
      omega

theorem encode_error (h : ¬ t.Fits unit) : mapDateTime chrono unit e t.toValue = .error (.err (.compute e)) := by
  cases unit with
  | milliseconds => exact absurd trivial h
  | microseconds => exact absurd trivial h
  | nanoseconds => simp only [toValue, mapDateTime, hchrono.nanos t hleap, checkedI64_of_not h, orErr, Run.derive]

theorem encode_iff (n : Int) :
    mapDateTime chrono unit e t.toValue = .ok (.int n) ↔ t.Fits unit ∧ RoundsDown unit t.nanoseconds n := by
  by_cases h : t.Fits unit
  · obtain ⟨m, hm, hround⟩ := encode_ok (e := e) hchrono hleap h
    rw [hm, and_iff_right h]
    constructor
    · rintro ⟨⟩
      exact hround
    · intro hn
      rw [hn.unique hround]
  · rw [encode_error hchrono hleap h]
    constructor
    · exact nofun
    · exact fun hc => absurd hc.1 h

end Instant

/-- An instant outside leap seconds. -/
def IsInstant (u : Value) : Prop := ∃ t : Instant, ¬ t.Leap ∧ u = t.toValue

/-- An instant a column of the unit holds. -/
def HoldsInstant (unit : DateTimeUnit) (u : Value) : Prop := ∃ t : Instant, ¬ t.Leap ∧ u = t.toValue ∧ t.Fits unit

/-- The two leaf kinds of instants, and what a failed conversion reports. -/
inductive InstantLeaf (unit : DateTimeUnit) : PrimitiveLeaf → DeriveError → Prop
  | dateTime : InstantLeaf unit (.dateTime unit) .dateTimeNanos
  | naiveDateTime : InstantLeaf unit (.naiveDateTime unit) .naiveDateTimeNanos

theorem InstantLeaf.encode {unit : DateTimeUnit} {leaf : PrimitiveLeaf} {e : DeriveError} (h : InstantLeaf unit leaf e)
    (tr : Traits) (t : Instant) : leaf.encode tr t.toValue = mapDateTime tr.chrono unit e t.toValue := by
  cases h <;> rfl

theorem InstantLeaf.domain {unit : DateTimeUnit} {leaf : PrimitiveLeaf} {e : DeriveError} (h : InstantLeaf unit leaf e)
    {tr : Traits} (hchrono : tr.chrono.CountsInstants) : LeafDomain tr leaf IsInstant (HoldsInstant unit) where
  cast := by cases h <;> exact nofun
  typed := by
    rintro _ ⟨t, -, rfl⟩
    cases h <;> exact ⟨t.secs, t.nanos, rfl⟩
  encodes := by
    rintro _ ⟨t, hleap, rfl⟩
    constructor
    · rintro ⟨p, hp⟩
      refine ⟨t, hleap, rfl, ?_⟩
      by_contra hnot
      rw [h.encode, Instant.encode_error hchrono hleap hnot] at hp
      cases hp
    · rintro ⟨t', hleap', ht, hfits⟩
      obtain ⟨n, hn, -⟩ := Instant.encode_ok (e := e) hchrono hleap' hfits
      exact ⟨.int n, by rw [ht, h.encode, hn]⟩

/-- Outside leap seconds, a column of instants holds their whole units, rounded down; what does
    not fit is an error that fails the batch; and a column keeps the order of the instants. -/
theorem instant_columns (tr : Traits) (hchrono : tr.chrono.CountsInstants) {unit : DateTimeUnit} {leaf : PrimitiveLeaf}
    {e : DeriveError} (hleaf : InstantLeaf unit leaf e) :
    (∀ t : Instant, ¬ t.Leap →
      (∀ n, leafCell tr leaf t.toValue = .val (.int n) ↔ t.Fits unit ∧ RoundsDown unit t.nanoseconds n) ∧
      (∀ n, leafCell tr leaf t.toValue = .val (.int n) → FitsI64 n) ∧
      (¬ t.Fits unit → leaf.encode tr t.toValue = .error (.err (.compute e)))) ∧
    (∀ (t u : Instant) (n m : Int), ¬ t.Leap → ¬ u.Leap → leafCell tr leaf t.toValue = .val (.int n) →
      leafCell tr leaf u.toValue = .val (.int m) → t.Before u → n ≤ m ∧ (unit = .nanoseconds → n < m)) ∧
    (∀ (s : DerivedStruct) (env : Env), env.traits = tr → List.Forall₂ (fun c r => ∀ items : List Operand,
      r.route = .primitive leaf → RowItems items → (∀ it ∈ items, r.walk.typed IsInstant it.erase) →
          Run.Spec (c.run env items) (r.walk.fits (fun us => ∀ u ∈ us, HoldsInstant unit u) (items.map Operand.erase))
            (PrimitiveColumn leaf (leafCell tr leaf) r.walk c.name (items.map Operand.erase)))
      s.ir.columns s.refs) ∧
    (∀ (s : DerivedStruct) (typeName : String) (types : TypePath → TypeTree) (vs : List Value),
      (∀ v ∈ vs, ((TypeTree.derived s typeName types).spec tr).typed v) →
        ∀ r ∈ s.refs, r.route = .primitive leaf → ∀ v ∈ vs, ∀ u ∈ r.walk.leaves v,
          IsInstant u → ¬ HoldsInstant unit u →
            (((TypeTree.derived s typeName types).impl tr).columnarToDataframe vs).Fails) := by
  have hcell : ∀ (t : Instant) (n : Int), ¬ t.Leap → (leafCell tr leaf t.toValue = .val (.int n) ↔
      t.Fits unit ∧ RoundsDown unit t.nanoseconds n) := by
    intro t n hleap
    rw [leafCell, hleaf.encode, ← Instant.encode_iff (e := e) hchrono hleap]
    cases mapDateTime tr.chrono unit e t.toValue with
    | ok p => simp
    | error f => simp
  refine ⟨fun t hleap => ⟨fun n => hcell t n hleap, ?_, ?_⟩, ?_, (hleaf.domain hchrono).columns, ?_⟩
  · intro n hn
    obtain ⟨hfits, hround⟩ := (hcell t n hleap).mp hn
    exact Instant.rounded_fits hfits hround
  · intro hnot
    rw [hleaf.encode, Instant.encode_error hchrono hleap hnot]
  · intro t u n m hleap hleap' hn hm hbefore
    have hlt := Instant.before_nanoseconds hleap hbefore
    obtain ⟨-, hround⟩ := (hcell t n hleap).mp hn
    obtain ⟨-, hround'⟩ := (hcell u m hleap').mp hm
    refine ⟨hround.mono hround' hlt.le, ?_⟩
    rintro rfl
    simp only [RoundsDown, DateTimeUnit.nanos] at hround hround'
    omega
  · intro s typeName types vs ht r hr hroute v hv u hu his hnot
    exact (hleaf.domain hchrono).batch_fails s typeName types ht hr hroute hv hu his hnot

theorem countingChrono_instants : countingChrono.CountsInstants where
  millis _ _ := rfl
  micros _ _ := rfl
  nanos _ _ := rfl

/-- The last nanosecond before the range of `i64` is an error, the first one in it a cell. -/
theorem instant_columns_nanos :
    (PrimitiveLeaf.dateTime .nanoseconds).encode brokenTraits (.scalar (.timestamp (-9223372037) 145224191)) =
      .error (.err (.compute .dateTimeNanos)) ∧
    leafCell brokenTraits (.dateTime .nanoseconds) (.scalar (.timestamp (-9223372037) 145224192)) = .val (.int (-(2 ^ 63))) := by
  have hall := (instant_columns brokenTraits countingChrono_instants (@InstantLeaf.dateTime .nanoseconds)).1
  constructor
  · refine (hall ⟨-9223372037, 145224191, by decide, by decide, by decide⟩ (by decide)).2.2 ?_
    simp only [Instant.Fits, Instant.nanoseconds, FitsI64]
    decide
  · refine ((hall ⟨-9223372037, 145224192, by decide, by decide, by decide⟩ (by decide)).1 _).mpr ?_
    simp only [Instant.Fits, Instant.nanoseconds, FitsI64, RoundsDown, DateTimeUnit.nanos]
    decide

end DfDerive
