/-
  DfDerive.Columns.Times — columns of `chrono::NaiveTime` leaves.

  chrono writes a leap second as sub-second nanoseconds of a whole second and more. Such a time
  at the end of the day is encoded past the `Time` domain without an error, and others are
  encoded at or past times that are later. `naiveTime_faithful_iff`: the encoding of two times
  is faithful exactly when neither is such a time. `naiveTime_columns`: what columns hold.
-/

import DfDerive.Columns.Alone

namespace DfDerive

open Lib

/-- A `chrono::NaiveTime`: seconds from midnight, and nanoseconds with a leap second's. -/
structure NaiveTime where
  secs : Nat
  nanos : Nat
  secs_lt : secs < 86400
  nanos_lt : nanos < 2000000000

namespace NaiveTime

def toValue (t : NaiveTime) : Value := .scalar (.time t.secs t.nanos)

/-- chrono's order: by the seconds, then by the nanoseconds. -/
def Before (t u : NaiveTime) : Prop := t.secs < u.secs ∨ t.secs = u.secs ∧ t.nanos < u.nanos

/-- A leap second at the end of the day. -/
def PastMidnight (t : NaiveTime) : Prop := t.secs = 86399 ∧ 1000000000 ≤ t.nanos

/-- A leap second that reaches `u`, of the next second. -/
def Overlaps (t u : NaiveTime) : Prop := u.secs = t.secs + 1 ∧ u.nanos + 1000000000 ≤ t.nanos

/-- The nanoseconds the derive computes. -/
def encoded (t : NaiveTime) : Int := t.secs * 1000000000 + t.nanos

theorem encode_eq (tr : Traits) (t : NaiveTime) : PrimitiveLeaf.naiveTime.encode tr t.toValue = .ok (.int t.encoded) := rfl

end NaiveTime

abbrev InTimeDomain (n : Int) : Prop := 0 ≤ n ∧ n < Series.nanosecondsInDay

/-- A time is in the domain of `Time` or an error, and a column without lists has the cell a
    column with lists has. -/
structure NaiveTime.InDomain (tr : Traits) (t : NaiveTime) : Prop where
  domain : ∀ n, PrimitiveLeaf.naiveTime.encode tr t.toValue = .ok (.int n) → InTimeDomain n
  cells : ∀ depth, columnCell tr .naiveTime 0 t.toValue = columnCell tr .naiveTime (depth + 1) t.toValue

/-- The encoding is faithful to two times. -/
structure FaithfulTimes (tr : Traits) (t u : NaiveTime) : Prop where
  left : t.InDomain tr
  right : u.InDomain tr
  before : t.Before u → ∀ n m, PrimitiveLeaf.naiveTime.encode tr t.toValue = .ok (.int n) →
    PrimitiveLeaf.naiveTime.encode tr u.toValue = .ok (.int m) → n < m
  after : u.Before t → ∀ n m, PrimitiveLeaf.naiveTime.encode tr t.toValue = .ok (.int n) →
    PrimitiveLeaf.naiveTime.encode tr u.toValue = .ok (.int m) → m < n

namespace NaiveTime

theorem inTimeDomain_iff (t : NaiveTime) : InTimeDomain t.encoded ↔ ¬ t.PastMidnight := by
  obtain ⟨secs, nanos, hs, hn⟩ := t
  simp only [InTimeDomain, encoded, PastMidnight, Series.nanosecondsInDay]
  omega

theorem encoded_lt_iff {t u : NaiveTime} (h : t.Before u) : t.encoded < u.encoded ↔ ¬ t.Overlaps u := by
  obtain ⟨secs, nanos, hs, hn⟩ := t
  obtain ⟨secs', nanos', hs', hn'⟩ := u
  simp only [Before] at h
  simp only [encoded, Overlaps]
  omega

theorem overlaps_before {t u : NaiveTime} (h : t.Overlaps u) : t.Before u := by
  obtain ⟨hsecs, -⟩ := h
  exact Or.inl (by omega)

/-- The cell of a time in a column without lists: out of the domain it is cast to null. -/
theorem scalar_cell (tr : Traits) (t : NaiveTime) :
    columnCell tr .naiveTime 0 t.toValue = if InTimeDomain t.encoded then .val (.int t.encoded) else .null := by
  rw [columnCell, if_pos rfl, scalarCell, Encodes.cell (t.encode_eq tr), Series.castCell]
  by_cases h : InTimeDomain t.encoded
  · rw [if_neg fun hc => hc.2 h, if_pos h]
  · rw [if_pos ⟨rfl, h⟩, if_neg h]

theorem inDomain_iff (tr : Traits) (t : NaiveTime) : t.InDomain tr ↔ ¬ t.PastMidnight := by
  rw [← inTimeDomain_iff]
  constructor
  · exact fun h => h.domain _ (t.encode_eq tr)
  · intro h
    refine ⟨fun n hn => ?_, fun depth => ?_⟩
    · rw [encode_eq] at hn
      cases hn
      exact h
    · rw [scalar_cell, if_pos h]
      rfl

end NaiveTime

/-- The encoding of two times is faithful exactly when neither is a leap second at the end of
    the day nor reaches the other. The cells are those of the columns of every struct. -/
theorem naiveTime_faithful_iff (tr : Traits) :
    (∀ t u : NaiveTime, FaithfulTimes tr t u ↔
      ¬ t.PastMidnight ∧ ¬ u.PastMidnight ∧ ¬ t.Overlaps u ∧ ¬ u.Overlaps t) ∧
    (∀ (s : DerivedStruct) (env : Env), env.traits = tr → List.Forall₂ (fun c r => ∀ items : List Operand,
      r.route = .primitive .naiveTime → RowItems items →
        (∀ it ∈ items, r.walk.typed (fun v => ∃ t : NaiveTime, v = t.toValue) it.erase) →
          Run.Spec (c.run env items) (r.walk.fits (fun _ => True) (items.map Operand.erase))
            (PrimitiveColumn .naiveTime (columnCell tr .naiveTime r.walk.depth) r.walk c.name (items.map Operand.erase)))
      s.ir.columns s.refs) := by
  constructor
  · intro t u
    constructor
    · intro h
      refine ⟨(t.inDomain_iff tr).mp h.left, (u.inDomain_iff tr).mp h.right, fun ho => ?_, fun ho => ?_⟩
      · have hbefore := NaiveTime.overlaps_before ho
        exact (NaiveTime.encoded_lt_iff hbefore).mp (h.before hbefore _ _ (t.encode_eq tr) (u.encode_eq tr)) ho
      · have hbefore := NaiveTime.overlaps_before ho
        exact (NaiveTime.encoded_lt_iff hbefore).mp (h.after hbefore _ _ (t.encode_eq tr) (u.encode_eq tr)) ho
    · rintro ⟨ht, hu, htu, hut⟩
      refine ⟨(t.inDomain_iff tr).mpr ht, (u.inDomain_iff tr).mpr hu, fun hbefore n m hn hm => ?_,
        fun hbefore n m hn hm => ?_⟩
      · cases hn
        cases hm
        exact (NaiveTime.encoded_lt_iff hbefore).mpr htu
      · cases hn
        cases hm
        exact (NaiveTime.encoded_lt_iff hbefore).mpr hut
  · rintro s env rfl
    refine s.each_column fun c r hcr items hroute hrows ht => ?_
    have htyped : ∀ it ∈ items, r.walk.typed (LeafTyped .naiveTime) it.erase := fun it hit =>
      r.walk.typed_mono _ _ _ (fun _ ⟨t, ht⟩ => ⟨t.secs, t.nanos, ht⟩) (ht it hit)
    refine Runs.congr (hcr.follows.run_primitive env (hcr.route.trans hroute) hrows htyped) ?_
    rw [r.walk.fits_iff (AllEncode _ _)]
    refine and_iff_left fun u hu => ?_
    obtain ⟨v, hv, hu⟩ := List.mem_flatMap.mp hu
    obtain ⟨it, hit, rfl⟩ := List.mem_map.mp hv
    obtain ⟨t, rfl⟩ := r.walk.typed_leaves _ _ (ht it hit) u hu
    exact ⟨_, t.encode_eq env.traits⟩

/-- Half a second into a leap second at 23:59:59, and a leap second at 00:00:10 that reaches
    the next second. -/
theorem naiveTime_leap :
    ¬ FaithfulTimes brokenTraits ⟨86399, 1500000000, by decide, by decide⟩ ⟨86399, 1500000000, by decide, by decide⟩ ∧
    PrimitiveLeaf.naiveTime.encode brokenTraits (.scalar (.time 86399 1500000000)) = .ok (.int 86400500000000) ∧
    ¬ InTimeDomain 86400500000000 ∧
    columnCell brokenTraits .naiveTime 0 (.scalar (.time 86399 1500000000)) = .null ∧
    columnCell brokenTraits .naiveTime 1 (.scalar (.time 86399 1500000000)) = .val (.int 86400500000000) ∧
    PrimitiveLeaf.naiveTime.encode brokenTraits (.scalar (.time 10 1500000000)) =
      PrimitiveLeaf.naiveTime.encode brokenTraits (.scalar (.time 11 500000000)) := by
  refine ⟨fun h => ?_, rfl, by decide, rfl, rfl, rfl⟩
  exact absurd (h.left.domain _ rfl) (by decide)

end DfDerive
