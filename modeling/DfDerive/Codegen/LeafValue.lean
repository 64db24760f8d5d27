/-
  DfDerive.Codegen.LeafValue — reading a leaf (`encoder/stringy.rs`, leaf value expressions).

  The expressions that read a string, bytes or a displayed text from a leaf value, and the
  leaf encoder `PrimitiveLeaf.encode`: what a leaf value becomes in its column, whichever
  arm or buffer stores it. A leaf of its own type is encoded or reported
  (`encode_runs`).
-/

import DfDerive.Codegen.TypeRegistry
import DfDerive.Spec.Cells

namespace DfDerive

open Lib

/-! ## Text and bytes -/

/-- `String::as_str` -/
def stringAsStr : Value → Run String
  | .scalar (.str s) => .ok s
  | _ => .error .illTyped

/-- `AsRef<str>::as_ref` for a string base, or on the path of the user's type. -/
def asRefStr (tr : Traits) (base : StringyBase) (v : Value) : Run String :=
  match base with
  | .string | .borrowedStr | .cowStr => stringAsStr v
  | .struct _ | .generic _ => .ok (tr.asRef v)

/-- The bytes of a `Vec<u8>`. -/
def byteOf : Value → Run UInt8
  | .scalar (.int n) => .ok (UInt8.ofNat n.toNat)
  | _ => .error .illTyped

/-- `AsRef<[u8]>::as_ref` -/
def asRefBytes : Value → Run (List UInt8)
  | .scalar (.bytes b) => .ok b
  | .vec vs => vs.mapM byteOf
  | _ => .error .illTyped

/-- `String::clear` -/
def scratchClear (_scratch : String) : String := ""

/-- `write!(&mut scratch, "{}", v)?` -/
def scratchWrite (tr : Traits) (scratch : String) (v : Value) : Run String :=
  let (text, ok) := tr.display v
  if ok then .ok (scratch ++ text) else Run.derive .displayFailed

/-- The displayed text of a value, left in the cleared scratch buffer. -/
def displayInto (tr : Traits) (scratch : String) (v : Value) : Run String := scratchWrite tr (scratchClear scratch) v

/-! ## The leaf encoder -/

/-- The scalar transform of a mapped leaf. -/
def PrimitiveLeaf.transform : PrimitiveLeaf → Option ScalarTransform
  | dateTime unit => some (.dateTime unit)
  | naiveDateTime unit => some (.naiveDateTime unit)
  | naiveDate => some .naiveDate
  | naiveTime => some .naiveTime
  | duration unit source => some (.duration unit source)
  | decimal precision scale => some (.decimal precision scale)
  | _ => none

/-- What a leaf value becomes in its column. -/
def PrimitiveLeaf.encode (tr : Traits) (leaf : PrimitiveLeaf) (v : Value) : Run Prim :=
  match leaf with
  | numeric kind => numericStoredValue kind v
  | string => do .ok (.str (← stringAsStr v))
  | bool => match v with
    | .scalar (.bool b) => .ok (.bool b)
    | _ => .error .illTyped
  | binary => do .ok (.bytes (← asRefBytes v))
  | asString => do .ok (.str (← displayInto tr "" v))
  | asStr base => do .ok (.str (← asRefStr tr base v))
  | dateTime unit => mapPrimitiveExpr tr (.ref (.place v)) .ref (.dateTime unit)
  | naiveDateTime unit => mapPrimitiveExpr tr (.ref (.place v)) .ref (.naiveDateTime unit)
  | naiveDate => mapPrimitiveExpr tr (.ref (.place v)) .ref .naiveDate
  | naiveTime => mapPrimitiveExpr tr (.ref (.place v)) .ref .naiveTime
  | duration unit source => mapPrimitiveExpr tr (.ref (.place v)) .ref (.duration unit source)
  | decimal precision scale => mapPrimitiveExpr tr (.ref (.place v)) .ref (.decimal precision scale)

/-- A value of the leaf's Rust type. -/
def LeafTyped (leaf : PrimitiveLeaf) (v : Value) : Prop :=
  match leaf with
  | .numeric kind => (∃ n, v = .scalar (.int n) ∧ (kind.isNonzero = true → n ≠ 0)) ∨
      (∃ b, v = .scalar (.float b) ∧ kind.isNonzero = false)
  | .string => ∃ s, v = .scalar (.str s)
  | .bool => ∃ b, v = .scalar (.bool b)
  | .binary => (∃ b, v = .scalar (.bytes b)) ∨ ∃ vs, v = .vec vs ∧ ∀ u ∈ vs, ∃ n, u = .scalar (.int n)
  | .dateTime _ | .naiveDateTime _ => ∃ secs nanos, v = .scalar (.timestamp secs nanos)
  | .naiveDate => ∃ d, v = .scalar (.date d)
  | .naiveTime => ∃ secs nanos, v = .scalar (.time secs nanos)
  | .duration _ _ => ∃ secs nanos, v = .scalar (.duration secs nanos)
  | .decimal _ _ | .asString => True
  | .asStr base => match base with
    | .string | .borrowedStr | .cowStr => ∃ s, v = .scalar (.str s)
    | .struct _ | .generic _ => True

/-- The leaf value has an encoding. -/
def Encodes (tr : Traits) (leaf : PrimitiveLeaf) (v : Value) : Prop := ∃ p, leaf.encode tr v = .ok p

/-- The cell of a leaf value. -/
def leafCell (tr : Traits) (leaf : PrimitiveLeaf) (v : Value) : Cell :=
  match leaf.encode tr v with
  | .ok p => .val p
  | .error _ => .null

theorem orErr_runs {e : DeriveError} (he : e.FromData) (n : Option Int) :
    (∃ p, orErr e n = .ok p) ∨ ∃ f, orErr e n = .error f ∧ f.FromData := by
  cases n with
  | some n => exact Or.inl ⟨_, rfl⟩
  | none => exact Or.inr ⟨_, rfl, he⟩

theorem mapDateTime_runs (chrono : Chrono) (unit : DateTimeUnit) {e : DeriveError} (he : e.FromData) (secs : Int) (nanos : Nat) :
    (∃ p, mapDateTime chrono unit e (.scalar (.timestamp secs nanos)) = .ok p) ∨
      ∃ f, mapDateTime chrono unit e (.scalar (.timestamp secs nanos)) = .error f ∧ f.FromData := by
  cases unit with
  | milliseconds => exact Or.inl ⟨_, rfl⟩
  | microseconds => exact Or.inl ⟨_, rfl⟩
  | nanoseconds => exact orErr_runs he _

theorem mapDuration_runs (chrono : Chrono) (unit : DateTimeUnit) (source : DurationSource) (secs : Int) (nanos : Nat) :
    (∃ p, mapDuration chrono unit source (.scalar (.duration secs nanos)) = .ok p) ∨
      ∃ f, mapDuration chrono unit source (.scalar (.duration secs nanos)) = .error f ∧ f.FromData := by
  cases source with
  | std => exact orErr_runs (by trivial) _
  | chrono =>
    cases unit with
    | milliseconds => exact Or.inl ⟨_, rfl⟩
    | microseconds => exact orErr_runs (by trivial) _
    | nanoseconds => exact orErr_runs (by trivial) _

theorem mapDecimal_runs (tr : Traits) (precision scale : Nat) (v : Value) :
    (∃ p, mapDecimal tr precision scale v = .ok p) ∨ ∃ f, mapDecimal tr precision scale v = .error f ∧ f.FromData := by
  unfold mapDecimal
  split
  · split
    · exact Or.inr ⟨_, rfl, trivial⟩
    · exact Or.inl ⟨_, rfl⟩
  · exact Or.inr ⟨_, rfl, trivial⟩

theorem numericStoredValue_ok {kind : NumericKind} {v : Value} (h : LeafTyped (.numeric kind) v) :
    ∃ p, numericStoredValue kind v = .ok p := by
  unfold numericStoredValue
  rcases h with ⟨n, rfl, hn⟩ | ⟨b, rfl, hb⟩
  · by_cases hz : kind.isNonzero = true
    · simp only [hz, ite_true, nonZeroGet, if_neg (hn hz), ok_bind]
      exact ⟨_, rfl⟩
    · simp only [hz, ok_bind]
      exact ⟨_, rfl⟩
  · simp only [hb, Bool.false_eq_true, ite_false, ok_bind]
    exact ⟨_, rfl⟩

theorem mapM_byteOf : ∀ {vs : List Value}, (∀ u ∈ vs, ∃ n, u = .scalar (.int n)) → ∃ bs, vs.mapM byteOf = .ok bs
  | [], _ => ⟨[], rfl⟩
  | v :: vs, h => by
    obtain ⟨n, rfl⟩ := h v List.mem_cons_self
    obtain ⟨bs, hbs⟩ := mapM_byteOf fun u hu => h u (List.mem_cons_of_mem _ hu)
    refine ⟨UInt8.ofNat n.toNat :: bs, ?_⟩
    rw [List.mapM_cons, byteOf, ok_bind, hbs, ok_bind]
    rfl

/-- A leaf of its own type is encoded, or an error is reported. -/
theorem encode_runs (tr : Traits) {leaf : PrimitiveLeaf} {v : Value} (h : LeafTyped leaf v) :
    Encodes tr leaf v ∨ ∃ f, leaf.encode tr v = .error f ∧ f.FromData := by
  cases leaf with
  | numeric kind => exact Or.inl (numericStoredValue_ok h)
  | string => obtain ⟨s, rfl⟩ := h; exact Or.inl ⟨_, rfl⟩
  | bool => obtain ⟨b, rfl⟩ := h; exact Or.inl ⟨_, rfl⟩
  | binary =>
    rcases h with ⟨b, rfl⟩ | ⟨vs, rfl, hvs⟩
    · exact Or.inl ⟨_, rfl⟩
    · obtain ⟨bs, hbs⟩ := mapM_byteOf hvs
      refine Or.inl ⟨.bytes bs, ?_⟩
      show (do Except.ok (Prim.bytes (← vs.mapM byteOf))) = _
      rw [hbs, ok_bind]
  | dateTime unit => obtain ⟨secs, nanos, rfl⟩ := h; exact mapDateTime_runs tr.chrono unit (by trivial) secs nanos
  | naiveDateTime unit => obtain ⟨secs, nanos, rfl⟩ := h; exact mapDateTime_runs tr.chrono unit (by trivial) secs nanos
  | naiveDate => obtain ⟨d, rfl⟩ := h; exact Or.inl ⟨_, rfl⟩
  | naiveTime => obtain ⟨secs, nanos, rfl⟩ := h; exact Or.inl ⟨_, rfl⟩
  | duration unit source => obtain ⟨secs, nanos, rfl⟩ := h; exact mapDuration_runs tr.chrono unit source secs nanos
  | decimal precision scale => exact mapDecimal_runs tr precision scale v
  | asString =>
    unfold Encodes PrimitiveLeaf.encode displayInto scratchWrite
    cases hd : (tr.display v).2 with
    | true => exact Or.inl ⟨.str (scratchClear "" ++ (tr.display v).1), by simp [hd]⟩
    | false => exact Or.inr ⟨.err (.compute .displayFailed), by simp [hd, Run.derive], trivial⟩
  | asStr base =>
    cases base with
    | string => obtain ⟨s, rfl⟩ := h; exact Or.inl ⟨_, rfl⟩
    | borrowedStr => obtain ⟨s, rfl⟩ := h; exact Or.inl ⟨_, rfl⟩
    | cowStr => obtain ⟨s, rfl⟩ := h; exact Or.inl ⟨_, rfl⟩
    | struct ty => exact Or.inl ⟨_, rfl⟩
    | generic ident => exact Or.inl ⟨_, rfl⟩

theorem Encodes.cell {tr : Traits} {leaf : PrimitiveLeaf} {v : Value} {p : Prim} (h : leaf.encode tr v = .ok p) :
    leafCell tr leaf v = .val p := by
  simp only [leafCell, h]

/-- A mapped leaf reads its value through any receiver. -/
theorem mapPrimitiveExpr_eq (tr : Traits) {leaf : PrimitiveLeaf} {t : ScalarTransform} (ht : leaf.transform = some t)
    {receiver : PrimitiveExprReceiver} {var r : Operand} {v : Value} (hv : var.value = .ok v)
    (hr : receiver.decimalReceiver var = .ok r) (hrv : r.value = .ok v) :
    mapPrimitiveExpr tr var receiver t = leaf.encode tr v := by
  cases leaf <;> simp only [PrimitiveLeaf.transform, Option.some.injEq, reduceCtorEq] at ht <;> subst ht <;>
    simp only [mapPrimitiveExpr, PrimitiveLeaf.encode, hv, hr, hrv, ok_bind] <;> rfl

/-! ## Stored leaves -/

def encode? (tr : Traits) (leaf : PrimitiveLeaf) (v : Value) : Option Prim :=
  match leaf.encode tr v with
  | .ok p => some p
  | .error _ => none

def primCell : Option Prim → Cell
  | some p => .val p
  | none => .null

theorem primCell_encode? (tr : Traits) (leaf : PrimitiveLeaf) (v : Value) :
    primCell (encode? tr leaf v) = leafCell tr leaf v := by
  unfold encode? leafCell
  cases leaf.encode tr v <;> rfl

/-- The result of pushing the leaf `x`: it is appended, or its encoding failed. -/
def Pushes {σ : Type} (tr : Traits) (leaf : PrimitiveLeaf) (r : Run σ) (x : Option Value)
    (Q : σ → Option Prim → Prop) : Prop :=
  (∀ u e, x = some u → leaf.encode tr u = .error e → r = .error e) ∧
  (∀ y, (∀ u, x = some u → leaf.encode tr u = .ok (y.getD (.int 0)) ∧ y.isSome = true) → (x = none → y = none) →
    ∃ s, r = .ok s ∧ Q s y)

theorem Pushes.runs {σ : Type} {tr : Traits} {leaf : PrimitiveLeaf} {r : Run σ} {x : Option Value}
    {Q : σ → Option Prim → Prop} (h : Pushes tr leaf r x Q) (hx : ∀ u, x = some u → LeafTyped leaf u) :
    Run.Spec r (∀ u, x = some u → Encodes tr leaf u) (fun s => Q s (x.bind (encode? tr leaf))) := by
  cases x with
  | none =>
    obtain ⟨s, hs, hq⟩ := h.2 none (by simp) (fun _ => rfl)
    rw [hs]
    exact Runs.pure (by simp) hq
  | some u =>
    rcases encode_runs tr (hx u rfl) with ⟨p, hp⟩ | ⟨e, he, hr⟩
    · obtain ⟨s, hs, hq⟩ := h.2 (some p) (fun v hv => ⟨by cases hv; exact hp, rfl⟩) (by simp)
      rw [hs]
      refine Runs.pure (fun v hv => ?_) ?_
      · cases hv; exact ⟨p, hp⟩
      · simpa [encode?, hp] using hq
    · rw [h.1 u e rfl he]
      refine Runs.throw (fun hall => ?_) hr
      obtain ⟨p, hp⟩ := hall u rfl
      rw [he] at hp
      cases hp

end DfDerive
