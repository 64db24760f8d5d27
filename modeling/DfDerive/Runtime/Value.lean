/-
  DfDerive.Runtime.Value — Rust values and the operands of generated expressions.

  A `Value` is a stored value: a field of a row and everything below it. `ptr` is any
  transparent pointer (`Box`, `Rc`, `Arc`, `Cow`, a `&T` field). An `Operand` is what a
  generated expression evaluates to: a place holding a value, a reference taken with `&`,
  or an `Option` computed by `as_ref`, `map` and `and_then`. Method calls reach their
  receiver through references; a `Vec` method also reaches it through pointers.
-/

import DfDerive.Runtime.Polars

namespace DfDerive

/-- Leaf values. Dates and times are chrono's representations: seconds from the epoch or
    from midnight with sub-second nanoseconds, days from the common era. -/
inductive Scalar where
  | int (n : Int)
  | float (bits : Nat)
  | bool (b : Bool)
  | str (s : String)
  | bytes (b : List UInt8)
  | timestamp (secs : Int) (nanos : Nat)
  | date (daysFromCe : Int)
  | time (secs nanos : Nat)
  | duration (secs : Int) (nanos : Nat)
  | decimal (mantissa : Int) (scale : Nat)
  /-- A value of a type defined outside the derive. -/
  | foreign (tag : Nat)
  deriving DecidableEq, Repr

inductive Value where
  | scalar (s : Scalar)
  | none
  | some (v : Value)
  | ptr (v : Value)
  | vec (vs : List Value)
  | tuple (vs : List Value)
  | struct (fields : List (String × Value))

inductive Operand where
  | place (v : Value)
  | ref (o : Operand)
  | none
  | some (o : Operand)

/-- Deref coercion through transparent pointers. -/
def Value.derefAll : Value → Value
  | .ptr v => v.derefAll
  | v => v

namespace Operand

/-- The operand below its references. -/
def strip : Operand → Operand
  | .ref o => o.strip
  | o => o

@[simp] theorem strip_ref (o : Operand) : (Operand.ref o).strip = o.strip := rfl
@[simp] theorem strip_place (v : Value) : (Operand.place v).strip = .place v := rfl
@[simp] theorem strip_none : Operand.none.strip = .none := rfl
@[simp] theorem strip_some (o : Operand) : (Operand.some o).strip = .some o := rfl

/-- The value an operand denotes, references erased. -/
def erase : Operand → Value
  | .place v => v
  | .ref o => o.erase
  | .none => .none
  | .some o => .some o.erase

@[simp] theorem erase_place (v : Value) : (Operand.place v).erase = v := rfl
@[simp] theorem erase_ref (o : Operand) : (Operand.ref o).erase = o.erase := rfl

/-- `*o`. -/
def deref : Operand → Run Operand
  | .ref o => .ok o
  | .place (.ptr v) => .ok (.place v)
  | _ => .error .illTyped

/-- `o.as_ref()` on an `Option`. -/
def asRef (o : Operand) : Run Operand :=
  match o.strip with
  | .none | .place .none => .ok .none
  | .some p => .ok (.some (.ref p))
  | .place (.some v) => .ok (.some (.ref (.place v)))
  | _ => .error .illTyped

/-- `o.map(f)` on a computed `Option`. -/
def map (o : Operand) (f : Operand → Run Operand) : Run Operand :=
  match o with
  | .none => .ok .none
  | .some p => do .ok (.some (← f p))
  | _ => .error .illTyped

/-- `o.and_then(f)` on a computed `Option`. -/
def andThen (o : Operand) (f : Operand → Run Operand) : Run Operand :=
  match o with
  | .none => .ok .none
  | .some p => f p
  | _ => .error .illTyped

/-- `o.copied()` on an `Option<&T>`. -/
def copied : Operand → Run Operand
  | .none => .ok .none
  | .some (.ref o) => .ok (.some o)
  | _ => .error .illTyped

/-- `match o { Some(p) => .., None => .. }` under default binding modes. -/
def matchOption : Operand → Run (Option Operand)
  | .none | .place .none => .ok Option.none
  | .some p => .ok (Option.some p)
  | .place (.some v) => .ok (Option.some (.place v))
  | .ref o => do .ok ((← o.matchOption).map .ref)
  | _ => .error .illTyped

/-- The elements of `o.iter()`, each behind a reference. -/
def vecIter (o : Operand) : Run (List Operand) :=
  match o.strip with
  | .place v => match v.derefAll with
    | .vec vs => .ok (vs.map fun x => .ref (.place x))
    | _ => .error .illTyped
  | _ => .error .illTyped

/-- `o.len()` on a `Vec`. -/
def vecLen (o : Operand) : Run Nat := do .ok (← o.vecIter).length

/-- `o.i`, through references. -/
def tupleIndex (o : Operand) (i : Nat) : Run Operand :=
  match o.strip with
  | .place (.tuple vs) => match vs[i]? with
    | Option.some v => .ok (.place v)
    | Option.none => .error .illTyped
  | _ => .error .illTyped

/-- The value of a method receiver, through references. -/
def value (o : Operand) : Run Value :=
  match o.strip with
  | .place v => .ok v
  | _ => .error .illTyped

theorem value_of_strip {o : Operand} {v : Value} (h : o.strip = .place v) : o.value = .ok v := by simp [value, h]

end Operand

end DfDerive
