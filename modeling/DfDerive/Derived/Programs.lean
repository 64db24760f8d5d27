/-
  DfDerive.Derived.Programs — derived structs that refer to one another.

  The generated implementations of a program call each other by name, so a struct may come back
  to itself through others, which the derive does not see. What they call they also bound:
  `Program.Implements` meets the bounds of their headers as the compiler does, in finitely many
  steps.
  - `implements_iff`: the bounds of a row type are met exactly where every chain of nested
    columns ends. A ring of structs is accepted by the derive, and none of them is implemented.
  - `implemented_answers`: a row type whose bounds are met is implemented as a `TypeTree`, once
    calls go deep enough (`deep`): what holds of trees holds of it.
-/

import DfDerive.Derived.Requirements
import DfDerive.Derived.Tree
import DfDerive.Lib.Depth

namespace DfDerive

open Lib FieldType

/-! ## Programs -/

/-- The trait is one of the two that the derive implements. -/
def RuntimeTraitPaths.Derived (traits : RuntimeTraitPaths) (trait : SynPath) : Prop :=
  trait = traits.toDataframe ∨ trait = traits.columnar

/-- Structs that are derived in one crate for one runtime, and what the paths in each of them
    stand for: a struct of the program, or `()` where there is none. A generic struct is a row
    type for each of its instances. -/
structure Program (ι : Type) where
  crates : Crates
  text : FieldType → TypePath
  traits : RuntimeTraitPaths
  input : ι → WrittenInput
  config : ι → MacroConfig
  ir : ι → StructIR
  /-- `core::any::type_name` -/
  typeName : ι → String
  resolve : ι → TypePath → Option ι
  identifiers : ∀ i, (input i).Identifiers
  derived : ∀ i, toDataframeDerive crates text (input i) = .ok (config i, ir i)
  runtime : ∀ i, (config i).traits = traits
  /-- The conversions call other traits. -/
  apart : ∀ trait ∈ [asRefStrBound, displayBound, traits.decimal128Encode], ¬ traits.Derived trait

def TerminalLeafRoute.nestedTy : TerminalLeafRoute → Option TypePath
  | primitive _ => none
  | nested inner => some inner.ty

namespace Program

variable {ι : Type} (p : Program ι) (tr : Traits)

/-- The implementation of a row type, made of the implementations of the others. -/
def generate (answers : ι → Impl) (i : ι) : Impl :=
  generateImpl ⟨tr, fun ty => (p.resolve i ty).elim unitImpl answers⟩ (p.ir i) (p.typeName i)

/-- The row types of the nested columns. -/
def nestedTypes (i : ι) : List ι := (p.ir i).columns.filterMap fun c => c.leafSpec.route.nestedTy.bind (p.resolve i)

variable {p}

theorem mem_nestedTypes {i j : ι} : j ∈ p.nestedTypes i ↔
    ∃ c ∈ (p.ir i).columns, ∃ nested, c.leafSpec.route = .nested nested ∧ p.resolve i nested.ty = some j := by
  rw [nestedTypes, List.mem_filterMap]
  refine exists_congr fun c => and_congr_right fun _ => ?_
  cases c.leafSpec.route with
  | primitive leaf => simp [TerminalLeafRoute.nestedTy]
  | nested nested => simp [TerminalLeafRoute.nestedTy]

theorem generate_asksOnly : AsksOnly (p.generate tr) p.nestedTypes := by
  intro f g i h
  refine generateImpl_agree (fun c hc => ?_) _
  cases hroute : c.leafSpec.route with
  | primitive leaf => exact Traits.AgreeOn.refl tr leaf
  | nested nested =>
    show (p.resolve i nested.ty).elim unitImpl f = (p.resolve i nested.ty).elim unitImpl g
    cases hresolve : p.resolve i nested.ty with
    | none => rfl
    | some j => exact h j (mem_nestedTypes.mpr ⟨c, hc, nested, hroute, hresolve⟩)

/-- The tree of a row type: its struct, and the trees of what the nested columns name. -/
inductive Unfolds (p : Program ι) : ι → TypeTree → Prop where
  | derived {i : ι} {s : DerivedStruct} {types : TypePath → TypeTree} (means : InputMeans p.text (p.input i) s.input)
      (ir : s.ir = p.ir i)
      (unit : ∀ c ∈ (p.ir i).columns, ∀ nested, c.leafSpec.route = .nested nested → p.resolve i nested.ty = none →
        types nested.ty = .unit)
      (each : ∀ c ∈ (p.ir i).columns, ∀ nested, c.leafSpec.route = .nested nested → ∀ j, p.resolve i nested.ty = some j →
        Unfolds p j (types nested.ty)) : Unfolds p i (.derived s (p.typeName i) types)

theorem Unfolds.founded {i : ι} {t : TypeTree} (h : p.Unfolds i t) : Founded p.nestedTypes i := by
  induction h with
  | derived _ _ _ _ ih =>
    refine Acc.intro _ fun j hj => ?_
    obtain ⟨c, hc, nested, hroute, hresolve⟩ := mem_nestedTypes.mp hj
    exact ih c hc nested hroute j hresolve

theorem Unfolds.settles {i : ι} {t : TypeTree} (h : p.Unfolds i t) : Settles (p.generate tr) i (t.impl tr) := by
  induction h with
  | @derived i s types _ hir hunit _ ih =>
    have hanswer : ∀ j, ∃ a, j ∈ p.nestedTypes i → Settles (p.generate tr) j a := by
      intro j
      by_cases hj : j ∈ p.nestedTypes i
      · obtain ⟨c, hc, nested, hroute, hresolve⟩ := mem_nestedTypes.mp hj
        exact ⟨_, fun _ => ih c hc nested hroute j hresolve⟩
      · exact ⟨unitImpl, fun hmem => absurd hmem hj⟩
    choose answers hanswers using hanswer
    have hstep := Settles.step (p.generate_asksOnly tr) hanswers
    -- a row type that is named twice has one answer
    have htree : p.generate tr answers i = (TypeTree.derived s (p.typeName i) types).impl tr := by
      rw [generate, TypeTree.impl, hir]
      refine generateImpl_agree (fun c hc => ?_) _
      cases hroute : c.leafSpec.route with
      | primitive leaf => exact Traits.AgreeOn.refl tr leaf
      | nested nested =>
        show (p.resolve i nested.ty).elim unitImpl answers = (types nested.ty).impl tr
        cases hresolve : p.resolve i nested.ty with
        | none =>
          rw [hunit c hc nested hroute hresolve]
          rfl
        | some j =>
          have hj := hanswers j (mem_nestedTypes.mpr ⟨c, hc, nested, hroute, hresolve⟩)
          exact hj.unique (ih c hc nested hroute j hresolve)
    rw [← htree]
    exact hstep

theorem unfolds_of_founded {i : ι} (h : Founded p.nestedTypes i) : ∃ t, p.Unfolds i t := by
  induction h with
  | intro i _ ih =>
    obtain ⟨s, hmeans, hir⟩ := DerivedStruct.of_toDataframeDerive (p.identifiers i) (p.derived i)
    have htree : ∀ j, ∃ t : TypeTree, j ∈ p.nestedTypes i → p.Unfolds j t := by
      intro j
      by_cases hj : j ∈ p.nestedTypes i
      · obtain ⟨t, ht⟩ := ih j hj
        exact ⟨t, fun _ => ht⟩
      · exact ⟨.unit, fun hmem => absurd hmem hj⟩
    choose trees htrees using htree
    refine ⟨.derived s (p.typeName i) fun ty => (p.resolve i ty).elim .unit trees, .derived hmeans hir ?_ ?_⟩
    · intro c _ nested _ hresolve
      rw [hresolve]
      rfl
    · intro c hc nested hroute j hresolve
      rw [hresolve]
      exact htrees j (mem_nestedTypes.mpr ⟨c, hc, nested, hroute, hresolve⟩)

end Program

/-! ## Bounds -/

namespace Program

variable {ι : Type} (p : Program ι)

/-- The generated impls of `i` bound the row type `j`. -/
def Bounds (i : ι) (trait : SynPath) (j : ι) : Prop :=
  ∃ ty, (implPartsWithBounds (p.input i).generics (p.config i).traits (p.ir i)).Requires ty trait ∧ p.resolve i ty = some j

/-- `i: trait`, as the compiler finds it: an impl is chosen, and then the bounds of its header
    are met. The traits that are not derived are taken to be implemented by hand. -/
inductive Implements : ι → SynPath → Prop where
  | byHand {i : ι} {trait : SynPath} (other : ¬ p.traits.Derived trait) : Implements i trait
  | derived {i : ι} {trait : SynPath} (given : p.traits.Derived trait)
      (bounds : ∀ j trait', p.Bounds i trait' j → Implements j trait') : Implements i trait

variable {p} {i j : ι} {trait : SynPath}

theorem bounds_iff : p.Bounds i trait j ↔
    ∃ ty, (∃ c ∈ (p.ir i).columns, c.leafSpec.leaf.Needs p.traits ty trait) ∧ p.resolve i ty = some j := by
  obtain ⟨-, _, hmeans, hir⟩ := toDataframeDerive_ok.mp (p.derived i)
  simp only [Bounds, requires_iff (hmeans.paramsOf hir), p.runtime i]

/-- Every nested type is bounded by both traits. -/
theorem Bounds.of_nested (hj : j ∈ p.nestedTypes i) (given : p.traits.Derived trait) : p.Bounds i trait j := by
  obtain ⟨c, hc, nested, hroute, hresolve⟩ := mem_nestedTypes.mp hj
  have hnested := route_nested_iff.mp ⟨nested, hroute, rfl⟩
  refine bounds_iff.mpr ⟨nested.ty, ⟨c, hc, ?_⟩, hresolve⟩
  rcases given with rfl | rfl
  · exact .toDataframe hnested
  · exact .columnar hnested

/-- Nothing but a nested type is bounded by a derived trait. -/
theorem Bounds.nested (h : p.Bounds i trait j) (given : p.traits.Derived trait) : j ∈ p.nestedTypes i := by
  obtain ⟨ty, ⟨c, hc, hneeds⟩, hresolve⟩ := bounds_iff.mp h
  have hcolumn : (c.leafSpec.leaf.nestedType = some ty ∨ c.leafSpec.leaf.nestedParam = some ty) → j ∈ p.nestedTypes i := by
    intro hnested
    obtain ⟨nested, hroute, rfl⟩ := route_nested_iff.mpr hnested
    exact mem_nestedTypes.mpr ⟨c, hc, nested, hroute, hresolve⟩
  cases hneeds with
  | toDataframe hnested => exact hcolumn hnested
  | columnar hnested => exact hcolumn hnested
  | asRefStr _ => exact absurd given (p.apart _ (by simp))
  | display _ => exact absurd given (p.apart _ (by simp))
  | decimal128Encode _ => exact absurd given (p.apart _ (by simp))

theorem Implements.founded (h : p.Implements i trait) : p.traits.Derived trait → Founded p.nestedTypes i := by
  induction h with
  | byHand other => exact fun given => absurd given other
  | derived given _ ih =>
    intro _
    exact Acc.intro _ fun j hj => ih j _ (.of_nested hj given) given

theorem Implements.of_founded (h : Founded p.nestedTypes i) : ∀ trait, p.Implements i trait := by
  induction h with
  | intro i _ ih =>
    intro trait
    by_cases given : p.traits.Derived trait
    · refine .derived given fun j trait' hbound => ?_
      by_cases given' : p.traits.Derived trait'
      · exact ih j (hbound.nested given') trait'
      · exact .byHand given'
    · exact .byHand given

end Program

/-! ## Main results -/

/-- Structs without attributes that the derive accepts make a program of the default runtime. -/
theorem Program.of_accepted {ι : Type} {input : ι → WrittenInput} (hattrs : ∀ i, (input i).attrs = [])
    (hid : ∀ i, (input i).Identifiers)
    (h : ∀ i, ∃ config ir, toDataframeDerive ⟨fun _ => none, none⟩ lastName (input i) = .ok (config, ir))
    (resolve : ι → TypePath → Option ι) : ∃ p : Program ι, p.crates = ⟨fun _ => none, none⟩ ∧ p.text = lastName ∧
      p.input = input ∧ p.resolve = resolve := by
  choose config ir h using h
  have hconfig : ∀ i, config i = macroConfig ⟨fun _ => none, none⟩ ⟨none, none, none⟩ := by
    intro i
    have hbuilt := (toDataframeDerive_ok.mp (h i)).1
    rw [hattrs i] at hbuilt
    exact (Except.ok.inj hbuilt).symm
  refine ⟨⟨_, _, _, input, config, ir, fun i => (input i).ident, resolve, hid, h, fun i => congrArg _ (hconfig i), ?_⟩,
    rfl, rfl, rfl, rfl⟩
  intro trait htrait
  simp only [List.mem_cons, List.not_mem_nil, or_false] at htrait
  have hnames : ∀ {a b : SynPath}, a = b → a.segments.map PathSegment.ident = b.segments.map PathSegment.ident :=
    congrArg fun path : SynPath => path.segments.map PathSegment.ident
  rcases htrait with rfl | rfl | rfl <;> rintro (h | h) <;> exact absurd (hnames h) (by decide)

theorem Program.nested_of_accepted {ι : Type} {p : Program ι} {i j : ι} {input : WrittenInput} {nested : NestedLeaf}
    (hcrates : p.crates = ⟨fun _ => none, none⟩) (htext : p.text = lastName) (hinput : p.input i = input)
    (h : ∃ config ir, toDataframeDerive ⟨fun _ => none, none⟩ lastName input = .ok (config, ir) ∧
      ∃ c ∈ ir.columns, c.leafSpec.route = .nested nested) (hresolve : p.resolve i nested.ty = some j) :
    j ∈ p.nestedTypes i := by
  obtain ⟨config, ir, hderive, c, hc, hroute⟩ := h
  have hp := p.derived i
  rw [hcrates, htext, hinput, hderive] at hp
  obtain ⟨-, hir⟩ := Prod.mk.inj (Except.ok.inj hp)
  exact mem_nestedTypes.mpr ⟨c, hir ▸ hc, _, hroute, hresolve⟩

section

variable {ι : Type} (p : Program ι) (i : ι)

/-- The bounds of a row type are met exactly when every chain of nested columns from it ends,
    and exactly then it has a tree. -/
theorem implements_iff :
    (p.Implements i p.traits.toDataframe ↔ Founded p.nestedTypes i) ∧
      (p.Implements i p.traits.columnar ↔ Founded p.nestedTypes i) ∧ ((∃ t, p.Unfolds i t) ↔ Founded p.nestedTypes i) := by
  refine ⟨⟨?_, ?_⟩, ⟨?_, ?_⟩, ⟨?_, ?_⟩⟩
  · exact fun h => h.founded (.inl rfl)
  · exact fun h => .of_founded h _
  · exact fun h => h.founded (.inr rfl)
  · exact fun h => .of_founded h _
  · exact fun ⟨_, ht⟩ => ht.founded
  · exact Program.unfolds_of_founded

end

def linkName : Bool → String
  | false => "Node"
  | true => "Edge"

/-- `struct Node { links: Vec<Edge> }` and `struct Edge { links: Vec<Node> }` -/
def linkInput (b : Bool) : WrittenInput where
  attrs := []
  ident := linkName b
  generics := []
  data := .struct (.named [("links",
    ⟨[], .path none false (applied ["Vec"] (.angleBracketed [.type (writtenName (linkName (!b)))]))⟩)])

/-- The derive accepts both: neither names itself. -/
theorem linkInput_accepted (b : Bool) :
    ∃ config ir, toDataframeDerive ⟨fun _ => none, none⟩ lastName (linkInput b) = .ok (config, ir) ∧
      ∃ c ∈ ir.columns, c.leafSpec.route = .nested (.struct (linkName (!b))) := by
  have hplain : (writtenName (linkName (!b))).IsPlain [linkName (!b)] := ⟨false, rfl⟩
  have hforeign : IsForeign [] (writtenName (linkName (!b))) :=
    isForeign_of_plain hplain (by cases b <;> decide) (by cases b <;> decide)
      (by intro collection; cases b <;> cases collection <;> decide) (by cases b <;> decide)
  have hvec : FieldType.IsWrapper (.path none false (applied ["Vec"] (.angleBracketed [.type (writtenName (linkName (!b)))])))
      .vec (writtenName (linkName (!b))) := .vec ⟨false, ["Vec"], by decide, rfl⟩
  have hmeans : InputMeans lastName (linkInput b)
      ⟨linkName b, .named [("links", ⟨.mk [.vec] (.leaf (.struct (linkName (!b)))), .include .default⟩)]⟩ := by
    refine ⟨rfl, _, rfl, .named (.cons ⟨rfl, trivial, List.mem_cons_self, fun _ => ⟨.wrapper hvec (.base (.struct hforeign)), ?_⟩⟩
      .nil)⟩
    rintro ⟨leaf, hleaf, hself⟩
    rw [Holds.of_wraps hvec, Holds.of_stays (by cases b <;> rfl) (fun _ h => by cases h)] at hleaf
    obtain ⟨-, rfl⟩ := hleaf
    have hspelled : (writtenName (linkName (!b))).SpelledIn [[linkName (!b)]] := hplain.spelledIn (List.mem_singleton_self _)
    exact hspelled.disjoint _ (by cases b <;> decide) hself
  exact ⟨_, _, toDataframeDerive_ok.mpr ⟨(rfl : buildMacroConfig ⟨fun _ => none, none⟩ (linkInput b).attrs = .ok _), _, hmeans,
    (rfl : parseToIr _ = .ok _)⟩, _, List.mem_cons_self, rfl⟩

/-- Both structs of the ring are accepted, and neither has an implementation. -/
theorem implements_iff_links : ∃ p : Program Bool, p.input = linkInput ∧
    ∀ b, ¬ p.Implements b p.traits.toDataframe ∧ ¬ p.Implements b p.traits.columnar ∧ ¬ ∃ t, p.Unfolds b t := by
  have hid : ∀ b, (linkInput b).Identifiers := by
    rintro b fields h
    cases h
    cases b <;> exact ⟨by decide, by decide⟩
  have haccepted := fun b => (linkInput_accepted b).imp fun _ => Exists.imp fun _ => And.left
  obtain ⟨p, hcrates, htext, hinput, hresolve⟩ :=
    Program.of_accepted (fun _ => rfl) hid haccepted fun b _ => some (!b)
  have hnested : ∀ b, (!b) ∈ p.nestedTypes b := fun b =>
    Program.nested_of_accepted hcrates htext (congrFun hinput b) (linkInput_accepted b) (by rw [hresolve])
  have hendless : ∀ b, ¬ Founded p.nestedTypes b := by
    intro b hfounded
    induction hfounded with
    | intro b _ ih => exact ih (!b) (hnested b)
  refine ⟨p, hinput, fun b => ?_⟩
  obtain ⟨hrow, hcolumnar, htree⟩ := implements_iff p b
  exact ⟨fun h => hendless b (hrow.mp h), fun h => hendless b (hcolumnar.mp h), fun h => hendless b (htree.mp h)⟩

/-- A row type whose bounds are met has a tree, and answers as its tree as soon as calls go deep
    enough, whatever is below. -/
theorem implemented_answers {ι : Type} (p : Program ι) {i : ι} (h : p.Implements i p.traits.toDataframe) :
    ∃ t, p.Unfolds i t ∧ ∀ tr, Settles (p.generate tr) i (t.impl tr) ∧ Models (t.impl tr) (t.spec tr) := by
  obtain ⟨t, ht⟩ := Program.unfolds_of_founded (h.founded (.inl rfl))
  exact ⟨t, ht, fun tr => ⟨ht.settles tr, t.models tr⟩⟩

/-- `struct Point { x: f64 }` -/
def pointInput : WrittenInput where
  attrs := []
  ident := "Point"
  generics := []
  data := .struct (.named [("x", ⟨[], writtenName "f64"⟩)])

theorem pointInput_accepted :
    ∃ config ir, toDataframeDerive ⟨fun _ => none, none⟩ lastName pointInput = .ok (config, ir) := by
  have hknown : (writtenName "f64").KnownAs (.numeric .f64) := .inl ⟨["f64"], by decide, false, rfl⟩
  have hmeans : InputMeans lastName pointInput
      ⟨"Point", .named [("x", ⟨.mk [] (.leaf (.numeric .f64)), .include .default⟩)]⟩ := by
    refine ⟨rfl, _, rfl, .named (.cons ⟨rfl, trivial, List.mem_cons_self, fun _ => ⟨.base (.known ?_ hknown), ?_⟩⟩ .nil)⟩
    · rintro ident ⟨hmem, -⟩
      cases hmem
    · rintro ⟨leaf, hleaf, -⟩
      rw [Holds.of_stays rfl (fun _ h => by cases h)] at hleaf
      exact hleaf.1.notKnown _ hknown
  exact ⟨_, _, toDataframeDerive_ok.mpr ⟨(rfl : buildMacroConfig ⟨fun _ => none, none⟩ pointInput.attrs = .ok _), _, hmeans,
    (rfl : parseToIr _ = .ok _)⟩⟩

theorem pairInput_nested : ∃ config ir, toDataframeDerive ⟨fun _ => none, none⟩ lastName pairInput = .ok (config, ir) ∧
    ∃ c ∈ ir.columns, c.leafSpec.route = .nested (.struct "Point") :=
  ⟨_, _, toDataframeDerive_ok.mpr ⟨(rfl : buildMacroConfig ⟨fun _ => none, none⟩ pairInput.attrs = .ok _), _, pairInput_means,
    (rfl : parseToIr pairDecls = .ok _)⟩, _, List.mem_cons_of_mem _ List.mem_cons_self, rfl⟩

/-- `Pair<Point>` and `Point` -/
def pairProgram : Bool → WrittenInput
  | false => pairInput
  | true => pointInput

theorem implemented_answers_pair : ∃ p : Program Bool, p.input = pairProgram ∧ true ∈ p.nestedTypes false ∧
    ∃ t, p.Unfolds false t ∧ ∀ tr, Settles (p.generate tr) false (t.impl tr) ∧ Models (t.impl tr) (t.spec tr) := by
  have hid : ∀ b, (pairProgram b).Identifiers := by
    rintro (_ | _) fields h <;> cases h <;> exact ⟨by decide, by decide⟩
  have haccepted : ∀ b, ∃ config ir, toDataframeDerive ⟨fun _ => none, none⟩ lastName (pairProgram b) = .ok (config, ir) := by
    rintro (_ | _)
    · exact pairInput_accepted
    · exact pointInput_accepted
  obtain ⟨p, hcrates, htext, hinput, hresolve⟩ :=
    Program.of_accepted (by rintro (_ | _) <;> rfl) hid haccepted fun b _ => if b then none else some true
  have hpoint : Founded p.nestedTypes true := Acc.intro _ fun j hj => by
    obtain ⟨_, _, _, _, h⟩ := Program.mem_nestedTypes.mp hj
    rw [hresolve] at h
    cases h
  have hpair : Founded p.nestedTypes false := Acc.intro _ fun j hj => by
    obtain ⟨_, _, _, _, h⟩ := Program.mem_nestedTypes.mp hj
    rw [hresolve] at h
    cases h
    exact hpoint
  refine ⟨p, hinput, ?_, implemented_answers p (.of_founded hpair _)⟩
  refine Program.nested_of_accepted hcrates htext (congrFun hinput false) pairInput_nested ?_
  rw [hresolve]
  rfl

end DfDerive
