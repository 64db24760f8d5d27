/-
  DfDerive.Spec.Alike — row types with the same columns.

  Two ways are alike on two batches when they lead from the rows of one and from the rows
  of the other to the same leaves (`Walk.Alike`); so are the ways past wrappers of values
  and of their images (`word_mapWord`). Two row types agree on two batches when the batches
  have the same columns and convert alike (`RowSpec.Agrees`), and then implementations of
  them give the same frames, or both fail (`Models.agree`).
-/

import DfDerive.Spec.Columns
import DfDerive.Spec.Walk

namespace DfDerive

open Lib

/-! ## Values below wrappers -/

/-- The value with `f` applied below the wrappers. -/
def mapWord (f : Value → Value) : List RawWrapper → Value → Value
  | [], v => f v
  | .option :: w, .some v => .some (mapWord f w v)
  | .smartPtr :: w, .ptr v => .ptr (mapWord f w v)
  | .vec :: w, .vec vs => .vec (vs.map (mapWord f w))
  | _, v => v

theorem below_mapWord (f : Value → Value) (s : RawWrapper) (w : List RawWrapper) (v : Value) :
    below s (mapWord f (s :: w) v) = (below s v).map (mapWord f w) := by
  cases s <;> cases v <;> rfl

theorem leavesOf_mapWord (f : Value → Value) : ∀ (w : List RawWrapper) (v : Value),
    leavesOf w (mapWord f w v) = (leavesOf w v).map f
  | [], _ => rfl
  | s :: w, v => by
    rw [leavesOf, leavesOf, below_mapWord, List.flatMap_map, List.map_flatMap]
    exact congrArg (List.flatMap · (below s v)) (funext fun u => leavesOf_mapWord f w u)

theorem hasWord_mapWord {P : Value → Prop} (f : Value → Value) : ∀ (w : List RawWrapper) (v : Value),
    HasWord P w (mapWord f w v) ↔ HasWord (fun u => P (f u)) w v
  | [], _ => Iff.rfl
  | .option :: w, v => by
    cases v <;> simp only [mapWord, HasWord]
    exact hasWord_mapWord f w _
  | .smartPtr :: w, v => by
    cases v <;> simp only [mapWord, HasWord]
    exact hasWord_mapWord f w _
  | .vec :: w, v => by
    cases v <;> simp only [mapWord, HasWord, List.forall_mem_map]
    exact forall₂_congr fun u _ => hasWord_mapWord f w u

theorem cellOf_mapWord (c : Value → Cell) (f : Value → Value) : ∀ (w : List RawWrapper) (v : Value),
    cellOf c w (mapWord f w v) = cellOf (fun u => c (f u)) w v
  | [], _ => rfl
  | .option :: w, v => by cases v <;> simp [mapWord, cellOf, cellOf_mapWord c f w]
  | .smartPtr :: w, v => by cases v <;> simp [mapWord, cellOf, cellOf_mapWord c f w]
  | .vec :: w, v => by cases v <;> simp [mapWord, cellOf, cellOf_mapWord c f w]

theorem fitsWord_mapWord {max : Nat} {F : List Value → Prop} (f : Value → Value) : ∀ (w : List RawWrapper)
    (vs : List Value),
    FitsWord max F w (vs.map (mapWord f w)) ↔ FitsWord max (fun us => F (us.map f)) w vs
  | [], _ => Iff.rfl
  | s :: w, vs => by
    have hbelow : (vs.map (mapWord f (s :: w))).flatMap (below s) = (vs.flatMap (below s)).map (mapWord f w) := by
      rw [List.flatMap_map, List.map_flatMap]
      exact congrArg (List.flatMap · vs) (funext fun v => below_mapWord f s w v)
    rw [FitsWord, FitsWord, hbelow, List.length_map, fitsWord_mapWord f w]

/-- Past the wrappers of the image is past the wrappers, then to the image. -/
theorem Walk.word_mapWord (f : Value → Value) (shape : WrapperShape) :
    (Walk.read fun v => some (mapWord f shape.word v)).comp (.word shape) =
      (Walk.word shape).comp (.read fun v => some (f v)) := by
  refine Walk.ext ?_ ?_ ?_ ?_ (Nat.add_comm _ _)
  · funext P v
    have hread : (fun u => ∃ x, some (f u) = some x ∧ P x) = fun u => P (f u) := by
      funext u
      simp
    show (∃ x, some (mapWord f shape.word v) = some x ∧ HasWord P shape.word x) =
      HasWord (fun u => ∃ x, some (f u) = some x ∧ P x) shape.word v
    rw [hread, ← hasWord_mapWord]
    simp
  · funext c v
    exact cellOf_mapWord c f shape.word v
  · funext v
    show [mapWord f shape.word v].flatMap (leavesOf shape.word) = (leavesOf shape.word v).flatMap fun u => [f u]
    rw [List.flatMap_singleton, leavesOf_mapWord, List.map_eq_flatMap]
  · funext F vs
    exact propext (fitsWord_mapWord f shape.word vs)

/-- Values that have, below the wrappers, each of several properties. -/
theorem hasWord_forall {α : Type} {l : List α} (hne : l ≠ []) {P : α → Value → Prop} : ∀ {w : List RawWrapper} {v : Value},
    (∀ a ∈ l, HasWord (P a) w v) → HasWord (fun u => ∀ a ∈ l, P a u) w v
  | [], _, h => h
  | s :: w, v, h => by
    obtain ⟨a, ha⟩ := List.exists_mem_of_ne_nil l hne
    have hshape := h a ha
    cases s with
    | option =>
      cases v with
      | none => trivial
      | some u => exact hasWord_forall hne (w := w) h
      | _ => exact hshape.elim
    | smartPtr =>
      cases v with
      | ptr u => exact hasWord_forall hne (w := w) h
      | _ => exact hshape.elim
    | vec =>
      cases v with
      | vec vs => exact fun u hu => hasWord_forall hne (w := w) fun b hb => h b hb u hu
      | _ => exact hshape.elim

/-! ## Ways -/

theorem map_related {α β γ : Type} {f : α → γ} {g : β → γ} {as : List α} {bs : List β}
    (h : List.Forall₂ (fun a b => f a = g b) as bs) : as.map f = bs.map g := by
  rw [← List.forall₂_eq_eq_eq, List.forall₂_map_left_iff, List.forall₂_map_right_iff]
  exact h

theorem flatMap_related {α β γ : Type} {f : α → List γ} {g : β → List γ} {as : List α} {bs : List β}
    (h : List.Forall₂ (fun a b => f a = g b) as bs) : as.flatMap f = bs.flatMap g := by
  rw [List.flatMap_def, List.flatMap_def, map_related h]

/-- `a` leads from `row` to the leaves `b` leads to from `row'`. -/
structure Walk.AlikeAt (a b : Walk) (row row' : Value) : Prop where
  typed : ∀ P, a.typed P row ↔ b.typed P row'
  cell : ∀ f, a.cell f row = b.cell f row'
  leaves : a.leaves row = b.leaves row'

/-- The same of every row of two batches, the lists of one being within the offset range when
    those of the other are. -/
structure Walk.Alike (a b : Walk) (rows rows' : List Value) : Prop where
  depth : a.depth = b.depth
  each : List.Forall₂ (a.AlikeAt b) rows rows'
  fits : a.fits (fun _ => True) rows ↔ b.fits (fun _ => True) rows'

namespace Walk

variable {a b : Walk} {rows rows' : List Value}

/-- Ways from the same values. -/
theorem Alike.read {f g : Value → Option Value} (w : Walk) (h : List.Forall₂ (fun row row' => f row = g row') rows rows') :
    ((Walk.read f).comp w).Alike ((Walk.read g).comp w) rows rows' where
  depth := rfl
  each := h.imp fun row row' heq => by
    refine ⟨fun P => ?_, fun c => ?_, ?_⟩
    · show (∃ x, f row = some x ∧ w.typed P x) ↔ ∃ x, g row' = some x ∧ w.typed P x
      rw [heq]
    · show w.cell c ((f row).getD .none) = w.cell c ((g row').getD .none)
      rw [heq]
    · show [(f row).getD .none].flatMap w.leaves = [(g row').getD .none].flatMap w.leaves
      rw [heq]
  fits := by
    have hvalues : rows.map (fun row => (f row).getD .none) = rows'.map fun row => (g row).getD .none :=
      map_related (h.imp fun _ _ heq => congrArg (Option.getD · Value.none) heq)
    show w.fits _ (rows.map _) ↔ w.fits _ (rows'.map _)
    rw [hvalues]

theorem Alike.flatMap_leaves (h : a.Alike b rows rows') : rows.flatMap a.leaves = rows'.flatMap b.leaves :=
  flatMap_related (h.each.imp fun _ _ heq => heq.leaves)

theorem Alike.fits_iff (h : a.Alike b rows rows') (F : List Value → Prop) : a.fits F rows ↔ b.fits F rows' := by
  rw [a.fits_iff, b.fits_iff, h.fits, h.flatMap_leaves]

/-- Further on the same way. -/
theorem Alike.comp (h : a.Alike b rows rows') (w : Walk) : (a.comp w).Alike (b.comp w) rows rows' where
  depth := congrArg (· + w.depth) h.depth
  each := h.each.imp fun _ _ heq =>
    ⟨fun _ => heq.typed _, fun _ => heq.cell _, congrArg (List.flatMap w.leaves) heq.leaves⟩
  fits := h.fits_iff _

theorem Alike.cells (h : a.Alike b rows rows') (f : Value → Cell) : rows.map (a.cell f) = rows'.map (b.cell f) :=
  map_related (h.each.imp fun _ _ heq => heq.cell f)

theorem Alike.typed (h : a.Alike b rows rows') {P : Value → Prop} (ht : ∀ row ∈ rows, a.typed P row) :
    ∀ row' ∈ rows', b.typed P row' := by
  have hrows := h.each
  clear h
  induction hrows with
  | nil => exact nofun
  | cons heq _ ih =>
    obtain ⟨hrow, ht⟩ := List.forall_mem_cons.mp ht
    exact List.forall_mem_cons.mpr ⟨(heq.typed P).mp hrow, ih ht⟩

end Walk

/-! ## Row types -/

namespace RowSpec

/-- Names, dtypes and cells of the columns of a batch. -/
def contents (spec : RowSpec) (rows : List Value) : List ((String × DataType) × List Cell) :=
  spec.columns.map fun c => (c.entry, rows.map c.cell)

/-- The batches have the same columns, and one converts when the other does. -/
structure Agrees (a b : RowSpec) (rows rows' : List Value) : Prop where
  contents : a.contents rows = b.contents rows'
  typed : ∀ row' ∈ rows', b.typed row'
  valid : a.valid ↔ b.valid
  accepts : a.Accepts rows ↔ b.Accepts rows'

variable {rows rows' : List Value}

theorem Agrees.entries {a b : RowSpec} (h : a.Agrees b rows rows') : a.entries = b.entries := by
  have hfst := congrArg (List.map Prod.fst) h.contents
  rw [RowSpec.contents, RowSpec.contents, List.map_map, List.map_map] at hfst
  exact hfst

theorem Agrees.cells {a b : RowSpec} (h : a.Agrees b rows rows') :
    (a.columns.map fun c => rows.map c.cell) = b.columns.map fun c => rows'.map c.cell := by
  have hsnd := congrArg (List.map Prod.snd) h.contents
  rw [RowSpec.contents, RowSpec.contents, List.map_map, List.map_map] at hsnd
  exact hsnd

/-- The same row type along alike ways. -/
theorem Agrees.under {a b : Walk} (h : a.Alike b rows rows') (spec : RowSpec) (ht : ∀ row ∈ rows, a.typed spec.typed row) :
    (spec.under a).Agrees (spec.under b) rows rows' where
  contents := by
    rw [RowSpec.contents, RowSpec.contents, RowSpec.under, RowSpec.under, List.map_map, List.map_map]
    refine List.map_congr_left fun c _ => ?_
    show ((c.name, wrapListLayers c.dtype a.depth), rows.map (a.cell c.cell)) =
      ((c.name, wrapListLayers c.dtype b.depth), rows'.map (b.cell c.cell))
    rw [h.depth, h.cells]
  typed := h.typed ht
  valid := Iff.rfl
  accepts := by
    rw [accepts_under, accepts_under]
    exact h.fits_iff _

/-- Row types that agree on the leaves of a way, along it. -/
theorem Agrees.along {a b : RowSpec} {w : Walk} (h : a.Agrees b (rows.flatMap w.leaves) (rows.flatMap w.leaves))
    (ht : ∀ row ∈ rows, w.typed b.typed row) : (a.under w).Agrees (b.under w) rows rows where
  contents := by
    have hcontents := h.contents
    rw [RowSpec.contents, RowSpec.contents, ← List.forall₂_eq_eq_eq, List.forall₂_map_left_iff, List.forall₂_map_right_iff]
      at hcontents
    rw [RowSpec.contents, RowSpec.contents, RowSpec.under, RowSpec.under, List.map_map, List.map_map]
    refine map_related (hcontents.imp fun c d hcd => ?_)
    obtain ⟨hentry, hcells⟩ := Prod.mk.inj hcd
    obtain ⟨hname, hdtype⟩ := Prod.mk.inj hentry
    have hrows : rows.map (w.cell c.cell) = rows.map (w.cell d.cell) :=
      List.map_congr_left fun row hrow => w.cell_congr _ _ row fun u hu =>
        List.map_inj_left.mp hcells u (List.mem_flatMap.mpr ⟨row, hrow, hu⟩)
    show ((c.name, wrapListLayers c.dtype w.depth), rows.map (w.cell c.cell)) =
      ((d.name, wrapListLayers d.dtype w.depth), rows.map (w.cell d.cell))
    rw [hname, hdtype, hrows]
  typed := ht
  valid := h.valid
  accepts := by
    rw [accepts_under, accepts_under, w.fits_iff, w.fits_iff b.Accepts, h.accepts]

theorem Agrees.trans {a b c : RowSpec} {rows'' : List Value} (h : a.Agrees b rows rows') (h' : b.Agrees c rows' rows'') :
    a.Agrees c rows rows'' :=
  ⟨h.contents.trans h'.contents, h'.typed, h.valid.trans h'.valid, h.accepts.trans h'.accepts⟩

theorem concat_contents (specs : List RowSpec) :
    (concat specs).contents rows = specs.flatMap (RowSpec.contents · rows) := by
  rw [RowSpec.contents, concat_columns, List.map_flatMap]
  rfl

/-- Columns after columns. -/
theorem Agrees.append {as as' bs bs' : List RowSpec} (h : (concat as).Agrees (concat bs) rows rows')
    (h' : (concat as').Agrees (concat bs') rows rows') : (concat (as ++ as')).Agrees (concat (bs ++ bs')) rows rows' where
  contents := by
    have hcontents := h.contents
    have hcontents' := h'.contents
    rw [concat_contents, concat_contents] at hcontents hcontents' ⊢
    rw [List.flatMap_append, List.flatMap_append, hcontents, hcontents']
  typed row' hrow := by
    have htyped := h.typed row' hrow
    have htyped' := h'.typed row' hrow
    rw [concat_typed] at htyped htyped' ⊢
    exact List.forall_mem_append.mpr ⟨htyped, htyped'⟩
  valid := by
    have hvalid := h.valid
    have hvalid' := h'.valid
    rw [concat_valid, concat_valid] at hvalid hvalid' ⊢
    rw [List.forall_mem_append, List.forall_mem_append, hvalid, hvalid']
  accepts := by
    have haccepts := h.accepts
    have haccepts' := h'.accepts
    rw [concat_accepts, concat_accepts] at haccepts haccepts' ⊢
    rw [List.forall_mem_append, List.forall_mem_append, haccepts, haccepts']

/-- Columns side by side. -/
theorem Agrees.concat {as bs : List RowSpec} (h : List.Forall₂ (fun a b => RowSpec.Agrees a b rows rows') as bs) :
    (RowSpec.concat as).Agrees (RowSpec.concat bs) rows rows' := by
  have hsame : ∀ {p q : RowSpec → Prop}, (∀ a b, RowSpec.Agrees a b rows rows' → (p a ↔ q b)) →
      ((∀ a ∈ as, p a) ↔ ∀ b ∈ bs, q b) := by
    intro p q hpq
    induction h with
    | nil => exact iff_of_true nofun nofun
    | cons hab _ ih => rw [List.forall_mem_cons, List.forall_mem_cons, hpq _ _ hab, ih]
  refine ⟨?_, fun row' hrow => ?_, ?_, ?_⟩
  · rw [concat_contents, concat_contents]
    exact flatMap_related (h.imp fun _ _ hab => hab.contents)
  · rw [concat_typed]
    exact (hsame (p := fun _ => True) fun a b hab => iff_of_true trivial (hab.typed row' hrow)).mp fun _ _ => trivial
  · rw [concat_valid, concat_valid]
    exact hsame fun a b hab => hab.valid
  · rw [concat_accepts, concat_accepts]
    exact hsame fun a b hab => hab.accepts

end RowSpec

/-- The columns of structs, whose names are distinct alike. -/
theorem RowSpec.Agrees.structRow {tr : Traits} {spec : TypePath → RowSpec} {refs refs' : List ColumnRef}
    {rows rows' : List Value} (h : (RowSpec.concat (refs.map (ColumnRef.row tr spec))).Agrees
      (RowSpec.concat (refs'.map (ColumnRef.row tr spec))) rows rows') :
    (structRow tr spec refs).Agrees (structRow tr spec refs') rows rows' where
  contents := h.contents
  typed := h.typed
  valid := by
    have hnames := congrArg (List.map Prod.fst) h.entries
    rw [RowSpec.entries, RowSpec.entries, List.map_map, List.map_map] at hnames
    exact and_congr h.valid (iff_of_eq (congrArg List.Nodup hnames))
  accepts := h.accepts

/-! ## Implementations -/

/-- Both runs give a result, related to the other's, or both fail, by what is in the data. -/
def Run.Agree {α : Type} (R : α → α → Prop) (r r' : Run α) : Prop :=
  (∃ a b, r = .ok a ∧ r' = .ok b ∧ R a b) ∨ ∃ e f, r = .error e ∧ r' = .error f ∧ e.FromData ∧ f.FromData

/-- Equal names, dtypes, cells and heights. -/
structure DataFrame.Same (df df' : DataFrame) : Prop where
  fields : df.fields = df'.fields
  cells : df.cells = df'.cells
  height : df.height = df'.height

theorem Run.Spec.agree {α : Type} {r r' : Run α} {G G' : Prop} {P P' : α → Prop} {R : α → α → Prop} (h : Run.Spec r G P)
    (h' : Run.Spec r' G' P') (hG : G ↔ G') (hR : ∀ a b, P a → P' b → R a b) : Run.Agree R r r' := by
  by_cases hg : G
  · obtain ⟨a, ha, hP⟩ := h.1 hg
    obtain ⟨b, hb, hP'⟩ := h'.1 (hG.mp hg)
    exact Or.inl ⟨a, b, ha, hb, hR a b hP hP'⟩
  · obtain ⟨e, he, hdata⟩ := h.2 hg
    obtain ⟨f, hf, hdata'⟩ := h'.2 fun hg' => hg (hG.mpr hg')
    exact Or.inr ⟨e, f, he, hf, hdata, hdata'⟩

/-- Implementations of row types that agree. -/
theorem Models.agree {impl impl' : Impl} {spec spec' : RowSpec} (hm : Models impl spec) (hm' : Models impl' spec')
    {rows rows' : List Value} (h : spec.Agrees spec' rows rows') (hlen : rows.length = rows'.length)
    (ht : ∀ row ∈ rows, spec.typed row) :
    Run.Agree DataFrame.Same (impl.columnarFromRefs rows) (impl'.columnarFromRefs rows') := by
  refine (hm.fromRefs rows ht).agree (hm'.fromRefs rows' h.typed) (and_congr h.valid h.accepts) fun df df' hdf hdf' => ?_
  refine ⟨?_, ?_, ?_⟩
  · rw [hdf.fields, hdf'.fields]
    exact h.entries
  · rw [DataFrame.cells, DataFrame.cells, hdf.columns.cells, hdf'.columns.cells, h.cells]
  · rw [hdf.height, hdf'.height, hlen]

end DfDerive
