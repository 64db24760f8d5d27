/-
  DfDerive.Lib.Scan — filling the buffers of a nested column row by row.

  A column of depth `n` keeps one `ListBuf` a layer over a leaf storage (`Bufs`). Writing
  one row (`pushRow`) writes the leaves below it into the storage, then closes one list at
  every layer it reaches; offsets may be refused. `Holds` says what the buffers contain
  and `Fits` what the rows must meet to be accepted: `pushRow_runs` and `pushRows_runs`
  show that exactly the rows that fit are written, and that the buffers then hold them in
  order. `Holds.read` reads them back. A separate count of the same rows (`countRow`)
  gives, layer by layer, the number of lists and leaves written (`countRows_eq`).
-/

import DfDerive.Lib.Runs
import DfDerive.Lib.Ragged

namespace DfDerive.Lib

variable {α β γ σ ε L : Type}

/-! ## Nested values -/

namespace Nested

mutual
/-- Replace every value, absent lists staying absent. -/
def bind (f : α → Nested β) : Nested α → Nested β
  | .null => .null
  | .val a => f a
  | .list ts => .list (bindAll f ts)

def bindAll (f : α → Nested β) : List (Nested α) → List (Nested β)
  | [] => []
  | t :: ts => t.bind f :: bindAll f ts
end

theorem bindAll_eq (f : α → Nested β) (ts : List (Nested α)) : bindAll f ts = ts.map (bind f) := by
  induction ts with
  | nil => rfl
  | cons t ts ih => simp only [bindAll, ih, List.map_cons]

@[simp] theorem bind_null (f : α → Nested β) : Nested.null.bind f = .null := by simp only [bind]
@[simp] theorem bind_val (f : α → Nested β) (a : α) : (Nested.val a).bind f = f a := by simp only [bind]
@[simp] theorem bind_list (f : α → Nested β) (ts : List (Nested α)) :
    (Nested.list ts).bind f = .list (ts.map (bind f)) := by simp only [bind, bindAll_eq]

mutual
theorem bind_bind (f : α → Nested β) (g : β → Nested γ) : ∀ t : Nested α, (t.bind f).bind g = t.bind fun a => (f a).bind g
  | .null => by simp only [bind_null]
  | .val a => by simp only [bind_val]
  | .list ts => by
    simp only [bind]
    exact congrArg Nested.list (bindAll_bindAll f g ts)

theorem bindAll_bindAll (f : α → Nested β) (g : β → Nested γ) : ∀ ts : List (Nested α),
    bindAll g (bindAll f ts) = bindAll (fun a => (f a).bind g) ts
  | [] => rfl
  | t :: ts => by simp only [bindAll, bind_bind f g t, bindAll_bindAll f g ts]
end

/-- The elements of a list, and none for anything else. -/
def elems : Nested α → List (Nested α)
  | .list ts => ts
  | _ => []

def val? : Nested α → Option α
  | .val a => some a
  | _ => none

end Nested

/-- The elements of the lists of a column, in order. -/
def children (xs : List (Nested α)) : List (Nested α) := xs.flatMap Nested.elems

/-- The values of a column of values, in order. -/
def vals (xs : List (Nested α)) : List α := xs.filterMap Nested.val?

/-- The leaves of a column below its list layers, in order. -/
def leaves : List L → List (Nested α) → List α
  | [], xs => vals xs
  | _ :: ls, xs => leaves ls (children xs)

@[simp] theorem children_nil : children ([] : List (Nested α)) = [] := rfl
@[simp] theorem vals_nil : vals ([] : List (Nested α)) = [] := rfl

theorem children_append (xs ys : List (Nested α)) : children (xs ++ ys) = children xs ++ children ys :=
  List.flatMap_append

theorem vals_append (xs ys : List (Nested α)) : vals (xs ++ ys) = vals xs ++ vals ys := List.filterMap_append

@[simp] theorem children_list (ts : List (Nested α)) : children [.list ts] = ts := by simp [children, Nested.elems]
@[simp] theorem children_null : children [(.null : Nested α)] = [] := rfl
@[simp] theorem vals_val (a : α) : vals [.val a] = [a] := rfl

theorem leaves_append : ∀ (ls : List L) (xs ys : List (Nested α)), leaves ls (xs ++ ys) = leaves ls xs ++ leaves ls ys
  | [], xs, ys => vals_append xs ys
  | _ :: ls, xs, ys => by simp only [leaves, children_append, leaves_append ls]

theorem leaves_nil : ∀ ls : List L, leaves ls ([] : List (Nested α)) = []
  | [] => rfl
  | _ :: ls => leaves_nil ls

/-! ## Buffers -/

/-- One list buffer a layer over a leaf storage. -/
def Bufs (σ : Type) : List L → Type
  | [] => σ
  | _ :: ls => ListBuf × Bufs σ ls

/-- How many rows the buffers below a layer hold. -/
def Bufs.count (len : σ → Nat) : (ls : List L) → Bufs σ ls → Nat
  | [], s => len s
  | _ :: _, (b, _) => b.count

/-- The leaf storage below the layers. -/
def Bufs.leaf : (ls : List L) → Bufs σ ls → σ
  | [], s => s
  | _ :: ls, (_, inner) => Bufs.leaf ls inner

section

variable (nullable : L → Bool)

/-- Rows of the layers `ls`: a null only where the layer allows one, values at the leaves. -/
def Shaped : List L → Nested α → Prop
  | [], .val _ => True
  | l :: _, .null => nullable l = true
  | _ :: ls, .list ts => ∀ t ∈ ts, Shaped ls t
  | _, _ => False

theorem Shaped.children {nullable : L → Bool} {l : L} {ls : List L} {xs : List (Nested α)}
    (h : ∀ t ∈ xs, Shaped nullable (l :: ls) t) : ∀ t ∈ children xs, Shaped nullable ls t := by
  intro t ht
  obtain ⟨x, hx, htx⟩ := List.mem_flatMap.mp ht
  have hs := h x hx
  cases x with
  | null => cases htx
  | val a => cases htx
  | list ts => exact hs t htx

theorem Shaped.eq_vals {nullable : L → Bool} {xs : List (Nested α)} (h : ∀ t ∈ xs, Shaped nullable [] t) :
    xs = (vals xs).map .val := by
  induction xs with
  | nil => rfl
  | cons x xs ih =>
    have hx := h x List.mem_cons_self
    cases x with
    | val a => simpa [vals, Nested.val?] using ih fun t ht => h t (List.mem_cons_of_mem _ ht)
    | null => exact hx.elim
    | list ts => exact hx.elim

/-- The buffers before any row. -/
def Bufs.init (s : σ) : (ls : List L) → Bufs σ ls
  | [] => s
  | l :: ls => (ListBuf.empty (nullable l), Bufs.init s ls)

variable (Abs : σ → List α → Prop)

/-- The buffers hold the rows `xs`, a leaf storage being judged by `Abs`. -/
def Holds : (ls : List L) → Bufs σ ls → List (Nested α) → Prop
  | [], s, xs => Abs s (vals xs) ∧ xs = (vals xs).map .val
  | l :: ls, (b, inner), xs =>
    Holds ls inner (children xs) ∧ b.WF (children xs).length ∧ b.rows (children xs) = xs ∧
      b.validity.isSome = nullable l

end

/-- What rows must meet to be written: at most `max` elements at every layer, and leaves
    that `F` accepts. -/
def Fits (max : Nat) (F : List α → Prop) : List L → List (Nested α) → Prop
  | [], xs => F (vals xs)
  | _ :: ls, xs => (children xs).length ≤ max ∧ Fits max F ls (children xs)

/-- Close the list of a layer over what its children have become. -/
def closeRow (len : σ → Nat) (toOffset : Nat → Except ε Nat) (ls : List L) (b : ListBuf) (valid : Bool)
    (inner : Bufs σ ls) : Except ε (ListBuf × Bufs σ ls) := do
  let n ← toOffset (Bufs.count len ls inner)
  .ok (b.push valid n, inner)

def pushLeaf (push : σ → α → Except ε σ) (s : σ) : Nested α → Except ε σ
  | .val a => push s a
  | _ => .ok s

def pushList (len : σ → Nat) (toOffset : Nat → Except ε Nat) (ls : List L)
    (row : Bufs σ ls → Nested α → Except ε (Bufs σ ls)) (st : ListBuf × Bufs σ ls) :
    Nested α → Except ε (ListBuf × Bufs σ ls)
  | .list ts => do closeRow len toOffset ls st.1 true (← ts.foldlM row st.2)
  | _ => closeRow len toOffset ls st.1 false st.2

/-- Write one row: its leaves, then the end of its list at every layer. -/
def pushRow (push : σ → α → Except ε σ) (len : σ → Nat) (toOffset : Nat → Except ε Nat) :
    (ls : List L) → Bufs σ ls → Nested α → Except ε (Bufs σ ls)
  | [], s, t => pushLeaf push s t
  | _ :: ls, st, t => pushList len toOffset ls (pushRow push len toOffset ls) st t

theorem Fits.append_left {max : Nat} {F : List α → Prop} (hF : ∀ xs ys, F (xs ++ ys) → F xs) :
    ∀ (ls : List L) (xs ys : List (Nested α)), Fits max F ls (xs ++ ys) → Fits max F ls xs
  | [], xs, ys, h => by
    simp only [Fits, vals_append] at h ⊢
    exact hF _ _ h
  | _ :: ls, xs, ys, h => by
    simp only [Fits, children_append, List.length_append] at h ⊢
    exact ⟨by omega, Fits.append_left hF ls _ _ h.2⟩

/-- Rows are judged by their leaves as a whole. -/
theorem fits_congr {max : Nat} {F G : List α → Prop} : ∀ (ls : List L) (xs : List (Nested α)),
    (F (leaves ls xs) ↔ G (leaves ls xs)) → (Fits max F ls xs ↔ Fits max G ls xs)
  | [], _, h => h
  | _ :: ls, xs, h => and_congr_right fun _ => fits_congr ls (children xs) h

/-- A condition on the leaves as a whole can be kept apart. -/
theorem fits_and {max : Nat} {F G : List α → Prop} : ∀ (ls : List L) (xs : List (Nested α)),
    Fits max (fun as => F as ∧ G as) ls xs ↔ Fits max F ls xs ∧ G (leaves ls xs)
  | [], _ => Iff.rfl
  | _ :: ls, xs => by
    simp only [Fits, leaves, fits_and ls (children xs)]
    exact and_assoc.symm

theorem Fits.nil {max : Nat} {F : List α → Prop} (hF : F []) : ∀ ls : List L, Fits max F ls []
  | [] => hF
  | _ :: ls => ⟨Nat.zero_le _, Fits.nil hF ls⟩

theorem Holds.init {nullable : L → Bool} {Abs : σ → List α → Prop} {s : σ} (h : Abs s []) :
    ∀ ls : List L, Holds nullable Abs ls (Bufs.init nullable s ls) []
  | [] => ⟨h, rfl⟩
  | l :: ls => by
    refine ⟨Holds.init h ls, ListBuf.WF.empty _, ?_, ?_⟩
    · cases nullable l <;> rfl
    · cases hn : nullable l <;> simp [ListBuf.empty]

theorem Holds.abs {nullable : L → Bool} {Abs : σ → List α → Prop} {ls : List L} :
    ∀ {st : Bufs σ ls} {xs : List (Nested α)}, Holds nullable Abs ls st xs → Abs (Bufs.leaf ls st) (leaves ls xs) := by
  induction ls with
  | nil => intro st xs h; exact h.1
  | cons l ls ih =>
    intro st xs h
    obtain ⟨b, inner⟩ := st
    exact ih h.1

theorem Holds.count {nullable : L → Bool} {Abs : σ → List α → Prop} {len : σ → Nat}
    (hlen : ∀ s as, Abs s as → len s = as.length) :
    ∀ {ls : List L} {st : Bufs σ ls} {xs : List (Nested α)}, Holds nullable Abs ls st xs →
      Bufs.count len ls st = xs.length
  | [], s, xs, h => by
    rw [Bufs.count, hlen _ _ h.1]
    have := congrArg List.length h.2
    simpa using this.symm
  | _ :: _, (b, _), xs, h => by
    obtain ⟨-, hwf, hrows, -⟩ := h
    rw [Bufs.count, ← ListBuf.rows_length hwf (children xs), hrows]

/-! ## Writing rows -/

theorem pushLeaves_eq {push : σ → α → Except ε σ} (f : β → α) (bs : List β) (s : σ) :
    (bs.map fun b => Nested.val (f b)).foldlM (pushLeaf push) s = bs.foldlM (fun s b => push s (f b)) s := by
  rw [List.foldlM_map]
  rfl

/-- Validity is kept exactly where a layer allows nulls. -/
def Declared (nullable : L → Bool) : (ls : List L) → Bufs σ ls → Prop
  | [], _ => True
  | l :: ls, (b, inner) => b.validity.isSome = nullable l ∧ Declared nullable ls inner

theorem Holds.declared {nullable : L → Bool} {Abs : σ → List α → Prop} : ∀ {ls : List L} {st : Bufs σ ls}
    {xs : List (Nested α)}, Holds nullable Abs ls st xs → Declared nullable ls st
  | [], _, _, _ => trivial
  | _ :: _, (_, _), _, h => ⟨h.2.2.2, Holds.declared h.1⟩

theorem closeRow_declared {nullable : L → Bool} {len : σ → Nat} {toOffset : Nat → Except ε Nat} {l : L} {ls : List L}
    {b : ListBuf} {valid : Bool} {inner : Bufs σ ls} {st' : ListBuf × Bufs σ ls} (hb : b.validity.isSome = nullable l)
    (hi : Declared nullable ls inner) (h : closeRow len toOffset ls b valid inner = .ok st') :
    Declared nullable (l :: ls) st' := by
  unfold closeRow at h
  cases hn : toOffset (Bufs.count len ls inner) with
  | error e => rw [hn] at h; cases h
  | ok n => rw [hn] at h; cases h; exact ⟨by simpa using hb, hi⟩

theorem pushRow_declared {nullable : L → Bool} {push : σ → α → Except ε σ} {len : σ → Nat}
    {toOffset : Nat → Except ε Nat} : ∀ (ls : List L) (st st' : Bufs σ ls) (t : Nested α),
      Declared nullable ls st → pushRow push len toOffset ls st t = .ok st' → Declared nullable ls st' := by
  intro ls
  induction ls with
  | nil => intro _ _ _ _ _; exact trivial
  | cons l ls ih =>
    rintro ⟨b, inner⟩ st' t ⟨hb, hd⟩ h
    cases t with
    | null => exact closeRow_declared hb hd h
    | val a => exact closeRow_declared hb hd h
    | list ts =>
      simp only [pushRow, pushList] at h
      cases hf : ts.foldlM (pushRow push len toOffset ls) inner with
      | error e => rw [hf] at h; cases h
      | ok inner' =>
        rw [hf] at h
        exact closeRow_declared hb (Runs.foldlM_keeps ts inner inner' (fun s a s' _ => ih s s' a) hd hf) h

/-- How the leaf storage takes one leaf: `F` is the condition under which leaves are
    taken, `R` what the storage was prepared for. -/
structure LeafPush (E : ε → Prop) (push : σ → α → Except ε σ) (len : σ → Nat) (Abs : σ → List α → Prop)
    (R F : List α → Prop) (T : α → Prop) : Prop where
  step : ∀ s as a, T a → R (as ++ [a]) → F as → Abs s as → Runs E (push s a) (F (as ++ [a])) (Abs · (as ++ [a]))
  len_eq : ∀ s as, Abs s as → len s = as.length
  fits_prefix : ∀ as bs, F (as ++ bs) → F as
  room_prefix : ∀ as bs, R (as ++ bs) → R as

section

variable {E : ε → Prop} {push : σ → α → Except ε σ} {len : σ → Nat} {toOffset : Nat → Except ε Nat} {max : Nat}
  {nullable : L → Bool} {Abs : σ → List α → Prop} {R F : List α → Prop} {T : α → Prop}

/-- Leaves of a row, by the layers above them. -/
def AllLeaves (T : α → Prop) : List L → Nested α → Prop
  | [], .val a => T a
  | _ :: ls, .list ts => ∀ t ∈ ts, AllLeaves T ls t
  | _, _ => True

theorem AllLeaves.mem {T : α → Prop} : ∀ {ls : List L} {xs : List (Nested α)}, (∀ t ∈ xs, AllLeaves T ls t) →
    ∀ a ∈ leaves ls xs, T a
  | [], xs, h, a, ha => by
    obtain ⟨t, ht, hv⟩ := List.mem_filterMap.mp ha
    cases t with
    | val b => cases hv; exact h _ ht
    | null => cases hv
    | list ts => cases hv
  | _ :: ls, xs, h, a, ha => by
    have ha : a ∈ leaves ls (children xs) := ha
    refine AllLeaves.mem (fun t ht => ?_) a ha
    obtain ⟨x, hx, htx⟩ := List.mem_flatMap.mp ht
    cases x with
    | list ts => exact h _ hx t htx
    | null => cases htx
    | val b => cases htx

theorem pushRow_runs (hp : LeafPush E push len Abs R F T)
    (ho : ∀ n, Runs E (toOffset n) (n ≤ max) (fun m => m = n)) :
    ∀ (ls : List L) (xs : List (Nested α)) (t : Nested α) (st : Bufs σ ls),
      Shaped nullable ls t → AllLeaves T ls t → R (leaves ls (xs ++ [t])) → Fits max F ls xs →
      Holds nullable Abs ls st xs →
      Runs E (pushRow push len toOffset ls st t) (Fits max F ls (xs ++ [t])) (Holds nullable Abs ls · (xs ++ [t])) := by
  intro ls
  induction ls with
  | nil =>
    intro xs t st hs ht hr hf hst
    cases t with
    | null => exact hs.elim
    | list ts => exact hs.elim
    | val a =>
      obtain ⟨habs, hxs⟩ := hst
      have hvals : vals (xs ++ [.val a]) = vals xs ++ [a] := by rw [vals_append]; rfl
      simp only [leaves, hvals] at hr
      have hstep := hp.step st (vals xs) a ht hr hf habs
      simp only [Fits, Holds, hvals, List.map_append, List.map_cons, List.map_nil]
      exact Runs.mono hstep fun _ s hs' => ⟨hs', by rw [← hxs]⟩
  | cons l ls ih =>
    intro xs t st hs ht hr hf hst
    obtain ⟨b, inner⟩ := st
    obtain ⟨hinner, hwf, hrows, hvalid⟩ := hst
    cases t with
    | val a => exact hs.elim
    | null =>
      have hch : children (xs ++ [(.null : Nested α)]) = children xs := by rw [children_append]; simp
      have hcount := Holds.count hp.len_eq hinner
      simp only [Fits, hch]
      refine Runs.congr (Runs.bind (ho _) (H := True) (Q := (Holds nullable Abs (l :: ls) · (xs ++ [.null])))
        fun _ n hn => ?_) ?_
      · refine Runs.pure trivial ?_
        rw [hcount] at hn
        subst hn
        simp only [Holds, hch]
        refine ⟨hinner, hwf.push (Nat.le_refl _) _, ?_, by simpa using hvalid⟩
        rw [ListBuf.rows_push_null hwf (by rw [hvalid]; exact hs), hrows]
      · rw [hcount]
        exact ⟨fun h => ⟨h.1, hf.2⟩, fun h => ⟨h.1, trivial⟩⟩
    | list ts =>
      have hch : children (xs ++ [.list ts]) = children xs ++ ts := by rw [children_append]; simp
      simp only [leaves, hch] at hr
      have hfold : Runs E (ts.foldlM (pushRow push len toOffset ls) inner) (Fits max F ls (children xs ++ ts))
          (Holds nullable Abs ls · (children xs ++ ts)) := by
        refine Runs.foldlM_grow (I := fun ys s => Holds nullable Abs ls s ys) (R := fun ys => R (leaves ls ys))
          (Fits.append_left hp.fits_prefix ls) (fun ys zs h => ?_) ts (children xs) inner (fun pre a s ha hr hf hI => ?_) hr hf.2 hinner
        · rw [leaves_append] at h; exact hp.room_prefix _ _ h
        · exact ih pre a s (hs a ha) (ht a ha) hr hf hI
      simp only [Fits, hch]
      refine Runs.congr (Runs.bind hfold (H := (children xs ++ ts).length ≤ max)
        (Q := (Holds nullable Abs (l :: ls) · (xs ++ [.list ts]))) fun _ inner' hinner' => ?_) ?_
      · have hcount := Holds.count hp.len_eq hinner'
        refine Runs.congr (Runs.bind (ho _) (H := True) (Q := (Holds nullable Abs (l :: ls) · (xs ++ [.list ts])))
          fun _ n hn => ?_) (by rw [hcount]; exact and_iff_left trivial)
        refine Runs.pure trivial ?_
        rw [hcount] at hn
        subst hn
        simp only [Holds, hch]
        refine ⟨hinner', ?_, ?_, by simpa using hvalid⟩
        · exact hwf.push (by simp) _
        · rw [List.length_append, ListBuf.rows_push_list hwf ts, hrows]
      · exact ⟨fun h => ⟨h.2, h.1⟩, fun h => ⟨h.2, h.1⟩⟩

/-- A whole column is written exactly when it fits, and the buffers then hold it. -/
theorem pushRows_runs (hp : LeafPush E push len Abs R F T)
    (ho : ∀ n, Runs E (toOffset n) (n ≤ max) (fun m => m = n)) {ls : List L} {xs : List (Nested α)} {s : σ}
    (hs : ∀ t ∈ xs, Shaped nullable ls t) (ht : ∀ t ∈ xs, AllLeaves T ls t) (hr : R (leaves ls xs)) (h0 : Abs s [])
    (hF : F []) :
    Runs E (xs.foldlM (pushRow push len toOffset ls) (Bufs.init nullable s ls)) (Fits max F ls xs)
      (Holds nullable Abs ls · xs) := by
  refine Runs.foldlM_grow (I := fun ys s => Holds nullable Abs ls s ys) (R := fun ys => R (leaves ls ys))
    (Fits.append_left hp.fits_prefix ls) (fun ys zs h => ?_) xs [] _ (fun pre a st ha hr hf hI => ?_) hr (Fits.nil hF ls) (Holds.init h0 ls)
  · rw [leaves_append] at h; exact hp.room_prefix _ _ h
  · exact pushRow_runs hp ho ls pre a st (hs a ha) (ht a ha) hr hf hI

end

/-! ## Reading back -/

theorem ListBuf.rows_bind (b : ListBuf) (f : α → Nested β) (cs : List (Nested α)) :
    b.rows (cs.map (Nested.bind f)) = (b.rows cs).map (Nested.bind f) := by
  unfold ListBuf.rows
  split
  · simp only [lists_map, List.map_zipWith, List.zipWith_map_right]
    congr 1
    funext v l
    cases v <;> simp
  · simp [lists_map]

theorem children_bind (f : α → Nested β) {l : L} {ls : List L} {nullable : L → Bool} {xs : List (Nested α)}
    (h : ∀ t ∈ xs, Shaped nullable (l :: ls) t) :
    children (xs.map (Nested.bind f)) = (children xs).map (Nested.bind f) := by
  simp only [children, List.flatMap_map, List.map_flatMap]
  refine List.flatMap_congr fun x hx => ?_
  cases x with
  | null => simp [Nested.elems]
  | list ts => simp [Nested.elems]
  | val a => exact (h _ hx).elim

/-- The leaves of rows whose leaves are rows again. -/
theorem leaves_bind {f : α → Nested β} {nullable : L → Bool} {ls' : List L} :
    ∀ (ls : List L) (xs : List (Nested α)), (∀ t ∈ xs, Shaped nullable ls t) →
      leaves (ls ++ ls') (xs.map (Nested.bind f)) = leaves ls' ((leaves ls xs).map f)
  | [], xs, h => by
    have hx := Shaped.eq_vals h
    simp only [List.nil_append, leaves]
    conv_lhs => rw [hx]
    rw [List.map_map]
    exact congrArg (leaves ls') (List.map_congr_left fun a _ => Nested.bind_val f a)
  | l :: ls, xs, h => by
    simp only [List.cons_append, leaves, children_bind f h]
    exact leaves_bind ls _ (Shaped.children h)

/-- Rows whose leaves are rows again fit when they fit above the leaves and below. -/
theorem fits_bind {max : Nat} {F : List β → Prop} {f : α → Nested β} {nullable : L → Bool} {ls' : List L} :
    ∀ (ls : List L) (xs : List (Nested α)), (∀ t ∈ xs, Shaped nullable ls t) →
      (Fits max F (ls ++ ls') (xs.map (Nested.bind f)) ↔ Fits max (fun as => Fits max F ls' (as.map f)) ls xs)
  | [], xs, h => by
    have hx := Shaped.eq_vals h
    simp only [List.nil_append, Fits]
    conv_lhs => rw [hx]
    simp only [List.map_map]
    exact Iff.of_eq (congrArg (Fits max F ls') (List.map_congr_left fun a _ => Nested.bind_val f a))
  | l :: ls, xs, h => by
    simp only [List.cons_append, Fits, children_bind f h, List.length_map]
    exact and_congr_right fun _ => fits_bind ls _ (Shaped.children h)

/-- Read the rows back, the leaf storage being read by `cells`. -/
def Bufs.read (cells : σ → List (Nested β)) : (ls : List L) → Bufs σ ls → List (Nested β)
  | [], s => cells s
  | _ :: ls, (b, inner) => b.rows (Bufs.read cells ls inner)

theorem Holds.read {nullable : L → Bool} {Abs : σ → List α → Prop} (cells : σ → List (Nested β)) {f : α → Nested β} :
    ∀ {ls : List L} {st : Bufs σ ls} {xs : List (Nested α)}, Holds nullable Abs ls st xs →
      cells (Bufs.leaf ls st) = (leaves ls xs).map f → Bufs.read cells ls st = xs.map (Nested.bind f)
  | [], s, xs, h, hcells => by
    rw [Bufs.read]
    refine hcells.trans ?_
    conv_rhs => rw [h.2]
    simp [leaves]
  | _ :: _, (b, _), xs, h, hcells => by
    obtain ⟨hinner, -, hrows, -⟩ := h
    rw [Bufs.read, Holds.read cells hinner hcells, ListBuf.rows_bind, hrows]

theorem Bufs.read_length {nullable : L → Bool} {Abs : σ → List α → Prop} (cells : σ → List (Nested β)) :
    ∀ {ls : List L} {st : Bufs σ ls} {xs : List (Nested α)}, Holds nullable Abs ls st xs →
      (cells (Bufs.leaf ls st)).length = (leaves ls xs).length → (Bufs.read cells ls st).length = xs.length
  | [], s, xs, h, hlen => by
    refine hlen.trans ?_
    have := congrArg List.length h.2
    simpa [leaves] using this.symm
  | _ :: _, (b, inner), xs, h, _ => by
    obtain ⟨-, hwf, hrows, -⟩ := h
    rw [Bufs.read, ListBuf.rows_length hwf, ← ListBuf.rows_length hwf (children xs), hrows]

/-! ## Counting rows -/

/-- One counter a layer: the elements of its lists. -/
def Counts : List L → Type
  | [] => Unit
  | _ :: ls => Nat × Counts ls

def Counts.zero : (ls : List L) → Counts ls
  | [] => ()
  | _ :: ls => (0, Counts.zero ls)

/-- Count the elements of one list, after counting what lies below each of them. -/
def countElems (ls : List L) (count : Counts ls → Nested α → Counts ls) (s : Nat × Counts ls) (ts : List (Nested α)) :
    Nat × Counts ls :=
  ts.foldl (fun s t => (s.1 + 1, count s.2 t)) s

def countRow : (ls : List L) → Counts ls → Nested α → Counts ls
  | [], c, _ => c
  | _ :: ls, c, t => countElems ls (countRow ls) c t.elems

/-- The number of elements below every layer of a column. -/
def levels : (ls : List L) → List (Nested α) → Counts ls
  | [], _ => ()
  | _ :: ls, xs => ((children xs).length, levels ls (children xs))

theorem levels_nil : ∀ ls : List L, levels ls ([] : List (Nested α)) = Counts.zero ls
  | [] => rfl
  | _ :: ls => by
    simp only [levels, children_nil, List.length_nil, Counts.zero, levels_nil ls]
    rfl

theorem countElems_levels {ls : List L} {count : Counts ls → Nested α → Counts ls}
    (h : ∀ ys t, count (levels ls ys) t = levels ls (ys ++ [t])) (ts : List (Nested α)) :
    ∀ ys : List (Nested α), countElems ls count (ys.length, levels ls ys) ts = ((ys ++ ts).length, levels ls (ys ++ ts)) := by
  induction ts with
  | nil => intro ys; simp [countElems]
  | cons t ts ih =>
    intro ys
    have hy := ih (ys ++ [t])
    rw [List.length_append, List.append_assoc] at hy
    simp only [countElems, List.foldl_cons, h ys t]
    exact hy

theorem countRow_eq (ls : List L) : ∀ (xs : List (Nested α)) (t : Nested α),
    countRow ls (levels ls xs) t = levels ls (xs ++ [t]) := by
  induction ls with
  | nil => intro xs t; rfl
  | cons l ls ih =>
    intro xs t
    have hch : children (xs ++ [t]) = children xs ++ t.elems := by rw [children_append]; simp [children]
    simp only [levels, countRow, hch]
    exact countElems_levels ih t.elems (children xs)

theorem countElems_leaves (n : Nat) (c : Counts ([] : List L)) (ts : List (Nested α)) :
    countElems [] (countRow []) (n, c) ts = (n + ts.length, c) := by
  induction ts generalizing n with
  | nil => rfl
  | cons t ts ih =>
    have := ih (n + 1)
    simp only [countElems, List.foldl_cons, List.length_cons] at this ⊢
    rw [show n + (ts.length + 1) = n + 1 + ts.length from by omega]
    exact this

/-- Counting a column gives the size of every layer. -/
theorem countRows_eq (ls : List L) (xs : List (Nested α)) : xs.foldl (countRow ls) (Counts.zero ls) = levels ls xs := by
  have h : ∀ ys : List (Nested α), xs.foldl (countRow ls) (levels ls ys) = levels ls (ys ++ xs) := by
    induction xs with
    | nil => intro ys; rw [List.append_nil]; rfl
    | cons x xs ih =>
      intro ys
      rw [List.foldl_cons, countRow_eq, ih, List.append_assoc]
      rfl
  have := h []
  rwa [levels_nil] at this

/-- The last counter: the leaves of a column with at least one layer. -/
def Counts.total : (ls : List L) → Counts ls → Nat
  | [], _ => 0
  | _ :: [], c => c.1
  | _ :: l :: ls, c => Counts.total (l :: ls) c.2

theorem total_levels {nullable : L → Bool} (ls : List L) : ∀ (l : L) (xs : List (Nested α)),
    (∀ t ∈ xs, Shaped nullable (l :: ls) t) →
      Counts.total (l :: ls) (levels (l :: ls) xs) = (leaves (l :: ls) xs).length := by
  induction ls with
  | nil =>
    intro l xs h
    have hv := Shaped.eq_vals (Shaped.children h)
    show (children xs).length = (vals (children xs)).length
    conv_lhs => rw [hv]
    simp
  | cons l' ls ih => intro l xs h; exact ih l' (children xs) (Shaped.children h)

/-- The buffers are cut as the counters say: `n` lists at the outermost layer, below it as
    many as the counter above, and at the end as many leaves. -/
def Bufs.Agree (len : σ → Nat) : (ls : List L) → Bufs σ ls → Counts ls → Nat → Prop
  | [], s, _, n => len s = n
  | _ :: ls, (b, inner), (k, c), n =>
    b.WF k ∧ b.offsets.length = n + 1 ∧ (∀ bits, b.validity = some bits → bits.length = n) ∧ Bufs.Agree len ls inner c k

/-- Buffers that hold rows are cut as the rows are counted. -/
theorem Holds.agree {nullable : L → Bool} {Abs : σ → List α → Prop} {len : σ → Nat}
    (hlen : ∀ s as, Abs s as → len s = as.length) : ∀ {ls : List L} {st : Bufs σ ls} {xs : List (Nested α)},
      Holds nullable Abs ls st xs → Bufs.Agree len ls st (levels ls xs) xs.length
  | [], _, xs, h => by
    have hxs : xs.length = (vals xs).length := (congrArg List.length h.2).trans (List.length_map _)
    rw [hxs]
    exact hlen _ _ h.1
  | _ :: ls, (b, _), xs, ⟨hinner, hwf, hrows, _⟩ => by
    have hcount : b.count = xs.length := by rw [← ListBuf.rows_length hwf (children xs), hrows]
    have hpos := hwf.pos
    have hoffsets : b.offsets.length = xs.length + 1 := by
      rw [← hcount, ListBuf.count]
      omega
    refine ⟨hwf, hoffsets, fun bits hbits => ?_, Holds.agree hlen hinner⟩
    have := hwf.bits bits hbits
    omega

end DfDerive.Lib
