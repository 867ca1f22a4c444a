/-!
# TurtleGraphics.Bindings

Finite maps from names, kept in the order in which the names were first bound.

* `lookup?` : what a name is bound to.
* `insert`  : binds a name, in its old place if it was bound before.
* `ofList`  : binds names one after the other, so that the last binding of a name counts.

What is looked up is what was last inserted (`lookup?_insert_self`), and inserting under a name
that is bound keeps the names (`names_insert_of_contains`). No name is there twice
(`nodup_names_ofList`), and names that are new when they are bound stand behind the others
(`entries_ofList_append`).
-/

namespace TurtleGraphics

/-- Names and what they are bound to. -/
structure Bindings (κ α : Type) where
  entries : List (κ × α)
deriving Repr, DecidableEq

namespace Bindings

variable {κ α : Type}

/-- No name is bound. -/
def empty : Bindings κ α := ⟨[]⟩

/-- The bound names, in the order in which they were first bound. -/
def names (b : Bindings κ α) : List κ :=
  b.entries.map Prod.fst

variable [DecidableEq κ]

/-- What a name is bound to in a list of entries. -/
def find? (name : κ) : List (κ × α) → Option α
  | [] => none
  | (n, a) :: rest => if n = name then some a else find? name rest

/-- A list of entries with a name bound anew, in place if it occurs and at the end if not. -/
def put (name : κ) (a : α) : List (κ × α) → List (κ × α)
  | [] => [(name, a)]
  | (n, b) :: rest => if n = name then (n, a) :: rest else (n, b) :: put name a rest

/-- What a name is bound to. -/
def lookup? (b : Bindings κ α) (name : κ) : Option α :=
  find? name b.entries

/-- Whether a name is bound. -/
def contains (b : Bindings κ α) (name : κ) : Bool :=
  (b.lookup? name).isSome

/-- Binds a name, in the place it had if it was bound before. -/
def insert (b : Bindings κ α) (name : κ) (a : α) : Bindings κ α :=
  ⟨put name a b.entries⟩

/-- Binds names one after the other. -/
def ofList (entries : List (κ × α)) : Bindings κ α :=
  entries.foldl (fun b entry => b.insert entry.1 entry.2) empty

theorem isSome_find? (name : κ) (es : List (κ × α)) :
    (find? name es).isSome = true ↔ name ∈ es.map Prod.fst := by
  induction es with
  | nil => simp [find?]
  | cons e rest ih =>
    obtain ⟨n, a⟩ := e
    by_cases h : n = name
    · simp [find?, h]
    · simp [find?, h, Ne.symm h, ih]

theorem map_fst_put_of_mem {name : κ} (a : α) {es : List (κ × α)}
    (h : name ∈ es.map Prod.fst) : (put name a es).map Prod.fst = es.map Prod.fst := by
  induction es with
  | nil => simp at h
  | cons e rest ih =>
    obtain ⟨n, b⟩ := e
    by_cases hn : n = name
    · simp [put, hn]
    · have hr : name ∈ rest.map Prod.fst := by
        rcases List.mem_cons.mp h with rfl | hr
        · exact absurd rfl hn
        · exact hr
      simp only [put, if_neg hn, List.map_cons, ih hr]

theorem find?_put_self (name : κ) (a : α) (es : List (κ × α)) :
    find? name (put name a es) = some a := by
  induction es with
  | nil => simp [put, find?]
  | cons e rest ih =>
    obtain ⟨n, b⟩ := e
    by_cases h : n = name
    · simp [put, find?, h]
    · simp [put, find?, h, ih]

theorem find?_put_of_ne {name other : κ} (h : other ≠ name) (a : α)
    (es : List (κ × α)) : find? other (put name a es) = find? other es := by
  induction es with
  | nil => simp [put, find?, Ne.symm h]
  | cons e rest ih =>
    obtain ⟨n, b⟩ := e
    by_cases hn : n = name
    · subst hn
      simp [put, find?, Ne.symm h]
    · simp [put, find?, hn, ih]

@[simp] theorem lookup?_empty (name : κ) : (empty : Bindings κ α).lookup? name = none := rfl

@[simp] theorem lookup?_insert_self (b : Bindings κ α) (name : κ) (a : α) :
    (b.insert name a).lookup? name = some a :=
  find?_put_self name a b.entries

theorem lookup?_insert_of_ne (b : Bindings κ α) {name other : κ} (h : other ≠ name) (a : α) :
    (b.insert name a).lookup? other = b.lookup? other :=
  find?_put_of_ne h a b.entries

theorem contains_iff (b : Bindings κ α) (name : κ) :
    b.contains name = true ↔ name ∈ b.names :=
  isSome_find? name b.entries

/-- Binding a name anew leaves the names as they are. -/
theorem names_insert_of_contains {b : Bindings κ α} {name : κ} (h : b.contains name = true)
    (a : α) : (b.insert name a).names = b.names :=
  map_fst_put_of_mem a ((b.contains_iff name).mp h)

theorem mem_names_insert {b : Bindings κ α} {name n : κ} {a : α} :
    n ∈ (b.insert name a).names ↔ n = name ∨ n ∈ b.names := by
  rw [← contains_iff, ← contains_iff, contains, contains]
  by_cases h : n = name
  · simp [h]
  · simp [h, lookup?_insert_of_ne b h a]

theorem mem_names_foldl_insert {n : κ} (es : List (κ × α)) (b : Bindings κ α) :
    n ∈ (es.foldl (fun b entry => b.insert entry.1 entry.2) b).names ↔
      n ∈ b.names ∨ n ∈ es.map Prod.fst := by
  induction es generalizing b with
  | nil => simp
  | cons e es ih =>
    rw [List.foldl_cons, ih, mem_names_insert, List.map_cons, List.mem_cons, or_assoc,
      or_left_comm]

theorem mem_names_ofList {n : κ} (es : List (κ × α)) :
    n ∈ (ofList es).names ↔ n ∈ es.map Prod.fst := by
  rw [ofList, mem_names_foldl_insert]
  simp [empty, names]

theorem nodup_names_insert {b : Bindings κ α} (h : b.names.Nodup) (name : κ) (a : α) :
    (b.insert name a).names.Nodup := by
  obtain ⟨entries⟩ := b
  simp only [names, insert] at h ⊢
  induction entries with
  | nil => simp [put]
  | cons entry rest ih =>
    obtain ⟨n, b⟩ := entry
    rw [List.map_cons, List.nodup_cons] at h
    rw [put]
    split
    · exact List.nodup_cons.mpr h
    · rename_i hn
      have hmem : n ∉ (put name a rest).map Prod.fst := by
        intro hput
        obtain rfl | hrest := mem_names_insert (b := ⟨rest⟩).mp hput
        · exact hn rfl
        · exact h.1 hrest
      exact List.nodup_cons.mpr ⟨hmem, ih h.2⟩

theorem nodup_names_foldl_insert (es : List (κ × α)) {b : Bindings κ α} (h : b.names.Nodup) :
    (es.foldl (fun b entry => b.insert entry.1 entry.2) b).names.Nodup := by
  induction es generalizing b with
  | nil => exact h
  | cons e es ih => exact ih (nodup_names_insert h e.1 e.2)

theorem nodup_names_ofList (es : List (κ × α)) : (ofList es).names.Nodup :=
  nodup_names_foldl_insert es List.nodup_nil

/-! ## Names that are not bound yet -/

theorem find?_append (name : κ) (es fs : List (κ × α)) :
    find? name (es ++ fs) = (find? name es).or (find? name fs) := by
  induction es with
  | nil => rfl
  | cons e rest ih =>
    obtain ⟨n, a⟩ := e
    by_cases h : n = name
    · simp [find?, h]
    · simpa [find?, h] using ih

theorem put_append {name : κ} (a : α) {es : List (κ × α)} (h : name ∉ es.map Prod.fst)
    (fs : List (κ × α)) : put name a (es ++ fs) = es ++ put name a fs := by
  induction es with
  | nil => rfl
  | cons e rest ih =>
    obtain ⟨n, b⟩ := e
    simp only [List.map_cons, List.mem_cons, not_or] at h
    rw [List.cons_append, put, if_neg (Ne.symm h.1), ih h.2, List.cons_append]

theorem entries_foldl_insert {es gs : List (κ × α)}
    (h : ∀ name ∈ gs.map Prod.fst, name ∉ es.map Prod.fst) {b c : Bindings κ α}
    (hb : b.entries = es ++ c.entries) :
    (gs.foldl (fun b entry => b.insert entry.1 entry.2) b).entries =
      es ++ (gs.foldl (fun b entry => b.insert entry.1 entry.2) c).entries := by
  induction gs generalizing b c with
  | nil => exact hb
  | cons g gs ih =>
    rw [List.map_cons, List.forall_mem_cons] at h
    rw [List.foldl_cons, List.foldl_cons]
    refine ih h.2 ?_
    simp only [insert, hb, put_append _ h.1]

/-- Names that are bound behind others, and are not among them, stand behind them. -/
theorem entries_ofList_append {es fs : List (κ × α)}
    (h : ∀ name ∈ fs.map Prod.fst, name ∉ es.map Prod.fst) :
    (ofList (es ++ fs)).entries = (ofList es).entries ++ (ofList fs).entries := by
  have hnew : ∀ name ∈ fs.map Prod.fst, name ∉ (ofList es).entries.map Prod.fst :=
    fun name hname hmem => h name hname ((mem_names_ofList es).mp hmem)
  rw [ofList, List.foldl_append]
  exact entries_foldl_insert hnew (List.append_nil _).symm

/-- Of bindings that stand one behind the other, with no name in both, each holds. -/
theorem lookup?_eq_some_of_append {b c d : Bindings κ α} (h : d.entries = b.entries ++ c.entries)
    (hapart : ∀ name ∈ b.names, name ∉ c.names) (name : κ) (a : α) :
    d.lookup? name = some a ↔ b.lookup? name = some a ∨ c.lookup? name = some a := by
  rw [lookup?, h, find?_append, Option.or_eq_some_iff]
  refine or_congr_right (and_iff_right_of_imp fun hc => ?_)
  have hmem : name ∈ c.names := (isSome_find? name c.entries).mp (by rw [hc]; rfl)
  cases hb : find? name b.entries with
  | none => rfl
  | some _ => exact absurd hmem (hapart name ((isSome_find? name b.entries).mp (by rw [hb]; rfl)))

end Bindings

end TurtleGraphics
