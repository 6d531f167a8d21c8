import PredicateTransfer.Plan

/-!
# Which column a Bloom filter operator reads

A key's column is found in two steps. The planner prints the key (`name@index`) and takes the
name of the first field that *occurs in the printed text*; the operator then takes the first
field with *exactly that name*.

The two steps together find the first field whose name occurs in the printed key
(`readColumn_eq_findIdx?`). A column's own name always occurs in its printed form, so what is
read is never past the key's own index, and it is the key's own index exactly when no earlier
field's name occurs in the printed key (`readColumn_eq_own_iff`). Names contained in one
another, repeated names and the empty name all break this.
-/

namespace PredicateTransfer

variable {S : Sig}

/-! ## The two lookups -/

/-- `schema.fields().iter().find(|f| printed.contains(f.name())).map(|f| f.name().clone())`. -/
def lookupField (schema : Schema) (printed : String) : Option String :=
  (schema.find? fun f => strContains printed f.name).map (·.name)

/-- The `position` lookup at the start of both operators' `execute`. -/
def keyColumn (operator : String) (schema : Schema) (keyColumnName : String) :
    Except DataFusionError Nat :=
  match schema.findIdx? (·.name == keyColumnName) with
  | some k => .ok k
  | none => .error (.plan s!"{operator}: column '{keyColumnName}' not found")

/-- The column a Bloom filter operator inserted for the key `e` reads. -/
def readColumn (schema : Schema) (e : PhysicalExpr S) : Option Nat :=
  (lookupField schema e.fmt).bind fun name => schema.findIdx? (·.name == name)

theorem keyColumn_eq_ok {operator : String} {schema : Schema} {name : String} {k : Nat} :
    keyColumn operator schema name = .ok k ↔ schema.findIdx? (·.name == name) = some k := by
  unfold keyColumn
  cases schema.findIdx? (·.name == name) <;> simp

theorem keyColumn_of_mem (operator : String) {schema : Schema} {name : String}
    (h : ∃ f ∈ schema, f.name = name) :
    keyColumn operator schema name = .ok (schema.findIdx (·.name == name)) := by
  obtain ⟨f, hf, hname⟩ := h
  rw [keyColumn_eq_ok, List.findIdx?_eq_some_iff_findIdx_eq]
  exact ⟨List.findIdx_lt_length_of_exists ⟨f, hf, by simp [hname]⟩, rfl⟩

theorem exists_of_lookupField {schema : Schema} {printed name : String}
    (h : lookupField schema printed = some name) : ∃ f ∈ schema, f.name = name := by
  obtain ⟨f, hf, rfl⟩ := Option.map_eq_some_iff.1 h
  exact ⟨f, List.mem_of_find?_eq_some hf, rfl⟩

theorem lookupField_contains {schema : Schema} {printed name : String}
    (h : lookupField schema printed = some name) : strContains printed name = true := by
  obtain ⟨f, hf, rfl⟩ := Option.map_eq_some_iff.1 h
  simpa using List.find?_some hf

/-- **The composed lookup finds the first field whose name occurs in the printed key.** -/
theorem readColumn_eq_findIdx? (schema : Schema) (e : PhysicalExpr S) :
    readColumn schema e = schema.findIdx? fun f => strContains e.fmt f.name := by
  induction schema with
  | nil => rfl
  | cons f fs ih =>
    by_cases hf : strContains e.fmt f.name = true
    · rw [List.findIdx?_cons, if_pos hf, readColumn]
      simp [lookupField, hf, List.findIdx?_cons]
    · rw [List.findIdx?_cons, if_neg (by simpa using hf), ← ih, readColumn, readColumn]
      have hl : lookupField (f :: fs) e.fmt = lookupField fs e.fmt := by
        simp [lookupField, hf]
      rw [hl]
      cases hn : lookupField fs e.fmt with
      | none => rfl
      | some name =>
        -- The name found later occurs in the key and `f`'s does not, so `f` is not it.
        have hne : (f.name == name) = false := by
          refine beq_eq_false_iff_ne.2 fun heq => hf ?_
          rw [heq]
          exact lookupField_contains hn
        rw [Option.bind_some, Option.bind_some, List.findIdx?_cons, hne, if_neg (by simp)]

/-! ## When the key's own column is read -/

/-- The column has the key's name at the key's index. -/
def IsColumnOf (schema : Schema) (name : String) (index : Nat) : Prop :=
  (schema[index]?).map (·.name) = some name

instance (schema : Schema) (name : String) (index : Nat) :
    Decidable (IsColumnOf schema name index) :=
  inferInstanceAs (Decidable (_ = _))

/-- No field before the key's own index has a name that occurs in the printed key. -/
def NoEarlierMatch (schema : Schema) (name : String) (index : Nat) : Prop :=
  ∀ f ∈ schema.take index, strContains (name ++ "@" ++ toString index) f.name = false

instance (schema : Schema) (name : String) (index : Nat) :
    Decidable (NoEarlierMatch schema name index) :=
  inferInstanceAs (Decidable (∀ f ∈ _, _))

theorem readColumn_eq_own_iff {schema : Schema} {name : String} {index : Nat}
    (h : IsColumnOf schema name index) :
    readColumn schema (.column (S := S) name index) = some index ↔
      NoEarlierMatch schema name index := by
  obtain ⟨f, hf, hname⟩ := Option.map_eq_some_iff.1 h
  obtain ⟨hlt, hget⟩ := List.getElem?_eq_some_iff.1 hf
  rw [readColumn_eq_findIdx?, List.findIdx?_eq_some_iff_getElem]
  constructor
  · rintro ⟨_, -, hbefore⟩ g hg
    obtain ⟨i, hi, rfl⟩ := List.mem_iff_getElem.1 hg
    rw [List.length_take] at hi
    rw [List.getElem_take]
    simpa [PhysicalExpr.fmt] using hbefore i (by omega)
  · intro hno
    refine ⟨hlt, ?_, fun i hi => ?_⟩
    · rw [hget, hname]
      exact strContains_fmt_column name index
    · have hmem : schema[i] ∈ schema.take index :=
        List.mem_iff_getElem.2 ⟨i, by rw [List.length_take]; omega, List.getElem_take⟩
      simpa [PhysicalExpr.fmt] using hno _ hmem

/-- A column of the schema is always resolved, to itself or to an earlier field. -/
theorem lookupField_isSome {schema : Schema} {name : String} {index : Nat}
    (h : IsColumnOf schema name index) :
    (lookupField schema (PhysicalExpr.column (S := S) name index).fmt).isSome := by
  obtain ⟨f, hf, rfl⟩ := Option.map_eq_some_iff.1 h
  rw [lookupField, Option.isSome_map, List.find?_isSome]
  exact ⟨f, List.mem_of_getElem? hf, strContains_fmt_column f.name index⟩

/-- The key expression is a column, and the lookup reads its own index. -/
def ReadsOwn (schema : Schema) (e : PhysicalExpr S) : Prop :=
  ∃ name index, e = .column name index ∧ readColumn schema e = some index

/-- Both keys of every `on` entry are columns of their side's schema. -/
def HashJoinExec.KeysAreColumns (j : HashJoinExec S) (left right : Schema) : Prop :=
  ∀ key ∈ j.on, ∃ ln li rn ri, key = (.column ln li, .column rn ri) ∧
    IsColumnOf left ln li ∧ IsColumnOf right rn ri

/-- Every key of the join is read from its own column on both sides. -/
def HashJoinExec.KeysReadOwn (j : HashJoinExec S) (left right : Schema) : Prop :=
  ∀ key ∈ j.on, ReadsOwn left key.1 ∧ ReadsOwn right key.2

/-- On both sides of every key, no earlier field's name occurs in the printed key. -/
def HashJoinExec.NoEarlierMatches (j : HashJoinExec S) (left right : Schema) : Prop :=
  ∀ ln li rn ri, (.column ln li, .column rn ri) ∈ j.on →
    NoEarlierMatch left ln li ∧ NoEarlierMatch right rn ri

theorem readsOwn_column {schema : Schema} {name : String} {index : Nat} :
    ReadsOwn schema (.column (S := S) name index) ↔
      readColumn schema (.column (S := S) name index) = some index := by
  constructor
  · rintro ⟨n, i, he, hr⟩
    cases he
    exact hr
  · exact fun h => ⟨name, index, rfl, h⟩

/-- For a join on columns of its children, every key is read from its own column exactly when, on
both sides of every key, no earlier field has a name that occurs in the printed key. -/
theorem keysReadOwn_iff {j : HashJoinExec S} {left right : Schema}
    (hcols : j.KeysAreColumns left right) :
    j.KeysReadOwn left right ↔ j.NoEarlierMatches left right := by
  constructor
  · intro h ln li rn ri hmem
    obtain ⟨ln', li', rn', ri', heq, hl, hr⟩ := hcols _ hmem
    cases heq
    obtain ⟨hL, hR⟩ := h _ hmem
    exact ⟨(readColumn_eq_own_iff hl).1 (readsOwn_column.1 hL),
      (readColumn_eq_own_iff hr).1 (readsOwn_column.1 hR)⟩
  · intro h key hmem
    obtain ⟨ln, li, rn, ri, rfl, hl, hr⟩ := hcols key hmem
    obtain ⟨hL, hR⟩ := h ln li rn ri hmem
    exact ⟨readsOwn_column.2 ((readColumn_eq_own_iff hl).2 hL),
      readsOwn_column.2 ((readColumn_eq_own_iff hr).2 hR)⟩

end PredicateTransfer
