import PredicateTransfer.Pruning.Expr
import PredicateTransfer.Lib.Fallible

/-!
# Literal guarantees

`LiteralGuarantee::analyze` (`guarantee.rs`) reads off a filter what every row that passes it must
satisfy: a column is one of a set of literals, or none of a set. It folds over the conjuncts of
the filter. A conjunct may be a comparison of a column with a literal, an `IN` list, or a
disjunction in which every branch fixes the same column.

The invariant of the fold is that the entries collected so far hold on the row (`Entry.Holds`). One
step keeps it because a conjunct that is true says what the new literals say (`Fact`), and
combining two facts about a column is sound (`combine_holds`); the rest is where the literals of a
disjunction come from.
-/

namespace PredicateTransfer.Pruning

variable {D F : Type}

/-- `split_impl`: the operands of a tree of one operator. -/
def split (op : Operator) : Expr D F → List (Expr D F)
  | .binary l o r => if o = op then split op l ++ split op r else [.binary l o r]
  | e => [e]

def splitConjunction : Expr D F → List (Expr D F) := split .and

def splitDisjunction : Expr D F → List (Expr D F) := split .or

inductive Guarantee
  | isIn
  | notIn
  deriving DecidableEq, Repr

structure LiteralGuarantee (D : Type) where
  column : String
  guarantee : Guarantee
  literals : List (Scalar D)
  deriving DecidableEq

/-- A term of the filter that compares a column with literals: `ColOpLit` when there is one of
them, `ColInList` otherwise. -/
structure ColLits (D : Type) where
  col : Column
  guarantee : Guarantee
  lits : List (Scalar D)

/-- `ColOpLit::try_new`. -/
def colOpLit : Expr D F → Option (ColLits D)
  | .binary (.column c) .eq (.literal v) | .binary (.literal v) .eq (.column c) =>
    some ⟨c, .isIn, [v]⟩
  | .binary (.column c) .notEq (.literal v) | .binary (.literal v) .notEq (.column c) =>
    some ⟨c, .notIn, [v]⟩
  | _ => none

def asLiteral : Expr D F → Option (Scalar D)
  | .literal v => some v
  | _ => none

/-- `ColInList::try_new`. -/
def colInList : Expr D F → List (Expr D F) → Bool → Option (ColLits D)
  | .column c, list, negated => (list.mapM asLiteral).map fun lits =>
      ⟨c, if negated then .notIn else .isIn, lits⟩
  | _, _, _ => none

/-- `ColOpLitOrInList::try_new`. -/
def colOpLitOrInList : Expr D F → Option (ColLits D)
  | .inList e list negated => colInList e list negated
  | e => colOpLit e

section Builder

variable [DecidableEq D]

/-- What the builder knows about one column and kind of guarantee. The literals are gone once the
guarantee has been invalidated. -/
structure Entry (D : Type) where
  column : Column
  guarantee : Guarantee
  literals : Option (List (Scalar D))

/-- A further term on a known column: literals to avoid add up, literals to choose from are
intersected, and an empty intersection invalidates the guarantee. -/
def Entry.combine (entry : Entry D) (newValues : List (Scalar D)) : Entry D :=
  match entry.literals with
  | none => entry
  | some literals =>
    match entry.guarantee with
    | .notIn => { entry with literals := some (literals ++ newValues).dedup }
    | .isIn =>
      let intersection := newValues.filter (· ∈ literals)
      if intersection.isEmpty then { entry with literals := none }
      else { entry with literals := some intersection.dedup }

/-- The entries in the order they were made; at most one for a column and kind. -/
abbrev GuaranteeBuilder (D : Type) := List (Entry D)

def GuaranteeBuilder.aggregateMultiConjunct (builder : GuaranteeBuilder D) (col : Column)
    (guarantee : Guarantee) (newValues : List (Scalar D)) : GuaranteeBuilder D :=
  match builder with
  | [] => [⟨col, guarantee, some newValues.dedup⟩]
  | entry :: rest =>
    if entry.column = col ∧ entry.guarantee = guarantee then entry.combine newValues :: rest
    else entry :: aggregateMultiConjunct rest col guarantee newValues

def GuaranteeBuilder.aggregateConjunct (builder : GuaranteeBuilder D) (term : ColLits D) :
    GuaranteeBuilder D :=
  builder.aggregateMultiConjunct term.col term.guarantee term.lits

def GuaranteeBuilder.build (builder : GuaranteeBuilder D) : List (LiteralGuarantee D) :=
  builder.filterMap fun entry =>
    entry.literals.map fun literals => ⟨entry.column.name, entry.guarantee, literals⟩

/-- The columns of every termset. Nothing is common as soon as a termset names a column twice. -/
def intersectColumns (common : List Column) : List (List (ColLits D)) → List Column
  | [] => common
  | terms :: rest =>
    let cols := (terms.map (·.col)).dedup
    if cols.length ≠ terms.length then []
    else intersectColumns (common.filter (· ∈ cols)) rest

def findCommonColumns : List (List (ColLits D)) → List Column
  | [] => []
  | terms :: rest =>
    let cols := (terms.map (·.col)).dedup
    if cols.length ≠ terms.length then [] else intersectColumns cols rest

/-- The terms of a branch of a disjunction that fix a column. -/
def termset (e : Expr D F) : List (ColLits D) :=
  ((splitConjunction e).filterMap colOpLitOrInList).filter (·.guarantee = .isIn)

/-- The literals a column may take in the branches of a disjunction. -/
def commonLiterals (termsets : List (List (ColLits D))) (col : Column) : List (Scalar D) :=
  (termsets.filterMap fun terms => (terms.find? (·.col = col)).map (·.lits)).flatten

/-- All terms say that the column of the first is one of their literals. -/
def sameColumn : List (ColLits D) → Bool
  | [] => false
  | first :: rest => (first :: rest).all fun term =>
      term.col.name == first.col.name && term.guarantee == .isIn

/-- A conjunct that is neither a comparison with a literal nor an `IN` list, as a disjunction.
`hashOrder` is the order in which a hash set of columns is iterated. -/
def analyzeDisjunction (hashOrder : List Column → List Column) (builder : GuaranteeBuilder D)
    (e : Expr D F) : GuaranteeBuilder D :=
  let disjunctions := splitDisjunction e
  let terms := disjunctions.filterMap colOpLit
  if sameColumn terms && terms.length == disjunctions.length then
    match terms with
    | first :: _ => builder.aggregateMultiConjunct first.col .isIn (terms.flatMap (·.lits))
    | [] => builder
  else
    let termsets := disjunctions.map termset
    if termsets.any (·.isEmpty) then builder
    else
      (hashOrder (findCommonColumns termsets)).foldl
        (fun builder col =>
          builder.aggregateMultiConjunct col .isIn (commonLiterals termsets col)) builder

def analyzeConjunct (hashOrder : List Column → List Column) (builder : GuaranteeBuilder D)
    (e : Expr D F) : GuaranteeBuilder D :=
  match colOpLit e with
  | some term => builder.aggregateConjunct term
  | none =>
    match e with
    | .inList arg list negated =>
      match colInList arg list negated with
      | some term => builder.aggregateConjunct term
      | none => builder
    | e => analyzeDisjunction hashOrder builder e

/-- `LiteralGuarantee::analyze`. -/
def analyze (hashOrder : List Column → List Column) (e : Expr D F) : List (LiteralGuarantee D) :=
  ((splitConjunction e).foldl (analyzeConjunct hashOrder) []).build

end Builder

/-! ### Conjuncts and branches -/

theorem columns_split {op : Operator} {e d : Expr D F} (hd : d ∈ split op e) :
    ∀ c ∈ d.columns, c ∈ e.columns := by
  induction e with
  | binary l o r ihl ihr =>
    by_cases ho : o = op
    · rw [split, if_pos ho] at hd
      intro c hc
      rcases List.mem_append.mp hd with hd | hd
      · exact List.mem_append_left _ (ihl hd c hc)
      · exact List.mem_append_right _ (ihr hd c hc)
    · rw [split, if_neg ho] at hd
      rw [List.mem_singleton.mp hd]
      exact fun c hc => hc
  | _ =>
    rw [List.mem_singleton.mp hd]
    exact fun c hc => hc

/-- Names find the values that the indices of the expression's columns find. -/
def Named (value : String → Option (Scalar D)) (row : List (Scalar D)) (e : Expr D F) : Prop :=
  ∀ c ∈ e.columns, value c.name = row[c.index]?

theorem Named.of_split {value : String → Option (Scalar D)} {row : List (Scalar D)}
    {op : Operator} {e d : Expr D F} (h : Named value row e)
    (hd : d ∈ split op e) : Named value row d :=
  fun c hc => h c (columns_split hd c hc)

theorem colOpLit_col_mem {e : Expr D F} {term : ColLits D} (hterm : colOpLit e = some term) :
    term.col ∈ e.columns := by
  unfold colOpLit at hterm
  split at hterm <;> cases hterm <;> simp [Expr.columns]

theorem mem_intersectColumns {termsets : List (List (ColLits D))} {common : List Column}
    {c : Column} (h : c ∈ intersectColumns common termsets) :
    c ∈ common ∧ ∀ terms ∈ termsets, c ∈ terms.map (·.col) := by
  induction termsets generalizing common with
  | nil => exact ⟨h, by simp⟩
  | cons terms rest ih =>
    simp only [intersectColumns] at h
    split at h
    · cases h
    · obtain ⟨hmem, hrest⟩ := ih h
      obtain ⟨hc, hcols⟩ := List.mem_filter.mp hmem
      refine ⟨hc, List.forall_mem_cons.mpr ⟨?_, hrest⟩⟩
      exact List.mem_dedup.mp (of_decide_eq_true hcols)

theorem mem_findCommonColumns {termsets : List (List (ColLits D))} {c : Column}
    (h : c ∈ findCommonColumns termsets) : ∀ terms ∈ termsets, c ∈ terms.map (·.col) := by
  cases termsets with
  | nil => cases h
  | cons terms rest =>
    simp only [findCommonColumns] at h
    split at h
    · cases h
    · obtain ⟨hc, hrest⟩ := mem_intersectColumns h
      exact List.forall_mem_cons.mpr ⟨List.mem_dedup.mp hc, hrest⟩

section Soundness

variable [LinearOrder D] {K : Kernels D F} {row : List (Scalar D)}

theorem eval_splitConjunction {e : Expr D F} (h : e.eval K row = some (.boolean true)) :
    ∀ c ∈ splitConjunction e, c.eval K row = some (.boolean true) := by
  unfold splitConjunction
  induction e with
  | binary l op r ihl ihr =>
    intro c hc
    by_cases hop : op = .and
    · rw [Expr.eval, if_pos hop] at h
      obtain ⟨hl, hr⟩ := andValues_eq_true.mp h
      rw [split, if_pos hop] at hc
      rcases List.mem_append.mp hc with hc | hc
      · exact ihl hl c hc
      · exact ihr hr c hc
    · rw [split, if_neg hop] at hc
      rwa [List.mem_singleton.mp hc]
  | _ =>
    intro c hc
    rwa [List.mem_singleton.mp hc]

theorem eval_splitDisjunction {e : Expr D F} (h : e.eval K row = some (.boolean true)) :
    ∃ d ∈ splitDisjunction e, d.eval K row = some (.boolean true) := by
  unfold splitDisjunction
  induction e with
  | binary l op r ihl ihr =>
    by_cases hop : op = .or
    · have hor : orValues (l.eval K row) (r.eval K row) = some (.boolean true) := by
        rwa [Expr.eval, if_neg (by rw [hop]; decide), if_pos hop] at h
      rw [split, if_pos hop]
      rcases orValues_eq_true hor with h | h
      · obtain ⟨d, hd, ht⟩ := ihl h
        exact ⟨d, List.mem_append_left _ hd, ht⟩
      · obtain ⟨d, hd, ht⟩ := ihr h
        exact ⟨d, List.mem_append_right _ hd, ht⟩
    · rw [split, if_neg hop]
      exact ⟨_, List.mem_singleton_self _, h⟩
  | _ => exact ⟨_, List.mem_singleton_self _, h⟩

/-! ### What a term says of a row -/

/-- The column's value is one of the literals, or none of them. A row that avoids a non-empty set of
literals has a value there. `value` gives the values of a row by name. -/
def Fact (value : String → Option (Scalar D)) (col : Column) (guarantee : Guarantee)
    (literals : List (Scalar D)) : Prop :=
  ∃ v, value col.name = some v ∧
    match guarantee with
    | .isIn => v ∈ literals
    | .notIn => v ∉ literals ∧ (literals ≠ [] → v ≠ .null)

def ColLits.Holds (value : String → Option (Scalar D)) (term : ColLits D) : Prop :=
  Fact value term.col term.guarantee term.lits

variable {value : String → Option (Scalar D)}

theorem fact_of_eq {c : Column} {v lit : Scalar D} (hv : value c.name = some v)
    (h : Operator.eq.Rel v lit) : Fact value c .isIn [lit] :=
  ⟨v, hv, List.mem_singleton.mpr h.1⟩

theorem fact_of_notEq {c : Column} {v lit : Scalar D} (hv : value c.name = some v)
    (h : Operator.notEq.Rel v lit) : Fact value c .notIn [lit] := by
  refine ⟨v, hv, fun hmem => ?_, fun _ => (Operator.rel_ne_null h).1⟩
  rw [List.mem_singleton.mp hmem] at h
  rcases h with h | h
  · exact lt_irrefl _ h
  · exact lt_irrefl _ h

theorem colOpLit_holds {e : Expr D F} {term : ColLits D} (hterm : colOpLit e = some term)
    (hvalue : Named value row e) (h : e.eval K row = some (.boolean true)) : term.Holds value := by
  have hcol := hvalue _ (colOpLit_col_mem hterm)
  unfold colOpLit at hterm
  split at hterm
  · cases hterm
    obtain ⟨a, b, ha, hb, hab⟩ := eval_comparison_eq_boolean rfl h
    cases hb
    exact fact_of_eq (hcol.trans ha) (compareValues_eq_true.mp hab)
  · cases hterm
    obtain ⟨a, b, ha, hb, hab⟩ := eval_comparison_eq_boolean rfl h
    cases ha
    have hrel := (Operator.rel_swap rfl).mp (compareValues_eq_true.mp hab)
    exact fact_of_eq (hcol.trans hb) hrel
  · cases hterm
    obtain ⟨a, b, ha, hb, hab⟩ := eval_comparison_eq_boolean rfl h
    cases hb
    exact fact_of_notEq (hcol.trans ha) (compareValues_eq_true.mp hab)
  · cases hterm
    obtain ⟨a, b, ha, hb, hab⟩ := eval_comparison_eq_boolean rfl h
    cases ha
    have hrel := (Operator.rel_swap rfl).mp (compareValues_eq_true.mp hab)
    exact fact_of_notEq (hcol.trans hb) hrel
  · cases hterm

theorem evalAll_of_mapM_asLiteral {list : List (Expr D F)} {lits : List (Scalar D)}
    (h : list.mapM asLiteral = some lits) : Expr.evalAll K row list = lits.map some := by
  have hall := Fallible.mapM_eq_some_iff.mp h
  clear h
  induction hall with
  | nil => rfl
  | @cons e v _ _ hv _ ih =>
    cases e <;> cases hv
    rw [Expr.evalAll, ih]
    rfl

theorem colInList_holds {e : Expr D F} {list : List (Expr D F)} {negated : Bool}
    {term : ColLits D} (hterm : colInList e list negated = some term)
    (hvalue : Named value row (.inList e list negated))
    (h : (Expr.inList e list negated).eval K row = some (.boolean true)) : term.Holds value := by
  cases e <;> try cases hterm
  next c =>
  obtain ⟨lits, hlits, hterm⟩ := Option.map_eq_some_iff.mp hterm
  subst hterm
  rw [Expr.eval, evalAll_of_mapM_asLiteral hlits] at h
  obtain ⟨v, hv, h⟩ := Option.bind_eq_some_iff.mp h
  replace hv := (hvalue c (List.mem_append_left _ List.mem_cons_self)).trans hv
  cases negated with
  | false =>
    obtain ⟨item, hitem, heq⟩ := inListValue_eq_true h
    obtain ⟨lit, hlit, rfl⟩ := List.mem_map.mp hitem
    have hrel := compareValues_eq_true.mp heq
    exact ⟨v, hv, hrel.1 ▸ hlit⟩
  | true =>
    obtain ⟨found, hfound, hnot⟩ := Option.bind_eq_some_iff.mp h
    rw [Scalar.not_eq_boolean.mp hnot] at hfound
    have hne : ∀ lit ∈ lits, Operator.notEq.Rel v lit := fun lit hlit =>
      compareValues_eq_false.mp
        (inListValue_eq_false hfound (some lit) (List.mem_map_of_mem hlit))
    refine ⟨v, hv, fun hmem => ?_, fun hnil => ?_⟩
    · rcases hne v hmem with h | h <;> exact lt_irrefl _ h
    · obtain ⟨lit, rest, rfl⟩ := List.exists_cons_of_ne_nil hnil
      exact (Operator.rel_ne_null (hne lit List.mem_cons_self)).1

theorem colOpLitOrInList_holds {e : Expr D F} {term : ColLits D}
    (hterm : colOpLitOrInList e = some term) (hvalue : Named value row e)
    (h : e.eval K row = some (.boolean true)) : term.Holds value := by
  unfold colOpLitOrInList at hterm
  split at hterm
  · exact colInList_holds hterm hvalue h
  · exact colOpLit_holds hterm hvalue h

/-! ### The builder keeps the facts -/

def Entry.Holds (value : String → Option (Scalar D)) (entry : Entry D) : Prop :=
  ∀ literals, entry.literals = some literals → Fact value entry.column entry.guarantee literals

theorem combine_holds {entry : Entry D} {newValues : List (Scalar D)} (hentry : entry.Holds value)
    (hnew : Fact value entry.column entry.guarantee newValues) :
    (entry.combine newValues).Holds value := by
  obtain ⟨column, guarantee, literals⟩ := entry
  cases literals with
  | none => exact hentry
  | some literals =>
    obtain ⟨v, hv, hold⟩ := hentry literals rfl
    obtain ⟨v', hv', hnew⟩ := hnew
    obtain rfl : v = v' := Option.some.inj (hv.symm.trans hv')
    cases guarantee with
    | notIn =>
      intro lits hlits
      cases hlits
      refine ⟨v, hv, ?_, fun hne => ?_⟩
      · rw [List.mem_dedup, List.mem_append]
        intro hmem
        rcases hmem with hmem | hmem
        · exact hold.1 hmem
        · exact hnew.1 hmem
      · by_cases hl : literals = []
        · apply hnew.2
          intro hn
          simp [hl, hn] at hne
        · exact hold.2 hl
    | isIn =>
      have hmem : v ∈ newValues.filter (· ∈ literals) :=
        List.mem_filter.mpr ⟨hnew, decide_eq_true hold⟩
      -- the value is in both sets, so the intersection is not empty
      have hne : (newValues.filter (· ∈ literals)).isEmpty = false :=
        List.isEmpty_eq_false_iff_exists_mem.mpr ⟨v, hmem⟩
      have hcombine : (Entry.mk column .isIn (some literals)).combine newValues =
          ⟨column, .isIn, some (newValues.filter (· ∈ literals)).dedup⟩ :=
        if_neg (by rw [hne]; decide)
      rw [hcombine]
      intro lits hlits
      cases hlits
      exact ⟨v, hv, List.mem_dedup.mpr hmem⟩

/-- Adding a fact keeps the entries true. -/
theorem aggregate_holds {builder : GuaranteeBuilder D} {col : Column} {guarantee : Guarantee}
    {newValues : List (Scalar D)} (hbuilder : ∀ entry ∈ builder, entry.Holds value)
    (hnew : Fact value col guarantee newValues) :
    ∀ entry ∈ builder.aggregateMultiConjunct col guarantee newValues, entry.Holds value := by
  induction builder with
  | nil =>
    intro entry hentry
    rw [List.mem_singleton.mp hentry]
    intro literals hliterals
    cases hliterals
    obtain ⟨v, hv, hfact⟩ := hnew
    refine ⟨v, hv, ?_⟩
    cases guarantee with
    | isIn => exact List.mem_dedup.mpr hfact
    | notIn =>
      refine ⟨fun hmem => hfact.1 (List.mem_dedup.mp hmem), fun hne => hfact.2 fun hnil => hne ?_⟩
      rw [hnil]
      rfl
  | cons head rest ih =>
    rw [List.forall_mem_cons] at hbuilder
    rw [GuaranteeBuilder.aggregateMultiConjunct]
    split
    · next hkey =>
      rw [List.forall_mem_cons]
      refine ⟨combine_holds hbuilder.1 ?_, hbuilder.2⟩
      rw [hkey.1, hkey.2]
      exact hnew
    · rw [List.forall_mem_cons]
      exact ⟨hbuilder.1, ih hbuilder.2⟩

/-! ### Disjunctions -/

/-- A column that every branch fixes is one of the branches' literals, whichever branch is true. -/
theorem fact_of_termsets {disjunctions : List (Expr D F)} {d : Expr D F} {c : Column}
    (hd : d ∈ disjunctions) (hvalue : Named value row d)
    (h : d.eval K row = some (.boolean true)) (hc : c ∈ (termset d).map (·.col)) :
    Fact value c .isIn (commonLiterals (disjunctions.map termset) c) := by
  obtain ⟨term, hterm, hcol⟩ := List.mem_map.mp hc
  have hsome : ((termset d).find? (·.col = c)).isSome := by
    rw [List.find?_isSome]
    exact ⟨term, hterm, decide_eq_true hcol⟩
  obtain ⟨first, hfirst⟩ := Option.isSome_iff_exists.mp hsome
  have hfirstCol : first.col = c := by simpa using List.find?_some hfirst
  obtain ⟨hconj, hguarantee⟩ := List.mem_filter.mp (List.mem_of_find?_eq_some hfirst)
  obtain ⟨conj, hmem, hconj⟩ := List.mem_filterMap.mp hconj
  have hholds := colOpLitOrInList_holds hconj (hvalue.of_split hmem)
    (eval_splitConjunction h conj hmem)
  unfold ColLits.Holds at hholds
  rw [of_decide_eq_true hguarantee, hfirstCol] at hholds
  obtain ⟨v, hv, hlits⟩ := hholds
  refine ⟨v, hv, List.mem_flatten.mpr ⟨first.lits, ?_, hlits⟩⟩
  refine List.mem_filterMap.mpr ⟨termset d, List.mem_map_of_mem hd, ?_⟩
  rw [hfirst]
  rfl

/-- If every branch compares one column with a literal by `=`, the column is one of the
literals. -/
theorem fact_of_sameColumn {disjunctions : List (Expr D F)} {d : Expr D F} {first : ColLits D}
    {rest : List (ColLits D)} (hterms : disjunctions.filterMap colOpLit = first :: rest)
    (hsame : sameColumn (first :: rest) = true)
    (hlen : (first :: rest).length = disjunctions.length) (hd : d ∈ disjunctions)
    (hvalue : Named value row d) (h : d.eval K row = some (.boolean true)) :
    Fact value first.col .isIn ((first :: rest).flatMap (·.lits)) := by
  rw [← hterms] at hlen
  have hall := List.filterMap_length_eq_length.mp hlen
  obtain ⟨term, hterm⟩ := Option.isSome_iff_exists.mp (hall d hd)
  have hmem : term ∈ first :: rest := by
    rw [← hterms]
    exact List.mem_filterMap.mpr ⟨d, hd, hterm⟩
  have hfirst := List.all_eq_true.mp hsame term hmem
  rw [Bool.and_eq_true, beq_iff_eq, beq_iff_eq] at hfirst
  obtain ⟨v, hv, hlits⟩ := colOpLit_holds hterm hvalue h
  rw [hfirst.2] at hlits
  exact ⟨v, hfirst.1 ▸ hv, List.mem_flatMap.mpr ⟨term, hmem, hlits⟩⟩

theorem foldl_aggregate_holds {f : Column → List (Scalar D)} {cols : List Column}
    (hfact : ∀ c ∈ cols, Fact value c .isIn (f c)) {builder : GuaranteeBuilder D}
    (hbuilder : ∀ entry ∈ builder, entry.Holds value) :
    ∀ entry ∈ cols.foldl (fun builder col => builder.aggregateMultiConjunct col .isIn (f col))
      builder, entry.Holds value := by
  induction cols generalizing builder with
  | nil => exact hbuilder
  | cons c cols ih =>
    rw [List.forall_mem_cons] at hfact
    exact ih hfact.2 (aggregate_holds hbuilder hfact.1)

theorem analyzeDisjunction_holds {hashOrder : List Column → List Column}
    (hperm : ∀ cols, (hashOrder cols).Perm cols) {builder : GuaranteeBuilder D} {e : Expr D F}
    (hvalue : Named value row e) (h : e.eval K row = some (.boolean true))
    (hbuilder : ∀ entry ∈ builder, entry.Holds value) :
    ∀ entry ∈ analyzeDisjunction hashOrder builder e, entry.Holds value := by
  obtain ⟨d, hd, htrue⟩ := eval_splitDisjunction h
  unfold analyzeDisjunction
  simp only
  split
  · next hcond =>
    rw [Bool.and_eq_true, beq_iff_eq] at hcond
    split
    · next first rest hterms =>
      rw [hterms] at hcond ⊢
      exact aggregate_holds hbuilder
        (fact_of_sameColumn hterms hcond.1 hcond.2 hd (hvalue.of_split hd) htrue)
    · exact hbuilder
  · split
    · exact hbuilder
    · refine foldl_aggregate_holds (fun c hc => ?_) hbuilder
      refine fact_of_termsets hd (hvalue.of_split hd) htrue ?_
      exact mem_findCommonColumns ((hperm _).mem_iff.mp hc) _ (List.mem_map_of_mem hd)

/-- One conjunct that is true on the row keeps the entries true. -/
theorem analyzeConjunct_holds {hashOrder : List Column → List Column}
    (hperm : ∀ cols, (hashOrder cols).Perm cols) {builder : GuaranteeBuilder D} {e : Expr D F}
    (hvalue : Named value row e) (h : e.eval K row = some (.boolean true))
    (hbuilder : ∀ entry ∈ builder, entry.Holds value) :
    ∀ entry ∈ analyzeConjunct hashOrder builder e, entry.Holds value := by
  unfold analyzeConjunct
  split
  · next term hterm => exact aggregate_holds hbuilder (colOpLit_holds hterm hvalue h)
  · split
    · split
      · next term hterm => exact aggregate_holds hbuilder (colInList_holds hterm hvalue h)
      · exact hbuilder
    · exact analyzeDisjunction_holds hperm hvalue h hbuilder

/-- Every row on which the filter is true satisfies the entries collected from it. -/
theorem analyze_entries_hold {hashOrder : List Column → List Column}
    (hperm : ∀ cols, (hashOrder cols).Perm cols) {e : Expr D F} (hvalue : Named value row e)
    (h : e.eval K row = some (.boolean true)) :
    ∀ entry ∈ (splitConjunction e).foldl (analyzeConjunct hashOrder) [], entry.Holds value := by
  have key : ∀ (conjuncts : List (Expr D F)) (builder : GuaranteeBuilder D),
      (∀ c ∈ conjuncts, c ∈ splitConjunction e) → (∀ entry ∈ builder, entry.Holds value) →
      ∀ entry ∈ conjuncts.foldl (analyzeConjunct hashOrder) builder, entry.Holds value := by
    intro conjuncts
    induction conjuncts with
    | nil => exact fun builder _ hbuilder => hbuilder
    | cons conj rest ih =>
      intro builder hconj hbuilder
      rw [List.forall_mem_cons] at hconj
      have htrue := eval_splitConjunction h conj hconj.1
      exact ih _ hconj.2
        (analyzeConjunct_holds hperm (hvalue.of_split hconj.1) htrue hbuilder)
  exact key _ [] (fun c hc => hc) (by simp)

end Soundness

end PredicateTransfer.Pruning
