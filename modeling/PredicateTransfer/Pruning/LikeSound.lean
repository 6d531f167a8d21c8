import PredicateTransfer.Pruning.LikePatterns
import PredicateTransfer.Pruning.StatisticsSound

/-!
# Pruning with LIKE

`build_like_match` turns `col LIKE pattern` into a range: everything that matches begins with the
text before the first wildcard, so it lies between that text and its increment.
`build_not_like_match` keeps a container unless both bounds match a pattern `text%`, since then all
values between them begin with the text.

Both arguments are about what a pattern matches, but the code finds the text by looking at the
characters of the pattern: the first function takes a backslash for part of the text, the second
takes every wildcard after a backslash for a literal character.

**Theorem (`like_pruning_sound_iff`).** Pruning with LIKE is sound exactly for the patterns without
a backslash before the first wildcard (or, if there is no wildcard, before the last character).
Pruning with NOT LIKE is sound exactly for the patterns it does not handle and those that have at
most one more wildcard, directly before the final `%`. The increment of a string is above all
strings that begin with it.
-/

namespace PredicateTransfer.Pruning

/-! ### The increment of a string -/

theorem nextChar_lt {c c' : Char} (h : nextChar c = some c') : c < c' := by
  obtain ⟨⟨hvalid, _⟩, h⟩ := Option.ite_none_right_eq_some.mp h
  cases h
  have hnext : (Char.ofNat (c.toNat + 1)).toNat = c.toNat + 1 := by
    unfold Char.ofNat
    rw [dif_pos hvalid]
    rfl
  show c.toNat < (Char.ofNat (c.toNat + 1)).toNat
  omega

/-- The characters that cannot be incremented lie far behind the ASCII ones. -/
theorem bracket_lt_of_nextChar_eq_none {c : Char} (h : nextChar c = none) : ']' < c := by
  by_contra hle
  have hle : c.toNat ≤ 93 := not_lt.mp hle
  have hvalid : (c.toNat + 1).isValidChar := Or.inl (by omega)
  have hunicode : isValidUnicode (c.toNat + 1) = true := by
    simp [isValidUnicode]
    omega
  simp [nextChar, hvalid, hunicode] at h

theorem incrementUtf8_append {s u : List Char} (h : incrementUtf8 s = some u) (b : List Char) :
    incrementUtf8 (b ++ s) = some (b ++ u) := by
  induction b with
  | nil => exact h
  | cons c b ih =>
    rw [List.cons_append, incrementUtf8, ih]
    rfl

theorem nextChar_eq_none_of_mem {r : List Char} (h : incrementUtf8 r = none) {d : Char}
    (hd : d ∈ r) : nextChar d = none := by
  induction r with
  | nil => cases hd
  | cons c r ih =>
    rw [incrementUtf8] at h
    split at h
    · cases h
    · next hr =>
      rcases List.mem_cons.mp hd with rfl | hd
      · exact Option.map_eq_none_iff.mp h
      · exact ih hr hd

/-- The increment of a string is above every string that begins with it. -/
theorem lt_of_incrementUtf8 {p q s : List Char} (h : incrementUtf8 p = some q) (hs : p <+: s) :
    s < q := by
  induction p generalizing q s with
  | nil => cases h
  | cons c p ih =>
    obtain ⟨rest, rfl⟩ := hs
    rw [incrementUtf8] at h
    split at h
    · next p' hp' =>
      cases h
      exact List.cons_lt_cons_iff.mpr (Or.inr ⟨rfl, ih hp' (List.prefix_append p rest)⟩)
    · obtain ⟨c', hc', rfl⟩ := Option.map_eq_some_iff.mp h
      exact List.cons_lt_cons_iff.mpr (Or.inl (nextChar_lt hc'))

/-- The increment of a text with a backslash is below what has a large character in the place of
the backslash. -/
theorem incrementUtf8_backslash_lt (b r : List Char) {d : Char} (hd : '\\' < d)
    (h : d ∈ r ∨ ']' < d) (tail : List Char) :
    ∃ u, incrementUtf8 (b ++ '\\' :: r) = some u ∧ u < b ++ d :: tail := by
  cases hr : incrementUtf8 r with
  | some r' =>
    have hstep : incrementUtf8 ('\\' :: r) = some ('\\' :: r') := by rw [incrementUtf8, hr]
    exact ⟨_, incrementUtf8_append hstep b, LexOrder.append_cons_lt b hd _ _⟩
  | none =>
    have hstep : incrementUtf8 ('\\' :: r) = some [']'] := by
      rw [incrementUtf8, hr]
      decide
    refine ⟨_, incrementUtf8_append hstep b, LexOrder.append_cons_lt b ?_ _ _⟩
    rcases h with hmem | hlt
    · exact bracket_lt_of_nextChar_eq_none (nextChar_eq_none_of_mem hr hmem)
    · exact hlt

/-! ### The range of a LIKE pattern -/

/-- No backslash stands before the first wildcard character, or before the last character of a
pattern without wildcards. -/
def LikeSafe (p : List Char) : Prop :=
  if p.any isWildcard then '\\' ∉ p.takeWhile (!isWildcard ·) else '\\' ∉ p.dropLast

instance (p : List Char) : Decidable (LikeSafe p) :=
  inferInstanceAs (Decidable (if p.any isWildcard then '\\' ∉ p.takeWhile (!isWildcard ·)
    else '\\' ∉ p.dropLast))

theorem likeBounds_of_wildcard {p : List Char} (hw : ∃ c ∈ p, isWildcard c = true)
    (hne : p.takeWhile (!isWildcard ·) ≠ []) :
    likeBounds p =
      (incrementUtf8 (p.takeWhile (!isWildcard ·))).map (p.takeWhile (!isWildcard ·), ·) := by
  obtain ⟨c, hc, hcw⟩ := hw
  unfold likeBounds
  cases hidx : p.findIdx? isWildcard with
  | none =>
    rw [List.findIdx?_eq_none_iff.mp hidx c hc] at hcw
    cases hcw
  | some i =>
    have htake : p.takeWhile (!isWildcard ·) = p.take i := by
      rw [List.takeWhile_eq_take_findIdx_not, ← (List.findIdx?_eq_some_iff_findIdx_eq.mp hidx).2]
      simp
    cases i with
    | zero => exact absurd htake hne
    | succ i =>
      rw [htake]
      rfl

theorem likeBounds_of_takeWhile_nil {p : List Char} (hw : ∃ c ∈ p, isWildcard c = true)
    (hnil : p.takeWhile (!isWildcard ·) = []) : likeBounds p = none := by
  obtain ⟨c, hc, hcw⟩ := hw
  cases p with
  | nil => cases hc
  | cons x p =>
    have hx : isWildcard x = true := by
      by_contra hx
      rw [List.takeWhile_cons_of_pos (by simpa using hx)] at hnil
      cases hnil
    simp [likeBounds, List.findIdx?_cons, hx]

theorem likeBounds_of_no_wildcard {p : List Char} (hw : ¬ ∃ c ∈ p, isWildcard c = true) :
    likeBounds p = some (p, p) := by
  have hnone : p.findIdx? isWildcard = none := by
    refine List.findIdx?_eq_none_iff.mpr fun c hc => ?_
    by_contra hcw
    exact hw ⟨c, hc, Bool.eq_true_of_not_eq_false hcw⟩
  rw [likeBounds, hnone]

section Range

variable {p : List Char}

/-- Every match lies within the bounds. -/
def WithinBounds (p : List Char) : Prop :=
  ∀ lower upper, likeBounds p = some (lower, upper) →
    ∀ v, like p v = true → lower ≤ v ∧ v ≤ upper

/-- What matches a pattern begins with the text before the first wildcard, if that has no
backslash. -/
theorem withinBounds_of_no_backslash (hw : ∃ c ∈ p, isWildcard c = true)
    (h : '\\' ∉ p.takeWhile (!isWildcard ·)) : WithinBounds p := by
  intro lower upper hbounds v hv
  by_cases hne : p.takeWhile (!isWildcard ·) = []
  · rw [likeBounds_of_takeWhile_nil hw hne] at hbounds
    cases hbounds
  rw [likeBounds_of_wildcard hw hne] at hbounds
  obtain ⟨u, hu, hbounds⟩ := Option.map_eq_some_iff.mp hbounds
  cases hbounds
  have hplain : ∀ c ∈ p.takeWhile (!isWildcard ·), c ≠ '\\' ∧ isWildcard c = false := by
    intro c hc
    have hcw := List.all_eq_true.mp List.all_takeWhile c hc
    exact ⟨fun heq => h (heq ▸ hc), by simpa using hcw⟩
  rw [like, ← List.takeWhile_append_dropWhile (p := (!isWildcard ·)) (l := p),
    tokenize_plain hplain] at hv
  obtain ⟨s, rfl, _⟩ := tokensMatch_chars.mp hv
  exact ⟨LexOrder.prefix_le (List.prefix_append _ s),
    (lt_of_incrementUtf8 hu (List.prefix_append _ s)).le⟩

/-- A backslash in that text leads to a match outside of the bounds. -/
theorem not_withinBounds_of_backslash (hw : ∃ c ∈ p, isWildcard c = true)
    (h : '\\' ∈ p.takeWhile (!isWildcard ·)) : ¬ WithinBounds p := by
  intro hwithin
  obtain ⟨a, r₀, htext, ha⟩ := List.eq_append_cons_of_mem h
  have htextw : ∀ c ∈ p.takeWhile (!isWildcard ·), (!isWildcard c) = true := fun c hc =>
    List.all_eq_true.mp List.all_takeWhile c hc
  have haw : ∀ c ∈ a, (!isWildcard c) = true := fun c hc =>
    htextw c (htext ▸ List.mem_append_left _ hc)
  -- the pattern from its first backslash on
  obtain ⟨r, rfl, hr⟩ : ∃ r, p = a ++ r ∧ r.head? = some '\\' := by
    refine ⟨'\\' :: (r₀ ++ p.dropWhile (!isWildcard ·)), ?_, rfl⟩
    rw [← List.cons_append, ← List.append_assoc, ← htext, List.takeWhile_append_dropWhile]
  rw [List.takeWhile_append_of_pos haw] at htext h
  have hwr : ∃ c ∈ r, isWildcard c = true := by
    obtain ⟨c, hc, hcw⟩ := hw
    rcases List.mem_append.mp hc with hc | hc
    · have := haw c hc
      simp [hcw] at this
    · exact ⟨c, hc, hcw⟩
  obtain ⟨l, d, tail, r', hmatch, hr', hside⟩ := exists_match_leaving (j := 0) hwr (Or.inr hr)
  have hplain : ∀ c ∈ a, c ≠ '\\' ∧ isWildcard c = false := fun c hc =>
    ⟨fun heq => ha (heq ▸ hc), by simpa using haw c hc⟩
  have hlike : like (a ++ r) (a ++ List.replicate l '\\' ++ d :: tail) = true := by
    rw [like, tokenize_plain hplain]
    exact tokensMatch_chars.mpr ⟨_, List.append_assoc .., hmatch⟩
  have htake : (a ++ r).takeWhile (!isWildcard ·) = a ++ List.replicate l '\\' ++ '\\' :: r' := by
    rw [List.takeWhile_append_of_pos haw, List.append_assoc, ← hr']
    rfl
  have hbounds : ∀ u, incrementUtf8 (a ++ List.replicate l '\\' ++ '\\' :: r') = some u →
      likeBounds (a ++ r) = some (a ++ List.replicate l '\\' ++ '\\' :: r', u) := by
    intro u hu
    rw [likeBounds_of_wildcard hw (by rw [htake]; simp), htake, hu]
    rfl
  rcases hside with hlt | ⟨hgt, hd⟩
  · obtain ⟨u, hu, _⟩ := incrementUtf8_backslash_lt (a ++ List.replicate l '\\') r' (d := '_')
      (by decide) (Or.inr (by decide)) []
    have hle := (hwithin _ u (hbounds u hu) _ hlike).1
    exact hle.not_gt (LexOrder.append_cons_lt _ hlt _ _)
  · obtain ⟨u, hu, hlt⟩ := incrementUtf8_backslash_lt (a ++ List.replicate l '\\') r' hgt hd tail
    exact ((hwithin _ u (hbounds u hu) _ hlike).2).not_gt hlt

theorem withinBounds_iff_of_no_wildcard (hw : ¬ ∃ c ∈ p, isWildcard c = true) :
    WithinBounds p ↔ '\\' ∉ p.dropLast := by
  constructor
  · intro h
    obtain ⟨v, hv⟩ := exists_tokensMatch (tokenize p)
    obtain ⟨h₁, h₂⟩ := h p p (likeBounds_of_no_wildcard hw) v hv
    obtain rfl := le_antisymm h₁ h₂
    exact not_mem_dropLast_of_length
      (length_of_tokensMatch (many_not_mem_tokenize hw) hv).le
  · intro h lower upper hbounds v hv
    rw [likeBounds_of_no_wildcard hw] at hbounds
    cases hbounds
    rw [like, tokenize_eq_map hw h, ← List.append_nil (p.map _)] at hv
    obtain ⟨s, rfl, hs⟩ := tokensMatch_chars.mp hv
    cases s with
    | nil => simp
    | cons x s => cases hs

theorem withinBounds_iff_likeSafe : WithinBounds p ↔ LikeSafe p := by
  unfold LikeSafe
  split
  · next hw =>
    rw [List.any_eq_true] at hw
    refine ⟨fun h hmem => ?_, withinBounds_of_no_backslash hw⟩
    exact not_withinBounds_of_backslash hw hmem h
  · next hw =>
    rw [List.any_eq_true] at hw
    exact withinBounds_iff_of_no_wildcard hw

end Range

/-! ### Patterns of NOT LIKE -/

/-- The patterns that are handled: a text in which every wildcard follows a backslash, and `%`. -/
theorem splitConstantPrefixFrom_eq_iff {prev : Option Char} {p text : List Char} :
    splitConstantPrefixFrom prev p = (text, ['%']) ↔
      p = text ++ ['%'] ∧ guarded prev text = true ∧ text.getLast?.or prev ≠ some '\\' := by
  induction p generalizing prev text with
  | nil => simp [splitConstantPrefixFrom]
  | cons c rest ih =>
    rw [splitConstantPrefixFrom]
    by_cases hsplit : (isWildcard c && decide (prev ≠ some '\\')) = true
    · rw [if_pos hsplit]
      obtain ⟨hcw, hprev⟩ : isWildcard c = true ∧ prev ≠ some '\\' := by simpa using hsplit
      cases text with
      | nil => simp [guarded, hprev]
      | cons x text =>
        constructor
        · intro h
          cases h
        · intro h
          obtain ⟨heq, hguarded, _⟩ := h
          cases heq
          simp [guarded, hcw, hprev] at hguarded
    · rw [if_neg hsplit]
      have hc : isWildcard c = true → prev = some '\\' := by simpa using hsplit
      cases text with
      | nil =>
        constructor
        · intro h
          cases h
        · intro h
          obtain ⟨heq, _, hprev⟩ := h
          cases heq
          exact absurd (hc rfl) hprev
      | cons x text =>
        have hlast : (x :: text).getLast?.or prev = text.getLast?.or (some x) := by
          rw [List.getLast?_cons]
          cases text.getLast? <;> rfl
        have hstep : guarded prev (c :: text) = guarded (some c) text := by
          have hfirst : (!isWildcard c || decide (prev = some '\\')) = true := by
            cases hcw : isWildcard c with
            | false => rfl
            | true => simp [hc hcw]
          rw [guarded, hfirst, Bool.true_and]
        constructor
        · intro h
          obtain ⟨hx, hrest⟩ := Prod.mk.inj h
          obtain ⟨rfl, htext⟩ := List.cons.inj hx
          obtain ⟨rfl, hguarded, hend⟩ := ih.mp (Prod.ext htext hrest)
          exact ⟨rfl, hstep.trans hguarded, hlast ▸ hend⟩
        · intro h
          obtain ⟨heq, hguarded, hend⟩ := h
          rw [List.cons_append] at heq
          obtain ⟨rfl, rfl⟩ := List.cons.inj heq
          rw [ih.mpr ⟨rfl, hstep.symm.trans hguarded, hlast ▸ hend⟩]

/-- What lies between two matches matches. -/
def MatchesBetween (p : List Char) : Prop :=
  ∀ lo v hi, lo ≤ v → v ≤ hi → like p lo = true → like p hi = true → like p v = true

theorem exists_map_char {ts : List Token} (h : ∀ t ∈ ts, t.isChar = true) :
    ∃ l : List Char, ts = l.map .char := by
  induction ts with
  | nil => exact ⟨[], rfl⟩
  | cons t ts ih =>
    obtain ⟨ht, hts⟩ := List.forall_mem_cons.mp h
    obtain ⟨l, rfl⟩ := ih hts
    cases t with
    | char c => exact ⟨c :: l, rfl⟩
    | _ => cases ht

theorem matchesBetween_iff {text : List Char} (hguarded : guarded none text = true)
    (hlast : text.getLast? ≠ some '\\') :
    MatchesBetween (text ++ ['%']) ↔ ((tokenize text).dropWhile Token.isChar).length ≤ 1 := by
  obtain ⟨l, hl⟩ := exists_map_char fun t ht =>
    List.all_eq_true.mp (List.all_takeWhile (p := Token.isChar) (l := tokenize text)) t ht
  have htokens : tokenize (text ++ ['%']) =
      l.map .char ++ ((tokenize text).dropWhile Token.isChar ++ [.many]) := by
    rw [tokenize_append_percent hlast, ← List.append_assoc, ← hl, List.takeWhile_append_dropWhile]
  have hchain := (isChain_tokenize hguarded).2
  rw [← List.takeWhile_append_dropWhile (p := Token.isChar) (l := tokenize text)] at hchain
  have hchain := hchain.right_of_append
  unfold MatchesBetween like
  rw [htokens]
  cases hws : (tokenize text).dropWhile Token.isChar with
  | nil =>
    refine ⟨fun _ => Nat.zero_le 1, fun _ lo v hi h₁ h₂ hlo hhi => ?_⟩
    exact tokensMatch_between (Or.inl rfl) hlo hhi h₁ h₂
  | cons w ws =>
    have hw : w.isChar = false := by
      have hhead := List.head_dropWhile_not Token.isChar (l := tokenize text) (w := by simp [hws])
      simpa [hws] using hhead
    cases ws with
    | nil =>
      refine ⟨fun _ => Nat.le_refl 1, fun _ lo v hi h₁ h₂ hlo hhi => ?_⟩
      exact tokensMatch_between (Or.inr ⟨w, hw, rfl⟩) hlo hhi h₁ h₂
    | cons t ws =>
      rw [hws, List.isChain_cons_cons, hw] at hchain
      have ht : t.isChar = true := hchain.1.resolve_left Bool.false_ne_true
      refine ⟨fun h => ?_, fun h => ?_⟩
      · cases t with
        | char m =>
          obtain ⟨lo, v, hi, h₁, h₂, hlo, hhi, hv⟩ :=
            exists_between_not_match l hw m (ws ++ [.many])
          have hmatch := h lo v hi h₁ h₂ hlo hhi
          rw [List.cons_append, List.cons_append, hv] at hmatch
          cases hmatch
        | _ => cases ht
      · simp at h

/-! ### The built expressions -/

section Built

variable {D F : Type} [LinearOrder D] {K : Kernels D F} {schema : Schema} {c : Column} {f : Field}

/-- The builder of `col LIKE pattern` or `col NOT LIKE pattern`. -/
def likeBuilder (c : Column) (f : Field) (negated : Bool) (p : List Char) :
    PruningExpressionBuilder D F :=
  ⟨c, .column c, if negated then .notLikeMatch else .likeMatch, .literal (.utf8 p), f⟩

def buildLike (c : Column) (f : Field) (negated : Bool) (p : List Char)
    (required : RequiredColumns) : RequiredColumns × Option (Expr D F) :=
  if negated then buildNotLikeMatch (likeBuilder c f negated p) required
  else buildLikeMatch (likeBuilder c f negated p) required

/-- What is built is not false on the statistics of a container with a row for which the predicate
is true. -/
def LikePrunesSoundly (K : Kernels D F) (schema : Schema) (c : Column) (f : Field)
    (negated : Bool) (p : List Char) : Prop :=
  ∀ rows stat, Consistent schema rows stat → ∀ row ∈ rows,
    (Expr.like negated false (.column c) (.literal (.utf8 p))).eval K row =
      some (.boolean true) →
    ∀ required required' e, buildLike c f negated p required = (required', some e) →
      Keeps K stat (required', e)

theorem eval_like (negated : Bool) (e : Expr D F) (p : List Char) (row : List (Scalar D)) :
    (Expr.like negated false e (.literal (.utf8 p))).eval K row =
      (e.eval K row).bind fun v => likeValues negated v (.utf8 p) := by
  rw [Expr.eval]
  rfl

/-- Both bounds of the column, in every table that has them. -/
theorem likeBuilder_ends (K : Kernels D F) (c : Column) (f : Field) (negated : Bool)
    (p : List Char) (stat : StatisticsType → String → Scalar D) (required : RequiredColumns) :
    ∃ r₁ r₂ lo hi,
      (likeBuilder c f negated p : PruningExpressionBuilder D F).minColumnExpr required =
        (r₁, lo) ∧
      (likeBuilder c f negated p : PruningExpressionBuilder D F).maxColumnExpr r₁ = (r₂, hi) ∧
      ∀ required', r₂ <+: required' →
        lo.eval K (statisticsRow stat required') = some (stat .min c.name) ∧
        hi.eval K (statisticsRow stat required') = some (stat .max c.name) :=
  ⟨_, _, _, _, (Prod.eta _).symm, (Prod.eta _).symm, fun _ => eval_minMaxColumn K stat c f⟩

/-- For a built expression with the given value on all tables, keeping the container is about that
value. -/
theorem keeps_iff_of_eval {built : RequiredColumns × Option (Expr D F)} {r : RequiredColumns}
    {e : Expr D F} {x : Option (Scalar D)} {stat : StatisticsType → String → Scalar D}
    (hbuilt : built = (r, some e))
    (heval : ∀ required', r <+: required' → e.eval K (statisticsRow stat required') = x) :
    (∀ required' e, built = (required', some e) → Keeps K stat (required', e)) ↔
      x ≠ some (.boolean false) := by
  constructor
  · intro h
    rw [← heval r List.prefix_rfl]
    exact h r e hbuilt r List.prefix_rfl
  · intro h required' e' hbuilt'
    obtain ⟨rfl, he⟩ := Prod.mk.inj (hbuilt.symm.trans hbuilt')
    cases he
    intro grown hgrown
    rw [heval grown hgrown]
    exact h

section Values

variable {p : List Char} (stat : StatisticsType → String → Scalar D) (required : RequiredColumns)

/-- What is built for LIKE compares the bounds of the column with those of the pattern. -/
theorem keeps_buildLike_iff :
    (∀ required' e, buildLike c f false p required = (required', some e) →
      Keeps K stat (required', e)) ↔
    ∀ lower upper, likeBounds p = some (lower, upper) →
      andValues (compareValues .ltEq (stat .min c.name) (.utf8 upper))
        (compareValues .ltEq (.utf8 lower) (stat .max c.name)) ≠ some (.boolean false) := by
  obtain ⟨r₁, r₂, lo, hi, hmin, hmax, hends⟩ := likeBuilder_ends K c f false p stat required
  cases hbounds : likeBounds p with
  | none =>
    have hbuilt : (buildLike c f false p required : _ × Option (Expr D F)).2 = none := by
      simp [buildLike, buildLikeMatch, likeBuilder, extractStringLiteral, hbounds]
    simp [Prod.ext_iff, hbuilt]
  | some bounds =>
    have hbuilt : buildLike c f false p required =
        (r₂, some (.binary (.binary lo .ltEq (.literal (.utf8 bounds.2))) .and
          (.binary (.literal (.utf8 bounds.1)) .ltEq hi))) := by
      simp only [buildLike, Bool.false_eq_true, if_false, buildLikeMatch, hmin, hmax]
      simp [likeBuilder, extractStringLiteral, hbounds]
    rw [keeps_iff_of_eval hbuilt (x := andValues
      (compareValues .ltEq (stat .min c.name) (.utf8 bounds.2))
      (compareValues .ltEq (.utf8 bounds.1) (stat .max c.name)))]
    · simp [Prod.ext_iff]
    · intro grown hgrown
      obtain ⟨hlo, hhi⟩ := hends grown hgrown
      rw [Expr.eval, if_pos rfl, eval_comparison rfl, eval_comparison rfl, hlo, hhi]
      rfl

/-- What is built for NOT LIKE matches the bounds of the column with the pattern. -/
theorem keeps_buildNotLike_iff :
    (∀ required' e, buildLike c f true p required = (required', some e) →
      Keeps K stat (required', e)) ↔
    ∀ text, splitConstantPrefix p = (text, ['%']) → text ≠ [] →
      orValues (likeValues true (stat .min c.name) (.utf8 p))
        (likeValues true (stat .max c.name) (.utf8 p)) ≠ some (.boolean false) := by
  obtain ⟨r₁, r₂, lo, hi, hmin, hmax, hends⟩ := likeBuilder_ends K c f true p stat required
  by_cases hsplit : ∃ text, splitConstantPrefix p = (text, ['%']) ∧ text ≠ []
  · obtain ⟨text, hsplit, htext⟩ := hsplit
    have hbuilt : buildLike c f true p required =
        (r₂, some (.binary (.like true false lo (.literal (.utf8 p))) .or
          (.like true false hi (.literal (.utf8 p))))) := by
      simp only [buildLike, if_true, buildNotLikeMatch, hmin, hmax]
      simp [likeBuilder, extractStringLiteral, hsplit, htext]
    rw [keeps_iff_of_eval hbuilt (x := orValues (likeValues true (stat .min c.name) (.utf8 p))
      (likeValues true (stat .max c.name) (.utf8 p)))]
    · exact ⟨fun h _ _ _ => h, fun h => h text hsplit htext⟩
    · intro grown hgrown
      obtain ⟨hlo, hhi⟩ := hends grown hgrown
      rw [Expr.eval, if_neg (by decide), if_pos rfl, eval_like, eval_like, hlo, hhi]
      rfl
  · have hguard : ¬ ((splitConstantPrefix p).1 ≠ [] ∧ (splitConstantPrefix p).2 = ['%']) :=
      fun h => hsplit ⟨(splitConstantPrefix p).1, Prod.ext rfl h.2, h.1⟩
    have hbuilt : (buildLike c f true p required : _ × Option (Expr D F)).2 = none := by
      simp [buildLike, buildNotLikeMatch, likeBuilder, extractStringLiteral, guard, hguard]
    constructor
    · intro _ text htext hne
      exact absurd ⟨text, htext, hne⟩ hsplit
    · intro _ required' e h
      rw [h] at hbuilt
      cases hbuilt

end Values

/-! ### Soundness -/

/-- A row for which the predicate is true. -/
theorem exists_of_like_eq_true {negated : Bool} {p : List Char} {row : List (Scalar D)}
    (h : (Expr.like negated false (.column c) (.literal (.utf8 p)) : Expr D F).eval K row =
      some (.boolean true)) :
    ∃ v, row[c.index]? = some (.utf8 v) ∧ (like p v != negated) = true := by
  rw [eval_like] at h
  obtain ⟨a, ha, h⟩ := Option.bind_eq_some_iff.mp h
  obtain ⟨v, rfl, hv⟩ := likeValues_eq_boolean.mp h
  exact ⟨v, ha, hv⟩

section Placed

variable {p : List Char} (hplaced : schema.columnWithName c.name = some (c.index, f))

include hplaced

/-- Sound pruning, for a container with a single value. -/
theorem LikePrunesSoundly.keeps_single {negated : Bool}
    (h : LikePrunesSoundly K schema c f negated p) {v : List Char} {lo hi : Scalar D}
    (hv : (like p v != negated) = true) (hlo : lo ≠ .null → lo ≤ .utf8 v)
    (hhi : hi ≠ .null → .utf8 v ≤ hi) :
    ∀ required' e, buildLike c f negated p [] = (required', some e) →
      Keeps K (onlyBounds c lo hi) (required', e) := by
  refine h _ _ (consistent_onlyBounds hplaced hlo hhi) _ List.mem_cons_self ?_ []
  rw [eval_like, ← Expr.valueAt, Expr.valueAt_column]
  exact likeValues_eq_boolean.mpr ⟨v, rfl, hv⟩

theorem withinBounds_of_likePrunesSoundly (h : LikePrunesSoundly K schema c f false p) :
    WithinBounds p := by
  intro lower upper hbounds v hv
  have hmatch : (like p v != false) = true := by rw [hv]; rfl
  constructor
  · -- the minimum is not known
    have hkeeps := (keeps_buildLike_iff ..).mp
      (h.keeps_single hplaced hmatch (fun hne => absurd rfl hne) fun _ => le_refl (Scalar.utf8 v))
      lower upper hbounds
    rw [onlyBounds_min, onlyBounds_max] at hkeeps
    by_contra hlt
    have hfalse : compareValues .ltEq (.utf8 lower) (.utf8 v : Scalar D) =
        some (.boolean false) :=
      compareValues_eq_false.mpr (Scalar.utf8_lt.mpr (not_le.mp hlt))
    rw [hfalse] at hkeeps
    exact hkeeps rfl
  · -- the maximum is not known
    have hkeeps := (keeps_buildLike_iff ..).mp
      (h.keeps_single hplaced hmatch (fun _ => le_refl (Scalar.utf8 v)) fun hne => absurd rfl hne)
      lower upper hbounds
    rw [onlyBounds_min, onlyBounds_max] at hkeeps
    by_contra hlt
    have hfalse : compareValues .ltEq (.utf8 v : Scalar D) (.utf8 upper) =
        some (.boolean false) :=
      compareValues_eq_false.mpr (Scalar.utf8_lt.mpr (not_le.mp hlt))
    rw [hfalse] at hkeeps
    exact hkeeps rfl

theorem likePrunesSoundly_of_withinBounds (h : WithinBounds p) :
    LikePrunesSoundly K schema c f false p := by
  intro rows stat hstat row hrow htrue required
  obtain ⟨v, hv, hmatch⟩ := exists_of_like_eq_true htrue
  rw [keeps_buildLike_iff]
  intro lower upper hbounds hfalse
  obtain ⟨hlower, hupper⟩ := h lower upper hbounds v (by simpa using hmatch)
  have hnonnull : (.utf8 v : Scalar D) ≠ .null := by simp
  rcases andValues_eq_false hfalse with hfalse | hfalse
  · have hlt : .utf8 upper < stat .min c.name := compareValues_eq_false.mp hfalse
    have hle := hstat.min_le c.name c.index f hplaced (Scalar.ne_null_of_lt hlt).2 row hrow _ hv
      hnonnull
    exact hupper.not_gt (Scalar.utf8_lt.mp (hlt.trans_le hle))
  · have hlt : stat .max c.name < .utf8 lower := compareValues_eq_false.mp hfalse
    have hle := hstat.le_max c.name c.index f hplaced (Scalar.ne_null_of_lt hlt).1 row hrow _ hv
      hnonnull
    exact hlower.not_gt (Scalar.utf8_lt.mp (hle.trans_lt hlt))

/-- NOT LIKE prunes soundly if the patterns it handles match all strings between two matches. -/
theorem notLikePrunesSoundly_iff :
    LikePrunesSoundly K schema c f true p ↔
      ∀ text, splitConstantPrefix p = (text, ['%']) → text ≠ [] → MatchesBetween p := by
  constructor
  · intro h text hsplit htext lo v hi hlov hvhi hlo hhi
    by_contra hv
    have hkeeps := (keeps_buildNotLike_iff ..).mp
      (h.keeps_single hplaced (v := v) (by simpa using hv)
        (fun _ => Scalar.utf8_le.mpr hlov) fun _ => Scalar.utf8_le.mpr hvhi) text hsplit htext
    rw [onlyBounds_min, onlyBounds_max] at hkeeps
    refine hkeeps (orValues_eq_false.mpr ⟨?_, ?_⟩)
    · exact likeValues_eq_boolean.mpr ⟨lo, rfl, by simp [hlo]⟩
    · exact likeValues_eq_boolean.mpr ⟨hi, rfl, by simp [hhi]⟩
  · intro h rows stat hstat row hrow htrue required
    obtain ⟨v, hv, hmatch⟩ := exists_of_like_eq_true htrue
    rw [keeps_buildNotLike_iff]
    intro text hsplit htext hfalse
    obtain ⟨hmin, hmax⟩ := orValues_eq_false.mp hfalse
    obtain ⟨lo, hlo, hlomatch⟩ := likeValues_eq_boolean.mp hmin
    obtain ⟨hi, hhi, hhimatch⟩ := likeValues_eq_boolean.mp hmax
    have hnonnull : (.utf8 v : Scalar D) ≠ .null := by simp
    have hlov := hstat.min_le c.name c.index f hplaced (by simp [hlo]) row hrow _ hv hnonnull
    have hvhi := hstat.le_max c.name c.index f hplaced (by simp [hhi]) row hrow _ hv hnonnull
    rw [hlo, Scalar.utf8_le] at hlov
    rw [hhi, Scalar.utf8_le] at hvhi
    have hbetween := h text hsplit htext lo v hi hlov hvhi (by simpa using hlomatch)
      (by simpa using hhimatch)
    rw [hbetween] at hmatch
    cases hmatch

end Placed

/-! ### The sound patterns -/

/-- A pattern that NOT LIKE handles, that is a text in which every wildcard follows a backslash, and
`%`, has only characters to match in that text, up to its end. -/
def NotLikeSafe (p : List Char) : Prop :=
  ∀ text, p = text ++ ['%'] → text ≠ [] → guarded none text = true →
    text.getLast? ≠ some '\\' → ((tokenize text).dropWhile Token.isChar).length ≤ 1

theorem notLikeSafe_iff {p : List Char} : NotLikeSafe p ↔
    ∀ text, splitConstantPrefix p = (text, ['%']) → text ≠ [] → MatchesBetween p := by
  constructor
  · intro h text hsplit htext
    obtain ⟨rfl, hguarded, hlast⟩ := splitConstantPrefixFrom_eq_iff.mp hsplit
    rw [Option.or_none] at hlast
    exact (matchesBetween_iff hguarded hlast).mpr (h text rfl htext hguarded hlast)
  · intro h text hp htext hguarded hlast
    subst hp
    refine (matchesBetween_iff hguarded hlast).mp (h text ?_ htext)
    exact splitConstantPrefixFrom_eq_iff.mpr ⟨rfl, hguarded, by rwa [Option.or_none]⟩

/-- LIKE and NOT LIKE prune soundly for the patterns whose constant text the code finds, and for
no others; the increment of a string is above all that begin with it. -/
theorem like_pruning_sound_iff (K : Kernels D F)
    (hplaced : schema.columnWithName c.name = some (c.index, f)) :
    (∀ p, LikePrunesSoundly K schema c f false p ↔ LikeSafe p) ∧
    (∀ p, LikePrunesSoundly K schema c f true p ↔ NotLikeSafe p) ∧
    ∀ p q, incrementUtf8 p = some q → ∀ s, p <+: s → Utf8.bytes s < Utf8.bytes q := by
  refine ⟨fun p => ?_, fun p => ?_, fun p q hq s hs => ?_⟩
  · rw [← withinBounds_iff_likeSafe]
    exact ⟨withinBounds_of_likePrunesSoundly hplaced, likePrunesSoundly_of_withinBounds hplaced⟩
  · rw [notLikeSafe_iff]
    exact notLikePrunesSoundly_iff hplaced
  · exact Utf8.bytes_lt_iff.mpr (lt_of_incrementUtf8 hq hs)

end Built

/-- The pattern `a_\%` for LIKE, whose backslash stands behind the first wildcard, and `a\%%` for
NOT LIKE, whose text has an escaped wildcard only. -/
theorem like_pruning_sound_escaped :
    let soundly := LikePrunesSoundly (.refusing : Kernels ℤ Empty) [⟨"s", .utf8⟩] ⟨"s", 0⟩
      ⟨"s", .utf8⟩
    soundly false ['a', '_', '\\', '%'] ∧ soundly true ['a', '\\', '%', '%'] ∧
    Utf8.bytes ['a', 'b', 'z'] < Utf8.bytes ['a', 'c'] := by
  intro soundly
  have hplaced : Schema.columnWithName [⟨"s", .utf8⟩] "s" = some (0, ⟨"s", .utf8⟩) := rfl
  obtain ⟨hlike, hnotLike, hincrement⟩ := like_pruning_sound_iff (c := ⟨"s", 0⟩)
    (.refusing : Kernels ℤ Empty) hplaced
  refine ⟨(hlike _).mpr (by decide), (hnotLike _).mpr ?_, hincrement ['a', 'b'] _ rfl _ ?_⟩
  · intro text htext _ _ _
    obtain rfl : ['a', '\\', '%'] = text :=
      List.append_cancel_right (show ['a', '\\', '%'] ++ ['%'] = text ++ ['%'] from htext)
    decide
  · exact List.prefix_append ['a', 'b'] ['z']

/-- Two predicates that are true on a row, for which the expression that is built is false on the
statistics of its container: `s LIKE 'a\%b'` on `a%b`, which is below the text `a\`, and
`s NOT LIKE 'x\\_y%'` on `x\b`, which lies between the matches `x\ay` and `x\cy`. -/
theorem like_escapes_unsound :
    let K : Kernels ℤ Empty := .refusing
    let prunes := fun (negated : Bool) (p : List Char) (vs : List (List Char)) =>
      ∃ stat row required e,
        Consistent [⟨"s", .utf8⟩] ((vs.map .utf8).map ([·])) stat ∧
        row ∈ (vs.map .utf8).map ([·]) ∧
        (Expr.like negated false (.column ⟨"s", 0⟩) (.literal (.utf8 p))).eval K row =
          some (.boolean true) ∧
        buildLike ⟨"s", 0⟩ ⟨"s", .utf8⟩ negated p [] = (required, some e) ∧
        e.eval K (statisticsRow stat required) = some (.boolean false)
    prunes false ['a', '\\', '%', 'b'] [['a', '%', 'b']] ∧
    prunes true ['x', '\\', '\\', '_', 'y', '%']
      [['x', '\\', 'a', 'y'], ['x', '\\', 'b'], ['x', '\\', 'c', 'y']] := by
  intro K prunes
  refine ⟨⟨exactStatistics (.utf8 ['a', '%', 'b']) (.utf8 ['a', '%', 'b']) 1,
      [.utf8 ['a', '%', 'b']], _, _, ?_, ?_, ?_, rfl, ?_⟩,
    ⟨exactStatistics (.utf8 ['x', '\\', 'a', 'y']) (.utf8 ['x', '\\', 'c', 'y']) 3,
      [.utf8 ['x', '\\', 'b']], _, _, ?_, ?_, ?_, rfl, ?_⟩⟩
  · exact consistent_oneColumn (by simp [exactStatistics]) (by simp [exactStatistics]) rfl
      fun _ => rfl
  · exact List.mem_cons_self
  · decide
  · decide
  · exact consistent_oneColumn (by simp [exactStatistics]; decide)
      (by simp [exactStatistics]; decide) rfl fun _ => rfl
  · simp
  · decide
  · decide

end PredicateTransfer.Pruning
