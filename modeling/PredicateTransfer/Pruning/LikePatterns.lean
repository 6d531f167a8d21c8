import PredicateTransfer.Pruning.PruningPredicate
import PredicateTransfer.Lib.LexOrder

/-!
# What LIKE patterns match

A pattern is read token by token: a backslash makes the character after it literal, and only a
wildcard that is not made literal in this way is one. Literal tokens at the front fix the
beginning of every match, and every pattern has a match, whose wildcards may stand for anything.

The code that prunes looks at the characters of the pattern instead. `exists_match_leaving` is
about a backslash before the first wildcard character: the text before that character then
differs from what the pattern matches.
-/

namespace PredicateTransfer.Pruning

/-! ### Reading a pattern -/

def Token.isChar : Token → Bool
  | .char _ => true
  | _ => false

@[simp] theorem tokenize_escaped (d : Char) (rest : List Char) :
    tokenize ('\\' :: d :: rest) = .char d :: tokenize rest := by
  rw [tokenize, if_pos rfl]

@[simp] theorem tokenize_percent (rest : List Char) :
    tokenize ('%' :: rest) = .many :: tokenize rest := by
  rw [tokenize.eq_def]
  simp

@[simp] theorem tokenize_underscore (rest : List Char) :
    tokenize ('_' :: rest) = .one :: tokenize rest := by
  rw [tokenize.eq_def]
  simp

theorem tokenize_char {c : Char} (hc : c ≠ '\\') (hw : isWildcard c = false) (rest : List Char) :
    tokenize (c :: rest) = .char c :: tokenize rest := by
  obtain ⟨hpercent, hunderscore⟩ : c ≠ '%' ∧ c ≠ '_' := by simpa [isWildcard] using hw
  rw [tokenize.eq_def]
  simp [hc, hpercent, hunderscore]

/-- Induction along the reading of a pattern. -/
@[elab_as_elim]
theorem patternInduction {motive : List Char → Prop} (nil : motive []) (last : motive ['\\'])
    (escaped : ∀ d rest, motive rest → motive ('\\' :: d :: rest))
    (wildcard : ∀ c rest, isWildcard c = true → motive rest → motive (c :: rest))
    (char : ∀ c rest, c ≠ '\\' → isWildcard c = false → motive rest → motive (c :: rest))
    (p : List Char) : motive p := by
  induction hn : p.length using Nat.strong_induction_on generalizing p with
  | _ n ih =>
    subst hn
    match p with
    | [] => exact nil
    | c :: rest =>
      by_cases hc : c = '\\'
      · subst hc
        match rest with
        | [] => exact last
        | d :: rest => exact escaped d rest (ih _ (by simp) rest rfl)
      · have hrest := ih _ (by simp) rest rfl
        cases hw : isWildcard c with
        | true => exact wildcard c rest hw hrest
        | false => exact char c rest hc hw hrest

theorem tokenize_plain {a : List Char} (ha : ∀ c ∈ a, c ≠ '\\' ∧ isWildcard c = false)
    (rest : List Char) : tokenize (a ++ rest) = a.map .char ++ tokenize rest := by
  induction a with
  | nil => rfl
  | cons c a ih =>
    obtain ⟨⟨hc, hw⟩, ha⟩ := List.forall_mem_cons.mp ha
    rw [List.cons_append, tokenize_char hc hw, ih ha]
    rfl

/-! ### Matches -/

section Matches

variable {ts : List Token} {l s : List Char}

theorem tokensMatch_chars : tokensMatch (l.map .char ++ ts) s = true ↔
    ∃ s', s = l ++ s' ∧ tokensMatch ts s' = true := by
  induction l generalizing s with
  | nil => simp
  | cons c l ih =>
    cases s with
    | nil => simp [tokensMatch]
    | cons x s =>
      simp only [List.map_cons, List.cons_append, tokensMatch, Bool.and_eq_true, beq_iff_eq, ih,
        List.cons.injEq]
      constructor
      · intro h
        obtain ⟨rfl, s', rfl, hs'⟩ := h
        exact ⟨s', ⟨rfl, rfl⟩, hs'⟩
      · intro h
        obtain ⟨s', ⟨rfl, rfl⟩, hs'⟩ := h
        exact ⟨rfl, s', rfl, hs'⟩

theorem tokensMatch_one : tokensMatch (.one :: ts) s = true ↔
    ∃ x s', s = x :: s' ∧ tokensMatch ts s' = true := by
  cases s <;> simp [tokensMatch]

theorem tokensMatch_many : tokensMatch (.many :: ts) s = true ↔
    ∃ a s', s = a ++ s' ∧ tokensMatch ts s' = true := by
  rw [tokensMatch, List.any_eq_true]
  constructor
  · intro h
    obtain ⟨s', hs', hmatch⟩ := h
    obtain ⟨a, rfl⟩ := (List.mem_tails _ _).mp hs'
    exact ⟨a, s', rfl, hmatch⟩
  · intro h
    obtain ⟨a, s', rfl, hmatch⟩ := h
    exact ⟨s', (List.mem_tails _ _).mpr (List.suffix_append a s'), hmatch⟩

theorem exists_tokensMatch (ts : List Token) : ∃ s, tokensMatch ts s = true := by
  induction ts with
  | nil => exact ⟨[], rfl⟩
  | cons t ts ih =>
    obtain ⟨s, hs⟩ := ih
    cases t with
    | char c => exact ⟨c :: s, by simpa [tokensMatch] using hs⟩
    | one => exact ⟨'a' :: s, tokensMatch_one.mpr ⟨_, s, rfl, hs⟩⟩
    | many => exact ⟨s, tokensMatch_many.mpr ⟨[], s, rfl, hs⟩⟩

/-- Without `%` a pattern fixes the length of its matches. -/
theorem length_of_tokensMatch (hmany : .many ∉ ts) (h : tokensMatch ts s = true) :
    s.length = ts.length := by
  induction ts generalizing s with
  | nil => simpa [tokensMatch] using h
  | cons t ts ih =>
    rw [List.mem_cons, not_or] at hmany
    cases t with
    | char c =>
      cases s with
      | nil => cases h
      | cons x s =>
        simp only [tokensMatch, Bool.and_eq_true] at h
        rw [List.length_cons, List.length_cons, ih hmany.2 h.2]
    | one =>
      obtain ⟨x, s', rfl, h⟩ := tokensMatch_one.mp h
      rw [List.length_cons, List.length_cons, ih hmany.2 h]
    | many => exact absurd rfl hmany.1

end Matches

theorem isWildcard_iff {c : Char} : isWildcard c = true ↔ c = '%' ∨ c = '_' := by
  simp [isWildcard]

theorem tokenize_wildcard {c : Char} (hc : isWildcard c = true) (rest : List Char) :
    ∃ w : Token, w.isChar = false ∧ tokenize (c :: rest) = w :: tokenize rest := by
  rcases isWildcard_iff.mp hc with rfl | rfl
  · exact ⟨.many, rfl, tokenize_percent rest⟩
  · exact ⟨.one, rfl, tokenize_underscore rest⟩

/-! ### Patterns without wildcards -/

theorem length_tokenize_le (p : List Char) : (tokenize p).length ≤ p.length := by
  induction p using patternInduction with
  | nil => exact Nat.le_refl 0
  | last => exact Nat.le_refl 1
  | escaped d rest ih =>
    rw [tokenize_escaped, List.length_cons, List.length_cons, List.length_cons]
    omega
  | wildcard c rest hc ih =>
    obtain ⟨w, _, hw⟩ := tokenize_wildcard hc rest
    rw [hw, List.length_cons, List.length_cons]
    omega
  | char c rest hc hcw ih =>
    rw [tokenize_char hc hcw, List.length_cons, List.length_cons]
    omega

/-- A backslash before the last character is read together with the character after it. -/
theorem not_mem_dropLast_of_length {p : List Char} (h : p.length ≤ (tokenize p).length) :
    '\\' ∉ p.dropLast := by
  have hcons : ∀ {c : Char} {rest : List Char}, c ≠ '\\' → '\\' ∉ rest.dropLast →
      '\\' ∉ (c :: rest).dropLast := by
    intro c rest hc hrest
    cases rest with
    | nil => exact List.not_mem_nil
    | cons x rest =>
      rw [List.dropLast_cons_cons, List.mem_cons, not_or]
      exact ⟨Ne.symm hc, hrest⟩
  induction p using patternInduction with
  | nil => exact List.not_mem_nil
  | last => exact List.not_mem_nil
  | escaped d rest _ =>
    have hle := length_tokenize_le rest
    rw [tokenize_escaped, List.length_cons, List.length_cons, List.length_cons] at h
    omega
  | wildcard c rest hc ih =>
    obtain ⟨w, _, hw⟩ := tokenize_wildcard hc rest
    rw [hw, List.length_cons, List.length_cons] at h
    refine hcons ?_ (ih (Nat.le_of_succ_le_succ h))
    rintro rfl
    cases hc
  | char c rest hc hcw ih =>
    rw [tokenize_char hc hcw, List.length_cons, List.length_cons] at h
    exact hcons hc (ih (Nat.le_of_succ_le_succ h))

theorem tokenize_eq_map {p : List Char} (hw : ¬ ∃ c ∈ p, isWildcard c = true)
    (h : '\\' ∉ p.dropLast) : tokenize p = p.map .char := by
  rcases List.eq_nil_or_concat' p with rfl | ⟨a, x, rfl⟩
  · rfl
  rw [List.dropLast_concat] at h
  have hplain : ∀ c ∈ a ++ [x], isWildcard c = false := by
    intro c hc
    by_contra hcw
    exact hw ⟨c, hc, Bool.eq_true_of_not_eq_false hcw⟩
  have ha : ∀ c ∈ a, c ≠ '\\' ∧ isWildcard c = false := fun c hc =>
    ⟨fun heq => h (heq ▸ hc), hplain c (List.mem_append_left _ hc)⟩
  rw [tokenize_plain ha, List.map_append]
  by_cases hx : x = '\\'
  · subst hx
    rfl
  · rw [tokenize_char hx (hplain x (List.mem_append_right _ List.mem_cons_self))]
    rfl

theorem many_not_mem_tokenize {p : List Char} (hw : ¬ ∃ c ∈ p, isWildcard c = true) :
    .many ∉ tokenize p := by
  induction p using patternInduction with
  | nil => exact List.not_mem_nil
  | last => simp [tokenize]
  | escaped d rest ih =>
    rw [tokenize_escaped, List.mem_cons, not_or]
    refine ⟨Token.noConfusion, ih fun h => hw ?_⟩
    obtain ⟨c, hc, hcw⟩ := h
    exact ⟨c, by simp [hc], hcw⟩
  | wildcard c rest hc _ => exact absurd ⟨c, List.mem_cons_self, hc⟩ hw
  | char c rest hc hcw ih =>
    rw [tokenize_char hc hcw, List.mem_cons, not_or]
    refine ⟨Token.noConfusion, ih fun h => hw ?_⟩
    obtain ⟨x, hx, hxw⟩ := h
    exact ⟨x, List.mem_cons_of_mem _ hx, hxw⟩

/-! ### A backslash before the first wildcard -/

/-- A wildcard may stand for a string that begins with a given character. -/
theorem exists_match_wildcard {c : Char} (hc : isWildcard c = true) (rest : List Char) (x : Char) :
    ∃ tail, tokensMatch (tokenize (c :: rest)) (x :: tail) = true := by
  obtain ⟨tail, htail⟩ := exists_tokensMatch (tokenize rest)
  refine ⟨tail, ?_⟩
  rcases isWildcard_iff.mp hc with rfl | rfl
  · rw [tokenize_percent]
    exact tokensMatch_many.mpr ⟨[x], tail, rfl, htail⟩
  · rw [tokenize_underscore]
    exact tokensMatch_one.mpr ⟨x, tail, rfl, htail⟩

theorem replicate_append_cons (n : Nat) (c : Char) (s : List Char) :
    List.replicate n c ++ c :: s = c :: (List.replicate n c ++ s) := by
  rw [← List.singleton_append, ← List.append_assoc, ← List.replicate_succ', List.replicate_succ,
    List.cons_append]

theorem exists_succ_of_head {r : List Char} {j : Nat} (h : 0 < j ∨ r.head? = some '\\')
    (hhead : r.head? ≠ some '\\') : ∃ i, j = i + 1 :=
  Nat.exists_eq_succ_of_ne_zero (Nat.pos_iff_ne_zero.mp (h.resolve_right hhead))

/-- Read on from a place where `j` escaped backslashes have been read, so that the characters are
`j` backslashes ahead of the match. Some match then leaves the characters at a backslash, and the
character it has there is either smaller or, if larger, comes later among the characters or
is larger than the successor of the backslash. -/
theorem exists_match_leaving {r : List Char} {j : Nat} (hw : ∃ c ∈ r, isWildcard c = true)
    (h : 0 < j ∨ r.head? = some '\\') :
    ∃ l d tail r', tokensMatch (tokenize r) (List.replicate l '\\' ++ d :: tail) = true ∧
      List.replicate j '\\' ++ r.takeWhile (!isWildcard ·) =
        List.replicate l '\\' ++ '\\' :: r' ∧
      (d < '\\' ∨ '\\' < d ∧ (d ∈ r' ∨ ']' < d)) := by
  induction r using patternInduction generalizing j with
  | nil => simp at hw
  | last => simp [isWildcard] at hw
  | escaped d rest ih =>
    have htake : ('\\' :: d :: rest).takeWhile (!isWildcard ·) =
        '\\' :: (d :: rest).takeWhile (!isWildcard ·) := rfl
    rw [tokenize_escaped, htake, replicate_append_cons]
    by_cases hd : d = '\\'
    · subst hd
      obtain ⟨c, hc, hcw⟩ := hw
      have hw' : ∃ c ∈ rest, isWildcard c = true := by
        refine ⟨c, ?_, hcw⟩
        have hne : c ≠ '\\' := by
          rintro rfl
          cases hcw
        simpa [hne] using hc
      obtain ⟨l, d, tail, r', hmatch, hr', hside⟩ := ih hw' (Or.inl (Nat.succ_pos j))
      refine ⟨l + 1, d, tail, r', ?_, ?_, hside⟩
      · simpa [List.replicate_succ, tokensMatch] using hmatch
      · have htake' : ('\\' :: rest).takeWhile (!isWildcard ·) =
            '\\' :: rest.takeWhile (!isWildcard ·) := rfl
        rw [htake', replicate_append_cons, ← List.cons_append, ← List.replicate_succ, hr',
          List.replicate_succ, List.cons_append]
    · obtain ⟨tail, htail⟩ := exists_tokensMatch (tokenize rest)
      refine ⟨0, d, tail, _, by simpa [tokensMatch] using htail, rfl, ?_⟩
      rcases lt_or_gt_of_ne hd with hlt | hgt
      · exact Or.inl hlt
      · refine Or.inr ⟨hgt, ?_⟩
        cases hdw : isWildcard d with
        | true =>
          rcases isWildcard_iff.mp hdw with rfl | rfl
          · exact absurd hgt (by decide)
          · exact Or.inr (by decide)
        | false => exact Or.inl (List.mem_append_right _ (by simp [hdw]))
  | wildcard c rest hc _ =>
    obtain ⟨i, rfl⟩ : ∃ i, j = i + 1 := by
      apply exists_succ_of_head h
      intro hhead
      cases hhead
      cases hc
    obtain ⟨tail, htail⟩ := exists_match_wildcard hc rest '\x00'
    exact ⟨0, '\x00', tail, _, htail, by rw [List.replicate_succ]; rfl, Or.inl (by decide)⟩
  | char c rest hc hcw _ =>
    obtain ⟨i, rfl⟩ : ∃ i, j = i + 1 := by
      apply exists_succ_of_head h
      intro hhead
      cases hhead
      exact hc rfl
    obtain ⟨tail, htail⟩ := exists_tokensMatch (tokenize rest)
    refine ⟨0, c, tail, _, ?_, by rw [List.replicate_succ]; rfl, ?_⟩
    · rw [tokenize_char hc hcw]
      simpa [tokensMatch] using htail
    · rcases lt_or_gt_of_ne hc with hlt | hgt
      · exact Or.inl hlt
      · exact Or.inr ⟨hgt, Or.inl (List.mem_append_right _ (by simp [hcw]))⟩

/-! ### Wildcards after a backslash -/

/-- Every wildcard character directly follows a backslash; `prev` is the character before. -/
def guarded (prev : Option Char) : List Char → Bool
  | [] => true
  | c :: rest => (!isWildcard c || prev = some '\\') && guarded (some c) rest

/-- Such a pattern has no two wildcards in a row: the backslash before a wildcard that is not
literal is a literal one. -/
theorem isChain_tokenize {prev : Option Char} {r : List Char} (h : guarded prev r = true) :
    (prev ≠ some '\\' → ∀ t ∈ (tokenize r).head?, t.isChar = true) ∧
      (tokenize r).IsChain fun t t' => t.isChar = true ∨ t'.isChar = true := by
  induction r using patternInduction generalizing prev with
  | nil => exact ⟨fun _ t ht => (by cases ht), List.IsChain.nil⟩
  | last => exact ⟨fun _ t ht => (by cases ht; rfl), List.isChain_singleton _⟩
  | escaped d rest ih =>
    simp only [guarded, Bool.and_eq_true] at h
    rw [tokenize_escaped]
    refine ⟨fun _ t ht => ?_, List.isChain_cons.mpr ⟨fun _ _ => Or.inl rfl, (ih h.2.2).2⟩⟩
    cases ht
    rfl
  | wildcard c rest hc ih =>
    simp only [guarded, hc, Bool.not_true, Bool.false_or, Bool.and_eq_true, decide_eq_true_eq] at h
    obtain ⟨w, _, hw⟩ := tokenize_wildcard hc rest
    have hne : some c ≠ some '\\' := by
      rintro heq
      cases heq
      cases hc
    obtain ⟨hhead, hchain⟩ := ih h.2
    rw [hw]
    exact ⟨fun hprev => absurd h.1 hprev,
      List.isChain_cons.mpr ⟨fun t ht => Or.inr (hhead hne t ht), hchain⟩⟩
  | char c rest hc hcw ih =>
    simp only [guarded, Bool.and_eq_true] at h
    rw [tokenize_char hc hcw]
    refine ⟨fun _ t ht => ?_, List.isChain_cons.mpr ⟨fun _ _ => Or.inl rfl, (ih h.2).2⟩⟩
    cases ht
    rfl

theorem tokenize_append_percent {r : List Char} (h : r.getLast? ≠ some '\\') :
    tokenize (r ++ ['%']) = tokenize r ++ [.many] := by
  have htail : ∀ {c : Char} {rest : List Char}, (c :: rest).getLast? ≠ some '\\' →
      rest.getLast? ≠ some '\\' := by
    intro c rest h hrest
    rw [List.getLast?_cons, hrest] at h
    exact h rfl
  induction r using patternInduction with
  | nil => rfl
  | last => exact absurd rfl h
  | escaped d rest ih =>
    rw [List.cons_append, List.cons_append, tokenize_escaped, tokenize_escaped,
      ih (htail (htail h)), List.cons_append]
  | wildcard c rest hc ih =>
    rcases isWildcard_iff.mp hc with rfl | rfl
    · rw [List.cons_append, tokenize_percent, tokenize_percent, ih (htail h), List.cons_append]
    · rw [List.cons_append, tokenize_underscore, tokenize_underscore, ih (htail h),
        List.cons_append]
  | char c rest hc hcw ih =>
    rw [List.cons_append, tokenize_char hc hcw, tokenize_char hc hcw, ih (htail h),
      List.cons_append]

/-! ### Matches of a pattern that ends in `%` -/

section Convex

variable {l lo v hi : List Char}

theorem tokensMatch_many_nil (s : List Char) : tokensMatch [.many] s = true :=
  tokensMatch_many.mpr ⟨s, [], (List.append_nil s).symm, rfl⟩

/-- Literal characters, at most one more wildcard and `%` match an interval. -/
theorem tokensMatch_between {ws : List Token}
    (hws : ws = [] ∨ ∃ w : Token, w.isChar = false ∧ ws = [w])
    (hlo : tokensMatch (l.map .char ++ (ws ++ [.many])) lo = true)
    (hhi : tokensMatch (l.map .char ++ (ws ++ [.many])) hi = true) (h₁ : lo ≤ v) (h₂ : v ≤ hi) :
    tokensMatch (l.map .char ++ (ws ++ [.many])) v = true := by
  obtain ⟨a, rfl, ha⟩ := tokensMatch_chars.mp hlo
  obtain ⟨b, rfl, _⟩ := tokensMatch_chars.mp hhi
  obtain ⟨s, rfl⟩ := LexOrder.prefix_of_between (List.prefix_append l a) (List.prefix_append l b)
    h₁ h₂
  refine tokensMatch_chars.mpr ⟨s, rfl, ?_⟩
  rcases hws with rfl | ⟨w, hw, rfl⟩
  · exact tokensMatch_many_nil s
  cases w with
  | char c => cases hw
  | many => exact tokensMatch_many.mpr ⟨[], s, rfl, tokensMatch_many_nil s⟩
  | one =>
    -- only the prefix itself is missing, and it lies below all of them
    obtain ⟨x, a', rfl, _⟩ := tokensMatch_one.mp ha
    cases s with
    | nil =>
      rw [List.append_nil] at h₁
      exact absurd h₁ (LexOrder.lt_append_cons l x a').not_ge
    | cons y s => exact tokensMatch_one.mpr ⟨y, s, rfl, tokensMatch_many_nil s⟩

/-- If a literal character follows the first wildcard, some string between two matches is none. -/
theorem exists_between_not_match (l : List Char) {w : Token} (hw : w.isChar = false) (m : Char)
    (ts : List Token) : ∃ lo v hi, lo ≤ v ∧ v ≤ hi ∧
      tokensMatch (l.map .char ++ w :: .char m :: ts) lo = true ∧
      tokensMatch (l.map .char ++ w :: .char m :: ts) hi = true ∧
      tokensMatch (l.map .char ++ w :: .char m :: ts) v = false := by
  obtain ⟨s, hs⟩ := exists_tokensMatch (.char m :: ts)
  obtain ⟨b, hbm, hb₀, hb₃⟩ : ∃ b : Char, b ≠ m ∧ '\x00' < b ∧ b < '\x03' := by
    by_cases hm : m = '\x01'
    · exact ⟨'\x02', by rw [hm]; decide, by decide, by decide⟩
    · exact ⟨'\x01', Ne.symm hm, by decide, by decide⟩
  have hmatch : ∀ x, tokensMatch (l.map .char ++ w :: .char m :: ts) (l ++ x :: s) = true := by
    intro x
    refine tokensMatch_chars.mpr ⟨x :: s, rfl, ?_⟩
    cases w with
    | char c => cases hw
    | one => exact tokensMatch_one.mpr ⟨x, s, rfl, hs⟩
    | many => exact tokensMatch_many.mpr ⟨[x], s, rfl, hs⟩
  refine ⟨l ++ '\x00' :: s, l ++ [b], l ++ '\x03' :: s, (LexOrder.append_cons_lt l hb₀ _ _).le,
    (LexOrder.append_cons_lt l hb₃ _ _).le, hmatch _, hmatch _, ?_⟩
  rw [← Bool.not_eq_true, tokensMatch_chars]
  rintro ⟨s', hs', hmatch'⟩
  obtain rfl := List.append_cancel_left hs'
  cases w with
  | char c => cases hw
  | one =>
    obtain ⟨x, s'', hx, h⟩ := tokensMatch_one.mp hmatch'
    cases hx
    cases h
  | many =>
    obtain ⟨a, s'', ha, h⟩ := tokensMatch_many.mp hmatch'
    cases s'' with
    | nil => cases h
    | cons y s'' =>
      simp only [tokensMatch, Bool.and_eq_true, beq_iff_eq] at h
      have hy : y ∈ [b] := by rw [ha]; simp
      exact hbm ((List.mem_singleton.mp hy).symm.trans h.1)

end Convex

end PredicateTransfer.Pruning
