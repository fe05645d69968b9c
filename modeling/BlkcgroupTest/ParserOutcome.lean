import BlkcgroupTest.Parser

/-!
# blkcgroup test: what `parse_experiment` returns and raises

`parse_experiment` appends a `;` to its text before `parse_containers` reads it, and
no step of the reader consumes a `;`: `lstrip` keeps it, `parse_integer` and
`parse_name` stop at it, and the loop drops only the `*` before a repeat count and the
`,` it stopped at.  Every text the reader indexes therefore still ends with that
sentinel (`HasSentinel`), so the `IndexError`s the model keeps for `text[0]` and
`text[lth]` never happen.  Each further pass of the loop starts after the `,` it
stopped at, which is the measure `parseContainersLoop` terminates by.

Results:

* `parseExperiment_outcome`: for every string, `parse_experiment` returns a non-empty
  list of containers, or raises the `ValueError` of `int('')` from `parse_integer`, or
  the one of `expect_delim(text, ';')`, and nothing else.
-/

namespace BlkcgroupTest

section ParserOutcome

/-- `text` still ends with the `;` that `parse_experiment` appended. -/
def HasSentinel (text : List Char) : Prop :=
  ∃ pre, text = pre ++ [';']

/-- The `ValueError` of `int('')`, which `parse_integer` raises on an empty digit run. -/
def emptyIntError : PyError :=
  .valueError "invalid literal for int() with base 10: ''".toList

/-- Dropping characters other than `;` keeps the sentinel. -/
theorem HasSentinel.of_append {u r : List Char} (h : HasSentinel (u ++ r)) (hu : ';' ∉ u) :
    HasSentinel r := by
  induction u with
  | nil =>
      simpa using h
  | cons c u ih =>
      obtain ⟨pre, hp⟩ := h
      cases pre with
      | nil =>
          simp only [List.nil_append, List.cons_append, List.cons.injEq] at hp
          exact absurd (hp.1 ▸ List.mem_cons_self _ _) hu
      | cons d pre =>
          simp only [List.cons_append, List.cons.injEq] at hp
          exact ih ⟨pre, hp.2⟩ fun h' => hu (List.mem_cons_of_mem c h')

theorem HasSentinel.ne_nil {text : List Char} (h : HasSentinel text) : text ≠ [] := by
  obtain ⟨pre, rfl⟩ := h
  simp

theorem HasSentinel.semi_mem {text : List Char} (h : HasSentinel text) : ';' ∈ text := by
  obtain ⟨pre, rfl⟩ := h
  simp

theorem lstrip_hasSentinel {text : List Char} (h : HasSentinel text) :
    HasSentinel (lstrip text) := by
  rw [← List.takeWhile_append_dropWhile isSpace text] at h
  refine h.of_append fun hs => ?_
  have := List.mem_takeWhile_imp hs
  exact absurd this (by decide)

/-- `parse_integer` on a text with the sentinel: a number and the sentinel still there,
or the `ValueError` of `int('')`. -/
theorem parseInteger_hasSentinel {text : List Char} (h : HasSentinel text) :
    (∃ n rest, parseInteger text = .ok (n, rest) ∧ HasSentinel rest) ∨
      parseInteger text = .error emptyIntError := by
  cases hp : parseInteger text with
  | error e =>
      right
      simp only [parseInteger] at hp
      split at hp <;> cases hp
      rfl
  | ok p =>
      obtain ⟨n, rest⟩ := p
      obtain ⟨ds, rfl, -, hds, -, -⟩ := parseInteger_eq_ok hp
      exact .inl ⟨n, rest, rfl, h.of_append fun hs => absurd (hds _ hs) (by decide)⟩

/-- `parse_name` always finds the sentinel's delimiter. -/
theorem parseName_hasSentinel {text : List Char} (h : HasSentinel text) :
    ∃ w rest, parseName text = .ok (w, rest) ∧ HasSentinel rest := by
  cases hp : parseName text with
  | error e =>
      exact absurd (parseName_eq_error hp ';' h.semi_mem) (by decide)
  | ok p =>
      obtain ⟨w, rest⟩ := p
      obtain ⟨rfl, hw, -⟩ := parseName_eq_ok hp
      exact ⟨w, rest, rfl, h.of_append fun hs => absurd (hw _ hs) (by decide)⟩

/-- One pass of the loop keeps the sentinel, or raises the `ValueError` of `int('')`. -/
theorem parseContainer_hasSentinel {text : List Char} (h : HasSentinel text) :
    (∃ c rest, parseContainer text = .ok (c, rest) ∧ HasSentinel rest) ∨
      parseContainer text = .error emptyIntError := by
  rcases parseInteger_hasSentinel (lstrip_hasSentinel h) with ⟨dtf, t1, h1, s1⟩ | h1
  · obtain ⟨_, t2, h2, s2⟩ := parseName_hasSentinel s1
    obtain ⟨w, t3, h3, s3⟩ := parseName_hasSentinel (lstrip_hasSentinel s2)
    by_cases hw : w = []
    · left
      exact ⟨⟨dtf, none, 0⟩, t3, by simp [parseContainer, h1, h2, h3, hw, bind, Except.bind,
        pure, Except.pure], s3⟩
    obtain ⟨c, r, rfl⟩ := List.exists_cons_of_ne_nil s3.ne_nil
    by_cases hc : c = '*'
    · subst hc
      have sr : HasSentinel r := @HasSentinel.of_append ['*'] r s3 (by decide)
      rcases parseInteger_hasSentinel sr with ⟨rep, t4, h4, s4⟩ | h4
      · left
        exact ⟨⟨dtf, some w, rep⟩, _, by simp [parseContainer, h1, h2, h3, hw, h4, pyHead, bind,
          Except.bind, pure, Except.pure], lstrip_hasSentinel s4⟩
      · right
        simp [parseContainer, h1, h2, h3, hw, h4, pyHead, bind, Except.bind, pure, Except.pure]
    · left
      exact ⟨⟨dtf, some w, 1⟩, _, by simp [parseContainer, h1, h2, h3, hw, hc, pyHead, bind,
        Except.bind, pure, Except.pure], lstrip_hasSentinel s3⟩
  · right
    simp [parseContainer, h1, bind, Except.bind]

/-- The loop of `parse_containers` from a text with the sentinel adds at least one
container and stops in front of the sentinel, or raises the `ValueError` of `int('')`. -/
theorem parseContainersLoop_hasSentinel (acc : List Container) {text : List Char}
    (h : HasSentinel text) :
    (∃ cs rest, parseContainersLoop acc text = .ok (acc ++ cs, rest) ∧ cs ≠ [] ∧
        HasSentinel rest) ∨
      parseContainersLoop acc text = .error emptyIntError := by
  generalize hn : text.length = n
  induction n using Nat.strong_induction_on generalizing acc text with
  | h n ih =>
      rcases parseContainer_hasSentinel h with ⟨c, rest, hc, hs⟩ | hc
      · obtain ⟨ch, r, rfl⟩ := List.exists_cons_of_ne_nil hs.ne_nil
        by_cases hch : ch = ','
        · subst hch
          have hlt : r.length < n := by
            have := (parseContainer_suffix hc).length_le
            simp only [List.length_cons] at this
            omega
          rw [parseContainersLoop_comma hc]
          rcases ih _ hlt (acc ++ [c]) (@HasSentinel.of_append [','] r hs (by decide)) rfl with
            ⟨cs, rest, hl, -, hr⟩ | hl
          · exact .inl ⟨c :: cs, rest, by simpa using hl, List.cons_ne_nil _ _, hr⟩
          · exact .inr hl
        · exact .inl ⟨[c], ch :: r, parseContainersLoop_stop hc hch, List.cons_ne_nil _ _, hs⟩
      · exact .inr (parseContainersLoop_error hc)

/-- `parse_experiment` returns a non-empty list of containers, or raises the
`ValueError` of `int('')` or the one of `expect_delim(text, ';')`: never an
`IndexError`. -/
theorem parseExperiment_outcome (text : List Char) :
    (∃ cs, parseExperiment text = .ok cs ∧ cs ≠ []) ∨
      parseExperiment text = .error emptyIntError ∨
      ∃ rest, parseExperiment text =
        .error (.valueError ("missing ".toList ++ [';'] ++ " at ".toList ++ rest)) := by
  rcases @parseContainersLoop_hasSentinel [] (text ++ [';']) ⟨text, rfl⟩ with
    ⟨cs, rest, hl, hne, hs⟩ | hl
  · obtain ⟨ch, r, rfl⟩ := List.exists_cons_of_ne_nil hs.ne_nil
    by_cases hch : ch = ';'
    · subst hch
      exact .inl ⟨cs, by simp [parseExperiment, parseContainers, hl, expectDelim_cons, bind,
        Except.bind, pure, Except.pure], hne⟩
    · exact .inr (.inr ⟨ch :: r, by simp [parseExperiment, parseContainers, hl,
        expectDelim_cons, hch, bind, Except.bind]⟩)
  · exact .inr (.inl (by simp [parseExperiment, parseContainers, hl, bind, Except.bind]))

end ParserOutcome

section Containers

/-- A container of one pass has no worker and `worker_repeat` `0`, or a worker and
`worker_repeat` `1` unless the text had a `*` for its repeat count. -/
theorem parseContainer_workerRepeat {text rest : List Char} {c : Container}
    (h : parseContainer text = .ok (c, rest)) :
    (c.worker = none ∧ c.workerRepeat = 0) ∨
      (c.worker ≠ none ∧ (c.workerRepeat = 1 ∨ '*' ∈ text)) := by
  obtain ⟨_, _, _, _, _, t3, -, -, -, s3, hc⟩ := parseContainer_cases h
  rcases hc with ⟨-, rfl, -⟩ | ⟨r, _, _, -, rfl, -, rfl, -⟩ | ⟨_, _, -, -, -, rfl, -⟩
  · exact .inl ⟨rfl, rfl⟩
  · exact .inr ⟨by simp, .inr (s3.subset (List.mem_cons_self _ _))⟩
  · exact .inr ⟨by simp, .inl rfl⟩

/-- `parse_integer` reads `0` only from a run of digits that starts with `0`. -/
theorem parseInteger_zero {text rest : List Char} (h : parseInteger text = .ok (0, rest)) :
    text.head? = some '0' := by
  unfold parseInteger at h
  dsimp only at h
  cases text with
  | nil => simp at h
  | cons d text =>
      by_cases hd : d.isDigit = true
      · simp only [List.takeWhile_cons, hd, if_true, List.cons_ne_nil, if_false,
          Except.ok.injEq, Prod.mk.injEq] at h
        rw [digitsValue_eq_zero hd h.1]
        rfl
      · simp [List.takeWhile_cons, hd] at h

/-- A container with a worker has `worker_repeat` at least `1` unless its text has a
`*0`. -/
theorem parseContainer_workerRepeat_pos {text rest : List Char} {c : Container}
    (h : parseContainer text = .ok (c, rest)) (hw : c.worker ≠ none) :
    1 ≤ c.workerRepeat ∨ "*0".toList <:+: text := by
  obtain ⟨_, _, _, _, _, t3, -, -, -, s3, hc⟩ := parseContainer_cases h
  rcases hc with ⟨-, rfl, -⟩ | ⟨r, rep, _, -, rfl, hr, rfl, -⟩ | ⟨_, _, -, -, -, rfl, -⟩
  · exact absurd rfl hw
  · rcases Nat.eq_zero_or_pos rep with rfl | hpos
    · obtain ⟨r', rfl⟩ : ∃ r', r = '0' :: r' := by
        have h0 := parseInteger_zero hr
        cases r with
        | nil => cases h0
        | cons d r' => exact ⟨r', by rw [Option.some.inj h0]⟩
      exact .inr ((List.prefix_append "*0".toList r').isInfix.trans s3.isInfix)
    · exact .inl hpos
  · exact .inl le_rfl

/-- Every container the loop returns was there before or was read by one pass over a
suffix of the text. -/
theorem parseContainersLoop_mem {acc cs : List Container} {text rest : List Char}
    (h : parseContainersLoop acc text = .ok (cs, rest)) :
    ∀ c ∈ cs, c ∈ acc ∨ ∃ t r, t <:+ text ∧ parseContainer t = .ok (c, r) := by
  induction acc, text using parseContainersLoop.induct with
  | case1 acc text e hc =>
      rw [parseContainersLoop_error hc] at h
      cases h
  | case2 acc text c more hc _ ih =>
      rw [parseContainersLoop_comma hc] at h
      intro c' hc'
      rcases ih h c' hc' with h' | ⟨t, r, ht, hr⟩
      · rcases List.mem_append.1 h' with h' | h'
        · exact .inl h'
        · exact .inr ⟨text, _, List.suffix_refl _, List.mem_singleton.1 h' ▸ hc⟩
      · exact .inr ⟨t, r, ht.trans ((List.suffix_cons _ _).trans (parseContainer_suffix hc)), hr⟩
  | case3 acc text c _ hc =>
      rw [parseContainersLoop_nil hc] at h
      cases h
  | case4 acc text c rest' hne hc hnil =>
      obtain ⟨ch, r, rfl⟩ := List.exists_cons_of_ne_nil hnil
      rw [parseContainersLoop_stop hc fun h' => hne r (h' ▸ rfl)] at h
      cases h
      intro c' hc'
      rcases List.mem_append.1 hc' with h' | h'
      · exact .inl h'
      · exact .inr ⟨text, _, List.suffix_refl _, List.mem_singleton.1 h' ▸ hc⟩

/-- Every container `parse_experiment` returns was read by one pass over a suffix of
the text with its sentinel. -/
theorem parseExperiment_mem {text : List Char} {cs : List Container}
    (h : parseExperiment text = .ok cs) :
    ∀ c ∈ cs, ∃ t r, t <:+ text ++ [';'] ∧ parseContainer t = .ok (c, r) := by
  simp only [parseExperiment, parseContainers, bind, Except.bind] at h
  split at h
  · cases h
  rename_i p hl
  split at h
  · cases h
  cases h
  intro c hc
  simpa using parseContainersLoop_mem hl c hc

/-- `parse_experiment` never returns an empty list of containers. -/
theorem parseExperiment_ne_nil {text : List Char} {cs : List Container}
    (h : parseExperiment text = .ok cs) : cs ≠ [] := by
  rcases @parseContainersLoop_hasSentinel [] (text ++ [';']) ⟨text, rfl⟩ with
    ⟨cs', rest, hl, hne, -⟩ | hl
  · simp only [parseExperiment, parseContainers, hl, bind, Except.bind] at h
    split at h
    · cases h
    · cases h
      simpa using hne
  · simp [parseExperiment, parseContainers, hl, bind, Except.bind] at h

/-- A worker `parse_experiment` returns is a non-empty word. -/
theorem parseExperiment_worker_ne_nil {text : List Char} {cs : List Container}
    (h : parseExperiment text = .ok cs) : ∀ c ∈ cs, c.worker ≠ some [] := by
  intro c hc
  obtain ⟨_, _, -, hp⟩ := parseExperiment_mem h c hc
  obtain ⟨_, _, _, _, _, _, -, -, -, -, hc⟩ := parseContainer_cases hp
  rcases hc with ⟨-, rfl, -⟩ | ⟨_, _, _, hw, -, -, rfl, -⟩ | ⟨_, _, hw, -, -, rfl, -⟩
  · simp
  · simpa using hw
  · simpa using hw

end Containers

end BlkcgroupTest
