import BlkcgroupTest.PyText

/-!
# blkcgroup test: the experiment parser

`parse_experiment` turns one experiment string such as `"500 rdseq*2, 500 wrseq.sync"`
into the list of container dicts the rest of the harness walks.  This module is the
faithful model of the five functions it is made of:

* `expectDelim`, `parseInteger`, `parseName`: `expect_delim`, `parse_integer` (a digit
  run read by `re.match('\d*', ...)` and `int()`), `parse_name` (a word up to one of
  ` ,*%();`);
* `parseContainer`: one iteration of the `while True` loop of `parse_containers`,
  up to the test `text[0] != ','`;
* `parseContainersLoop` and `parseContainers`: the loop itself, with its `containers`
  accumulator, and `parseExperiment`, which appends the `;` sentinel and checks it.

Indexing an empty string (`text[0]`, `text[lth]`) raises `IndexError`, which the model
keeps as `PyError.indexError`.  Each function has one inversion lemma that says what a
successful or a failing call read; the automaton of `ParserScan` and the laws of
`ParserLaws` use these and never unfold the definitions again.
-/

namespace BlkcgroupTest

/-- One container dict built by `parse_containers`: `'dtf'`, the optional `'worker'`
and `'worker_repeat'`. -/
structure Container where
  dtf : Nat
  worker : Option (List Char)
  workerRepeat : Nat
deriving DecidableEq, Repr

section Parser

/-- The characters at which `parse_name` stops. -/
def isDelim (c : Char) : Bool :=
  decide (c ∈ " ,*%();".toList)

/-- `text[0]`. -/
def pyHead : List Char → Except PyError Char
  | [] => .error .indexError
  | c :: _ => .ok c

/-- `expect_delim(text, delim)`. -/
def expectDelim (text : List Char) (delim : Char) : Except PyError (List Char) := do
  let c ← pyHead text
  if c ≠ delim then
    throw (.valueError ("missing ".toList ++ [delim] ++ " at ".toList ++ text))
  return text.tail

/-- `expect_delim` on a non-empty text. -/
theorem expectDelim_cons (c d : Char) (r : List Char) :
    expectDelim (c :: r) d =
      if c = d then .ok r
      else .error (.valueError ("missing ".toList ++ [d] ++ " at ".toList ++ c :: r)) := by
  by_cases h : c = d <;>
    simp [expectDelim, pyHead, h, bind, Except.bind, pure, Except.pure, throw, throwThe,
      MonadExceptOf.throw]

/-- `parse_integer(text)`: `int()` of the leading digit run, and the text after it. -/
def parseInteger (text : List Char) : Except PyError (Nat × List Char) :=
  let value := text.takeWhile Char.isDigit
  if value = [] then
    .error (.valueError "invalid literal for int() with base 10: ''".toList)
  else
    .ok (digitsValue value, text.drop value.length)

/-- `parse_name(text)`: the word before the first delimiter, and the text from it. -/
def parseName : List Char → Except PyError (List Char × List Char)
  | [] => .error .indexError
  | c :: cs =>
      if isDelim c then .ok ([], c :: cs)
      else (parseName cs).map (fun r => (c :: r.1, r.2))

/-- `parse_name` reads a word free of delimiters up to the delimiter after it. -/
theorem parseName_append {w : List Char} (hw : ∀ c ∈ w, isDelim c = false)
    {d : Char} (hd : isDelim d = true) (r : List Char) :
    parseName (w ++ d :: r) = .ok (w, d :: r) := by
  induction w with
  | nil =>
      simp [parseName, hd]
  | cons c w ih =>
      simp [parseName, hw c (by simp), ih (fun x hx => hw x (by simp [hx])), Except.map]

/-- What a successful `parse_name` read: a word free of delimiters, up to a delimiter. -/
theorem parseName_eq_ok {text w rest : List Char} (h : parseName text = .ok (w, rest)) :
    text = w ++ rest ∧ (∀ c ∈ w, isDelim c = false) ∧
      ∃ d r, rest = d :: r ∧ isDelim d = true := by
  induction text generalizing w with
  | nil =>
      simp [parseName] at h
  | cons c cs ih =>
      simp only [parseName] at h
      split at h
      · cases h
        exact ⟨rfl, by simp, c, cs, rfl, ‹_›⟩
      · rename_i hc
        cases hp : parseName cs with
        | error e =>
            simp [hp, Except.map] at h
        | ok r =>
            obtain ⟨r1, r2⟩ := r
            simp only [hp, Except.map, Except.ok.injEq, Prod.mk.injEq] at h
            obtain ⟨rfl, rfl⟩ := h
            obtain ⟨h1, h2, h3⟩ := ih hp
            refine ⟨by simp [h1], ?_, h3⟩
            simp only [List.mem_cons]
            rintro x (rfl | hx)
            · simpa using hc
            · exact h2 x hx

/-- `parse_name` fails only when no delimiter is left. -/
theorem parseName_eq_error {text : List Char} {e : PyError} (h : parseName text = .error e) :
    ∀ c ∈ text, isDelim c = false := by
  induction text generalizing e with
  | nil =>
      simp
  | cons c cs ih =>
      simp only [parseName] at h
      split at h
      · cases h
      · rename_i hc
        cases hp : parseName cs with
        | error e' =>
            simp only [List.mem_cons]
            rintro x (rfl | hx)
            · simpa using hc
            · exact ih hp x hx
        | ok r =>
            simp [hp, Except.map] at h

/-- `parse_integer` reads a non-empty digit run up to a non-digit. -/
theorem parseInteger_append {ds : List Char} (hne : ds ≠ [])
    (hd : ∀ c ∈ ds, c.isDigit = true) {rest : List Char}
    (hr : ∀ c r, rest = c :: r → c.isDigit = false) :
    parseInteger (ds ++ rest) = .ok (digitsValue ds, rest) := by
  have htake : (ds ++ rest).takeWhile Char.isDigit = ds := by
    rw [List.takeWhile_append_of_pos hd]
    cases rest with
    | nil =>
        simp
    | cons c r =>
        simp [hr c r rfl]
  simp [parseInteger, htake, hne]

/-- What a successful `parse_integer` read: a non-empty digit run, up to a non-digit. -/
theorem parseInteger_eq_ok {text rest : List Char} {n : Nat}
    (h : parseInteger text = .ok (n, rest)) :
    ∃ ds, text = ds ++ rest ∧ ds ≠ [] ∧ (∀ c ∈ ds, c.isDigit = true) ∧
      n = digitsValue ds ∧ ∀ c r, rest = c :: r → c.isDigit = false := by
  simp only [parseInteger] at h
  split at h
  · cases h
  · rename_i hne
    cases h
    have hsplit := List.takeWhile_append_dropWhile Char.isDigit text
    have hdrop : text.drop (text.takeWhile Char.isDigit).length =
        text.dropWhile Char.isDigit := by
      have := List.drop_left (text.takeWhile Char.isDigit) (text.dropWhile Char.isDigit)
      rwa [hsplit] at this
    refine ⟨_, by rw [hdrop, hsplit], hne, fun c hc => List.mem_takeWhile_imp hc, rfl, ?_⟩
    intro c r hcr
    rw [hdrop] at hcr
    have := List.head_dropWhile_not Char.isDigit text (by simp [hcr])
    simpa [hcr] using this

/-- `parse_integer` fails exactly when the text does not start with a digit. -/
theorem parseInteger_eq_error {text : List Char} {e : PyError}
    (h : parseInteger text = .error e) :
    ∀ c r, text = c :: r → c.isDigit = false := by
  rintro c r rfl
  simp only [parseInteger] at h
  split at h
  · rename_i hnil
    by_contra hc
    simp [Bool.not_eq_false] at hc
    simp [hc] at hnil
  · cases h

/-- One iteration of the loop of `parse_containers`, up to the test for `,`:
weight, options word (discarded), worker token and optional `*repeat`. -/
def parseContainer (text : List Char) : Except PyError (Container × List Char) := do
  let (dtf, text) ← parseInteger (lstrip text)
  let (_options, text) ← parseName text
  let (worker, text) ← parseName (lstrip text)
  if worker = [] then
    return (⟨dtf, none, 0⟩, text)
  let c ← pyHead text
  let (rep, text) ← if c = '*' then parseInteger text.tail else pure (1, text)
  return (⟨dtf, some worker, rep⟩, lstrip text)

/-- `parse_name` returns a suffix of its argument. -/
theorem parseName_suffix {text w rest : List Char}
    (h : parseName text = .ok (w, rest)) : rest <:+ text := by
  induction text generalizing w with
  | nil =>
      simp [parseName] at h
  | cons c cs ih =>
      simp only [parseName] at h
      split at h
      · cases h
        exact List.suffix_refl _
      · cases hp : parseName cs with
        | error e =>
            simp [hp, Except.map] at h
        | ok r =>
            obtain ⟨r1, r2⟩ := r
            simp only [hp, Except.map, Except.ok.injEq, Prod.mk.injEq] at h
            rw [h.2] at hp
            exact (ih hp).trans (List.suffix_cons c cs)

/-- `parse_integer` returns a suffix of its argument. -/
theorem parseInteger_suffix {text rest : List Char} {n : Nat}
    (h : parseInteger text = .ok (n, rest)) : rest <:+ text := by
  simp only [parseInteger] at h
  split at h
  · cases h
  · cases h
    exact List.drop_suffix _ _

/-- What one pass of the loop read: the weight, the options word and the worker token,
then either no worker, or a worker with `*` and its repeat count, or a worker alone. -/
theorem parseContainer_cases {text rest : List Char} {c : Container}
    (h : parseContainer text = .ok (c, rest)) :
    ∃ dtf t1 o t2 w t3, parseInteger (lstrip text) = .ok (dtf, t1) ∧
      parseName t1 = .ok (o, t2) ∧ parseName (lstrip t2) = .ok (w, t3) ∧ t3 <:+ text ∧
      ((w = [] ∧ c = ⟨dtf, none, 0⟩ ∧ rest = t3) ∨
        (∃ r rep t4, w ≠ [] ∧ t3 = '*' :: r ∧ parseInteger r = .ok (rep, t4) ∧
          c = ⟨dtf, some w, rep⟩ ∧ rest = lstrip t4) ∨
        (∃ ch r, w ≠ [] ∧ t3 = ch :: r ∧ ch ≠ '*' ∧ c = ⟨dtf, some w, 1⟩ ∧
          rest = lstrip t3)) := by
  simp only [parseContainer, bind, Except.bind, pure, Except.pure] at h
  split at h
  · cases h
  rename_i p1 h1
  split at h
  · cases h
  rename_i p2 h2
  split at h
  · cases h
  rename_i p3 h3
  refine ⟨p1.1, p1.2, p2.1, p2.2, p3.1, p3.2, h1, h2, h3, (parseName_suffix h3).trans
    ((lstrip_suffix _).trans ((parseName_suffix h2).trans
      ((parseInteger_suffix h1).trans (lstrip_suffix text)))), ?_⟩
  split at h
  · cases h
    exact .inl ⟨‹_›, rfl, rfl⟩
  rename_i hw
  obtain ⟨ch, r, hr⟩ : ∃ ch r, p3.2 = ch :: r := by
    cases hp : p3.2 with
    | nil => simp [hp, pyHead] at h
    | cons ch r => exact ⟨ch, r, rfl⟩
  simp only [hr, pyHead] at h
  split at h
  · rename_i hstar
    subst hstar
    split at h
    · cases h
    rename_i p4 h4
    cases h
    exact .inr (.inl ⟨r, p4.1, p4.2, hw, hr, h4, rfl, rfl⟩)
  · cases h
    exact .inr (.inr ⟨ch, r, hw, hr, ‹_›, rfl, hr ▸ rfl⟩)

/-- What remains after one clause is a suffix of the text. -/
theorem parseContainer_suffix {text rest : List Char} {c : Container}
    (h : parseContainer text = .ok (c, rest)) : rest <:+ text := by
  obtain ⟨_, _, _, _, _, t3, -, -, -, s3, hc⟩ := parseContainer_cases h
  rcases hc with ⟨-, -, rfl⟩ | ⟨r, _, t4, -, rfl, h4, -, rfl⟩ | ⟨_, _, -, -, -, -, rfl⟩
  · exact s3
  · exact (lstrip_suffix _).trans ((parseInteger_suffix h4).trans ((List.suffix_cons _ _).trans s3))
  · exact (lstrip_suffix _).trans s3

/-- The `while True` loop of `parse_containers`, with its accumulator `containers`. -/
def parseContainersLoop (containers : List Container) (text : List Char) :
    Except PyError (List Container × List Char) :=
  match h : parseContainer text with
  | .error e => .error e
  | .ok (container, ',' :: more) =>
      have : more.length < text.length := by
        have := (parseContainer_suffix h).length_le
        simp only [List.length_cons] at this
        omega
      parseContainersLoop (containers ++ [container]) more
  | .ok (container, rest) =>
      if rest = [] then .error .indexError else .ok (containers ++ [container], rest)
termination_by text.length

theorem parseContainersLoop_comma {acc : List Container} {text more : List Char}
    {c : Container} (h : parseContainer text = .ok (c, ',' :: more)) :
    parseContainersLoop acc text = parseContainersLoop (acc ++ [c]) more := by
  rw [parseContainersLoop]
  split <;> simp_all

theorem parseContainersLoop_stop {acc : List Container} {text r : List Char}
    {c : Container} {ch : Char} (h : parseContainer text = .ok (c, ch :: r)) (hc : ch ≠ ',') :
    parseContainersLoop acc text = .ok (acc ++ [c], ch :: r) := by
  rw [parseContainersLoop]
  split
  · simp_all
  · rename_i hh
    rw [h] at hh
    cases hh
    exact absurd rfl hc
  · simp_all

theorem parseContainersLoop_nil {acc : List Container} {text : List Char} {c : Container}
    (h : parseContainer text = .ok (c, [])) :
    parseContainersLoop acc text = .error .indexError := by
  rw [parseContainersLoop]
  split <;> simp_all

theorem parseContainersLoop_error {acc : List Container} {text : List Char} {e : PyError}
    (h : parseContainer text = .error e) :
    parseContainersLoop acc text = .error e := by
  rw [parseContainersLoop]
  split <;> simp_all

/-- `parse_containers(text)`. -/
def parseContainers (text : List Char) : Except PyError (List Container × List Char) :=
  parseContainersLoop [] text

/-- `parse_experiment(text)`: parse `text + ';'` and require the `;` after the clauses. -/
def parseExperiment (text : List Char) : Except PyError (List Container) := do
  let (exper, text) ← parseContainers (text ++ [';'])
  let _ ← expectDelim text ';'
  return exper

end Parser

end BlkcgroupTest
