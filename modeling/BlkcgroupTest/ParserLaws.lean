import BlkcgroupTest.ParserScan

/-!
# blkcgroup test: laws of the experiment parser

Four properties of `parse_experiment` over every input string, all proved through the
reader of `ParserScan`:

* **Text after the terminator.**  Once the reader has seen a `;` it stops, so
  `parse_experiment (p + ';' + t)` is `parse_experiment p` whatever `t` is
  (`scanExperiment_semicolon_append`).  In particular `"10;20"` is accepted as `"10"`,
  although the header grammar admits no text after the `;`
  (`parseExperiment_ignores_text_after_semicolon`).
* **Round trip.**  Clauses `w` and `w t*r`, joined by `", "`, with or without a final
  `;`, parse back to exactly the containers they print (`parseExperiment_renderClauses`).
* **Joining.**  For `a` without `;`, `parse_experiment (a + ',' + b)` is accepted exactly
  when `a` and `b` are, with the containers of `a` followed by those of `b`
  (`parseExperiment_comma_join`): the reader only appends to the containers it has
  closed, and where `;` would end `a`, `,` closes the same clause.
* **Whitespace.**  A whitespace run that begins with a space can be replaced by any
  other such run, and any whitespace can be put after a `,` or at the start, without
  changing the result (`parseExperiment_whitespace_runs`).  A space between a worker
  token and its `*` is not such a run: it makes the string rejected
  (`parseExperiment_space_before_star`).
-/

namespace BlkcgroupTest

section ParserLaws

/-- A state that skips whitespace. -/
def Skips (s : Scan) : Prop :=
  ∀ c, isSpace c = true → scanStep s c = s

theorem scanFrom_skips {s : Scan} (hs : Skips s) {w : List Char}
    (hw : ∀ c ∈ w, isSpace c = true) : scanFrom s w = s :=
  scanFrom_fixed (fun c hc => hs c (hw c hc))

/-- After a space the reader skips whitespace, in every state. -/
theorem skips_scanStep_space (q : Scan) : Skips (scanStep q ' ') := by
  have hs : isSpace ' ' = true := by decide
  have hd : isDelim ' ' = true := by decide
  obtain ⟨done, ph⟩ := q
  intro c hc
  cases ph <;> simp [scanStep, optionsStep, preWorkerStep, postWorkerStep, hc, hs, hd]

/-- After a `,` the reader skips whitespace, in every state. -/
theorem skips_scanStep_comma (q : Scan) : Skips (scanStep q ',') := by
  have hs : isSpace ',' = false := by decide
  have hd : isDelim ',' = true := by decide
  obtain ⟨done, ph⟩ := q
  intro c hc
  cases ph <;>
    simp [scanStep, optionsStep, preWorkerStep, postWorkerStep, closeClause, hc, hs, hd]

/-- After a `;` the reader has stopped, in every state. -/
theorem scanStep_semicolon_stops (q : Scan) (c : Char) :
    scanStep (scanStep q ';') c = scanStep q ';' := by
  have hs : isSpace ';' = false := by decide
  have hd : isDelim ';' = true := by decide
  obtain ⟨done, ph⟩ := q
  cases ph <;> simp [scanStep, optionsStep, preWorkerStep, postWorkerStep, closeClause, hs, hd]

theorem scanFrom_semicolon_stops (q : Scan) (t : List Char) :
    scanFrom (scanStep q ';') t = scanStep q ';' :=
  scanFrom_fixed (fun c _ => scanStep_semicolon_stops q c)

/-- Nothing after the first `;` is read. -/
theorem scanExperiment_semicolon_append (p t : List Char) :
    scanExperiment (p ++ ';' :: t) = scanExperiment p := by
  simp only [scanExperiment, List.append_assoc, List.cons_append, scanFrom_append,
    scanFrom_cons, scanFrom_nil, scanFrom_semicolon_stops, scanStep_semicolon_stops]

/-- `parse_experiment` ignores whatever follows the first `;`: `"10;" + t` is `[10]`
for every `t`. -/
theorem parseExperiment_ignores_text_after_semicolon (t : List Char) :
    parseExperiment ("10;".toList ++ t) = .ok [⟨10, none, 0⟩] := by
  rw [parseExperiment_eq_ok_iff]
  exact (scanExperiment_semicolon_append "10".toList t).trans (by decide)

end ParserLaws

section RoundTrip

/-- A worker token as a clause prints it: non-empty, with neither whitespace nor a
delimiter. -/
structure Token where
  chars : List Char
  ne_nil : chars ≠ []
  plain : ∀ c ∈ chars, isSpace c = false ∧ isDelim c = false

/-- One clause: a weight and, optionally, a worker token with its repeat count. -/
structure Clause where
  weight : Nat
  worker : Option (Token × Nat)

/-- The container a clause denotes. -/
def Clause.toContainer (cl : Clause) : Container :=
  match cl.worker with
  | none => ⟨cl.weight, none, 0⟩
  | some (t, r) => ⟨cl.weight, some t.chars, r⟩

/-- The clause `w` or `w t*r`. -/
def Clause.render (cl : Clause) : List Char :=
  match cl.worker with
  | none => decimal cl.weight
  | some (t, r) => decimal cl.weight ++ ' ' :: t.chars ++ '*' :: decimal r

/-- The clauses joined by `", "`. -/
def renderClauses : List Clause → List Char
  | [] => []
  | [cl] => cl.render
  | cl :: cls => cl.render ++ ',' :: ' ' :: renderClauses cls

/-- One printed clause, followed by `,` or `;`, is read as the container it denotes. -/
theorem scanFrom_render (done : List Container) (cl : Clause) {ch : Char}
    (hch : ch = ',' ∨ ch = ';') (r : List Char) :
    scanFrom ⟨done, .preWeight⟩ (cl.render ++ ch :: r) =
      scanFrom (closeClause done cl.toContainer ch) r := by
  have hdigit : ch.isDigit = false := by rcases hch with rfl | rfl <;> decide
  have hspace : isSpace ch = false := by rcases hch with rfl | rfl <;> decide
  have hdelim : isDelim ch = true := by rcases hch with rfl | rfl <;> decide
  have hstar : ch ≠ '*' := by rcases hch with rfl | rfl <;> decide
  obtain ⟨w, _ | ⟨⟨t, htne, htok⟩, n⟩⟩ := cl
  · simp only [Clause.render, Clause.toContainer]
    rw [scanFrom_append, scanFrom_preWeight_digits (decimal_ne_nil w) (decimal_digits w)]
    simp [scanStep, hdigit, optionsStep, hdelim, preWorkerStep, hspace]
  · obtain ⟨t0, ts, rfl⟩ := List.exists_cons_of_ne_nil htne
    have ht0 := htok t0 (by simp)
    have hblank : scanStep ⟨done, .weight w⟩ ' ' = ⟨done, .preWorker w⟩ := by
      have : isSpace ' ' = true ∧ isDelim ' ' = true ∧ (' ').isDigit = false := by decide
      simp [scanStep, optionsStep, preWorkerStep, this]
    simp only [Clause.render, Clause.toContainer, List.append_assoc, List.cons_append]
    rw [scanFrom_append, scanFrom_preWeight_digits (decimal_ne_nil w) (decimal_digits w),
      digitsValue_decimal, scanFrom_cons, hblank, scanFrom_cons]
    simp only [scanStep, preWorkerStep, ht0.1, ht0.2, Bool.false_eq_true, if_false]
    rw [scanFrom_append, scanFrom_worker_word (fun x hx => (htok x (List.mem_cons_of_mem t0 hx)).2),
      scanFrom_cons]
    simp only [scanStep, if_true, List.singleton_append]
    rw [scanFrom_append, scanFrom_star_digits (decimal_ne_nil n) (decimal_digits n),
      digitsValue_decimal, scanFrom_cons]
    simp [scanStep, hdigit, postWorkerStep, hspace]

/-- Printed clauses followed by `;` are read as the containers they denote. -/
theorem scanFrom_renderClauses (done : List Container) (cls : List Clause) (hne : cls ≠ [])
    (r : List Char) :
    scanFrom ⟨done, .preWeight⟩ (renderClauses cls ++ ';' :: r) =
      ⟨done ++ cls.map Clause.toContainer, .accept⟩ := by
  induction cls generalizing done with
  | nil =>
      contradiction
  | cons cl cls ih =>
      cases cls with
      | nil =>
          simp [renderClauses, scanFrom_render done cl (Or.inr rfl), closeClause]
      | cons cl2 cls =>
          have hsp : isSpace ' ' = true := by decide
          simp only [renderClauses, List.append_assoc, List.cons_append, List.nil_append]
          rw [scanFrom_render done cl (Or.inl rfl), scanFrom_cons]
          simp only [closeClause, if_true, scanStep, hsp, if_true]
          rw [ih _ (List.cons_ne_nil cl2 cls)]
          simp

/-- Round trip: a non-empty list of clauses printed as `w` or `w t*r`, joined by `", "`,
with or without a final `;`, parses back to exactly the containers it denotes. -/
theorem parseExperiment_renderClauses (cls : List Clause) (hne : cls ≠ []) :
    parseExperiment (renderClauses cls) = .ok (cls.map Clause.toContainer) ∧
      parseExperiment (renderClauses cls ++ [';']) = .ok (cls.map Clause.toContainer) := by
  constructor <;> rw [parseExperiment_eq_ok_iff] <;>
    simp [scanExperiment, scanFrom_renderClauses [] cls hne, Scan.result]

theorem parseExperiment_renderClauses_rdseq :
    [(⟨500, some (⟨"rdseq".toList, by decide, by decide⟩, 2)⟩ : Clause), ⟨500, none⟩] ≠ [] ∧
      parseExperiment (renderClauses [⟨500, some (⟨"rdseq".toList, by decide, by decide⟩, 2)⟩,
          ⟨500, none⟩]) = .ok [⟨500, some "rdseq".toList, 2⟩, ⟨500, none, 0⟩] ∧
      parseExperiment (renderClauses [⟨500, some (⟨"rdseq".toList, by decide, by decide⟩, 2)⟩,
          ⟨500, none⟩] ++ [';']) = .ok [⟨500, some "rdseq".toList, 2⟩, ⟨500, none, 0⟩] :=
  ⟨List.cons_ne_nil _ _, parseExperiment_renderClauses _ (List.cons_ne_nil _ _)⟩

/-- A whitespace run that begins with a space leaves the reader where one space does. -/
theorem scanFrom_space_run (q : Scan) {r : List Char} (hhead : r.head? = some ' ')
    (hr : ∀ c ∈ r, isSpace c = true) : scanFrom q r = scanStep q ' ' := by
  obtain ⟨ws, rfl⟩ := List.head?_eq_some_iff.1 hhead
  rw [scanFrom_cons, scanFrom_skips (skips_scanStep_space q)
    (fun x hx => hr x (List.mem_cons_of_mem _ hx))]

/-- At the start of the text and after a `,` the reader skips whitespace. -/
theorem skips_after_comma {a : List Char} (ha : a = [] ∨ a.getLast? = some ',') :
    Skips (scanFrom ⟨[], .preWeight⟩ a) := by
  rcases ha with rfl | ha
  · exact fun c hc => preWeight_space hc
  · obtain ⟨a0, rfl⟩ := List.getLast?_eq_some_iff.1 ha
    rw [scanFrom_append, scanFrom_cons, scanFrom_nil]
    exact skips_scanStep_comma _

/-- Whitespace: a whitespace run that begins with a space may be replaced by any other
such run, and after a `,` or at the start any whitespace run may be replaced by any
other, possibly empty one; `parse_experiment` accepts the same strings with the same
containers. -/
theorem parseExperiment_whitespace_runs :
    (∀ a r r' b : List Char, r.head? = some ' ' → r'.head? = some ' ' →
        (∀ c ∈ r, isSpace c = true) → (∀ c ∈ r', isSpace c = true) →
        (parseExperiment (a ++ r ++ b)).toOption = (parseExperiment (a ++ r' ++ b)).toOption) ∧
    (∀ a r r' b : List Char, (a = [] ∨ a.getLast? = some ',') →
        (∀ c ∈ r, isSpace c = true) → (∀ c ∈ r', isSpace c = true) →
        (parseExperiment (a ++ r ++ b)).toOption =
          (parseExperiment (a ++ r' ++ b)).toOption) := by
  constructor
  · intro a r r' b hh hh' hr hr'
    simp only [parseExperiment_toOption, scanExperiment, List.append_assoc, scanFrom_append,
      scanFrom_space_run _ hh hr, scanFrom_space_run _ hh' hr']
  · intro a r r' b ha hr hr'
    simp only [parseExperiment_toOption, scanExperiment, List.append_assoc, scanFrom_append,
      scanFrom_skips (skips_after_comma ha) hr, scanFrom_skips (skips_after_comma ha) hr']

/-- A space and a tab in place of one space after the weight change nothing. -/
theorem parseExperiment_whitespace_runs_tab :
    (parseExperiment ("10".toList ++ " ".toList ++ "rdseq".toList)).toOption =
      (parseExperiment ("10".toList ++ " \t".toList ++ "rdseq".toList)).toOption :=
  parseExperiment_whitespace_runs.1 _ _ _ _ (by decide) (by decide) (by decide) (by decide)

/-- A space between a worker token and its `*` makes an accepted string rejected. -/
theorem parseExperiment_space_before_star :
    parseExperiment "10 rdseq*2".toList = .ok [⟨10, some "rdseq".toList, 2⟩] ∧
      (parseExperiment "10 rdseq *2".toList).toOption = none :=
  ⟨parseExperiment_eq_ok_iff.2 (by decide), by rw [parseExperiment_toOption]; decide⟩

end RoundTrip

section Joining

/-- `q` with the containers `done` closed before its own. -/
def Scan.after (done : List Container) (q : Scan) : Scan :=
  ⟨done ++ q.done, q.phase⟩

theorem after_mk (done d : List Container) (ph : Phase) :
    Scan.after done ⟨d, ph⟩ = ⟨done ++ d, ph⟩ := rfl

theorem closeClause_after (done d : List Container) (c : Container) (ch : Char) :
    closeClause (done ++ d) c ch = (closeClause d c ch).after done := by
  unfold closeClause
  split_ifs <;> simp [Scan.after]

/-- The reader only appends to the containers it has closed. -/
theorem scanStep_after (done : List Container) (q : Scan) (ch : Char) :
    scanStep (q.after done) ch = (scanStep q ch).after done := by
  obtain ⟨d, ph⟩ := q
  cases ph <;> simp only [after_mk, scanStep, optionsStep, preWorkerStep, postWorkerStep,
    apply_ite (Scan.after done), closeClause_after]

theorem scanFrom_after (done : List Container) (q : Scan) (t : List Char) :
    scanFrom (q.after done) t = (scanFrom q t).after done := by
  induction t generalizing q with
  | nil => rfl
  | cons ch t ih => rw [scanFrom_cons, scanStep_after, ih, scanFrom_cons]

theorem result_after (done : List Container) (q : Scan) :
    (q.after done).result = q.result.map (done ++ ·) := by
  obtain ⟨d, ph⟩ := q
  cases ph <;> rfl

theorem closeClause_phase (done : List Container) (c : Container) (ch : Char) :
    (closeClause done c ch).phase =
      if ch = ',' then .preWeight else if ch = ';' then .accept else .reject := by
  unfold closeClause
  split_ifs <;> rfl

theorem phase_ite_ne {p : Prop} [Decidable p] {a b x : Phase} (ha : a ≠ x) (hb : b ≠ x) :
    (if p then a else b) ≠ x := by
  split_ifs <;> assumption

/-- Before a `;` the reader never accepts. -/
theorem scanStep_ne_accept {q : Scan} (hq : q.phase ≠ .accept) {ch : Char} (hch : ch ≠ ';') :
    (scanStep q ch).phase ≠ .accept := by
  obtain ⟨d, ph⟩ := q
  cases ph
  case accept => exact hq
  all_goals simp only [scanStep, optionsStep, preWorkerStep, postWorkerStep,
    apply_ite Scan.phase, closeClause_phase, hch, if_false]
  all_goals repeat' apply phase_ite_ne
  all_goals nofun

theorem scanFrom_ne_accept {q : Scan} (hq : q.phase ≠ .accept) {t : List Char}
    (ht : ';' ∉ t) : (scanFrom q t).phase ≠ .accept := by
  induction t generalizing q with
  | nil => exact hq
  | cons ch t ih =>
      rw [List.mem_cons, not_or] at ht
      exact ih (scanStep_ne_accept hq (Ne.symm ht.1)) ht.2

/-- Where `;` would end the text, `,` closes the same clause and opens the next one; where
`;` is rejected, so is `,`. -/
theorem scanStep_comma {q : Scan} (hq : q.phase ≠ .accept) :
    (∃ cs, (scanStep q ';').result = some cs ∧ scanStep q ',' = ⟨cs, .preWeight⟩) ∨
      ((scanStep q ';').result = none ∧ (scanStep q ',').phase = .reject) := by
  have h1 : isSpace ';' = false := by decide
  have h2 : isDelim ';' = true := by decide
  have h3 : isSpace ',' = false := by decide
  have h4 : isDelim ',' = true := by decide
  obtain ⟨d, ph⟩ := q
  cases ph <;>
    simp [scanStep, optionsStep, preWorkerStep, postWorkerStep, closeClause, Scan.result,
      h1, h2, h3, h4] at hq ⊢

/-- Joining two experiments with `,`: `a + ',' + b` is accepted exactly when `a` and `b`
are, with the containers of `a` followed by those of `b`.  The text `a` has no `;`, which
would end the experiment there. -/
theorem parseExperiment_comma_join {a b : List Char} (ha : ';' ∉ a) (cs : List Container) :
    parseExperiment (a ++ ',' :: b) = .ok cs ↔
      ∃ ca cb, parseExperiment a = .ok ca ∧ parseExperiment b = .ok cb ∧ cs = ca ++ cb := by
  simp only [parseExperiment_eq_ok_iff, scanExperiment, List.append_assoc, List.cons_append,
    scanFrom_append, scanFrom_cons, scanFrom_nil]
  have hq := scanFrom_ne_accept (q := ⟨[], .preWeight⟩) nofun ha
  rcases scanStep_comma hq with ⟨ca, hca, hc⟩ | ⟨hn, hr⟩
  · have hb : (⟨ca, .preWeight⟩ : Scan) = Scan.after ca ⟨[], .preWeight⟩ := by
      simp [Scan.after]
    rw [hca, hc, hb, scanFrom_after, scanStep_after, result_after]
    constructor
    · intro h
      obtain ⟨cb, hcb, rfl⟩ := Option.map_eq_some'.1 h
      exact ⟨ca, cb, rfl, hcb, rfl⟩
    · rintro ⟨_, cb, ⟨⟩, hcb, rfl⟩
      rw [hcb]
      rfl
  · rw [hn]
    generalize scanStep (scanFrom ⟨[], .preWeight⟩ a) ',' = r at hr ⊢
    obtain ⟨d, ph⟩ := r
    simp only at hr
    subst hr
    simp [Scan.result, scanStep]

theorem parseExperiment_comma_join_rdseq :
    ';' ∉ "500 rdseq".toList ∧
      (parseExperiment ("500 rdseq".toList ++ ',' :: " 500".toList) =
          .ok [⟨500, some "rdseq".toList, 1⟩, ⟨500, none, 0⟩] ↔
        ∃ ca cb, parseExperiment "500 rdseq".toList = .ok ca ∧
          parseExperiment " 500".toList = .ok cb ∧
          [⟨500, some "rdseq".toList, 1⟩, ⟨500, none, 0⟩] = ca ++ cb) :=
  ⟨by decide, parseExperiment_comma_join (by decide) _⟩

end Joining

end BlkcgroupTest
