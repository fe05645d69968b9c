import BlkcgroupTest.Parser

/-!
# blkcgroup test: the parser as a left-to-right reader

`parse_containers` looks at most one character ahead and never backtracks, so it is a
reader of `text + ';'` one character at a time.  This module states that reader
(`scanStep`, a total step function on `Scan`) and proves that it computes what
`parse_experiment` computes:

* `scanFrom_parseContainer`: reading one clause with the reader ends where
  `parse_containers` tests for `,`;
* `scan_parseContainersLoop`: by induction along the loop, the reader accepts exactly
  when the loop stops at a `;`;
* `parseExperiment_toOption`: `parse_experiment` accepts `text` with the containers
  `cs` iff the reader accepts `text + ';'` with `cs`.

The reader is what makes statements about one position of an arbitrary string
(`ParserLaws`) provable: reading `a ++ b` is reading `a`, then `b` from where `a` left
the reader.
-/

namespace BlkcgroupTest

/-- Where the reader is inside one clause of `parse_containers`. -/
inductive Phase
  | preWeight
  | weight (dtf : Nat)
  | options (dtf : Nat)
  | preWorker (dtf : Nat)
  | worker (dtf : Nat) (tok : List Char)
  | star (dtf : Nat) (tok : List Char)
  | rep (dtf : Nat) (tok : List Char) (n : Nat)
  | postWorker (c : Container)
  | accept
  | reject
deriving DecidableEq, Repr

/-- The reader's state: the containers of the clauses already closed, and the phase. -/
structure Scan where
  done : List Container
  phase : Phase
deriving DecidableEq, Repr

section ParserScan

/-- The test after a clause: `,` opens the next clause, `;` is the terminator. -/
def closeClause (done : List Container) (c : Container) (ch : Char) : Scan :=
  if ch = ',' then ⟨done ++ [c], .preWeight⟩
  else if ch = ';' then ⟨done ++ [c], .accept⟩
  else ⟨done, .reject⟩

/-- Reading `ch` where `text.lstrip()` comes before the worker token. -/
def preWorkerStep (done : List Container) (dtf : Nat) (ch : Char) : Scan :=
  if isSpace ch then ⟨done, .preWorker dtf⟩
  else if isDelim ch then closeClause done ⟨dtf, none, 0⟩ ch
  else ⟨done, .worker dtf [ch]⟩

/-- Reading `ch` inside the options word. -/
def optionsStep (done : List Container) (dtf : Nat) (ch : Char) : Scan :=
  if isDelim ch then preWorkerStep done dtf ch else ⟨done, .options dtf⟩

/-- Reading `ch` where `text.lstrip()` follows a worker token or its repeat count. -/
def postWorkerStep (done : List Container) (c : Container) (ch : Char) : Scan :=
  if isSpace ch then ⟨done, .postWorker c⟩ else closeClause done c ch

/-- One character of `parse_containers`. -/
def scanStep : Scan → Char → Scan
  | ⟨done, .preWeight⟩, ch =>
      if isSpace ch then ⟨done, .preWeight⟩
      else if ch.isDigit then ⟨done, .weight (digitStep 0 ch)⟩
      else ⟨done, .reject⟩
  | ⟨done, .weight v⟩, ch =>
      if ch.isDigit then ⟨done, .weight (digitStep v ch)⟩ else optionsStep done v ch
  | ⟨done, .options v⟩, ch => optionsStep done v ch
  | ⟨done, .preWorker v⟩, ch => preWorkerStep done v ch
  | ⟨done, .worker v tok⟩, ch =>
      if ch = '*' then ⟨done, .star v tok⟩
      else if isDelim ch then postWorkerStep done ⟨v, some tok, 1⟩ ch
      else ⟨done, .worker v (tok ++ [ch])⟩
  | ⟨done, .star v tok⟩, ch =>
      if ch.isDigit then ⟨done, .rep v tok (digitStep 0 ch)⟩ else ⟨done, .reject⟩
  | ⟨done, .rep v tok n⟩, ch =>
      if ch.isDigit then ⟨done, .rep v tok (digitStep n ch)⟩
      else postWorkerStep done ⟨v, some tok, n⟩ ch
  | ⟨done, .postWorker c⟩, ch => postWorkerStep done c ch
  | ⟨done, .accept⟩, _ => ⟨done, .accept⟩
  | ⟨done, .reject⟩, _ => ⟨done, .reject⟩

/-- Reading a whole text. -/
def scanFrom (s : Scan) (text : List Char) : Scan :=
  text.foldl scanStep s

/-- The containers, once the terminator was accepted. -/
def Scan.result : Scan → Option (List Container)
  | ⟨done, .accept⟩ => some done
  | _ => none

/-- What the reader makes of an experiment string: it reads `text + ';'`. -/
def scanExperiment (text : List Char) : Option (List Container) :=
  (scanFrom ⟨[], .preWeight⟩ (text ++ [';'])).result

@[simp] theorem scanFrom_nil (s : Scan) : scanFrom s [] = s := rfl

@[simp] theorem scanFrom_cons (s : Scan) (ch : Char) (t : List Char) :
    scanFrom s (ch :: t) = scanFrom (scanStep s ch) t := rfl

theorem scanFrom_append (s : Scan) (a b : List Char) :
    scanFrom s (a ++ b) = scanFrom (scanFrom s a) b :=
  List.foldl_append _ _ _ _

@[simp] theorem scanFrom_accept (done : List Container) (t : List Char) :
    scanFrom ⟨done, .accept⟩ t = ⟨done, .accept⟩ := by
  induction t with
  | nil => rfl
  | cons ch t ih => exact ih

@[simp] theorem scanFrom_reject (done : List Container) (t : List Char) :
    scanFrom ⟨done, .reject⟩ t = ⟨done, .reject⟩ := by
  induction t with
  | nil => rfl
  | cons ch t ih => exact ih

/-- Characters that leave the reader where it is can be skipped. -/
theorem scanFrom_fixed {s : Scan} {w : List Char} (h : ∀ c ∈ w, scanStep s c = s) :
    scanFrom s w = s := by
  induction w with
  | nil =>
      rfl
  | cons c w ih =>
      rw [scanFrom_cons, h c (by simp)]
      exact ih (fun x hx => h x (by simp [hx]))

/-- A phase that skips whitespace reads `t` as it reads `t.lstrip()`. -/
theorem scanFrom_lstrip {s : Scan} (h : ∀ c, isSpace c = true → scanStep s c = s)
    (t : List Char) : scanFrom s t = scanFrom s (lstrip t) := by
  conv_lhs => rw [← List.takeWhile_append_dropWhile isSpace t]
  rw [scanFrom_append, scanFrom_fixed (fun c hc => h c (List.mem_takeWhile_imp hc))]
  rfl

theorem isDelim_star : isDelim '*' = true := by decide

theorem preWeight_space {done : List Container} {c : Char} (h : isSpace c = true) :
    scanStep ⟨done, .preWeight⟩ c = ⟨done, .preWeight⟩ := by
  simp [scanStep, h]

theorem preWorker_space {done : List Container} {v : Nat} {c : Char} (h : isSpace c = true) :
    scanStep ⟨done, .preWorker v⟩ c = ⟨done, .preWorker v⟩ := by
  simp [scanStep, preWorkerStep, h]

theorem postWorker_space {done : List Container} {ct : Container} {c : Char}
    (h : isSpace c = true) :
    scanStep ⟨done, .postWorker ct⟩ c = ⟨done, .postWorker ct⟩ := by
  simp [scanStep, postWorkerStep, h]

/-- `text.lstrip()` before a worker token, then the character that ends it. -/
theorem scanFrom_preWorkerStep (done : List Container) (v : Nat) (ch : Char) (r : List Char) :
    scanFrom (preWorkerStep done v ch) r =
      scanFrom ⟨done, .preWorker v⟩ (lstrip (ch :: r)) := by
  cases hs : isSpace ch
  · rw [lstrip_cons_of_not_space hs]
    rfl
  · rw [lstrip_cons_of_space hs, ← scanFrom_lstrip (fun c hc => preWorker_space hc)]
    simp [preWorkerStep, hs]

/-- `text.lstrip()` after a worker token, then the character that ends it. -/
theorem scanFrom_postWorkerStep (done : List Container) (c : Container) (ch : Char)
    (r : List Char) :
    scanFrom (postWorkerStep done c ch) r =
      scanFrom ⟨done, .postWorker c⟩ (lstrip (ch :: r)) := by
  cases hs : isSpace ch
  · rw [lstrip_cons_of_not_space hs]
    rfl
  · rw [lstrip_cons_of_space hs, ← scanFrom_lstrip (fun c hc => postWorker_space hc)]
    simp [postWorkerStep, hs]

/-- A digit run continues the weight. -/
theorem scanFrom_weight_digits {done : List Container} {v : Nat} {ds : List Char}
    (hd : ∀ c ∈ ds, c.isDigit = true) :
    scanFrom ⟨done, .weight v⟩ ds = ⟨done, .weight (ds.foldl digitStep v)⟩ := by
  induction ds generalizing v with
  | nil =>
      rfl
  | cons c ds ih =>
      simp [scanStep, hd c (by simp), ih (fun x hx => hd x (by simp [hx]))]

/-- A digit run continues the repeat count. -/
theorem scanFrom_rep_digits {done : List Container} {v n : Nat} {tok ds : List Char}
    (hd : ∀ c ∈ ds, c.isDigit = true) :
    scanFrom ⟨done, .rep v tok n⟩ ds = ⟨done, .rep v tok (ds.foldl digitStep n)⟩ := by
  induction ds generalizing n with
  | nil =>
      rfl
  | cons c ds ih =>
      simp [scanStep, hd c (by simp), ih (fun x hx => hd x (by simp [hx]))]

/-- `parse_integer` of the weight, read where whitespace is skipped. -/
theorem scanFrom_preWeight_digits {done : List Container} {ds : List Char} (hne : ds ≠ [])
    (hd : ∀ c ∈ ds, c.isDigit = true) :
    scanFrom ⟨done, .preWeight⟩ ds = ⟨done, .weight (digitsValue ds)⟩ := by
  obtain ⟨c, ds, rfl⟩ := List.exists_cons_of_ne_nil hne
  have hc := hd c (by simp)
  simp [scanStep, isSpace_of_isDigit hc, hc, digitsValue,
    scanFrom_weight_digits (fun x hx => hd x (List.mem_cons_of_mem c hx))]

/-- `parse_integer` of the repeat count, read after the `*`. -/
theorem scanFrom_star_digits {done : List Container} {v : Nat} {tok ds : List Char}
    (hne : ds ≠ []) (hd : ∀ c ∈ ds, c.isDigit = true) :
    scanFrom ⟨done, .star v tok⟩ ds = ⟨done, .rep v tok (digitsValue ds)⟩ := by
  obtain ⟨c, ds, rfl⟩ := List.exists_cons_of_ne_nil hne
  simp [scanStep, hd c (by simp), digitsValue,
    scanFrom_rep_digits (fun x hx => hd x (List.mem_cons_of_mem c hx))]

/-- A word free of delimiters stays inside the options word. -/
theorem scanFrom_options_word {done : List Container} {v : Nat} {w : List Char}
    (hw : ∀ c ∈ w, isDelim c = false) :
    scanFrom ⟨done, .options v⟩ w = ⟨done, .options v⟩ :=
  scanFrom_fixed (fun c hc => by simp [scanStep, optionsStep, hw c hc])

/-- A word free of delimiters extends the worker token. -/
theorem scanFrom_worker_word {done : List Container} {v : Nat} {tok w : List Char}
    (hw : ∀ c ∈ w, isDelim c = false) :
    scanFrom ⟨done, .worker v tok⟩ w = ⟨done, .worker v (tok ++ w)⟩ := by
  induction w generalizing tok with
  | nil =>
      simp
  | cons c w ih =>
      have hc := hw c (by simp)
      have hstar : c ≠ '*' := by
        rintro rfl
        simp [isDelim_star] at hc
      simp [scanStep, hstar, hc, ih (fun x hx => hw x (List.mem_cons_of_mem c hx))]

/-- The options word after the weight, and the delimiter that ends it. -/
theorem scanFrom_weight_options {done : List Container} {v : Nat} {o r : List Char} {d : Char}
    (ho : ∀ c ∈ o, isDelim c = false) (hd : isDelim d = true)
    (hnd : ∀ c r', o ++ d :: r = c :: r' → c.isDigit = false) :
    scanFrom ⟨done, .weight v⟩ (o ++ d :: r) =
      scanFrom ⟨done, .preWorker v⟩ (lstrip (d :: r)) := by
  cases o with
  | nil =>
      simp only [List.nil_append] at hnd
      simp [scanStep, hnd d r rfl, optionsStep, hd, scanFrom_preWorkerStep]
  | cons c o =>
      have hc := ho c (by simp)
      rw [List.cons_append, scanFrom_cons, scanFrom_append]
      simp [scanStep, hnd c _ rfl, optionsStep, hc,
        scanFrom_options_word (fun x hx => ho x (List.mem_cons_of_mem c hx)), hd,
        scanFrom_preWorkerStep]

/-- How the reader stands after one clause that `parse_containers` read as `c` with
`rest` left: in a state that closes the clause on the next character. -/
def ClauseRead (done : List Container) (text : List Char) :
    Except PyError (Container × List Char) → Prop
  | .error _ => (scanFrom ⟨done, .preWeight⟩ text).result = none
  | .ok (c, rest) => ∃ q : Scan, q.result = none ∧
      scanFrom ⟨done, .preWeight⟩ text = scanFrom q rest ∧
      ∀ ch r, rest = ch :: r → scanStep q ch = closeClause done c ch

/-- After the worker token: `*repeat` or nothing, then `text.lstrip()`. -/
theorem clauseRead_repeat {done : List Container} {dtf : Nat} {text w r5 : List Char}
    {d5 : Char} (hd5 : isDelim d5 = true)
    (hscan : scanFrom ⟨done, .preWeight⟩ text = scanFrom ⟨done, .worker dtf w⟩ (d5 :: r5)) :
    ClauseRead done text (do
      let (rep, text) ← if d5 = '*' then parseInteger r5 else pure (1, d5 :: r5)
      return (⟨dtf, some w, rep⟩, lstrip text)) := by
  by_cases hstar : d5 = '*'
  · subst hstar
    cases h : parseInteger r5 with
    | error e =>
        simp only [ClauseRead, if_true, h, bind, Except.bind]
        rw [hscan]
        cases r5 with
        | nil =>
            rfl
        | cons c r =>
            simp [scanStep, parseInteger_eq_error h c r rfl, Scan.result]
    | ok p =>
        obtain ⟨n, t6⟩ := p
        obtain ⟨ds, rfl, hne, hds, rfl, ht6⟩ := parseInteger_eq_ok h
        simp only [ClauseRead, if_true, h, bind, Except.bind, pure, Except.pure]
        have hrep : scanFrom ⟨done, .preWeight⟩ text =
            scanFrom ⟨done, .rep dtf w (digitsValue ds)⟩ t6 := by
          rw [hscan, scanFrom_cons, scanFrom_append]
          simp [scanStep, scanFrom_star_digits hne hds]
        cases t6 with
        | nil =>
            exact ⟨⟨done, .rep dtf w (digitsValue ds)⟩, rfl, hrep, by simp⟩
        | cons c6 r6 =>
            refine ⟨⟨done, .postWorker ⟨dtf, some w, digitsValue ds⟩⟩, rfl, ?_, ?_⟩
            · rw [hrep, ← scanFrom_postWorkerStep]
              simp [scanStep, ht6 c6 r6 rfl]
            · intro ch r hr
              simp [scanStep, postWorkerStep, lstrip_head_not_space hr]
  · simp only [ClauseRead, hstar, if_false, bind, Except.bind, pure, Except.pure]
    refine ⟨⟨done, .postWorker ⟨dtf, some w, 1⟩⟩, rfl, ?_, ?_⟩
    · rw [hscan, ← scanFrom_postWorkerStep]
      simp [scanStep, hstar, hd5]
    · intro ch r hr
      simp [scanStep, postWorkerStep, lstrip_head_not_space hr]

/-- The worker token of a clause, read from where `text.lstrip()` is skipped. -/
theorem clauseRead_worker {done : List Container} {dtf : Nat} {text t4 : List Char}
    (hsp : ∀ c r, t4 = c :: r → isSpace c = false)
    (hscan : scanFrom ⟨done, .preWeight⟩ text = scanFrom ⟨done, .preWorker dtf⟩ t4) :
    ClauseRead done text (do
      let (worker, text) ← parseName t4
      if worker = [] then
        return (⟨dtf, none, 0⟩, text)
      let c ← pyHead text
      let (rep, text) ← if c = '*' then parseInteger text.tail else pure (1, text)
      return (⟨dtf, some worker, rep⟩, lstrip text)) := by
  cases h : parseName t4 with
  | error e =>
      simp only [ClauseRead, bind, Except.bind]
      rw [hscan]
      have hnd := parseName_eq_error h
      cases t4 with
      | nil =>
          rfl
      | cons c r =>
          simp [scanStep, preWorkerStep, hsp c r rfl, hnd c (by simp),
            scanFrom_worker_word (fun x hx => hnd x (List.mem_cons_of_mem c hx)), Scan.result]
  | ok p =>
      obtain ⟨w, t5⟩ := p
      obtain ⟨rfl, hw, d5, r5, rfl, hd5⟩ := parseName_eq_ok h
      cases w with
      | nil =>
          simp only [bind, Except.bind, if_true, pure, Except.pure, ClauseRead]
          refine ⟨⟨done, .preWorker dtf⟩, rfl, hscan, ?_⟩
          rintro ch r ⟨⟩
          simp [scanStep, preWorkerStep, hsp d5 r5 rfl, hd5]
      | cons w0 ws =>
          simp only [bind, Except.bind, List.cons_ne_nil, if_false, pyHead, List.tail_cons]
          refine clauseRead_repeat hd5 ?_
          rw [hscan, List.cons_append, scanFrom_cons, scanFrom_append]
          simp [scanStep, preWorkerStep, hsp w0 _ rfl, hw w0 (by simp),
            scanFrom_worker_word (fun x hx => hw x (List.mem_cons_of_mem w0 hx))]

/-- Reading one clause with the reader ends where `parse_containers` tests for `,`. -/
theorem clauseRead_parseContainer (done : List Container) (text : List Char) :
    ClauseRead done text (parseContainer text) := by
  have h0 : scanFrom ⟨done, .preWeight⟩ text = scanFrom ⟨done, .preWeight⟩ (lstrip text) :=
    scanFrom_lstrip (fun c hc => preWeight_space hc) text
  cases h1 : parseInteger (lstrip text) with
  | error e =>
      simp only [parseContainer, h1, bind, Except.bind, ClauseRead]
      rw [h0]
      cases ht : lstrip text with
      | nil =>
          rfl
      | cons c r =>
          simp [scanStep, lstrip_head_not_space ht, parseInteger_eq_error (ht ▸ h1) c r rfl,
            Scan.result]
  | ok p =>
      obtain ⟨dtf, t2⟩ := p
      obtain ⟨ds, ht1, hne, hds, rfl, ht2⟩ := parseInteger_eq_ok h1
      have hw : scanFrom ⟨done, .preWeight⟩ text =
          scanFrom ⟨done, .weight (digitsValue ds)⟩ t2 := by
        rw [h0, ht1, scanFrom_append, scanFrom_preWeight_digits hne hds]
      cases h2 : parseName t2 with
      | error e =>
          simp only [parseContainer, h1, h2, bind, Except.bind, ClauseRead]
          rw [hw]
          have hnd := parseName_eq_error h2
          cases t2 with
          | nil =>
              rfl
          | cons c r =>
              simp [scanStep, ht2 c r rfl, optionsStep, hnd c (by simp),
                scanFrom_options_word (fun x hx => hnd x (List.mem_cons_of_mem c hx)),
                Scan.result]
      | ok p2 =>
          obtain ⟨o, t3⟩ := p2
          obtain ⟨rfl, ho, d3, r3, rfl, hd3⟩ := parseName_eq_ok h2
          simp only [parseContainer, h1, h2, bind, Except.bind]
          exact clauseRead_worker (fun c r h => lstrip_head_not_space h)
            (by rw [hw, scanFrom_weight_options ho hd3 ht2])

/-- What the loop of `parse_containers` leaves for `expect_delim`: the containers when it
stopped at a `;`. -/
def loopResult : Except PyError (List Container × List Char) → Option (List Container)
  | .ok (cs, rest) => if rest.head? = some ';' then some cs else none
  | .error _ => none

/-- Along the loop of `parse_containers`, the reader accepts exactly when the loop stops
at a `;`. -/
theorem scan_parseContainersLoop (acc : List Container) (text : List Char) :
    (scanFrom ⟨acc, .preWeight⟩ text).result = loopResult (parseContainersLoop acc text) := by
  have hc := clauseRead_parseContainer acc text
  cases h : parseContainer text with
  | error e =>
      rw [h] at hc
      rw [parseContainersLoop_error h]
      exact hc
  | ok p =>
      obtain ⟨c, rest⟩ := p
      rw [h] at hc
      obtain ⟨q, hq, hscan, hclose⟩ := hc
      rw [hscan]
      cases rest with
      | nil =>
          rw [parseContainersLoop_nil h]
          exact hq
      | cons ch r =>
          rw [scanFrom_cons, hclose ch r rfl]
          by_cases hcomma : ch = ','
          · subst hcomma
            have : r.length < text.length := by
              have := (parseContainer_suffix h).length_le
              simp only [List.length_cons] at this
              omega
            rw [parseContainersLoop_comma h]
            exact scan_parseContainersLoop (acc ++ [c]) r
          · rw [parseContainersLoop_stop h hcomma]
            by_cases hsemi : ch = ';'
            · simp [closeClause, hsemi, loopResult, Scan.result]
            · simp [closeClause, hcomma, hsemi, loopResult, Scan.result]
termination_by text.length

/-- `parse_experiment` accepts `text` with the containers `cs` exactly when the reader
accepts `text + ';'` with `cs`. -/
theorem parseExperiment_toOption (text : List Char) :
    (parseExperiment text).toOption = scanExperiment text := by
  rw [scanExperiment, scan_parseContainersLoop]
  simp only [parseExperiment, parseContainers, bind, Except.bind]
  cases parseContainersLoop [] (text ++ [';']) with
  | error e =>
      rfl
  | ok p =>
      obtain ⟨cs, rest⟩ := p
      cases rest with
      | nil =>
          rfl
      | cons ch r =>
          by_cases hsemi : ch = ';' <;>
            simp [expectDelim_cons, hsemi, loopResult, Except.toOption, pure, Except.pure]

theorem parseExperiment_eq_ok_iff {text : List Char} {cs : List Container} :
    parseExperiment text = .ok cs ↔ scanExperiment text = some cs := by
  rw [← parseExperiment_toOption]
  cases parseExperiment text <;> simp [Except.toOption]

theorem parseExperiment_raises {text : List Char} (h : scanExperiment text = none) :
    ∃ e, parseExperiment text = .error e := by
  have := parseExperiment_toOption text
  rw [h] at this
  cases hp : parseExperiment text <;> simp_all [Except.toOption]

/-- A tab after the weight is read into the options word, and the worker is lost. -/
example :
    parseExperiment "10\trdseq".toList = .ok [⟨10, none, 0⟩] :=
  parseExperiment_eq_ok_iff.2 (by decide)

end ParserScan

end BlkcgroupTest
