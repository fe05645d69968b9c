import Mathlib.Data.List.Basic
import Mathlib.Data.Nat.Digits

/-!
# blkcgroup test: Python text primitives

`blkcgroup_test_lib.py` is Python 2 code.  Its parser, its command synthesizer and its
scorer work on `str` values, and this module fixes, once, the few `str` operations that
code uses, over `List Char`:

* `isSpace`, `lstrip` and `pySplit`: `str.isspace`, `str.lstrip()` and `str.split()`,
  the last two with no argument;
* `decimal` and `digitsValue`: the `'%d' %` rendering of a natural number, and `int()`
  applied to a run of ASCII digits (what `re.match('\d*', ...)` returns);
* `pathJoin`: `os.path.join` of two components;
* `PyError`: the exceptions the modelled code raises or lets through.

The lemmas are the round trip between `decimal` and `digitsValue`, and how `pySplit`
reads words separated by whitespace.

Python code that mutates state and may raise is an `EStateM PyError σ` program: an
exception keeps the state the statements before the `raise` left.  The lemmas of
`Statements` peel a sequence of statements apart without unfolding `EStateM.bind`, and
`Keeps R x` states a frame fact of every run of `x`, normal or raising, once per
statement.
-/

namespace BlkcgroupTest

/-- The Python exceptions the modelled code raises or lets through.  `external` is an
exception raised inside a collaborator (`cgroup`, `cpuset`, `utils`, `os`). -/
inductive PyError
  | valueError (msg : List Char)
  | indexError
  | keyError (key : List Char)
  | external (call : List Char)
deriving DecidableEq, Repr

/-- Results of the pure parts of the code can be compared, so that `decide` runs them. -/
instance instDecidableEqExceptPy {ε α : Type} [DecidableEq ε] [DecidableEq α] :
    DecidableEq (Except ε α)
  | .ok a, .ok b => decidable_of_iff (a = b) ⟨congrArg _, fun h => Except.ok.inj h⟩
  | .error a, .error b => decidable_of_iff (a = b) ⟨congrArg _, fun h => Except.error.inj h⟩
  | .ok _, .error _ => isFalse nofun
  | .error _, .ok _ => isFalse nofun

section PyText

/-- `str.isspace` of Python 2 on one character (`string.whitespace`). -/
def isSpace (c : Char) : Bool :=
  c == ' ' || c == '\t' || c == '\n' || c == '\r' || c == '\x0b' || c == '\x0c'

/-- `str.lstrip()` with no argument. -/
def lstrip (s : List Char) : List Char :=
  s.dropWhile isSpace

/-- `str.split()` with no argument: whitespace runs separate words, no word is empty. -/
def pySplit (s : List Char) : List (List Char) :=
  (s.splitOnP isSpace).filter (fun w => !w.isEmpty)

/-- A word with no whitespace character. -/
def NoSpace (w : List Char) : Prop :=
  ∀ c ∈ w, isSpace c = false

instance : DecidablePred NoSpace :=
  fun w => inferInstanceAs (Decidable (∀ c ∈ w, isSpace c = false))

/-- `'%d' % n` for a natural number `n`. -/
def decimal (n : Nat) : List Char :=
  Nat.toDigits 10 n

/-- One digit more of a decimal numeral read from the left. -/
def digitStep (acc : Nat) (c : Char) : Nat :=
  10 * acc + (c.toNat - '0'.toNat)

/-- `int(value)` for a non-empty run of ASCII digits `value`. -/
def digitsValue (ds : List Char) : Nat :=
  ds.foldl digitStep 0

/-- `os.path.join(a, b)` (`posixpath.join` with two components). -/
def pathJoin (a b : List Char) : List Char :=
  if b.head? = some '/' then b
  else if a = [] ∨ a.getLast? = some '/' then a ++ b
  else a ++ '/' :: b

@[simp] theorem lstrip_nil : lstrip [] = [] := rfl

theorem lstrip_cons_of_space {c : Char} (h : isSpace c = true) (s : List Char) :
    lstrip (c :: s) = lstrip s := by
  simp [lstrip, List.dropWhile_cons, h]

theorem lstrip_cons_of_not_space {c : Char} (h : isSpace c = false) (s : List Char) :
    lstrip (c :: s) = c :: s := by
  simp [lstrip, List.dropWhile_cons, h]

/-- `lstrip` stops at the first non-whitespace character. -/
theorem lstrip_append_of_not_space {w : List Char} (hw : ∀ c ∈ w, isSpace c = true)
    {c : Char} (hc : isSpace c = false) (s : List Char) :
    lstrip (w ++ c :: s) = c :: s := by
  induction w with
  | nil =>
      exact lstrip_cons_of_not_space hc s
  | cons d w ih =>
      rw [List.cons_append, lstrip_cons_of_space (hw d (by simp))]
      exact ih (fun x hx => hw x (by simp [hx]))

/-- What `lstrip` leaves does not start with whitespace. -/
theorem lstrip_head_not_space {s : List Char} {c : Char} {r : List Char}
    (h : lstrip s = c :: r) : isSpace c = false := by
  induction s with
  | nil =>
      simp at h
  | cons d s ih =>
      cases hd : isSpace d
      · rw [lstrip_cons_of_not_space hd] at h
        cases h
        exact hd
      · rw [lstrip_cons_of_space hd] at h
        exact ih h

/-- What `lstrip` leaves is a suffix of its argument. -/
theorem lstrip_suffix (s : List Char) : lstrip s <:+ s :=
  List.dropWhile_suffix isSpace

end PyText

section Decimal

/-- The ten ASCII digits are digits, and `int()` reads each back. -/
theorem digitChar_digit :
    ∀ d : Fin 10,
      (Nat.digitChar d).isDigit = true ∧ (Nat.digitChar d).toNat - '0'.toNat = d := by
  decide

theorem toDigitsCore_append (fuel n : Nat) (ds : List Char) :
    Nat.toDigitsCore 10 fuel n ds = Nat.toDigitsCore 10 fuel n [] ++ ds := by
  induction fuel generalizing n ds with
  | zero =>
      rfl
  | succ k ih =>
      simp only [Nat.toDigitsCore]
      split
      · rfl
      · rw [ih _ (_ :: ds), ih _ [_]]
        simp

theorem toDigitsCore_fuel (f₁ f₂ : Nat) {n : Nat} (h₁ : n < f₁) (h₂ : n < f₂)
    (ds : List Char) :
    Nat.toDigitsCore 10 f₁ n ds = Nat.toDigitsCore 10 f₂ n ds := by
  induction f₁ generalizing f₂ n ds with
  | zero =>
      omega
  | succ k ih =>
      obtain ⟨m, rfl⟩ : ∃ m, f₂ = m + 1 := ⟨f₂ - 1, by omega⟩
      simp only [Nat.toDigitsCore]
      split
      · rfl
      · exact ih _ (by omega) (by omega) _

/-- The last digit of `n` ends `decimal n`. -/
theorem decimal_eq (n : Nat) :
    decimal n =
      if n < 10 then [Nat.digitChar n]
      else decimal (n / 10) ++ [Nat.digitChar (n % 10)] := by
  have hcore : decimal n = Nat.toDigitsCore 10 (n + 1) n [] := rfl
  rw [hcore, Nat.toDigitsCore]
  by_cases h : n < 10
  · simp [h, Nat.div_eq_of_lt h, Nat.mod_eq_of_lt h]
  · simp only [show n / 10 ≠ 0 by omega, if_false, h]
    rw [toDigitsCore_append, toDigitsCore_fuel _ (n / 10 + 1) (by omega) (by omega)]
    rfl

@[simp] theorem digitsValue_nil : digitsValue [] = 0 := rfl

theorem digitsValue_append_single (ds : List Char) (c : Char) :
    digitsValue (ds ++ [c]) = 10 * digitsValue ds + (c.toNat - '0'.toNat) := by
  simp [digitsValue, digitStep, List.foldl_append]

theorem decimal_ne_nil (n : Nat) : decimal n ≠ [] := by
  rw [decimal_eq]
  split <;> simp

theorem decimal_digits (n : Nat) : ∀ c ∈ decimal n, c.isDigit = true := by
  induction n using Nat.strong_induction_on with
  | _ n ih =>
      rw [decimal_eq]
      split
      · simpa using (digitChar_digit ⟨n, by omega⟩).1
      · simp only [List.mem_append, List.mem_singleton]
        rintro c (hc | rfl)
        · exact ih (n / 10) (by omega) c hc
        · exact (digitChar_digit ⟨n % 10, Nat.mod_lt _ (by omega)⟩).1

/-- `int('%d' % n) == n`. -/
@[simp] theorem digitsValue_decimal (n : Nat) : digitsValue (decimal n) = n := by
  induction n using Nat.strong_induction_on with
  | _ n ih =>
      rw [decimal_eq]
      split
      · simpa [digitsValue, digitStep] using (digitChar_digit ⟨n, by omega⟩).2
      · rw [digitsValue_append_single, ih (n / 10) (by omega),
          (digitChar_digit ⟨n % 10, Nat.mod_lt _ (by omega)⟩).2]
        simp only
        omega

theorem decimal_injective : Function.Injective decimal := by
  intro m n h
  rw [← digitsValue_decimal m, h, digitsValue_decimal]

theorem le_foldl_digitStep (a : Nat) (ds : List Char) : a ≤ ds.foldl digitStep a := by
  induction ds generalizing a with
  | nil => exact le_rfl
  | cons d ds ih => exact le_trans (by unfold digitStep; omega) (ih (digitStep a d))

/-- `int()` of a run of digits is `0` only when the run starts with `0`. -/
theorem digitsValue_eq_zero {d : Char} {ds : List Char} (hd : d.isDigit = true)
    (h : digitsValue (d :: ds) = 0) : d = '0' := by
  have h1 := le_foldl_digitStep (digitStep 0 d) ds
  rw [← List.foldl_cons, ← digitsValue, h] at h1
  simp only [Char.isDigit, Bool.and_eq_true, decide_eq_true_eq] at hd
  have h2 : 48 ≤ d.toNat := hd.1
  have h3 : d.toNat = 48 := by
    unfold digitStep at h1
    rw [show '0'.toNat = 48 from rfl] at h1
    omega
  rw [← Char.ofNat_toNat d, h3]

/-- A digit is not whitespace. -/
theorem isSpace_of_isDigit {c : Char} (h : c.isDigit = true) : isSpace c = false := by
  revert h
  simp only [Char.isDigit, isSpace, Bool.and_eq_true, decide_eq_true_eq, Bool.or_eq_false_iff,
    beq_eq_false_iff_ne, ne_eq]
  rintro ⟨h₁, h₂⟩
  refine ⟨⟨⟨⟨⟨?_, ?_⟩, ?_⟩, ?_⟩, ?_⟩, ?_⟩ <;> rintro rfl <;> revert h₁ <;>
    decide

theorem decimal_noSpace (n : Nat) : NoSpace (decimal n) :=
  fun c hc => isSpace_of_isDigit (decimal_digits n c hc)

/-- `lstrip` removes leading blanks and stops at a word. -/
theorem lstrip_append_of_noSpace {w s : List Char} (hw : ∀ c ∈ w, isSpace c = true)
    (hs : NoSpace s) : lstrip (w ++ s) = s := by
  cases s with
  | nil => simpa [lstrip] using hw
  | cons c s => exact lstrip_append_of_not_space hw (hs c (List.mem_cons_self c s)) s

end Decimal

section Split

@[simp] theorem pySplit_nil : pySplit [] = [] := rfl

/-- Leading whitespace is dropped by `str.split()`. -/
theorem pySplit_space_cons {c : Char} (h : isSpace c = true) (s : List Char) :
    pySplit (c :: s) = pySplit s := by
  have := List.splitOnP_first isSpace [] (by simp) c h s
  simp only [List.nil_append] at this
  simp [pySplit, this]

/-- A non-empty word followed by whitespace is the first word of `str.split()`. -/
theorem pySplit_word_space {w : List Char} (hne : w ≠ []) (hw : NoSpace w)
    {c : Char} (h : isSpace c = true) (s : List Char) :
    pySplit (w ++ c :: s) = w :: pySplit s := by
  have := List.splitOnP_first isSpace w (fun x hx => by simp [hw x hx]) c h s
  simp [pySplit, this, hne]

/-- A non-empty word with no whitespace splits to itself. -/
theorem pySplit_word {w : List Char} (hne : w ≠ []) (hw : NoSpace w) : pySplit w = [w] := by
  have := List.splitOnP_eq_single isSpace w (fun x hx => by simp [hw x hx])
  simp [pySplit, this, hne]

/-- `str.split()` splits independently on the two sides of a whitespace character. -/
theorem splitOnP_append_space {c : Char} (h : isSpace c = true) (s t : List Char) :
    (s ++ c :: t).splitOnP isSpace = s.splitOnP isSpace ++ t.splitOnP isSpace := by
  induction s with
  | nil => simp [h]
  | cons x s ih =>
      by_cases hx : isSpace x = true
      · simp [hx, ih]
      · obtain ⟨w, ws, hw⟩ := List.exists_cons_of_ne_nil (List.splitOnP_ne_nil isSpace s)
        simp [hx, ih, hw]

theorem pySplit_append_space {c : Char} (h : isSpace c = true) (s t : List Char) :
    pySplit (s ++ c :: t) = pySplit s ++ pySplit t := by
  simp [pySplit, splitOnP_append_space h]

end Split

section Statements

variable {σ α β : Type}

@[simp] theorem get_apply (s : σ) : (get : EStateM PyError σ σ) s = .ok s s := rfl

@[simp] theorem set_apply (s s' : σ) : (set s' : EStateM PyError σ PUnit) s = .ok ⟨⟩ s' := rfl

@[simp] theorem modify_apply (f : σ → σ) (s : σ) :
    (modify f : EStateM PyError σ PUnit) s = .ok ⟨⟩ (f s) := rfl

@[simp] theorem pure_apply (a : α) (s : σ) : (pure a : EStateM PyError σ α) s = .ok a s := rfl

@[simp] theorem throw_apply (e : PyError) (s : σ) :
    (throw e : EStateM PyError σ α) s = .error e s := rfl

theorem bind_apply (x : EStateM PyError σ α) (f : α → EStateM PyError σ β) (s : σ) :
    (x >>= f) s = match x s with
      | .ok a s' => f a s'
      | .error e s' => .error e s' := by
  change EStateM.bind x f s = _
  unfold EStateM.bind
  rcases x s with ⟨a, s'⟩ | ⟨e, s'⟩ <;> rfl

theorem bind_apply_ok {x : EStateM PyError σ α} {f : α → EStateM PyError σ β} {s s' : σ}
    {a : α} (h : x s = .ok a s') : (x >>= f) s = f a s' := by
  change EStateM.bind x f s = _
  simp [EStateM.bind, h]

theorem bind_apply_error {x : EStateM PyError σ α} {f : α → EStateM PyError σ β}
    {s s' : σ} {e : PyError} (h : x s = .error e s') : (x >>= f) s = .error e s' := by
  change EStateM.bind x f s = _
  simp [EStateM.bind, h]

/-- A pure computation that may raise, run as a statement. -/
def liftExcept : Except PyError α → EStateM PyError σ α
  | .ok a => pure a
  | .error e => throw e

theorem liftExcept_eq_ok {x : Except PyError α} {s s' : σ} {a : α}
    (h : liftExcept x s = .ok a s') : x = .ok a ∧ s' = s := by
  cases x with
  | ok b =>
      cases h
      exact ⟨rfl, rfl⟩
  | error e =>
      cases h

/-- A sequence that succeeds ran its first statement successfully. -/
theorem bind_eq_ok {x : EStateM PyError σ α} {f : α → EStateM PyError σ β} {s s'' : σ}
    {b : β} (h : (x >>= f) s = .ok b s'') : ∃ a s', x s = .ok a s' ∧ f a s' = .ok b s'' := by
  cases hx : x s with
  | ok a s' =>
      rw [bind_apply_ok hx] at h
      exact ⟨a, s', rfl, h⟩
  | error e s' =>
      rw [bind_apply_error hx] at h
      cases h

/-- A loop that appends one result per iteration keeps an invariant that each
iteration keeps. -/
theorem mapM_invariant {l : List α} {f : α → EStateM PyError σ β}
    (P : σ → List β → Prop)
    (step : ∀ a ∈ l, ∀ s bs b s', P s bs → f a s = .ok b s' → P s' (bs ++ [b]))
    {s s' : σ} {bs bs' : List β} (hP : P s bs) (h : l.mapM f s = .ok bs' s') :
    P s' (bs ++ bs') := by
  induction l generalizing s bs bs' with
  | nil =>
      cases h
      simpa using hP
  | cons a l ih =>
      rw [List.mapM_cons] at h
      obtain ⟨b, s1, h1, h⟩ := bind_eq_ok h
      obtain ⟨bs1, s2, h2, h⟩ := bind_eq_ok h
      cases h
      have := ih (fun x hx => step x (List.mem_cons_of_mem a hx))
        (step a (List.mem_cons_self a l) s bs b s1 hP h1) h2
      simpa using this

/-- A loop that returns pairs each element with what one pass over it returned. -/
theorem mapM_forall₂ {l : List α} {f : α → EStateM PyError σ β} {s s' : σ} {bs : List β}
    (h : l.mapM f s = .ok bs s') : List.Forall₂ (fun a b => ∃ t t', f a t = .ok b t') l bs := by
  induction l generalizing s bs with
  | nil =>
      cases h
      exact .nil
  | cons a l ih =>
      rw [List.mapM_cons] at h
      obtain ⟨b, s1, h1, h⟩ := bind_eq_ok h
      obtain ⟨bs1, s2, h2, h⟩ := bind_eq_ok h
      cases h
      exact .cons ⟨_, _, h1⟩ (ih h2)

/-- A statement that raises did so in its first part, or after the first part ran. -/
theorem bind_eq_error {x : EStateM PyError σ α} {f : α → EStateM PyError σ β} {s s'' : σ}
    {e : PyError} (h : (x >>= f) s = .error e s'') :
    x s = .error e s'' ∨ ∃ a s', x s = .ok a s' ∧ f a s' = .error e s'' := by
  cases hx : x s with
  | ok a s' =>
      rw [bind_apply_ok hx] at h
      exact .inr ⟨a, s', rfl, h⟩
  | error e' s' =>
      rw [bind_apply_error hx] at h
      cases h
      exact .inl rfl

/-- Every run of `x`, normal or raising, relates its start and end states by `R`.  With `R`
reflexive and transitive this composes along `do` blocks and loops, which is how the
harness's frame facts ("the statement leaves `f` alone") are proved once per statement and
not once per path. -/
structure Keeps (R : σ → σ → Prop) (x : EStateM PyError σ α) : Prop where
  ok : ∀ {s a s'}, x s = .ok a s' → R s s'
  error : ∀ {s e s'}, x s = .error e s' → R s s'

/-- The relation "the observation `f` is the same in both states". -/
def Unchanged (f : σ → β) (s s' : σ) : Prop :=
  f s' = f s

instance (f : σ → β) : IsRefl σ (Unchanged f) :=
  ⟨fun _ => rfl⟩

instance (f : σ → β) : IsTrans σ (Unchanged f) :=
  ⟨fun _ _ _ h1 h2 => h2.trans h1⟩

section Keeps

variable {R : σ → σ → Prop}

theorem Keeps.pure [IsRefl σ R] (a : α) : Keeps R (pure a : EStateM PyError σ α) :=
  ⟨fun h => by cases h; exact refl _, fun h => nomatch h⟩

theorem Keeps.get [IsRefl σ R] : Keeps R (get : EStateM PyError σ σ) :=
  ⟨fun h => by cases h; exact refl _, fun h => nomatch h⟩

theorem Keeps.throw [IsRefl σ R] (e : PyError) : Keeps R (throw e : EStateM PyError σ α) :=
  ⟨fun h => (nomatch h), fun h => by cases h; exact refl _⟩

theorem Keeps.liftExcept [IsRefl σ R] (x : Except PyError α) :
    Keeps R (liftExcept x : EStateM PyError σ α) := by
  cases x
  · exact Keeps.throw _
  · exact Keeps.pure _

theorem Keeps.modify {f : σ → σ} (hf : ∀ s, R s (f s)) :
    Keeps R (modify f : EStateM PyError σ PUnit) :=
  ⟨fun h => by cases h; exact hf _, fun h => nomatch h⟩

theorem Keeps.bind [IsTrans σ R] {x : EStateM PyError σ α} {f : α → EStateM PyError σ β}
    (hx : Keeps R x) (hf : ∀ a, Keeps R (f a)) : Keeps R (x >>= f) := by
  constructor
  · intro s b s'' h
    obtain ⟨a, s', h1, h2⟩ := bind_eq_ok h
    exact IsTrans.trans _ _ _ (hx.ok h1) ((hf a).ok h2)
  · intro s e s'' h
    rcases bind_eq_error h with h1 | ⟨a, s', h1, h2⟩
    · exact hx.error h1
    · exact IsTrans.trans _ _ _ (hx.ok h1) ((hf a).error h2)

theorem Keeps.forM [IsRefl σ R] [IsTrans σ R] {l : List α} {f : α → EStateM PyError σ PUnit}
    (hf : ∀ a ∈ l, Keeps R (f a)) : Keeps R (l.forM f) := by
  induction l with
  | nil => exact Keeps.pure _
  | cons a l ih =>
      rw [List.forM_cons']
      exact (hf a (List.mem_cons_self a l)).bind
        fun _ => ih fun b hb => hf b (List.mem_cons_of_mem a hb)

theorem Keeps.ite {c : Prop} [Decidable c] {x y : EStateM PyError σ α} (hx : Keeps R x)
    (hy : Keeps R y) : Keeps R (if c then x else y) := by
  split
  · exact hx
  · exact hy

theorem Keeps.mapM [IsRefl σ R] [IsTrans σ R] {l : List α} {f : α → EStateM PyError σ β}
    (hf : ∀ a ∈ l, Keeps R (f a)) : Keeps R (l.mapM f) := by
  induction l with
  | nil => exact Keeps.pure _
  | cons a l ih =>
      rw [List.mapM_cons]
      exact (hf a (List.mem_cons_self a l)).bind fun _ =>
        (ih fun b hb => hf b (List.mem_cons_of_mem a hb)).bind fun _ => Keeps.pure _

theorem Keeps.foldlM [IsRefl σ R] [IsTrans σ R] {l : List α}
    {f : β → α → EStateM PyError σ β}
    (hf : ∀ b, ∀ a ∈ l, Keeps R (f b a)) (b : β) : Keeps R (l.foldlM f b) := by
  induction l generalizing b with
  | nil => exact Keeps.pure _
  | cons a l ih =>
      rw [List.foldlM_cons]
      exact (hf b a (List.mem_cons_self a l)).bind
        fun b' => ih (fun b'' x hx => hf b'' x (List.mem_cons_of_mem a hx)) b'

/-- Every result of a loop has a property that each pass gives its result and that the
later passes, which keep `R`, keep. -/
theorem mapM_forall_of_keeps {Q : σ → β → Prop} (hQ : ∀ {s s' b}, Q s b → R s s' → Q s' b)
    {l : List α} {f : α → EStateM PyError σ β} (hk : ∀ a ∈ l, Keeps R (f a))
    (hf : ∀ a ∈ l, ∀ {s b s'}, f a s = .ok b s' → Q s' b) {s s' : σ} {bs : List β}
    (h : l.mapM f s = .ok bs s') : ∀ b ∈ bs, Q s' b := by
  simpa using mapM_invariant (fun t cs => ∀ b ∈ cs, Q t b)
    (fun a ha t cs b t' hP hb => by
      simp only [List.mem_append, List.mem_singleton]
      rintro b' (hb' | rfl)
      exacts [hQ (hP b' hb') ((hk a ha).ok hb), hf a ha hb])
    (show ∀ b ∈ ([] : List β), Q s b from fun _ h => absurd h (List.not_mem_nil _)) h

/-- A program that starts by reading the state keeps `R` when, from every state `s` where
`P` holds, what follows keeps `R`, and `R` says nothing about a start where `P` fails. -/
theorem keeps_get_bind {P : σ → Prop} {f : σ → EStateM PyError σ β}
    (hf : ∀ s, P s → Keeps R (f s)) (hP : ∀ s s', ¬ P s → R s s') : Keeps R (get >>= f) := by
  constructor <;> intro s _ s' h <;> rw [bind_apply_ok (get_apply s)] at h <;> by_cases hs : P s
  · exact (hf s hs).ok h
  · exact hP s s' hs
  · exact (hf s hs).error h
  · exact hP s s' hs

/-- A program keeps `R` when its first part keeps `R` and returns a value and a state
where `P` holds, and the rest keeps `R` from every such value and state. -/
theorem Keeps.bind_of_ok [IsTrans σ R] {P : α → σ → Prop} {x : EStateM PyError σ α}
    {f : α → EStateM PyError σ β} (hx : Keeps R x) (hP : ∀ {s a s'}, x s = .ok a s' → P a s')
    (hf : ∀ a, Keeps (fun s s' => P a s → R s s') (f a)) : Keeps R (x >>= f) := by
  constructor
  · intro s b s'' h
    obtain ⟨a, s', h1, h2⟩ := bind_eq_ok h
    exact IsTrans.trans _ _ _ (hx.ok h1) ((hf a).ok h2 (hP h1))
  · intro s e s'' h
    rcases bind_eq_error h with h1 | ⟨a, s', h1, h2⟩
    · exact hx.error h1
    · exact IsTrans.trans _ _ _ (hx.ok h1) ((hf a).error h2 (hP h1))

/-- A program that keeps `R` under an assumption keeps `R` where the assumption holds. -/
theorem Keeps.guard {Q : Prop} {x : EStateM PyError σ α} (hx : Q → Keeps R x) :
    Keeps (fun s s' => Q → R s s') x :=
  ⟨fun h hq => (hx hq).ok h, fun h hq => (hx hq).error h⟩

theorem Keeps.mono {R' : σ → σ → Prop} {x : EStateM PyError σ α} (hx : Keeps R x)
    (h : ∀ s s', R s s' → R' s s') : Keeps R' x :=
  ⟨fun hr => h _ _ (hx.ok hr), fun hr => h _ _ (hx.error hr)⟩

end Keeps

end Statements

end BlkcgroupTest
