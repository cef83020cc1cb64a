import SheetMarkup.Proofs.Lexeme.Word

/-!
# Codes that can be told apart

What is shown can be taken back if the codes of its parts can be told apart: where two of them begin
the same text, they are the same, and so is what follows them (`Apart`). This carries over from
codes to rows of codes that end where no code begins (`eq_of_flatMap_append`), and to rows of codes
with commas between them that end with a bracket (`eq_of_separated_append`).

Quoted characters are read back by `unquoteChar?`, whatever follows them, so the quotes of a quoted
text cannot be taken for each other (`eq_of_quoted_append`). A numeral ends where no digit follows
(`eq_of_decimal_append`).
-/

namespace SheetMarkup

/-- Whether the codes of two values differ unless the values are the same, whatever admissible text
stands behind them. -/
def Apart {α : Type} (code : α → List Char) (Behind : List Char → Prop) (a b : α) : Prop :=
  ∀ rest rest', Behind rest → Behind rest' → code a ++ rest = code b ++ rest' →
    a = b ∧ rest = rest'

/-- Rows of codes that can be told apart are the same if the same text begins with them, no further
code follows them, and what follows a code is admissible behind another. -/
theorem eq_of_flatMap_append {α : Type} {code : α → List Char} {Behind : List Char → Prop}
    {as bs : List α} {rest rest' : List Char}
    (apart : ∀ a ∈ as, ∀ b ∈ bs, Apart code Behind a b)
    (behind : ∀ a ∈ as, ∀ tail, Behind tail → Behind (code a ++ tail))
    (behind' : ∀ b ∈ bs, ∀ tail, Behind tail → Behind (code b ++ tail))
    (stop : Behind rest) (stop' : Behind rest') (ends : ∀ b ∈ bs, ∀ tail, rest ≠ code b ++ tail)
    (ends' : ∀ a ∈ as, ∀ tail, rest' ≠ code a ++ tail)
    (h : as.flatMap code ++ rest = bs.flatMap code ++ rest') : as = bs ∧ rest = rest' := by
  -- what follows any of the codes is a row of codes with the rest behind it
  have admissible : ∀ cs : List α, (∀ c ∈ cs, ∀ tail, Behind tail → Behind (code c ++ tail)) →
      ∀ tail, Behind tail → Behind (cs.flatMap code ++ tail) := by
    intro cs each tail last
    induction cs with
    | nil => exact last
    | cons c cs ih =>
        rw [List.flatMap_cons, List.append_assoc]
        exact each c (by simp) _ (ih fun d mem => each d (by simp [mem]))
  induction as generalizing bs with
  | nil =>
      cases bs with
      | nil => exact ⟨rfl, h⟩
      | cons b bs =>
          rw [List.flatMap_cons, List.append_assoc] at h
          exact absurd h (ends b (by simp) _)
  | cons a as ih =>
      cases bs with
      | nil =>
          rw [List.flatMap_cons, List.append_assoc] at h
          exact absurd h.symm (ends' a (by simp) _)
      | cons b bs =>
          rw [List.flatMap_cons, List.flatMap_cons, List.append_assoc, List.append_assoc] at h
          have others := fun c mem => behind c (List.mem_cons_of_mem a mem)
          have others' := fun c mem => behind' c (List.mem_cons_of_mem b mem)
          obtain ⟨rfl, more⟩ := apart a (by simp) b (by simp) _ _
            (admissible as others rest stop) (admissible bs others' rest' stop') h
          obtain ⟨rfl, same⟩ := ih
            (fun c mem d mem' => apart c (by simp [mem]) d (by simp [mem'])) others others'
            (fun c mem => ends c (by simp [mem])) (fun c mem => ends' c (by simp [mem])) more
          exact ⟨rfl, same⟩

/-- Codes with commas between them. -/
def separated {α : Type} (code : α → List Char) : List α → List Char
  | [] => []
  | a :: as => code a ++ as.flatMap fun b => ',' :: ' ' :: code b

/-- Rows of codes with commas between them are the same if the same text begins with them and their
closing bracket, which begins no code. -/
theorem eq_of_separated_append {α : Type} {code : α → List Char} {Behind : List Char → Prop}
    {close : Char} {as bs : List α} {rest rest' : List Char} (noComma : close ≠ ',')
    (apart : ∀ a ∈ as, ∀ b ∈ bs, Apart code Behind a b) (comma : ∀ tail, Behind (',' :: tail))
    (closed : ∀ tail, Behind (close :: tail))
    (begins : ∀ a ∈ as, ∀ tail, (code a ++ tail).head? ≠ some close)
    (begins' : ∀ b ∈ bs, ∀ tail, (code b ++ tail).head? ≠ some close)
    (h : separated code as ++ close :: rest = separated code bs ++ close :: rest') :
    as = bs ∧ rest = rest' := by
  -- behind a code stands a comma, or the bracket
  have behind : ∀ (cs : List α) tail, Behind tail →
      Behind ((cs.flatMap fun c => ',' :: ' ' :: code c) ++ tail) := by
    intro cs tail last
    cases cs with
    | nil => exact last
    | cons c cs => exact comma _
  cases as with
  | nil =>
      cases bs with
      | nil => exact ⟨rfl, (List.cons.inj h).2⟩
      | cons b bs =>
          rw [separated, separated, List.append_assoc] at h
          exact absurd (congrArg List.head? h).symm (begins' b (by simp) _)
  | cons a as =>
      cases bs with
      | nil =>
          rw [separated, separated, List.append_assoc] at h
          exact absurd (congrArg List.head? h) (begins a (by simp) _)
      | cons b bs =>
          rw [separated, separated, List.append_assoc, List.append_assoc] at h
          obtain ⟨rfl, more⟩ := apart a (by simp) b (by simp) _ _ (behind as _ (closed rest))
            (behind bs _ (closed rest')) h
          have later : ∀ c ∈ as, ∀ d ∈ bs, Apart (fun c => ',' :: ' ' :: code c) Behind c d := by
            intro c mem d mem' tail tail' stop stop' same
            exact apart c (by simp [mem]) d (by simp [mem']) tail tail' stop stop'
              (List.cons.inj (List.cons.inj same).2).2
          have ends : ∀ (more : List Char) c tail, close :: more ≠ ',' :: ' ' :: code c ++ tail :=
            fun more c tail same => noComma (List.cons.inj same).1
          obtain ⟨rfl, same⟩ := eq_of_flatMap_append later (fun _ _ _ _ => comma _)
            (fun _ _ _ _ => comma _) (closed rest) (closed rest') (fun c _ => ends rest c)
            (fun c _ => ends rest' c) more
          exact ⟨rfl, (List.cons.inj same).2⟩

namespace Text

/-- Takes a quoted character off the beginning of a text. -/
def unquoteChar? : List Char → Option (Char × List Char)
  | '\\' :: 'n' :: cs => some ('\n', cs)
  | '\\' :: 'r' :: cs => some ('\r', cs)
  | '\\' :: 't' :: cs => some ('\t', cs)
  | '\\' :: '0' :: cs => some ('\x00', cs)
  | '\\' :: 'u' :: '{' :: cs =>
    some (Char.ofNat (value 16 (cs.takeWhile (· ≠ '}'))), (cs.dropWhile (· ≠ '}')).tail)
  | '\\' :: c :: cs => some (c, cs)
  | c :: cs => some (c, cs)
  | [] => none

theorem digit_ne_closeBrace : ∀ n < 16, digit n ≠ '}' := by decide

/-- The digits of a code are no braces. -/
theorem ne_closeBrace_of_mem_digits (n : Nat) : ∀ c ∈ digits 16 n, c ≠ '}' := by
  induction n using Nat.strongRecOn with
  | _ n ih =>
      rw [digits]
      intro c mem
      split at mem
      · next small =>
        cases List.mem_singleton.mp mem
        exact digit_ne_closeBrace n (by omega)
      · next large =>
        rcases List.mem_append.mp mem with mem | mem
        · exact ih (n / 16) (by omega) c mem
        · cases List.mem_singleton.mp mem
          exact digit_ne_closeBrace _ (Nat.mod_lt n (by omega))

/-- A quoted character is read back, whatever follows it. -/
theorem unquoteChar?_quoteChar (c : Char) (rest : List Char) :
    unquoteChar? (quoteChar c ++ rest) = some (c, rest) := by
  unfold quoteChar
  split
  · next eq => subst eq; rfl
  split
  · next eq => subst eq; rfl
  split
  · next eq => subst eq; rfl
  split
  · next eq => subst eq; rfl
  split
  · next eq => subst eq; rfl
  split
  · next eq => subst eq; rfl
  split
  · next backslash _ _ _ _ _ => simp [unquoteChar?, backslash]
  · -- the digits of the code end at the brace
    have all : ∀ d ∈ digits 16 c.toNat, decide (d ≠ '}') = true := by
      intro d mem
      simpa using ne_closeBrace_of_mem_digits c.toNat d mem
    have stop : ∀ d ∈ ('}' :: rest).head?, decide (d ≠ '}') = false := by simp
    obtain ⟨take, drop⟩ := takeWhile_append_stop all stop
    have shape : ['\\', 'u', '{'] ++ digits 16 c.toNat ++ ['}'] ++ rest =
        '\\' :: 'u' :: '{' :: (digits 16 c.toNat ++ '}' :: rest) := by simp
    rw [shape, unquoteChar?, take, drop, value_digits (by omega) (by omega), Char.ofNat_toNat]
    rfl

/-- A quoted character does not begin with the quote that ends a text. -/
theorem head?_quoteChar_ne (c : Char) (rest : List Char) :
    (quoteChar c ++ rest).head? ≠ some '"' := by
  unfold quoteChar
  split
  · simp
  · next quote =>
    repeat' split
    all_goals simp [quote]

/-- A quoted text ends at its own quote, so what begins with it tells it. -/
theorem eq_of_quoted_append {cs cs' rest rest' : List Char}
    (h : quoted cs ++ rest = quoted cs' ++ rest') : cs = cs' ∧ rest = rest' := by
  have shape : ∀ ds more, quoted ds ++ more = '"' :: (ds.flatMap quoteChar ++ '"' :: more) := by
    simp [quoted]
  rw [shape, shape] at h
  have apart : ∀ c d, Apart quoteChar (fun _ => True) c d := by
    intro c d rest rest' _ _ same
    have read := congrArg unquoteChar? same
    rw [unquoteChar?_quoteChar, unquoteChar?_quoteChar] at read
    exact Prod.mk.inj (Option.some.inj read)
  have ends : ∀ (more : List Char) c tail, '"' :: more ≠ quoteChar c ++ tail := by
    intro more c tail same
    exact head?_quoteChar_ne c tail (congrArg List.head? same).symm
  obtain ⟨same, others⟩ := eq_of_flatMap_append (fun c _ d _ => apart c d)
    (fun _ _ _ _ => trivial) (fun _ _ _ _ => trivial) trivial trivial
    (fun c _ => ends rest c) (fun c _ => ends rest' c) (List.cons.inj h).2
  exact ⟨same, (List.cons.inj others).2⟩

/-- A numeral that no digit follows is told by what begins with it. -/
theorem eq_of_decimal_append {n n' : Nat} {rest rest' : List Char}
    (h : decimal n ++ rest = decimal n' ++ rest') (stop : ∀ c ∈ rest.head?, c.isDigit = false)
    (stop' : ∀ c ∈ rest'.head?, c.isDigit = false) : n = n' ∧ rest = rest' := by
  obtain ⟨same, others⟩ :=
    eq_of_runs h (isDigit_of_mem_decimal n) (isDigit_of_mem_decimal n') stop stop'
  have read := congrArg (value 10) same
  rw [decimal, decimal, value_digits (by omega) (by omega),
    value_digits (by omega) (by omega)] at read
  exact ⟨read, others⟩

end Text

end SheetMarkup
