import SheetMarkup.Proofs.Expr.Writing
import SheetMarkup.Proofs.Text.Apart

/-!
# Shown expressions can be told apart

An expression that can be read is told by what is shown of it, whatever stands behind it
(`WellFormed.shownApart`), if only that begins like what stands behind shown expressions (`Stops`).

An expression is shown as a core with the attributes and indices behind it (`Linked`). The core has
no parentheses around it, but its first character tells its sort (`Lead`), and it ends where a link
or something else stands behind it (`Breaks`): a number goes on with a point only before a digit,
and attributes do not begin with one. Lists and hashes are shown item by item, and comparisons in
parentheses.
-/

namespace SheetMarkup

namespace Expr

/-! ## Links -/

/-- An attribute or an index behind an object. -/
inductive Link where
  | attributeOf (word : String)
  | indexOf (e : Expr)

namespace Link

/-- How a link is shown. -/
def spelling : Link → List Char
  | attributeOf word => '.' :: word.toList
  | indexOf e => '[' :: e.spelling ++ [']']

/-- The expression for a link of an object. -/
def apply (object : Expr) : Link → Expr
  | attributeOf word => .attribute object word
  | indexOf e => .index object e

/-- The links of expressions that can be read. -/
inductive WellFormed : Link → Prop
  | attributeOf {word : String} : IsIdentifier word → WellFormed (.attributeOf word)
  | indexOf {e : Expr} : e.WellFormed → WellFormed (.indexOf e)

end Link

theorem spelling_foldl_apply (links : List Link) (base : Expr) :
    (links.foldl Link.apply base).spelling = base.spelling ++ links.flatMap Link.spelling := by
  induction links generalizing base with
  | nil => simp
  | cons link links ih =>
      rw [List.foldl_cons, ih, List.flatMap_cons, ← List.append_assoc]
      congr 1
      cases link with
      | attributeOf word => rw [Link.apply, spelling]; rfl
      | indexOf e => rw [Link.apply, spelling]; simp [Link.spelling]

/-! ## What stands behind expressions -/

/-- The characters right behind shown expressions. -/
def stops : List Char := ['\n', ' ', ',', ':', ')', ']', '}']

/-- A text that stands behind a shown expression. -/
def Stops (rest : List Char) : Prop := ∃ c more, rest = c :: more ∧ c ∈ stops

/-- A text that stands behind the core of a shown expression: that, or a link. -/
def Breaks (rest : List Char) : Prop :=
  Stops rest ∨ ∃ link more, Link.WellFormed link ∧ rest = link.spelling ++ more

theorem stops_cons {c : Char} (h : c ∈ stops) (more : List Char) : Stops (c :: more) :=
  ⟨c, more, rfl, h⟩

/-- What stands behind a core is no character of a name. -/
theorem Breaks.isNameChar_eq_false {rest : List Char} (h : Breaks rest) :
    ∀ c ∈ rest.head?, Lexeme.isNameChar c = false := by
  rcases h with ⟨c, more, rfl, stop⟩ | ⟨link, more, formed, rfl⟩
  · intro d mem
    cases mem
    have none : ∀ c ∈ stops, (!Lexeme.isNameChar c) = true := List.all_eq_true.mp rfl
    simpa using none c stop
  · intro d mem
    cases formed <;> cases mem <;> decide

/-- What stands behind a core does not go on with a number. -/
theorem Breaks.ends {rest : List Char} (h : Breaks rest) : Lexeme.Number.Ends rest := by
  have noName := h.isNameChar_eq_false
  have noDigit : ∀ c, Lexeme.isNameChar c = false → c.isDigit = false := by
    intro c no
    cases digit : c.isDigit with
    | false => rfl
    | true => simp [Lexeme.isNameChar, Char.isAlphanum, digit] at no
  refine ⟨fun c mem => noDigit c (noName c mem), ?_, ?_⟩
  · intro c mem mark
    have no := noName c mem
    simp only [Lexeme.Number.exponentMarks, List.mem_cons, List.not_mem_nil, or_false] at mark
    rcases mark with rfl | rfl <;> cases no
  · -- an attribute begins with a letter
    rintro more rfl
    rcases h with ⟨c, _, eq, stop⟩ | ⟨link, _, formed, eq⟩
    · cases eq
      exact absurd stop (by decide)
    · cases formed with
      | indexOf => simp [Link.spelling] at eq
      | attributeOf word =>
          obtain ⟨first, cs, spelled, start, -⟩ := word
          simp only [Link.spelling, spelled, List.cons_append, List.cons.injEq, true_and] at eq
          subst eq
          intro d mem
          cases mem
          obtain ⟨low, -⟩ := Lexeme.toNat_of_isNameStart start
          cases digit : first.isDigit with
          | false => rfl
          | true =>
              have := Text.toNat_of_isDigit digit
              omega

/-! ## Cores -/

/-- The sorts of expressions by their first character. -/
inductive Lead where
  | quote
  | number
  | word
  | bracket
  | brace
  | paren
deriving DecidableEq

/-- The sort of the expressions that begin with a character. -/
def Lead.of? (c : Char) : Option Lead :=
  if c = '"' then some quote
  else if c = '-' ∨ c.isDigit then some number
  else if Lexeme.isNameStart c then some word
  else if c = '[' then some bracket
  else if c = '{' then some brace
  else if c = '(' then some paren
  else none

/-- The number that is shown as a numeral. -/
def ofNumeral (cs : List Char) : Expr :=
  match Text.readInt64? cs with
  | some value => .integer value
  | none => .real (String.ofList cs)

/-- The literal or name that is shown as a word. -/
def ofWord (cs : List Char) : Expr :=
  if cs = "true".toList then .bool true
  else if cs = "false".toList then .bool false
  else if cs = "null".toList then .null
  else .name (String.ofList cs)

/-- The expressions that are no attribute and no index, by their sort. -/
inductive Core : Lead → Expr → Prop
  | string (value : String) : Core .quote (.string value)
  | number {e : Expr} : Lexeme.Number.IsNumeral e.spelling → ofNumeral e.spelling = e →
      Core .number e
  | word {e : Expr} : IsIdentifier (String.ofList e.spelling) → ofWord e.spelling = e →
      Core .word e
  | list {items : List Expr} : (∀ item ∈ items, item.WellFormed) → Core .bracket (.list items)
  | hash {pairs : List (Expr × Expr)} : pairs ≠ [] → (∀ pair ∈ pairs, pair.1.WellFormed) →
      (∀ pair ∈ pairs, pair.2.WellFormed) → Core .brace (.hash pairs)
  | compare {left right : Expr} (comparison : Comparison) : left.WellFormed → right.WellFormed →
      Core .paren (.compare comparison left right)

theorem spelling_list (items : List Expr) :
    (list items).spelling = '[' :: Entry.spellings (items.map .item) ++ [']'] := by
  rw [list, spelling, showsHash_items]
  rfl

theorem spelling_hash {pairs : List (Expr × Expr)} (ne : pairs ≠ []) :
    (hash pairs).spelling =
      '{' :: Entry.spellings (pairs.map fun (key, value) => .pair key value) ++ ['}'] := by
  rw [hash, spelling, showsHash_pairs ne]
  rfl

/-- The first character of a core tells its sort. -/
theorem Core.exists_spelling_eq {lead : Lead} {e : Expr} (h : Core lead e) :
    ∃ c cs, e.spelling = c :: cs ∧ Lead.of? c = some lead := by
  cases h with
  | string value =>
      rw [spelling]
      exact ⟨'"', _, rfl, rfl⟩
  | number numeral _ =>
      obtain ⟨c, rest, eq, first⟩ := numeral.exists_eq_cons
      refine ⟨c, rest, eq, ?_⟩
      have noQuote : c ≠ '"' := by
        rintro rfl
        simp at first
      simp [Lead.of?, noQuote, first]
  | word identifier _ =>
      obtain ⟨c, cs, eq, start, -⟩ := identifier
      rw [String.toList_ofList] at eq
      refine ⟨c, cs, eq, ?_⟩
      obtain ⟨low, high⟩ := Lexeme.toNat_of_isNameStart start
      have noQuote : c ≠ '"' := by
        rintro rfl
        revert low
        decide
      have noNumber : ¬ (c = '-' ∨ c.isDigit = true) := by
        rintro (rfl | digit)
        · revert low
          decide
        · have := Text.toNat_of_isDigit digit
          omega
      simp [Lead.of?, noQuote, noNumber, start]
  | list =>
      rw [spelling_list]
      exact ⟨'[', _, rfl, rfl⟩
  | hash ne =>
      rw [spelling_hash ne]
      exact ⟨'{', _, rfl, rfl⟩
  | compare =>
      rw [spelling]
      exact ⟨'(', _, rfl, rfl⟩

/-! ## Cores and links -/

/-- An expression with a core and links of certain sorts. -/
def Linked (IsCore : Lead → Expr → Prop) (IsLink : Link → Prop) (e : Expr) : Prop :=
  ∃ (base : Expr) (links : List Link) (lead : Lead), e = links.foldl Link.apply base ∧
    IsCore lead base ∧ ∀ link ∈ links, IsLink link

namespace Linked

variable {IsCore : Lead → Expr → Prop} {IsLink : Link → Prop} {e : Expr}

theorem core {lead : Lead} (h : IsCore lead e) : Linked IsCore IsLink e :=
  ⟨e, [], lead, rfl, h, by simp⟩

theorem apply (h : Linked IsCore IsLink e) {link : Link} (formed : IsLink link) :
    Linked IsCore IsLink (link.apply e) := by
  obtain ⟨base, links, lead, rfl, core, all⟩ := h
  refine ⟨base, links ++ [link], lead, by simp, core, ?_⟩
  intro other mem
  rcases List.mem_append.mp mem with mem | mem
  · exact all other mem
  · cases List.mem_singleton.mp mem
    exact formed

end Linked

theorem core_integer (value : Int64) : Core .number (.integer value) := by
  have shown : (Expr.integer value).spelling = Text.signedDecimal value.toInt := by rw [spelling]
  apply Core.number
  · rw [shown]
    exact Lexeme.Number.isNumeral_signedDecimal _
  · rw [shown, ofNumeral, Text.readInt64?_signedDecimal]

theorem core_real {written : String} (h : (Token.Kind.real written).Writable) :
    Core .number (.real written) := by
  have shown : (Expr.real written).spelling = written.toList := by rw [spelling]
  apply Core.number
  · rw [shown]
    exact h.1
  · rw [shown, ofNumeral, h.2]
    simp

theorem core_bool (value : Bool) : Core .word (.bool value) := by
  have identifier : IsIdentifier "true" ∧ IsIdentifier "false" :=
    ⟨⟨_, _, rfl, rfl, List.all_eq_true.mp rfl⟩, ⟨_, _, rfl, rfl, List.all_eq_true.mp rfl⟩⟩
  cases value with
  | true =>
      have shown : (Expr.bool true).spelling = "true".toList := by rw [spelling]
      apply Core.word
      · rw [shown]
        exact identifier.1
      · rw [shown]
        rfl
  | false =>
      have shown : (Expr.bool false).spelling = "false".toList := by rw [spelling]
      apply Core.word
      · rw [shown]
        exact identifier.2
      · rw [shown]
        rfl

theorem core_null : Core .word .null := by
  have shown : Expr.null.spelling = "null".toList := by rw [spelling]
  apply Core.word
  · rw [shown]
    exact ⟨_, _, rfl, rfl, List.all_eq_true.mp rfl⟩
  · rw [shown]
    rfl

theorem core_name {word : String} (identifier : IsIdentifier word)
    (free : word ∉ Grammar.constants.map Prod.fst) : Core .word (.name word) := by
  have shown : (Expr.name word).spelling = word.toList := by rw [spelling]
  apply Core.word
  · rw [shown, String.ofList_toList]
    exact identifier
  · -- a name is none of the literals that are shown as words
    have other : ∀ constant ∈ Grammar.constants.map Prod.fst, word.toList ≠ constant.toList := by
      intro constant mem same
      cases String.toList_injective same
      exact free mem
    rw [shown, ofWord, if_neg (other "true" (by decide)), if_neg (other "false" (by decide)),
      if_neg (other "null" (by decide)), String.ofList_toList]

/-- An expression that can be read is shown as a core with links. -/
theorem WellFormed.linked {e : Expr} (h : e.WellFormed) : Linked Core Link.WellFormed e := by
  induction h with
  | string value => exact .core (.string value)
  | integer value => exact .core (core_integer value)
  | real writable => exact .core (core_real writable)
  | bool value => exact .core (core_bool value)
  | null => exact .core core_null
  | name identifier free => exact .core (core_name identifier free)
  | list items _ => exact .core (.list items)
  | @hash pairs keys values _ _ =>
      cases pairs with
      | nil =>
          -- a hash without pairs is a list without items
          have none : ∀ item ∈ ([] : List Expr), item.WellFormed := by simp
          exact .core (.list none)
      | cons pair pairs => exact .core (.hash (by simp) keys values)
  | attributeOf _ identifier ih => exact ih.apply (.attributeOf identifier)
  | indexOf _ index ih _ => exact ih.apply (.indexOf index)
  | comparison comparison left right _ _ => exact .core (.compare comparison left right)

theorem WellFormed.exists_spelling_eq {e : Expr} (h : e.WellFormed) :
    ∃ c cs, e.spelling = c :: cs ∧ Lead.of? c ≠ none := by
  obtain ⟨base, links, lead, rfl, core, -⟩ := h.linked
  obtain ⟨c, cs, eq, first⟩ := core.exists_spelling_eq
  refine ⟨c, cs ++ links.flatMap Link.spelling, ?_, by simp [first]⟩
  rw [spelling_foldl_apply, eq]
  rfl

/-! ## Telling apart -/

/-- An expression that can be told apart from all that can be read. -/
def ShownApart (e : Expr) : Prop := ∀ e', e'.WellFormed → Apart spelling Stops e e'

/-- A core that can be told apart from all cores of its sort. -/
def CoreApart (lead : Lead) (base : Expr) : Prop :=
  Core lead base ∧ ∀ e', Core lead e' → Apart spelling Breaks base e'

/-- A link that can be told apart from all links. -/
def LinkApart (link : Link) : Prop :=
  link.WellFormed ∧ ∀ link', link'.WellFormed → Apart Link.spelling Breaks link link'

theorem Link.spelling_ne_of_stops {rest : List Char} (stop : Stops rest) {link : Link}
    (h : link.WellFormed) (tail : List Char) : rest ≠ link.spelling ++ tail := by
  rintro rfl
  obtain ⟨c, more, eq, mem⟩ := stop
  cases h with
  | attributeOf =>
      cases (List.cons.inj eq).1
      exact absurd mem (by decide)
  | indexOf =>
      cases (List.cons.inj eq).1
      exact absurd mem (by decide)

/-- Cores and links that can be told apart make expressions that can be. -/
theorem Linked.shownApart {e : Expr} (h : Linked CoreApart LinkApart e) : e.ShownApart := by
  obtain ⟨base, links, lead, rfl, ⟨core, coreApart⟩, all⟩ := h
  intro e' formed rest rest' stop stop' eq
  obtain ⟨base', links', lead', rfl, core', all'⟩ := formed.linked
  rw [spelling_foldl_apply, spelling_foldl_apply, List.append_assoc, List.append_assoc] at eq
  -- what stands behind a core is a link or what stands behind the whole
  have breaks : ∀ ls : List Link, (∀ link ∈ ls, link.WellFormed) → ∀ tail, Stops tail →
      Breaks (ls.flatMap Link.spelling ++ tail) := by
    intro ls formed tail stop
    cases ls with
    | nil => exact .inl stop
    | cons link ls =>
        exact .inr ⟨link, ls.flatMap Link.spelling ++ tail, formed link (by simp), by simp⟩
  have same : lead = lead' := by
    obtain ⟨c, cs, spelled, first⟩ := core.exists_spelling_eq
    obtain ⟨c', cs', spelled', first'⟩ := core'.exists_spelling_eq
    rw [spelled, spelled'] at eq
    obtain ⟨rfl, -⟩ := List.cons.inj eq
    exact Option.some.inj (first.symm.trans first')
  subst same
  have formedLinks : ∀ link ∈ links, link.WellFormed := fun link mem => (all link mem).1
  obtain ⟨rfl, more⟩ := coreApart base' core' _ _ (breaks links formedLinks rest stop)
    (breaks links' all' rest' stop') eq
  obtain ⟨rfl, others⟩ := eq_of_flatMap_append
    (fun link mem link' mem' => (all link mem).2 link' (all' link' mem'))
    (fun link mem tail _ => .inr ⟨link, tail, formedLinks link mem, rfl⟩)
    (fun link mem tail _ => .inr ⟨link, tail, all' link mem, rfl⟩) (.inl stop) (.inl stop')
    (fun link mem => Link.spelling_ne_of_stops stop (all' link mem))
    (fun link mem => Link.spelling_ne_of_stops stop' (formedLinks link mem)) more
  exact ⟨rfl, others⟩

/-! ## Links -/

theorem linkApart_attributeOf {word : String} (h : IsIdentifier word) :
    LinkApart (.attributeOf word) := by
  refine ⟨.attributeOf h, ?_⟩
  intro link' formed rest rest' breaks breaks' eq
  cases formed with
  | indexOf => simp [Link.spelling] at eq
  | attributeOf h' =>
      obtain ⟨same, others⟩ := eq_of_runs (List.cons.inj eq).2 h.isNameChar_of_mem
        h'.isNameChar_of_mem
        breaks.isNameChar_eq_false breaks'.isNameChar_eq_false
      exact ⟨by rw [String.toList_injective same], others⟩

theorem linkApart_indexOf {e : Expr} (h : e.WellFormed) (apart : e.ShownApart) :
    LinkApart (.indexOf e) := by
  refine ⟨.indexOf h, ?_⟩
  intro link' formed rest rest' _ _ eq
  cases formed with
  | attributeOf => simp [Link.spelling] at eq
  | @indexOf e' h' =>
      simp only [Link.spelling, List.cons_append, List.append_assoc, List.nil_append,
        List.cons.injEq, true_and] at eq
      obtain ⟨rfl, more⟩ := apart e' h' _ _ (stops_cons (by decide) _) (stops_cons (by decide) _) eq
      exact ⟨rfl, (List.cons.inj more).2⟩

/-! ## Entries -/

theorem spellings_eq (entries : List Entry) :
    Entry.spellings entries = separated Entry.spelling entries := by
  induction entries with
  | nil => rw [Entry.spellings]; rfl
  | cons entry more ih =>
      cases more with
      | nil => rw [Entry.spellings]; simp [separated]
      | cons next more =>
          rw [Entry.spellings, ih]
          · simp [separated]
          · simp

/-- Rows of entries that can be told apart are the same if the same text begins with them and their
closing bracket. -/
theorem eq_of_spellings_append {close : Char} (stop : close ∈ stops) (noComma : close ≠ ',')
    (noLead : Lead.of? close = none) {es es' : List Entry} {rest rest' : List Char}
    (apart : ∀ entry ∈ es, ∀ entry' ∈ es', Apart Entry.spelling Stops entry entry')
    (begins : ∀ entry ∈ es, ∃ c cs, entry.spelling = c :: cs ∧ Lead.of? c ≠ none)
    (begins' : ∀ entry ∈ es', ∃ c cs, entry.spelling = c :: cs ∧ Lead.of? c ≠ none)
    (h : Entry.spellings es ++ close :: rest = Entry.spellings es' ++ close :: rest') :
    es = es' ∧ rest = rest' := by
  -- no entry begins with the closing bracket
  have first_ne : ∀ entry : Entry, (∃ c cs, entry.spelling = c :: cs ∧ Lead.of? c ≠ none) →
      ∀ tail, (entry.spelling ++ tail).head? ≠ some close := by
    rintro entry ⟨c, cs, eq, lead⟩ tail same
    rw [eq] at same
    cases same
    exact lead noLead
  rw [spellings_eq, spellings_eq] at h
  exact eq_of_separated_append noComma apart (stops_cons (by decide)) (stops_cons stop)
    (fun entry mem => first_ne entry (begins entry mem))
    (fun entry mem => first_ne entry (begins' entry mem)) h

theorem apart_item {e e' : Expr} (apart : e.ShownApart) (h' : e'.WellFormed) :
    Apart Entry.spelling Stops (.item e) (.item e') := by
  intro rest rest' stop stop' eq
  rw [Entry.spelling, Entry.spelling] at eq
  obtain ⟨rfl, others⟩ := apart e' h' rest rest' stop stop' eq
  exact ⟨rfl, others⟩

theorem apart_pair {key value key' value' : Expr} (keyApart : key.ShownApart)
    (valueApart : value.ShownApart) (hk : key'.WellFormed) (hv : value'.WellFormed) :
    Apart Entry.spelling Stops (.pair key value) (.pair key' value') := by
  intro rest rest' stop stop' eq
  rw [Entry.spelling, Entry.spelling] at eq
  simp only [List.append_assoc, List.cons_append, List.nil_append] at eq
  obtain ⟨rfl, more⟩ := keyApart key' hk _ _ (stops_cons (by decide) _)
    (stops_cons (by decide) _) eq
  obtain ⟨rfl, others⟩ := valueApart value' hv rest rest' stop stop'
    (List.cons.inj (List.cons.inj more).2).2
  exact ⟨rfl, others⟩

/-! ## Cores -/

theorem coreApart_string (value : String) : CoreApart .quote (.string value) := by
  refine ⟨.string value, ?_⟩
  intro e' core rest rest' _ _ eq
  cases core with
  | string value' =>
      rw [spelling, spelling] at eq
      obtain ⟨same, others⟩ := Text.eq_of_quoted_append eq
      exact ⟨by rw [String.toList_injective same], others⟩

theorem coreApart_number {e : Expr} (h : Core .number e) : CoreApart .number e := by
  refine ⟨h, ?_⟩
  intro e' core rest rest' breaks breaks' eq
  cases h with
  | number numeral shown =>
      cases core with
      | number numeral' shown' =>
          -- both numerals are what is split off the same text
          have split := Lexeme.Number.split?_append_of numeral breaks.ends
          rw [eq, Lexeme.Number.split?_append_of numeral' breaks'.ends] at split
          obtain ⟨same, others⟩ := Prod.mk.inj (Option.some.inj split)
          exact ⟨by rw [← shown, ← shown', same], others.symm⟩

theorem coreApart_word {e : Expr} (h : Core .word e) : CoreApart .word e := by
  refine ⟨h, ?_⟩
  intro e' core rest rest' breaks breaks' eq
  cases h with
  | word identifier shown =>
      cases core with
      | word identifier' shown' =>
          have run := identifier.isNameChar_of_mem
          have run' := identifier'.isNameChar_of_mem
          rw [String.toList_ofList] at run run'
          obtain ⟨same, others⟩ := eq_of_runs eq run run' breaks.isNameChar_eq_false
            breaks'.isNameChar_eq_false
          exact ⟨by rw [← shown, ← shown', same], others⟩

theorem coreApart_list {items : List Expr} (h : ∀ item ∈ items, item.WellFormed)
    (apart : ∀ item ∈ items, item.ShownApart) : CoreApart .bracket (.list items) := by
  refine ⟨.list h, ?_⟩
  intro e' core rest rest' _ _ eq
  cases core with
  | @list items' h' =>
      rw [spelling_list, spelling_list, List.append_assoc, List.append_assoc] at eq
      have begins : ∀ {items : List Expr}, (∀ item ∈ items, item.WellFormed) →
          ∀ entry ∈ items.map Entry.item, ∃ c cs, entry.spelling = c :: cs ∧
            Lead.of? c ≠ none := by
        intro items h entry mem
        obtain ⟨item, item_mem, rfl⟩ := List.mem_map.mp mem
        rw [Entry.spelling]
        exact (h item item_mem).exists_spelling_eq
      have entries : ∀ entry ∈ items.map Entry.item, ∀ entry' ∈ items'.map Entry.item,
          Apart Entry.spelling Stops entry entry' := by
        intro entry mem entry' mem'
        obtain ⟨item, item_mem, rfl⟩ := List.mem_map.mp mem
        obtain ⟨item', item_mem', rfl⟩ := List.mem_map.mp mem'
        exact apart_item (apart item item_mem) (h' item' item_mem')
      obtain ⟨same, others⟩ := eq_of_spellings_append (by decide) (by decide) (by decide) entries
        (begins h) (begins h') (List.cons.inj eq).2
      exact ⟨congrArg array same, others⟩

theorem coreApart_hash {pairs : List (Expr × Expr)} (ne : pairs ≠ [])
    (keys : ∀ pair ∈ pairs, pair.1.WellFormed) (values : ∀ pair ∈ pairs, pair.2.WellFormed)
    (keysApart : ∀ pair ∈ pairs, pair.1.ShownApart)
    (valuesApart : ∀ pair ∈ pairs, pair.2.ShownApart) : CoreApart .brace (.hash pairs) := by
  refine ⟨.hash ne keys values, ?_⟩
  intro e' core rest rest' _ _ eq
  cases core with
  | @hash pairs' ne' keys' values' =>
      rw [spelling_hash ne, spelling_hash ne', List.append_assoc, List.append_assoc] at eq
      -- an entry begins as its key does, so none begins with the brace that closes the hash
      have begins : ∀ {pairs : List (Expr × Expr)}, (∀ pair ∈ pairs, pair.1.WellFormed) →
          ∀ entry ∈ pairs.map fun (key, value) => Entry.pair key value,
            ∃ c cs, entry.spelling = c :: cs ∧ Lead.of? c ≠ none := by
        intro pairs keys entry mem
        obtain ⟨pair, pair_mem, rfl⟩ := List.mem_map.mp mem
        obtain ⟨c, cs, eq, lead⟩ := (keys pair pair_mem).exists_spelling_eq
        rw [Entry.spelling, eq]
        exact ⟨c, _, rfl, lead⟩
      have entries : ∀ entry ∈ pairs.map fun (key, value) => Entry.pair key value,
          ∀ entry' ∈ pairs'.map fun (key, value) => Entry.pair key value,
            Apart Entry.spelling Stops entry entry' := by
        intro entry mem entry' mem'
        obtain ⟨pair, pair_mem, rfl⟩ := List.mem_map.mp mem
        obtain ⟨pair', pair_mem', rfl⟩ := List.mem_map.mp mem'
        exact apart_pair (keysApart pair pair_mem) (valuesApart pair pair_mem)
          (keys' pair' pair_mem') (values' pair' pair_mem')
      obtain ⟨same, others⟩ := eq_of_spellings_append (by decide) (by decide) (by decide) entries
        (begins keys) (begins keys') (List.cons.inj eq).2
      exact ⟨congrArg array same, others⟩

theorem coreApart_compare {left right : Expr} (comparison : Comparison) (hl : left.WellFormed)
    (hr : right.WellFormed) (leftApart : left.ShownApart) (rightApart : right.ShownApart) :
    CoreApart .paren (.compare comparison left right) := by
  refine ⟨.compare comparison hl hr, ?_⟩
  intro e' core rest rest' _ _ eq
  cases core with
  | @compare left' right' comparison' hl' hr' =>
      have blank : ∀ (comparison : Comparison) tail, Stops (comparison.spelling ++ tail) := by
        intro comparison tail
        cases comparison <;> exact stops_cons (by decide) _
      rw [spelling, spelling] at eq
      simp only [List.cons_append, List.append_assoc, List.nil_append, List.cons.injEq,
        true_and] at eq
      obtain ⟨rfl, more⟩ := leftApart left' hl' _ _ (blank _ _) (blank _ _) eq
      have operator : comparison = comparison' ∧ right.spelling ++ ')' :: rest =
          right'.spelling ++ ')' :: rest' := by
        cases comparison <;> cases comparison' <;> simp_all [Comparison.spelling]
      obtain ⟨rfl, right_eq⟩ := operator
      obtain ⟨rfl, others⟩ := rightApart right' hr' _ _ (stops_cons (by decide) _)
        (stops_cons (by decide) _) right_eq
      exact ⟨rfl, (List.cons.inj others).2⟩

theorem WellFormed.linked_apart {e : Expr} (h : e.WellFormed) : Linked CoreApart LinkApart e := by
  induction h with
  | string value => exact .core (coreApart_string value)
  | integer value => exact .core (coreApart_number (core_integer value))
  | real writable => exact .core (coreApart_number (core_real writable))
  | bool value => exact .core (coreApart_word (core_bool value))
  | null => exact .core (coreApart_word core_null)
  | name identifier free => exact .core (coreApart_word (core_name identifier free))
  | list items ih => exact .core (coreApart_list items fun item mem => (ih item mem).shownApart)
  | @hash pairs keys values ih ih' =>
      cases pairs with
      | nil =>
          have none : ∀ item ∈ ([] : List Expr), item.WellFormed := by simp
          exact .core (coreApart_list none (by simp))
      | cons pair pairs =>
          exact .core (coreApart_hash (by simp) keys values
            (fun pair mem => (ih pair mem).shownApart) fun pair mem => (ih' pair mem).shownApart)
  | attributeOf _ identifier ih => exact ih.apply (linkApart_attributeOf identifier)
  | indexOf _ index ih ih' => exact ih.apply (linkApart_indexOf index ih'.shownApart)
  | comparison comparison left right ih ih' =>
      exact .core (coreApart_compare comparison left right ih.shownApart ih'.shownApart)

/-- What begins with a shown expression tells the expression and what stands behind it. -/
theorem WellFormed.shownApart {e : Expr} (h : e.WellFormed) : e.ShownApart :=
  h.linked_apart.shownApart

/-- Expressions that can be read are shown differently. -/
theorem WellFormed.display_injective {e e' : Expr} (h : e.WellFormed) (h' : e'.WellFormed)
    (same : e.display = e'.display) : e = e' := by
  have stop : Stops ['\n'] := stops_cons (by decide) []
  have spellings := String.ofList_injective same
  exact (h.shownApart e' h' _ _ stop stop (by rw [spellings])).1

end Expr

end SheetMarkup
