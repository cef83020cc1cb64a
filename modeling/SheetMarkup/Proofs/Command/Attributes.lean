import SheetMarkup.Command.Run
import SheetMarkup.Proofs.Attributes
import SheetMarkup.Proofs.Source.Segmentation

/-!
# The attributes of a command line

An attribute argument gives a value to a key: the key is what stands before the first equals sign,
without the blanks around it, and the value is all that stands behind it (`Gives`). What is
collected from the arguments of a command line are the keys that they give, each with the value of
its last argument and in the order of these last arguments (`Collected`). The arguments are read one
by one, and a key that is given again moves to the end, so the proof goes along the arguments from
the last one on.

An argument without an equals sign stops everything: it is reported before any template is read.
The main result is `run_attributes`.
-/

namespace SheetMarkup

/-! ## Keys and values -/

theorem Text.trim_eq_iff {cs kept : List Char} :
    Text.trim cs = kept ↔
      ∃ lead trail, cs = lead ++ kept ++ trail ∧ (∀ c ∈ lead ++ trail, Text.isBlank c = true) ∧
        (∀ c, kept.head? = some c → Text.isBlank c = false) ∧
        ∀ c, kept.getLast? = some c → Text.isBlank c = false := by
  constructor
  · intro trimmed
    obtain ⟨lead, split, leadBlank, leadStop⟩ := dropWhile_eq_iff.mp (rfl : trimStart cs = _)
    obtain ⟨trail, rest, trailBlank, trailStop⟩ := Text.trimEnd_eq_iff.mp trimmed
    refine ⟨lead, trail, ?_, List.forall_mem_append.mpr ⟨leadBlank, trailBlank⟩, ?_, trailStop⟩
    · rw [split, rest, List.append_assoc]
    · intro c head
      apply leadStop
      rw [rest, List.head?_append, head]
      rfl
  · rintro ⟨lead, trail, rfl, blank, start, stop⟩
    obtain ⟨leadBlank, trailBlank⟩ := List.forall_mem_append.mp blank
    cases kept with
    | nil =>
        -- nothing but blanks: the leading ones are all of them
        have nothing : trimStart (lead ++ [] ++ trail) = [] :=
          dropWhile_eq_iff.mpr ⟨lead ++ trail, by simp, blank, by simp⟩
        rw [trim, nothing]
        rfl
    | cons first kept =>
        have behind : trimStart (lead ++ (first :: kept) ++ trail) = (first :: kept) ++ trail := by
          apply dropWhile_eq_iff.mpr
          exact ⟨lead, by simp, leadBlank, by simpa using start⟩
        rw [trim, behind]
        exact Text.trimEnd_eq_iff.mpr ⟨trail, rfl, trailBlank, stop⟩

namespace Command

/-- The key and the value that an argument gives: it is the key with blanks around it, then an
equals sign, then the value. The key has no equals sign and neither begins nor ends with a blank. -/
structure Gives (argument key value : String) : Prop where
  written : ∃ lead trail, argument.toList = lead ++ key.toList ++ trail ++ '=' :: value.toList ∧
    ∀ c ∈ lead ++ trail, Text.isBlank c = true
  noEquals : '=' ∉ key.toList
  bareStart : ∀ c, key.toList.head? = some c → Text.isBlank c = false
  bareEnd : ∀ c, key.toList.getLast? = some c → Text.isBlank c = false

/-- A text is split at its first equals sign. -/
theorem span_equals_iff {cs before value : List Char} :
    cs.takeWhile (· ≠ '=') = before ∧ cs.dropWhile (· ≠ '=') = '=' :: value ↔
      cs = before ++ '=' :: value ∧ '=' ∉ before := by
  constructor
  · rintro ⟨rfl, rest⟩
    refine ⟨?_, ?_⟩
    · rw [← rest, List.takeWhile_append_dropWhile]
    · intro mem
      have other := List.all_eq_true.mp List.all_takeWhile _ mem
      simp at other
  · rintro ⟨rfl, none⟩
    have passes : ∀ c ∈ before, decide (c ≠ '=') = true := by
      intro c mem
      rw [decide_eq_true_eq]
      rintro rfl
      exact none mem
    rw [List.takeWhile_append_of_pos passes, List.dropWhile_append_of_pos passes]
    exact ⟨by simp, by simp⟩

theorem readAttribute?_eq_some_iff {argument key value : String} :
    readAttribute? argument = some (key, value) ↔ Gives argument key value := by
  have parts : readAttribute? argument = some (key, value) ↔
      ∃ before, argument.toList = before ++ '=' :: value.toList ∧ '=' ∉ before ∧
        Text.trim before = key.toList := by
    constructor
    · intro h
      simp only [readAttribute?] at h
      split at h
      · cases h
      · next c rest split =>
        obtain rfl : c = '=' := by
          have stop := List.head?_dropWhile_not (fun c => decide (c ≠ '=')) argument.toList
          rw [split] at stop
          simpa using stop
        obtain ⟨eq, none⟩ := span_equals_iff.mp ⟨rfl, split⟩
        cases h
        exact ⟨_, by simpa using eq, none, by simp⟩
    · rintro ⟨before, eq, none, trimmed⟩
      obtain ⟨first, rest⟩ := span_equals_iff.mpr ⟨eq, none⟩
      simp only [readAttribute?, rest, first, trimmed, String.ofList_toList]
  rw [parts]
  constructor
  · rintro ⟨before, eq, none, trimmed⟩
    obtain ⟨lead, trail, rfl, blank, start, stop⟩ := Text.trim_eq_iff.mp trimmed
    exact ⟨⟨lead, trail, eq, blank⟩, fun mem => none (by simp [mem]), start, stop⟩
  · rintro ⟨⟨lead, trail, eq, blank⟩, none, start, stop⟩
    refine ⟨lead ++ key.toList ++ trail, eq, ?_, Text.trim_eq_iff.mpr ⟨lead, trail, rfl, blank,
      start, stop⟩⟩
    -- an equals sign is no blank
    have notBlank : '=' ∉ lead ++ trail := fun mem => absurd (blank _ mem) (by decide)
    simp only [List.mem_append, not_or] at notBlank ⊢
    exact ⟨⟨notBlank.1, none⟩, notBlank.2⟩

theorem readAttribute?_eq_none_iff {argument : String} :
    readAttribute? argument = none ↔ '=' ∉ argument.toList := by
  rw [← not_iff_not, ← ne_eq, Option.ne_none_iff_exists', not_not]
  constructor
  · rintro ⟨⟨key, value⟩, found⟩
    obtain ⟨lead, trail, eq, -⟩ := (readAttribute?_eq_some_iff.mp found).written
    rw [eq]
    simp
  · intro mem
    simp only [readAttribute?]
    split
    · next none =>
      have passed := List.dropWhile_eq_nil_iff.mp none _ mem
      simp at passed
    · exact ⟨_, rfl⟩

/-- No argument gives two keys, or two values. -/
theorem Gives.unique {argument key key' value value' : String} (h : Gives argument key value)
    (h' : Gives argument key' value') : key = key' ∧ value = value' := by
  have same := (readAttribute?_eq_some_iff.mpr h).symm.trans (readAttribute?_eq_some_iff.mpr h')
  simpa using same

/-! ## Collecting -/

/-- The argument at this place gives the key its value, and no later argument gives the key any. -/
structure LastGiven (arguments : List String) (key value : String) (place : Nat) : Prop where
  here : ∃ argument, arguments[place]? = some argument ∧ Gives argument key value
  last : ∀ later argument other, place < later → arguments[later]? = some argument →
    ¬ Gives argument key other

/-- A map with the keys that the arguments give, in the order of the places where they are given for
the last time, and with the values that they are given there. -/
structure Collected (arguments : List String) (map : OrderedMap String) : Prop where
  complete : ∀ argument ∈ arguments, ∀ key value, Gives argument key value → key ∈ map.keys
  given : ∀ entry ∈ map.entries, ∃ place, LastGiven arguments entry.1 entry.2 place
  ordered : map.entries.Pairwise fun a b => ∃ place later, place < later ∧
    LastGiven arguments a.1 a.2 place ∧ LastGiven arguments b.1 b.2 later

theorem LastGiven.lt_length {arguments : List String} {key value : String} {place : Nat}
    (h : LastGiven arguments key value place) : place < arguments.length := by
  obtain ⟨argument, found, -⟩ := h.here
  exact (List.getElem?_eq_some_iff.mp found).1

section Append

variable {arguments : List String} {argument key value : String}

/-- What the last argument gives, it gives for the last time. -/
theorem LastGiven.concat (gives : Gives argument key value) :
    LastGiven (arguments ++ [argument]) key value arguments.length where
  here := ⟨argument, by simp, gives⟩
  last := by
    intro later found other behind at_
    rw [List.getElem?_eq_none (by simpa using behind)] at at_
    cases at_

/-- A key that is given last stays so behind an argument for another key. -/
theorem LastGiven.append {other new : String} {place : Nat}
    (h : LastGiven arguments other new place) (gives : Gives argument key value)
    (ne : other ≠ key) : LastGiven (arguments ++ [argument]) other new place where
  here := by
    obtain ⟨found, at_, given⟩ := h.here
    exact ⟨found, by rw [List.getElem?_append_left h.lt_length, at_], given⟩
  last := by
    intro later found value' behind at_ given
    rcases Nat.lt_or_ge later arguments.length with inside | outside
    · rw [List.getElem?_append_left inside] at at_
      exact h.last later found value' behind at_ given
    · rw [List.getElem?_append_right outside] at at_
      cases List.mem_singleton.mp (List.mem_of_getElem? at_)
      exact ne (given.unique gives).1

/-- One more argument is collected by writing its key. -/
theorem Collected.insert {map : OrderedMap String} (h : Collected arguments map)
    (gives : Gives argument key value) :
    Collected (arguments ++ [argument]) (map.insert key value) where
  -- an entry of another key stays where it was, and the one of this key is now the last
  complete := by
    intro found mem key' value' given
    rw [OrderedMap.keys_insert, List.mem_append, List.mem_filter, List.mem_singleton,
      decide_eq_true_eq]
    by_cases same : key' = key
    · exact .inr same
    rcases List.mem_append.mp mem with mem | mem
    · exact .inl ⟨h.complete found mem key' value' given, same⟩
    · cases List.mem_singleton.mp mem
      exact absurd (given.unique gives).1 same
  given := by
    intro entry mem
    rw [OrderedMap.entries_insert, List.mem_append, List.mem_filter, decide_eq_true_eq] at mem
    rcases mem with ⟨mem, other⟩ | mem
    · obtain ⟨place, last⟩ := h.given entry mem
      exact ⟨place, last.append gives other⟩
    · cases List.mem_singleton.mp mem
      exact ⟨arguments.length, .concat gives⟩
  ordered := by
    rw [OrderedMap.entries_insert]
    apply List.pairwise_append.mpr
    refine ⟨?_, List.pairwise_singleton _ _, ?_⟩
    · apply (h.ordered.filter _).imp_of_mem
      rintro a b memA memB ⟨place, later, lt, first, second⟩
      simp only [List.mem_filter, decide_eq_true_eq] at memA memB
      exact ⟨place, later, lt, first.append gives memA.2, second.append gives memB.2⟩
    · intro a memA b memB
      cases List.mem_singleton.mp memB
      simp only [List.mem_filter, decide_eq_true_eq] at memA
      obtain ⟨place, last⟩ := h.given a memA.1
      exact ⟨place, arguments.length, last.lt_length, last.append gives memA.2, .concat gives⟩

theorem readAttributes_concat (arguments : List String) (argument : String) :
    readAttributes (arguments ++ [argument]) =
      (readAttributes arguments).bind fun map =>
        match readAttribute? argument with
        | some (key, value) => .ok (map.insert key value)
        | none => .error argument := by
  rw [readAttributes, List.foldlM_append]
  simp only [List.foldlM_cons, List.foldlM_nil, bind_pure]
  rfl

end Append

/-- Arguments that all give something are collected. -/
theorem exists_collected {arguments : List String}
    (h : ∀ argument ∈ arguments, '=' ∈ argument.toList) :
    ∃ map, readAttributes arguments = .ok map ∧ Collected arguments map := by
  induction arguments using List.reverseRecOn with
  | nil => exact ⟨.empty, rfl, by simp, by simp [OrderedMap.empty], .nil⟩
  | append_singleton arguments argument ih =>
      obtain ⟨before, last⟩ := List.forall_mem_append.mp h
      obtain ⟨map, read, collected⟩ := ih before
      have equals : '=' ∈ argument.toList := last argument (by simp)
      cases found : readAttribute? argument with
      | none => exact absurd equals (readAttribute?_eq_none_iff.mp found)
      | some entry =>
          refine ⟨map.insert entry.1 entry.2, ?_,
            collected.insert (readAttribute?_eq_some_iff.mp found)⟩
          rw [readAttributes_concat, read, found]
          rfl

/-- An argument that gives nothing, behind others that do, is what is wrong. -/
theorem readAttributes_eq_error {before after : List String} {argument : String}
    (earlier : ∀ argument ∈ before, '=' ∈ argument.toList) (h : '=' ∉ argument.toList) :
    readAttributes (before ++ argument :: after) = .error argument := by
  obtain ⟨map, read, -⟩ := exists_collected earlier
  have stops : readAttributes (before ++ [argument]) = .error argument := by
    rw [readAttributes_concat, read, readAttribute?_eq_none_iff.mpr h]
    rfl
  rw [List.append_cons, readAttributes, List.foldlM_append]
  exact congrArg (· >>= _) stops

/-! ## Running under attributes -/

/-- The document roots of a template that is compiled carry the attributes of the document. -/
theorem carries_of_compileContent {attributes : OrderedMap String} {path : String}
    {content : Content} {template : Template}
    (h : compileContent (.spreadsheet attributes) path content = .ok template) :
    template.body.Throughout (Node.Carries attributes) := by
  cases content with
  | missing | notText => cases h
  | text source =>
      simp only [compileContent, Dialect.compile_spreadsheet attributes] at h
      cases compiled : (Dialect.spreadsheet .empty).compile path source with
      | error report => simp [compiled, Except.map] at h
      | ok plain =>
          simp only [compiled, Except.map] at h
          cases h
          exact Node.throughout_carries attributes plain.body

/-- If all attribute arguments have an equals sign, they are collected and the command is run under
what comes of them, which every document root of every template carries that is compiled. If not,
the first one without is reported, and no file is read: in every monad the run is done already. -/
theorem run_attributes (invocation : Invocation) :
    ((∀ argument ∈ invocation.attributes, '=' ∈ argument.toList) →
      ∃ attributes, readAttributes invocation.attributes = .ok attributes ∧
        Collected invocation.attributes attributes ∧ attributes.keys.Nodup ∧
        (∀ (m : Type → Type) [Monad m] (read : String → m Content),
          invocation.runWith read = invocation.action.runWith (.spreadsheet attributes) read) ∧
        (∀ files, invocation.run files = invocation.action.run (.spreadsheet attributes) files) ∧
        ∀ path content template,
          compileContent (.spreadsheet attributes) path content = .ok template →
            template.body.Throughout (Node.Carries attributes)) ∧
    ∀ before argument after, invocation.attributes = before ++ argument :: after →
      (∀ earlier ∈ before, '=' ∈ earlier.toList) → '=' ∉ argument.toList →
        let outcome : Outcome :=
          ⟨1, "", "error: attribute '" ++ argument ++ "' must have the form KEY=VALUE\n"⟩
        (∀ (m : Type → Type) [Monad m] (read : String → m Content),
            invocation.runWith read = pure outcome) ∧
          ∀ files, invocation.run files = outcome := by
  constructor
  · intro written
    obtain ⟨attributes, read, collected⟩ := exists_collected written
    have runs (m : Type → Type) [Monad m] (reader : String → m Content) :
        invocation.runWith reader = invocation.action.runWith (.spreadsheet attributes) reader := by
      rw [Invocation.runWith, read]
    refine ⟨attributes, read, collected, attributes.keys_nodup, runs, ?_, ?_⟩
    · exact fun files => runs Id fun path => pure (files path)
    · intro path content template compiled
      exact carries_of_compileContent compiled
  · intro before argument after split earlier none outcome
    have wrong : readAttributes invocation.attributes = .error argument :=
      split ▸ readAttributes_eq_error earlier none
    have text :
        "error: " ++ ("attribute '" ++ argument ++ "' must have the form KEY=VALUE") ++ "\n" =
        "error: attribute '" ++ argument ++ "' must have the form KEY=VALUE\n" := by
      apply String.toList_inj.mp
      simp
    have done (m : Type → Type) [Monad m] (read : String → m Content) :
        invocation.runWith read = pure outcome := by
      rw [Invocation.runWith, wrong]
      exact congrArg (fun text => pure (Outcome.mk 1 "" text)) text
    exact ⟨done, fun files => done Id fun path => pure (files path)⟩

/-- A key that is given twice stands where it is given last. -/
theorem run_attributes_again :
    (∃ attributes, readAttributes ["lang =en", "title=a=b", "\u2003lang= de "] = .ok attributes ∧
      attributes.entries = [("title", "a=b"), ("lang", " de ")] ∧
      Collected ["lang =en", "title=a=b", "\u2003lang= de "] attributes) ∧
    ∀ files, (⟨["lang=en", "title", "="], .check ["t"]⟩ : Invocation).run files =
      ⟨1, "", "error: attribute 'title' must have the form KEY=VALUE\n"⟩ := by
  constructor
  · obtain ⟨attributes, read, collected, -⟩ := (run_attributes
      ⟨["lang =en", "title=a=b", "\u2003lang= de "], .check ["t"]⟩).1 (by decide)
    refine ⟨attributes, read, ?_, collected⟩
    have entries : (readAttributes ["lang =en", "title=a=b", "\u2003lang= de "]).map
        OrderedMap.entries = .ok [("title", "a=b"), ("lang", " de ")] := by rfl
    rw [show readAttributes _ = _ from read] at entries
    exact Except.ok.inj entries
  · exact ((run_attributes ⟨["lang=en", "title", "="], .check ["t"]⟩).2 ["lang=en"] "title" ["="]
      rfl (by decide) (by decide)).2

end Command

end SheetMarkup
