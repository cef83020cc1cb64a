import SheetMarkup.Proofs.Lexeme.Spelling
import SheetMarkup.Proofs.Source.Shape

/-!
# What is read inside of tags can be written

Every token that stands inside of a tag of a source can be written: its names are identifiers, and
its real numbers are numbers that are no 64-bit integers (`writable_of_tokenize`).
-/

namespace SheetMarkup

open Token (Kind)

namespace Lexeme

/-! ## Numbers -/

namespace Number

theorem isDigit_of_mem_takeWhile {cs : List Char} :
    ∀ d ∈ cs.takeWhile Char.isDigit, d.isDigit = true := by
  intro d mem
  exact List.all_eq_true.mp List.all_takeWhile d mem

theorem isWhole_of_whole? {cs w rest : List Char} (h : whole? cs = some (w, rest)) : IsWhole w := by
  cases cs with
  | nil => cases h
  | cons c cs =>
      simp only [whole?] at h
      split at h
      · next zero =>
        cases h
        exact .inl (by rw [zero])
      · next nonzero =>
        split at h
        · next digit =>
          cases h
          refine .inr ⟨c, _, rfl, nonzero, by simp, ?_⟩
          intro d mem
          rcases List.mem_cons.mp mem with rfl | mem
          · exact digit
          · exact isDigit_of_mem_takeWhile d mem
        · cases h

theorem isFraction_fraction (cs : List Char) : IsFraction (fraction cs).1 := by
  cases cs with
  | nil => exact .inl rfl
  | cons c cs =>
      simp only [fraction]
      split
      · next found =>
        obtain ⟨rfl, ne⟩ := found
        exact .inr ⟨_, rfl, ne, isDigit_of_mem_takeWhile⟩
      · exact .inl rfl

theorem sign_mem (signs cs : List Char) :
    (sign signs cs).1 = [] ∨ ∃ c ∈ signs, (sign signs cs).1 = [c] := by
  cases cs with
  | nil => exact .inl rfl
  | cons c cs =>
      simp only [sign]
      split
      · next mem => exact .inr ⟨c, mem, rfl⟩
      · exact .inl rfl

theorem isExponent_exponent (cs : List Char) : IsExponent (exponent cs).1 := by
  cases cs with
  | nil => exact .inl rfl
  | cons c cs =>
      simp only [exponent]
      split
      · next found =>
        have signs := sign_mem ['+', '-'] cs
        refine .inr ⟨c, _, _, rfl, found.1, ?_, found.2, isDigit_of_mem_takeWhile⟩
        simpa [or_comm] using signs
      · exact .inl rfl

/-- What is split off as a number is one. -/
theorem isNumeral_of_split? {cs spelling rest : List Char}
    (h : split? cs = some (spelling, rest)) : IsNumeral spelling := by
  simp only [split?, Option.bind_eq_bind, Option.bind_eq_some_iff, Prod.exists] at h
  obtain ⟨w, behind, whole, h⟩ := h
  simp only [pure, Option.some.injEq, Prod.mk.injEq] at h
  obtain ⟨rfl, -⟩ := h
  refine ⟨_, w, _, _, rfl, ?_, isWhole_of_whole? whole, isFraction_fraction _,
    isExponent_exponent _⟩
  simpa using sign_mem ['-'] cs

theorem writable_kind {spelling : List Char} (h : IsNumeral spelling) :
    (kind spelling).Writable := by
  unfold kind
  split
  · exact trivial
  · next tooLarge => exact ⟨by rwa [String.toList_ofList], by rwa [String.toList_ofList]⟩

end Number

/-! ## Lexemes -/

/-- A lexeme that is read can be written. -/
theorem writable_of_read {cs rest : List Char} {lexeme : Lexeme}
    (h : read cs = .ok (lexeme, rest)) : lexeme.kind.Writable := by
  cases scanned_of_read h with
  | number split => exact Number.writable_kind (Number.isNumeral_of_split? split)
  | name start spelling =>
      subst spelling
      exact ⟨_, _, String.toList_ofList, start, List.all_eq_true.mp List.all_takeWhile⟩
  | literal | operator | mark => exact trivial

end Lexeme

/-! ## Sources -/

/-- Tokens of which those inside of tags can be written. -/
def WritableInside (tokens : List Token) : Prop :=
  ∀ token ∈ tokens, token.kind.IsInner → token.kind.Writable

namespace WritableInside

theorem append {tokens more : List Token} (h : WritableInside tokens)
    (h' : WritableInside more) : WritableInside (tokens ++ more) :=
  List.forall_mem_append.mpr ⟨h, h'⟩

theorem singleton {token : Token} (outside : ¬ token.kind.IsInner) : WritableInside [token] := by
  intro other mem inner
  cases List.mem_singleton.mp mem
  exact absurd inner outside

theorem textToken (line : Nat) (cs : List Char) : WritableInside (textToken line cs) := by
  unfold SheetMarkup.textToken
  split
  · simp [WritableInside]
  · exact singleton id

theorem tag {line : Nat} {tag : Tag} {tokens : List Token} (h : tag.tokens line = .ok tokens) :
    WritableInside tokens := by
  refine Tag.forall_kind_of_mem_tokens (P := fun kind => kind.IsInner → kind.Writable) ?_ ?_ h
  · exact fun _ => ⟨False.elim, False.elim⟩
  · exact fun _ _ _ read _ => Lexeme.writable_of_read read

end WritableInside

theorem Cut.writableInside {source : Cut} {line : Nat} {trimming : Trimming} {tokens : List Token}
    (h : source.tokens line trimming = .ok tokens) : WritableInside tokens := by
  induction source generalizing line trimming tokens with
  | text t =>
      cases h
      exact (WritableInside.textToken _ _).append (.singleton id)
  | unclosed => cases h
  | tag t found after ih =>
      obtain ⟨inside, more, first, second, rfl⟩ := tokens_tag_eq_ok_iff.mp h
      exact ((WritableInside.textToken _ _).append (.tag first)).append (ih second)

/-- What stands inside of the tags of a source can be written. -/
theorem writable_of_tokenize {source : String} {tokens : List Token}
    (h : tokenize source = .ok tokens) : WritableInside tokens := Cut.writableInside h

end SheetMarkup
