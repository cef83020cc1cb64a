import SheetMarkup.Source.Tokens

/-!
# Evaluating the cutting of a source

A source is cut by recursion on what remains of it, with proofs that what remains is shorter. The
evaluation of a given source goes through these proofs at every tag. Here the number of pieces is
given (`cutWithin`), and what comes of some number of pieces is what comes of cutting
(`cut_of_cutWithin`), so the tokens of a given source can be found by evaluation
(`tokenize_of_tokenizeWithin`).
-/

namespace SheetMarkup

/-- Cuts a source at its tags, if it has at most so many pieces. -/
def cutWithin : Nat → List Char → Option Cut
  | 0, _ => none
  | pieces + 1, cs =>
    match Opener.find? cs with
    | none => some (.text cs)
    | some (text, opener, inside) =>
      match Tag.read? opener inside with
      | none => some (.unclosed text opener inside)
      | some (tag, rest) => (cutWithin pieces rest).map (.tag text tag)

theorem cut_of_cutWithin {pieces : Nat} {cs : List Char} {found : Cut}
    (h : cutWithin pieces cs = some found) : cut cs = found := by
  -- both take the same tag off the source, so the cases of the one are those of the other
  induction pieces generalizing cs found with
  | zero => cases h
  | succ pieces ih =>
    rw [cutWithin] at h
    rw [cut]
    split at h
    · next none =>
      split
      · exact Option.some.inj h
      · next some => cases none.symm.trans some
    · next text opener inside some =>
      split
      · next none => cases some.symm.trans none
      · next again =>
        cases some.symm.trans again
        split at h
        · next unclosed =>
          split
          · exact Option.some.inj h
          · next closed => cases unclosed.symm.trans closed
        · next tag rest closed =>
          obtain ⟨after, cut, rfl⟩ := Option.map_eq_some_iff.mp h
          split
          · next unclosed => cases closed.symm.trans unclosed
          · next again =>
            cases closed.symm.trans again
            rw [ih cut]

/-- The tokens of a source, if it has at most so many pieces. -/
def tokenizeWithin (pieces : Nat) (source : String) : Option (Except Report (List Token)) :=
  (cutWithin pieces source.toList).map fun found => found.tokens 1 .nothing

/-- The tokens that are found within some number of pieces are the tokens. -/
theorem tokenize_of_tokenizeWithin {source : String} {tokens : Except Report (List Token)}
    (pieces : Nat) (h : tokenizeWithin pieces source = some tokens) : tokenize source = tokens := by
  obtain ⟨found, within, rfl⟩ := Option.map_eq_some_iff.mp h
  rw [tokenize, cut_of_cutWithin within]

end SheetMarkup
