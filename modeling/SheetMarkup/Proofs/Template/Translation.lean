import SheetMarkup.Proofs.Template.Constructs

/-!
# Drafts in other surroundings

The same tokens can be read in other surroundings: with other directives, under another tag, or up
to another bound. There each draft has its counterpart, and the counterpart of a longer draft is the
longer counterpart (`Draft.Translation`). So whatever a tag opens, it opens in the counterpart too
(`Draft.Translation.openTag_eq`).

What a step comes to is handed on to the other reading. If this is right where a block tag is read
and at the end of the tokens, then it is right for each step (`Draft.Translation.step_handed`), and
by induction on the constructs also for the rest of the template (`Draft.Translation.rest_handed`).
-/

namespace SheetMarkup

open Reading

section Mapping

variable {α β : Type} {g : α → β} {r t : Reading α} {s s' : TokenStream}

theorem map_of_eq (h : r s = t s) : (g <$> r) s = (g <$> t) s := by
  simp only [Functor.map, EStateM.map, h]

/-- A repetition is a function of the stream, in which the general lemma does not see a reading. -/
theorem map_collect_bind {γ : Type} {stop : Token.Kind} {item later : Item γ}
    (rest : List γ → Reading α) :
    g <$> (collect stop item later >>= rest : Reading α) =
      (collect stop item later >>= fun items => g <$> rest items : Reading β) :=
  map_bind _ _ _

end Mapping

namespace Draft

/-- The reading of the rest of a template behind a draft. -/
def rest (draft : Draft) (dialect : Dialect) (bound : Bound) : Reading Node :=
  draft.read dialect bound

/-- What follows a construct. -/
def goOn (dialect : Dialect) (bound : Bound) : Draft ⊕ Node → Reading Node
  | .inl draft => draft.rest dialect bound
  | .inr node => return node

/-- The rest is one construct, and what follows it. -/
theorem rest_eq (draft : Draft) (dialect : Dialect) (bound : Bound) :
    draft.rest dialect bound = draft.step dialect bound >>= goOn dialect bound := by
  funext s
  rw [rest, read_eq]
  simp only [bind, EStateM.bind]
  split
  · next failed => rw [failed]
  · next ended => rw [ended]; rfl
  · next went => rw [went]; rfl

/-! ## Counterparts -/

/-- A counterpart for each draft, and for what a tag can open. The nodes of texts and printed values
and the tags of the host language are their own counterparts. Only the nodes of the directives that
it covers need have one. -/
structure Translation where
  draft : Draft → Draft
  tag : OpenTag → OpenTag
  directive : Directive → Directive
  covers : Directive → Prop
  text (d : Draft) (line : Nat) (value : String) :
    (draft d).push (.text line value) = draft (d.push (.text line value))
  print (d : Draft) (line : Nat) (value : Expr) :
    (draft d).push (.print line value) = draft (d.push (.print line value))
  lone (d : Draft) (e : Directive) (line : Nat) (parameters : OrderedMap Expr) : covers e →
    (draft d).push ((directive e).node line parameters none) =
      draft (d.push (e.node line parameters none))
  within (d : Draft) (opened : OpenTag) (line : Nat) :
    (draft d).within (tag opened) line = draft (d.within opened line)
  thenBody (line : Nat) (condition : Expr) :
    tag (.thenBody line condition) = .thenBody line condition
  loop (line : Nat) (binding : String) (iterable : Expr) :
    tag (.loop line binding iterable) = .loop line binding iterable
  definition (line : Nat) (name : String) (arguments : List String) :
    tag (.definition line name arguments) = .definition line name arguments
  bodied (e : Directive) (line : Nat) (parameters : OrderedMap Expr) :
    tag (.directive line e parameters) = .directive line (directive e) parameters
  hasBody (e : Directive) : (directive e).hasBody = e.hasBody
  parameters (e : Directive) : (directive e).parameters = e.parameters

namespace Translation

/-- Every draft as its own counterpart. -/
def refl : Translation where
  draft d := d
  tag opened := opened
  directive e := e
  covers _ := True
  text _ _ _ := rfl
  print _ _ _ := rfl
  lone _ _ _ _ _ := rfl
  within _ _ _ := rfl
  thenBody _ _ := rfl
  loop _ _ _ := rfl
  definition _ _ _ := rfl
  bodied _ _ _ := rfl
  hasBody _ := rfl
  parameters _ := rfl

variable (t : Translation) (draft : Draft)

theorem enter_eq (tag : OpenTag) :
    (t.draft draft).enter (t.tag tag) = t.draft <$> draft.enter tag := by
  have opened (draft : Draft) (tag : OpenTag) :
      draft.enter tag = current >>= fun token => pure (draft.within tag token.line) := rfl
  simp only [opened, map_bind, map_pure, t.within]

theorem readOutput_eq (line : Nat) :
    (t.draft draft).readOutput line = t.draft <$> draft.readOutput line := by
  simp only [Draft.readOutput, map_bind, map_pure, t.print]

theorem openChoice_eq (line : Nat) :
    (t.draft draft).openChoice line = t.draft <$> draft.openChoice line := by
  simp only [Draft.openChoice, map_bind, ← t.enter_eq, t.thenBody]

theorem openLoop_eq (line : Nat) :
    (t.draft draft).openLoop line = t.draft <$> draft.openLoop line := by
  simp only [Draft.openLoop, map_bind, ← t.enter_eq, t.loop]

theorem openDefinition_eq (line : Nat) :
    (t.draft draft).openDefinition line = t.draft <$> draft.openDefinition line := by
  simp only [Draft.openDefinition, map_bind, map_collect_bind, ← t.enter_eq, t.definition]

theorem openDirective_eq (name : Token) {e : Directive} (covered : t.covers e) :
    (t.draft draft).openDirective name (t.directive e) =
      t.draft <$> draft.openDirective name e := by
  have parameters : (t.directive e).readParameters name = e.readParameters name := by
    simp only [Directive.readParameters, t.parameters]
  simp only [Draft.openDirective, parameters, t.hasBody, map_bind]
  congr 1
  funext parameters
  split
  · rw [← t.enter_eq, t.bodied]
  · rw [map_pure, t.lone _ _ _ _ covered]

/-- A tag that closes nothing opens the same, if its directive is the counterpart of the one that it
has on the other side. -/
theorem openTag_eq {dialect dialect' : Dialect} {name : String}
    (found : name ∉ ["if", "for", "macro"] →
      dialect'.find? name = (dialect.find? name).map t.directive ∧
        ∀ e, dialect.find? name = some e → t.covers e) (line : Nat) :
    (t.draft draft).openTag dialect' line name = t.draft <$> draft.openTag dialect line name := by
  unfold Draft.openTag
  split
  · exact t.openChoice_eq draft line
  split
  · exact t.openLoop_eq draft line
  split
  · exact t.openDefinition_eq draft line
  next notIf notFor notMacro =>
  obtain ⟨same, covered⟩ := found (by simp [notIf, notFor, notMacro])
  rw [same]
  cases here : dialect.find? name with
  | none => rfl
  | some e => exact t.openDirective_eq draft ⟨.name name, line⟩ (covered e here)

/-! ## Steps and runs -/

variable (hand : Draft ⊕ Node → Reading (Draft ⊕ Node))

/-- A draft that comes of a construct is handed on as its counterpart. -/
theorem inl_handed (goes : ∀ draft, hand (.inl draft) = pure (.inl (t.draft draft)))
    (r : Reading Draft) :
    (Sum.inl <$> t.draft <$> r : Reading (Draft ⊕ Node)) = Sum.inl <$> r >>= hand := by
  simp only [← bind_pure_comp, bind_assoc, pure_bind, goes]

variable {dialect dialect' : Dialect} {bound bound' : Bound} {s : TokenStream}

/-- What a step comes to may be handed on to the counterpart, if this is so for block tags and at
the end of the tokens. -/
theorem step_handed (goes : ∀ draft, hand (.inl draft) = pure (.inl (t.draft draft)))
    (block : s.current.kind = .opening .block →
      (t.draft draft).readBlock dialect' bound' s.advance =
        (draft.readBlock dialect bound >>= hand) s.advance)
    (ends : s.current.kind = .eof →
      (t.draft draft).step dialect' bound' s = (draft.step dialect bound >>= hand) s) :
    (t.draft draft).step dialect' bound' s = (draft.step dialect bound >>= hand) s := by
  cases kind : s.current.kind with
  | text value =>
      rw [step_of_text kind, bind_of_eq_ok (step_of_text kind), goes, t.text]
      rfl
  | opening form =>
      cases form with
      | output =>
          rw [step_of_output kind, bind_of_eq (step_of_output kind), t.readOutput_eq,
            t.inl_handed hand goes]
      | block => rw [step_of_block kind, bind_of_eq (step_of_block kind), block kind]
  | eof => exact ends kind
  | _ => simp only [Draft.step, kind, bind, EStateM.bind]

/-- If what each step comes to is handed on, then the rest of a template is read by handing on what
the last step comes to. What is asked of a draft and of the tokens ahead need only stay so through
each construct. -/
theorem rest_handed (P : Draft → TokenStream → Prop)
    (later : ∀ {draft draft' : Draft} {taken : List Token} {s : TokenStream},
      draft.Takes dialect bound s.current.line taken draft' → P draft (s.prepend taken) →
        P draft' s)
    (goes : ∀ draft, hand (.inl draft) = pure (.inl (t.draft draft)))
    (step : ∀ draft s, P draft s →
      (t.draft draft).step dialect' bound' s = (draft.step dialect bound >>= hand) s)
    (here : P draft s) :
    (t.draft draft).rest dialect' bound' s =
      (draft.rest dialect bound >>= fun node => hand (.inr node) >>= goOn dialect' bound') s := by
  -- the induction follows the reading in its own surroundings
  induction draft, s using Draft.read.induct dialect bound with
  | case1 draft s report s' failed =>
      rw [rest_eq, bind_of_eq (step draft s here), bind_assoc, bind_of_eq_error failed,
        rest_eq draft, bind_assoc, bind_of_eq_error failed]
  | case2 draft s node s' ended =>
      rw [rest_eq, bind_of_eq (step draft s here), bind_assoc, bind_of_eq_ok ended,
        rest_eq draft, bind_assoc, bind_of_eq_ok ended]
      simp only [goOn, pure_bind]
  | case3 draft s draft' s' went ih =>
      obtain ⟨taken, rfl, takes⟩ := step_eq_inl_iff.mp went
      rw [rest_eq, bind_of_eq (step draft _ here), bind_assoc, bind_of_eq_ok went, goes, pure_bind,
        rest_eq draft, bind_assoc, bind_of_eq_ok went]
      exact ih (later takes here)

end Translation

end Draft

end SheetMarkup
