import Mathlib.Data.List.Basic
import SheetMarkup.Proofs.Template.Translation

/-!
# Tags read from within

The reading of a template keeps the tags that are open on a stack. Seen from outside, a tag that is
opened is read as a whole: its body up to the tag that ends it, then the rest of that tag
(`Dialect.readRest`), and the reading goes on with one more node (`Draft.enter_rest`). The body of a
tag is read under it as it would be read alone up to one of the names that end it
(`Draft.rest_under`), as each of its constructs does the same in both places (`Draft.step_under`).
-/

namespace SheetMarkup

open Reading

theorem Token.isName_eq {token : Token} {name : String} (h : token.kind = .name name)
    (other : String) : token.isName other = decide (name = other) := by
  rw [Token.isName, h, beq_eq_decide]
  simp

theorem Bound.stopsAt_atTag {token : Token} {name : String} (h : token.kind = .name name)
    (names : List String) (taken : Bool) :
    (atTag names taken).stopsAt token = names.contains name := by
  rw [atTag, stopsAt, List.contains_eq_any_beq]
  congr 1
  funext other
  rw [Token.isName_eq h, beq_eq_decide]

namespace Draft

/-! ## Under another tag -/

/-- A draft with another tag open around all others. -/
def under (draft : Draft) (frame : OpenTag × Body) : Draft :=
  ⟨draft.body, draft.enclosing ++ [frame]⟩

/-- Reads the tag at which the body of the outermost tag ends. -/
def leave (frame : OpenTag × Body) (node : Node) : Reading Draft := do
  let token ← next
  endBlock
  match frame.1, token.isName "else" with
  | .thenBody line condition, true => enter ⟨frame.2, []⟩ (.elseBody line condition node)
  | _, _ => return ⟨frame.2.push (frame.1.node node), []⟩

/-- How a draft goes on under a tag, which its end may be the end of. -/
def resume (frame : OpenTag × Body) : Draft ⊕ Node → Reading Draft
  | .inl draft => return draft.under frame
  | .inr node => leave frame node

section Under

variable (draft : Draft) (frame : OpenTag × Body)

/-- The draft under another tag is its counterpart there; what tags open is the same. -/
def Translation.under : Translation :=
  { Translation.refl with
    draft := fun draft => draft.under frame
    text := fun _ _ _ => rfl
    print := fun _ _ _ => rfl
    lone := fun _ _ _ _ _ => rfl
    within := fun _ _ _ => rfl }

/-- A tag that closes nothing does the same under another one. -/
theorem openTag_under (dialect : Dialect) (line : Nat) (name : String) :
    (draft.under frame).openTag dialect line name =
      (fun draft => draft.under frame) <$> draft.openTag dialect line name :=
  (Translation.under frame).openTag_eq draft
    (fun _ => ⟨Option.map_id'.symm, fun _ _ => trivial⟩) line

/-- A tag that closes one which is opened within closes it under another one too. -/
theorem closeTag_under (tag : OpenTag) (outer : Body) (enclosing : List (OpenTag × Body))
    (name : String) :
    (draft.under frame).closeTag tag outer (enclosing ++ [frame]) name =
      (fun draft => draft.under frame) <$> draft.closeTag tag outer enclosing name := by
  simp only [closeTag, map_bind]
  congr 1
  funext _
  split
  · rfl
  · rfl

theorem leave_eq {s : TokenStream} {name : String} (h : s.current.kind = .name name) :
    (next >>= fun _ => draft.closeTag frame.1 frame.2 [] name : Reading Draft) s =
      leave frame draft.body.node s := by
  let closing (isElse : Bool) : Reading Draft := do
    endBlock
    match frame.1, isElse with
    | .thenBody line condition, true =>
      enter ⟨frame.2, []⟩ (.elseBody line condition draft.body.node)
    | _, _ => return ⟨frame.2.push (frame.1.node draft.body.node), []⟩
  exact congrArg (fun isElse => closing isElse s.advance) (Token.isName_eq h "else").symm

/-- A draft that goes on under a tag is resumed there. -/
theorem inl_under (r : Reading Draft) :
    (Sum.inl <$> (fun draft => draft.under frame) <$> r : Reading (Draft ⊕ Node)) =
      Sum.inl <$> r >>= fun next => Sum.inl <$> resume frame next :=
  (Translation.under frame).inl_handed _ (fun _ => rfl) r

variable (dialect : Dialect) (bound : Bound) (s : TokenStream)

theorem readBlock_under :
    (draft.under frame).readBlock dialect bound s =
      (draft.readBlock dialect (.atTag frame.1.ends false) >>= fun next =>
        Sum.inl <$> resume frame next : Reading (Draft ⊕ Node)) s := by
  obtain ⟨body, enclosing⟩ := draft
  simp only [readBlock, bind_assoc, current_bind]
  cases kind : s.current.kind with
  | name name =>
      cases enclosing with
      | nil =>
          have around : (Draft.under ⟨body, []⟩ frame).enclosing = [frame] := rfl
          simp only [around, openTag_under, Bound.stopsAt_atTag kind]
          split
          · -- the body ends here, and so does the tag around it
            rw [← map_bind]
            exact map_of_eq (leave_eq (Draft.under ⟨body, []⟩ frame) frame kind)
          · rw [inl_under, bind_assoc]
      | cons entry enclosing =>
          have around : (Draft.under ⟨body, entry :: enclosing⟩ frame).enclosing =
              entry :: (enclosing ++ [frame]) := rfl
          simp only [around, openTag_under, closeTag_under]
          split
          · rw [inl_under, bind_assoc]
          · rw [inl_under, bind_assoc]
  | _ => rfl

/-- A construct does the same under another tag, but for the tag at which a body ends. -/
theorem step_under :
    (draft.under frame).step dialect bound s =
      (draft.step dialect (.atTag frame.1.ends false) >>= fun next =>
        Sum.inl <$> resume frame next : Reading (Draft ⊕ Node)) s := by
  refine (Translation.under frame).step_handed draft _ (fun _ => rfl) ?_ ?_
  · intro _
    exact readBlock_under draft frame dialect bound s.advance
  · -- neither reading is right to end here
    intro kind
    have unended : ¬ (draft.enclosing.isEmpty ∧ Bound.atTag frame.1.ends false = .atEnd) := by
      simp [Bound.atTag]
    have around : ¬ ((draft.under frame).enclosing.isEmpty ∧ bound = .atEnd) := by simp [under]
    have here : (Translation.under frame).draft draft = draft.under frame := rfl
    simp only [here, step, kind, bind, EStateM.bind, unended, around, if_false]

/-- A body is read under a tag as alone, up to the tag at which it ends. -/
theorem rest_under :
    (draft.under frame).rest dialect bound s =
      (draft.rest dialect (.atTag frame.1.ends false) >>= fun node =>
        leave frame node >>= fun draft => draft.rest dialect bound) s := by
  change ((Translation.under frame).draft draft).rest dialect bound s = _
  rw [(Translation.under frame).rest_handed draft _ (fun _ _ => True) (fun _ _ => trivial)
    (fun _ => rfl) (fun draft s _ => step_under draft frame dialect bound s) trivial]
  simp only [resume, bind_map_left, goOn]

end Under

end Draft

/-! ## Whole tags -/

/-- Reads the body of a tag and the tag that ends it. What `else` ends goes on with a second
body. -/
def Dialect.readRest (dialect : Dialect) (tag : OpenTag) : Reading Node := do
  let node ← dialect.readBody (.atTag tag.ends false)
  let token ← next
  endBlock
  match tag, token.isName "else" with
  | .thenBody line condition, true =>
    let second ← dialect.readBody (.atTag ["endif"] false)
    let _ ← next
    endBlock
    return .choice line condition node (some second)
  | _, _ => return tag.node node

namespace Draft

variable (dialect : Dialect) (bound : Bound) (outer : Body) (tag : OpenTag)

/-- The body of a tag that is opened is read, and then the tag that ends it. -/
theorem enter_rest_eq_leave :
    (enter ⟨outer, []⟩ tag >>= fun draft => draft.rest dialect bound) =
      dialect.readBody (.atTag tag.ends false) >>= fun node =>
        leave (tag, outer) node >>= fun draft => draft.rest dialect bound := by
  funext s
  exact rest_under ⟨⟨s.current.line, []⟩, []⟩ (tag, outer) dialect bound s

/-- A tag that is opened is read as a whole, and the reading goes on behind it. -/
theorem enter_rest :
    (enter ⟨outer, []⟩ tag >>= fun draft => draft.rest dialect bound) =
      dialect.readRest tag >>= fun node => rest ⟨outer.push node, []⟩ dialect bound := by
  rw [enter_rest_eq_leave]
  simp only [leave, Dialect.readRest, bind_assoc]
  refine bind_congr fun node => bind_congr fun token => bind_congr fun _ => ?_
  split
  · -- the second body ends the tag
    rw [enter_rest_eq_leave]
    simp only [leave, bind_assoc, pure_bind]
    rfl
  · simp only [pure_bind]

/-! ## The tag at which a reading stops -/

/-- Takes the name at which a reading has stopped. -/
def takeName : Draft ⊕ Node → Reading (Draft ⊕ Node)
  | .inl draft => return .inl draft
  | .inr node => (fun _ => .inr node) <$> next

variable {test : Token → Bool} {draft : Draft} {s s' : TokenStream} {node : Node} {dialect}

theorem inl_takeName (r : Reading Draft) :
    (Sum.inl <$> r : Reading (Draft ⊕ Node)) = Sum.inl <$> r >>= takeName := by
  have handed := Translation.refl.inl_handed takeName (fun _ => rfl) r
  rwa [show Translation.refl.draft = id from rfl, id_map] at handed

theorem readBlock_takeName :
    draft.readBlock dialect (.atName test true) s =
      (draft.readBlock dialect (.atName test false) >>= takeName) s := by
  simp only [readBlock, bind_assoc, current_bind]
  cases s.current.kind with
  | name name =>
      cases draft.enclosing with
      | nil =>
          by_cases stops : (Bound.atName test false).stopsAt s.current = true
          · have stops' : (Bound.atName test true).stopsAt s.current = true := stops
            simp only [stops, stops', if_true]
            rfl
          · have stops' : ¬ (Bound.atName test true).stopsAt s.current = true := stops
            simp only [stops, stops', Bool.false_eq_true, if_false, bind_assoc, ← inl_takeName]
      | cons entry enclosing =>
          dsimp only
          split
          · rw [bind_assoc]
            simp only [← inl_takeName]
          · rw [bind_assoc]
            simp only [← inl_takeName]
  | _ => rfl

/-- A block tag at which a reading stops in front of the name has such a name. -/
theorem stopped_of_readBlock
    (h : draft.readBlock dialect (.atName test false) s = .ok (.inr node) s') :
    ∃ name, s'.current.kind = .name name ∧ test s'.current = true := by
  cases kind : s.current.kind with
  | name name =>
      obtain ⟨line, t, rfl⟩ := TokenStream.exists_eq_prepend kind nofun
      by_cases ends : draft.EndsAt (.atName test false) line name
      · rcases ends.outside_or_within with
          ⟨around, stops⟩ | ⟨tag, outer, enclosing, around, inEnds⟩
        · rw [readBlock_of_stops [] around stops] at h
          cases h
          exact ⟨name, kind, stops⟩
        · rw [readBlock_of_mem_ends [] around inEnds, map_eq_ok_iff] at h
          obtain ⟨_, -, eq⟩ := h
          cases eq
      · rw [readBlock_of_not_endsAt [] ends, map_eq_ok_iff] at h
        obtain ⟨_, -, eq⟩ := h
        cases eq
  | _ =>
      simp only [readBlock, current_bind, kind] at h
      cases h

/-- A construct does the same whether the name at which the reading stops is taken or not. -/
theorem step_takeName :
    draft.step dialect (.atName test true) s =
      (draft.step dialect (.atName test false) >>= takeName) s := by
  refine Translation.refl.step_handed draft takeName (fun _ => rfl) ?_ ?_
  · intro _
    exact readBlock_takeName
  · intro kind
    have unended (taken : Bool) :
        ¬ (draft.enclosing.isEmpty ∧ Bound.atName test taken = .atEnd) := by simp
    have here : Translation.refl.draft draft = draft := rfl
    simp only [here, step, kind, bind, EStateM.bind, unended, if_false]

/-- Where a reading up to a name stops, there is such a name. -/
theorem stopped_of_step (h : draft.step dialect (.atName test false) s = .ok (.inr node) s') :
    ∃ name, s'.current.kind = .name name ∧ test s'.current = true := by
  cases kind : s.current.kind with
  | opening form =>
      cases form with
      | output =>
          rw [step_of_output kind, map_eq_ok_iff] at h
          obtain ⟨_, -, eq⟩ := h
          cases eq
      | block =>
          rw [step_of_block kind] at h
          exact stopped_of_readBlock h
  | eof =>
      have unended : ¬ (draft.enclosing.isEmpty ∧ Bound.atName test false = .atEnd) := by simp
      simp only [step, kind, unended, if_false] at h
      cases h
  | _ =>
      simp only [step, kind] at h
      cases h

theorem rest_takeName :
    draft.rest dialect (.atName test true) s =
      (draft.rest dialect (.atName test false) >>= fun node => (fun _ => node) <$> next) s := by
  change (Translation.refl.draft draft).rest dialect (.atName test true) s = _
  rw [Translation.refl.rest_handed draft takeName (fun _ _ => True) (fun _ _ => trivial)
    (fun _ => rfl) (fun draft s _ => step_takeName) trivial]
  simp only [takeName, ← bind_pure_comp, bind_assoc, pure_bind, goOn]

theorem stopped_of_rest (h : draft.rest dialect (.atName test false) s = .ok node s') :
    ∃ name, s'.current.kind = .name name ∧ test s'.current = true := by
  induction draft, s using Draft.read.induct dialect (.atName test false) with
  | case1 draft s report t failed =>
      rw [rest_eq, bind_of_eq_error failed] at h
      cases h
  | case2 draft s node' t ended =>
      rw [rest_eq, bind_of_eq_ok ended] at h
      obtain ⟨rfl, rfl⟩ := pure_eq_ok_iff.mp h
      exact stopped_of_step ended
  | case3 draft s draft' t went ih =>
      rw [rest_eq, bind_of_eq_ok went] at h
      exact ih h

end Draft

/-- Taking the name at which a body ends is reading up to the name, and then the name. -/
theorem Dialect.readBody_takeName (dialect : Dialect) (test : Token → Bool) :
    dialect.readBody (.atName test true) =
      dialect.readBody (.atName test false) >>= fun node => (fun _ => node) <$> next := by
  funext s
  exact Draft.rest_takeName

/-- A body that is read up to one of some names ends at one of them. -/
theorem Dialect.stopped_of_readBody {dialect : Dialect} {names : List String} {s s' : TokenStream}
    {node : Node} (h : dialect.readBody (.atTag names false) s = .ok node s') :
    ∃ name ∈ names, s'.current.kind = .name name := by
  obtain ⟨name, kind, stops⟩ := Draft.stopped_of_rest h
  have mem : names.contains name = true := (Bound.stopsAt_atTag kind names false).symm.trans stops
  exact ⟨name, List.contains_iff_mem.mp mem, kind⟩

theorem Reading.collect_bind_assoc {α β γ : Type} {stop : Token.Kind} {item later : Item γ}
    (f : List γ → Reading α) (g : α → Reading β) :
    (collect stop item later >>= f : Reading α) >>= g =
      (collect stop item later >>= fun items => f items >>= g : Reading β) :=
  bind_assoc _ _ _

/-- A tag with one body is read up to the name that ends the body, and then to its end. -/
theorem Dialect.readRest_eq (dialect : Dialect) {tag : OpenTag}
    (single : ∀ line condition, tag ≠ .thenBody line condition) :
    dialect.readRest tag =
      dialect.readBody (.atTag tag.ends true) >>= fun node =>
        endBlock >>= fun _ => pure (tag.node node) := by
  rw [Bound.atTag, readBody_takeName]
  simp only [readRest, bind_assoc, ← bind_pure_comp, pure_bind]
  refine bind_congr fun node => bind_congr fun token => bind_congr fun _ => ?_
  cases tag with
  | thenBody line condition => exact absurd rfl (single line condition)
  | _ => rfl

/-- A condition ends behind its first body, or it goes on with `else`. -/
theorem Dialect.readRest_thenBody (dialect : Dialect) (line : Nat) (condition : Expr) :
    dialect.readRest (.thenBody line condition) =
      dialect.readBody (.atTag ["else", "endif"] false) >>= fun first =>
        current >>= fun token =>
          if token.isName "else" then
            next >>= fun _ => endBlock >>= fun _ =>
              dialect.readBody (.atTag ["endif"] false) >>= fun second =>
                expectKeyword "endif" >>= fun _ => endBlock >>= fun _ =>
                  pure (.choice line condition first (some second))
          else
            expectKeyword "endif" >>= fun _ => endBlock >>= fun _ =>
              pure (.choice line condition first none) := by
  have keyword {s : TokenStream} (ends : s.current.kind = .name "endif") :
      expectKeyword "endif" s = next s := by
    have named : s.current.isName "endif" = true := by simp [Token.isName_eq ends]
    rw [expectKeyword, if_pos named]
  funext s
  rw [readRest, OpenTag.ends]
  refine bind_congr_of_ok fun first t read => ?_
  obtain ⟨name, mem, kind⟩ := stopped_of_readBody read
  rw [current_bind]
  rcases List.mem_pair.mp mem with rfl | rfl
  · have isElse : t.current.isName "else" = true := by simp [Token.isName_eq kind]
    rw [if_pos isElse, next_bind, next_bind]
    simp only [isElse]
    refine bind_congr_of_ok fun _ u _ => bind_congr_of_ok fun second v again => ?_
    -- the second body stops at the name that is expected behind it
    obtain ⟨name, last, kind⟩ := stopped_of_readBody again
    cases List.mem_singleton.mp last
    rw [bind_of_eq (keyword kind)]
  · have notElse : ¬ t.current.isName "else" = true := by simp [Token.isName_eq kind]
    rw [if_neg notElse, bind_of_eq (keyword kind), next_bind, next_bind]
    simp only [notElse]
    rfl

/-- Reads a block tag with all that belongs to it, from behind its name on. -/
def Dialect.readTag (dialect : Dialect) (line : Nat) (name : String) : Reading Node :=
  if name = "if" then do
    let condition ← expression
    endBlock
    dialect.readRest (.thenBody line condition)
  else if name = "for" then do
    let binding ← expectName
    let _ ← expectKeyword "in"
    let iterable ← expression
    endBlock
    dialect.readRest (.loop line binding iterable)
  else if name = "macro" then do
    let name ← expectName
    let _ ← expect (.symbol .openParen)
    let arguments ← collect (.symbol .closeParen) nameItem laterNameItem
    let _ ← expect (.symbol .closeParen)
    endBlock
    dialect.readRest (.definition line name arguments)
  else
    match dialect.find? name with
    | some directive => do
      let parameters ← (directive.readParameters ⟨.name name, line⟩).orLine line
      if directive.hasBody then dialect.readRest (.directive line directive parameters)
      else return directive.node line parameters none
    | none => throw (.onLine (Draft.foreignTag name) line)

/-- A tag that closes nothing is read as a whole, and the reading goes on behind it. -/
theorem Draft.openTag_rest (dialect : Dialect) (bound : Bound) (outer : Body) (line : Nat)
    (name : String) :
    (openTag ⟨outer, []⟩ dialect line name >>= fun draft => draft.rest dialect bound) =
      dialect.readTag line name >>= fun node => rest ⟨outer.push node, []⟩ dialect bound := by
  simp only [openTag, Dialect.readTag]
  split
  · simp only [openChoice, bind_assoc, enter_rest]
  split
  · simp only [openLoop, bind_assoc, enter_rest]
  split
  · simp only [openDefinition, bind_assoc, collect_bind_assoc, enter_rest]
  cases dialect.find? name with
  | none => rfl
  | some directive =>
      simp only [openDirective, bind_assoc]
      refine bind_congr fun parameters => ?_
      split
      · exact enter_rest _ _ _ _
      · rfl

end SheetMarkup
