/-
Formulas as trees.

A tree is built from tokens on a stack of trees, by the steps by which its value is found
on a stack of values.  So the tokens of a complete formula are the postorder of one tree and
no other, and an evaluation finds the value of that tree, with its references looked up
from left to right.
-/
import PostfixSheet.Proofs.Balance
import PostfixSheet.Tree

namespace PostfixSheet

variable {σ : Type}

/-- Looking up references one after the other finds these values. -/
inductive Site.Finds (site : Site) (lookup : Lookup σ) :
    List String → σ → List Float → σ → Prop
  | nil (s : σ) : Finds site lookup [] s [] s
  | cons {text : String} {target : Address} {value : Float} {rest : List String}
      {values : List Float} {s next later : σ}
      (located : Address.locate text site.rows site.cols = .ok target)
      (found : lookup target text s = (.ok value, next))
      (others : Finds site lookup rest next values later) :
      Finds site lookup (text :: rest) s (value :: values) later

namespace Site.Finds

variable {site : Site} {lookup : Lookup σ} {references others : List String}
  {values operands : List Float} {s next later : σ}

theorem length_eq (h : site.Finds lookup references s values later) :
    values.length = references.length := by
  induction h with
  | nil s => rfl
  | cons located found others ih => rw [List.length_cons, List.length_cons, ih]

theorem append (h : site.Finds lookup references s values next)
    (h' : site.Finds lookup others next operands later) :
    site.Finds lookup (references ++ others) s (values ++ operands) later := by
  induction h with
  | nil s => exact h'
  | cons located found rest ih => exact .cons located found (ih h')

theorem of_append (h : site.Finds lookup (references ++ others) s values later) :
    ∃ next, site.Finds lookup references s (values.take references.length) next ∧
      site.Finds lookup others next (values.drop references.length) later := by
  induction references generalizing s values with
  | nil => exact ⟨s, .nil s, h⟩
  | cons text rest ih =>
      cases h with
      | cons located found hrest =>
          obtain ⟨next, hfirst, hsecond⟩ := ih hrest
          exact ⟨next, .cons located found hfirst, hsecond⟩

/-- For values that are given, each reference finds that of the cell it leads to. -/
theorem ofValues_iff {given : Address → Float} :
    site.Finds (.ofValues given) references () values () ↔
      ∃ targets : List Address,
        references.map (Address.locate · site.rows site.cols) = targets.map .ok ∧
          values = targets.map given := by
  induction references generalizing values with
  | nil =>
      constructor
      · rintro ⟨⟩
        exact ⟨[], rfl, rfl⟩
      · rintro ⟨targets, hlocated, rfl⟩
        obtain rfl : targets = [] := List.map_eq_nil_iff.1 hlocated.symm
        exact .nil ()
  | cons text rest ih =>
      constructor
      · rintro (_ | ⟨located, found, others⟩)
        obtain ⟨targets, hlocated, rfl⟩ := ih.1 others
        cases found
        exact ⟨_ :: targets, by rw [List.map_cons, located, hlocated, List.map_cons], rfl⟩
      · rintro ⟨targets, hlocated, rfl⟩
        obtain ⟨target, later, rfl, hfirst, hrest⟩ := List.map_eq_cons_iff.1 hlocated.symm
        exact .cons hfirst.symm rfl (ih.2 ⟨later, hrest.symm, rfl⟩)

end Site.Finds

namespace Tree

variable {tree : Tree} {token : Token} {tokens : List Token} {stack later : List Tree}

/-- Builds on a stack of trees, whose top is in front, what a token asks for. -/
def push? (stack : List Tree) : Token → Option (List Tree)
  | .number value => some (.number value :: stack)
  | .reference text => some (.reference text :: stack)
  | .unary op =>
    match stack with
    | operand :: rest => some (.unary op operand :: rest)
    | [] => none
  | .binary op =>
    match stack with
    | right :: left :: rest => some (.binary op left right :: rest)
    | _ => none

/-- The tokens that the trees on a stack have been built from. -/
def written (stack : List Tree) : List Token :=
  stack.reverse.flatMap postorder

theorem written_cons (tree : Tree) (stack : List Tree) :
    written (tree :: stack) = written stack ++ tree.postorder := by
  simp [written]

theorem written_push? (h : push? stack token = some later) :
    written later = written stack ++ [token] := by
  cases token with
  | number value =>
      cases h
      exact written_cons _ stack
  | reference text =>
      cases h
      exact written_cons _ stack
  | unary op =>
      rcases stack with _ | ⟨operand, rest⟩
      · cases h
      · cases h
        simp [written_cons, postorder]
  | binary op =>
      rcases stack with _ | ⟨right, _ | ⟨left, rest⟩⟩
      · cases h
      · cases h
      · cases h
        simp [written_cons, postorder]

/-- No token is lost in building. -/
theorem written_foldlM (h : tokens.foldlM push? stack = some later) :
    written later = written stack ++ tokens := by
  induction tokens generalizing stack with
  | nil =>
      cases h
      exact (List.append_nil _).symm
  | cons token rest ih =>
      rw [List.foldlM_cons] at h
      obtain ⟨next, hnext, hrest⟩ := Option.bind_eq_some_iff.1 h
      rw [ih hrest, written_push? hnext, List.append_assoc]
      rfl

theorem length_push? (stack : List Tree) (token : Token) :
    (push? stack token).map List.length = token.depthAfter? stack.length := by
  cases token with
  | number _ | reference _ => rfl
  | unary op => cases stack <;> simp [push?, Token.depthAfter?]
  | binary op => rcases stack with _ | ⟨_, _ | _⟩ <;> simp [push?, Token.depthAfter?]

theorem length_foldlM (stack : List Tree) (tokens : List Token) :
    (tokens.foldlM push? stack).map List.length =
      tokens.foldlM Token.depthAfter? stack.length := by
  induction tokens generalizing stack with
  | nil => rfl
  | cons token rest ih =>
      rw [List.foldlM_cons, List.foldlM_cons, ← length_push?]
      cases push? stack token with
      | none => rfl
      | some next => exact ih next

/-- A tree is built again from its own tokens. -/
theorem foldlM_postorder (tree : Tree) (stack : List Tree) :
    tree.postorder.foldlM push? stack = some (tree :: stack) := by
  induction tree generalizing stack with
  | number value => rfl
  | reference text => rfl
  | unary op operand ih =>
      rw [postorder, List.foldlM_append, ih]
      rfl
  | binary op left right ihLeft ihRight =>
      rw [postorder, List.foldlM_append, List.foldlM_append, ihLeft]
      change ((right.postorder.foldlM push? (left :: stack)).bind _) = _
      rw [ihRight]
      rfl

theorem postorder_inj {left right : Tree} : left.postorder = right.postorder ↔ left = right := by
  constructor
  · intro h
    have hbuilt := left.foldlM_postorder []
    rw [h, foldlM_postorder] at hbuilt
    exact (List.cons.inj (Option.some.inj hbuilt)).1.symm
  · exact congrArg postorder

/-- Complete expressions are the trees in postorder. -/
theorem exists_postorder_iff :
    (∃ tree : Tree, tree.postorder = tokens) ↔ tokens.foldlM Token.depthAfter? 0 = some 1 := by
  have hlength := length_foldlM [] tokens
  rw [List.length_nil] at hlength
  rw [← hlength]
  constructor
  · rintro ⟨tree, rfl⟩
    rw [foldlM_postorder]
    rfl
  · intro h
    obtain ⟨built, hbuilt, hone⟩ := Option.map_eq_some_iff.1 h
    obtain ⟨tree, rfl⟩ := List.length_eq_one_iff.1 hone
    have hwritten := written_foldlM hbuilt
    rw [written_cons] at hwritten
    exact ⟨tree, hwritten⟩

def references : Tree → List String
  | .number _ => []
  | .reference text => [text]
  | .unary _ operand => operand.references
  | .binary _ left right => left.references ++ right.references

/-- The value of a tree whose references, from left to right, have the values `operands`. -/
def valueFor : Tree → List Float → Float
  | .number value, _ => value
  | .reference _, operands => operands.headD 0
  | .unary op operand, operands => op.apply (operand.valueFor operands)
  | .binary op left right, operands =>
    op.apply (left.valueFor (operands.take left.references.length))
      (right.valueFor (operands.drop left.references.length))

variable {site : Site} {lookup : Lookup σ} {s last : σ} {value : Float}

/-- The values of the references are all that the value of a tree takes from its
surroundings. -/
theorem value_eq_ok_iff :
    tree.value site lookup s = (.ok value, last) ↔
      ∃ operands, site.Finds lookup tree.references s operands last ∧
        tree.valueFor operands = value := by
  induction tree generalizing s last value with
  | number x =>
      constructor
      · rintro ⟨⟩
        exact ⟨[], .nil s, rfl⟩
      · rintro ⟨operands, hfinds, rfl⟩
        cases hfinds
        rfl
  | reference text =>
      rw [Tree.value]
      constructor
      · intro h
        cases hlocated : Address.locate text site.rows site.cols with
        | error fault =>
            rw [hlocated] at h
            cases h
        | ok target =>
            rw [hlocated] at h
            exact ⟨[value], .cons hlocated h (.nil last), rfl⟩
      · rintro ⟨operands, hfinds, rfl⟩
        cases hfinds with
        | cons located found others =>
            cases others
            rw [located]
            exact found
  | unary op operand ih =>
      rw [Tree.value]
      constructor
      · intro h
        rcases hoperand : operand.value site lookup s with ⟨fault | first, next⟩
        · rw [hoperand] at h
          cases h
        · rw [hoperand] at h
          cases h
          obtain ⟨operands, hfinds, rfl⟩ := ih.1 hoperand
          exact ⟨operands, hfinds, rfl⟩
      · rintro ⟨operands, hfinds, rfl⟩
        rw [ih.2 ⟨operands, hfinds, rfl⟩]
        rfl
  | binary op left right ihLeft ihRight =>
      rw [Tree.value]
      constructor
      · intro h
        rcases hleft : left.value site lookup s with ⟨fault | first, next⟩
        · rw [hleft] at h
          cases h
        · rcases hright : right.value site lookup next with ⟨fault | second, after⟩
          · simp only [hleft, hright] at h
            cases h
          · simp only [hleft, hright] at h
            cases h
            obtain ⟨firsts, hfirsts, rfl⟩ := ihLeft.1 hleft
            obtain ⟨seconds, hseconds, rfl⟩ := ihRight.1 hright
            refine ⟨firsts ++ seconds, hfirsts.append hseconds, ?_⟩
            rw [valueFor, ← hfirsts.length_eq, List.take_left, List.drop_left]
      · rintro ⟨operands, hfinds, rfl⟩
        obtain ⟨next, hfirsts, hseconds⟩ := Site.Finds.of_append hfinds
        rw [ihLeft.2 ⟨_, hfirsts, rfl⟩]
        dsimp only
        rw [ihRight.2 ⟨_, hseconds, rfl⟩]
        rfl

/-- The tokens of a tree, run from an empty stack, come to the value of the tree. -/
theorem run_postorder_nil (site : Site) (lookup : Lookup σ) (tree : Tree) (s : σ) :
    site.run lookup tree.postorder [] s = tree.value site lookup s := by
  have hrun := tree.run_postorder site lookup [] [] s
  rw [List.append_nil] at hrun
  rw [hrun]
  rcases tree.value site lookup s with ⟨fault | value, later⟩ <;> rfl

end Tree

namespace Site

variable {site : Site} {lookup : Lookup σ} {tokens : List Token} {s later : σ} {value : Float}

/-- With values given for all cells, a formula has the value of the tree that its tokens are
the postorder of. -/
theorem evaluate_ofValues_eq_ok_iff {given : Address → Float} :
    (site.evaluate (.ofValues given) ()).1 = .ok value ↔
      ∃ (tree : Tree) (targets : List Address),
        tree.postorder = site.formula.tokens ∧
        tree.references.map (Address.locate · site.rows site.cols) = targets.map .ok ∧
        tree.valueFor (targets.map given) = value := by
  rw [evaluate]
  constructor
  · intro h
    have hfault := site.faultFrom?_eq_none_of_run (.ofValues given) site.formula.tokens [] () h
    obtain ⟨tree, htree⟩ :=
      Tree.exists_postorder_iff.2 ((site.faultFrom?_eq_none_iff _ 0).1 hfault).1
    rw [← htree, Tree.run_postorder_nil] at h
    obtain ⟨operands, hfinds, hvalue⟩ := Tree.value_eq_ok_iff.1 (Prod.ext h rfl)
    obtain ⟨targets, hlocated, rfl⟩ := Finds.ofValues_iff.1 hfinds
    exact ⟨tree, targets, htree, hlocated, hvalue⟩
  · rintro ⟨tree, targets, htree, hlocated, hvalue⟩
    rw [← htree, Tree.run_postorder_nil]
    exact congrArg Prod.fst
      (Tree.value_eq_ok_iff.2 ⟨_, Finds.ofValues_iff.2 ⟨targets, hlocated, rfl⟩, hvalue⟩)

/-- Tokens find a value exactly if they are the postorder of a tree, which is then the only
one; if every reference of the tree leads to a cell of the sheet and its lookup finds a
value, once for each reference and from left to right; and if for these values the tree has
that value. -/
theorem run_eq_ok_iff :
    site.run lookup tokens [] s = (.ok value, later) ↔
      ∃ tree : Tree, tree.postorder = tokens ∧
        (∀ other : Tree, other.postorder = tokens → other = tree) ∧
        ∃ operands, site.Finds lookup tree.references s operands later ∧
          tree.valueFor operands = value := by
  constructor
  · intro h
    have hfault := site.faultFrom?_eq_none_of_run lookup tokens [] s (congrArg Prod.fst h)
    obtain ⟨tree, rfl⟩ :=
      Tree.exists_postorder_iff.2 ((site.faultFrom?_eq_none_iff tokens 0).1 hfault).1
    rw [Tree.run_postorder_nil] at h
    exact ⟨tree, rfl, fun other hother => Tree.postorder_inj.1 hother, Tree.value_eq_ok_iff.1 h⟩
  · rintro ⟨tree, rfl, -, hvalue⟩
    rw [Tree.run_postorder_nil]
    exact Tree.value_eq_ok_iff.2 hvalue

end Site

end PostfixSheet
