/-
Evaluations of one formula with different lookups.

Whether operands are missing or values are left over depends on the tokens alone,
so that a formula has at most one fault of its own.  Everything else comes from
the lookups: if those of two evaluations answer alike, so do the evaluations.
-/
import PostfixSheet.Postfix

namespace PostfixSheet

variable {σ τ : Type}

def Token.reference? : Token → Option String
  | .reference text => some text
  | _ => none

def Formula.references (formula : Formula) : List String :=
  formula.tokens.filterMap Token.reference?

theorem Formula.mem_references {formula : Formula} {text : String} :
    text ∈ formula.references ↔ Token.reference text ∈ formula.tokens := by
  rw [references, List.mem_filterMap]
  constructor
  · rintro ⟨token, htoken, hsome⟩
    cases token with
    | reference other =>
        cases hsome
        exact htoken
    | number _ | binary _ | unary _ => cases hsome
  · intro htoken
    exact ⟨.reference text, htoken, rfl⟩

/-- Lookups that always succeed, with the same value for a cell every time. -/
def Lookup.ofValues (values : Address → Float) : Lookup Unit :=
  fun target _ s => (.ok (values target), s)

/-- Two outcomes are the same answer, with states that are related as `R` says
after a value and as `E` says after a fault. -/
structure Agree (R : σ → τ → Prop) (E : Fault → σ → τ → Prop)
    (left : Except Fault Float × σ) (right : Except Fault Float × τ) : Prop where
  answer : left.1 = right.1
  after_value : ∀ value, left.1 = .ok value → R left.2 right.2
  after_fault : ∀ fault, left.1 = .error fault → E fault left.2 right.2

namespace Site

/-- The fault that tokens run into on a stack of the given depth when no lookup
fails. -/
def faultFrom? (site : Site) : List Token → Nat → Option Fault
  | [], 1 => none
  | [], depth => some (.leftover site.cell site.formula.text depth)
  | .number _ :: rest, depth => faultFrom? site rest (depth + 1)
  | .binary _ :: rest, depth + 2 => faultFrom? site rest (depth + 1)
  | .binary op :: _, _ => some (.underflow site.cell site.formula.text op.symbol)
  | .unary _ :: rest, depth + 1 => faultFrom? site rest (depth + 1)
  | .unary op :: _, 0 => some (.underflow site.cell site.formula.text op.symbol)
  | .reference text :: rest, depth =>
    match Address.locate text site.rows site.cols with
    | .error fault => some (.ofReference site.cell text fault)
    | .ok _ => faultFrom? site rest (depth + 1)

/-- The fault that a formula has by itself. -/
def fault? (site : Site) : Option Fault :=
  site.faultFrom? site.formula.tokens 0

theorem agree_of_fault {R : σ → τ → Prop} {E : Fault → σ → τ → Prop} {fault : Fault}
    {s : σ} {t : τ} (h : E fault s t) : Agree R E (.error fault, s) (.error fault, t) where
  answer := rfl
  after_value := fun _ hvalue => by cases hvalue
  after_fault := fun _ hfault => by cases hfault; exact h

/-- Runs agree when their lookups do.  `R` is told which references have been
followed already. -/
theorem run_agree (site : Site) {f : Lookup σ} {g : Lookup τ}
    {R : List String → σ → τ → Prop} {E : Fault → σ → τ → Prop} {references : List String}
    (hlookup : ∀ before text after target s t, references = before ++ text :: after →
      Address.locate text site.rows site.cols = .ok target → R before s t →
      Agree (R (before ++ [text])) E (f target text s) (g target text t))
    (hown : ∀ before fault s t, site.fault? = some fault → R before s t → E fault s t)
    (tokens : List Token) (stack : List Float) (before : List String) (s : σ) (t : τ)
    (hreferences : references = before ++ tokens.filterMap Token.reference?)
    (hfault : ∀ fault, site.faultFrom? tokens stack.length = some fault →
      site.fault? = some fault)
    (hstart : R before s t) :
    Agree (R references) E (site.run f tokens stack s) (site.run g tokens stack t) := by
  induction tokens generalizing stack before s t with
  | nil =>
      have hall : references = before := by simpa using hreferences
      match stack with
      | [value] => exact ⟨rfl, fun _ _ => hall ▸ hstart, fun _ hfalse => by cases hfalse⟩
      | [] => exact agree_of_fault (hown before _ s t (hfault _ rfl) hstart)
      | _ :: _ :: _ => exact agree_of_fault (hown before _ s t (hfault _ rfl) hstart)
  | cons token rest ih =>
      cases token with
      | number value => exact ih (value :: stack) before s t hreferences hfault hstart
      | binary op =>
          match stack with
          | right :: left :: stack =>
              exact ih (op.apply left right :: stack) before s t hreferences hfault hstart
          | [] => exact agree_of_fault (hown before _ s t (hfault _ rfl) hstart)
          | [_] => exact agree_of_fault (hown before _ s t (hfault _ rfl) hstart)
      | unary op =>
          match stack with
          | operand :: stack =>
              exact ih (op.apply operand :: stack) before s t hreferences hfault hstart
          | [] => exact agree_of_fault (hown before _ s t (hfault _ rfl) hstart)
      | reference text =>
          have hsplit : references = before ++ text :: rest.filterMap Token.reference? :=
            hreferences
          simp only [run, faultFrom?] at hfault ⊢
          cases hlocated : Address.locate text site.rows site.cols with
          | error fault =>
              exact agree_of_fault (hown before _ s t (hfault _ (by rw [hlocated])) hstart)
          | ok target =>
              obtain ⟨hanswer, hvalue, hfaults⟩ :=
                hlookup before text _ target s t hsplit hlocated hstart
              rw [hlocated] at hfault
              dsimp only at hfault ⊢
              generalize f target text s = first at *
              generalize g target text t = second at *
              obtain ⟨answer, s'⟩ := first
              obtain ⟨answer', t'⟩ := second
              obtain rfl : answer = answer' := hanswer
              cases answer with
              | ok value =>
                  exact ih (value :: stack) (before ++ [text]) s' t' (by simpa using hsplit)
                    hfault (hvalue value rfl)
              | error fault => exact agree_of_fault (hfaults fault rfl)

theorem evaluate_agree (site : Site) {f : Lookup σ} {g : Lookup τ}
    {R : List String → σ → τ → Prop} {E : Fault → σ → τ → Prop}
    (hlookup : ∀ before text after target s t,
      site.formula.references = before ++ text :: after →
      Address.locate text site.rows site.cols = .ok target → R before s t →
      Agree (R (before ++ [text])) E (f target text s) (g target text t))
    (hown : ∀ before fault s t, site.fault? = some fault → R before s t → E fault s t)
    {s : σ} {t : τ} (hstart : R [] s t) :
    Agree (R site.formula.references) E (site.evaluate f s) (site.evaluate g t) :=
  run_agree site hlookup hown site.formula.tokens [] [] s t rfl (fun _ h => h) hstart

theorem evaluate_keeps (site : Site) {f : Lookup σ} {I : List String → σ → Prop}
    {E : Fault → σ → Prop}
    (hlookup : ∀ before text after target s,
      site.formula.references = before ++ text :: after →
      Address.locate text site.rows site.cols = .ok target → I before s →
      (∀ value, (f target text s).1 = .ok value →
        I (before ++ [text]) (f target text s).2) ∧
      ∀ fault, (f target text s).1 = .error fault → E fault (f target text s).2)
    (hown : ∀ before fault s, site.fault? = some fault → I before s → E fault s)
    {s : σ} (hstart : I [] s) :
    (∀ value, (site.evaluate f s).1 = .ok value →
      I site.formula.references (site.evaluate f s).2) ∧
    ∀ fault, (site.evaluate f s).1 = .error fault →
      E fault (site.evaluate f s).2 := by
  have hagree := site.evaluate_agree (f := f) (g := f)
    (R := fun before s t => s = t ∧ I before s) (E := fun fault s _ => E fault s)
    (by
      rintro before text after target s _ hsplit hlocated ⟨rfl, hbefore⟩
      obtain ⟨hvalue, hfault⟩ := hlookup before text after target s hsplit hlocated hbefore
      exact ⟨rfl, fun value h => ⟨rfl, hvalue value h⟩, hfault⟩)
    (fun before fault s _ hfault h => hown before fault s hfault h.2) ⟨rfl, hstart⟩
  exact ⟨fun value h => (hagree.after_value value h).2, hagree.after_fault⟩

/-- A formula that has been evaluated has no fault of its own. -/
theorem faultFrom?_eq_none_of_run (site : Site) (lookup : Lookup σ) (tokens : List Token)
    (stack : List Float) (s : σ) {value : Float}
    (h : (site.run lookup tokens stack s).1 = .ok value) :
    site.faultFrom? tokens stack.length = none := by
  fun_induction run site lookup tokens stack s with
  | case1 => rfl
  | case3 _ _ _ _ ih => exact ih h
  | case4 _ _ _ _ _ _ ih => exact ih h
  | case6 _ _ _ _ _ ih => exact ih h
  | case10 text rest stack s target located value s' found ih =>
      simpa only [faultFrom?, located, List.length_cons] using ih h
  -- the other steps end in a fault
  | _ => cases h

theorem fault?_eq_none_of_evaluate {site : Site} {lookup : Lookup σ} {s : σ} {value : Float}
    (h : (site.evaluate lookup s).1 = .ok value) : site.fault? = none :=
  site.faultFrom?_eq_none_of_run lookup site.formula.tokens [] s h

/-- A formula without a fault of its own has a value as soon as its references
have values. -/
theorem exists_value_of_fault?_eq_none {site : Site} (hfault : site.fault? = none)
    (values : Address → Float) :
    ∃ value, (site.evaluate (.ofValues values) ()).1 = .ok value := by
  have hkeeps := site.evaluate_keeps (f := .ofValues values) (I := fun _ _ => True)
    (E := fun _ _ => False) (s := ())
    (fun _ _ _ _ _ _ _ _ => ⟨fun _ _ => trivial, fun _ h => by cases h⟩)
    (fun _ _ _ h _ => by simp [hfault] at h) trivial
  cases hanswer : (site.evaluate (.ofValues values) ()).1 with
  | ok value => exact ⟨value, rfl⟩
  | error fault => exact (hkeeps.2 fault hanswer).elim

/-- The fault of an evaluation is that of the formula itself or the fault of a
reference, all references before which have been found. -/
theorem evaluate_eq_error {site : Site} {find : Address → String → Except Fault Float}
    {fault : Fault}
    (h : (site.evaluate (fun target text s => (find target text, s)) ()).1 = .error fault) :
    site.fault? = some fault ∨
      ∃ before text after target, site.formula.references = before ++ text :: after ∧
        Address.locate text site.rows site.cols = .ok target ∧
        find target text = .error fault ∧
        ∀ earlier ∈ before, ∃ other value,
          Address.locate earlier site.rows site.cols = .ok other ∧
          find other earlier = .ok value := by
  have hkeeps := site.evaluate_keeps (f := fun target text s => (find target text, s))
    (I := fun before _ => ∀ earlier ∈ before, ∃ other value,
      Address.locate earlier site.rows site.cols = .ok other ∧ find other earlier = .ok value)
    (E := fun fault _ => site.fault? = some fault ∨
      ∃ before text after target, site.formula.references = before ++ text :: after ∧
        Address.locate text site.rows site.cols = .ok target ∧
        find target text = .error fault ∧
        ∀ earlier ∈ before, ∃ other value,
          Address.locate earlier site.rows site.cols = .ok other ∧
          find other earlier = .ok value)
    (s := ())
    (by
      intro before text after target _ hsplit hlocated hbefore
      refine ⟨fun value hvalue => ?_, fun fault hfault => Or.inr ?_⟩
      · intro earlier hearlier
        rcases List.mem_append.1 hearlier with hold | hnew
        · exact hbefore earlier hold
        · rw [List.mem_singleton.1 hnew]
          exact ⟨target, value, hlocated, hvalue⟩
      · exact ⟨before, text, after, target, hsplit, hlocated, hfault, hbefore⟩)
    (fun _ _ _ hown _ => Or.inl hown) (by simp)
  exact hkeeps.2 fault h

theorem faultFrom?_ne_circular (site : Site) (tokens : List Token) (depth : Nat)
    (circle : Circle) : site.faultFrom? tokens depth ≠ some (.circular circle) := by
  fun_induction faultFrom? site tokens depth with
  | case8 text rest depth fault located => cases fault <;> simp [Fault.ofReference]
  | case3 _ _ _ ih | case4 _ _ _ ih | case6 _ _ _ ih | case9 _ _ _ _ _ ih => exact ih
  | _ => simp

end Site

end PostfixSheet
