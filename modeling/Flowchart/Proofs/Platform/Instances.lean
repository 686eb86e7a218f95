import Flowchart.Flow.Extract
import Flowchart.Flow.View
import Flowchart.Proofs.Script.Parentheses

/-! Instances of platform classes made with redundant parentheses. Around a constructor they do not
matter, but a namespace in parentheses is not recognized. -/
namespace Flowchart.Platform
open Flowchart.Tree

/-- The platform class that a class name means in a namespace. -/
def classIn (space name : String) : Option String :=
  if namespaces.contains space || classes.contains name then some (if name = "" then space else name)
  else none

/-- With `q` around the namespace `object` of the constructor `ctor`, nothing is left that tells
its class: the namespace did so alone, and `q` hides it. -/
def LosesNamespace (src : Source) (ctor object q : Tree) : Prop :=
  q.type = parenthesized ∧ ctor.type = "member_expression" ∧ object.type = "identifier" ∧
    namespaces.contains (src.textOf object.span) ∧
    ¬ classes.contains (propertyName src (ctor.field? "property"))

instance (src : Source) (ctor object q : Tree) : Decidable (LosesNamespace src ctor object q) :=
  inferInstanceAs (Decidable (_ ∧ _ ∧ _ ∧ _ ∧ _))

section
variable {src : Source} {t ctor object p q : Tree}

theorem constructedClass_of_member (hmember : ctor.type = "member_expression")
    (hobject : ctor.field? "object" = some object) :
    constructedClass src ctor =
      classIn ((identifierName? src object).getD "")
        (propertyName src (ctor.field? "property")) := by
  rw [constructedClass, if_neg (by rw [hmember]; decide), if_pos hmember, hobject]
  rfl

theorem constructedClass_of_ne (hmember : ctor.type ≠ "member_expression") :
    constructedClass src ctor =
      if ctor.type = "identifier" then
        if classes.contains (src.textOf ctor.span) then some (src.textOf ctor.span) else none
      else none := by
  rw [constructedClass, if_neg hmember]

/-- Without a namespace a class has to be listed. -/
theorem classIn_empty (name : String) :
    classIn "" name = if classes.contains name then some name else none := by
  have hspace : namespaces.contains "" = false := by decide
  rw [classIn, hspace, Bool.false_or]
  by_cases hname : classes.contains name
  · have hne : name ≠ "" := by
      rintro rfl
      exact absurd hname (by decide)
    rw [if_pos hname, if_pos hname, if_neg hne]
  · rw [if_neg hname, if_neg hname]

theorem classIn_eq (space name : String) :
    (if namespaces.contains space ∧ ¬ classes.contains name then none else classIn space name) =
      classIn "" name := by
  rw [classIn_empty]
  by_cases hname : classes.contains name
  · have hne : name ≠ "" := by
      rintro rfl
      exact absurd hname (by decide)
    rw [if_neg (fun h => h.2 hname), if_pos hname, classIn, hname, Bool.or_true, if_pos rfl,
      if_neg hne]
  · rw [if_neg hname]
    split_ifs with h
    · rfl
    · have hspace : ¬ namespaces.contains space := fun hspace => h ⟨hspace, hname⟩
      rw [classIn, if_neg (by simp_all)]

theorem identifierName?_wrapped (hq : object.WrappedIn q) :
    identifierName? src q = if q.type = parenthesized then none else identifierName? src object := by
  cases hq with
  | bare role =>
    rw [type_inRole]
    split_ifs with htype
    · rw [identifierName?, if_neg (by rw [type_inRole, htype]; decide)]
    · rfl
  | around htype => rw [if_pos htype, identifierName?, if_neg (by rw [htype]; decide)]

theorem constructedClass_replace (hobject : ctor.field? "object" = some object)
    (hq : object.WrappedIn q) :
    constructedClass src (ctor.replace "object" q) =
      if LosesNamespace src ctor object q then none else constructedClass src ctor := by
  by_cases hmember : ctor.type = "member_expression"
  · have hmember' : (ctor.replace "object" q).type = "member_expression" := hmember
    have hname : identifierName? src (q.inRole (some "object")) = identifierName? src q := rfl
    rw [constructedClass_of_member hmember hobject,
      constructedClass_of_member hmember' (field?_replace hobject q),
      field?_replace_of_ne hobject q (by decide), hname, identifierName?_wrapped hq]
    by_cases hhidden : q.type = parenthesized
    · rw [if_pos hhidden, Option.getD_none]
      by_cases hident : object.type = "identifier"
      · rw [identifierName?, if_pos hident, Option.getD_some, ← classIn_eq (src.textOf object.span)]
        simp only [LosesNamespace, hhidden, hmember, hident, true_and]
      · rw [identifierName?, if_neg hident, Option.getD_none, if_neg fun h => hident h.2.2.1]
    · rw [if_neg hhidden, if_neg fun h => hhidden h.1]
  · rw [if_neg fun h => hmember h.2.1, constructedClass_of_ne hmember,
      constructedClass_of_ne (by rwa [type_replace]), type_replace, span_replace]

/-- What a namespace alone told is lost. -/
theorem isSome_of_losesNamespace (hobject : ctor.field? "object" = some object)
    (h : LosesNamespace src ctor object q) : (constructedClass src ctor).isSome := by
  obtain ⟨-, hmember, hident, hspace, -⟩ := h
  rw [constructedClass_of_member hmember hobject, identifierName?, if_pos hident,
    Option.getD_some, classIn, hspace, Bool.true_or, if_pos rfl]
  rfl

/-- The class is told by the constructor, whatever parentheses are put around it. -/
theorem classOf_replace {c : Tree} (hc : t.field? "constructor" = some c) (hp : ctor.WrappedIn p) :
    classOf src (t.replace "constructor" p) =
      if t.type = "new_expression" then ctor.unwrap.bind (constructedClass src) else none := by
  rw [classOf, type_replace, constructor?, field?_replace hc, Option.bind_some,
    (hp.inRole (some "constructor")).sameInside.bind_unwrap fun _ => rfl]

/-- A declared instance makes one node, which belongs to the logic view as far as its class is one
of the platform. -/
theorem declared_new (h : t.type = "new_expression") (stmt declarator : Tree) :
    ∃ e, Plan.declared src stmt declarator t = .node e [] ∧ e.kind = .varDecl ∧
      e.subtype = classOf src t ∧
      ∀ id parent, (FlowNode.mk e id parent).inLogic = (classOf src t).isSome := by
  have hfn : t.isFunction = false := by simp [isFunction, h]
  unfold Plan.declared
  cases hclass : classOf src t with
  | some cls => exact ⟨_, rfl, rfl, rfl, fun _ _ => rfl⟩
  | none =>
    rw [hfn]
    exact ⟨_, rfl, rfl, rfl, fun _ _ => rfl⟩

end

/-- Redundant parentheses around a constructor do not change what is instantiated. Around the
namespace of a constructor they do so just where the namespace alone tells that the class is one of
the platform: then no platform class is left. A declaration shows the class that is found, and
stays in the logic view just if there is one. -/
theorem classOf_wrapped (src : Source) (t : Tree) (h : t.type = "new_expression") :
    (∀ c p, t.field? "constructor" = some c → c.WrappedIn p →
      classOf src (t.replace "constructor" p) = classOf src t) ∧
    (∀ ctor object q p, constructor? t = some ctor → ctor.field? "object" = some object →
      object.WrappedIn q → (ctor.replace "object" q).WrappedIn p →
      (classOf src (t.replace "constructor" p) = classOf src t ↔
        ¬ LosesNamespace src ctor object q) ∧
      (LosesNamespace src ctor object q → classOf src (t.replace "constructor" p) = none)) ∧
    ∀ stmt declarator, ∃ e, Plan.declared src stmt declarator t = .node e [] ∧
      e.kind = .varDecl ∧ e.subtype = classOf src t ∧
      ∀ id parent, (FlowNode.mk e id parent).inLogic = (classOf src t).isSome := by
  refine ⟨?_, ?_, declared_new h⟩
  · intro c p hc hp
    rw [classOf_replace hc hp, classOf, constructor?, hc, Option.bind_some]
  · intro ctor object q p hctor hobject hq hp
    obtain ⟨c, hc, hunwrap⟩ := Option.bind_eq_some_iff.mp hctor
    have hclass : classOf src t = constructedClass src ctor := by
      rw [classOf, if_pos h, hctor, Option.bind_some]
    have hnew : classOf src (t.replace "constructor" p) =
        if LosesNamespace src ctor object q then none else classOf src t := by
      rw [classOf_replace hc hp, if_pos h, unwrap_replace hunwrap, Option.bind_some,
        constructedClass_replace hobject hq, hclass]
    by_cases hlost : LosesNamespace src ctor object q
    · rw [if_pos hlost] at hnew
      have hsome := isSome_of_losesNamespace hobject hlost
      rw [← hclass, Option.isSome_iff_ne_none] at hsome
      rw [hnew]
      exact ⟨iff_of_false hsome.symm fun hkept => hkept hlost, fun _ => rfl⟩
    · rw [if_neg hlost] at hnew
      exact ⟨iff_of_true hnew hlost, fun h => absurd h hlost⟩

/-! The declaration `var c=new sn_sc.CartJS()`, with parentheses around the namespace and around the
constructor. -/

def cartNamespace : Tree :=
  .node ⟨"identifier", true, false, false, ⟨12, 17⟩, some "object"⟩ []

def cartConstructor : Tree :=
  .node ⟨"member_expression", true, false, false, ⟨11, 25⟩, some "constructor"⟩ [
    cartNamespace,
    .node ⟨".", false, false, false, ⟨18, 19⟩, none⟩ [],
    .node ⟨"property_identifier", true, false, false, ⟨19, 25⟩, some "property"⟩ []]

def newCart : Tree :=
  .node ⟨"new_expression", true, false, false, ⟨6, 28⟩, some "value"⟩ [
    .node ⟨"new", false, false, false, ⟨6, 9⟩, none⟩ [],
    cartConstructor,
    .node ⟨"arguments", true, false, false, ⟨26, 28⟩, some "arguments"⟩ []]

def cartDeclaration (value : Tree) : Tree :=
  .node ⟨"variable_declaration", true, false, false, ⟨0, 28⟩, none⟩ [
    .node ⟨"var", false, false, false, ⟨0, 3⟩, none⟩ [],
    .node ⟨"variable_declarator", true, false, false, ⟨4, 28⟩, none⟩ [
      .node ⟨"identifier", true, false, false, ⟨4, 5⟩, some "name"⟩ [],
      .node ⟨"=", false, false, false, ⟨5, 6⟩, none⟩ [],
      value]]

def hiddenNamespace : Tree :=
  .node ⟨Tree.parenthesized, true, false, false, ⟨11, 18⟩, some "object"⟩ [
    .node ⟨"(", false, false, false, ⟨11, 12⟩, none⟩ [],
    cartNamespace.inRole none,
    .node ⟨")", false, false, false, ⟨17, 18⟩, none⟩ []]

def bracketed (ctor : Tree) : Tree :=
  .node ⟨Tree.parenthesized, true, false, false, ⟨10, 26⟩, some "constructor"⟩ [
    .node ⟨"(", false, false, false, ⟨10, 11⟩, none⟩ [],
    ctor.inRole none,
    .node ⟨")", false, false, false, ⟨25, 26⟩, none⟩ []]

theorem classOf_wrapped_cart :
    let src := Source.ofString "var c=new ((sn_sc).CartJS)()"
    let hidden := cartConstructor.replace "object" hiddenNamespace
    newCart.type = "new_expression" ∧ newCart.field? "constructor" = some cartConstructor ∧
    constructor? newCart = some cartConstructor ∧
    cartConstructor.field? "object" = some cartNamespace ∧
    cartConstructor.WrappedIn (bracketed cartConstructor) ∧
    cartNamespace.WrappedIn hiddenNamespace ∧ hidden.WrappedIn (bracketed hidden) ∧
    classOf src (newCart.replace "constructor" (bracketed cartConstructor)) = some "CartJS" ∧
    classOf src (newCart.replace "constructor" (bracketed hidden)) = none ∧
    (∃ e, Plan.declared src newCart newCart newCart = .node e [] ∧
      e.subtype = some "CartJS") := by
  intro src hidden
  have hctor : constructor? newCart = some cartConstructor := rfl
  have hobject : cartConstructor.field? "object" = some cartNamespace := rfl
  have hbracketed : cartConstructor.WrappedIn (bracketed cartConstructor) :=
    .around rfl rfl (.bare none)
  have hspace : cartNamespace.WrappedIn hiddenNamespace := .around rfl rfl (.bare none)
  have hhidden : hidden.WrappedIn (bracketed hidden) := .around rfl rfl (.bare none)
  have hcart : classOf src newCart = some "CartJS" := by decide +kernel
  have hlost : LosesNamespace src cartConstructor cartNamespace hiddenNamespace := by
    decide +kernel
  obtain ⟨haround, hinside, hdeclared⟩ := classOf_wrapped src newCart rfl
  obtain ⟨e, he, -, hsubtype, -⟩ := hdeclared newCart newCart
  exact ⟨rfl, rfl, hctor, hobject, hbracketed, hspace, hhidden,
    (haround _ _ rfl hbracketed).trans hcart,
    (hinside _ _ _ _ hctor hobject hspace hhidden).2 hlost, e, he, hsubtype.trans hcart⟩

/-- Parentheses around a namespace take the declaration out of the logic view. -/
theorem classOf_hidden_namespace :
    let src := Source.ofString "var c=new ((sn_sc).CartJS)()"
    let hidden := newCart.replace "constructor"
      (bracketed (cartConstructor.replace "object" hiddenNamespace))
    let shown := newCart.replace "constructor" (bracketed cartConstructor)
    cartNamespace.WrappedIn hiddenNamespace ∧
    classOf src shown = some "CartJS" ∧ classOf src hidden = none ∧
    (View.logic.apply (extract src (cartDeclaration shown))).map (·.subtype) = [some "CartJS"] ∧
    View.logic.apply (extract src (cartDeclaration hidden)) = [] := by
  refine ⟨.around rfl rfl (.bare none), ?_, ?_, ?_, ?_⟩
  all_goals decide +kernel

end Flowchart.Platform
