import Flowchart.Platform.Call
import Flowchart.Proofs.Script.Parentheses

/-! Calls with redundant parentheses. Neither the label nor the category of a call tells whether
there are parentheses around what is called or around its receiver. -/
namespace Flowchart.Platform
open Flowchart.Tree

/-- What a call of `callee` is for. -/
def calleeCategory (src : Source) (callee : Tree) : Option Category :=
  (memberParts src callee).bind fun x => methodCategory src x.1 x.2

/-- The name of a receiver, if it has one. -/
def receiverName? (src : Source) (receiver : Tree) : Option String :=
  receiver.unwrap.bind (identifierName? src)

section
variable (src : Source) (call : Tree)

theorem classify_eq : classify src call =
    if call.type = "call_expression" then
      ((callee? call).bind (calleeCategory src)).map (⟨callLabel src call, ·⟩)
    else none := by
  unfold classify
  split_ifs
  · cases callee? call with
    | none => rfl
    | some callee =>
      rw [Option.bind_some, Option.bind_some, calleeCategory]
      cases memberParts src callee with
      | none => rfl
      | some x => cases h : methodCategory src x.1 x.2 <;> simp [h]
  · rfl

theorem callLabel_eq :
    callLabel src call = ((callee? call).map (calleeLabel src)).getD unnamedCall := by
  rw [callLabel]
  cases callee? call <;> rfl

theorem methodCategory_eq (receiver : Tree) (method : String) :
    methodCategory src receiver method =
      ((categoryIn recordMethods method).or
        ((receiverName? src receiver).bind (receivers.lookup ·))).or
          (categoryIn methodTables method) := rfl

end

/-! Receivers. -/

section
variable {src : Source} {r s : Tree}

theorem receiverLabel_congr (h : r.SameInside s) : receiverLabel src r = receiverLabel src s := by
  have hlabel (t : Tree) : receiverLabel src t =
      (t.unwrap.map fun u =>
        if ["identifier", "this"].contains u.type then src.textOf u.span
        else if u.type = "call_expression" then "..." else "?").getD "?" := by
    rw [receiverLabel]
    cases t.unwrap <;> rfl
  rw [hlabel r, hlabel s, h.map_unwrap fun _ => rfl]

theorem receiverName?_congr (h : r.SameInside s) : receiverName? src r = receiverName? src s :=
  h.bind_unwrap fun _ => rfl

/-- A receiver with a name is shown by it. -/
theorem receiverLabel_of_name {name : String} (h : receiverName? src r = some name) :
    receiverLabel src r = name := by
  obtain ⟨t, ht, hname⟩ := Option.bind_eq_some_iff.mp h
  rw [identifierName?] at hname
  split_ifs at hname with htype
  rw [receiverLabel, ht]
  simpa [htype] using Option.some.inj hname

end

/-! What is called. -/

section
variable {src : Source} {call callee object p q : Tree}

theorem memberParts_replace (hobject : callee.field? "object" = some object) (q : Tree) :
    memberParts src (callee.replace "object" q) =
      (memberParts src callee).map fun x => (q.inRole (some "object"), x.2) := by
  have hother {name : String} (hne : name ≠ "object") :
      (callee.replace "object" q).field? name = callee.field? name :=
    field?_replace_of_ne hobject q hne
  unfold memberParts
  rw [type_replace, field?_replace hobject, hother (by decide), hother (by decide), hobject]
  split_ifs <;> rfl

theorem fst_eq_of_memberParts {x : Tree × String} (hobject : callee.field? "object" = some object)
    (h : memberParts src callee = some x) : x.1 = object := by
  unfold memberParts at h
  rw [hobject] at h
  split_ifs at h
  · exact congrArg Prod.fst (Option.some.inj h).symm
  · exact congrArg Prod.fst (Option.some.inj h).symm

theorem calleeLabel_replace (hobject : callee.field? "object" = some object)
    (hq : object.WrappedIn q) :
    calleeLabel src (callee.replace "object" q) = calleeLabel src callee := by
  have hsame : receiverLabel src object = receiverLabel src (q.inRole (some "object")) :=
    receiverLabel_congr (hq.inRole (some "object")).sameInside
  unfold calleeLabel
  rw [memberParts_replace hobject]
  cases h : memberParts src callee with
  | none => rfl
  | some x =>
    have hx := fst_eq_of_memberParts hobject h
    simp only [Option.map_some, ← hsame, hx]

theorem calleeCategory_replace (hobject : callee.field? "object" = some object)
    (hq : object.WrappedIn q) :
    calleeCategory src (callee.replace "object" q) = calleeCategory src callee := by
  have hsame : receiverName? src object = receiverName? src (q.inRole (some "object")) :=
    receiverName?_congr (hq.inRole (some "object")).sameInside
  rw [calleeCategory, calleeCategory, memberParts_replace hobject]
  cases h : memberParts src callee with
  | none => rfl
  | some x =>
    have hx := fst_eq_of_memberParts hobject h
    simp only [Option.map_some, Option.bind_some, methodCategory_eq, ← hsame, hx]

/-- What does not ask for the role of a node is told of what is called, whatever parentheses are
put around it. -/
theorem map_callee?_replace {α : Type} {f : Tree → α} {function : Tree}
    (hfunction : call.field? "function" = some function) (hp : callee.WrappedIn p)
    (hf : ∀ t : Tree, f (t.inRole none) = f t) :
    (callee? (call.replace "function" p)).map f = callee.unwrap.map f := by
  rw [callee?, field?_replace hfunction, Option.bind_some]
  exact ((hp.inRole _).sameInside.map_unwrap hf).symm

/-- Calls are classified and labelled by what is called. -/
theorem classify_congr {call' : Tree} (htype : call'.type = call.type)
    (hlabel : (callee? call').map (calleeLabel src) = (callee? call).map (calleeLabel src))
    (hcategory :
      (callee? call').map (calleeCategory src) = (callee? call).map (calleeCategory src)) :
    classify src call' = classify src call ∧ callLabel src call' = callLabel src call := by
  have hlabels : callLabel src call' = callLabel src call := by
    rw [callLabel_eq, callLabel_eq, hlabel]
  have hbind (o : Option Tree) :
      o.bind (calleeCategory src) = (o.map (calleeCategory src)).bind id := by
    rw [Option.bind_map]
    rfl
  have hcategories :
      (callee? call').bind (calleeCategory src) = (callee? call).bind (calleeCategory src) := by
    rw [hbind, hcategory, ← hbind]
  exact ⟨by rw [classify_eq, classify_eq, htype, hlabels, hcategories], hlabels⟩

theorem categoryIn_append (tables tables' : List (List String × Category)) (name : String) :
    categoryIn (tables ++ tables') name = (categoryIn tables name).or (categoryIn tables' name) := by
  rw [categoryIn, List.find?_append, Option.map_or]
  rfl

/-- The label shows the name that a category is found under. -/
theorem listed_of_methodCategory {name : String} {category : Category}
    (h : methodCategory src object name = some category) :
    receivers.lookup (receiverLabel src object) = some category ∨
      categoryIn (recordMethods ++ methodTables) name = some category := by
  rw [methodCategory_eq] at h
  rw [categoryIn_append]
  rcases Option.or_eq_some_iff.mp h with h | ⟨hnone, h⟩
  · rcases Option.or_eq_some_iff.mp h with h | ⟨-, h⟩
    · exact .inr (Option.or_eq_some_iff.mpr (.inl h))
    · obtain ⟨receiver, hreceiver, hlisted⟩ := Option.bind_eq_some_iff.mp h
      exact .inl (receiverLabel_of_name hreceiver ▸ hlisted)
  · exact .inr (Option.or_eq_some_iff.mpr (.inr ⟨(Option.or_eq_none_iff.mp hnone).1, h⟩))

/-- A classified call is labelled by its receiver and its method. -/
theorem label_of_classify {info : CallInfo} (h : classify src call = some info) :
    info.label = callLabel src call ∧ ∃ object name,
      (callee? call).bind (memberParts src) = some (object, name) ∧
      info.label =
        receiverLabel src object ++ "." ++ (if name = "" then "?" else name) ++ "()" ∧
      (receivers.lookup (receiverLabel src object) = some info.category ∨
        categoryIn (recordMethods ++ methodTables) name = some info.category) := by
  rw [classify_eq] at h
  split_ifs at h
  obtain ⟨category, hcategory, rfl⟩ := Option.map_eq_some_iff.mp h
  obtain ⟨callee, hcallee, hcategory⟩ := Option.bind_eq_some_iff.mp hcategory
  obtain ⟨⟨object, name⟩, hparts, hcategory⟩ := Option.bind_eq_some_iff.mp hcategory
  refine ⟨rfl, object, name, ?_, ?_, listed_of_methodCategory hcategory⟩
  · rw [hcallee, Option.bind_some, hparts]
  · show callLabel src call = _
    rw [callLabel_eq, hcallee, Option.map_some, Option.getD_some, calleeLabel, hparts]

end

/-- Redundant parentheses do not change a call: they may stand around what is called, and around
the receiver of a method, in any number and with comments beside it in them. And a call that is
classified has the label of the call, made of its receiver and its method, and its category is
listed under the one or the other. -/
theorem classify_wrapped (src : Source) (call : Tree) :
    (∀ function p, call.field? "function" = some function → function.WrappedIn p →
      classify src (call.replace "function" p) = classify src call ∧
      callLabel src (call.replace "function" p) = callLabel src call) ∧
    (∀ callee object q p, callee? call = some callee → callee.field? "object" = some object →
      object.WrappedIn q → (callee.replace "object" q).WrappedIn p →
      classify src (call.replace "function" p) = classify src call ∧
      callLabel src (call.replace "function" p) = callLabel src call) ∧
    ∀ info, classify src call = some info → info.label = callLabel src call ∧ ∃ object name,
      (callee? call).bind (memberParts src) = some (object, name) ∧
      info.label =
        receiverLabel src object ++ "." ++ (if name = "" then "?" else name) ++ "()" ∧
      (receivers.lookup (receiverLabel src object) = some info.category ∨
        categoryIn (recordMethods ++ methodTables) name = some info.category) := by
  refine ⟨?_, ?_, fun info h => label_of_classify h⟩
  · intro function p hfunction hp
    have hcallee : callee? call = function.unwrap := by
      rw [callee?, hfunction, Option.bind_some]
    refine classify_congr rfl ?_ ?_
    · rw [map_callee?_replace hfunction hp fun _ => rfl, hcallee]
    · rw [map_callee?_replace hfunction hp fun _ => rfl, hcallee]
  · intro callee object q p hcallee hobject hq hp
    obtain ⟨function, hfunction, hunwrap⟩ := Option.bind_eq_some_iff.mp hcallee
    have hself := unwrap_replace hunwrap "object" q
    refine classify_congr rfl ?_ ?_
    · rw [map_callee?_replace hfunction hp fun _ => rfl, hself, hcallee, Option.map_some,
        Option.map_some, calleeLabel_replace hobject hq]
    · rw [map_callee?_replace hfunction hp fun _ => rfl, hself, hcallee, Option.map_some,
        Option.map_some, calleeCategory_replace hobject hq]

/-! The call of `gs.info`, with parentheses around `gs` and around `gs.info`. -/

def infoReceiver : Tree :=
  .node ⟨"identifier", true, false, false, ⟨7, 9⟩, some "object"⟩ []

def infoMember : Tree :=
  .node ⟨"member_expression", true, false, false, ⟨1, 15⟩, some "function"⟩ [
    infoReceiver,
    .node ⟨".", false, false, false, ⟨10, 11⟩, none⟩ [],
    .node ⟨"property_identifier", true, false, false, ⟨11, 15⟩, some "property"⟩ []]

def infoCall : Tree :=
  .node ⟨"call_expression", true, false, false, ⟨0, 18⟩, none⟩ [
    infoMember,
    .node ⟨"arguments", true, false, false, ⟨16, 18⟩, some "arguments"⟩ []]

def wrappedReceiver : Tree :=
  .node ⟨Tree.parenthesized, true, false, false, ⟨1, 10⟩, some "object"⟩ [
    .node ⟨"(", false, false, false, ⟨1, 2⟩, none⟩ [],
    .node ⟨"comment", true, false, false, ⟨2, 7⟩, none⟩ [],
    infoReceiver.inRole none,
    .node ⟨")", false, false, false, ⟨9, 10⟩, none⟩ []]

def wrapped (member : Tree) : Tree :=
  .node ⟨Tree.parenthesized, true, false, false, ⟨0, 16⟩, some "function"⟩ [
    .node ⟨"(", false, false, false, ⟨0, 1⟩, none⟩ [],
    member.inRole none,
    .node ⟨")", false, false, false, ⟨15, 16⟩, none⟩ []]

theorem classify_wrapped_info :
    let src := Source.ofString "((/*a*/gs).info)()"
    let member := infoMember.replace "object" wrappedReceiver
    infoCall.field? "function" = some infoMember ∧ infoMember.WrappedIn (wrapped infoMember) ∧
    callee? infoCall = some infoMember ∧ infoMember.field? "object" = some infoReceiver ∧
    infoReceiver.WrappedIn wrappedReceiver ∧ member.WrappedIn (wrapped member) ∧
    classify src infoCall = some ⟨"gs.info()", .system⟩ ∧
    classify src (infoCall.replace "function" (wrapped infoMember)) =
      some ⟨"gs.info()", .system⟩ ∧
    classify src (infoCall.replace "function" (wrapped member)) = some ⟨"gs.info()", .system⟩ ∧
    callLabel src (infoCall.replace "function" (wrapped member)) = "gs.info()" := by
  intro src member
  have hfunction : infoCall.field? "function" = some infoMember := rfl
  have hcallee : callee? infoCall = some infoMember := rfl
  have hobject : infoMember.field? "object" = some infoReceiver := rfl
  have hreceiver : infoReceiver.WrappedIn wrappedReceiver := .around rfl rfl (.bare none)
  have hcalled : infoMember.WrappedIn (wrapped infoMember) := .around rfl rfl (.bare none)
  have hmember : member.WrappedIn (wrapped member) := .around rfl rfl (.bare none)
  have hinfo : classify src infoCall = some ⟨"gs.info()", .system⟩ := by decide +kernel
  obtain ⟨haround, hboth, hlabel⟩ := classify_wrapped src infoCall
  have hclass := (haround _ _ hfunction hcalled).1.trans hinfo
  obtain ⟨hclass', hlabel'⟩ := hboth _ _ _ _ hcallee hobject hreceiver hmember
  exact ⟨hfunction, hcalled, hcallee, hobject, hreceiver, hmember, hinfo, hclass,
    hclass'.trans hinfo, hlabel'.trans (hlabel _ hinfo).1.symm⟩

end Flowchart.Platform
