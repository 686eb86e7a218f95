import Flowchart.Proofs.Flow.FunctionNodes
import Flowchart.Proofs.Text.Excerpt

/-! The signatures that function nodes show. They are shortened to their first characters before
they are clipped, so the end of some is missing without a mark. -/
namespace Flowchart

namespace Occurrence
open Flowchart.Tree Plan
variable {src : Source}

/-- The function node of the place `p` is about the function `f`: this is `p` itself, or `p` is a
statement that calls it where it is written. -/
inductive Introduces (p : Occurrence) : Occurrence → Prop where
  | itself : p.tree.construct = .function → Introduces p p
  | called {f : Occurrence} : p.Calls f → f.tree.isFunction → Introduces p f

/-- Every entry of an outline is made by the step of one of its places. -/
theorem exists_step (p : Occurrence) (name : Option String) {e : Entry}
    (he : e ∈ FlowTree.entriesAll (p.tree.outline src name)) :
    ∃ q ∈ p.positions, ∃ name, e ∈ Plan.entriesAll (step src name q.tree) := by
  induction p using held_induction generalizing name with
  | step p ih =>
    rw [outline_step] at he
    rw [positions_eq]
    rcases List.mem_append.mp ((entries_resolveAll _ _).mem_iff.mp he) with he | he
    · exact ⟨p, List.mem_cons_self, name, he⟩
    · obtain ⟨v, hv, he⟩ := List.mem_flatMap.mp he
      have hvisited : v.2 ∈ trees (step src name p.tree) := List.mem_map_of_mem hv
      rw [trees_step] at hvisited
      obtain ⟨q, hq, hqv⟩ := List.mem_map.mp hvisited
      obtain ⟨r, hr, hmade⟩ := ih q hq v.1 (hqv ▸ he)
      exact ⟨r, List.mem_cons_of_mem _ (List.mem_flatMap.mpr ⟨q, hq, hr⟩), hmade⟩

end Occurrence

namespace Tree
variable {src : Source} {t : Tree} {r : CharRange}

/-- Only functions and called functions make function nodes. -/
theorem of_function_mem_made (h : (NodeKind.function, r) ∈ t.made src) :
    t.construct = .function ∨
      t.construct = .expression ∧ t.operationKind? src = some .function := by
  rw [made] at h
  split_ifs at h with hfn
  · exact .inl (construct_of_isFunction hfn)
  · split at h
    all_goals simp [asNode] at h
    case h_1 hty | h_2 hty => exact .inl (construct_eq_function_iff.mpr (by simp [hty]))
    case h_16 hty => exact .inr ⟨construct_eq_expression_iff.mpr hty, h.1⟩

theorem exists_call_of_operationKind? (h : t.operationKind? src = some .function) :
    ∃ call fn, t.firstStatement?.bind unwrap = some call ∧ call.type = "call_expression" ∧
      Platform.callee? call = some fn ∧ fn.isFunction := by
  rw [operationKind?] at h
  obtain ⟨call, hcall, h⟩ := Option.bind_eq_some_iff.mp h
  split_ifs at h with htype hfn
  case pos =>
    obtain ⟨fn, hcallee, hfn⟩ := (Option.any_eq_true ..).mp hfn
    exact ⟨call, fn, hcall, htype, hcallee, hfn⟩
  all_goals cases h

end Tree

/-- The entry stands for the tree `t`, points at the function `fn` and shows its signature. -/
structure ShowsSignature (src : Source) (t fn : Tree) (e : Entry) : Prop where
  range : e.range = src.range t.span
  loc : e.loc = src.locRange fn.span
  snippet : e.snippet = some (Plan.signature src t.span fn)

namespace Plan
open Flowchart.Tree
variable {src : Source} {e : Entry}

theorem eq_of_mem_node_visits {own : Entry} {t : Option Tree}
    (h : e ∈ entriesAll [node own (visits t)]) : e = own := by
  have hvisits : entriesAll (visits t) = [] := entriesAll_visit none t.toList
  rw [entriesAll, entries, entriesAll, hvisits, List.append_nil] at h
  exact List.mem_singleton.mp h

theorem showsSignature_function {name : Option String} {fn : Tree}
    (h : e ∈ entriesAll [function src name fn]) : ShowsSignature src fn fn e := by
  obtain rfl := eq_of_mem_node_visits h
  exact ⟨rfl, rfl, rfl⟩

theorem showsSignature_immediate {stmt fn : Tree} (h : e ∈ entriesAll [immediate src stmt fn]) :
    ShowsSignature src stmt fn e := by
  obtain rfl := eq_of_mem_node_visits h
  exact ⟨rfl, rfl, rfl⟩

theorem expression_of_called {t call fn : Tree} (hcall : t.firstStatement?.bind unwrap = some call)
    (htype : call.type = "call_expression") (hcallee : Platform.callee? call = some fn)
    (hfn : fn.isFunction) : expression src t = [immediate src t fn] := by
  have hfilter : (some fn).filter isFunction = some fn := by simp [hfn]
  unfold expression
  rw [hcall]
  simp only [if_pos htype]
  unfold callPlan
  rw [hcallee, hfilter]

/-- A function node is made by the function that it is about, or by a statement that calls it. -/
theorem exists_showsSignature {p : Occurrence} {name : Option String}
    (he : e ∈ entriesAll (step src name p.tree)) (hkind : e.kind = .function) :
    ∃ f, p.Introduces f ∧ ShowsSignature src p.tree f.tree e := by
  have hmark : (NodeKind.function, e.range) ∈ marks (step src name p.tree) :=
    hkind ▸ List.mem_map_of_mem (f := fun e => (e.kind, e.range)) he
  rw [marks_step] at hmark
  rcases of_function_mem_made hmark with hc | ⟨hc, hoperation⟩
  · rw [step, hc, ofTree, hc] at he
    exact ⟨p, .itself hc, showsSignature_function he⟩
  · obtain ⟨call, fn, hcall, htype, hcallee, hfn⟩ := exists_call_of_operationKind? hoperation
    have hcalled : p.callee?.map Occurrence.tree = some fn := by
      have hfilter : (some call).filter (·.type = "call_expression") = some call := by simp [htype]
      rw [Occurrence.map_callee?, hcall, hfilter, Option.bind_some, hcallee]
    obtain ⟨f, hf, rfl⟩ := Option.map_eq_some_iff.mp hcalled
    have hcalls := (Occurrence.callee?_eq_some_iff (construct_eq_expression_iff.mp hc)).mp hf
    have himmediate : step src name p.tree = [immediate src p.tree f.tree] := by
      rw [step, hc, ofTree, hc]
      exact expression_of_called hcall htype hcallee hfn
    exact ⟨f, .called hcalls hfn, showsSignature_immediate (himmediate ▸ he)⟩

end Plan

/-- The text that a signature is taken from: what stands in `t` before the body of `fn`, or all of
`t` if there is no body. -/
def signatureText (src : Source) (t fn : Tree) : List Char :=
  src.charsOf (Plan.headSpan t.span (fn.field? "body"))

theorem signature_eq (src : Source) (t fn : Tree) :
    Plan.signature src t.span fn =
      .ofList (Text.clip (50 : Nat) (Text.upTo (60 : Nat) (signatureText src t fn))) := by
  rw [Plan.signature, Source.head, String.toList_ofList]
  rfl

/-- A function node shows the signature of a function that is declared in statement position or
called by a statement there: all that stands before the body, or a part with a mark where it is cut.
But the end is lost without a mark just where the first 60 characters leave no more than 50 when
they are trimmed, something visible stands behind them, and they do not end with dots themselves. -/
theorem extract_signatures {src : Source} {root : Tree} {n : FlowNode} (hn : n ∈ extract src root)
    (hkind : n.kind = .function) :
    ∃ p f, InStatementPosition root p ∧ p.Introduces f ∧ n.range = src.range p.tree.span ∧
      n.loc = src.locRange f.tree.span ∧ ∃ shown, n.snippet = some (.ofList shown) ∧
        let text := signatureText src p.tree f.tree
        shown = (if Text.LosesEnd 50 60 text then Text.trim (text.take 60)
          else Text.clip 50 text) ∧
        (Text.WholeOrMarked shown text ↔
          ¬ (Text.LosesEnd 50 60 text ∧ ¬ Text.ellipsis <:+ Text.trim (text.take 60))) := by
  have hentry : n.toEntry ∈ FlowTree.entriesAll (root.outline src none) := by
    rw [← FlowTree.map_toEntry_numberAll 0 none]
    exact List.mem_map_of_mem hn
  obtain ⟨p, hp, name, hmade⟩ := Occurrence.exists_step ⟨[], root⟩ none hentry
  obtain ⟨f, hf, hrange, hloc, hsnippet⟩ := Plan.exists_showsSignature hmade hkind
  rw [signature_eq] at hsnippet
  exact ⟨p, f, Occurrence.mem_positions_iff.mp hp, hf, hrange, hloc, _, hsnippet,
    Text.clip_upTo 50 60 _, Text.wholeOrMarked_iff⟩

/-! A function with a long gap in its parameter list. -/

def gapText : String :=
  "function f(                                                  b) \x7b\x7d"

def gapFunction : Tree :=
  .node ⟨"function_declaration", true, false, false, ⟨0, 66⟩, none⟩ [
    .node ⟨"function", false, false, false, ⟨0, 8⟩, none⟩ [],
    .node ⟨"identifier", true, false, false, ⟨9, 10⟩, some "name"⟩ [],
    .node ⟨"formal_parameters", true, false, false, ⟨10, 63⟩, some "parameters"⟩ [
      .node ⟨"(", false, false, false, ⟨10, 11⟩, none⟩ [],
      .node ⟨"identifier", true, false, false, ⟨61, 62⟩, none⟩ [],
      .node ⟨")", false, false, false, ⟨62, 63⟩, none⟩ []],
    .node ⟨"statement_block", true, false, false, ⟨64, 66⟩, some "body"⟩ [
      .node ⟨"\x7b", false, false, false, ⟨64, 65⟩, none⟩ [],
      .node ⟨"\x7d", false, false, false, ⟨65, 66⟩, none⟩ []]]

def gapScript : Tree :=
  .node ⟨"program", true, false, false, ⟨0, 66⟩, none⟩ [gapFunction]

theorem extract_signatures_gap :
    let src := Source.ofString gapText
    ∃ n ∈ extract src gapScript, n.kind = .function ∧ ∃ p f,
      InStatementPosition gapScript p ∧ p.Introduces f ∧ n.range = src.range p.tree.span ∧
      n.loc = src.locRange f.tree.span ∧ n.snippet = some "function f(" := by
  intro src
  have hone : (extract src gapScript).map (fun n => (n.kind, n.snippet)) =
      [(.function, some "function f(")] := by decide +kernel
  obtain ⟨n, hn, hshown⟩ := List.mem_map.mp (hone ▸ List.mem_singleton_self _)
  obtain ⟨hkind, hsnippet⟩ := Prod.ext_iff.mp hshown
  obtain ⟨p, f, hp, hf, hrange, hloc, -⟩ := extract_signatures hn hkind
  exact ⟨n, hn, hkind, p, f, hp, hf, hrange, hloc, hsnippet⟩

/-- The parameter behind the gap is lost, and nothing tells so. -/
theorem gap_signature_unmarked :
    let src := Source.ofString gapText
    let text := signatureText src gapFunction gapFunction
    text = "function f(                                                  b) ".toList ∧
    (extract src gapScript).map (·.snippet) = [some (.ofList "function f(".toList)] ∧
    ¬ Text.WholeOrMarked "function f(".toList text := by
  decide +kernel

end Flowchart
