import Flowchart.Proofs.Batch.Independence
import Flowchart.Proofs.Batch.LineEnds
import Flowchart.Proofs.Flow.FunctionNodes
import Flowchart.Proofs.Script.Locations

/-! The ranges that are written for a script, and the stretches of its file that they tell. -/
namespace Flowchart

/-- The member of an object under a key. -/
def Json.member? (key : String) : Json → Option Json
  | obj members => members.lookup key
  | _ => none

/-- The nodes of the tree begin and end between two characters of the text. -/
def Tree.OnBoundaries (src : Source) (root : Tree) : Prop :=
  ∀ t ∈ root.preorder, src.IsBoundary t.span.start ∧ src.IsBoundary t.span.stop

instance (src : Source) (root : Tree) : Decidable (root.OnBoundaries src) :=
  inferInstanceAs (Decidable (∀ t ∈ root.preorder,
    src.IsBoundary t.span.start ∧ src.IsBoundary t.span.stop))

namespace Batch

/-- The places `i` and `j` of the text of a file enclose `construct`. In the file itself they are
further on by the pairs in front of them. -/
structure Encloses (content : List Char) (i j : Nat) (construct : List Char) : Prop where
  inText : Text.slice i j (unifyLineEnds content) = construct
  inFile : unifyLineEnds (Text.slice (fileOffset content i) (fileOffset content j) content) =
    construct
  start : fileOffset content i = i + lineEndPairs (content.take (fileOffset content i))
  stop : fileOffset content j = j + lineEndPairs (content.take (fileOffset content j))
  withoutPairs : lineEndPairs (content.take (fileOffset content j)) = 0 →
    unifyLineEnds (Text.slice i j content) = construct

theorem Encloses.of_slice {content construct : List Char} {i j : Nat}
    (h : Text.slice i j (unifyLineEnds content) = construct) : Encloses content i j construct where
  inText := h
  inFile := (unifyLineEnds_slice content i j).trans h
  start := fileOffset_eq content i
  stop := fileOffset_eq content j
  withoutPairs := fun hno => (unifyLineEnds_slice_of_no_pairs hno i).trans h

/-- The range of a tree encloses its text. -/
theorem exists_encloses {content : List Char} {u : Tree}
    (hstart : Source.IsBoundary { text := unifyLineEnds content } u.span.start)
    (hstop : Source.IsBoundary { text := unifyLineEnds content } u.span.stop) :
    let src : Source := { text := unifyLineEnds content }
    ∃ i j : Nat, src.range u.span = ⟨i, j⟩ ∧ Encloses content i j (src.charsOf u.span) := by
  intro src
  have hslice := Source.slice_charOffset hstart hstop
  obtain ⟨before, hbefore, ha⟩ := hstart
  obtain ⟨before', hbefore', hb⟩ := hstop
  have hi : src.charOffset u.span.start = before.length := by
    rw [ha, src.charOffset_length_encode hbefore]
  have hj : src.charOffset u.span.stop = before'.length := by
    rw [hb, src.charOffset_length_encode hbefore']
  refine ⟨before.length, before'.length, ?_, .of_slice ?_⟩
  · rw [Source.range, hi, hj]
  · rw [← hi, ← hj]
    exact hslice

/-- The chart of a script has what the view shows of the text in its file. -/
theorem nodes_of_chart? {host : Host} {view : View} {fs : Files} {script : Script}
    {content text : List Char} {c : Chart}
    (hread : fs.read script.path.toList = .ok (Utf8.encode content))
    (hchart : chart? host view fs script = some (text, c)) :
    text = unifyLineEnds content ∧
      c.nodes = view.apply (extract { text } (host.parse (.ofList text))) := by
  simp only [chart?, hread, scriptText, Utf8.decodeDropping_encode] at hchart
  split at hchart
  · rename_i c' hfound
    obtain ⟨rfl, rfl⟩ := Prod.ext_iff.mp (Option.some.inj hchart)
    obtain ⟨-, -, -, -, rfl⟩ := examine_eq_chart_iff.mp hfound
    exact ⟨rfl, rfl⟩
  · cases hchart

/-- The work on a script with a chart stores it, or breaks off before that. -/
theorem files_process_of_chart {host : Host} {o : Options} {script : Script} {s : State}
    {text : List Char} {c : Chart}
    (hchart : chart? host o.view s.files script = some (text, c)) :
    let done := process host o script s
    (done.1.files = s.files ∧ ∃ a, done.2 = .aborted a) ∨
      ∃ descriptions, s.described host o text c = .ok descriptions ∧
        done.1.files = (store host o script c descriptions s.files).1 := by
  intro done
  rcases sayAll_cases (host.progress o) (scriptLines host o s.files script) s
      (proceed host o s.files script) with ⟨-, heq⟩ | ⟨_, _, fault, -, -, heq⟩
  · have hdone : done = deliver host o script text c
        (s.logged (scriptLines host o s.files script)) := by
      rw [← proceed_of_chart hchart, ← heq]
      exact process_eq script s
    cases hdescribed : s.described host o text c with
    | error fault =>
      rw [hdone, deliver_of_fault (by rwa [State.described_logged])]
      exact .inl ⟨rfl, _, rfl⟩
    | ok descriptions =>
      refine .inr ⟨descriptions, rfl, ?_⟩
      rw [hdone]
      exact (deliver_cases script (by rwa [State.described_logged])).1
  · have hdone : done = (_, .aborted (.line fault)) := (process_eq script s).trans heq
    rw [hdone]
    exact .inl ⟨rfl, _, rfl⟩

/-- The output of a script with a chart has, for each node, the range of the tree that the node is
made for, in the text that was read. In the file the same characters stand as much further on as
there are line ends of two characters in front of them, so that the range is one of the file itself
where there are none. -/
theorem written_ranges {host : Host} {o : Options} {script : Script} {s : State}
    {content text : List Char} {c : Chart}
    (hread : s.files.read script.path.toList = .ok (Utf8.encode content))
    (hchart : chart? host o.view s.files script = some (text, c))
    (hspans : (host.parse (.ofList text)).OnBoundaries { text }) :
    let src : Source := { text }
    let root := host.parse (.ofList text)
    let done := process host o script s
    ((done.1.files = s.files ∧ ∃ a, done.2 = .aborted a) ∨
      ∃ descriptions, s.described host o text c = .ok descriptions ∧
        done.1.files = (store host o script c descriptions s.files).1) ∧
    (∀ texts, (outputPath o script ".json", .text (c.toJson script.path texts).print) ∈
        outputs o script c texts ∧
      (c.toJson script.path texts).member? "nodes" =
        some (.arr (c.nodes.map FlowNode.toJson))) ∧
    ∀ n ∈ c.nodes, ∃ i j : Nat, ∃ p u,
      n.toJson.member? "sourceRange" = some (.arr [.nat i, .nat j]) ∧
      InStatementPosition root p ∧ (n.kind, n.range) ∈ p.tree.made src ∧
      p.tree.MakesFor n.kind u ∧ n.range = src.range u.span ∧
      Encloses content i j (src.charsOf u.span) := by
  intro src root done
  refine ⟨files_process_of_chart hchart, fun texts => ⟨List.mem_cons_self, rfl⟩, fun n hn => ?_⟩
  obtain ⟨rfl, hnodes⟩ := nodes_of_chart? hread hchart
  rw [hnodes] at hn
  obtain ⟨p, hp, hmade⟩ := exists_made ((isPart_view o.view src root).sublist.subset hn)
  obtain ⟨k, u, hu, he⟩ := Tree.exists_makesFor hmade
  obtain rfl : n.kind = k := (Prod.ext_iff.mp he).1
  have hrange : n.range = src.range u.span := (Prod.ext_iff.mp he).2
  obtain ⟨hstart, hstop⟩ := hspans u (hu.mem_preorder hp.mem_preorder)
  obtain ⟨i, j, hij, hencloses⟩ := exists_encloses hstart hstop
  refine ⟨i, j, p, u, ?_, hp, hmade, hu, hrange, hencloses⟩
  have hjson : n.toJson.member? "sourceRange" = some n.range.toJson := rfl
  rw [hjson, hrange.trans hij]
  rfl

/-! A script of two functions on two lines, of which the first ends with a pair. -/

def pairText : List Char :=
  "function f() \x7b\x7d\r\nfunction g() \x7b\x7d".toList

def pairTree : Tree :=
  let node (type : String) (start stop : Int) (field : Option String) (below : List Tree) : Tree :=
    .node ⟨type, true, false, false, ⟨start, stop⟩, field⟩ below
  let function (start : Int) : Tree :=
    node "function_declaration" start (start + 15) none [
      node "identifier" (start + 9) (start + 10) (some "name") [],
      node "formal_parameters" (start + 10) (start + 12) (some "parameters") [],
      node "statement_block" (start + 13) (start + 15) (some "body") []]
  node "program" 0 31 none [function 0, function 16]

def pairFiles : Files where
  cwd := ["work".toList]
  items := [
    (["work".toList], .directory),
    (["work".toList, "s".toList], .directory),
    (["work".toList, "s".toList, "a.js".toList], .file (.bytes (Utf8.encode pairText)))]

def pairHost : Host where
  parse := fun _ => pairTree

def pairScript : Script := ⟨"s/a.js", "a"⟩

def pairOptions : Options := { path := "s", outDir := "/work/o" }

theorem exists_chart_pairText :
    ∃ c, chart? pairHost pairOptions.view pairFiles pairScript =
      some (unifyLineEnds pairText, c) ∧
      c.nodes = pairOptions.view.apply (extract { text := unifyLineEnds pairText } pairTree) := by
  have hread : pairFiles.read pairScript.path.toList = .ok (Utf8.encode pairText) := rfl
  have hsome : (chart? pairHost pairOptions.view pairFiles pairScript).isSome := by
    decide +kernel
  obtain ⟨⟨text, c⟩, hchart⟩ := Option.isSome_iff_exists.mp hsome
  obtain ⟨rfl, hnodes⟩ := nodes_of_chart? hread hchart
  exact ⟨c, hchart, hnodes⟩

theorem written_ranges_pairText :
    let src : Source := { text := unifyLineEnds pairText }
    ∃ c, chart? pairHost pairOptions.view pairFiles pairScript =
        some (unifyLineEnds pairText, c) ∧
      c.nodes.length = 2 ∧ ∀ n ∈ c.nodes, ∃ i j : Nat, ∃ u : Tree,
        n.toJson.member? "sourceRange" = some (.arr [.nat i, .nat j]) ∧
        n.range = src.range u.span ∧ Encloses pairText i j (src.charsOf u.span) := by
  intro src
  obtain ⟨c, hchart, hnodes⟩ := exists_chart_pairText
  have hspans : pairTree.OnBoundaries src := by decide +kernel
  obtain ⟨-, -, hranges⟩ := written_ranges (s := { files := pairFiles }) rfl hchart hspans
  refine ⟨c, hchart, hnodes ▸ by decide +kernel, fun n hn => ?_⟩
  obtain ⟨i, j, p, u, hjson, -, -, -, hrange, hencloses⟩ := hranges n hn
  exact ⟨i, j, u, hjson, hrange, hencloses⟩

/-- What stands at the second range in the file is not the second function, which is one character
further on. -/
theorem pairText_ranges_drift :
    let src : Source := { text := unifyLineEnds pairText }
    (process pairHost pairOptions pairScript { files := pairFiles }).2 = .written ∧
    ∃ c, chart? pairHost pairOptions.view pairFiles pairScript =
        some (unifyLineEnds pairText, c) ∧
      c.nodes.map (·.range) = [⟨0, 15⟩, ⟨16, 31⟩] ∧
      (¬ ∀ n ∈ c.nodes, ∃ u ∈ pairTree.preorder, n.range = src.range u.span ∧
        unifyLineEnds (Text.slice n.range.start n.range.stop pairText) = src.charsOf u.span) ∧
      Text.slice 17 32 pairText = "function g() \x7b\x7d".toList := by
  intro src
  obtain ⟨c, hchart, hnodes⟩ := exists_chart_pairText
  refine ⟨by decide +kernel, c, hchart, ?_⟩
  rw [hnodes]
  decide +kernel

end Batch
end Flowchart
