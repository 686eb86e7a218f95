import Flowchart.Proofs.Describe.Sessions
import Flowchart.Proofs.Flow.FunctionNodes
import Flowchart.Proofs.Flow.Ranges
import Flowchart.Proofs.Script.Locations

/-! What the model is shown of the functions of a script: their own texts, though they are cut out
of the script by characters and the parser tells bytes. -/
namespace Flowchart

/-- The spans of a tree begin and end between characters. -/
def Tree.IsAligned (src : Source) (root : Tree) : Prop :=
  ∀ t ∈ root.preorder, src.IsBoundary t.span.start ∧ src.IsBoundary t.span.stop

instance (src : Source) (root : Tree) : Decidable (root.IsAligned src) :=
  inferInstanceAs (Decidable (∀ t ∈ root.preorder, _ ∧ _))

open Describer

namespace Describer

/-- A question is about the code that is asked about. -/
theorem eq_prompt_of_mem_prompts {output : Output} {d : Describer} {code question : String}
    (h : question ∈ (d.describe output code).2.2.prompts) : question = prompt (trimmed code) := by
  have hwarn (d : Describer) (t : Transcript) (message : WideText) :
      (d.warn output t message).2.2.prompts = t.prompts := by
    rw [warn]
    split <;> rfl
  rw [describe] at h
  dsimp only at h
  split_ifs at h
  · exact absurd h List.not_mem_nil
  · split at h
    · exact absurd h List.not_mem_nil
    · split at h
      · rw [hwarn] at h
        exact absurd h List.not_mem_nil
      · split at h
        · rw [hwarn] at h
          exact List.mem_singleton.mp h
        · split at h
          · rw [hwarn] at h
            exact List.mem_singleton.mp h
          · exact List.mem_singleton.mp h

/-- The questions of a description are about the codes of the functions described. -/
theorem exists_function_of_mem_prompts {output : Output} {text : List Char}
    {nodes : List FlowNode} {d : Describer} {done : Descriptions} {question : String}
    (h : question ∈ (d.describeOnto output text done nodes).2.2.prompts) :
    ∃ n ∈ functionsAmong nodes, question = prompt (trimmed (codeOf text n.range)) := by
  induction nodes generalizing d done with
  | nil => exact absurd h List.not_mem_nil
  | cons n rest ih =>
    rw [describeOnto] at h
    split at h
    · rename_i hkind
      rw [functionsAmong_cons_of_function hkind]
      have hfirst (hmem : question ∈ (d.describe output (codeOf text n.range)).2.2.prompts) :
          ∃ m ∈ n :: functionsAmong rest, question = prompt (trimmed (codeOf text m.range)) :=
        ⟨n, List.mem_cons_self, eq_prompt_of_mem_prompts hmem⟩
      split at h
      · rename_i hdescribe
        rw [hdescribe] at hfirst
        exact hfirst h
      · rename_i hdescribe
        rw [hdescribe] at hfirst
        rcases List.mem_append.mp h with h | h
        · exact hfirst h
        · obtain ⟨m, hm, hquestion⟩ := ih h
          exact ⟨m, List.mem_cons_of_mem n hm, hquestion⟩
    · rename_i hkind
      rw [functionsAmong_cons_of_ne hkind]
      exact ih h

end Describer

/-- The code of a function node is the text of the tree that makes it. -/
theorem MakesFunction.codeOf_range {src : Source} {root : Tree} {p : Occurrence} {n : FlowNode}
    (h : MakesFunction src root p n) (haligned : root.IsAligned src) :
    codeOf src.text n.range = src.textOf p.tree.span := by
  obtain ⟨hstart, hstop⟩ := haligned p.tree h.position.mem_preorder
  rw [h.range, codeOf, Source.textOf]
  exact congrArg String.ofList (Source.slice_charOffset hstart hstop)

/-- Characters agree with bytes between the characters of a text: a stretch has the same text both
ways, a later byte is at a later location, and the location tells the line feeds in front of the
byte and the characters behind the last one of them. So the code of a function is the text of what
makes it, and the model is asked about such texts only. -/
theorem Source.characters_agree (src : Source) :
    (∀ a b, src.IsBoundary a → src.IsBoundary b →
      Text.slice (src.charOffset a) (src.charOffset b) src.text = src.charsOf ⟨a, b⟩ ∧
      (a < b → (src.location a).Before (src.location b))) ∧
    (∀ before, before <+: src.text →
      src.location (Utf8.encode before).length = ⟨1 + before.count '\n', lastColumn before⟩) ∧
    (∀ root : Tree, root.IsAligned src → ∀ (v : View) (output : Output) (d : Describer),
      let nodes := v.apply (extract src root)
      (∀ n ∈ functionsAmong nodes, ∃ p, MakesFunction src root p n ∧
        codeOf src.text n.range = src.textOf p.tree.span) ∧
      ∀ question ∈ (d.describeFunctions output src.text nodes).2.2.prompts,
        ∃ n ∈ functionsAmong nodes, ∃ p, MakesFunction src root p n ∧
          question = prompt (trimmed (src.textOf p.tree.span))) := by
  refine ⟨fun a b ha hb => ⟨slice_charOffset ha hb, location_before ha hb⟩,
    fun before h => location_length_encode h, ?_⟩
  intro root haligned v output d nodes
  have hfunctions : ∀ n ∈ functionsAmong nodes, ∃ p, MakesFunction src root p n ∧
      codeOf src.text n.range = src.textOf p.tree.span := by
    intro n hn
    obtain ⟨hn, hkind⟩ := List.mem_filter.mp hn
    obtain ⟨p, hp⟩ := exists_makesFunction hn (of_decide_eq_true hkind)
    exact ⟨p, hp, hp.codeOf_range haligned⟩
  refine ⟨hfunctions, fun question hquestion => ?_⟩
  obtain ⟨n, hn, hquestion⟩ := exists_function_of_mem_prompts hquestion
  obtain ⟨p, hp, hcode⟩ := hfunctions n hn
  exact ⟨n, hn, p, hp, hcode ▸ hquestion⟩

/-- The function begins on the second line, behind a character of two bytes. -/
theorem Source.characters_agree_mixedDeclaration :
    let src := Source.ofString "var\nü=()=>\x7bg()\x7d,b=2"
    let nodes := extract src mixedDeclaration
    mixedDeclaration.IsAligned src ∧ src.IsBoundary 7 ∧ src.IsBoundary 16 ∧
    (functionsAmong nodes).map (fun n => codeOf src.text n.range) = ["()=>\x7bg()\x7d"] ∧
    (describeFunctions .off {} src.text nodes).2.2.prompts = [prompt "()=>\x7bg()\x7d"] ∧
    src.location 7 = ⟨2, 2⟩ ∧ src.location 16 = ⟨2, 11⟩ ∧
    Text.slice (src.charOffset 7) (src.charOffset 16) src.text = src.charsOf ⟨7, 16⟩ ∧
    (src.location 7).Before (src.location 16) ∧
    (∀ n ∈ functionsAmong nodes, ∃ p, MakesFunction src mixedDeclaration p n ∧
      codeOf src.text n.range = src.textOf p.tree.span) := by
  intro src nodes
  have haligned : mixedDeclaration.IsAligned src := by decide +kernel
  have hstart : src.IsBoundary 7 := by decide +kernel
  have hstop : src.IsBoundary 16 := by decide +kernel
  obtain ⟨hstretch, -, hfunctions⟩ := src.characters_agree
  obtain ⟨hslice, hbefore⟩ := hstretch 7 16 hstart hstop
  exact ⟨haligned, hstart, hstop, by decide +kernel, by decide +kernel, by decide +kernel,
    by decide +kernel, hslice, hbefore (by decide),
    (hfunctions mixedDeclaration haligned .fullOperations .off {}).1⟩

end Flowchart
