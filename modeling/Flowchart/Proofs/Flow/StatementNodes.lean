import Flowchart.Proofs.Flow.PositionList
import Flowchart.Proofs.Flow.StatementMade

/-! The flow nodes of a script are the ones that its places in statement position make, each place
once. -/
namespace Flowchart

namespace FlowTree

mutual

/-- The entries of a tree, parents first. -/
def entries : FlowTree → List Entry
  | node e cs => e :: entriesAll cs

def entriesAll : List FlowTree → List Entry
  | [] => []
  | t :: ts => t.entries ++ entriesAll ts

end

theorem entriesAll_append (ts us : List FlowTree) :
    entriesAll (ts ++ us) = entriesAll ts ++ entriesAll us := by
  induction ts with
  | nil => rfl
  | cons t ts ih => rw [List.cons_append, entriesAll, entriesAll, ih, List.append_assoc]

mutual

theorem map_toEntry_number (first : Nat) (parent : Option String) :
    (t : FlowTree) → (t.number first parent).map (·.toEntry) = t.entries
  | node e cs => by
    rw [number, List.map_cons, map_toEntry_numberAll (first + 1) (some (nodeId first)) cs, entries]

theorem map_toEntry_numberAll (first : Nat) (parent : Option String) :
    (ts : List FlowTree) → (numberAll first parent ts).map (·.toEntry) = entriesAll ts
  | [] => rfl
  | t :: ts => by
    rw [numberAll, List.map_append, map_toEntry_number first parent t,
      map_toEntry_numberAll (first + t.size) parent ts, entriesAll]

end
end FlowTree

namespace Plan
open Flowchart.Tree

section
variable (f : Option String → Tree → List FlowTree)

mutual

/-- Resolved parts have their own entries and the ones of what they visit, in some order. -/
theorem entries_resolve :
    (p : Plan) → (FlowTree.entriesAll (p.resolve f)).Perm
      (p.entries ++ p.targets.flatMap fun v => FlowTree.entriesAll (f v.1 v.2))
  | visit name t => by
    rw [resolve, entries, targets, List.flatMap_singleton, List.nil_append]
  | node e parts => by
    rw [resolve, entries, targets, FlowTree.entriesAll, FlowTree.entriesAll, List.append_nil,
      FlowTree.entries, List.cons_append]
    exact (entries_resolveAll parts).cons e

theorem entries_resolveAll :
    (ps : List Plan) → (FlowTree.entriesAll (resolveAll f ps)).Perm
      (entriesAll ps ++ (targetsAll ps).flatMap fun v => FlowTree.entriesAll (f v.1 v.2))
  | [] => .refl _
  | p :: ps => by
    rw [resolveAll, FlowTree.entriesAll_append, entriesAll, targetsAll, List.flatMap_append]
    refine ((entries_resolve p).append (entries_resolveAll ps)).trans ?_
    rw [List.append_assoc, List.append_assoc]
    exact (List.perm_append_comm_assoc ..).append_left _

end
end

variable (src : Source)

theorem step_shrinks (name : Option String) (t : Tree) : Shrinks t.size (step src name t) := by
  intro v hv
  have hmem : v.2 ∈ trees (step src name t) := List.mem_map_of_mem hv
  rw [trees_step name ⟨[], t⟩] at hmem
  obtain ⟨q, hq, hqt⟩ := List.mem_map.mp hmem
  rw [← hqt]
  exact (Occurrence.inside_of_mem_held hq).size_lt

/-- The parts of a statement depend on the outlines of smaller trees only. -/
theorem resolveAll_step_congr {f g : Option String → Tree → List FlowTree} (name : Option String)
    {t : Tree} (h : ∀ name c, c.size < t.size → f name c = g name c) :
    resolveAll f (step src name t) = resolveAll g (step src name t) :=
  resolveAll_congr _ fun v hv => h v.1 v.2 (step_shrinks src name t v hv)

end Plan

namespace Occurrence
open Flowchart.Tree Plan
variable {src : Source}

private theorem perm_flatMap_of_map_eq {α β γ δ : Type} {f : α → γ} {g : β → γ} {u : α → List δ}
    {v : β → List δ} : {as : List α} → {bs : List β} → as.map f = bs.map g →
      (∀ a, ∀ b ∈ bs, f a = g b → (u a).Perm (v b)) → (as.flatMap u).Perm (bs.flatMap v)
  | [], [], _, _ => .refl _
  | a :: as, b :: bs, he, h => by
    obtain ⟨hab, he⟩ := List.cons.inj he
    rw [List.flatMap_cons, List.flatMap_cons]
    exact (h a b List.mem_cons_self hab).append
      (perm_flatMap_of_map_eq he fun a b hb => h a b (List.mem_cons_of_mem _ hb))

/-- The outline of a place has the nodes that the places held by it in turn make. -/
theorem outline_perm (p : Occurrence) (name : Option String) :
    ((FlowTree.entriesAll (p.tree.outline src name)).map fun e => (e.kind, e.range)).Perm
      (p.positions.flatMap fun q => q.tree.made src) := by
  induction p using held_induction generalizing name with
  | step p ih =>
    rw [outline_step, positions_eq, List.flatMap_cons, List.flatMap_assoc]
    refine ((entries_resolveAll _ _).map _).trans ?_
    rw [List.map_append, List.map_flatMap]
    refine List.Perm.append (.of_eq (marks_step name p.tree)) ?_
    exact perm_flatMap_of_map_eq (trees_step name p) fun v q hq hvq => hvq ▸ ih q hq v.1

end Occurrence

/-- Nothing is lost and nothing is read twice: the flow nodes of a script are, but for their order,
the ones that the places in statement position make, each place once. -/
theorem extract_statements (src : Source) (t : Tree) :
    ∃ ps : List Occurrence, (ps.map (·.path)).Nodup ∧ (∀ p, p ∈ ps ↔ InStatementPosition t p) ∧
      ((extract src t).map fun n => (n.kind, n.range)).Perm
        (ps.flatMap fun p => p.tree.made src) := by
  refine ⟨Occurrence.positions ⟨[], t⟩, Occurrence.nodup_positions _,
    fun p => Occurrence.mem_positions_iff, ?_⟩
  have hentries : (extract src t).map (fun n => (n.kind, n.range)) =
      (FlowTree.entriesAll (t.outline src none)).map fun e => (e.kind, e.range) := by
    rw [← FlowTree.map_toEntry_numberAll 0 none, List.map_map]
    rfl
  rw [hentries]
  exact Occurrence.outline_perm ⟨[], t⟩ none

end Flowchart
