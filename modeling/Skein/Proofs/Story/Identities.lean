import Mathlib.Data.List.Flatten
import Skein.Proofs.Story.GatherVisits
import Skein.Proofs.Story.OnceOnly

set_option autoImplicit false

/-!
# Story: identities

Knots, stitches and gathers have identities, and so have blocks of choices and sequences, at every
depth of the content.  Here they are listed, node by node.  The identities that a source hands out
are distinct as long as it has numbers left.
-/

namespace Skein

/-- The identity of a node itself, if it has one. -/
def Node.id? : Node → Option NodeId
  | .choice id _ | .sequence id _ _ => some id
  | _ => none

namespace Content

/-! ## Identities in content -/

/-- The identities of the choices and sequences in content, at every depth. -/
def ids (content : Content) : List NodeId := (nodes content).filterMap Node.id?

/-- The identities in a choice. -/
def entryIds (entry : Entry) : List NodeId := ids entry.text ++ ids entry.result

@[simp]
theorem ids_nil : ids [] = [] := by rw [ids, nodes_nil, List.filterMap_nil]

theorem ids_cons (node : Node) (rest : Content) : ids (node :: rest) = ids [node] ++ ids rest := by
  simp only [ids, nodes_cons, nodes_nil, List.append_nil, List.filterMap_append]

theorem ids_eq (content : Content) : ids content = content.flatMap fun node => ids [node] := by
  induction content with
  | nil => exact ids_nil
  | cons node rest ih => rw [ids_cons, List.flatMap_cons, ih]

theorem ids_append (first second : Content) : ids (first ++ second) = ids first ++ ids second := by
  rw [ids_eq, List.flatMap_append, ← ids_eq, ← ids_eq]

theorem ids_reverse_perm (content : Content) : (ids content.reverse).Perm (ids content) := by
  rw [ids_eq, ids_eq content]
  exact (List.reverse_perm content).flatMap_right _

/-- A node has its own identity and those in the content that it holds. -/
theorem ids_node {node : Node} {inner : List Node} (h : nodes [node] = node :: inner) :
    ids [node] = node.id?.toList ++ inner.filterMap Node.id? := by
  rw [ids, h, List.filterMap_cons]
  cases node.id? <;> rfl

theorem ids_choice (id : NodeId) (entries : List Entry) :
    ids [.choice id entries] = id :: entries.flatMap entryIds := by
  rw [ids_node (nodes_choice id entries), List.filterMap_flatMap]
  simp only [List.filterMap_append]
  rfl

theorem ids_conditional (subject : Option Expression) (branches : List Branch)
    (otherwise : Option Content) :
    ids [.conditional subject branches otherwise] =
      (branches.flatMap fun branch => ids branch.content) ++ otherwise.toList.flatMap ids := by
  rw [ids_node (nodes_conditional subject branches otherwise), List.filterMap_append,
    List.filterMap_flatMap, List.filterMap_flatMap]
  rfl

theorem ids_sequence (id : NodeId) (kind : SequenceKind) (groups : List Content) :
    ids [.sequence id kind groups] = id :: groups.flatMap ids := by
  rw [ids_node (nodes_sequence id kind groups), List.filterMap_flatMap]
  rfl

/-- A node that has no identity and holds no content adds nothing. -/
theorem ids_leaf {node : Node} (hid : node.id? = none) (hparts : node.parts = []) :
    ids [node] = [] := by
  rw [ids_node (nodes_leaf hparts), hid]
  rfl

end Content

/-- Every identity in a knot: of its sections, and of what its content holds. -/
def Knot.ids (k : Knot) : List NodeId := k.sectionIds ++ Content.ids k.objects

theorem sublist_filterMap_block? (nodes : List Node) :
    ((nodes.filterMap Node.block?).map (·.1)).Sublist (nodes.filterMap Node.id?) := by
  induction nodes with
  | nil => exact List.Sublist.refl _
  | cons node rest ih =>
      cases node with
      | choice id entries => exact ih.cons_cons id
      | sequence id kind groups => exact ih.cons id
      | _ => exact ih

/-- If no identity is used twice, sections and blocks of choices have identities of their own. -/
theorem Script.unique_of_nodup {script : Script} (h : (script.knots.flatMap Knot.ids).Nodup) :
    script.HasUniqueSections ∧ script.HasUniqueBlocks := by
  refine ⟨h.sublist (.flatMap_right _ fun k _ => List.sublist_append_left _ _), fun k hk => ?_⟩
  have hknot : k.ids.Nodup := (List.nodup_flatMap.mp h).1 k hk
  exact (List.nodup_append.mp hknot).2.1.sublist (sublist_filterMap_block? _)

/-! ## Sources of identities -/

namespace IdSource

theorem takeMany_eq (source : IdSource) (count : Nat) :
    source.takeMany count = (List.range count).map fun n => ⟨source.next + .ofNat n⟩ := by
  induction count generalizing source with
  | zero => rfl
  | succ count ih =>
      rw [takeMany, List.range_succ_eq_map, List.map_cons, List.map_map]
      show ⟨source.next⟩ :: (IdSource.mk (source.next + 1)).takeMany count = _
      rw [ih]
      congr 1
      · simp
      · refine List.map_congr_left fun n _ => ?_
        simp [Function.comp, UInt32.ofNat_add, UInt32.add_assoc, UInt32.add_comm]

/-- A source hands out distinct identities as long as it has numbers left. -/
theorem nodup_takeMany (source : IdSource) {count : Nat} (h : count ≤ UInt32.size) :
    (source.takeMany count).Nodup := by
  rw [takeMany_eq]
  refine List.Nodup.map_on (fun m hm n hn heq => ?_) List.nodup_range
  have hsum : source.next + UInt32.ofNat m = source.next + UInt32.ofNat n := NodeId.mk.inj heq
  have hsame : UInt32.ofNat m = UInt32.ofNat n := by simpa using hsum
  have hnumber := congrArg UInt32.toNat hsame
  have hm := Nat.lt_of_lt_of_le (List.mem_range.mp hm) h
  have hn := Nat.lt_of_lt_of_le (List.mem_range.mp hn) h
  rwa [UInt32.toNat_ofNat', UInt32.toNat_ofNat', Nat.mod_eq_of_lt hm, Nat.mod_eq_of_lt hn]
    at hnumber

end IdSource

end Skein
