import Skein.Story.Script

set_option autoImplicit false

/-!
# Story: what nodes hold

A node holds expressions of its own and runs of further content.  Some of the runs are run when
the node is, some only later: the text of a choice is rendered when the choice is offered, and its
result waits until the choice is made.  All of them are among the nodes of the run that the node
stands in, and what holds of a node whenever it holds of the nodes that it holds, holds of every
node.
-/

namespace Skein

/-- The runs of content that a node may go on with when it is run. -/
def Node.runs : Node → List Content
  | .conditional _ branches otherwise => otherwise.toList ++ branches.map (·.content)
  | .sequence _ _ groups => groups
  | _ => []

/-- Every run of content that a node holds. -/
def Node.parts : Node → List Content
  | .choice _ entries => entries.flatMap fun entry => [entry.text, entry.result]
  | node => node.runs

theorem Node.runs_subset_parts (node : Node) : node.runs ⊆ node.parts := by
  cases node with
  | choice id entries => exact List.nil_subset _
  | _ => exact List.Subset.refl _

/-- The expressions of a node itself, apart from those of the content that it holds. -/
def Node.expressions : Node → List Expression
  | .divert d => d.args
  | .choice _ entries => entries.flatMap (·.conditions)
  | .interpolation e | .logic e => [e]
  | .conditional subject branches _ => subject.toList ++ branches.map (·.condition)
  | .global g => [g.init]
  | _ => []

/-! ## The nodes of a run of content -/

namespace Content

/-- More nodes have been found, and with each new one all that it holds. -/
structure Grows (found result : List Node) : Prop where
  old : found ⊆ result
  new : ∀ node ∈ result, node ∈ found ∨ ∀ part ∈ node.parts, part ⊆ result

theorem Grows.refl (found : List Node) : Grows found found :=
  ⟨List.Subset.refl _, fun _ h => .inl h⟩

theorem Grows.trans {first second third : List Node} (h : Grows first second)
    (h' : Grows second third) : Grows first third := by
  refine ⟨List.Subset.trans h.old h'.old, fun node hnode => ?_⟩
  rcases h'.new node hnode with hold | hparts
  · refine (h.new node hold).imp_right fun hparts part hpart => ?_
    exact List.Subset.trans (hparts part hpart) h'.old
  · exact .inr hparts

/-- A node is found before what it holds. -/
theorem Grows.node {found result : List Node} {node : Node} (h : Grows (node :: found) result)
    (hparts : ∀ part ∈ node.parts, part ⊆ result) : Grows found result ∧ node ∈ result := by
  refine ⟨⟨List.Subset.trans (List.subset_cons_self node found) h.old, fun other hother => ?_⟩,
    h.old List.mem_cons_self⟩
  rcases h.new other hother with hold | hnew
  · rcases List.mem_cons.mp hold with rfl | hold
    · exact .inr hparts
    · exact .inl hold
  · exact .inr hnew

theorem Grows.leaf (found : List Node) {node : Node} (hparts : node.parts = []) :
    Grows found (node :: found) ∧ node ∈ node :: found :=
  (Grows.refl (node :: found)).node (by simp [hparts])

mutual

theorem grows_collectNode (found : List Node) :
    (node : Node) → Grows found (collectNode found node) ∧ node ∈ collectNode found node
  | .text _ | .lineBreak | .glue | .divert _ | .marker _ | .tag _ | .interpolation _ | .global _
  | .logic _ | .list _ => by
      simp only [collectNode]
      exact Grows.leaf found rfl
  | .choice id entries => by
      simp only [collectNode]
      obtain ⟨hgrows, hcover⟩ := grows_collectEntries (.choice id entries :: found) entries
      refine hgrows.node fun part hpart => ?_
      obtain ⟨entry, hentry, hpart⟩ := List.mem_flatMap.mp hpart
      obtain ⟨htext, hresult⟩ := hcover entry hentry
      simp only [List.mem_cons, List.not_mem_nil, or_false] at hpart
      rcases hpart with rfl | rfl
      · exact htext
      · exact hresult
  | .conditional subject branches otherwise => by
      simp only [collectNode]
      obtain ⟨hbranches, hcover⟩ :=
        grows_collectBranches (.conditional subject branches otherwise :: found) branches
      obtain ⟨hotherwise, hcover'⟩ := grows_collectOptional
        (collectBranches (.conditional subject branches otherwise :: found) branches) otherwise
      refine (hbranches.trans hotherwise).node fun part hpart => ?_
      rcases List.mem_append.mp hpart with hpart | hpart
      · exact hcover' part (Option.mem_toList.mp hpart)
      · obtain ⟨branch, hbranch, rfl⟩ := List.mem_map.mp hpart
        exact List.Subset.trans (hcover branch hbranch) hotherwise.old
  | .sequence id kind groups => by
      simp only [collectNode]
      obtain ⟨hgrows, hcover⟩ := grows_collectGroups (.sequence id kind groups :: found) groups
      exact hgrows.node hcover
termination_by structural node => node

theorem grows_collect (found : List Node) :
    (content : List Node) → Grows found (collect found content) ∧ content ⊆ collect found content
  | [] => by
      simp only [collect]
      exact ⟨.refl found, List.nil_subset _⟩
  | node :: rest => by
      simp only [collect]
      obtain ⟨hnode, hmem⟩ := grows_collectNode found node
      obtain ⟨hrest, hcover⟩ := grows_collect (collectNode found node) rest
      exact ⟨hnode.trans hrest, List.cons_subset.mpr ⟨hrest.old hmem, hcover⟩⟩
termination_by structural content => content

theorem grows_collectEntries (found : List Node) :
    (entries : List Entry) → Grows found (collectEntries found entries) ∧
      ∀ entry ∈ entries, entry.text ⊆ collectEntries found entries ∧
        entry.result ⊆ collectEntries found entries
  | [] => by
      simp only [collectEntries]
      exact ⟨.refl found, nofun⟩
  | ⟨text, result, sticky, conditions, fallback, immediate⟩ :: rest => by
      simp only [collectEntries]
      obtain ⟨htext, hcover⟩ := grows_collect found text
      obtain ⟨hresult, hcover'⟩ := grows_collect (collect found text) result
      obtain ⟨hrest, hothers⟩ :=
        grows_collectEntries (collect (collect found text) result) rest
      refine ⟨(htext.trans hresult).trans hrest, fun entry hentry => ?_⟩
      rcases List.mem_cons.mp hentry with rfl | hentry
      · exact ⟨List.Subset.trans (List.Subset.trans hcover hresult.old) hrest.old,
          List.Subset.trans hcover' hrest.old⟩
      · exact hothers entry hentry
termination_by structural entries => entries

theorem grows_collectBranches (found : List Node) :
    (branches : List Branch) → Grows found (collectBranches found branches) ∧
      ∀ branch ∈ branches, branch.content ⊆ collectBranches found branches
  | [] => by
      simp only [collectBranches]
      exact ⟨.refl found, nofun⟩
  | ⟨condition, content⟩ :: rest => by
      simp only [collectBranches]
      obtain ⟨hcontent, hcover⟩ := grows_collect found content
      obtain ⟨hrest, hothers⟩ := grows_collectBranches (collect found content) rest
      refine ⟨hcontent.trans hrest, fun branch hbranch => ?_⟩
      rcases List.mem_cons.mp hbranch with rfl | hbranch
      · exact List.Subset.trans hcover hrest.old
      · exact hothers branch hbranch
termination_by structural branches => branches

theorem grows_collectOptional (found : List Node) :
    (content : Option (List Node)) → Grows found (collectOptional found content) ∧
      ∀ part ∈ content, part ⊆ collectOptional found content
  | none => by
      simp only [collectOptional]
      exact ⟨.refl found, nofun⟩
  | some content => by
      simp only [collectOptional]
      obtain ⟨hcontent, hcover⟩ := grows_collect found content
      refine ⟨hcontent, fun part hpart => ?_⟩
      obtain rfl := Option.some.inj hpart
      exact hcover
termination_by structural content => content

theorem grows_collectGroups (found : List Node) :
    (groups : List (List Node)) → Grows found (collectGroups found groups) ∧
      ∀ group ∈ groups, group ⊆ collectGroups found groups
  | [] => by
      simp only [collectGroups]
      exact ⟨.refl found, nofun⟩
  | group :: rest => by
      simp only [collectGroups]
      obtain ⟨hgroup, hcover⟩ := grows_collect found group
      obtain ⟨hrest, hothers⟩ := grows_collectGroups (collect found group) rest
      refine ⟨hgroup.trans hrest, fun other hother => ?_⟩
      rcases List.mem_cons.mp hother with rfl | hother
      · exact List.Subset.trans hcover hrest.old
      · exact hothers other hother
termination_by structural groups => groups

end

theorem subset_nodes (content : Content) : content ⊆ nodes content :=
  fun _ h => List.mem_reverse.mpr ((grows_collect [] content).2 h)

/-- With a node of a run, all that the node holds is among the nodes of the run. -/
theorem part_subset_nodes {content : Content} {node : Node} (hnode : node ∈ nodes content)
    {part : Content} (hpart : part ∈ node.parts) : part ⊆ nodes content := by
  intro inner hinner
  rcases (grows_collect [] content).1.new node (List.mem_reverse.mp hnode) with hnil | hparts
  · cases hnil
  · exact List.mem_reverse.mpr (hparts part hpart hinner)

/-! ## Nodes without an accumulator -/

mutual

theorem collectNode_eq (found : List Node) :
    (node : Node) → collectNode found node = collectNode [] node ++ found
  | .text _ | .lineBreak | .glue | .divert _ | .marker _ | .tag _ | .interpolation _ | .global _
  | .logic _ | .list _ => by simp only [collectNode, List.cons_append, List.nil_append]
  | .choice id entries => by
      simp only [collectNode]
      rw [collectEntries_eq (_ :: found), collectEntries_eq [_], List.append_assoc]
      rfl
  | .conditional subject branches otherwise => by
      simp only [collectNode]
      rw [collectBranches_eq (_ :: found), collectBranches_eq [_], collectOptional_eq,
        collectOptional_eq (_ ++ [_]), List.append_assoc, List.append_assoc]
      rfl
  | .sequence id kind groups => by
      simp only [collectNode]
      rw [collectGroups_eq (_ :: found), collectGroups_eq [_], List.append_assoc]
      rfl
termination_by structural node => node

theorem collect_eq (found : List Node) :
    (content : List Node) → collect found content = collect [] content ++ found
  | [] => by simp only [collect, List.nil_append]
  | node :: rest => by
      simp only [collect]
      rw [collect_eq (collectNode found node), collect_eq (collectNode [] node),
        collectNode_eq found, List.append_assoc]
termination_by structural content => content

theorem collectEntries_eq (found : List Node) :
    (entries : List Entry) → collectEntries found entries = collectEntries [] entries ++ found
  | [] => by simp only [collectEntries, List.nil_append]
  | ⟨text, result, _, _, _, _⟩ :: rest => by
      simp only [collectEntries]
      rw [collectEntries_eq (collect (collect found text) result),
        collectEntries_eq (collect (collect [] text) result), collect_eq (collect found text),
        collect_eq found, collect_eq (collect [] text)]
      simp only [List.append_assoc]
termination_by structural entries => entries

theorem collectBranches_eq (found : List Node) :
    (branches : List Branch) → collectBranches found branches = collectBranches [] branches ++ found
  | [] => by simp only [collectBranches, List.nil_append]
  | ⟨_, content⟩ :: rest => by
      simp only [collectBranches]
      rw [collectBranches_eq (collect found content), collectBranches_eq (collect [] content),
        collect_eq found, List.append_assoc]
termination_by structural branches => branches

theorem collectOptional_eq (found : List Node) :
    (content : Option (List Node)) →
      collectOptional found content = collectOptional [] content ++ found
  | none => by simp only [collectOptional, List.nil_append]
  | some content => by
      simp only [collectOptional]
      exact collect_eq found content
termination_by structural content => content

theorem collectGroups_eq (found : List Node) :
    (groups : List (List Node)) → collectGroups found groups = collectGroups [] groups ++ found
  | [] => by simp only [collectGroups, List.nil_append]
  | group :: rest => by
      simp only [collectGroups]
      rw [collectGroups_eq (collect found group), collectGroups_eq (collect [] group),
        collect_eq found, List.append_assoc]
termination_by structural groups => groups

end

theorem nodes_nil : nodes [] = [] := by simp only [nodes, collect, List.reverse_nil]

theorem nodes_cons (node : Node) (rest : Content) :
    nodes (node :: rest) = (collectNode [] node).reverse ++ nodes rest := by
  rw [nodes, collect, collect_eq, List.reverse_append]
  rfl

theorem reverse_collectEntries (entries : List Entry) :
    (collectEntries [] entries).reverse =
      entries.flatMap fun entry => nodes entry.text ++ nodes entry.result := by
  induction entries with
  | nil => simp only [collectEntries, List.reverse_nil, List.flatMap_nil]
  | cons entry rest ih =>
      obtain ⟨shown, result, _, _, _, _⟩ := entry
      rw [collectEntries, collectEntries_eq, collect_eq, List.reverse_append, List.reverse_append,
        ih]
      rfl

theorem reverse_collectBranches (branches : List Branch) :
    (collectBranches [] branches).reverse =
      branches.flatMap fun branch => nodes branch.content := by
  induction branches with
  | nil => simp only [collectBranches, List.reverse_nil, List.flatMap_nil]
  | cons branch rest ih =>
      obtain ⟨condition, content⟩ := branch
      rw [collectBranches, collectBranches_eq, List.reverse_append, ih]
      rfl

theorem reverse_collectOptional (content : Option Content) :
    (collectOptional [] content).reverse = content.toList.flatMap nodes := by
  cases content with
  | none => simp only [collectOptional, List.reverse_nil, Option.toList_none, List.flatMap_nil]
  | some content =>
      simp only [collectOptional, Option.toList_some, List.flatMap_singleton]
      rfl

theorem reverse_collectGroups (groups : List Content) :
    (collectGroups [] groups).reverse = groups.flatMap nodes := by
  induction groups with
  | nil => simp only [collectGroups, List.reverse_nil, List.flatMap_nil]
  | cons group rest ih =>
      rw [collectGroups, collectGroups_eq, List.reverse_append, ih]
      rfl

/-! ## The nodes in one node -/

theorem nodes_singleton (node : Node) : nodes [node] = (collectNode [] node).reverse := by
  rw [nodes_cons, nodes_nil, List.append_nil]

theorem nodes_choice (id : NodeId) (entries : List Entry) :
    nodes [.choice id entries] = .choice id entries ::
      entries.flatMap fun entry => nodes entry.text ++ nodes entry.result := by
  rw [nodes_singleton, collectNode, collectEntries_eq, List.reverse_append,
    reverse_collectEntries]
  rfl

theorem nodes_conditional (subject : Option Expression) (branches : List Branch)
    (otherwise : Option Content) :
    nodes [.conditional subject branches otherwise] = .conditional subject branches otherwise ::
      ((branches.flatMap fun branch => nodes branch.content) ++
        otherwise.toList.flatMap nodes) := by
  rw [nodes_singleton, collectNode, collectOptional_eq, collectBranches_eq, List.reverse_append,
    List.reverse_append, reverse_collectBranches, reverse_collectOptional]
  rfl

theorem nodes_sequence (id : NodeId) (kind : SequenceKind) (groups : List Content) :
    nodes [.sequence id kind groups] = .sequence id kind groups :: groups.flatMap nodes := by
  rw [nodes_singleton, collectNode, collectGroups_eq, List.reverse_append, reverse_collectGroups]
  rfl

/-- A node that holds no content. -/
theorem nodes_leaf {node : Node} (h : node.parts = []) : nodes [node] = [node] := by
  cases node with
  | choice id entries =>
      have hnone : entries = [] := by
        cases entries with
        | nil => rfl
        | cons entry rest => cases h
      rw [nodes_choice, hnone]
      rfl
  | conditional subject branches otherwise =>
      obtain ⟨hotherwise, hbranches⟩ := List.append_eq_nil_iff.mp h
      rw [nodes_conditional, List.map_eq_nil_iff.mp hbranches, hotherwise]
      rfl
  | sequence id kind groups =>
      have hnone : groups = [] := h
      rw [nodes_sequence, hnone]
      rfl
  | _ =>
      simp only [nodes_singleton, collectNode]
      rfl

end Content

/-! ## Induction -/

/-- What a node has as soon as every node that it holds has it. -/
def Node.Inherits (motive : Node → Prop) : Prop :=
  ∀ node : Node, (∀ part ∈ node.parts, ∀ inner ∈ part, motive inner) → motive node

namespace Node.Inherits

variable {motive : Node → Prop}

mutual

theorem all (h : Inherits motive) : (node : Node) → motive node
  | .text _ | .lineBreak | .glue | .divert _ | .marker _ | .tag _ | .interpolation _ | .global _
  | .logic _ | .list _ => h _ nofun
  | .choice id entries => by
      refine h _ fun part hpart inner hinner => ?_
      obtain ⟨entry, hentry, hpart⟩ := List.mem_flatMap.mp hpart
      obtain ⟨htext, hresult⟩ := h.entries entries entry hentry
      simp only [List.mem_cons, List.not_mem_nil, or_false] at hpart
      rcases hpart with rfl | rfl
      · exact htext inner hinner
      · exact hresult inner hinner
  | .conditional subject branches otherwise => by
      refine h _ fun part hpart inner hinner => ?_
      rcases List.mem_append.mp hpart with hpart | hpart
      · exact h.optional otherwise part (Option.mem_toList.mp hpart) inner hinner
      · obtain ⟨branch, hbranch, rfl⟩ := List.mem_map.mp hpart
        exact h.branches branches branch hbranch inner hinner
  | .sequence id kind groups => h _ (h.groups groups)
termination_by structural node => node

theorem content (h : Inherits motive) : (content : List Node) → ∀ node ∈ content, motive node
  | [] => nofun
  | node :: rest => List.forall_mem_cons.mpr ⟨h.all node, h.content rest⟩
termination_by structural content => content

theorem entries (h : Inherits motive) : (entries : List Entry) → ∀ entry ∈ entries,
    (∀ node ∈ entry.text, motive node) ∧ ∀ node ∈ entry.result, motive node
  | [] => nofun
  | ⟨shown, result, _, _, _, _⟩ :: rest =>
      List.forall_mem_cons.mpr ⟨⟨h.content shown, h.content result⟩, h.entries rest⟩
termination_by structural entries => entries

theorem branches (h : Inherits motive) : (branches : List Branch) → ∀ branch ∈ branches,
    ∀ node ∈ branch.content, motive node
  | [] => nofun
  | ⟨_, content⟩ :: rest => List.forall_mem_cons.mpr ⟨h.content content, h.branches rest⟩
termination_by structural branches => branches

theorem optional (h : Inherits motive) : (content : Option (List Node)) → ∀ part ∈ content,
    ∀ node ∈ part, motive node
  | none => nofun
  | some content => fun _ hpart => Option.some.inj hpart ▸ h.content content
termination_by structural content => content

theorem groups (h : Inherits motive) : (groups : List (List Node)) → ∀ group ∈ groups,
    ∀ node ∈ group, motive node
  | [] => nofun
  | group :: rest => List.forall_mem_cons.mpr ⟨h.content group, h.groups rest⟩
termination_by structural groups => groups

end

end Node.Inherits

/-! ## The expressions of a story -/

/-- An expression that was read from a source, with no names known. -/
def Expression.IsRead (e : Expression) : Prop := ∃ source, parse Symbols.none source = .ok e

namespace Content

mutual

/-- The expressions in a node, at every depth. -/
def nodeExpressions : Node → List Expression
  | .divert d => d.args
  | .choice _ entries => entryExpressions entries
  | .interpolation e => [e]
  | .conditional subject branches otherwise =>
    subject.toList ++ (branchExpressions branches ++ optionalExpressions otherwise)
  | .sequence _ _ groups => groupExpressions groups
  | .global g => [g.init]
  | .logic e => [e]
  | .text _ | .lineBreak | .glue | .marker _ | .tag _ | .list _ => []

/-- The expressions in a run of nodes. -/
def expressions : List Node → List Expression
  | [] => []
  | n :: rest => nodeExpressions n ++ expressions rest

/-- The expressions in choices: of each those of the text, of the result and of the
conditions. -/
def entryExpressions : List Entry → List Expression
  | [] => []
  | ⟨text, result, _, conditions, _, _⟩ :: rest =>
    expressions text ++ (expressions result ++ (conditions ++ entryExpressions rest))

/-- The expressions in branches. -/
def branchExpressions : List Branch → List Expression
  | [] => []
  | ⟨condition, content⟩ :: rest =>
    condition :: (expressions content ++ branchExpressions rest)

/-- The expressions in a run that may be missing. -/
def optionalExpressions : Option (List Node) → List Expression
  | none => []
  | some content => expressions content

/-- The expressions in groups. -/
def groupExpressions : List (List Node) → List Expression
  | [] => []
  | group :: rest => expressions group ++ groupExpressions rest

end

theorem expressions_eq (content : Content) :
    expressions content = content.flatMap nodeExpressions := by
  induction content with
  | nil => rfl
  | cons node rest ih => rw [expressions, List.flatMap_cons, ih]

theorem entryExpressions_eq (entries : List Entry) :
    entryExpressions entries = entries.flatMap fun entry =>
      expressions entry.text ++ (expressions entry.result ++ entry.conditions) := by
  induction entries with
  | nil => rfl
  | cons entry rest ih =>
      obtain ⟨shown, result, _, conditions, _, _⟩ := entry
      rw [List.flatMap_cons, ← ih, List.append_assoc, List.append_assoc]
      rfl

theorem branchExpressions_eq (branches : List Branch) :
    branchExpressions branches =
      branches.flatMap fun branch => branch.condition :: expressions branch.content := by
  induction branches with
  | nil => rfl
  | cons branch rest ih =>
      obtain ⟨condition, content⟩ := branch
      rw [List.flatMap_cons, ← ih]
      rfl

theorem groupExpressions_eq (groups : List Content) :
    groupExpressions groups = groups.flatMap expressions := by
  induction groups with
  | nil => rfl
  | cons group rest ih => rw [groupExpressions, List.flatMap_cons, ih]

/-- The expressions in a node are its own and those in the nodes that it holds. -/
theorem mem_nodeExpressions {node : Node} {e : Expression} :
    e ∈ nodeExpressions node ↔
      e ∈ node.expressions ∨ ∃ part ∈ node.parts, e ∈ expressions part := by
  cases node with
  | choice id entries =>
      simp only [nodeExpressions, entryExpressions_eq, Node.expressions, Node.parts,
        List.mem_flatMap]
      grind
  | conditional subject branches otherwise =>
      cases otherwise <;>
        simp only [nodeExpressions, branchExpressions_eq, optionalExpressions, Node.expressions,
          Node.parts, Node.runs, List.mem_append, List.mem_flatMap]
      all_goals grind
  | sequence id kind groups =>
      simp only [nodeExpressions, groupExpressions_eq, Node.expressions, Node.parts, Node.runs,
        List.mem_flatMap]
      simp
  | divert _ | interpolation _ | global _ | logic _ | text _ | lineBreak | glue | marker _ | tag _
  | list _ => simp [nodeExpressions, Node.expressions, Node.parts, Node.runs]

end Content

/-- The expressions of a story, in every knot and at every depth. -/
def Script.expressions (s : Script) : List Expression :=
  s.knots.flatMap fun knot => Content.expressions knot.objects

/-- The knots of a story make up that story. -/
theorem Script.ofKnots_knots (s : Script) : ofKnots s.knots = .ok s := by
  unfold ofKnots
  split
  · rfl
  · next fault hfault =>
    rw [s.sound] at hfault
    cases hfault

/-- A story has the knots that it is made of. -/
theorem Script.knots_of_ofKnots {knots : List Knot} {s : Script} (h : ofKnots knots = .ok s) :
    s.knots = knots := by
  unfold ofKnots at h
  split at h
  · cases h
    rfl
  · cases h

end Skein
