import Skein.Story.Content

set_option autoImplicit false

/-!
# Story: equality of content

Content is compared node by node.  The comparison is true of equal content and of no
other, which makes equality of nodes, choices and branches decidable.
-/

namespace Skein.Content

/-! ## Comparing -/

mutual

/-- Whether two nodes are equal. -/
def sameNode : Node → Node → Bool
  | .text s, n => match n with | .text t => s = t | _ => false
  | .lineBreak, n => match n with | .lineBreak => true | _ => false
  | .glue, n => match n with | .glue => true | _ => false
  | .divert d, n => match n with | .divert e => d = e | _ => false
  | .choice id entries, n =>
    match n with
    | .choice id' entries' => id = id' && sameEntries entries entries'
    | _ => false
  | .marker m, n => match n with | .marker m' => m = m' | _ => false
  | .tag s, n => match n with | .tag t => s = t | _ => false
  | .interpolation e, n => match n with | .interpolation f => e = f | _ => false
  | .conditional subject branches otherwise, n =>
    match n with
    | .conditional subject' branches' otherwise' =>
      subject = subject' && sameBranches branches branches' && sameOptional otherwise otherwise'
    | _ => false
  | .sequence id kind groups, n =>
    match n with
    | .sequence id' kind' groups' => id = id' && kind = kind' && sameGroups groups groups'
    | _ => false
  | .global g, n => match n with | .global h => g = h | _ => false
  | .logic e, n => match n with | .logic f => e = f | _ => false
  | .list l, n => match n with | .list m => l = m | _ => false

/-- Whether two runs are equal. -/
def same : List Node → List Node → Bool
  | [], list => list.isEmpty
  | m :: ms, list => match list with | n :: ns => sameNode m n && same ms ns | [] => false

/-- Whether two blocks of choices are equal. -/
def sameEntries : List Entry → List Entry → Bool
  | [], list => list.isEmpty
  | ⟨text, result, sticky, conditions, fallback, immediate⟩ :: rest, list =>
    match list with
    | ⟨text', result', sticky', conditions', fallback', immediate'⟩ :: rest' =>
      same text text' && same result result' && sticky = sticky' &&
        conditions = conditions' && fallback = fallback' && immediate = immediate' &&
        sameEntries rest rest'
    | [] => false

/-- Whether two lists of branches are equal. -/
def sameBranches : List Branch → List Branch → Bool
  | [], list => list.isEmpty
  | ⟨condition, content⟩ :: rest, list =>
    match list with
    | ⟨condition', content'⟩ :: rest' =>
      condition = condition' && same content content' && sameBranches rest rest'
    | [] => false

/-- Whether two runs that may be missing are equal. -/
def sameOptional : Option (List Node) → Option (List Node) → Bool
  | none, option => option.isNone
  | some content, option =>
    match option with
    | some content' => same content content'
    | none => false

/-- Whether two lists of groups are equal. -/
def sameGroups : List (List Node) → List (List Node) → Bool
  | [], list => list.isEmpty
  | group :: rest, list =>
    match list with
    | group' :: rest' => same group group' && sameGroups rest rest'
    | [] => false

end

/-! ## The comparison is true of equal content -/

mutual

theorem sameNode_self : (n : Node) → sameNode n n = true
  | .text _ | .lineBreak | .glue | .divert _ | .marker _ | .tag _ | .interpolation _ | .global _
  | .logic _ | .list _ => by simp [sameNode]
  | .choice _ entries => by simp [sameNode, sameEntries_self entries]
  | .conditional _ branches otherwise => by
    simp [sameNode, sameBranches_self branches, sameOptional_self otherwise]
  | .sequence _ _ groups => by simp [sameNode, sameGroups_self groups]
termination_by structural n => n

theorem same_self : (content : List Node) → same content content = true
  | [] => by simp [same]
  | n :: rest => by simp [same, sameNode_self n, same_self rest]
termination_by structural content => content

theorem sameEntries_self : (entries : List Entry) → sameEntries entries entries = true
  | [] => by simp [sameEntries]
  | ⟨text, result, _, _, _, _⟩ :: rest => by
    simp [sameEntries, same_self text, same_self result, sameEntries_self rest]
termination_by structural entries => entries

theorem sameBranches_self : (branches : List Branch) → sameBranches branches branches = true
  | [] => by simp [sameBranches]
  | ⟨_, content⟩ :: rest => by simp [sameBranches, same_self content, sameBranches_self rest]
termination_by structural branches => branches

theorem sameOptional_self : (option : Option (List Node)) → sameOptional option option = true
  | none => by simp [sameOptional]
  | some content => by simp [sameOptional, same_self content]
termination_by structural option => option

theorem sameGroups_self : (groups : List (List Node)) → sameGroups groups groups = true
  | [] => by simp [sameGroups]
  | group :: rest => by simp [sameGroups, same_self group, sameGroups_self rest]
termination_by structural groups => groups

end

/-! ## The comparison is true of no other content -/

mutual

theorem eq_of_sameNode : (m n : Node) → sameNode m n = true → m = n
  | .text _, n, h | .lineBreak, n, h | .glue, n, h | .divert _, n, h | .marker _, n, h
  | .tag _, n, h | .interpolation _, n, h | .global _, n, h | .logic _, n, h
  | .list _, n, h => by cases n <;> simp_all [sameNode]
  | .choice _ entries, n, h => by
    cases n <;> simp [sameNode] at h
    next id' entries' => rw [h.1, eq_of_sameEntries entries entries' h.2]
  | .conditional _ branches otherwise, n, h => by
    cases n <;> simp [sameNode] at h
    next subject' branches' otherwise' =>
      rw [h.1.1, eq_of_sameBranches branches branches' h.1.2,
        eq_of_sameOptional otherwise otherwise' h.2]
  | .sequence _ _ groups, n, h => by
    cases n <;> simp [sameNode] at h
    next id' kind' groups' => rw [h.1.1, h.1.2, eq_of_sameGroups groups groups' h.2]
termination_by structural m => m

theorem eq_of_same : (l m : List Node) → same l m = true → l = m
  | [], m, h => by simpa [same] using h.symm
  | n :: rest, m, h => by
    cases m <;> simp [same] at h
    next n' rest' => rw [eq_of_sameNode n n' h.1, eq_of_same rest rest' h.2]
termination_by structural l => l

theorem eq_of_sameEntries : (l m : List Entry) → sameEntries l m = true → l = m
  | [], m, h => by simpa [sameEntries] using h.symm
  | ⟨text, result, _, _, _, _⟩ :: rest, m, h => by
    rcases m with _ | ⟨⟨text', result', _, _, _, _⟩, rest'⟩ <;> simp [sameEntries] at h
    obtain ⟨⟨⟨⟨⟨⟨h1, h2⟩, rfl⟩, rfl⟩, rfl⟩, rfl⟩, h3⟩ := h
    rw [eq_of_same text text' h1, eq_of_same result result' h2, eq_of_sameEntries rest rest' h3]
termination_by structural l => l

theorem eq_of_sameBranches : (l m : List Branch) → sameBranches l m = true → l = m
  | [], m, h => by simpa [sameBranches] using h.symm
  | ⟨_, content⟩ :: rest, m, h => by
    rcases m with _ | ⟨⟨_, content'⟩, rest'⟩ <;> simp [sameBranches] at h
    obtain ⟨⟨rfl, h1⟩, h2⟩ := h
    rw [eq_of_same content content' h1, eq_of_sameBranches rest rest' h2]
termination_by structural l => l

theorem eq_of_sameOptional : (l m : Option (List Node)) → sameOptional l m = true → l = m
  | none, m, h => by cases m <;> simp_all [sameOptional]
  | some content, m, h => by
    cases m <;> simp [sameOptional] at h
    next content' => rw [eq_of_same content content' h]
termination_by structural l => l

theorem eq_of_sameGroups : (l m : List (List Node)) → sameGroups l m = true → l = m
  | [], m, h => by simpa [sameGroups] using h.symm
  | group :: rest, m, h => by
    cases m <;> simp [sameGroups] at h
    next group' rest' => rw [eq_of_same group group' h.1, eq_of_sameGroups rest rest' h.2]
termination_by structural l => l

end

/-! ## Instances -/

theorem sameNode_iff (m n : Node) : sameNode m n = true ↔ m = n :=
  ⟨eq_of_sameNode m n, fun h => h ▸ sameNode_self m⟩

instance : DecidableEq Node := fun m n => decidable_of_iff _ (sameNode_iff m n)

instance : DecidableEq Entry := fun e f =>
  decidable_of_iff (sameEntries [e] [f] = true)
    ⟨fun h => by simpa using eq_of_sameEntries _ _ h, fun h => h ▸ sameEntries_self [e]⟩

instance : DecidableEq Branch := fun b c =>
  decidable_of_iff (sameBranches [b] [c] = true)
    ⟨fun h => by simpa using eq_of_sameBranches _ _ h, fun h => h ▸ sameBranches_self [b]⟩

end Skein.Content
