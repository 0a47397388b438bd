import Skein.Proofs.Outcome
import Skein.Proofs.Story.Nodes
import Skein.Story.Binary.Reader

set_option autoImplicit false

/-!
# Story: what a file can make its reader do

The counts in a file may say anything.  Still, what a reader takes it takes from the front of the
bytes, and for everything that a file can hold any number of it takes at least a byte.  So a story
has no more records than its file has bytes.

A node is read with a bound on how deep it is nested.  Every level of nesting takes five bytes, a
tag and a count, so the reader at the bound is never asked: the story is the one that is read with
no bound at all.
-/

namespace Skein

/-! ## Records -/

/-- What a file can hold any number of. -/
inductive Record where
  | knot (k : Knot)
  | stitch (s : Stitch)
  | parameter (p : Parameter)
  | gather (g : Gather)
  | node (n : Node)
  | entry (e : Entry)
  | branch (b : Branch)
  /-- An alternative of a sequence. -/
  | group (content : Content)
  | listEntry (e : ListEntry)
  | expression (e : Expression)

/-- The choices, branches, alternatives or list items that a node is made of. -/
def Node.members : Node → List Record
  | .choice _ entries => entries.map .entry
  | .conditional _ branches _ => branches.map .branch
  | .sequence _ _ groups => groups.map .group
  | .list l => l.entries.map .listEntry
  | _ => []

/-- A node with its members and its own expressions, apart from what its content holds. -/
def Node.records (node : Node) : List Record :=
  .node node :: (node.members ++ node.expressions.map .expression)

namespace Content

/-- The records in content, at every depth. -/
def records (content : Content) : List Record := (nodes content).flatMap Node.records

/-- A choice and the records in it. -/
def entryRecords (entry : Entry) : List Record :=
  .entry entry ::
    (records entry.text ++ (records entry.result ++ entry.conditions.map .expression))

/-- A branch and the records in it. -/
def branchRecords (branch : Branch) : List Record :=
  .branch branch :: .expression branch.condition :: records branch.content

/-- An alternative and the records in it. -/
def groupRecords (group : Content) : List Record := .group group :: records group

theorem records_nil : records [] = [] := by rw [records, nodes_nil, List.flatMap_nil]

theorem records_eq (content : Content) :
    records content = content.flatMap fun node => records [node] := by
  induction content with
  | nil => exact records_nil
  | cons node rest ih =>
      rw [List.flatMap_cons, ← ih, records, records, records, nodes_cons, nodes_singleton,
        List.flatMap_append]

theorem length_records_choice (id : NodeId) (entries : List Entry) :
    (records [.choice id entries]).length = 1 + (entries.flatMap entryRecords).length := by
  rw [records, nodes_choice, List.flatMap_cons]
  simp only [Node.records, Node.members, Node.expressions, List.length_append, List.length_cons,
    List.length_map]
  induction entries with
  | nil => rfl
  | cons entry rest ih =>
      simp only [List.flatMap_cons, List.flatMap_append, List.length_append, List.length_cons,
        List.length_map, entryRecords, records] at ih ⊢
      omega

theorem length_records_conditional (subject : Option Expression) (branches : List Branch)
    (otherwise : Option Content) :
    (records [.conditional subject branches otherwise]).length =
      1 + subject.toList.length + (branches.flatMap branchRecords).length +
        (otherwise.toList.flatMap records).length := by
  have hotherwise : (otherwise.toList.flatMap nodes).flatMap Node.records =
      otherwise.toList.flatMap records := List.flatMap_assoc
  rw [records, nodes_conditional, List.flatMap_cons, List.flatMap_append, List.flatMap_assoc,
    hotherwise]
  simp only [Node.records, Node.members, Node.expressions, List.length_append, List.length_cons,
    List.length_map]
  induction branches with
  | nil =>
      simp only [List.flatMap_nil, List.length_nil]
      omega
  | cons branch rest ih =>
      simp only [List.flatMap_cons, List.length_append, List.length_cons, branchRecords,
        records] at ih ⊢
      omega

theorem length_records_sequence (id : NodeId) (kind : SequenceKind) (groups : List Content) :
    (records [.sequence id kind groups]).length =
      1 + (groups.flatMap groupRecords).length := by
  rw [records, nodes_sequence, List.flatMap_cons]
  simp only [Node.records, Node.members, Node.expressions, List.length_append, List.length_cons,
    List.length_map]
  induction groups with
  | nil => rfl
  | cons group rest ih =>
      simp only [List.flatMap_cons, List.flatMap_append, List.length_append, List.length_cons,
        groupRecords, records] at ih ⊢
      omega

/-- A node that holds no content. -/
theorem length_records_leaf {node : Node} (h : node.parts = []) :
    (records [node]).length = 1 + node.members.length + node.expressions.length := by
  rw [records, nodes_leaf h, List.flatMap_singleton, Node.records, List.length_cons,
    List.length_append, List.length_map]
  omega

end Content

/-- A stitch and its gathers. -/
def Stitch.records (s : Stitch) : List Record := .stitch s :: s.gathers.map .gather

/-- A knot and the records in it. -/
def Knot.records (k : Knot) : List Record :=
  .knot k :: (k.parameters.map .parameter ++ (k.stitches.flatMap Stitch.records ++
    (k.gathers.map .gather ++ Content.records k.objects)))

/-- The records of a story. -/
def Script.records (s : Script) : List Record := s.knots.flatMap Knot.records

namespace Binary

open Content

variable {α β : Type}

/-- A reader in two parts: the second one reads what the first one leaves. -/
theorem run_bind (get : Get α) (next : α → Get β) (bytes : Bytes) :
    (get >>= next) bytes = get bytes >>= fun taken => next taken.1 taken.2 := rfl

/-! ## What a reader takes -/

/-- A reader that comes to a result has taken it from the front of the bytes, and the bytes taken
and the credit from earlier ones cover what the result is worth. -/
def Pays (credit : Nat) (get : Get α) (worth : α → Nat) : Prop :=
  ∀ bytes a rest, get bytes = .ok (a, rest) → ∃ taken,
    bytes = taken ++ rest ∧ worth a ≤ credit + taken.length

theorem pays_pure {credit : Nat} {worth : α → Nat} {a : α} (h : worth a ≤ credit) :
    Pays credit (pure a) worth := by
  intro bytes b rest hrun
  cases hrun
  exact ⟨[], rfl, h⟩

theorem pays_fail (credit : Nat) (fault : FormatFault) (worth : α → Nat) :
    Pays credit (Get.fail fault) worth := by
  intro bytes a rest hrun
  cases hrun

/-- What the first reader took is credit for the next one. -/
theorem Pays.bind {credit : Nat} {get : Get α} {next : α → Get β} {worth : α → Nat}
    {total : β → Nat} (hget : Pays 0 get worth)
    (hnext : ∀ a, Pays (credit + worth a) (next a) total) : Pays credit (get >>= next) total := by
  intro bytes b rest hrun
  rw [run_bind] at hrun
  obtain ⟨⟨a, mid⟩, hfirst, hsecond⟩ := Outcome.of_bind_eq_ok hrun
  obtain ⟨front, rfl, hworth⟩ := hget _ _ _ hfirst
  obtain ⟨back, rfl, htotal⟩ := hnext a _ _ _ hsecond
  refine ⟨front ++ back, (List.append_assoc ..).symm, ?_⟩
  rw [List.length_append]
  omega

theorem Pays.mono {credit : Nat} {get : Get α} {worth less : α → Nat} (h : Pays credit get worth)
    (hle : ∀ a, less a ≤ worth a) : Pays credit get less := by
  intro bytes a rest hrun
  obtain ⟨taken, htaken, hworth⟩ := h _ _ _ hrun
  exact ⟨taken, htaken, Nat.le_trans (hle a) hworth⟩

theorem Pays.weaken {credit more : Nat} {get : Get α} {worth : α → Nat} (h : Pays credit get worth)
    (hmore : credit ≤ more) : Pays more get worth := by
  intro bytes a rest hrun
  obtain ⟨taken, htaken, hworth⟩ := h _ _ _ hrun
  exact ⟨taken, htaken, by omega⟩

/-- Without the credit, a reader still pays for the rest. -/
theorem Pays.sub {credit : Nat} {get : Get α} {worth : α → Nat} (h : Pays credit get worth) :
    Pays 0 get fun a => worth a - credit := by
  intro bytes a rest hrun
  obtain ⟨taken, htaken, hworth⟩ := h _ _ _ hrun
  refine ⟨taken, htaken, ?_⟩
  dsimp only
  omega

/-! ## Primitives -/

theorem pays_byte : Pays 0 Get.byte fun _ => 1 := by
  intro bytes b rest hrun
  cases bytes with
  | nil => cases hrun
  | cons first others =>
      cases hrun
      exact ⟨[b], rfl, Nat.le_refl 1⟩

theorem pays_take (size : Nat) : Pays 0 (Get.take size) fun _ => size := by
  intro bytes found rest hrun
  unfold Get.take at hrun
  dsimp only at hrun
  split at hrun
  · cases hrun
  · next hsize =>
    cases hrun
    refine ⟨bytes.take size, (List.take_append_drop size bytes).symm, ?_⟩
    dsimp only
    omega

theorem pays_number (width : Nat) : Pays 0 (Get.number width) fun _ => width :=
  (pays_take width).bind fun _ => pays_pure (by omega)

theorem pays_tagged (what : Tagged) (of? : UInt8 → Option α) :
    Pays 0 (Get.tagged what of?) fun _ => 1 := by
  refine pays_byte.bind fun tag => ?_
  cases of? tag with
  | some a => exact pays_pure (Nat.le_refl 1)
  | none => exact pays_fail _ _ _

theorem pays_bool : Pays 0 Get.bool fun _ => 1 := pays_tagged .bool boolOf?

theorem pays_string : Pays 0 Get.string fun _ => 2 := by
  refine (pays_number 2).bind fun size => (pays_take size).bind fun bytes => ?_
  cases String.fromUTF8? ⟨bytes.toArray⟩ with
  | some s => exact pays_pure (by omega)
  | none => exact pays_fail _ _ _

theorem pays_groups (bound : Nat) : Pays 0 (Get.groups bound) fun _ => 1 := by
  induction bound with
  | zero => exact pays_fail _ _ _
  | succ bound ih =>
      refine pays_byte.bind fun group => ?_
      dsimp only
      split
      · exact pays_pure (Nat.le_refl 1)
      · exact ih.bind fun _ => pays_pure (by omega)

theorem pays_id : Pays 0 Get.id fun _ => 1 := by
  refine (pays_groups maxGroups).bind fun n => ?_
  split
  · exact pays_pure (Nat.le_refl 1)
  · exact pays_fail _ _ _

theorem pays_expression : Pays 0 Get.expression fun _ => 2 := by
  refine pays_string.bind fun source => ?_
  cases Expression.parse Symbols.none source with
  | ok e => exact pays_pure (Nat.le_refl 2)
  | error fault => exact pays_fail _ _ _

theorem pays_header : Pays 0 Get.header fun _ => 5 := by
  have hversion : Pays 4
      (Get.byte >>= fun found =>
        if found ≠ version then Get.fail (.unsupportedVersion found) else pure ())
      fun _ => 5 := by
    refine pays_byte.bind fun found => ?_
    split
    · exact pays_fail _ _ _
    · exact pays_pure (Nat.le_refl 5)
  refine (pays_take magic.length).bind fun found => ?_
  dsimp only
  split
  · exact Pays.bind (pays_fail 0 _ fun _ => 0) fun _ => hversion
  · exact hversion

/-! ## Lists and options -/

section Lists

variable {get : Get α} {records : α → List β}

/-- Each turn of the loop pays for what it adds. -/
theorem Pays.times (h : Pays 0 get fun a => (records a).length) (extra : Nat) {credit : Nat}
    {taken : List α} (hcredit : extra + (taken.flatMap records).length ≤ credit) (count : Nat) :
    Pays credit (Get.times get taken count) fun list =>
      extra + (list.flatMap records).length := by
  induction count generalizing taken credit with
  | zero =>
      have hlength := ((List.reverse_perm taken).flatMap_right records).length_eq
      exact pays_pure (by omega)
  | succ count ih =>
      refine h.bind fun a => ih ?_
      rw [List.flatMap_cons, List.length_append]
      omega

theorem Pays.counted (h : Pays 0 get fun a => (records a).length) (width : Nat) :
    Pays 0 (Get.counted width get) fun list => width + (list.flatMap records).length :=
  (pays_number width).bind fun count => h.times width (by simp) count

theorem Pays.optional (h : Pays 0 get fun a => (records a).length) :
    Pays 0 (Get.optional get) fun option =>
      1 + (option.toList.flatMap records).length := by
  refine pays_bool.bind fun present => ?_
  cases present with
  | true =>
      refine h.bind fun a => pays_pure ?_
      simp
  | false => exact pays_pure (by simp)

/-- A list of things that each take a byte. -/
theorem Pays.counted_one {worth : α → Nat} (h : Pays 0 get worth) (hone : ∀ a, 1 ≤ worth a)
    (width : Nat) : Pays 0 (Get.counted width get) fun list => width + list.length := by
  have heach : Pays 0 get fun a => [a].length := h.mono hone
  refine (heach.counted width).mono fun list => Nat.le_of_eq ?_
  rw [List.flatMap_singleton']

theorem Pays.optional_one {worth : α → Nat} (h : Pays 0 get worth) (hone : ∀ a, 1 ≤ worth a) :
    Pays 0 (Get.optional get) fun option => 1 + option.toList.length := by
  have heach : Pays 0 get fun a => [a].length := h.mono hone
  refine heach.optional.mono fun option => Nat.le_of_eq ?_
  rw [List.flatMap_singleton']

end Lists

theorem pays_expressions :
    Pays 0 (Get.counted 2 Get.expression) fun list => 2 + list.length :=
  pays_expression.counted_one (fun _ => by omega) 2

/-! ## Content -/

theorem pays_divert : Pays 0 Get.divert fun d => d.args.length := by
  refine (pays_tagged .divertKind divertOf?).bind fun kind => ?_
  refine (pays_string.optional_one fun _ => by omega).bind fun target => ?_
  refine pays_expressions.bind fun args => pays_pure ?_
  dsimp only
  omega

theorem pays_global : Pays 0 Get.global fun _ => 1 :=
  pays_string.bind fun _ => pays_expression.bind fun _ => pays_bool.bind fun _ =>
    pays_pure (by omega)

theorem pays_listEntry : Pays 0 Get.listEntry fun _ => 1 :=
  pays_string.bind fun _ => (pays_number 8).bind fun _ => pays_bool.bind fun _ =>
    pays_pure (by omega)

theorem pays_list : Pays 0 Get.list fun l => l.entries.length := by
  refine pays_string.bind fun name => ?_
  have hentries := pays_listEntry.counted_one (fun _ => Nat.le_refl 1) 2
  refine hentries.bind fun entries => pays_pure ?_
  dsimp only
  omega

/-- A node that holds no content is paid for with its members and its expressions. -/
theorem pays_leaf {credit : Nat} {node : Node} (hparts : node.parts = [])
    (hcredit : 1 + node.members.length + node.expressions.length ≤ credit) :
    Pays credit (pure node) fun n => (records [n]).length := by
  refine pays_pure ?_
  rwa [length_records_leaf hparts]

section Content

variable {content : Get Content} (h : Pays 0 content fun c => (groupRecords c).length)

include h

theorem Pays.entry : Pays 0 (Get.entry content) fun e => (entryRecords e).length := by
  refine pays_byte.bind fun flags => h.bind fun text => h.bind fun result => ?_
  refine pays_expressions.bind fun conditions => pays_pure ?_
  simp only [entryRecords, groupRecords, List.length_cons, List.length_append, List.length_map]
  omega

theorem Pays.branch : Pays 0 (Get.branch content) fun b => (branchRecords b).length := by
  refine pays_expression.bind fun condition => h.bind fun body => pays_pure ?_
  simp only [branchRecords, groupRecords, List.length_cons]
  omega

/-- The tag byte of a node pays for the node itself. -/
theorem Pays.nodeOf (tag : UInt8) :
    Pays 1 (Get.nodeOf content tag) fun n => (records [n]).length := by
  unfold Get.nodeOf
  split
  · exact pays_string.bind fun _ => pays_leaf rfl (Nat.le_add_right 1 2)
  · exact pays_leaf rfl (Nat.le_refl 1)
  · exact pays_leaf rfl (Nat.le_refl 1)
  · refine pays_divert.bind fun d => pays_leaf rfl ?_
    simp only [Node.members, Node.expressions, List.length_nil]
    omega
  · refine pays_id.bind fun i => (h.entry.counted 2).bind fun entries => pays_pure ?_
    rw [length_records_choice]
    omega
  · exact (pays_tagged .marker markerOf?).bind fun _ => pays_leaf rfl (Nat.le_add_right 1 1)
  · exact pays_string.bind fun _ => pays_leaf rfl (Nat.le_add_right 1 2)
  · exact pays_expression.bind fun _ => pays_leaf rfl (Nat.le_add_right 2 1)
  · refine (pays_expression.optional_one fun _ => by omega).bind fun subject => ?_
    refine (h.branch.counted 2).bind fun branches => ?_
    have hcontent : Pays 0 content fun c => (records c).length := h.mono fun _ => Nat.le_succ _
    refine hcontent.optional.bind fun otherwise => pays_pure ?_
    rw [length_records_conditional]
    omega
  · refine pays_id.bind fun i => (pays_tagged .sequenceKind sequenceOf?).bind fun kind => ?_
    refine (h.counted 2).bind fun groups => pays_pure ?_
    rw [length_records_sequence]
    omega
  · exact pays_global.bind fun _ => pays_leaf rfl (Nat.le_refl 2)
  · exact pays_expression.bind fun _ => pays_leaf rfl (Nat.le_add_right 2 1)
  · refine pays_list.bind fun l => pays_leaf rfl ?_
    simp only [Node.members, Node.expressions, List.length_map, List.length_nil]
    omega
  · exact pays_fail _ _ _

theorem Pays.node : Pays 0 (Get.byte >>= Get.nodeOf content) fun n => (records [n]).length :=
  pays_byte.bind h.nodeOf

end Content

/-- The count in front of content pays for the content as an alternative. -/
theorem Pays.content {node : Get Node} (h : Pays 0 node fun n => (records [n]).length) :
    Pays 0 (Get.counted 4 node) fun c => (groupRecords c).length := by
  refine (h.counted 4).mono fun c => ?_
  rw [← records_eq, groupRecords, List.length_cons]
  omega

theorem pays_node (bound : Nat) : Pays 0 (Get.node bound) fun n => (records [n]).length := by
  induction bound with
  | zero => exact pays_fail _ _ _
  | succ bound ih => exact ih.content.node

theorem pays_content (bound : Nat) :
    Pays 0 (Get.content bound) fun c => (groupRecords c).length := (pays_node bound).content

/-! ## Knots -/

theorem pays_parameter : Pays 0 Get.parameter fun _ => 1 :=
  pays_string.bind fun _ => pays_bool.bind fun _ => pays_pure (by omega)

theorem pays_gather : Pays 0 Get.gather fun _ => 1 :=
  pays_string.bind fun _ => pays_id.bind fun _ => (pays_number 2).bind fun _ =>
    (pays_number 4).bind fun _ => pays_pure (by omega)

theorem pays_gathers : Pays 0 (Get.counted 2 Get.gather) fun list => 2 + list.length :=
  pays_gather.counted_one (fun _ => Nat.le_refl 1) 2

theorem pays_stitch : Pays 0 Get.stitch fun s => s.records.length := by
  refine pays_string.bind fun name => pays_id.bind fun i => (pays_number 4).bind fun offset => ?_
  refine pays_gathers.bind fun gathers => pays_pure ?_
  simp only [Stitch.records, List.length_cons, List.length_map]
  omega

/-- Takes a knot, given how to take content. -/
def knotBy (content : Get Content) : Get Knot := do
  let name ← Get.string
  let i ← Get.id
  let parameters ← Get.counted 2 Get.parameter
  let stitches ← Get.counted 2 Get.stitch
  let gathers ← Get.counted 2 Get.gather
  let isFunction ← Get.bool
  let objects ← content
  return {
    name := name, id := i, parameters := parameters, objects := objects
    stitches := stitches, gathers := gathers, isFunction := isFunction }

/-- Takes the knots of a story, given how to take content. -/
def knotsBy (content : Get Content) : Get (List Knot) := do
  Get.header
  Get.counted 4 (knotBy content)

theorem Pays.knot {content : Get Content} (h : Pays 0 content fun c => (groupRecords c).length) :
    Pays 0 (knotBy content) fun k => k.records.length := by
  refine pays_string.bind fun name => pays_id.bind fun i => ?_
  refine (pays_parameter.counted_one (fun _ => Nat.le_refl 1) 2).bind fun parameters => ?_
  refine (pays_stitch.counted 2).bind fun stitches => pays_gathers.bind fun gathers => ?_
  refine pays_bool.bind fun isFunction => h.bind fun objects => pays_pure ?_
  simp only [Knot.records, groupRecords, List.length_cons, List.length_append, List.length_map]
  omega

theorem Pays.knots {content : Get Content} (h : Pays 0 content fun c => (groupRecords c).length) :
    Pays 0 (knotsBy content) fun list => (list.flatMap Knot.records).length := by
  have hcounted : Pays 0 (Get.counted 4 (knotBy content)) fun list =>
      (list.flatMap Knot.records).length := (h.knot.counted 4).mono fun _ => Nat.le_add_left _ _
  exact pays_header.bind fun _ => hcounted.weaken (Nat.zero_le _)

/-! ## Readers that agree on few bytes -/

/-- Two readers do the same on all runs of bytes up to a size. -/
def Agree (size : Nat) (get other : Get α) : Prop :=
  ∀ bytes : Bytes, bytes.length ≤ size → get bytes = other bytes

theorem Agree.refl (size : Nat) (get : Get α) : Agree size get get := fun _ _ => rfl

theorem Agree.mono {size less : Nat} {get other : Get α} (h : Agree size get other)
    (hle : less ≤ size) : Agree less get other :=
  fun bytes hbytes => h bytes (Nat.le_trans hbytes hle)

/-- Behind what pays for itself, the readers have to agree only on what can be left. -/
theorem Agree.bind {size : Nat} {get other : Get α} {next later : α → Get β} {worth : α → Nat}
    (hget : Agree size get other) (hpays : Pays 0 other worth)
    (hnext : ∀ a left, left + worth a ≤ size → Agree left (next a) (later a)) :
    Agree size (get >>= next) (other >>= later) := by
  intro bytes hbytes
  rw [run_bind, run_bind, hget bytes hbytes]
  cases hrun : other bytes with
  | error fault => rfl
  | ok result =>
      obtain ⟨a, rest⟩ := result
      obtain ⟨taken, rfl, hworth⟩ := hpays _ _ _ hrun
      rw [List.length_append] at hbytes
      exact hnext a rest.length (by omega) rest (Nat.le_refl _)

/-- The same reader first, and then readers that agree. -/
theorem Agree.after {size : Nat} {get : Get α} {next later : α → Get β} {worth : α → Nat}
    (hpays : Pays 0 get worth) (hnext : ∀ a, Agree size (next a) (later a)) :
    Agree size (get >>= next) (get >>= later) :=
  (Agree.refl size get).bind hpays fun a _ hleft => (hnext a).mono (by omega)

/-- Readers that agree first, and then the same one. -/
theorem Agree.andThen {size : Nat} {get other : Get α} {worth : α → Nat}
    (hget : Agree size get other) (hpays : Pays 0 other worth) (next : α → Get β) :
    Agree size (get >>= next) (other >>= next) :=
  hget.bind hpays fun a _ _ => Agree.refl _ (next a)

section Lists

variable {size : Nat} {get other : Get α} {worth : α → Nat}

theorem Agree.times (h : Agree size get other) (hpays : Pays 0 other worth) (taken : List α)
    (count : Nat) : Agree size (Get.times get taken count) (Get.times other taken count) := by
  induction count generalizing taken with
  | zero => exact Agree.refl size _
  | succ count ih => exact h.bind hpays fun a _ hleft => (ih (a :: taken)).mono (by omega)

/-- The readers have to agree only on what is left behind the count. -/
theorem Agree.counted {width : Nat} (hpays : Pays 0 other worth)
    (h : ∀ left, left + width ≤ size → Agree left get other) :
    Agree size (Get.counted width get) (Get.counted width other) :=
  (Agree.refl size _).bind (pays_number width) fun count left hleft =>
    (h left hleft).times hpays [] count

theorem Agree.optional (h : Agree size get other) (hpays : Pays 0 other worth) :
    Agree size (Get.optional get) (Get.optional other) := by
  refine Agree.after pays_bool fun present => ?_
  cases present with
  | true => exact h.andThen hpays _
  | false => exact Agree.refl size _

end Lists

section Content

variable {size : Nat} {content other : Get Content} (h : Agree size content other)
  (hpays : Pays 0 other fun c => (groupRecords c).length)

include h hpays

theorem Agree.entry : Agree size (Get.entry content) (Get.entry other) := by
  refine Agree.after pays_byte fun flags => h.bind hpays fun text left hleft => ?_
  exact (h.mono (by omega)).andThen hpays _

theorem Agree.branch : Agree size (Get.branch content) (Get.branch other) :=
  Agree.after pays_expression fun _ => h.andThen hpays _

theorem Agree.nodeOf (tag : UInt8) :
    Agree size (Get.nodeOf content tag) (Get.nodeOf other tag) := by
  unfold Get.nodeOf
  split
  -- Only blocks of choices, conditionals and sequences ask for content.
  case h_5 =>
    have hentries : Agree size (Get.counted 2 (Get.entry content)) (.counted 2 (.entry other)) :=
      .counted hpays.entry fun _ hleft => (h.entry hpays).mono (by omega)
    exact Agree.after pays_id fun _ => hentries.andThen (hpays.entry.counted 2) _
  case h_9 =>
    have hbranches : Agree size (Get.counted 2 (Get.branch content)) (.counted 2 (.branch other)) :=
      .counted hpays.branch fun _ hleft => (h.branch hpays).mono (by omega)
    refine Agree.after (pays_expression.optional_one fun _ => by omega) fun subject => ?_
    refine hbranches.bind (hpays.branch.counted 2) fun branches left hleft => ?_
    exact ((h.mono (by omega)).optional hpays).andThen hpays.optional _
  case h_10 =>
    have hgroups : Agree size (Get.counted 2 content) (.counted 2 other) :=
      .counted hpays fun _ hleft => h.mono (by omega)
    refine Agree.after pays_id fun i => ?_
    refine Agree.after (pays_tagged .sequenceKind sequenceOf?) fun kind => ?_
    exact hgroups.andThen (hpays.counted 2) _
  all_goals exact Agree.refl size _

end Content

theorem Agree.knots {size : Nat} {content other : Get Content}
    (hpays : Pays 0 other fun c => (groupRecords c).length)
    (h : ∀ left, left + 5 ≤ size → Agree left content other) :
    Agree size (knotsBy content) (knotsBy other) := by
  refine (Agree.refl size Get.header).bind pays_header fun _ left hleft => ?_
  have hknot : Agree left (knotBy content) (knotBy other) := by
    refine Agree.after pays_string fun name => Agree.after pays_id fun i => ?_
    refine Agree.after (pays_parameter.counted_one (fun _ => Nat.le_refl 1) 2) fun parameters => ?_
    refine Agree.after (pays_stitch.counted 2) fun stitches => ?_
    refine Agree.after pays_gathers fun gathers => Agree.after pays_bool fun isFunction => ?_
    exact (h left hleft).andThen hpays _
  exact Agree.counted hpays.knot fun _ hless => hknot.mono (by omega)

/-! ## How deep a reader goes -/

/-- Takes a node nested at most `bound` deep; for deeper ones another reader is asked. -/
def nodeAbove (deep : Get Node) : (bound : Nat) → Get Node
  | 0 => deep
  | bound + 1 => Get.byte >>= Get.nodeOf (Get.counted 4 (nodeAbove deep bound))

/-- Takes content nested at most `bound` deep; for deeper nodes another reader is asked. -/
def contentAbove (deep : Get Node) (bound : Nat) : Get Content :=
  Get.counted 4 (nodeAbove deep bound)

/-- The reader for deeper nodes is not asked: it would take five bytes to get a level deeper. -/
theorem agree_nodeAbove (deep : Get Node) {bound enough size : Nat} (hbound : size < 5 * bound)
    (henough : size < 5 * enough) : Agree size (nodeAbove deep bound) (Get.node enough) := by
  induction bound generalizing enough size with
  | zero => omega
  | succ bound ih =>
      obtain ⟨enough, rfl⟩ : ∃ less, enough = less + 1 := ⟨enough - 1, by omega⟩
      refine (Agree.refl size Get.byte).bind pays_byte fun tag left hleft => ?_
      refine Agree.nodeOf ?_ (pays_content enough) tag
      exact Agree.counted (pays_node enough) fun _ hless => ih (by omega) (by omega)

theorem agree_contentAbove (deep : Get Node) {bound enough size : Nat}
    (hbound : size < 5 * bound + 4) (henough : size < 5 * enough + 4) :
    Agree size (contentAbove deep bound) (Get.content enough) :=
  Agree.counted (pays_node enough) fun _ hleft => agree_nodeAbove deep (by omega) (by omega)

theorem content_eq (bound : Nat) :
    Get.content bound = contentAbove (Get.fail .unexpectedEnd) bound := by
  have hnode : Get.node bound = nodeAbove (Get.fail .unexpectedEnd) bound := by
    induction bound with
    | zero => rfl
    | succ bound ih => rw [nodeAbove, ← ih]; rfl
  rw [contentAbove, ← hnode]
  rfl

/-! ## Reading with no bound -/

/-- A reader of content that asks itself for the content of nodes. -/
def IsUnbounded (content : Get Content) : Prop :=
  content = Get.counted 4 (Get.byte >>= Get.nodeOf content)

theorem IsUnbounded.eq_contentAbove {content : Get Content} (h : IsUnbounded content)
    (bound : Nat) : content = contentAbove (Get.byte >>= Get.nodeOf content) bound := by
  have hnode : nodeAbove (Get.byte >>= Get.nodeOf content) bound =
      Get.byte >>= Get.nodeOf content := by
    induction bound with
    | zero => rfl
    | succ bound ih => rw [nodeAbove, ih, ← h]
  rw [contentAbove, hnode]
  exact h

/-- Takes content with as many levels as there are bytes. -/
def unbounded : Get Content := fun bytes => Get.content bytes.length bytes

theorem agree_unbounded {size enough : Nat} (h : size < 5 * enough + 4) :
    Agree size unbounded (Get.content enough) := by
  intro bytes hbytes
  show Get.content bytes.length bytes = _
  rw [content_eq bytes.length]
  exact agree_contentAbove _ (by omega) (by omega) bytes (Nat.le_refl _)

theorem isUnbounded_unbounded : IsUnbounded unbounded := by
  funext bytes
  have hstep : Agree bytes.length (Get.counted 4 (Get.byte >>= Get.nodeOf unbounded))
      (Get.content (bytes.length + 1)) := by
    refine Agree.counted (pays_node _) fun left hleft => ?_
    refine (Agree.refl left Get.byte).bind pays_byte fun tag less hless => ?_
    exact (agree_unbounded (by omega)).nodeOf (pays_content _) tag
  rw [hstep bytes (Nat.le_refl _)]
  exact agree_unbounded (by omega) bytes (Nat.le_refl _)

/-- There is no other reader that asks itself. -/
theorem IsUnbounded.eq_unbounded {content : Get Content} (h : IsUnbounded content) :
    content = unbounded := by
  funext bytes
  rw [h.eq_contentAbove (bytes.length + 1)]
  have hagree := agree_contentAbove (Get.byte >>= Get.nodeOf content)
    (show bytes.length < 5 * (bytes.length + 1) + 4 by omega)
    (show bytes.length < 5 * bytes.length + 4 by omega)
  exact hagree bytes (Nat.le_refl _)

/-! ## Files -/

/-- The story with a binary form, given how to take content. -/
def decodeBy (content : Get Content) (bytes : Bytes) : Except StoryFault Script :=
  match knotsBy content bytes with
  | .error fault => .error (.format fault)
  | .ok (knots, _) =>
    match Script.ofKnots knots with
    | .error fault => .error (.structural fault)
    | .ok script => .ok script

theorem decode_eq (bytes : Bytes) :
    decode bytes = decodeBy (Get.content (bytes.length + 1)) bytes := rfl

theorem decodeBy_of_agree {content : Get Content} {enough : Nat} {bytes : Bytes}
    (h : ∀ left, left + 5 ≤ bytes.length → Agree left content (Get.content enough)) :
    decodeBy content bytes = decodeBy (Get.content enough) bytes := by
  have hknots := Agree.knots (pays_content enough) h bytes (Nat.le_refl _)
  rw [decodeBy, hknots, ← decodeBy]

/-- No bound is met: a file is read as by the reader that has none. -/
theorem decode_eq_unbounded (bytes : Bytes) : decode bytes = decodeBy unbounded bytes := by
  rw [decode_eq]
  exact (decodeBy_of_agree fun left hleft => agree_unbounded (by omega)).symm

theorem length_records_of_decode {bytes : Bytes} {script : Script}
    (h : decode bytes = .ok script) : script.records.length ≤ bytes.length := by
  unfold decode at h
  split at h
  · cases h
  · next knots rest hrun =>
    obtain ⟨taken, rfl, hworth⟩ := (pays_content _).knots _ _ _ hrun
    split at h
    · cases h
    · next found hscript =>
      cases h
      have hknots : script.knots = knots := Script.knots_of_ofKnots hscript
      rw [Script.records, hknots, List.length_append]
      dsimp only at hworth
      omega

/-- A reader fails, or it takes from the front of the bytes, and then at least one byte for each
record of its result. -/
def Advances (get : Get α) (records : α → List Record) : Prop :=
  ∀ bytes, (∃ fault, get bytes = .error fault) ∨
    ∃ a taken rest, get bytes = .ok (a, rest) ∧ bytes = taken ++ rest ∧
      (records a).length ≤ taken.length

theorem Pays.advances {get : Get α} {worth : α → Nat} {records : α → List Record}
    (h : Pays 0 get worth) (hworth : ∀ a, (records a).length ≤ worth a) :
    Advances get records := by
  intro bytes
  cases hrun : get bytes with
  | error fault => exact .inl ⟨fault, rfl⟩
  | ok result =>
      obtain ⟨a, rest⟩ := result
      obtain ⟨taken, htaken, hpaid⟩ := h _ _ _ hrun
      have hle := hworth a
      exact .inr ⟨a, taken, rest, rfl, htaken, by omega⟩

theorem Advances.pays {get : Get α} {records : α → List Record} (h : Advances get records) :
    Pays 0 get fun a => (records a).length := by
  intro bytes a rest hrun
  rcases h bytes with ⟨fault, hfault⟩ | ⟨found, taken, left, hfound, htaken, hlength⟩
  · rw [hrun] at hfault
    cases hfault
  · rw [hrun] at hfound
    cases hfound
    exact ⟨taken, htaken, by rwa [Nat.zero_add]⟩

/-- What all readers do with any bytes, with any bound on the depth of content. -/
structure EachAdvances (bound : Nat) : Prop where
  byte : Advances Get.byte fun _ => []
  take : ∀ size, Advances (Get.take size) fun _ => []
  number : ∀ width, Advances (Get.number width) fun _ => []
  tagged : ∀ {kind : Type} what (of? : UInt8 → Option kind),
    Advances (Get.tagged what of?) fun _ => []
  bool : Advances Get.bool fun _ => []
  string : Advances Get.string fun _ => []
  groups : ∀ count, Advances (Get.groups count) fun _ => []
  id : Advances Get.id fun _ => []
  counted : ∀ {kind : Type} {get : Get kind} {own : kind → List Record} width,
    Advances get own → Advances (Get.counted width get) fun list => list.flatMap own
  optional : ∀ {kind : Type} {get : Get kind} {own : kind → List Record},
    Advances get own → Advances (Get.optional get) fun option => option.toList.flatMap own
  expression : Advances Get.expression fun e => [.expression e]
  expressions : Advances (Get.counted 2 Get.expression) fun list => list.map .expression
  divert : Advances Get.divert fun d => d.args.map .expression
  global : Advances Get.global fun g => [.expression g.init]
  listEntry : Advances Get.listEntry fun e => [.listEntry e]
  list : Advances Get.list fun l => l.entries.map .listEntry
  entry : Advances (Get.entry (Get.content bound)) entryRecords
  branch : Advances (Get.branch (Get.content bound)) branchRecords
  group : Advances (Get.content bound) groupRecords
  content : Advances (Get.content bound) records
  /-- The tag byte, which is taken before, is left to pay for the node itself. -/
  nodeOf : ∀ tag, Advances (Get.nodeOf (Get.content bound) tag) fun n => (records [n]).tail
  node : Advances (Get.node bound) fun n => records [n]
  parameter : Advances Get.parameter fun p => [.parameter p]
  gather : Advances Get.gather fun g => [.gather g]
  gathers : Advances (Get.counted 2 Get.gather) fun list => list.map .gather
  stitch : Advances Get.stitch Stitch.records
  header : Advances Get.header fun _ => []
  knot : Advances (Get.knot bound) Knot.records
  knots : Advances (Get.knots bound) fun list => list.flatMap Knot.records

theorem eachAdvances (bound : Nat) : EachAdvances bound where
  byte := pays_byte.advances fun _ => Nat.zero_le _
  take size := (pays_take size).advances fun _ => Nat.zero_le _
  number width := (pays_number width).advances fun _ => Nat.zero_le _
  tagged what of? := (pays_tagged what of?).advances fun _ => Nat.zero_le _
  bool := pays_bool.advances fun _ => Nat.zero_le _
  string := pays_string.advances fun _ => Nat.zero_le _
  groups count := (pays_groups count).advances fun _ => Nat.zero_le _
  id := pays_id.advances fun _ => Nat.zero_le _
  counted width h := (h.pays.counted width).advances fun _ => Nat.le_add_left _ _
  optional h := h.pays.optional.advances fun _ => Nat.le_add_left _ _
  expression := pays_expression.advances fun _ => Nat.le_succ 1
  expressions := pays_expressions.advances fun _ => by simp
  divert := pays_divert.advances fun _ => by simp
  global := pays_global.advances fun _ => Nat.le_refl 1
  listEntry := pays_listEntry.advances fun _ => Nat.le_refl 1
  list := pays_list.advances fun _ => by simp
  entry := (pays_content bound).entry.advances fun _ => Nat.le_refl _
  branch := (pays_content bound).branch.advances fun _ => Nat.le_refl _
  group := (pays_content bound).advances fun _ => Nat.le_refl _
  content := (pays_content bound).advances fun _ => Nat.le_succ _
  nodeOf tag := ((pays_content bound).nodeOf tag).sub.advances fun _ => by simp
  node := (pays_node bound).advances fun _ => Nat.le_refl _
  parameter := pays_parameter.advances fun _ => Nat.le_refl 1
  gather := pays_gather.advances fun _ => Nat.le_refl 1
  gathers := pays_gathers.advances fun _ => by simp
  stitch := pays_stitch.advances fun _ => Nat.le_refl _
  header := pays_header.advances fun _ => Nat.zero_le _
  knot := (pays_content bound).knot.advances fun _ => Nat.le_refl _
  knots := (pays_content bound).knots.advances fun _ => Nat.le_refl _

/-- Whatever the bytes are and whatever the counts in them say, each reader fails or takes at least
one byte for each record.  The story that is read is the one that the only reader with no bound
reads.  It is also read by one that asks any other reader for nodes nested deeper than a fifth of
the number of bytes, so no node is looked for at such a depth.  And the story has at most as many
records as there are bytes. -/
theorem bounds_of_decode (bytes : Bytes) :
    (∀ bound, EachAdvances bound) ∧
      (∃ content, IsUnbounded content ∧ (∀ other, IsUnbounded other → other = content) ∧
        decode bytes = decodeBy content bytes) ∧
      (∀ deep bound, bytes.length / 5 ≤ bound →
        decode bytes = decodeBy (contentAbove deep bound) bytes) ∧
      ∀ script, decode bytes = .ok script → script.records.length ≤ bytes.length := by
  refine ⟨eachAdvances, ?_, ?_, fun script => length_records_of_decode⟩
  · exact ⟨unbounded, isUnbounded_unbounded, fun other h => h.eq_unbounded,
      decode_eq_unbounded bytes⟩
  · intro deep bound hbound
    rw [decode_eq]
    refine (decodeBy_of_agree fun left hleft => ?_).symm
    exact agree_contentAbove deep (by omega) (by omega)

/-- A file with one knot that is a sequence of one alternative, which is glue.  The count of the
alternative's nodes is given. -/
def glueFile (count : UInt8) : Bytes :=
  magic ++ [version, 1, 0, 0, 0, 1, 0, 0x6b, 0x80, 0, 0, 0, 0, 0, 0, 0, 1, 0, 0, 0, 9, 0x81, 0, 1,
    0, count, 0, 0, 0, 2]

/-- The story of the file has four records.  With a count that is too large the bytes run out,
also when anything is taken for a node at the seventh level. -/
theorem bounds_of_decode_glueFile :
    (∃ script, decode (glueFile 1) = .ok script ∧ script.records.length = 4 ∧
      script.records.length ≤ 34) ∧
      (decode (glueFile 2)).toOption = none ∧
      decode (glueFile 2) = decodeBy (contentAbove (pure .glue) 6) (glueFile 2) := by
  have hdecode : ((decode (glueFile 1)).toOption.map fun s => s.records.length) = some 4 := by
    decide +kernel
  refine ⟨?_, by decide +kernel, (bounds_of_decode (glueFile 2)).2.2.1 _ 6 (by decide)⟩
  cases hscript : decode (glueFile 1) with
  | error fault =>
      rw [hscript] at hdecode
      cases hdecode
  | ok script =>
      rw [hscript] at hdecode
      have hbound := (bounds_of_decode (glueFile 1)).2.2.2 script hscript
      exact ⟨script, rfl, Option.some.inj hdecode, hbound⟩

end Binary

end Skein
